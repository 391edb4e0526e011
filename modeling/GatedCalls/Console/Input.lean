import GatedCalls.Text.Utf8

/-!
# The input of a console

Bytes arrive in pieces, at times of their own, and are read line by line. A line ends after its line
feed; what is left when the input has ended is a last line if it is not empty. `Reader.next?` gives
the next line as soon as it can be told, so the pieces the bytes came in do not matter.
-/

namespace GatedCalls.Console

/-- What a read of one line finds. -/
inductive LineRead
  | line (text : String)
  | ended
  | undecodable (fault : Text.Utf8.Fault)
deriving DecidableEq, Inhabited

/-- The bytes that arrived and were not read, and whether no more will arrive. -/
structure Reader where
  unread : List UInt8
  ended : Bool
deriving DecidableEq, Inhabited

def lineFeed : UInt8 := 10

/-- The bytes up to and with the first line feed, and the bytes after it. -/
def splitLine? : List UInt8 → Option (List UInt8 × List UInt8)
  | [] => none
  | b :: rest =>
    if b = lineFeed then some ([b], rest) else (splitLine? rest).map fun p => (b :: p.1, p.2)

namespace Reader

def feed (r : Reader) (bytes : List UInt8) : Reader := { r with unread := r.unread ++ bytes }

def close (r : Reader) : Reader := { r with ended := true }

/-- The bytes of the next line and the reader after it, once they are all there. At the end of the
input the next line is what is left. -/
def take? (r : Reader) : Option (List UInt8 × Reader) :=
  match splitLine? r.unread with
  | some (line, rest) => some (line, { r with unread := rest })
  | none => if r.ended then some (r.unread, { r with unread := [] }) else none

/-- What a read finds, and the reader after it; nothing while the read has to wait. -/
def next? (r : Reader) : Option (LineRead × Reader) :=
  r.take?.map fun p =>
    (match p.1 with
      | [] => .ended
      | bytes => match Text.Utf8.fault? bytes with
        | none => .line ((Text.Utf8.decode? bytes).getD "")
        | some f => .undecodable f, p.2)

end Reader

/-- Where the input is: at rest, in a read, or closed for good. A read owns the reader until it is
collected. -/
inductive Input
  | idle (r : Reader)
  | reading (r : Reader)
  | closed
deriving DecidableEq, Inhabited

namespace Input

/-- The reader, wherever it is. -/
def reader? : Input → Option Reader
  | idle r | reading r => some r
  | closed => none

def isReading : Input → Bool
  | reading _ => true
  | _ => false

def mapReader (f : Reader → Reader) : Input → Input
  | idle r => idle (f r)
  | reading r => reading (f r)
  | closed => closed

def feed (i : Input) (bytes : List UInt8) : Input := i.mapReader (·.feed bytes)

def close (i : Input) : Input := i.mapReader Reader.close

end Input

end GatedCalls.Console
