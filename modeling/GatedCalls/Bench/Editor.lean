import GatedCalls.Json.Decoder
import GatedCalls.Server.Client

/-!
# A stream editor as a server

A stream editor answers each line that it reads with what its edits make of the line, so with an
edit for every request of a client it serves as a tool server, and one that need not answer two
requests alike. Only edits of two forms are known: a request is replaced by a reply that repeats the
number of the request, or it is kept waiting for a while.
-/

namespace GatedCalls.Bench

open Server (Answer ListedTool Query Refusal)

/-- Which requests an edit is for. -/
inductive Edit.Address
  /-- The one on the line with this number. -/
  | line (number : Nat)
  /-- Those that go by this name, in which a point stands for any character. -/
  | name (pattern : List Char)

/-- What an edit does about a request. -/
inductive Edit.Deed
  /-- It is replaced by the text, in which nothing stands for the number of the request. -/
  | reply (text : List (Option Char))
  | delay

structure Edit where
  address : Edit.Address
  deed : Edit.Deed

namespace Edit

/-- The pattern that finds the number of a request. -/
def pattern : List Char := "s/.*\"id\":\\([0-9]*\\).*/".toList

/-- The end of an edit that prints what it made. -/
def ending : List Char := "/p".toList

/-- The command that lets some seconds pass. -/
def pause : List Char := "e sleep ".toList

/-- The text of a reply up to the end of the edit. -/
def reply? : List Char → Option (List (Option Char))
  | '\\' :: '1' :: rest => (reply? rest).map (none :: ·)
  | '\\' :: _ | '&' :: _ | '\n' :: _ | [] => none
  | '/' :: rest => if '/' :: rest = ending then some [] else none
  | c :: rest => (reply? rest).map (some c :: ·)

/-- An address, and the edit behind it. -/
def address? : List Char → Option (Address × List Char)
  | '/' :: '"' :: rest =>
    let name := rest.takeWhile fun c => c.isAlphanum || c == '_' || c == '.'
    match rest.drop name.length with
    | '"' :: '/' :: rest => some (.name name, rest)
    | _ => none
  | text =>
    let number := text.takeWhile Char.isDigit
    if number.isEmpty then none
    else
      some (.line (number.foldl (fun n c => 10 * n + (c.toNat - '0'.toNat)) 0),
        text.drop number.length)

def deed? (text : List Char) : Option Deed :=
  if pattern.isPrefixOf text then (reply? (text.drop pattern.length)).map .reply
  else
    let seconds := text.drop pause.length
    if pause.isPrefixOf text && !seconds.isEmpty && seconds.all Char.isDigit then some .delay
    else none

/-- An edit as it is written. -/
def ofText? (s : String) : Option Edit := do
  let (address, text) ← address? s.toList
  return ⟨address, ← deed? text⟩

/-- Whether an edit is for the request on a line, which goes by these names. -/
def concerns (e : Edit) (line : Nat) (names : List String) : Bool :=
  match e.address with
  | .line n => n = line
  | .name pattern => names.any fun name =>
    pattern.length = name.length &&
      (pattern.zip name.toList).all fun (p, c) => p = '.' || p = c

/-- What an edit replies to a request, if it does. -/
def print? (e : Edit) (id : Nat) : Option String :=
  match e.deed with
  | .reply text =>
    some (String.ofList (text.flatMap fun c => c.elim (Nat.repr id).toList fun c => [c]))
  | .delay => none

end Edit

/-- A stream editor, with the number of lines that it read and of the requests among them. -/
structure Editor where
  edits : List Edit
  lines : Nat
  requests : Nat

namespace Editor

def command : String := "sed"

/-- The edits among the arguments. -/
def edits? : List String → Option (List Edit)
  | [] => some []
  | "-e" :: text :: rest => do return (← Edit.ofText? text) :: (← edits? rest)
  | _ => none

/-- An editor that prints only what its edits print, and at once. -/
def ofArgs? : List String → Option Editor
  | "-u" :: "-n" :: rest => (edits? rest).map fun edits => ⟨edits, 0, 0⟩
  | _ => none

/-- Reads a line that is no request. -/
def notify (e : Editor) : Editor := { e with lines := e.lines + 1 }

/-- The names that a request goes by: its method, and the tool that is called. -/
def names : Query → List String
  | .list => ["tools/list"]
  | .call tool _ => ["tools/call", tool]

/-- The edits that are for the next request, which goes by these names. -/
def next (e : Editor) (names : List String) : List Edit :=
  e.edits.filter fun edit => edit.concerns (e.lines + 1) names

/-- Reads a request, and gives the reply to it if it is one. -/
def request (e : Editor) (names : List String) : Editor × Option Json :=
  ({ e with lines := e.lines + 1, requests := e.requests + 1 }, do
    let text ← (e.next names).findSome? (·.print? e.requests)
    let reply ← (Json.parse text).toOption
    guard (reply.get? "jsonrpc" = some (.string "2.0"))
    guard (reply.get? "id" = some (.ofNat e.requests))
    return reply)

/-- Whether a server introduces itself in the result. -/
def introduces (result : Json) : Bool :=
  ((result.get? "protocolVersion").bind Json.asString?).isSome &&
    ((result.get? "capabilities").bind Json.asArgs?).isSome &&
    match result.get? "serverInfo" with
    | some info =>
      ((info.get? "name").bind Json.asString?).isSome &&
        ((info.get? "version").bind Json.asString?).isSome
    | none => false

/-- The first request and the notice that follows it. -/
def connect? (e : Editor) : Option Editor := do
  let (e, reply) := e.request ["initialize"]
  guard (introduces (← (← reply).get? "result"))
  return e.notify

def tool? (j : Json) : Option ListedTool := do
  let name ← (← j.get? "name").asString?
  let schema ← (← j.get? "inputSchema").asArgs?
  return ⟨name, (j.get? "description").bind Json.asString?, .ofDict schema⟩

/-- What a request is answered, if it is. -/
def answer (e : Editor) (q : Query) : Editor × Option (Except Refusal Answer) :=
  let (e, reply) := e.request (names q)
  (e, (reply.bind (·.get? "result")).map fun result =>
    match q with
    | .list =>
      match ((result.get? "tools").bind Json.asArray?).bind (·.mapM tool?) with
      | some tools => .ok (.tools tools)
      | none => .error .unexpected
    | .call _ _ => .ok (.result result))

/-- Whether time passes before it is known what a request is answered. -/
def isSlow (e : Editor) (q : Query) : Bool :=
  (e.answer q).2.isNone || (e.next (names q)).any fun edit => (edit.print? 0).isNone

end Editor

end GatedCalls.Bench
