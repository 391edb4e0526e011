import GatedCalls.Error
import GatedCalls.Host.Files
import GatedCalls.Json.Decoder
import GatedCalls.Server.Expansion
import GatedCalls.Server.Transport

/-!
# The file that lists tool servers

A JSON object whose member `mcpServers` holds the servers by name. References to variables are
replaced in the text before it is read. A server without a type is a program to start; the group of
its tools is its own name unless one is given.
-/

namespace GatedCalls.Server

/-- A server as the file writes it. -/
structure FileEntry where
  type : Option String
  command : Option String
  args : Option (List String)
  env : Option (Dict String)
  url : Option String
  headers : Option (Dict String)
  group : Option String
  gated : List String
deriving DecidableEq, Inhabited

namespace FileEntry

/-- The parts of an entry read so far. -/
structure Parts where
  type : Option (Option String)
  command : Option (Option String)
  args : Option (Option (List String))
  env : Option (Option (Dict String))
  url : Option (Option String)
  headers : Option (Option (Dict String))
  group : Option (Option String)
  gated : Option (List String)

open Json.Decoder in
def fields : List (Slot Parts) :=
  [⟨"type", (·.type.isSome),
      fun d p => do return { p with type := some (← optional text d) }, true⟩,
   ⟨"command", (·.command.isSome),
      fun d p => do return { p with command := some (← optional text d) }, false⟩,
   ⟨"args", (·.args.isSome),
      fun d p => do return { p with args := some (← optional (list text) d) }, false⟩,
   ⟨"env", (·.env.isSome),
      fun d p => do return { p with env := some (← optional (dict text) d) }, false⟩,
   ⟨"url", (·.url.isSome),
      fun d p => do return { p with url := some (← optional text d) }, false⟩,
   ⟨"headers", (·.headers.isSome),
      fun d p => do return { p with headers := some (← optional (dict text) d) }, false⟩,
   ⟨"group", (·.group.isSome),
      fun d p => do return { p with group := some (← optional text d) }, false⟩,
   ⟨"confirmTools", (·.gated.isSome),
      fun d p => do return { p with gated := some (← list text d) }, true⟩]

/-- Reads an entry; every part may be missing. -/
def decoder : Json.Decoder FileEntry :=
  Json.Decoder.record "struct McpServerEntry" fields
    ⟨none, none, none, none, none, none, none, none⟩ fun p =>
      .ok ⟨p.type.getD none, p.command.getD none, p.args.getD none, p.env.getD none,
        p.url.getD none, p.headers.getD none, p.group.getD none, p.gated.getD []⟩

def missing (name field : String) : SourceError :=
  .config ("Server '" ++ name ++ "': missing '" ++ field ++ "'")

/-- How the server of an entry is reached. -/
def transport (name : String) (e : FileEntry) : Except SourceError Transport :=
  match e.type.getD "stdio" with
  | "stdio" =>
    match e.command with
    | some command => .ok (.stdio command (e.args.getD []) (e.env.getD .empty))
    | none => .error (missing name "command")
  | "http" | "sse" =>
    match e.url with
    | some url => .ok (.http url (e.headers.getD .empty))
    | none => .error (missing name "url")
  | other => .error (.config ("Server '" ++ name ++ "': unknown transport type '" ++ other ++ "'"))

/-- The listing of an entry. -/
def listing (name : String) (e : FileEntry) : Except SourceError Listing := do
  let t ← e.transport name
  return ⟨⟨name, t⟩, e.group.getD name, NameSet.ofList e.gated⟩

end FileEntry

/-- The servers of a file by name. -/
structure ConfigFile where
  servers : Dict FileEntry

namespace ConfigFile

open Json.Decoder in
def decoder : Json.Decoder ConfigFile :=
  record "struct McpConfigFile"
    [⟨"mcpServers", Option.isSome, fun d _ => do return some (← dict FileEntry.decoder d), false⟩]
    none fun p => (require "mcpServers" p).map ConfigFile.mk

/-- The listings of a file in the order of the servers' names. -/
def listings (f : ConfigFile) : Except SourceError (List Listing) :=
  f.servers.toList.mapM fun e => e.2.listing e.1

/-- The listings that a text writes. -/
def ofText (vars : Expansion.Variables) (text : String) : Except SourceError (List Listing) := do
  match decoder.ofText (Expansion.expand vars text) with
  | .ok f => f.listings
  | .error message => .error (.json message)

/-- The listings that the bytes of a file write. -/
def ofBytes (vars : Expansion.Variables) (bytes : List UInt8) :
    Except SourceError (List Listing) :=
  match Text.Utf8.decode? bytes with
  | none => .error (.io Host.FileError.notUtf8.message)
  | some text => ofText vars text

/-- Reads the file at a path. -/
def load (vars : Expansion.Variables) (files : Host.Files) (path : String) :
    Except SourceError (List Listing) :=
  match files.read (files.expandHome path) with
  | .error e => .error (.io e.message)
  | .ok bytes => ofBytes vars bytes

end ConfigFile

end GatedCalls.Server
