import GatedCalls.Dict

/-!
# Files

The files around the program, as a tree of folders, and what reading a path gives. A path is walked
name by name from the working folder, or from the root if it starts with a slash; only a folder can
be walked through.
-/

namespace GatedCalls.Host

inductive FileNode
  | file (bytes : List UInt8)
  | folder (entries : List (String × FileNode))

inductive FileError
  | notFound
  | isFolder
  | notFolder
  | notPermitted
  | nulInName
  | notUtf8
deriving DecidableEq

namespace FileError

def message : FileError → String
  | notFound => "No such file or directory (os error 2)"
  | isFolder => "Is a directory (os error 21)"
  | notFolder => "Not a directory (os error 20)"
  | notPermitted => "Permission denied (os error 13)"
  | nulInName => "file name contained an unexpected NUL byte"
  | notUtf8 => "stream did not contain valid UTF-8"

end FileError

/-- A file tree and the names that lead to the working folder, which is the home folder too. -/
structure Files where
  root : FileNode
  home : List String

namespace Files

def child? (node : FileNode) (name : String) : Except FileError FileNode :=
  match node with
  | .file _ => .error .notFolder
  | .folder entries =>
    match entries.lookup name with
    | some n => .ok n
    | none => .error .notFound

/-- Walks from the last of `trail`, the folders passed so far, nearest first. -/
def walk : (trail : List FileNode) → FileNode → List String → Except FileError FileNode
  | _, node, [] => .ok node
  | trail, node, name :: rest =>
    match node with
    | .file _ => .error .notFolder
    | .folder _ =>
      if name = "" ∨ name = "." then walk trail node rest
      else if name = ".." then
        match trail with
        | parent :: before => walk before parent rest
        | [] => walk [] node rest
      else do walk (node :: trail) (← child? node name) rest

/-- The folders from the root down to the home folder, nearest first. -/
def homeTrail (f : Files) : List FileNode × FileNode :=
  f.home.foldl (fun (trail, node) name =>
    match child? node name with
    | .ok n => (node :: trail, n)
    | .error _ => (trail, node)) ([], f.root)

/-- Whether reading starts at the root. -/
def isAbsolute (path : String) : Bool := path.startsWith "/"

def resolve (f : Files) (path : String) : Except FileError FileNode :=
  if path.any (· = '\x00') then .error .nulInName
  else if path = "" then .error .notFound
  else
    let names := path.splitOn "/"
    if isAbsolute path then walk [] f.root names
    else
      let (trail, node) := f.homeTrail
      walk trail node names

/-- The bytes of the file at a path. -/
def read (f : Files) (path : String) : Except FileError (List UInt8) := do
  match ← f.resolve path with
  | .file bytes => return bytes
  | .folder _ => .error .isFolder

/-- The path with a leading `~` replaced by the home folder. -/
def expandHome (f : Files) (path : String) : String :=
  match path.toList with
  | ['~'] => "/" ++ "/".intercalate f.home
  | '~' :: '/' :: rest => "/" ++ "/".intercalate f.home ++ "/" ++ String.ofList rest
  | _ => path

end Files

end GatedCalls.Host
