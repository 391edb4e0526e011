import GatedCalls.Dict

/-!
# How a tool server is reached

Either a program that is started and spoken to over its standard streams, or an address with headers
that go with every request.
-/

namespace GatedCalls.Server

inductive Transport
  | stdio (command : String) (args : List String) (env : Dict String)
  | http (url : String) (headers : Dict String)
deriving DecidableEq, Inhabited

namespace Transport

def ofCommand (command : String) : Transport := .stdio command [] .empty

def ofUrl (url : String) : Transport := .http url .empty

def withArgs (t : Transport) (more : List String) : Transport :=
  match t with
  | stdio command args env => .stdio command (args ++ more) env
  | t => t

def withEnv (t : Transport) (vars : List (String × String)) : Transport :=
  match t with
  | stdio command args env => .stdio command args (env.insertMany vars)
  | t => t

def withHeaders (t : Transport) (more : List (String × String)) : Transport :=
  match t with
  | http url headers => .http url (headers.insertMany more)
  | t => t

/-- A short description. -/
def describe : Transport → String
  | stdio command [] _ => command
  | stdio command args _ => command ++ " " ++ " ".intercalate args
  | http url _ => url

end Transport

/-- A server by its name. -/
structure Config where
  name : String
  transport : Transport
deriving DecidableEq, Inhabited

/-- A server with the group of its tools and the names of those that need a confirmation. -/
structure Listing where
  server : Config
  group : String
  gated : NameSet
deriving DecidableEq, Inhabited

end GatedCalls.Server
