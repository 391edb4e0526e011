import GatedCalls.Dispatch.Engine
import GatedCalls.Policy
import GatedCalls.Server.ConfigFile

/-!
# Loading tool servers

How the tools of listed servers come into an engine, server after server. What lies between an
engine and its servers is an `Exchange`: a state and what dealing with a server does to it. A load
that asks for a policy by the names of the tools has a server list them once for the policy and
once more for the registration, and nothing makes the two lists agree.
-/

namespace GatedCalls

/-- Ways to deal with servers: to make a client for one, which contacts nobody, to have it list its
tools, and to disconnect it. -/
structure Exchange (σ : Type) where
  connect : σ → Server.Config → σ × Nat
  list : σ → Nat → σ × Except SourceError (List Declaration)
  disconnect : σ → Nat → σ

/-- Why loading stopped. -/
inductive LoadError
  | core (error : ReportedError)
  | source (error : SourceError)
deriving DecidableEq

namespace LoadError

def message : LoadError → String
  | core e => e.message
  | source e => "Tool server error: " ++ e.message

/-- The texts of the errors beneath, nearest first. -/
def causes : LoadError → List String
  | core e => [e.message]
  | source e => e.message :: e.cause?.toList

end LoadError

namespace Engine

variable {σ β : Type}

/-- Registers the tools of a source without a pause. -/
def enrolNow (x : Exchange σ) (w : σ) (e : Engine β) (source : Nat) (group : String)
    (gated : NameSet) : σ × Engine β × Except ReportedError Nat :=
  match x.list w source with
  | (w, .error err) => (w, e, .error err.report)
  | (w, .ok declarations) =>
    match e.catalog.registerAll (Declaration.entries β source group gated declarations) with
    | .ok (catalog, count) =>
      (w, { e with catalog := catalog, kept := e.kept ++ [source] }, .ok count)
    | .error err => (x.disconnect w source, e, .error err.report)

/-! ## While an engine is built -/

/-- Registers the tools of all servers, up to the first that fails. -/
def connectAll (x : Exchange σ) (w : σ) (e : Engine β) :
    List Server.Listing → σ × Engine β × Except ReportedError Unit
  | [] => (w, e, .ok ())
  | l :: rest =>
    let (w, source) := x.connect w l.server
    match enrolNow x w e source l.group l.gated with
    | (w, e, .ok _) => connectAll x w e rest
    | (w, e, .error err) => (w, e, .error err)

/-- Adds tools one after the other, up to the first whose name is taken. -/
def registerEach (e : Engine β) : List (Entry β) → Except CatalogError (Engine β)
  | [] => .ok e
  | t :: rest => do (← e.register t).registerEach rest

/-- Builds an engine with hooks, tools, servers, and the servers of files that were read. -/
def build (x : Exchange σ) (w : σ) (hooks : Nat) (tools : List (Entry β))
    (servers : List Server.Listing) (files : List (Except SourceError (List Server.Listing))) :
    σ × Except ReportedError (Engine β) :=
  let e : Engine β := hooks.repeat (fun e => e.addHook.1) empty
  match e.registerEach tools with
  | .error err => (w, .error err.report)
  | .ok e =>
    match files.mapM id with
    | .error err => (w, .error err.report)
    | .ok more =>
      match connectAll x w e (servers ++ more.flatten) with
      | (w, e, .ok ()) => (w, .ok e)
      | (w, _, .error err) => (w, .error err)

/-! ## By a policy -/

/-- The names that are gated when the tools of a listing are registered. -/
def gatedNames (x : Exchange σ) (w : σ) (policy : Policy) (source : Nat) (listed : NameSet) :
    σ × Except SourceError NameSet :=
  if policy.needsDiscovery then
    match x.list w source with
    | (w, .ok ds) => (w, .ok (policy.confirmationSet (ds.filterMap (·.name)) listed))
    | (w, .error err) => (w, .error err)
  else (w, .ok listed)

/-- Loads one server and gives the number of its tools. -/
def loadServer (x : Exchange σ) (w : σ) (e : Engine β) (policy : Policy) (l : Server.Listing) :
    σ × Engine β × Except LoadError Nat :=
  let (w, source) := x.connect w l.server
  match gatedNames x w policy source l.gated with
  | (w, .error err) => (w, e, .error (.source err))
  | (w, .ok gated) =>
    let (w, e, result) := enrolNow x w e source l.group gated
    (w, e, result.mapError .core)

/-- Loads servers up to the first that fails; those before it stay. -/
def loadEach (x : Exchange σ) (policy : Policy) (w : σ) (e : Engine β) (total : Nat) :
    List Server.Listing → σ × Engine β × Except LoadError Nat
  | [] => (w, e, .ok total)
  | l :: rest =>
    match loadServer x w e policy l with
    | (w, e, .ok count) => loadEach x policy w e (total + count) rest
    | (w, e, .error err) => (w, e, .error err)

/-- Loads the servers of a file that was read, in the order of their names. -/
def loadServers (x : Exchange σ) (w : σ) (e : Engine β) (policy : Policy)
    (file : Except SourceError (List Server.Listing)) : σ × Engine β × Except LoadError Nat :=
  match file with
  | .error err => (w, e, .error (.source err))
  | .ok listings => loadEach x policy w e 0 listings

end Engine

end GatedCalls
