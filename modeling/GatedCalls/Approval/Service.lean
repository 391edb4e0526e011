import GatedCalls.Error
import GatedCalls.Http.Header
import GatedCalls.Http.Status
import GatedCalls.Http.Url
import GatedCalls.Json.Decoder

/-!
# Approval services

Confirmation by a service elsewhere: every question is posted to its address, and it answers
whether the call is approved once somebody has decided. No answer in time is a denial; a service
that cannot be reached, refuses, or answers something else is an error, and never an approval.
-/

namespace GatedCalls.Approval

/-- How to reach a service, and how long to wait for its decision, in milliseconds. -/
structure Service where
  endpoint : String
  timeout : Nat
  headers : Dict String
deriving DecidableEq, Inhabited

/-- What came of a request. -/
inductive Delivery
  /-- There was nobody to take it, or nobody answered it. -/
  | failed
  /-- The time was up before an answer was complete. -/
  | late
  /-- The answer broke off after its status; `text` is the wording of the client. -/
  | brokenOff (status : Nat) (text : String)
  | answered (status : Nat) (body : List UInt8)
deriving DecidableEq

/-- A request as it is posted. -/
structure Post where
  url : Http.Url
  headers : Dict String
  body : Json
deriving DecidableEq

namespace Service

def name : String := "remote-ui"

def defaultTimeout : Nat := 300000

def ofEndpoint (endpoint : String) : Service := ⟨endpoint, defaultTimeout, .empty⟩

def withTimeout (s : Service) (millis : Nat) : Service := { s with timeout := millis }

def withHeader (s : Service) (key value : String) : Service :=
  { s with headers := s.headers.insert key value }

/-- What is wrong with the headers. -/
def headerError? (s : Service) : Option ConfirmationError :=
  s.headers.toList.findSome? fun e => (Http.headerFault? e.1 e.2).map fun f =>
    match f with
    | .name => .config ("Invalid header name '" ++ e.1 ++ "': " ++ f.message)
    | .value => .config ("Invalid header value for '" ++ e.1 ++ "': " ++ f.message)

/-- The address of the service. -/
def url? (s : Service) : Except ConfirmationError Http.Url :=
  match Http.Url.parse? s.endpoint with
  | none => .error (.transport "builder error")
  | some u =>
    if u.isWeb then .ok u
    else .error (.transport ("builder error for url (" ++ u.render ++ ")"))

/-- The headers of a request; the service's own outweigh the standard one. -/
def requestHeaders (s : Service) : Dict String :=
  (Dict.ofList [("content-type", "application/json")]).insertMany
    (s.headers.toList.map fun e => (e.1.toLower, Http.fieldValue e.2))

/-- The request number `id` about a call. -/
def post (s : Service) (id tool : String) (args : Args) : Except ConfirmationError Post :=
  match s.headerError? with
  | some e => .error e
  | none => do
    return ⟨← s.url?, s.requestHeaders,
      .ofMembers [("request_id", .string id), ("tool_name", .string tool),
        ("tool_args", .ofDict args)]⟩

open Json.Decoder in
/-- Reads the decision of the service. -/
def decision : Json.Decoder Bool :=
  record "struct ConfirmationReply"
    [⟨"approved", Option.isSome, fun d _ => do return some (← flag d), false⟩] none
    (require "approved")

/-- The service refuses to decide. -/
def refusal (s : Service) (status : Nat) : ConfirmationError :=
  .unavailable (s.endpoint ++ " answered with status " ++ Http.statusText status)

/-- What the outcome of a request means. -/
def decide (s : Service) (p : Post) : Delivery → Except ConfirmationError Bool
  | .failed => .error (.transport ("error sending request for url (" ++ p.url.render ++ ")"))
  | .late => .ok false
  | .brokenOff status text =>
    .error (if Http.isSuccess status then .invalidResponse text else s.refusal status)
  | .answered status body =>
    if !Http.isSuccess status then .error (s.refusal status)
    else
      match decision.ofSymbols (Text.Utf8.symbols body) with
      | .ok b => .ok b
      | .error _ => .error (.invalidResponse "error decoding response body")

/-- Asks the service: the request that is sent, if there is one, and the decision. -/
def ask (s : Service) (id tool : String) (args : Args) (deliver : Post → Delivery) :
    Except ConfirmationError Bool := do
  let p ← s.post id tool args
  s.decide p (deliver p)

end Service

end GatedCalls.Approval
