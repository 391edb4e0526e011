import GatedCalls.Response

/-!
# Dispatch events

What observers of the engine are told about a call. Every event carries the number of the call and
the name of its tool.
-/

namespace GatedCalls

inductive DispatchEvent.Kind
  | requested (args : Args)
  | confirmationRequested (handler : String)
  | confirmationGranted
  | confirmationDeclined
  | confirmationFailed (error : String)
  | completed (output : Response)
  | failed (error : String)
deriving DecidableEq

structure DispatchEvent where
  call : Nat
  name : String
  kind : DispatchEvent.Kind
deriving DecidableEq

/-- The word for what happened. -/
def DispatchEvent.Kind.label : Kind → String
  | requested _ => "tool_requested"
  | confirmationRequested _ => "confirmation_requested"
  | confirmationGranted => "confirmation_granted"
  | confirmationDeclined => "confirmation_declined"
  | confirmationFailed _ => "confirmation_failed"
  | completed _ => "tool_completed"
  | failed _ => "tool_failed"

end GatedCalls
