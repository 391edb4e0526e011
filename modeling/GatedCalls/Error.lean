/-!
# Errors

Each part of the library has its own causes of failure. A caller is shown a `ReportedError`, which
groups them by what can be done about them: only a confirmation that could not be obtained and a
remote source that could not be reached may go away on their own.
-/

namespace GatedCalls

/-- A tool failed. -/
inductive ToolError
  | io (text : String)
  | serialization (text : String)
  | invalidInput (text : String)
  | custom (text : String)
deriving DecidableEq, Inhabited

/-- A source of remote tools failed. -/
inductive SourceError
  | connection (text : String)
  | config (text : String)
  | toolExecution (text : String)
  | transport (text : String)
  | io (text : String)
  | json (text : String)
  | protocol (text : String)
deriving DecidableEq, Inhabited

/-- No decision could be obtained. -/
inductive ConfirmationError
  | unavailable (text : String)
  | io (text : String)
  | transport (text : String)
  | invalidResponse (text : String)
  | config (text : String)
deriving DecidableEq, Inhabited

inductive CatalogError
  | duplicateName (name : String)
  | notFound (name : String)
deriving DecidableEq, Inhabited

/-- A call failed. -/
inductive DispatchError
  | catalog (source : CatalogError)
  | invalidArguments (name reason : String)
  | confirmation (name : String) (source : ConfirmationError)
  | tool (name : String) (source : ToolError)
deriving DecidableEq, Inhabited

inductive ReportedError
  | notFound (text : String)
  | duplicateName (text : String)
  | confirmationBackend (text : String)
  | sourceConnection (text : String)
  | source (text : String)
  | tool (text : String)
  | invalidArguments (text : String)
  | config (text : String)
deriving DecidableEq, Inhabited

namespace ToolError

def message : ToolError → String
  | io text => "IO error: " ++ text
  | serialization text => "Serialization error: " ++ text
  | invalidInput text => "Invalid input: " ++ text
  | custom text => text

end ToolError

namespace SourceError

def message : SourceError → String
  | connection text => "Connection error: " ++ text
  | config text => "Configuration error: " ++ text
  | toolExecution text => "Tool execution error: " ++ text
  | transport text => "Transport error: " ++ text
  | io text => "IO error: " ++ text
  | json text => "JSON error: " ++ text
  | protocol text => "Protocol error: " ++ text

/-- The text of the error of another layer that is the cause. -/
def cause? : SourceError → Option String
  | io text => some text
  | json text => some text
  | _ => none

end SourceError

namespace ConfirmationError

def message : ConfirmationError → String
  | unavailable text => "confirmation backend unavailable: " ++ text
  | io text => "confirmation backend IO error: " ++ text
  | transport text => "confirmation transport error: " ++ text
  | invalidResponse text => "invalid confirmation response: " ++ text
  | config text => "confirmation handler configuration error: " ++ text

end ConfirmationError

namespace CatalogError

def message : CatalogError → String
  | duplicateName name => "tool '" ++ name ++ "' is already registered"
  | notFound name => "tool '" ++ name ++ "' not found"

end CatalogError

namespace DispatchError

def message : DispatchError → String
  | catalog source => source.message
  | invalidArguments name reason => "invalid arguments for tool '" ++ name ++ "': " ++ reason
  | confirmation name source =>
    "confirmation for tool '" ++ name ++ "' failed: " ++ source.message
  | tool name source => "tool '" ++ name ++ "' failed: " ++ source.message

def isNotFound : DispatchError → Bool
  | catalog (.notFound _) => true
  | _ => false

def isConfirmation : DispatchError → Bool
  | confirmation .. => true
  | _ => false

end DispatchError

namespace ReportedError

def message : ReportedError → String
  | notFound text => "tool not found: " ++ text
  | duplicateName text => "duplicate tool name: " ++ text
  | confirmationBackend text => "confirmation backend error: " ++ text
  | sourceConnection text => "bridge connection error: " ++ text
  | source text => "bridge error: " ++ text
  | tool text => "tool error: " ++ text
  | invalidArguments text => "invalid arguments: " ++ text
  | config text => "configuration error: " ++ text

/-- Whether the same call may succeed later without a change. -/
def retryable : ReportedError → Bool
  | confirmationBackend _ | sourceConnection _ => true
  | _ => false

end ReportedError

namespace CatalogError

def report : CatalogError → ReportedError
  | duplicateName name => .duplicateName name
  | notFound name => .notFound name

end CatalogError

namespace ConfirmationError

def report : ConfirmationError → ReportedError
  | config text => .config text
  | e => .confirmationBackend e.message

end ConfirmationError

namespace SourceError

def report : SourceError → ReportedError
  | config text => .config text
  | toolExecution text => .tool text
  | json text => .source (json text).message
  | protocol text => .source (protocol text).message
  | e => .sourceConnection e.message

end SourceError

namespace ToolError

def report (e : ToolError) : ReportedError := .tool e.message

end ToolError

namespace DispatchError

def report : DispatchError → ReportedError
  | catalog source => source.report
  | e@(invalidArguments ..) => .invalidArguments e.message
  | e@(confirmation _ (.config _)) => .config e.message
  | e@(confirmation ..) => .confirmationBackend e.message
  | e@(tool ..) => .tool e.message

end DispatchError

end GatedCalls
