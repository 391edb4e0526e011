import GatedCalls.Catalog
import GatedCalls.Response

/-!
# What the shell prints

The texts of the interactive shell: its greeting, its help, listings of tools and groups, and the
outcomes of calls. A declined call and a call without output are marked.
-/

namespace GatedCalls.Shell

def inputPrompt : String := "  ❯ "

def version : String := "0.1.0"

/-- The greeting, with the number of tools, of gated tools, and the name of the active handler. -/
def welcome (tools gated : Nat) (handler : String) : String :=
  "\n🔒 toolgate v" ++ version ++ "\n" ++ Nat.repr tools ++ " tools loaded (" ++ Nat.repr gated ++
    " need confirmation), confirmations by '" ++ handler ++
    "'\nType /help for commands, /tools to list tools\n\n"

def goodbye : String := "\n👋 Goodbye!\n\n"

def help : String :=
  "\n📖 Available Commands:\n" ++
  "Tools:\n" ++
  "  <tool> [json]     Invoke a tool, e.g. list_files \x7b\"path\": \"/tmp\"\x7d\n" ++
  "                    Tools marked 🔒 ask for confirmation first\n" ++
  "\n" ++
  "Navigation:\n" ++
  "  /help             Show this help message\n" ++
  "  /tools [group]    List tools, optionally in one group\n" ++
  "  /groups           List tool groups\n" ++
  "\n" ++
  "Exit:\n" ++
  "  /exit, /quit      Exit\n" ++
  "  Ctrl+D            Exit\n"

def toolLine (i : Info) : String :=
  "  " ++ (if i.gated then "🔒" else "  ") ++ " [" ++ i.group ++ "] " ++ i.name ++ " - " ++
    i.description ++ "\n"

def toolList (tools : List Info) : String :=
  "\n🔧 Available Tools:\n\n" ++
    if tools.isEmpty then "  No tools configured\n" else String.join (tools.map toolLine)

def groupList (groups : List String) : String :=
  if groups.isEmpty then "\n  No tool groups\n"
  else "\n" ++ String.join (groups.map fun g => "  " ++ g ++ "\n")

def unknownCommand (name : String) : String :=
  "Unknown command: " ++ name ++ ". Type /help for available commands.\n"

def response (r : Response) : String :=
  if r.isDeclined then "\x1b[31m✗\x1b[0m " ++ r.asText
  else if r.asText = "" then "\x1b[32m✓\x1b[0m (no output)"
  else r.asText

def failure (e : DispatchError) : String :=
  if e.isConfirmation then "❌ " ++ e.message ++ " (the tool was not run)"
  else "❌ Error: " ++ e.message

/-- A block of output, set off by empty lines. -/
def paragraph (text : String) : String := "\n" ++ text ++ "\n\n"

end GatedCalls.Shell
