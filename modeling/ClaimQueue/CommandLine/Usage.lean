import ClaimQueue.CommandLine.Invocation

/-! The texts that explain a grammar, and that say what is wrong with a command line. -/

namespace ClaimQueue

namespace CommandLine

def Refusal.message : Refusal → String
  | .help | .version | .nothingGiven => ""
  | .commandMissing => "a command is missing"
  | .unknownCommand => "no such command"
  | .unknownArgument => "unexpected argument"
  | .valueMissing => "an option has no value"
  | .badValue => "a value cannot be read"
  | .valueUnwanted => "an option takes no value"
  | .conflict => "options exclude each other"
  | .argumentMissing => "a required argument is missing"

def Parameter.usage (p : Parameter) : String :=
  let letter := match p.short with
    | some c => "-" ++ String.singleton c ++ ", "
    | none => ""
  let value := if p.takesValue then " <VALUE>" else ""
  let fallback := match p.fallback with
    | some name => "  [" ++ name ++ "]"
    | none => ""
  "  " ++ letter ++ "--" ++ p.name ++ value ++ fallback

def Command.usage (c : Command) : List String :=
  let operands := c.operands.map fun p => " <" ++ p.name ++ ">"
  let sub := if c.commands.isEmpty then "" else " <COMMAND>"
  let rest := match c.rest with
    | some p => " -- <" ++ p.name ++ ">"
    | none => ""
  [("Usage: " ++ c.name ++ " [OPTIONS]" ++ String.join operands ++ sub ++ rest)] ++
    (if c.commands.isEmpty then [] else "Commands:" :: c.commands.map fun d => "  " ++ d.name) ++
    "Options:" :: c.options.map Parameter.usage

/-- The variables that may be read for a command, or for a command of it. -/
def Command.variables (c : Command) : List String :=
  (c.parameters ++ c.commands.flatMap Command.parameters).filterMap (·.fallback)

end CommandLine

end ClaimQueue
