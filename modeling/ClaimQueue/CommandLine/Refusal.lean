/-! Why a command line is not carried out: it asks for help, or it does not follow the grammar. -/

namespace ClaimQueue

namespace CommandLine

inductive Refusal where
  | help
  | version
  /-- Help, as nothing at all was given. -/
  | nothingGiven
  | commandMissing
  | unknownCommand
  | unknownArgument
  /-- An option without its value, or an empty path. -/
  | valueMissing
  | badValue
  /-- A value given to a switch. -/
  | valueUnwanted
  /-- Two options that exclude each other, or one given twice. -/
  | conflict
  | argumentMissing
  deriving DecidableEq, Repr

/-- Asking for help is no failure. -/
def Refusal.exitCode : Refusal → Nat
  | .help | .version => 0
  | _ => 2

end CommandLine

end ClaimQueue
