import ClaimQueue.Handler.Child
import ClaimQueue.Number.Digits

/-! Candidates that are tried out without a process: scripts for a shell, of lines that write a
quoted text and lines that end the script. A script with anything else in it is not run. -/

namespace ClaimQueue

namespace Child

/-- A line of a script. -/
inductive Line where
  | write (text : List Char)
  /-- Writes to the report. -/
  | complain (text : List Char)
  | exit (code : Nat)
  deriving DecidableEq, Repr

namespace Line

/-- `echo 'text'`, `echo 'text' >&2` or `exit code`. What a backslash means depends on the shell. -/
def of? (cs : List Char) : Option Line :=
  match Text.pieces '\'' cs with
  | [front, text, back] =>
    if Text.trim front = "echo".toList ∧ '\\' ∉ text then
      match String.ofList (Text.trim back) with
      | "" => some (.write text)
      | ">&2" => some (.complain text)
      | _ => none
    else none
  | _ => match Text.trimmedPieces ' ' (String.ofList cs) with
    | ["exit", code] => ((Number.decimal? code.toList).filter (· < 256)).map .exit
    | _ => none

/-- The lines of a script, the blank ones left out. -/
def all? (source : String) : Option (List Line) :=
  ((Text.pieces '\n' source.toList).filter (!·.all Text.isBlank)).mapM of?

end Line

/-- How a script ends that has written `output` and `report` so far. -/
def act (output report : List Char) : List Line → Ending
  | [] => .finished (.exited 0) (Text.Utf8.encode output) (Text.Utf8.encode report)
  | .write text :: rest => act (output ++ text ++ ['\n']) report rest
  | .complain text :: rest => act output (report ++ text ++ ['\n']) rest
  | .exit code :: _ => .finished (.exited code) (Text.Utf8.encode output) (Text.Utf8.encode report)

def rehearse (request : SandboxRequest) : Ending :=
  match Line.all? request.source with
  | some lines => act [] [] lines
  | none => .unavailable "not rehearsed"

/-- Candidates that a shell runs. -/
def trials : Sandbox := Runner.sandbox { program := "sh", allowed := .ofSeconds 20 } rehearse

end Child

end ClaimQueue
