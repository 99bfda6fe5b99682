import ClaimQueue.Handler.Basic
import ClaimQueue.Json.Printer

/-! Running a candidate program. The sandbox takes source and entry point and answers with metrics;
how it shuts the program in is its own business. -/

namespace ClaimQueue

structure SandboxRequest where
  source : String
  entryPoint : String
  timeoutSeconds : Option Nat
  deriving DecidableEq, Repr

namespace SandboxRequest

structure Draft where
  source : Option String := none
  entryPoint : Option String := none
  timeoutSeconds : Option Nat := none

def ofDraft (d : Draft) : Except String SandboxRequest :=
  match d.source, d.entryPoint with
  | none, _ => .error "source"
  | _, none => .error "entry_point"
  | some source, some entryPoint => .ok ⟨source, entryPoint, d.timeoutSeconds⟩

def document : Json.Record Draft SandboxRequest where
  name := "SandboxRequest"
  empty := {}
  fields := [
    Json.field "source" .text fun a d => { d with source := some a },
    Json.field "entry_point" .text fun a d => { d with entryPoint := some a },
    Json.field "timeout_secs" Json.Decoder.natural64.optional
      fun a d => { d with timeoutSeconds := a }]
  build := ofDraft

def decoder : Json.Decoder SandboxRequest := document.decoder

def toJson (r : SandboxRequest) : Json := .object (
  [("source", .string r.source), ("entry_point", .string r.entryPoint)] ++
  (match r.timeoutSeconds with
    | some n => [("timeout_secs", .int n)]
    | none => []))

end SandboxRequest

inductive SandboxError where
  | unavailable (detail : String)
  | program (detail : String)
  | timeout (after : Span)
  deriving DecidableEq, Repr

namespace SandboxError

def message : SandboxError → String
  | .unavailable detail => "sandbox unavailable: " ++ detail
  | .program detail => "program failed: " ++ detail
  | .timeout after => "program timed out after " ++ String.ofList after.chars

/-- A broken program stays broken; a missing sandbox or a slow host may not. -/
def isRetryable : SandboxError → Bool
  | .program _ => false
  | .unavailable _ | .timeout _ => true

end SandboxError

/-- A sandbox, as the outcome of each request and the time it takes. -/
structure Sandbox where
  run : SandboxRequest → Except SandboxError Payload
  takes : SandboxRequest → Span := fun _ => ⟨0⟩

/-- The handler of kind `execute`: `inputName` is how its messages call the payload's type. -/
def Sandbox.handler (s : Sandbox) (inputName name : String) (provides : CapabilitySet) : Handler :=
  .typed name .execute provides inputName SandboxRequest.decoder fun request _ =>
    ⟨s.takes request, match s.run request with
      | .ok metrics => .done metrics
      | .error e => .failed (.failed e.message e.isRetryable)⟩

end ClaimQueue
