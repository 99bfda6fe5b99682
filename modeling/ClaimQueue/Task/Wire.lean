import ClaimQueue.Failure
import ClaimQueue.Json.Printer
import ClaimQueue.Task.Result

/-! Tasks and results on the wire. Readers ignore fields they do not know, but a task of a newer
schema is refused before its fields are looked at. -/

namespace ClaimQueue

inductive WireError where
  | malformed (fault : Json.Fault)
  /-- Carries the task's id whenever the document has a readable one. -/
  | unsupportedSchema (taskId : Option String) (found : Nat)
  deriving DecidableEq, Repr

namespace WireError

def message : WireError → String
  | .malformed fault => "malformed wire document: " ++ fault.message
  | .unsupportedSchema _ found =>
    "schema_version " ++ toString found ++ " is newer than supported " ++
      toString Task.supportedSchema.toNat

def failureClass (_ : WireError) : FailureClass := .permanent

def taskId? : WireError → Option String
  | .malformed _ => none
  | .unsupportedSchema id _ => id

end WireError

namespace Task

def encoded (t : Task) : String := t.toJson.compact

/-- The schema a document claims; one that is no natural number counts as the supported one. -/
def claimedSchema (j : Json) : Nat :=
  ((j.member? "schema_version").bind Json.natural?).getD supportedSchema.toNat

/-- A task out of a document that has been read. -/
def ofJson (j : Json) : Except WireError Task :=
  if supportedSchema.toNat < claimedSchema j then
    .error (.unsupportedSchema ((j.member? "id").bind Json.text?) (claimedSchema j))
  else
    match decoder.ofValue j with
    | .ok t => .ok t
    | .error e => .error (.malformed e)

def ofSource (s : Json.Source) : Except WireError Task :=
  match Json.ofSource s with
  | .ok j => ofJson j
  | .error e => .error (.malformed e)

def ofBytes (bytes : List UInt8) : Except WireError Task := ofSource (Text.Utf8.units bytes)

/-- The same refusal for a task that never was on the wire. -/
def checkSchema (t : Task) : Except WireError Unit :=
  if supportedSchema < t.schemaVersion then
    .error (.unsupportedSchema (some t.id) t.schemaVersion.toNat)
  else .ok ()

end Task

namespace TaskResult

def encoded (r : TaskResult) : String := r.toJson.compact

def ofSource (s : Json.Source) : Except WireError TaskResult :=
  match decoder.ofSource s with
  | .ok r => .ok r
  | .error e => .error (.malformed e)

def ofBytes (bytes : List UInt8) : Except WireError TaskResult := ofSource (Text.Utf8.units bytes)

end TaskResult

end ClaimQueue
