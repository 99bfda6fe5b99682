import ClaimQueue.Json.Record
import ClaimQueue.Time.Rfc3339
import ClaimQueue.Task.Kind
import ClaimQueue.Task.Capability

/-! Tasks, and their document. A task counts how often it has been reclaimed; the count and the
schema version have 32 bits, and the count stops at the largest number. -/

namespace ClaimQueue

/-- One more, or the largest number again. -/
def countUp (n : UInt32) : UInt32 := if n + 1 = 0 then n else n + 1

theorem countUp_toNat (n : UInt32) : (countUp n).toNat = min (n.toNat + 1) (2 ^ 32 - 1) := by
  unfold countUp
  have := n.toNat_lt
  split
  · rename_i h
    have h := congrArg UInt32.toNat h
    simp only [UInt32.toNat_add, UInt32.toNat_one, UInt32.toNat_zero] at h
    omega
  · rename_i h
    have h : (n + 1).toNat ≠ 0 := fun e => h (UInt32.toNat_inj.mp e)
    simp only [UInt32.toNat_add, UInt32.toNat_one] at h ⊢
    omega

structure Task where
  kind : TaskKind
  id : String
  payload : Payload
  requires : CapabilitySet
  attempts : UInt32
  createdAt : Instant
  schemaVersion : UInt32
  deriving DecidableEq

namespace Task

/-- The newest schema that is understood. -/
def supportedSchema : UInt32 := 1

def bumped (t : Task) : Task := { t with attempts := countUp t.attempts }

end Task

def Instant.decoder : Json.Decoder Instant :=
  .parsed "an RFC 3339 formatted date and time string" fun s =>
    match Instant.ofText? s with
    | some t => .ok t
    | none => .error .badTimestamp

def TaskKind.decoder : Json.Decoder TaskKind := .variant TaskKind.table

def CapabilitySet.decoder : Json.Decoder CapabilitySet := Json.Decoder.text.list.map ofList

def CapabilitySet.toJson (set : CapabilitySet) : Json := .array (set.tags.map .string)

namespace Task

structure Draft where
  kind : Option TaskKind := none
  id : Option String := none
  payload : Payload := []
  requires : CapabilitySet := .empty
  attempts : UInt32 := 0
  createdAt : Option Instant := none
  schemaVersion : UInt32 := supportedSchema

def ofDraft (d : Draft) : Except String Task :=
  match d.kind, d.id, d.createdAt with
  | none, _, _ => .error "kind"
  | _, none, _ => .error "id"
  | _, _, none => .error "created_at"
  | some kind, some id, some createdAt =>
    .ok ⟨kind, id, d.payload, d.requires, d.attempts, createdAt, d.schemaVersion⟩

def document : Json.Record Draft Task where
  name := "Task"
  empty := {}
  fields := [
    Json.field "kind" TaskKind.decoder fun a d => { d with kind := some a },
    Json.field "id" .text fun a d => { d with id := some a },
    Json.field "payload" .payload fun a d => { d with payload := a },
    Json.field "requires" CapabilitySet.decoder fun a d => { d with requires := a },
    Json.field "attempts" .word fun a d => { d with attempts := a },
    Json.field "created_at" Instant.decoder fun a d => { d with createdAt := some a },
    Json.field "schema_version" .word fun a d => { d with schemaVersion := a }]
  build := ofDraft

def decoder : Json.Decoder Task := document.decoder

def toJson (t : Task) : Json := .object [
  ("kind", .string t.kind.name),
  ("id", .string t.id),
  ("payload", .object t.payload),
  ("requires", t.requires.toJson),
  ("attempts", .int t.attempts.toNat),
  ("created_at", .string t.createdAt.text),
  ("schema_version", .int t.schemaVersion.toNat)]

end Task

end ClaimQueue
