import ClaimQueue.Proofs.Json.Depth
import ClaimQueue.Proofs.Task.Exact

/-! Tasks, dead letters and results whose documents may nest deeper than readers go. Those that nest
too deep are malformed; each document opens one bracket around its payload, and a dead letter one
more. -/

namespace ClaimQueue

open Json

namespace Task

variable {t : Task} {k : Json} {enough : Nat}

/-- Alone or in a dead letter. -/
theorem breaks {depth : Nat} (read : reread (.object t.payload) enough = some k)
    (deep : depth < (Json.object t.payload).nesting) : Breaks decoder (depth + 1) t.toJson := by
  refine Record.breaks (r := document) ?_
  refine .later rfl (by simp) ((TaskKind.reads t.kind _).map _) ?_
  refine .later rfl (by simp) ((reads_text t.id _).map _) ?_
  exact .here rfl (by simp) ((breaks_payload read deep).map _)

theorem ofBytes_of_deep (read : reread (.object t.payload) enough = some k)
    (deep : maxNesting < t.toJson.nesting) :
    ofBytes (Text.Utf8.bytes t.encoded) = .error (.malformed .malformed) := by
  cases enough with
  | zero => cases read
  | succ enough =>
    have whole : reread t.toJson (enough + 2) = some (t.documentOf k) := by
      rw [reread_toJson, read]
      rfl
    have text : Json.ofSource (sourceOf t.encoded) = .error .malformed := ofText_of_deep whole deep
    rw [ofBytes, Text.Utf8.units_bytes, ofSource, ← sourceOf, text]

/-- A task with integers for numbers comes back as it was, unless its document nests too deep: then
it is malformed. -/
theorem ofBytes_encoded_of_plain (plain : (Json.object t.payload).Plain)
    (known : t.schemaVersion ≤ supportedSchema) :
    ofBytes (Text.Utf8.bytes t.encoded) =
      if t.toJson.nesting ≤ maxNesting then .ok t else .error (.malformed .malformed) := by
  split
  · rename_i nesting
    exact ofBytes_of_plain ⟨plain, nesting⟩ known
  · rename_i deep
    exact ofBytes_of_deep (reread_of_plain _ plain (Nat.le_refl _)) (Nat.not_le.mp deep)

/-- The last second 60 of a year before the first, with hard characters, the widest integers and
brackets inside. -/
private def comet (depth : Nat) : Task where
  kind := .evaluate
  id := "comet \x7f \u2028 \x00"
  payload := [("", .string "\x08\x0c\x1b\"\\/"), ("n", .array [.int (-(2 ^ 63)), .int (2 ^ 64 - 1)]),
    ("tail", brackets depth)]
  requires := .ofList ["gpu", "", "\n"]
  attempts := 4294967295
  createdAt :=
    ⟨⟨-12345, 12, 31, by decide, by decide, by decide⟩, 86399, 1999999999, by decide, by decide,
      by decide⟩
  schemaVersion := 0

private theorem plain_comet (depth : Nat) : (Json.object (comet depth).payload).Plain := by
  have ascending : ["", "n", "tail"].Pairwise (· < ·) := by decide
  have least : Wide (-(2 ^ 63)) := by decide
  have most : Wide (2 ^ 64 - 1) := by decide
  exact ⟨ascending, trivial, ⟨least, most, trivial⟩, plain_brackets depth, trivial⟩

private theorem nesting_comet (depth : Nat) :
    (comet depth).toJson.nesting = max 1 depth + 2 := by
  simp [nesting_toJson, comet, Json.nesting, nestingMembers, nestingItems]

theorem ofBytes_encoded_comet :
    (Json.object (comet 125).payload).Plain ∧ (Json.object (comet 126).payload).Plain ∧
    (comet 125).schemaVersion ≤ supportedSchema ∧ (comet 126).schemaVersion ≤ supportedSchema ∧
    ofBytes (Text.Utf8.bytes (comet 125).encoded) = .ok (comet 125) ∧
    ofBytes (Text.Utf8.bytes (comet 126).encoded) = .error (.malformed .malformed) :=
  ⟨plain_comet 125, plain_comet 126, by decide, by decide,
    (ofBytes_encoded_of_plain (plain_comet 125) (by decide)).trans
      (if_pos (by rw [nesting_comet]; decide)),
    (ofBytes_encoded_of_plain (plain_comet 126) (by decide)).trans
      (if_neg (by rw [nesting_comet]; decide))⟩

end Task

end ClaimQueue
