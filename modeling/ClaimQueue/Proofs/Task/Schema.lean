import ClaimQueue.Proofs.Json.Fields
import ClaimQueue.Proofs.Task.Legible

/-! The schema of a task that was read, and the id in a refusal. A newer schema is looked for before
any field is read, but only in objects: an array that lists the fields of a task may name any. -/

namespace ClaimQueue

open Json

theorem Json.Decoder.word_ofValue_eq_ok {j : Json} {n : UInt32} :
    Decoder.word.ofValue j = .ok n ↔ j = .int n.toNat := by
  refine ⟨fun read => ?_, fun same => same ▸ Task.word_ofValue n⟩
  obtain ⟨m, small, rfl⟩ := map_ofValue_eq_ok.mp read
  simp only [natural, naturalOf] at small
  split at small
  · split at small
    · rename_i i inside
      cases small
      have within : i.toNat < 2 ^ 32 := by omega
      rw [UInt32.toNat_ofNat_of_lt' within, Int.toNat_of_nonneg inside.1]
    · cases small
  · cases small

namespace Task

variable {j : Json} {body : List UInt8} {t : Task}

theorem sees_schema :
    Record.Sees document.fields "schema_version" .word Draft.schemaVersion where
  own f known name j set read draft := by
    simp only [document, field, List.mem_cons, List.not_mem_nil, or_false] at known
    rcases known with rfl | rfl | rfl | rfl | rfl | rfl | rfl
    case inr.inr.inr.inr.inr.inr =>
      obtain ⟨n, word, rfl⟩ := Decoder.map_ofValue_eq_ok.mp read
      exact word
    all_goals exact absurd name (by decide)
  other f known name j set read draft := by
    simp only [document, field, List.mem_cons, List.not_mem_nil, or_false] at known
    rcases known with rfl | rfl | rfl | rfl | rfl | rfl | rfl
    case inr.inr.inr.inr.inr.inr => exact (name rfl).elim
    all_goals
      obtain ⟨a, -, rfl⟩ := Decoder.map_ofValue_eq_ok.mp read
      rfl

/-- The schema of a task comes from its part of the document. -/
theorem becomes_schema (orderly : j.Orderly) (read : decoder.ofValue j = .ok t) :
    Record.Becomes .word (document.part? "schema_version" j) supportedSchema t.schemaVersion := by
  obtain ⟨draft, built, becomes⟩ := sees_schema.ofValue (by decide) (by decide) orderly read
  have same : t.schemaVersion = draft.schemaVersion := by
    simp only [document, ofDraft] at built
    split at built <;> cases built
    rfl
  exact same ▸ becomes

theorem schemaVersion_of_object {members : List (String × Json)}
    (ascending : Index.Ascending members) (read : decoder.ofValue (.object members) = .ok t) :
    claimedSchema (.object members) = t.schemaVersion.toNat := by
  have becomes := becomes_schema (j := .object members) ascending read
  simp only [Record.part?] at becomes
  simp only [claimedSchema, member?]
  cases found : Index.find? "schema_version" members with
  | none =>
    rw [found] at becomes
    rw [show t.schemaVersion = supportedSchema from becomes]
    rfl
  | some part =>
    rw [found] at becomes
    rw [Decoder.word_ofValue_eq_ok.mp becomes]
    rfl

theorem schemaVersion_of_array {items : List Json} {n : Nat}
    (read : decoder.ofValue (.array items) = .ok t) (listed : items[6]? = some (.int n)) :
    t.schemaVersion.toNat = n := by
  have becomes := becomes_schema (j := .array items) trivial read
  have part : document.part? "schema_version" (.array items) = some (.int n) := listed
  rw [part] at becomes
  have same : (n : Int) = t.schemaVersion.toNat :=
    Json.int.inj (Decoder.word_ofValue_eq_ok.mp becomes)
  omega

/-- With a newer schema, it was in the list. -/
theorem listed_of_array {items : List Json} (read : decoder.ofValue (.array items) = .ok t)
    (newer : supportedSchema < t.schemaVersion) : items[6]? = some (.int t.schemaVersion.toNat) := by
  have becomes := becomes_schema (j := .array items) trivial read
  have part : document.part? "schema_version" (.array items) = items[6]? := rfl
  rw [part] at becomes
  cases listed : items[6]? with
  | none =>
    rw [listed] at becomes
    rw [show t.schemaVersion = supportedSchema from becomes] at newer
    exact absurd newer (UInt32.lt_irrefl _)
  | some part =>
    rw [listed] at becomes
    rw [Decoder.word_ofValue_eq_ok.mp becomes]

theorem newer_iff_listed (read : ofBytes body = .ok t) :
    supportedSchema < t.schemaVersion ↔ ∃ items n, Json.ofBytes body = .ok (.array items) ∧
      items[6]? = some (.int (n : Nat)) ∧ supportedSchema.toNat < n := by
  obtain ⟨j, parsed, known, taken⟩ := ofSource_eq_ok read
  have orderly := ofSource_orderly parsed
  constructor
  · intro newer
    match j with
    | .null | .bool _ | .int _ | .double _ | .string _ => cases taken
    | .object members =>
      rw [schemaVersion_of_object orderly taken] at known
      exact absurd (UInt32.lt_iff_toNat_lt.mp newer) (Nat.not_lt.mpr known)
    | .array items =>
      exact ⟨items, _, parsed, listed_of_array taken newer, UInt32.lt_iff_toNat_lt.mp newer⟩
  · rintro ⟨items, n, same, listed, newer⟩
    obtain rfl : j = .array items := Except.ok.inj (parsed.symm.trans same)
    rw [UInt32.lt_iff_toNat_lt, schemaVersion_of_array taken listed]
    exact newer

/-! Tasks of a newer schema, as they are written. -/

theorem ofBytes_of_document {payload : Json}
    (read : reread (.object t.payload) (maxNesting - 1) = some payload) :
    ofBytes (Text.Utf8.bytes t.encoded) = ofJson (t.documentOf payload) := by
  have whole : (Json.ofText t.toJson.compact).toOption = some (t.documentOf payload) := by
    rw [ofText_compact, show maxNesting = maxNesting - 2 + 2 from rfl, reread_toJson]
    exact congrArg (Option.map _) read
  have text : Json.ofSource (sourceOf t.encoded) = .ok (t.documentOf payload) :=
    toOption_eq_some.mp whole
  rw [ofBytes, Text.Utf8.units_bytes, ofSource, ← sourceOf, text]

theorem ofBytes_of_newer (newer : supportedSchema < t.schemaVersion)
    (sized : (Json.object t.payload).Sized) :
    ofBytes (Text.Utf8.bytes t.encoded) = .error (if t.toJson.nesting ≤ maxNesting then
      .unsupportedSchema (some t.id) t.schemaVersion.toNat else .malformed .malformed) := by
  have legible := legible_of_sized _ sized (Nat.le_refl _)
  split
  · rename_i shallow
    rw [nesting_toJson] at shallow
    obtain ⟨q, read⟩ := (legible.iff_nesting.mpr (Nat.le_sub_one_of_lt shallow)).object
    rw [ofBytes_of_document read, ofJson, claimedSchema_documentOf,
      if_pos (UInt32.lt_iff_toNat_lt.mp newer)]
    simp [documentOf, member?, Index.find?, text?]
  · rename_i deep
    obtain ⟨q, read⟩ := legible.object
    exact ofBytes_of_deep read (Nat.not_le.mp deep)

theorem ofBytes_ne_ok_of_newer (newer : supportedSchema < t.schemaVersion) (u : Task) :
    ofBytes (Text.Utf8.bytes t.encoded) ≠ .ok u := by
  rw [ne_eq, ofBytes_eq_ok, readBack, if_pos (UInt32.lt_iff_toNat_lt.mp newer)]
  rintro ⟨⟩

/-- A newer schema is refused, except in an array that lists it. What was written of a newer task is
never read, and refused by its id as far as readers go. -/
theorem newer_read_iff_listed (body : List UInt8) (t : Task) :
    (ofBytes body = .ok t → (supportedSchema < t.schemaVersion ↔
      ∃ items n, Json.ofBytes body = .ok (.array items) ∧ items[6]? = some (.int (n : Nat)) ∧
        supportedSchema.toNat < n)) ∧
    (supportedSchema < t.schemaVersion →
      (∀ u, ofBytes (Text.Utf8.bytes t.encoded) ≠ .ok u) ∧
      ((Json.object t.payload).Sized → ofBytes (Text.Utf8.bytes t.encoded) =
        .error (if t.toJson.nesting ≤ maxNesting then
          .unsupportedSchema (some t.id) t.schemaVersion.toNat else .malformed .malformed))) :=
  ⟨newer_iff_listed, fun newer => ⟨ofBytes_ne_ok_of_newer newer, ofBytes_of_newer newer⟩⟩

private def kite : Task where
  kind := .execute
  id := "kite"
  payload := []
  requires := .empty
  attempts := 0
  createdAt := .epoch
  schemaVersion := 2

private def listedKite : List UInt8 :=
  Text.Utf8.bytes "[\"execute\",\"kite\",\x7b\x7d,[],0,\"1970-01-01T00:00:00Z\",2]"

private theorem ofBytes_listedKite : ofBytes listedKite = .ok kite := by decide +kernel

theorem newer_is_read :
    ofBytes listedKite = .ok kite ∧ ¬ kite.schemaVersion ≤ supportedSchema :=
  ⟨ofBytes_listedKite, by decide⟩

theorem newer_kite :
    (∃ items n, Json.ofBytes listedKite = .ok (.array items) ∧ items[6]? = some (.int (n : Nat)) ∧
      supportedSchema.toNat < n) ∧
    (∀ u, ofBytes (Text.Utf8.bytes kite.encoded) ≠ .ok u) ∧
    ofBytes (Text.Utf8.bytes kite.encoded) = .error (.unsupportedSchema (some "kite") 2) := by
  obtain ⟨read, written⟩ := newer_read_iff_listed listedKite kite
  have newer : supportedSchema < kite.schemaVersion := by decide
  have shallow : kite.toJson.nesting ≤ maxNesting := by decide
  refine ⟨(read ofBytes_listedKite).mp newer, (written newer).1, ?_⟩
  rw [(written newer).2 trivial, if_pos shallow]
  rfl

/-! Refusals. -/

/-- A refusal names the task of a readable document with a newer schema, and no other. -/
theorem taskId?_eq_some_iff {fault : WireError} {id : String} (refused : ofBytes body = .error fault) :
    fault.taskId? = some id ↔ ∃ j, Json.ofBytes body = .ok j ∧
      supportedSchema.toNat < claimedSchema j ∧ j.member? "id" = some (.string id) := by
  have text (part? : Option Json) : part?.bind text? = some id ↔ part? = some (.string id) := by
    rcases part? with - | (- | - | - | - | - | - | -) <;> simp [text?]
  simp only [ofBytes, ofSource] at refused
  cases parsed : Json.ofSource (Text.Utf8.units body) with
  | error e =>
    rw [parsed] at refused
    cases refused
    simp [WireError.taskId?, Json.ofBytes, parsed]
  | ok j =>
    rw [parsed] at refused
    simp only [ofJson] at refused
    have same : Json.ofBytes body = .ok j := parsed
    simp only [same, Except.ok.injEq, exists_eq_left']
    split at refused
    · rename_i newer
      cases refused
      simp [WireError.taskId?, newer, text]
    · rename_i known
      split at refused
      · cases refused
      · cases refused
        simp [WireError.taskId?, known]

end Task

end ClaimQueue
