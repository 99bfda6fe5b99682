import ClaimQueue.Proofs.Json.Integral
import ClaimQueue.Proofs.Task.Depth

/-! Tasks, dead letters and results with a payload that was read from somewhere. Their documents can
be read exactly if they do not nest too deep, for every document nests deeper than what was read:
one level more than a payload, and one more for a dead letter. -/

namespace ClaimQueue

open Json

/-! The payload of a task that was read. -/

namespace Task

/-- The payload, as far as it was read, is empty or a part of the document. -/
def Draft.Quotes (j : Json) (draft : Draft) : Prop :=
  draft.payload = [] ∨ .object draft.payload ∈ j.parts

/-- Only the field of the payload changes it. -/
theorem Draft.Quotes.set {j part : Json} {f : Json.Field Draft} {set : Draft → Draft} {draft : Draft}
    (h : draft.Quotes j) (known : f ∈ document.fields) (mem : part ∈ j.parts)
    (read : f.set.ofValue part = .ok set) : (set draft).Quotes j := by
  simp only [document, field, List.mem_cons, List.not_mem_nil, or_false] at known
  rcases known with rfl | rfl | rfl | rfl | rfl | rfl | rfl
  case inr.inr.inl =>
    obtain ⟨p, payload, rfl⟩ := Decoder.map_ofValue_eq_ok.mp read
    exact .inr (Decoder.payload_ofValue_eq_ok.mp payload ▸ mem)
  all_goals
    obtain ⟨a, -, rfl⟩ := Decoder.map_ofValue_eq_ok.mp read
    exact h

theorem payload_of_ofValue {j : Json} {t : Task} (h : decoder.ofValue j = .ok t) :
    t.payload = [] ∨ .object t.payload ∈ j.parts := by
  obtain ⟨draft, among, built⟩ := Record.exists_draft (r := document) (P := Draft.Quotes j)
    (.inl rfl) (fun _ known _ mem _ read _ quotes => Draft.Quotes.set quotes known mem read) h
  have same : draft.payload = t.payload := by
    simp only [document, ofDraft] at built
    split at built <;> cases built
    rfl
  exact same ▸ among

theorem ofJson_eq_ok {j : Json} {t : Task} (h : ofJson j = .ok t) :
    claimedSchema j ≤ supportedSchema.toNat ∧ decoder.ofValue j = .ok t := by
  unfold ofJson at h
  split at h
  · cases h
  · rename_i known
    split at h
    · rename_i read
      cases h
      exact ⟨Nat.not_lt.mp known, read⟩
    · cases h

theorem ofSource_eq_ok {s : Source} {t : Task} (h : ofSource s = .ok t) :
    ∃ j, Json.ofSource s = .ok j ∧ claimedSchema j ≤ supportedSchema.toNat ∧
      decoder.ofValue j = .ok t := by
  unfold ofSource at h
  split at h
  · rename_i j read
    exact ⟨j, read, ofJson_eq_ok h⟩
  · cases h

/-- A payload within a document was read one level less deep. -/
theorem ofBytes_legible {body : List UInt8} {t : Task} (h : ofBytes body = .ok t) :
    Legible (maxNesting - 1) (.object t.payload) := by
  obtain ⟨j, read, -, taken⟩ := ofSource_eq_ok h
  have whole : Legible (maxNesting - 1 + 1) j := ofSource_legible read
  rcases payload_of_ofValue taken with empty | part
  · rw [empty]
    rfl
  · exact whole.part part

/-! Written and read again. -/

variable {t : Task} {enough : Nat}

theorem ofBytes_of_legible (legible : Legible enough (.object t.payload))
    (known : t.schemaVersion ≤ supportedSchema) (deep : t.toJson.nesting ≤ maxNesting) :
    ∃ q, ofBytes (Text.Utf8.bytes t.encoded) = .ok { t with payload := q } := by
  rw [nesting_toJson] at deep
  obtain ⟨q, read⟩ := (legible.iff_nesting.mpr (Nat.le_sub_one_of_lt deep)).object
  exact ⟨q, ofBytes_of_reread read known⟩

end Task

namespace TaskResult

variable {r : TaskResult} {enough : Nat}

theorem ofBytes_eq_ok {body : List UInt8} (h : ofBytes body = .ok r) :
    decoder.ofSource (Text.Utf8.units body) = .ok r := by
  simp only [ofBytes, ofSource] at h
  split at h
  · cases h
    assumption
  · cases h

theorem breaks {k : Json} {depth : Nat} (read : reread (.object r.data) enough = some k)
    (deep : depth < (Json.object r.data).nesting) : Breaks decoder (depth + 1) r.toJson := by
  have content := breaks_payload read deep
  obtain ⟨taskId, kind, status, data, createdAt, attemptsUsed⟩ := r
  refine Record.breaks (r := document) ?_
  refine .later rfl (by simp) ((reads_text taskId _).map _) ?_
  cases kind with
  | none =>
    refine .later rfl (by simp) ((status.reads _).map _) ?_
    exact .here rfl (by simp) (content.map _)
  | some kind =>
    refine .later rfl (by simp) ((kind.reads _).optional.map _) ?_
    refine .later rfl (by simp) ((status.reads _).map _) ?_
    exact .here rfl (by simp) (content.map _)

theorem ofBytes_of_legible (legible : Legible enough (.object r.data))
    (deep : r.toJson.nesting ≤ maxNesting) :
    ∃ q, ofBytes (Text.Utf8.bytes r.encoded) = .ok { r with data := q } := by
  rw [nesting_toJson] at deep
  obtain ⟨q, read⟩ := (legible.iff_nesting.mpr (Nat.le_sub_one_of_lt deep)).object
  exact ⟨q, ofBytes_of_reread read⟩

/-- A document that was read is written so that it is read as the same result, if its data have
integers for their only numbers. -/
theorem plain_of_ofBytes {body : List UInt8} (h : ofBytes body = .ok r)
    (integral : Integral (.object r.data)) : r.Plain maxNesting := by
  let fit (draft : Draft) : Prop := Legible (maxNesting - 1) (.object draft.data) ∧
    (Integral (.object draft.data) → Json.Plain (.object draft.data))
  have keep : Record.Harmless fit (maxNesting - 1) document.fields := by
    intro f known s set rest read draft holds
    simp only [document, field, List.mem_cons, List.not_mem_nil, or_false] at known
    rcases known with rfl | rfl | rfl | rfl | rfl | rfl
    case inr.inr.inr.inl =>
      obtain ⟨p, payload, rfl⟩ := Decoder.map_read_eq_ok.mp read
      exact ⟨payload_legible payload, payload_plain payload⟩
    all_goals
      obtain ⟨a, -, rfl⟩ := Decoder.map_read_eq_ok.mp read
      exact holds
  obtain ⟨rest, read, -⟩ := whole_eq_ok (ofBytes_eq_ok h)
  obtain ⟨draft, ⟨legible, plain⟩, built⟩ :=
    Record.exists_draft_of_read (r := document) (P := fit) ⟨rfl, fun _ => ⟨.nil, trivial⟩⟩ keep read
  have same : draft.data = r.data := by
    simp only [document, ofDraft] at built
    split at built <;> cases built
    rfl
  rw [same] at legible plain
  refine ⟨plain integral, ?_⟩
  rw [nesting_toJson]
  exact Nat.add_le_add_right legible.nesting_le 1

theorem ofBytes_of_deep (legible : Legible enough (.object r.data))
    (deep : maxNesting < r.toJson.nesting) :
    ofBytes (Text.Utf8.bytes r.encoded) = .error (.malformed .malformed) := by
  obtain ⟨q, read⟩ := legible.object
  rw [nesting_toJson] at deep
  have text : decoder.ofSource (Json.sourceOf r.encoded) = .error .malformed :=
    (breaks read (Nat.lt_of_succ_lt_succ deep : maxNesting - 1 < _)).ofText
  rw [ofBytes, Text.Utf8.units_bytes, ofSource, ← Json.sourceOf]
  simp only [text]

end TaskResult

namespace DeadLetter

variable {l : DeadLetter} {enough : Nat}

/-- Its task is read one level less deep than a task alone. -/
theorem ofText_of_legible (legible : Legible enough (.object l.task.payload))
    (deep : l.task.toJson.nesting < maxNesting) :
    ∃ q, decoder.ofText l.encoded = .ok { l with task := { l.task with payload := q } } := by
  rw [Task.nesting_toJson] at deep
  have within : (Json.object l.task.payload).nesting ≤ maxNesting - 2 := Nat.le_sub_of_add_le deep
  obtain ⟨q, read⟩ := (legible.iff_nesting.mpr within).object
  exact ⟨q, ofText_of_reads (Task.reads read)⟩

theorem ofText_of_deep (legible : Legible enough (.object l.task.payload))
    (deep : maxNesting ≤ l.task.toJson.nesting) : decoder.ofText l.encoded = .error .malformed := by
  obtain ⟨q, read⟩ := legible.object
  rw [Task.nesting_toJson] at deep
  have task : Breaks Task.decoder (maxNesting - 1) l.task.toJson :=
    Task.breaks read (Nat.le_of_succ_le_succ deep : maxNesting - 2 < _)
  refine Breaks.ofText (j := l.toJson) ?_
  exact Record.breaks (r := document) (.here rfl (by simp) (task.map _))

end DeadLetter

end ClaimQueue
