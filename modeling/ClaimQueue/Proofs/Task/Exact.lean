import ClaimQueue.Proofs.Json.Records
import ClaimQueue.Proofs.Task.Document
import ClaimQueue.Proofs.Time.Rfc3339

/-! Tasks, dead letters and results that come back exactly as they were written. The payload must
hold integers for numbers, and the document must nest no deeper than the reader goes. -/

namespace ClaimQueue

open Json

theorem Json.Decoder.ofBytes_bytes {α : Type} (d : Decoder α) (s : String) :
    d.ofBytes (Text.Utf8.bytes s) = d.ofText s := by
  rw [ofBytes, Text.Utf8.units_bytes]
  rfl

/-! Kinds, statuses, times and capabilities. -/

theorem Instant.reads (t : Instant) (depth : Nat) :
    Reads Instant.decoder depth (.string t.text) t := by
  refine reads_parsed ?_ depth
  rw [Instant.ofText?_text]

theorem TaskKind.lookUp_name (k : TaskKind) : Decoder.lookUp table k.name = .ok k := by
  cases k <;> rfl

theorem TaskKind.reads (k : TaskKind) (depth : Nat) :
    Reads TaskKind.decoder depth (.string k.name) k := reads_variant k.lookUp_name depth

theorem ResultStatus.reads (s : ResultStatus) (depth : Nat) :
    Reads ResultStatus.decoder depth (.string s.name) s :=
  reads_variant (by cases s <;> rfl) depth

namespace CapabilitySet

theorem insertTag_of_beyond {tag : String} {tags : List String} (beyond : ∀ t ∈ tags, t < tag) :
    insertTag tag tags = tags ++ [tag] := by
  induction tags with
  | nil => rfl
  | cons t tags ih =>
    rw [List.forall_mem_cons] at beyond
    rw [insertTag, if_pos beyond.1, ih beyond.2, List.cons_append]

/-- Tags that arrive in their order stay in it. -/
theorem ofList_tags (set : CapabilitySet) : ofList set.tags = set := by
  have append (before : CapabilitySet) (after : List String)
      (ascending : (before.tags ++ after).Pairwise (· < ·)) :
      (after.foldl (fun set tag => set.insert tag) before).tags = before.tags ++ after := by
    induction after generalizing before with
    | nil => simp
    | cons tag after ih =>
      have beyond : ∀ t ∈ before.tags, t < tag := fun t mem =>
        (List.pairwise_append.mp ascending).2.2 t mem tag List.mem_cons_self
      have inserted : (before.insert tag).tags = before.tags ++ [tag] := insertTag_of_beyond beyond
      rw [← List.singleton_append, ← List.append_assoc, ← inserted] at ascending
      rw [List.foldl_cons, ih _ ascending, inserted, List.append_assoc, List.singleton_append]
  obtain ⟨tags, ascending⟩ := set
  have same := append empty tags ascending
  show List.foldl _ _ _ = _
  generalize List.foldl (fun (set : CapabilitySet) tag => set.insert tag) empty tags =
    built at same ⊢
  obtain ⟨list, _⟩ := built
  obtain rfl : list = tags := same
  rfl

theorem reads (set : CapabilitySet) (depth : Nat) :
    Reads CapabilitySet.decoder (depth + 1) set.toJson set := by
  have read := (reads_texts set.tags depth).map ofList
  rwa [ofList_tags] at read

theorem decoder_toJson (set : CapabilitySet) : decoder.ofValue set.toJson = .ok set := by
  have texts (tags : List String) :
      (tags.map Json.string).mapM Decoder.text.ofValue = .ok tags := by
    induction tags with
    | nil => rfl
    | cons tag tags ih =>
      rw [List.map_cons, List.mapM_cons, ih]
      rfl
  show (((set.tags.map Json.string).mapM Decoder.text.ofValue).map ofList) = _
  rw [texts]
  exact congrArg Except.ok set.ofList_tags

end CapabilitySet

namespace Task

/-- A task whose document nests at most so many levels, with integers for numbers. -/
structure Plain (levels : Nat) (t : Task) : Prop where
  payload : (Json.object t.payload).Plain
  nesting : t.toJson.nesting ≤ levels

theorem nesting_toJson (t : Task) : t.toJson.nesting = (Json.object t.payload).nesting + 1 := by
  have flat (tags : List String) : nestingItems (tags.map Json.string) = 0 := by
    induction tags with
    | nil => rfl
    | cons tag tags ih => simp [nestingItems, Json.nesting, ih]
  simp [toJson, CapabilitySet.toJson, Json.nesting, nestingMembers, flat]

theorem Plain.payload_nesting {levels : Nat} {t : Task} (h : t.Plain (levels + 1)) :
    (Json.object t.payload).nesting ≤ levels := by
  have deep := h.nesting
  rw [nesting_toJson] at deep
  omega

/-- It holds an object, so it opens two brackets at least. -/
theorem Plain.levels {levels : Nat} {t : Task} (h : t.Plain levels) :
    ∃ n, levels = n + 2 := by
  have deep := h.nesting
  rw [nesting_toJson, Json.nesting] at deep
  exact ⟨levels - 2, by omega⟩

theorem Plain.mono {levels more : Nat} {t : Task} (h : t.Plain levels) (le : levels ≤ more) :
    t.Plain more := ⟨h.payload, Nat.le_trans h.nesting le⟩

theorem nesting_bumped (t : Task) : t.bumped.toJson.nesting = t.toJson.nesting := by
  rw [nesting_toJson, nesting_toJson]
  rfl

theorem Plain.bumped {levels : Nat} {t : Task} (h : t.Plain levels) : t.bumped.Plain levels :=
  ⟨h.payload, t.nesting_bumped.le.trans h.nesting⟩

/-- The task of a dead letter, or one alone. Its payload may come back changed. -/
theorem reads {t : Task} {q : Payload} {depth : Nat}
    (h : reread (.object t.payload) depth = some (.object q)) :
    Reads decoder (depth + 1) t.toJson { t with payload := q } := by
  cases depth with
  | zero => cases h
  | succ depth =>
    let last : Draft := ⟨some t.kind, some t.id, q, t.requires, t.attempts, some t.createdAt,
      t.schemaVersion⟩
    refine Record.reads (r := document) last ?_ rfl
    refine .cons rfl (by simp) ((TaskKind.reads t.kind _).map _) ?_
    refine .cons rfl (by simp) ((reads_text t.id _).map _) ?_
    refine .cons rfl (by simp) ((reads_payload h).map _) ?_
    refine .cons rfl (by simp) ((t.requires.reads depth).map _) ?_
    refine .cons rfl (by simp) ((reads_word t.attempts _).map _) ?_
    refine .cons rfl (by simp) ((t.createdAt.reads _).map _) ?_
    refine .cons rfl (by simp) ((reads_word t.schemaVersion _).map _) ?_
    exact .nil _ _

theorem Plain.reads {levels : Nat} {t : Task} (h : t.Plain levels) :
    Reads decoder levels t.toJson t := by
  obtain ⟨depth, rfl⟩ := h.levels
  exact Task.reads (reread_of_plain _ h.payload h.payload_nesting)

/-- The task of an entry. Its payload, too, may come back changed. -/
theorem ofBytes_of_reread {t : Task} {q : Payload}
    (read : reread (.object t.payload) (maxNesting - 1) = some (.object q))
    (known : t.schemaVersion ≤ supportedSchema) :
    ofBytes (Text.Utf8.bytes t.encoded) = .ok { t with payload := q } := by
  have kind : TaskKind.decoder.ofValue (.string t.kind.name) = .ok t.kind := t.kind.lookUp_name
  have payload : Decoder.payload.ofValue (.object q) = .ok q := rfl
  have schema : ¬ supportedSchema.toNat < t.schemaVersion.toNat :=
    Nat.not_lt.mpr (UInt32.le_iff_toNat_le.mp known)
  rw [ofBytes_eq_ok, readBack, if_neg schema, read, kind, Instant.ofText?_text,
    CapabilitySet.decoder_toJson]
  simp only [Option.bind_some, payload]
  rfl

theorem ofBytes_of_plain {t : Task} (h : t.Plain maxNesting)
    (known : t.schemaVersion ≤ supportedSchema) :
    ofBytes (Text.Utf8.bytes t.encoded) = .ok t :=
  have deep : (Json.object t.payload).nesting ≤ maxNesting - 1 := h.payload_nesting
  ofBytes_of_reread (reread_of_plain _ h.payload deep) known

end Task

namespace DeadLetter

/-- One level more than its task. -/
theorem ofText_of_reads {l : DeadLetter} {t : Task}
    (h : Reads Task.decoder (maxNesting - 1) l.task.toJson t) :
    decoder.ofText l.encoded = .ok { l with task := t } := by
  refine Reads.ofText (j := l.toJson) ?_
  refine Record.reads (r := document) ⟨some t, some l.reason, some l.movedAt⟩ ?_ rfl
  refine .cons rfl (by simp) (h.map _) ?_
  refine .cons rfl (by simp) ((reads_text l.reason _).map _) ?_
  refine .cons rfl (by simp) ((l.movedAt.reads _).map _) ?_
  exact .nil _ _

theorem ofText_encoded {l : DeadLetter} (h : l.task.Plain (maxNesting - 1)) :
    decoder.ofText l.encoded = .ok l := ofText_of_reads h.reads

end DeadLetter

namespace TaskResult

structure Plain (levels : Nat) (r : TaskResult) : Prop where
  data : (Json.object r.data).Plain
  nesting : r.toJson.nesting ≤ levels

theorem nesting_toJson (r : TaskResult) : r.toJson.nesting = (Json.object r.data).nesting + 1 := by
  obtain ⟨taskId, kind, status, data, createdAt, attemptsUsed⟩ := r
  cases kind <;> simp [toJson, Json.nesting, nestingMembers]

theorem reads {r : TaskResult} {q : Payload} {depth : Nat}
    (h : reread (.object r.data) depth = some (.object q)) :
    Reads decoder (depth + 1) r.toJson { r with data := q } := by
  have content := reads_payload h
  obtain ⟨taskId, kind, status, data, createdAt, attemptsUsed⟩ := r
  refine Record.reads (r := document)
    ⟨some taskId, kind, some status, q, some createdAt, attemptsUsed⟩ ?_ rfl
  refine .cons rfl (by simp) ((reads_text taskId _).map _) ?_
  cases kind with
  | none =>
    refine .cons rfl (by simp) ((status.reads _).map _) ?_
    refine .cons rfl (by simp) (content.map _) ?_
    refine .cons rfl (by simp) ((createdAt.reads _).map _) ?_
    refine .cons rfl (by simp) ((reads_word attemptsUsed _).map _) ?_
    exact .nil _ _
  | some kind =>
    refine .cons rfl (by simp) ((kind.reads _).optional.map _) ?_
    refine .cons rfl (by simp) ((status.reads _).map _) ?_
    refine .cons rfl (by simp) (content.map _) ?_
    refine .cons rfl (by simp) ((createdAt.reads _).map _) ?_
    refine .cons rfl (by simp) ((reads_word attemptsUsed _).map _) ?_
    exact .nil _ _

theorem Plain.reads {levels : Nat} {r : TaskResult} (h : r.Plain levels) :
    Reads decoder levels r.toJson r := by
  have deep := h.nesting
  rw [nesting_toJson] at deep
  obtain ⟨depth, rfl⟩ : ∃ depth, levels = depth + 1 := ⟨levels - 1, by omega⟩
  exact TaskResult.reads (reread_of_plain _ h.data (Nat.le_of_succ_le_succ deep))

/-- The data may come back changed. -/
theorem ofBytes_of_reread {r : TaskResult} {q : Payload}
    (read : reread (.object r.data) (maxNesting - 1) = some (.object q)) :
    ofBytes (Text.Utf8.bytes r.encoded) = .ok { r with data := q } := by
  have text : decoder.ofSource (Json.sourceOf r.encoded) = .ok { r with data := q } :=
    (reads read).ofText
  rw [ofBytes, Text.Utf8.units_bytes, ofSource, ← Json.sourceOf]
  simp only [text]

theorem ofBytes_encoded {r : TaskResult} (h : r.Plain maxNesting) :
    ofBytes (Text.Utf8.bytes r.encoded) = .ok r := by
  have deep := h.nesting
  rw [nesting_toJson] at deep
  exact ofBytes_of_reread (reread_of_plain _ h.data (Nat.le_of_succ_le_succ deep))

end TaskResult

end ClaimQueue
