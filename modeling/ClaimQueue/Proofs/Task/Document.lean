import ClaimQueue.Proofs.Json.Reread
import ClaimQueue.Proofs.Task.Work
import ClaimQueue.Proofs.Text.Utf8
import ClaimQueue.Queue.DeadLetter
import ClaimQueue.Task.Wire

/-! The document of a task, read back. Its payload becomes what the reader makes of it; the id and
the attempts come back as they are, whatever the payload is. -/

namespace ClaimQueue

open Json

namespace Task

/-- The document as it is read, with what became of the payload. -/
def documentOf (t : Task) (payload : Json) : Json := .object [
  ("attempts", .int t.attempts.toNat),
  ("created_at", .string t.createdAt.text),
  ("id", .string t.id),
  ("kind", .string t.kind.name),
  ("payload", payload),
  ("requires", t.requires.toJson),
  ("schema_version", .int t.schemaVersion.toNat)]

theorem wide_word (n : UInt32) : Wide n.toNat := by
  have small := n.toNat_lt
  unfold Wide
  omega

/-- Two levels are needed for the document itself. -/
theorem reread_toJson (t : Task) (depth : Nat) : reread t.toJson (depth + 2) =
    (reread (.object t.payload) (depth + 1)).map t.documentOf := by
  have requires : reread t.requires.toJson (depth + 1) = some t.requires.toJson := by
    rw [CapabilitySet.toJson, reread, rereadItems_strings]
    rfl
  have string (s : String) : reread (.string s) (depth + 1) = some (.string s) := rfl
  rw [toJson, reread]
  simp only [rereadMembers, requires, reread_int (wide_word _), string, Option.bind_some,
    Option.map_some]
  cases reread (.object t.payload) (depth + 1) with
  | none => rfl
  | some p =>
    simp only [Option.bind_some, Option.map_some, documentOf, Index.ofList, List.foldl_cons,
      List.foldl_nil, Index.put, String.reduceLT, String.reduceEq, reduceIte]

theorem word_ofValue (n : UInt32) : Decoder.word.ofValue (.int n.toNat) = .ok n := by
  have small := n.toNat_lt
  have inside : (0 : Int) ≤ n.toNat ∧ (n.toNat : Int) ≤ ((2 ^ 32 - 1 : Nat) : Int) := by omega
  simp only [Decoder.word, Decoder.map, Decoder.natural, Decoder.naturalOf, if_pos inside]
  simp [Except.map]

theorem decoder_documentOf (t : Task) (payload : Json) :
    (decoder.ofValue (t.documentOf payload)).toOption =
      (Instant.ofText? t.createdAt.text).bind fun createdAt =>
      (TaskKind.decoder.ofValue (.string t.kind.name)).toOption.bind fun kind =>
      (Decoder.payload.ofValue payload).toOption.bind fun payload =>
      (CapabilitySet.decoder.ofValue t.requires.toJson).toOption.map fun requires =>
        ⟨kind, t.id, payload, requires, t.attempts, createdAt, t.schemaVersion⟩ := by
  have attempts : document.find? "attempts" =
      some (field "attempts" .word fun a d => { d with attempts := a }) := rfl
  have createdAt : document.find? "created_at" =
      some (field "created_at" Instant.decoder fun a d => { d with createdAt := some a }) := rfl
  have id : document.find? "id" = some (field "id" .text fun a d => { d with id := some a }) := rfl
  have kind : document.find? "kind" =
      some (field "kind" TaskKind.decoder fun a d => { d with kind := some a }) := rfl
  have content : document.find? "payload" =
      some (field "payload" .payload fun a d => { d with payload := a }) := rfl
  have requires : document.find? "requires" =
      some (field "requires" CapabilitySet.decoder fun a d => { d with requires := a }) := rfl
  have schema : document.find? "schema_version" =
      some (field "schema_version" .word fun a d => { d with schemaVersion := a }) := rfl
  have text : Decoder.text.ofValue (.string t.id) = .ok t.id := rfl
  have time : (Instant.decoder.ofValue (.string t.createdAt.text)).toOption =
      Instant.ofText? t.createdAt.text := by
    simp only [Instant.decoder, Decoder.parsed]
    cases Instant.ofText? t.createdAt.text <;> rfl
  simp only [documentOf, decoder, Record.decoder, Record.ofValue, Record.draftOfMembers, attempts,
    createdAt, id, kind, content, requires, schema, field, Decoder.map, word_ofValue, toOption_bind]
  rw [← time, text]
  cases Instant.decoder.ofValue (.string t.createdAt.text) with
  | error => rfl
  | ok createdAt =>
    cases TaskKind.decoder.ofValue (.string t.kind.name) with
    | error => rfl
    | ok kind =>
      cases Decoder.payload.ofValue payload with
      | error => rfl
      | ok payload => cases CapabilitySet.decoder.ofValue t.requires.toJson <;> rfl

theorem claimedSchema_documentOf (t : Task) (payload : Json) :
    claimedSchema (t.documentOf payload) = t.schemaVersion.toNat := by
  simp [claimedSchema, documentOf, member?, Index.find?, natural?]

theorem ofJson_documentOf (t : Task) (payload : Json) :
    (ofJson (t.documentOf payload)).toOption =
      if supportedSchema.toNat < t.schemaVersion.toNat then none
      else (decoder.ofValue (t.documentOf payload)).toOption := by
  rw [ofJson, claimedSchema_documentOf]
  split
  · rfl
  · cases decoder.ofValue (t.documentOf payload) <;> rfl

theorem ofBytes_encoded (t : Task) : (ofBytes (Text.Utf8.bytes t.encoded)).toOption =
    (reread (.object t.payload) (maxNesting - 1)).bind fun payload =>
      (ofJson (t.documentOf payload)).toOption := by
  have read : (Json.ofSource (sourceOf t.encoded)).toOption =
      (reread (.object t.payload) (maxNesting - 1)).map t.documentOf :=
    (ofText_compact t.toJson).trans (t.reread_toJson (maxNesting - 2))
  rw [ofBytes, Text.Utf8.units_bytes, ofSource]
  cases document : Json.ofSource (t.encoded.toList.map some) with
  | error e =>
    have none : (Json.ofSource (sourceOf t.encoded)).toOption = none := congrArg _ document
    rw [none] at read
    rw [Option.map_eq_none_iff.mp read.symm]
    rfl
  | ok j =>
    have some : (Json.ofSource (sourceOf t.encoded)).toOption = some j := congrArg _ document
    rw [some] at read
    obtain ⟨payload, same, rfl⟩ := Option.map_eq_some_iff.mp read.symm
    rw [same]
    rfl

/-- What a written task is read as. Only the payload may differ. -/
def readBack (t : Task) : Option Task :=
  if supportedSchema.toNat < t.schemaVersion.toNat then none
  else
    (reread (.object t.payload) (maxNesting - 1)).bind fun payload =>
    (Instant.ofText? t.createdAt.text).bind fun createdAt =>
    (TaskKind.decoder.ofValue (.string t.kind.name)).toOption.bind fun kind =>
    (Decoder.payload.ofValue payload).toOption.bind fun payload =>
    (CapabilitySet.decoder.ofValue t.requires.toJson).toOption.map fun requires =>
      ⟨kind, t.id, payload, requires, t.attempts, createdAt, t.schemaVersion⟩

theorem ofBytes_encoded_toOption (t : Task) :
    (ofBytes (Text.Utf8.bytes t.encoded)).toOption = t.readBack := by
  rw [ofBytes_encoded, readBack]
  simp only [ofJson_documentOf, decoder_documentOf]
  split
  · cases reread (.object t.payload) (maxNesting - 1) <;> rfl
  · rfl

theorem ofBytes_eq_ok {t u : Task} :
    ofBytes (Text.Utf8.bytes t.encoded) = .ok u ↔ t.readBack = some u := by
  rw [← ofBytes_encoded_toOption, toOption_eq_some]

theorem readBack_withAttempts (t : Task) (n : UInt32) :
    (t.withAttempts n).readBack = t.readBack.map (withAttempts n) := by
  unfold readBack
  split
  · rename_i newer
    rw [if_pos (show supportedSchema.toNat < t.schemaVersion.toNat from newer)]
    rfl
  · rename_i known
    rw [if_neg (show ¬ supportedSchema.toNat < t.schemaVersion.toNat from known)]
    simp only [Option.map_bind, Option.map_map, Function.comp_def]
    rfl

/-- The id comes back as it was. -/
theorem id_of_readBack {t u : Task} (read : t.readBack = some u) : u.id = t.id := by
  unfold readBack at read
  split at read
  · cases read
  · simp only [Option.bind_eq_some_iff, Option.map_eq_some_iff] at read
    obtain ⟨_, -, _, -, _, -, _, -, _, -, rfl⟩ := read
    rfl

/-! A document tells whose it is, even one that cannot be read. -/

theorem stringChars_append_inj {s t : String} {cs ds : List Char}
    (same : stringChars s ++ cs = stringChars t ++ ds) : s = t ∧ cs = ds := by
  have text := congrArg source same
  rw [source_append, source_append, Scan.source_stringChars, Scan.source_stringChars] at text
  have read := congrArg Scan.string (List.cons.inj text).2
  rw [Scan.string_written, Scan.string_written] at read
  have both := Prod.mk.inj (Except.ok.inj read)
  exact ⟨both.1, (List.map_inj_right fun _ _ => Option.some.inj).mp both.2⟩

/-- Whatever follows, the document begins with kind and id. -/
theorem id_of_chars {t u : Task} {cs ds : List Char}
    (same : t.toJson.chars ++ cs = u.toJson.chars ++ ds) : t.id = u.id := by
  simp only [toJson, chars, memberChars, separated_eq, joined, lead, if_true, Bool.false_eq_true,
    if_false, List.nil_append, List.cons_append, List.append_assoc, List.cons.injEq,
    true_and] at same
  have kinds := (stringChars_append_inj same).2
  simp only [List.cons.injEq, true_and] at kinds
  have ids := (stringChars_append_inj kinds).2
  simp only [List.cons.injEq, true_and] at ids
  have values := (stringChars_append_inj ids).2
  simp only [List.cons.injEq, true_and] at values
  exact (stringChars_append_inj values).1

theorem chars_of_bytes {i j : Json}
    (same : Text.Utf8.bytes i.compact = Text.Utf8.bytes j.compact) : i.chars = j.chars := by
  have text := congrArg String.toList (Text.Utf8.bytes_injective same)
  simpa only [compact, String.toList_ofList] using text

theorem id_of_encoded {t u : Task}
    (same : Text.Utf8.bytes t.encoded = Text.Utf8.bytes u.encoded) : t.id = u.id :=
  have text : t.toJson.chars ++ [] = u.toJson.chars ++ [] := by rw [chars_of_bytes same]
  id_of_chars text

end Task

/-- A dead letter begins with its task. -/
theorem DeadLetter.id_of_encoded {l m : DeadLetter}
    (same : Text.Utf8.bytes l.encoded = Text.Utf8.bytes m.encoded) : l.task.id = m.task.id := by
  have text : l.toJson.chars = m.toJson.chars := Task.chars_of_bytes same
  simp only [DeadLetter.toJson, chars, memberChars, separated_eq, joined, lead, if_true,
    List.nil_append, List.cons_append, List.append_assoc, List.cons.injEq, true_and] at text
  have tasks := (Task.stringChars_append_inj text).2
  simp only [List.cons.injEq, true_and] at tasks
  exact Task.id_of_chars tasks

end ClaimQueue
