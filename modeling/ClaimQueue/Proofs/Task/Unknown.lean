import ClaimQueue.Proofs.Json.Unknown
import ClaimQueue.Proofs.Text.Utf8
import ClaimQueue.Task.Wire

/-! Tasks and results with members that nobody knows. -/

namespace ClaimQueue

open Json

/-! A task is made from a value, which was read before. -/

namespace Task

theorem ofSource_page (p : Page) (members : List (Member Form)) :
    ofSource (source (p.chars members)) = match Form.entries? members 126 with
      | some entries => ofJson (.object (Index.ofList entries))
      | none => .error (.malformed .malformed) := by
  rw [ofSource, Json.ofSource_page]
  cases Form.entries? members 126 <;> rfl

/-- The schema that is claimed, and the id that a refusal carries, stand under known keys. -/
theorem ofJson_insert {name : String} (unknown : name ∉ document.fields.map (·.name)) (j : Json)
    (front back : List (String × Json)) :
    ofJson (.object (Index.ofList (front ++ (name, j) :: back))) =
      ofJson (.object (Index.ofList (front ++ back))) := by
  have found {key : String} (known : key ∈ document.fields.map (·.name)) :
      (Json.object (Index.ofList (front ++ (name, j) :: back))).member? key =
        (Json.object (Index.ofList (front ++ back))).member? key := by
    refine Index.find?_ofList_insert (fun same => unknown ?_) j front back
    rwa [← same]
  have schema : claimedSchema (.object (Index.ofList (front ++ (name, j) :: back))) =
      claimedSchema (.object (Index.ofList (front ++ back))) := by
    rw [claimedSchema, claimedSchema, found (by decide)]
  have read : decoder.ofValue (.object (Index.ofList (front ++ (name, j) :: back))) =
      decoder.ofValue (.object (Index.ofList (front ++ back))) :=
    document.ofValue_insert (document.find?_eq_none unknown) j front back
  rw [ofJson, ofJson, schema, read, found (by decide)]

theorem ofSource_insert (p : Page) (front back : List (Member Form)) {m : Member Form}
    {name : String} (named : m.name? = some name)
    (unknown : name ∉ document.fields.map (·.name)) :
    ofSource (source (p.chars (front ++ m :: back))) =
      if (m.content.value? 126).isSome then ofSource (source (p.chars (front ++ back)))
      else .error (.malformed .malformed) := by
  rw [ofSource_page, ofSource_page, Form.entries?_append, Form.entries?_append, Form.entries?_cons,
    named]
  cases Form.entries? front 126 with
  | none => cases m.content.value? 126 <;> rfl
  | some before =>
    cases m.content.value? 126 with
    | none => rfl
    | some j =>
      cases Form.entries? back 126 with
      | none => rfl
      | some behind => exact ofJson_insert unknown j before behind

end Task

/-! A result is made straight from the text. -/

namespace TaskResult

open Decoder

theorem steady : ∀ f ∈ document.fields, f.set.Steady := by
  simp only [document, List.forall_mem_cons, List.not_mem_nil, false_implies, implies_true, and_true]
  exact ⟨(steady_parsed ..).map _, (steady_variant _).optional.map _, (steady_variant _).map _,
    steady_payload.map _, (steady_parsed ..).map _, ((steady_natural ..).map _).map _⟩

theorem ofSource_insert (p : Page) (front back : List (Member Form)) {m : Member Form}
    {name : String} (named : m.name? = some name)
    (unknown : name ∉ document.fields.map (·.name)) :
    ofSource (source (p.chars (front ++ m :: back))) = ofSource (source (p.chars (front ++ back))) := by
  have read : decoder.ofSource (source (p.chars (front ++ m :: back))) =
      decoder.ofSource (source (p.chars (front ++ back))) :=
    document.ofSource_insert steady p front back named (document.find?_eq_none unknown)
  rw [ofSource, ofSource, read]

end TaskResult

/-- A member under a key that is not known may stand anywhere, and whatever it holds, the result is
the same, be it a value or a fault. So is the task, as long as the member can be held: its numbers
are not too large, its surrogates come in pairs, and its brackets stay within the limit. -/
theorem unknown_member_ignored (p : Page) (front back : List (Member Form)) (m : Member Form)
    {name : String} (named : m.name? = some name) :
    (name ∉ Task.document.fields.map (·.name) →
      (m.content.Sound ∧ m.content.nesting < maxNesting →
        Task.ofBytes (Text.Utf8.encode (p.chars (front ++ m :: back))) =
          Task.ofBytes (Text.Utf8.encode (p.chars (front ++ back)))) ∧
      (¬ (m.content.Sound ∧ m.content.nesting < maxNesting) →
        Task.ofBytes (Text.Utf8.encode (p.chars (front ++ m :: back))) =
          .error (.malformed .malformed))) ∧
    (name ∉ TaskResult.document.fields.map (·.name) →
      TaskResult.ofBytes (Text.Utf8.encode (p.chars (front ++ m :: back))) =
        TaskResult.ofBytes (Text.Utf8.encode (p.chars (front ++ back)))) := by
  have held : (m.content.value? 126).isSome ↔ m.content.Sound ∧ m.content.nesting < maxNesting := by
    rw [Form.isSome_value?_iff, maxNesting, Nat.lt_succ_iff]
  simp only [Task.ofBytes, TaskResult.ofBytes, Text.Utf8.units_encode]
  refine ⟨fun unknown => ⟨fun sound => ?_, fun unsound => ?_⟩, fun unknown => ?_⟩
  · exact (Task.ofSource_insert p front back named unknown).trans (if_pos (held.mpr sound))
  · exact (Task.ofSource_insert p front back named unknown).trans (if_neg (mt held.mp unsound))
  · exact TaskResult.ofSource_insert p front back named unknown

private def indent : Gap := ⟨['\n', ' ', ' '], by unfold Blank; decide⟩

private def letters (cs : List Char) : List Glyph := cs.filterMap fun c =>
  if fits : ¬ c < ' ' ∧ c ≠ '"' ∧ c ≠ '\\' then some (.plain c fits) else none

private def entry (key : String) (content : Form) : Member Form :=
  ⟨indent, letters key.toList, .empty, .empty, content, .empty⟩

private def said (s : String) : Form := .string (letters s.toList)

/-- Half a surrogate pair. -/
private def lone : Form := .string [.coded 'd' '8' '0' '0' 0xD800 rfl]

private def sheet : Page := ⟨.empty, .empty, indent⟩

private def aboutFig : List (Member Form) :=
  [entry "task_id" (said "fig"), entry "status" (said "ok"),
    entry "created_at" (said "1970-01-01T00:00:00Z")]

private def fig : TaskResult where
  taskId := "fig"
  kind := none
  status := .ok
  data := []
  createdAt := .epoch
  attemptsUsed := 0

private def orderFig : List (Member Form) :=
  [entry "kind" (said "render"), entry "id" (said "fig"),
    entry "created_at" (said "1970-01-01T00:00:00Z")]

private def painting : Task where
  kind := .render
  id := "fig"
  payload := []
  requires := .empty
  attempts := 0
  createdAt := .epoch
  schemaVersion := 1

theorem unknown_note_ignored :
    TaskResult.ofBytes (Text.Utf8.encode (sheet.chars
      (aboutFig.take 1 ++ entry "note" lone :: aboutFig.drop 1))) = .ok fig ∧
    Task.ofBytes (Text.Utf8.encode (sheet.chars
      (orderFig.take 2 ++ entry "note" (said "ripe") :: orderFig.drop 2))) = .ok painting ∧
    Task.ofBytes (Text.Utf8.encode (sheet.chars
      (orderFig.take 2 ++ entry "note" lone :: orderFig.drop 2))) = .error (.malformed .malformed) := by
  have named (content : Form) : (entry "note" content).name? = some "note" := rfl
  have unknown : "note" ∉ Task.document.fields.map (·.name) := by decide
  have unknown' : "note" ∉ TaskResult.document.fields.map (·.name) := by decide
  have result : TaskResult.ofBytes (Text.Utf8.encode (sheet.chars aboutFig)) = .ok fig := by
    decide +kernel
  have task : Task.ofBytes (Text.Utf8.encode (sheet.chars orderFig)) = .ok painting := by
    decide +kernel
  have sound : (said "ripe").Sound ∧ (said "ripe").nesting < maxNesting := ⟨rfl, by decide⟩
  have unsound : ¬ (lone.Sound ∧ lone.nesting < maxNesting) := fun sound => nomatch sound.1
  refine ⟨?_, ?_, ?_⟩
  · exact ((unknown_member_ignored sheet _ _ _ (named lone)).2 unknown').trans result
  · exact (((unknown_member_ignored sheet _ _ _ (named _)).1 unknown).1 sound).trans task
  · exact ((unknown_member_ignored sheet _ _ _ (named lone)).1 unknown).2 unsound

end ClaimQueue
