import ClaimQueue.Proofs.Worker.Routing

/-! What a template that could be built is able to run. The check before the start asks for a handler
of each expected kind; the choice at run time asks besides whether the handler is allowed, and
whether the worker has what the handler provides. -/

namespace ClaimQueue.Worker

open Registry

variable {c : Config} {hs : List Handler} {k : TaskKind} {t : Task} {h : Handler}

/-- A handler of the kind that may run, and for which the worker has all there has to be. -/
structure Reaches (c : Config) (k : TaskKind) (h : Handler) : Prop where
  kind : h.kind = k
  allowed : ∀ names, c.allow = some names → h.name ∈ names
  present : h.provides.tags ⊆ c.caps.tags

theorem reaches_of_suits {requires : CapabilitySet} (suits : Suits k requires c.caps c.allow h) :
    Reaches c k h :=
  ⟨suits.kind, suits.allowed, suits.present⟩

theorem suits_empty_iff : Suits k .empty c.caps c.allow h ↔ Reaches c k h :=
  ⟨reaches_of_suits, fun reaches =>
    ⟨reaches.kind, reaches.allowed, List.nil_subset _, reaches.present⟩⟩

theorem suits_empty_eq : Suits k .empty c.caps c.allow = Reaches c k :=
  funext fun _ => propext suits_empty_iff

/-! The check before the start. -/

theorem mem_kinds_iff : k ∈ (ofHistory hs).kinds ↔ ∃ earlier h, Accepted hs earlier h ∧ h.kind = k := by
  have every : k ∈ TaskKind.all := by cases k <;> decide
  simp only [kinds, List.mem_filter, every, true_and, List.any_eq_true, beq_iff_eq, mem_handlers_iff]
  constructor
  · rintro ⟨h, ⟨earlier, accepted⟩, same⟩
    exact ⟨earlier, h, accepted, same⟩
  · rintro ⟨earlier, h, accepted, same⟩
    exact ⟨h, ⟨earlier, accepted⟩, same⟩

theorem mem_missing_iff {expected : List TaskKind} : k ∈ missing (ofHistory hs) expected ↔
    k ∈ expected ∧ ∀ earlier h, Accepted hs earlier h → h.kind ≠ k := by
  rw [missing, List.mem_filter, Bool.not_eq_true', List.contains_eq_mem, decide_eq_false_iff_not,
    mem_kinds_iff]
  simp only [not_exists, not_and, ne_eq]

theorem build_eq_ok_iff {expected : Option (List TaskKind)} {w : Template} :
    Template.build (ofHistory hs) c expected = .ok w ↔ w = ⟨ofHistory hs, c⟩ ∧
      ∀ k ∈ expected.getD [], ∃ earlier h, Accepted hs earlier h ∧ h.kind = k := by
  have complete : missing (ofHistory hs) (expected.getD []) = [] ↔
      ∀ k ∈ expected.getD [], ∃ earlier h, Accepted hs earlier h ∧ h.kind = k := by
    simp only [List.eq_nil_iff_forall_not_mem, mem_missing_iff, not_and, not_forall, not_not,
      exists_prop, ne_eq]
  rw [← complete, Template.build]
  split
  · next none => simp only [none, Except.ok.injEq, and_true, eq_comm]
  · next lacking some => exact ⟨fun h => (nomatch h), fun ⟨_, all⟩ => (some all).elim⟩

theorem mem_of_build_eq_error {expected : Option (List TaskKind)} {lacking : List TaskKind}
    (refused : Template.build (ofHistory hs) c expected = .error lacking) :
    lacking ≠ [] ∧ ∀ k, k ∈ lacking ↔
      k ∈ expected.getD [] ∧ ∀ earlier h, Accepted hs earlier h → h.kind ≠ k := by
  rw [Template.build] at refused
  split at refused
  · cases refused
  · next some =>
    cases refused
    exact ⟨some, fun k => mem_missing_iff⟩

/-! The choice at run time. -/

/-- Of what could be chosen for a task without requirements, the first handler runs. -/
theorem runs_iff_first_reaches (plain : t.requires = .empty)
    (known : t.schemaVersion ≤ Task.supportedSchema) :
    Runs ⟨ofHistory hs, c⟩ t h ↔ First (Reaches c t.kind) hs h := by
  rw [← suits_empty_eq, ← plain, ← select?_eq_some_iff]
  exact ⟨fun runs => (select_of_runs runs).2.2, runs_of_select known⟩

theorem exists_runs_iff (plain : t.requires = .empty)
    (known : t.schemaVersion ≤ Task.supportedSchema) :
    (∃ h, Runs ⟨ofHistory hs, c⟩ t h) ↔
      ∃ earlier h, Accepted hs earlier h ∧ Reaches c t.kind h := by
  constructor
  · rintro ⟨h, runs⟩
    obtain ⟨earlier, accepted, reaches, -⟩ := (runs_iff_first_reaches plain known).mp runs
    exact ⟨earlier, h, accepted, reaches⟩
  · rintro ⟨earlier, h, accepted, reaches⟩
    cases chosen : (ofHistory hs).select? t.kind t.requires c.caps c.allow with
    | some first => exact ⟨first, runs_of_select known chosen⟩
    | none =>
      have suits : Suits t.kind t.requires c.caps c.allow h := plain ▸ suits_empty_iff.mpr reaches
      exact (select?_eq_none_iff.mp chosen earlier h accepted suits).elim

theorem handsBack_of_unreached (known : t.schemaVersion ≤ Task.supportedSchema)
    (unreached : ∀ earlier h, Accepted hs earlier h → ¬ Reaches c t.kind h) :
    HandsBack ⟨ofHistory hs, c⟩ t :=
  handsBack_of_eq (process_of_none known (select?_eq_none_iff.mpr fun earlier h accepted suits =>
    unreached earlier h accepted (reaches_of_suits suits)))

/-- A template is built just if each expected kind has a handler, and else the kinds without one are
told. A worker of it runs a task of an expected kind without requirements just if some handler of
the kind is allowed and provides only what the worker has; else it hands back each task of the
kind. -/
theorem built_runs_what_it_reaches (hs : List Handler) (c : Config)
    (expected : Option (List TaskKind)) :
    (∀ w, Template.build (ofHistory hs) c expected = .ok w ↔ w = ⟨ofHistory hs, c⟩ ∧
      ∀ k ∈ expected.getD [], ∃ earlier h, Accepted hs earlier h ∧ h.kind = k) ∧
    (∀ lacking, Template.build (ofHistory hs) c expected = .error lacking →
      lacking ≠ [] ∧ ∀ k, k ∈ lacking ↔
        k ∈ expected.getD [] ∧ ∀ earlier h, Accepted hs earlier h → h.kind ≠ k) ∧
    ∀ w, Template.build (ofHistory hs) c expected = .ok w →
      ∀ t : Task, t.kind ∈ expected.getD [] → t.schemaVersion ≤ Task.supportedSchema →
        (t.requires = .empty →
          ((∃ h, Runs w t h) ↔ ∃ earlier h, Accepted hs earlier h ∧ Reaches c t.kind h) ∧
          ∀ h, Runs w t h ↔ First (Reaches c t.kind) hs h) ∧
        ((∀ earlier h, Accepted hs earlier h → ¬ Reaches c t.kind h) →
          HandsBack w t ∧ ReturnsAsItWas t) := by
  refine ⟨fun w => build_eq_ok_iff, fun lacking => mem_of_build_eq_error, fun w built t _ known => ?_⟩
  obtain ⟨rfl, -⟩ := build_eq_ok_iff.mp built
  exact ⟨fun plain => ⟨exists_runs_iff plain known, fun h => runs_iff_first_reaches plain known⟩,
    fun unreached => ⟨handsBack_of_unreached known unreached, t.returnsAsItWas⟩⟩

private theorem sorted_gpu : ["gpu"].Pairwise (· < ·) := List.pairwise_singleton _ _

private def renderer : Handler where
  name := "plot"
  kind := .render
  provides := ⟨["gpu"], sorted_gpu⟩
  run _ := ⟨⟨0⟩, .done []⟩

private def sketch : Task where
  kind := .render
  id := "t-1"
  payload := []
  requires := .empty
  attempts := 0
  createdAt := .epoch
  schemaVersion := 1

/-- With what the handler provides, without it, and with the handler off the list. -/
private def equipped : Config := { caps := renderer.provides }

private def bare : Config := {}

private def barred : Config := { equipped with allow := some ["trace"] }

private theorem accepted_renderer : Accepted [renderer] [] renderer := ⟨⟨[], rfl⟩, List.not_mem_nil⟩

private theorem eq_renderer {earlier : List Handler} (accepted : Accepted [renderer] earlier h) :
    h = renderer :=
  List.mem_singleton.mp (mem_handlers_iff.mpr ⟨earlier, accepted⟩)

theorem built_runs_sketch :
    (∃ h, Runs ⟨ofHistory [renderer], equipped⟩ sketch h) ∧
    HandsBack ⟨ofHistory [renderer], barred⟩ sketch ∧
    ∃ lacking, Template.build (ofHistory [renderer]) equipped (some [.render, .mutate]) =
      .error lacking ∧ ∀ k, k ∈ lacking ↔
        k ∈ [TaskKind.render, .mutate] ∧ ∀ earlier h, Accepted [renderer] earlier h → h.kind ≠ k := by
  obtain ⟨-, -, reached⟩ := built_runs_what_it_reaches [renderer] equipped (some [.render])
  obtain ⟨-, -, unreached⟩ := built_runs_what_it_reaches [renderer] barred (some [.render])
  obtain ⟨-, lacks, -⟩ := built_runs_what_it_reaches [renderer] equipped (some [.render, .mutate])
  refine ⟨?_, ?_, [.mutate], rfl, (lacks _ rfl).2⟩
  · exact ((reached _ rfl sketch (by decide) (by decide)).1 rfl).1.mpr
      ⟨[], renderer, accepted_renderer, rfl, fun _ none => (nomatch none), List.Subset.refl _⟩
  · refine ((unreached _ rfl sketch (by decide) (by decide)).2 fun earlier h accepted reaches => ?_).1
    have allowed := reaches.allowed _ rfl
    rw [eq_renderer accepted] at allowed
    exact absurd allowed (by decide)

/-- The one handler of the expected kind provides what the worker does not have. -/
theorem built_hands_back_sketch :
    Template.build (ofHistory [renderer]) bare (some [.render]) = .ok ⟨ofHistory [renderer], bare⟩ ∧
    sketch.kind = .render ∧ sketch.requires = .empty ∧
    sketch.schemaVersion ≤ Task.supportedSchema ∧
    HandsBack ⟨ofHistory [renderer], bare⟩ sketch ∧
    ¬ ∃ h, Runs ⟨ofHistory [renderer], bare⟩ sketch h := by
  have unreached : ∀ earlier h, Accepted [renderer] earlier h → ¬ Reaches bare sketch.kind h := by
    intro earlier h accepted reaches
    have present := reaches.present
    rw [eq_renderer accepted] at present
    exact absurd present (by decide)
  refine ⟨rfl, rfl, rfl, by decide, handsBack_of_unreached (by decide) unreached, fun runs => ?_⟩
  obtain ⟨earlier, h, accepted, reaches⟩ := (exists_runs_iff rfl (by decide)).mp runs
  exact unreached earlier h accepted reaches

end ClaimQueue.Worker
