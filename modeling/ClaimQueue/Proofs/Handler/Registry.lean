import ClaimQueue.Handler.Registry
import Mathlib.Data.List.Induction
import Mathlib.Data.List.Nodup

/-! Handlers that are registered one after another, some of them in vain, and which of them is chosen
for a task. -/

namespace ClaimQueue

namespace CapabilitySet

variable {a b : CapabilitySet}

theorem within_iff : a.within b = true ↔ a.tags ⊆ b.tags := by
  simp [within, contains, List.subset_def]

end CapabilitySet

namespace Registry

/-- A registration; nothing changes if it is refused. -/
def enrol (r : Registry) (h : Handler) : Registry := (r.register? h).getD r

/-- After a history of registrations. -/
def ofHistory (hs : List Handler) : Registry := hs.foldl enrol {}

/-- Of the registrations, one after some earlier ones was accepted: its name was new. -/
structure Accepted (hs earlier : List Handler) (h : Handler) : Prop where
  registered : ∃ later, hs = earlier ++ h :: later
  new : h.name ∉ earlier.map (·.name)

/-- The first handler that was accepted and has a property. -/
def First (P : Handler → Prop) (hs : List Handler) (h : Handler) : Prop :=
  ∃ earlier, Accepted hs earlier h ∧ P h ∧ ∀ before g, Accepted earlier before g → ¬ P g

/-- Of the kind, allowed by name, and what is required lies within what is provided, and that within
what there is. -/
structure Suits (kind : TaskKind) (requires caps : CapabilitySet) (allowed : Option (List String))
    (h : Handler) : Prop where
  kind : h.kind = kind
  allowed : ∀ names, allowed = some names → h.name ∈ names
  provides : requires.tags ⊆ h.provides.tags
  present : h.provides.tags ⊆ caps.tags

section Registration

variable {r : Registry} {h : Handler} {hs : List Handler}

theorem enrol_of_taken (taken : h.name ∈ r.names) : r.enrol h = r := by
  simp [enrol, register?, taken]

theorem handlers_enrol_of_new (new : h.name ∉ r.names) :
    (r.enrol h).handlers = r.handlers ++ [h] := by
  simp [enrol, register?, new]

theorem isPrefix_enrol (r : Registry) (h : Handler) : r.handlers <+: (r.enrol h).handlers := by
  by_cases taken : h.name ∈ r.names
  · simp [enrol_of_taken taken]
  · simp [handlers_enrol_of_new taken]

theorem mem_names_enrol {name : String} :
    name ∈ (r.enrol h).names ↔ name ∈ r.names ∨ name = h.name := by
  by_cases taken : h.name ∈ r.names
  · rw [enrol_of_taken taken]
    exact ⟨.inl, fun found => found.elim id fun same => same ▸ taken⟩
  · simp [names, handlers_enrol_of_new taken]

theorem ofHistory_concat (hs : List Handler) (h : Handler) :
    ofHistory (hs ++ [h]) = (ofHistory hs).enrol h := by
  simp [ofHistory]

theorem mem_names_ofHistory {name : String} :
    name ∈ (ofHistory hs).names ↔ name ∈ hs.map (·.name) := by
  induction hs using List.reverseRecOn with
  | nil => simp [ofHistory, names]
  | append_singleton hs h ih => simp [ofHistory_concat, mem_names_enrol, ih]

theorem names_nodup (hs : List Handler) : (ofHistory hs).names.Nodup := by
  induction hs using List.reverseRecOn with
  | nil => simp [ofHistory, names]
  | append_singleton hs h ih =>
    rw [ofHistory_concat]
    by_cases taken : h.name ∈ (ofHistory hs).names
    · rwa [enrol_of_taken taken]
    · rw [names, handlers_enrol_of_new taken, List.map_append, List.nodup_append]
      refine ⟨ih, by simp, fun name mem other single => ?_⟩
      rintro rfl
      rw [List.map_singleton, List.mem_singleton] at single
      exact taken (single ▸ mem)

theorem handlers_isPrefix (hs more : List Handler) :
    (ofHistory hs).handlers <+: (ofHistory (hs ++ more)).handlers := by
  induction more using List.reverseRecOn with
  | nil => simp
  | append_singleton more h ih =>
    rw [← List.append_assoc, ofHistory_concat]
    exact ih.trans (isPrefix_enrol _ h)

theorem register?_ofHistory_eq_none_iff :
    (ofHistory hs).register? h = none ↔ h.name ∈ hs.map (·.name) := by
  rw [← mem_names_ofHistory]
  simp [register?]

/-- A registration under a name that was taken leaves no trace. -/
theorem ofHistory_of_taken {before after : List Handler} (taken : h.name ∈ before.map (·.name)) :
    ofHistory (before ++ h :: after) = ofHistory (before ++ after) := by
  have refused : (ofHistory before).enrol h = ofHistory before :=
    enrol_of_taken (mem_names_ofHistory.mpr taken)
  simp only [ofHistory, List.foldl_append, List.foldl_cons] at refused ⊢
  rw [refused]

end Registration

/-! The handlers in a registry. -/

section Handlers

variable {hs earlier : List Handler} {h g : Handler}

theorem Accepted.handlers (accepted : Accepted hs earlier h) :
    (ofHistory earlier).handlers ++ [h] <+: (ofHistory hs).handlers := by
  obtain ⟨later, rfl⟩ := accepted.registered
  have new : h.name ∉ (ofHistory earlier).names := fun taken =>
    accepted.new (mem_names_ofHistory.mp taken)
  rw [List.append_cons earlier h later, ← handlers_enrol_of_new new, ← ofHistory_concat]
  exact handlers_isPrefix _ _

theorem Accepted.of_concat (accepted : Accepted hs earlier h) (g : Handler) :
    Accepted (hs ++ [g]) earlier h := by
  obtain ⟨later, rfl⟩ := accepted.registered
  exact ⟨⟨later ++ [g], by simp⟩, accepted.new⟩

/-- Before each handler there are those that were accepted before it. -/
theorem accepted_of_split {front back : List Handler}
    (split : (ofHistory hs).handlers = front ++ h :: back) :
    ∃ earlier, Accepted hs earlier h ∧ (ofHistory earlier).handlers = front := by
  induction hs using List.reverseRecOn generalizing back with
  | nil => simp [ofHistory] at split
  | append_singleton hs g ih =>
    rw [ofHistory_concat] at split
    by_cases taken : g.name ∈ (ofHistory hs).names
    · rw [enrol_of_taken taken] at split
      obtain ⟨earlier, accepted, same⟩ := ih split
      exact ⟨earlier, accepted.of_concat g, same⟩
    · rw [handlers_enrol_of_new taken] at split
      induction back using List.reverseRecOn with
      | nil =>
        obtain ⟨same, last⟩ := List.append_inj' split rfl
        cases last
        exact ⟨hs, ⟨⟨[], rfl⟩, fun mem => taken (mem_names_ofHistory.mpr mem)⟩, same⟩
      | append_singleton back last =>
        rw [← List.cons_append, ← List.append_assoc] at split
        obtain ⟨earlier, accepted, same⟩ := ih (List.append_inj' split rfl).1
        exact ⟨earlier, accepted.of_concat g, same⟩

theorem mem_handlers_iff : h ∈ (ofHistory hs).handlers ↔ ∃ earlier, Accepted hs earlier h := by
  constructor
  · intro mem
    obtain ⟨front, back, split⟩ := List.append_of_mem mem
    obtain ⟨earlier, accepted, -⟩ := accepted_of_split split
    exact ⟨earlier, accepted⟩
  · rintro ⟨earlier, accepted⟩
    exact accepted.handlers.subset (by simp)

theorem eq_of_name (mem : h ∈ (ofHistory hs).handlers) (among : g ∈ (ofHistory hs).handlers)
    (same : h.name = g.name) : h = g :=
  List.inj_on_of_nodup_map (names_nodup hs) mem among same

end Handlers

/-! Selection. -/

section Selection

variable {kind : TaskKind} {requires caps : CapabilitySet} {allowed : Option (List String)}
  {hs : List Handler} {h : Handler}

theorem fits_iff : fits kind requires caps allowed h = true ↔
    Suits kind requires caps allowed h := by
  have named : allows allowed h.name = true ↔ ∀ names, allowed = some names → h.name ∈ names := by
    cases allowed <;> simp [allows]
  simp only [fits, Bool.and_eq_true, beq_iff_eq, named, CapabilitySet.within_iff]
  constructor
  · rintro ⟨⟨⟨kind, allowed⟩, provides⟩, present⟩
    exact ⟨kind, allowed, provides, present⟩
  · rintro ⟨kind, allowed, provides, present⟩
    exact ⟨⟨⟨kind, allowed⟩, provides⟩, present⟩

theorem select?_eq_some_iff : (ofHistory hs).select? kind requires caps allowed = some h ↔
    First (Suits kind requires caps allowed) hs h := by
  rw [select?, List.find?_eq_some_iff_append]
  constructor
  · rintro ⟨suits, front, back, split, none⟩
    obtain ⟨earlier, accepted, rfl⟩ := accepted_of_split split
    refine ⟨earlier, accepted, fits_iff.mp suits, fun before g before_h suits => ?_⟩
    have unfit := none g (mem_handlers_iff.mpr ⟨before, before_h⟩)
    rw [fits_iff.mpr suits] at unfit
    cases unfit
  · rintro ⟨earlier, accepted, suits, none⟩
    obtain ⟨back, split⟩ := accepted.handlers
    refine ⟨fits_iff.mpr suits, (ofHistory earlier).handlers, back, ?_, fun g mem => ?_⟩
    · rw [← split, List.append_assoc, List.singleton_append]
    · obtain ⟨before, before_h⟩ := mem_handlers_iff.mp mem
      have unfit : ¬ fits kind requires caps allowed g = true := fun fits =>
        none before g before_h (fits_iff.mp fits)
      simpa using unfit

theorem select?_eq_none_iff : (ofHistory hs).select? kind requires caps allowed = none ↔
    ∀ earlier g, Accepted hs earlier g → ¬ Suits kind requires caps allowed g := by
  rw [select?, List.find?_eq_none]
  simp only [mem_handlers_iff, fits_iff, forall_exists_index]
  exact ⟨fun none earlier g => none g earlier, fun none g earlier => none earlier g⟩

/-- What was chosen stays chosen. -/
theorem select?_append (more : List Handler)
    (chosen : (ofHistory hs).select? kind requires caps allowed = some h) :
    (ofHistory (hs ++ more)).select? kind requires caps allowed = some h :=
  (handlers_isPrefix hs more).find?_eq_some chosen

end Selection

end Registry

end ClaimQueue
