import ClaimQueue.Proofs.Json.Legible

/-! One field of a record, and what it becomes. In an object the member of its name settles it, in
an array the item at its place; without either it stays as it was in the empty draft. -/

namespace ClaimQueue.Json.Record

variable {Draft α β : Type}

/-- The part of a document from which the field of a name is read. -/
def part? (r : Record Draft α) (key : String) : Json → Option Json
  | .object members => Index.find? key members
  | .array items => items[r.fields.findIdx (·.name == key)]?
  | _ => none

/-- What `view` shows of a draft is set by the field of one name, and by no other. -/
structure Sees (fields : List (Field Draft)) (key : String) (d : Decoder β) (view : Draft → β) :
    Prop where
  own : ∀ f ∈ fields, f.name = key → ∀ j set, f.set.ofValue j = .ok set →
    ∀ draft, d.ofValue j = .ok (view (set draft))
  other : ∀ f ∈ fields, f.name ≠ key → ∀ j set, f.set.ofValue j = .ok set →
    ∀ draft, view (set draft) = view draft

/-- From `before` to `after`, by a part that may be missing. -/
def Becomes (d : Decoder β) (part? : Option Json) (before after : β) : Prop :=
  match part? with
  | none => after = before
  | some j => d.ofValue j = .ok after

namespace Sees

variable {r : Record Draft α} {fields : List (Field Draft)} {key : String} {d : Decoder β}
  {view : Draft → β} {draft last : Draft}

theorem tail {f : Field Draft} (h : Sees (f :: fields) key d view) : Sees fields key d view :=
  ⟨fun g known => h.own g (List.mem_cons_of_mem _ known),
    fun g known => h.other g (List.mem_cons_of_mem _ known)⟩

theorem draftOfMembers (h : Sees r.fields key d view) (known : (r.find? key).isSome)
    {members : List (String × Json)} (ascending : Index.Ascending members)
    (read : r.draftOfMembers draft members = .ok last) :
    Becomes d (Index.find? key members) (view draft) (view last) := by
  induction members generalizing draft with
  | nil =>
    cases read
    rfl
  | cons m members ih =>
    obtain ⟨k, j⟩ := m
    simp only [Index.Ascending, List.map_cons, List.pairwise_cons] at ascending
    simp only [Record.draftOfMembers] at read
    by_cases here : k = key
    · subst here
      have gone : Index.find? k members = none :=
        Index.find?_eq_none.mpr fun mem => String.lt_irrefl k (ascending.1 k mem)
      obtain ⟨f, found⟩ := Option.isSome_iff_exists.mp known
      simp only [found] at read
      obtain ⟨set, own, read⟩ := bind_eq_ok.mp read
      have named : f.name = k := by simpa using List.find?_some found
      have rest := ih ascending.2 read
      rw [gone] at rest
      simp only [Index.find?, if_pos, Becomes]
      rw [show view last = view (set draft) from rest]
      exact h.own f (List.mem_of_find?_eq_some found) named j set own draft
    · simp only [Index.find?, if_neg here]
      split at read
      · exact ih ascending.2 read
      · rename_i f found
        obtain ⟨set, other, read⟩ := bind_eq_ok.mp read
        have named : f.name = k := by simpa using List.find?_some found
        rw [← h.other f (List.mem_of_find?_eq_some found) (named ▸ here) j set other draft]
        exact ih ascending.2 read

theorem draftOfItems (h : Sees fields key d view) (known : key ∈ fields.map (·.name))
    (once : (fields.map (·.name)).Nodup) {items : List Json}
    (read : Record.draftOfItems draft fields items = .ok last) :
    Becomes d items[fields.findIdx (·.name == key)]? (view draft) (view last) := by
  induction fields generalizing draft items with
  | nil => simp at known
  | cons f fields ih =>
    cases items with
    | nil =>
      cases read
      rfl
    | cons j items =>
      rw [Record.draftOfItems] at read
      obtain ⟨set, own, read⟩ := bind_eq_ok.mp read
      rw [List.map_cons, List.nodup_cons] at once
      by_cases here : f.name = key
      · have rest : view last = view (set draft) := by
          refine draftOfItems_keeps (P := fun now => view now = view (set draft)) ?_ rfl read
          intro g among j _ set' other now same
          refine (h.other g (List.mem_cons_of_mem _ among) ?_ j set' other now).trans same
          exact fun named => once.1 (List.mem_map.mpr ⟨g, among, named.trans here.symm⟩)
        simp only [List.findIdx_cons, here, beq_self_eq_true, cond_true, List.getElem?_cons_zero,
          Becomes, rest]
        exact h.own f List.mem_cons_self here j set own draft
      · have later : key ∈ fields.map (·.name) := by simpa [Ne.symm here] using known
        have passed : (f.name == key) = false := beq_eq_false_iff_ne.mpr here
        rw [← h.other f List.mem_cons_self here j set own draft]
        simp only [List.findIdx_cons, passed, cond_false, List.getElem?_cons_succ]
        exact ih h.tail later once.2 read

/-- In a record that was read, the field became what its part of the document made it. -/
theorem ofValue (h : Sees r.fields key d view) (known : key ∈ r.fields.map (·.name))
    (once : (r.fields.map (·.name)).Nodup) {j : Json} (orderly : j.Orderly) {a : α}
    (read : r.ofValue j = .ok a) :
    ∃ draft, r.build draft = .ok a ∧ Becomes d (r.part? key j) (view r.empty) (view draft) := by
  match j with
  | .null | .bool _ | .int _ | .double _ | .string _ => cases read
  | .object members =>
    obtain ⟨draft, collected, read⟩ := bind_eq_ok.mp read
    have found : (r.find? key).isSome := by
      rw [find?, List.find?_isSome]
      simpa using known
    exact ⟨draft, ofDraft_eq_ok.mp read, h.draftOfMembers found orderly collected⟩
  | .array items =>
    obtain ⟨draft, collected, read⟩ := bind_eq_ok.mp read
    obtain ⟨b, built, read⟩ := bind_eq_ok.mp read
    split at read
    · cases read
    · cases read
      exact ⟨draft, ofDraft_eq_ok.mp built, h.draftOfItems known once collected⟩

end Sees

end ClaimQueue.Json.Record
