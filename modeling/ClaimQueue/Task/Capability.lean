import ClaimQueue.Text.Pieces

/-! Sets of capability tags. A set lists its tags in ascending order, so equal sets are equal lists.
Tags are compared as they are: no case, no patterns. -/

namespace ClaimQueue

structure CapabilitySet where
  tags : List String
  ascending : tags.Pairwise (· < ·)
  deriving DecidableEq, Repr

namespace CapabilitySet

def empty : CapabilitySet := ⟨[], .nil⟩

def insertTag (tag : String) : List String → List String
  | [] => [tag]
  | t :: rest =>
    if t < tag then t :: insertTag tag rest
    else if t = tag then t :: rest
    else tag :: t :: rest

theorem mem_insertTag {tag t : String} {tags : List String} :
    t ∈ insertTag tag tags ↔ t = tag ∨ t ∈ tags := by
  induction tags with
  | nil => simp [insertTag]
  | cons a rest ih =>
    simp only [insertTag]
    split
    · simp only [List.mem_cons, ih]
      exact ⟨fun h => h.elim (fun h => .inr (.inl h)) (Or.imp id .inr),
        fun h => h.elim (fun h => .inr (.inl h)) (Or.imp id .inr)⟩
    · split
      · rename_i eq
        subst eq
        simp
      · simp

theorem insertTag_ascending (tag : String) {tags : List String} (h : tags.Pairwise (· < ·)) :
    (insertTag tag tags).Pairwise (· < ·) := by
  induction tags with
  | nil => simp [insertTag]
  | cons a rest ih =>
    rw [List.pairwise_cons] at h
    simp only [insertTag]
    split
    · rename_i below
      refine List.pairwise_cons.mpr ⟨fun t ht => ?_, ih h.2⟩
      rcases mem_insertTag.mp ht with rfl | ht
      · exact below
      · exact h.1 t ht
    · split
      · exact List.pairwise_cons.mpr h
      · rename_i notBelow notEq
        have above : tag < a := by
          refine Decidable.byContradiction fun notAbove => notEq ?_
          exact String.le_antisymm (String.not_lt.mp notAbove) (String.not_lt.mp notBelow)
        refine List.pairwise_cons.mpr ⟨fun t ht => ?_, List.pairwise_cons.mpr h⟩
        rcases List.mem_cons.mp ht with rfl | ht
        · exact above
        · exact String.lt_trans above (h.1 t ht)

def insert (tag : String) (set : CapabilitySet) : CapabilitySet :=
  ⟨insertTag tag set.tags, insertTag_ascending tag set.ascending⟩

def contains (set : CapabilitySet) (tag : String) : Bool := set.tags.contains tag

def ofList (tags : List String) : CapabilitySet :=
  tags.foldl (fun set tag => set.insert tag) empty

/-- `required` within `provided`. -/
def within (required provided : CapabilitySet) : Bool := required.tags.all provided.contains

/-- Tags between commas, without blanks at their ends; empty ones do not count. -/
def ofText (s : String) : CapabilitySet := ofList (Text.trimmedPieces ',' s)

def text (set : CapabilitySet) : String := ",".intercalate set.tags

end CapabilitySet

end ClaimQueue
