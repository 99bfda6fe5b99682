/-! An index: values under text keys, each key once, keys ascending. Text is ordered by code point,
which is also the order of its UTF-8 bytes. -/

namespace ClaimQueue

abbrev Index (α : Type) := List (String × α)

namespace Index

variable {α : Type}

def Ascending (entries : Index α) : Prop := (entries.map Prod.fst).Pairwise (· < ·)

instance (entries : Index α) : Decidable entries.Ascending := by
  unfold Ascending; infer_instance

def find? (key : String) : Index α → Option α
  | [] => none
  | (k, v) :: rest => if k = key then some v else find? key rest

def holds (key : String) (entries : Index α) : Bool := (find? key entries).isSome

/-- Sets the value of a key, in its place if the key is new. -/
def put (key : String) (value : α) : Index α → Index α
  | [] => [(key, value)]
  | (k, v) :: rest =>
    if k < key then (k, v) :: put key value rest
    else if k = key then (key, value) :: rest
    else (key, value) :: (k, v) :: rest

def erase (key : String) : Index α → Index α
  | [] => []
  | (k, v) :: rest => if k = key then rest else (k, v) :: erase key rest

def keys (entries : Index α) : List String := entries.map Prod.fst

/-- Entries in order of arrival; of two with one key the later counts. -/
def ofList (entries : List (String × α)) : Index α :=
  entries.foldl (fun index e => put e.1 e.2 index) []

theorem mem_keys_put {key k : String} {value : α} {entries : Index α}
    (h : k ∈ (put key value entries).map Prod.fst) : k = key ∨ k ∈ entries.map Prod.fst := by
  induction entries with
  | nil => simpa [put] using h
  | cons e rest ih =>
    obtain ⟨j, v⟩ := e
    simp only [put] at h
    split at h
    · simp only [List.map_cons, List.mem_cons] at h ⊢
      rcases h with h | h
      · exact .inr (.inl h)
      · exact (ih h).imp id .inr
    · split at h
      · rename_i eq
        simp only [List.map_cons, List.mem_cons] at h ⊢
        exact h.imp id .inr
      · simp only [List.map_cons, List.mem_cons] at h ⊢
        exact h

theorem put_ascending (key : String) (value : α) {entries : Index α} (h : entries.Ascending) :
    (put key value entries).Ascending := by
  induction entries with
  | nil => simp [put, Ascending]
  | cons e rest ih =>
    obtain ⟨k, v⟩ := e
    simp only [Ascending, List.map_cons, List.pairwise_cons] at h
    simp only [put]
    split
    · rename_i below
      simp only [Ascending, List.map_cons, List.pairwise_cons]
      refine ⟨fun j hj => ?_, ih h.2⟩
      rcases mem_keys_put hj with rfl | hj
      · exact below
      · exact h.1 j hj
    · split
      · rename_i eq
        subst eq
        simpa only [Ascending, List.map_cons, List.pairwise_cons] using h
      · rename_i notBelow notEq
        have above : key < k := by
          refine Decidable.byContradiction fun notAbove => notEq ?_
          exact String.le_antisymm (String.not_lt.mp notAbove) (String.not_lt.mp notBelow)
        simp only [Ascending, List.map_cons, List.pairwise_cons]
        refine ⟨fun j hj => ?_, h⟩
        rcases List.mem_cons.mp hj with rfl | hj
        · exact above
        · exact String.lt_trans above (h.1 j hj)

end Index

end ClaimQueue
