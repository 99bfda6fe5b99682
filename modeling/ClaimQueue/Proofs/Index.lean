import ClaimQueue.Index

/-! What putting and erasing do to an index: to what is found under each key, and to its entries as
a whole, up to their order. -/

namespace ClaimQueue

namespace Index

variable {α : Type}

theorem find?_put (k key : String) (value : α) (entries : Index α) :
    find? k (put key value entries) = if key = k then some value else find? k entries := by
  induction entries with
  | nil => simp [put, find?]
  | cons e rest ih =>
    obtain ⟨j, v⟩ := e
    simp only [put]
    split
    · rename_i below
      have different : j ≠ key := fun same => String.lt_irrefl key (same ▸ below)
      by_cases here : j = k
      · have other : key ≠ k := fun same => different (here.trans same.symm)
        simp [find?, here, other]
      · simp [find?, here, ih]
    · split
      · rename_i same
        subst same
        by_cases here : j = k <;> simp [find?, here]
      · by_cases here : key = k <;> simp [find?, here]

theorem find?_erase_of_ne {k key : String} (different : key ≠ k) (entries : Index α) :
    find? k (erase key entries) = find? k entries := by
  induction entries with
  | nil => rfl
  | cons e rest ih =>
    obtain ⟨j, v⟩ := e
    simp only [erase]
    split
    · rename_i same
      have : j ≠ k := fun eq => different (same.symm.trans eq)
      simp [find?, this]
    · by_cases here : j = k <;> simp [find?, here, ih]

theorem mem_of_find? {key : String} {value : α} {entries : Index α}
    (found : find? key entries = some value) : (key, value) ∈ entries := by
  induction entries with
  | nil => simp [find?] at found
  | cons e rest ih =>
    obtain ⟨j, v⟩ := e
    simp only [find?] at found
    split at found
    · rename_i same
      have same' : v = value := by simpa using found
      simp [same, same']
    · exact List.mem_cons_of_mem _ (ih found)

theorem find?_eq_none {key : String} {entries : Index α} :
    find? key entries = none ↔ key ∉ entries.map Prod.fst := by
  induction entries with
  | nil => simp [find?]
  | cons e rest ih =>
    obtain ⟨j, v⟩ := e
    by_cases here : j = key
    · simp [find?, here]
    · simp [find?, here, ih, Ne.symm here]

theorem holds_iff {key : String} {entries : Index α} :
    holds key entries = true ↔ key ∈ entries.map Prod.fst := by
  rw [holds, Option.isSome_iff_ne_none, ne_eq, find?_eq_none, Decidable.not_not]

theorem mem_put {key : String} {value : α} {entries : Index α} {e : String × α}
    (mem : e ∈ put key value entries) : e = (key, value) ∨ e ∈ entries := by
  induction entries with
  | nil => simpa [put] using mem
  | cons f rest ih =>
    obtain ⟨j, v⟩ := f
    simp only [put] at mem
    split at mem
    · rcases List.mem_cons.mp mem with rfl | mem
      · exact .inr List.mem_cons_self
      · exact (ih mem).imp id (List.mem_cons_of_mem _)
    · split at mem
      · exact (List.mem_cons.mp mem).imp id (List.mem_cons_of_mem _)
      · exact List.mem_cons.mp mem

theorem keys_subset_put (key : String) (value : α) (entries : Index α) :
    entries.keys ⊆ (put key value entries).keys := by
  intro k mem
  refine holds_iff.mp ?_
  rw [holds, find?_put]
  split
  · rfl
  · exact holds_iff.mpr mem

theorem mem_of_mem_ofList {entries : List (String × α)} {e : String × α}
    (mem : e ∈ ofList entries) : e ∈ entries := by
  have among (after : List (String × α)) (before : Index α)
      (mem : e ∈ after.foldl (fun index e => put e.1 e.2 index) before) :
      e ∈ before ∨ e ∈ after := by
    induction after generalizing before with
    | nil => exact .inl mem
    | cons f after ih =>
      rcases ih (put f.1 f.2 before) mem with mem | mem
      · exact (mem_put mem).elim (fun same => .inr (same ▸ List.mem_cons_self)) .inl
      · exact .inr (List.mem_cons_of_mem _ mem)
  exact (among entries [] mem).resolve_left List.not_mem_nil

/-- A new key is one more entry. -/
theorem put_perm {key : String} (value : α) {entries : Index α}
    (new : key ∉ entries.map Prod.fst) : (put key value entries).Perm ((key, value) :: entries) := by
  induction entries with
  | nil => exact .refl _
  | cons e rest ih =>
    obtain ⟨j, v⟩ := e
    simp only [List.map_cons, List.mem_cons, not_or] at new
    simp only [put]
    split
    · exact ((ih new.2).cons _).trans (.swap _ _ _)
    · rw [if_neg (Ne.symm new.1)]

theorem erase_perm {key : String} {value : α} {entries : Index α}
    (found : find? key entries = some value) :
    entries.Perm ((key, value) :: erase key entries) := by
  induction entries with
  | nil => simp [find?] at found
  | cons e rest ih =>
    obtain ⟨j, v⟩ := e
    simp only [find?] at found
    simp only [erase]
    split at found
    · rename_i same
      have same' : v = value := by simpa using found
      rw [if_pos same, same, same']
    · rename_i different
      rw [if_neg different]
      exact ((ih found).cons _).trans (.swap _ _ _)

theorem erase_of_find?_none {key : String} {entries : Index α}
    (missing : find? key entries = none) : erase key entries = entries := by
  induction entries with
  | nil => rfl
  | cons e rest ih =>
    obtain ⟨j, v⟩ := e
    simp only [find?] at missing
    split at missing
    · simp at missing
    · rename_i different
      rw [erase, if_neg different, ih missing]

theorem find?_erase_of_nodup {key : String} {entries : Index α}
    (once : (entries.map Prod.fst).Nodup) : find? key (erase key entries) = none := by
  cases found : find? key entries with
  | none => rw [erase_of_find?_none found, found]
  | some value =>
    have once := ((erase_perm found).map Prod.fst).nodup_iff.mp once
    exact find?_eq_none.mpr (List.nodup_cons.mp once).1

theorem erase_sublist (key : String) (entries : Index α) :
    (erase key entries).Sublist entries := by
  induction entries with
  | nil => exact .refl _
  | cons e rest ih =>
    obtain ⟨j, v⟩ := e
    simp only [erase]
    split
    · exact List.sublist_cons_self _ _
    · exact ih.cons_cons _

theorem erase_ascending (key : String) {entries : Index α} (h : entries.Ascending) :
    (erase key entries).Ascending :=
  h.sublist ((erase_sublist key entries).map _)

theorem find?_erase_self {key : String} {entries : Index α} (h : entries.Ascending) :
    find? key (erase key entries) = none := by
  induction entries with
  | nil => rfl
  | cons e rest ih =>
    obtain ⟨j, v⟩ := e
    simp only [Ascending, List.map_cons, List.pairwise_cons] at h
    simp only [erase]
    split
    · rename_i same
      subst same
      rw [find?_eq_none]
      exact fun mem => String.lt_irrefl j (h.1 j mem)
    · rename_i different
      simpa [find?, different] using ih h.2

/-- A key beyond all others goes to the end. -/
theorem put_of_beyond {key : String} (value : α) {entries : Index α}
    (beyond : ∀ k ∈ entries.map Prod.fst, k < key) :
    put key value entries = entries ++ [(key, value)] := by
  induction entries with
  | nil => rfl
  | cons e rest ih =>
    obtain ⟨j, v⟩ := e
    simp only [List.map_cons, List.forall_mem_cons] at beyond
    rw [put, if_pos beyond.1, ih beyond.2, List.cons_append]

theorem put_put (key : String) (before value : α) (entries : Index α) :
    put key value (put key before entries) = put key value entries := by
  have irrefl : ¬ key < key := String.lt_irrefl key
  induction entries with
  | nil => simp only [put, if_neg irrefl, if_true]
  | cons e rest ih =>
    obtain ⟨j, v⟩ := e
    by_cases below : j < key
    · simp only [put, if_pos below, ih]
    · by_cases same : j = key
      · simp only [put, if_neg below, if_pos same, if_neg irrefl, if_true]
      · simp only [put, if_neg below, if_neg same, if_neg irrefl, if_true]

theorem erase_put_of_new {key : String} (value : α) {entries : Index α}
    (new : key ∉ entries.map Prod.fst) : erase key (put key value entries) = entries := by
  induction entries with
  | nil => simp [put, erase]
  | cons e rest ih =>
    obtain ⟨j, v⟩ := e
    simp only [List.map_cons, List.mem_cons, not_or] at new
    by_cases below : j < key
    · simp only [put, if_pos below, erase, if_neg (Ne.symm new.1), ih new.2]
    · simp [put, below, erase, Ne.symm new.1]

theorem Ascending.nodup {entries : Index α} (h : entries.Ascending) :
    (entries.map Prod.fst).Nodup :=
  List.Pairwise.imp String.ne_of_lt h

theorem mem_iff_find? {key : String} {value : α} {entries : Index α} (h : entries.Ascending) :
    (key, value) ∈ entries ↔ find? key entries = some value := by
  refine ⟨fun mem => ?_, mem_of_find?⟩
  have once := h.nodup
  clear h
  induction entries with
  | nil => cases mem
  | cons e rest ih =>
    obtain ⟨j, v⟩ := e
    rw [List.map_cons, List.nodup_cons] at once
    rcases List.mem_cons.mp mem with same | mem
    · cases same
      simp [find?]
    · have other : j ≠ key := fun same => once.1 (same ▸ List.mem_map.mpr ⟨_, mem, rfl⟩)
      rw [find?, if_neg other, ih mem once.2]

theorem ofList_ascending (entries : List (String × α)) : (ofList entries).Ascending := by
  have grown (after : List (String × α)) (before : Index α) (h : before.Ascending) :
      (after.foldl (fun index e => put e.1 e.2 index) before).Ascending := by
    induction after generalizing before with
    | nil => exact h
    | cons e after ih => exact ih _ (put_ascending _ _ h)
  exact grown entries [] .nil

theorem Ascending.eq_of_key {entries : Index α} (h : entries.Ascending) {e f : String × α}
    (inside : e ∈ entries) (also : f ∈ entries) (same : e.1 = f.1) : e = f := by
  have found := (mem_iff_find? h).mp inside
  rw [same, (mem_iff_find? h).mp also] at found
  exact Prod.ext same (Option.some.inj found).symm

/-- What is found under a key is what came last under it. -/
theorem mem_ofList_iff {key : String} {value : α} {entries : List (String × α)} :
    (key, value) ∈ ofList entries ↔
      ∃ front back, entries = front ++ (key, value) :: back ∧ key ∉ back.map Prod.fst := by
  have after (entries : List (String × α)) (before : Index α) :
      find? key (entries.foldl (fun index e => put e.1 e.2 index) before) = some value ↔
        (∃ front back, entries = front ++ (key, value) :: back ∧ key ∉ back.map Prod.fst) ∨
          key ∉ entries.map Prod.fst ∧ find? key before = some value := by
    induction entries generalizing before with
    | nil => simp
    | cons e rest ih =>
      obtain ⟨j, v⟩ := e
      rw [List.foldl_cons, ih, find?_put]
      constructor
      · rintro (⟨front, back, split, last⟩ | ⟨last, found⟩)
        · exact .inl ⟨(j, v) :: front, back, congrArg _ split, last⟩
        · by_cases here : j = key
          · rw [if_pos here] at found
            cases found
            exact .inl ⟨[], rest, by rw [here]; rfl, last⟩
          · rw [if_neg here] at found
            refine .inr ⟨?_, found⟩
            rw [List.map_cons, List.mem_cons, not_or]
            exact ⟨Ne.symm here, last⟩
      · rintro (⟨front, back, split, last⟩ | ⟨last, found⟩)
        · cases front with
          | nil =>
            cases split
            exact .inr ⟨last, if_pos rfl⟩
          | cons f front => exact .inl ⟨front, back, (List.cons.inj split).2, last⟩
        · rw [List.map_cons, List.mem_cons, not_or] at last
          exact .inr ⟨last.2, (if_neg (Ne.symm last.1)).trans found⟩
  rw [mem_iff_find? (ofList_ascending entries), ofList, after]
  simp [find?]

/-- Entries that arrive in the order of their keys stay in it. -/
theorem ofList_of_ascending {entries : Index α} (h : entries.Ascending) :
    ofList entries = entries := by
  have append (before : Index α) (after : Index α) (h : (before ++ after).Ascending) :
      after.foldl (fun index e => put e.1 e.2 index) before = before ++ after := by
    induction after generalizing before with
    | nil => simp
    | cons e after ih =>
      have beyond : ∀ k ∈ before.map Prod.fst, k < e.1 := by
        rw [Ascending, List.map_append, List.pairwise_append] at h
        exact fun k mem => h.2.2 k mem e.1 List.mem_cons_self
      rw [← List.singleton_append, ← List.append_assoc] at h
      rw [List.foldl_cons, put_of_beyond _ beyond, ih _ h, List.append_assoc,
        List.singleton_append]
  exact append [] entries h

/-- An index is what is found in it. -/
theorem Ascending.ext {a b : Index α} (h : a.Ascending) (h' : b.Ascending)
    (same : ∀ key, find? key a = find? key b) : a = b := by
  have once {entries : Index α} (h : entries.Ascending) : entries.Nodup :=
    List.Pairwise.of_map Prod.fst (fun _ _ other same => other (congrArg Prod.fst same)) h.nodup
  have perm : a.Perm b := (List.perm_ext_iff_of_nodup (once h) (once h')).mpr fun e => by
    rw [mem_iff_find? h, mem_iff_find? h', same]
  exact perm.eq_of_pairwise
    (fun e f _ _ below above => (String.lt_irrefl e.1 (String.lt_trans below above)).elim)
    (List.pairwise_map.mp h) (List.pairwise_map.mp h')

theorem find?_foldl_put {key : String} {before before' : Index α}
    (same : find? key before = find? key before') (entries : List (String × α)) :
    find? key (entries.foldl (fun index e => put e.1 e.2 index) before) =
      find? key (entries.foldl (fun index e => put e.1 e.2 index) before') := by
  induction entries generalizing before before' with
  | nil => exact same
  | cons e entries ih =>
    refine ih ?_
    rw [find?_put, find?_put, same]

/-- An entry decides what is found under its own key only. -/
theorem find?_ofList_insert {k key : String} (other : k ≠ key) (value : α)
    (front back : List (String × α)) :
    find? k (ofList (front ++ (key, value) :: back)) = find? k (ofList (front ++ back)) := by
  rw [ofList, ofList, List.foldl_append, List.foldl_append, List.foldl_cons]
  exact find?_foldl_put (by rw [find?_put, if_neg (Ne.symm other)]) back

theorem erase_ofList_insert (key : String) (value : α) (front back : List (String × α)) :
    erase key (ofList (front ++ (key, value) :: back)) = erase key (ofList (front ++ back)) := by
  refine (erase_ascending key (ofList_ascending _)).ext (erase_ascending key (ofList_ascending _))
    fun k => ?_
  by_cases same : k = key
  · rw [same, find?_erase_self (ofList_ascending _), find?_erase_self (ofList_ascending _)]
  · rw [find?_erase_of_ne (Ne.symm same), find?_erase_of_ne (Ne.symm same),
      find?_ofList_insert same]

/-! Other values under the same keys. -/

theorem map_put {β : Type} (f : α → β) (key : String) (value : α) (entries : Index α) :
    (put key value entries).map (fun e => (e.1, f e.2)) =
      put key (f value) (entries.map fun e => (e.1, f e.2)) := by
  induction entries with
  | nil => rfl
  | cons e rest ih =>
    obtain ⟨j, v⟩ := e
    simp only [put, List.map_cons]
    split
    · rw [List.map_cons, ih]
    · split <;> rfl

theorem find?_map {β : Type} (f : α → β) (key : String) (entries : Index α) :
    find? key (entries.map fun e => (e.1, f e.2)) = (find? key entries).map f := by
  induction entries with
  | nil => rfl
  | cons e rest ih =>
    obtain ⟨j, v⟩ := e
    by_cases here : j = key <;> simp [find?, here, ih]

end Index

end ClaimQueue
