import ClaimQueue.Proofs.Index
import ClaimQueue.Queue.Error
import Mathlib.Data.List.Nodup

/-! Results saved one after the other. Of those for one task the last counts, whatever the store keeps
of a result and under whatever key. -/

namespace ClaimQueue

namespace TaskResult

/-- The last of these results for its task. -/
def Latest (rs : List TaskResult) (r : TaskResult) : Prop :=
  ∃ earlier later, rs = earlier ++ r :: later ∧ ∀ x ∈ later, x.taskId ≠ r.taskId

/-- The last for its task, if it is of the kind asked for. -/
def Wanted (rs : List TaskResult) (kind : Option TaskKind) (r : TaskResult) : Prop :=
  Latest rs r ∧ ∀ k, kind = some k → r.kind = some k

def listedId? (i : Except StoreError TaskResult) : Option String := i.toOption.map (·.taskId)

/-- These results are listed and nothing else, and no task comes twice. -/
structure Listed (p : TaskResult → Prop) (items : List (Except StoreError TaskResult)) : Prop where
  once : (items.map listedId?).Nodup
  whole : ∀ i, i ∈ items ↔ ∃ r, p r ∧ i = .ok r

theorem Latest.mem {rs : List TaskResult} {r : TaskResult} (h : Latest rs r) : r ∈ rs := by
  obtain ⟨earlier, later, rfl, -⟩ := h
  exact List.mem_append_right _ List.mem_cons_self

theorem matchesKind_iff {r : TaskResult} {kind : Option TaskKind} :
    r.matchesKind kind = true ↔ ∀ k, kind = some k → r.kind = some k := by
  cases kind <;> simp [matchesKind]

section

variable {α : Type} {rs : List TaskResult} {r : TaskResult} {g : String → String}
  {f : TaskResult → α}

/-- What is kept of results that were saved one after the other: `f` of each, under `g` of the id. -/
def kept (g : String → String) (f : TaskResult → α) (rs : List TaskResult) : Index α :=
  Index.ofList (rs.map fun r => (g r.taskId, f r))

theorem kept_ascending : (kept g f rs).Ascending := Index.ofList_ascending _

theorem foldl_put (g : String → String) (f : TaskResult → α) (rs : List TaskResult) :
    rs.foldl (fun index r => Index.put (g r.taskId) (f r) index) [] = kept g f rs := by
  rw [kept, Index.ofList, List.foldl_map]

/-- No two tasks have one key, so nothing but a later result for the task takes the place of one. -/
theorem mem_kept (distinct : Function.Injective g) {e : String × α} :
    e ∈ kept g f rs ↔ ∃ r, Latest rs r ∧ e = (g r.taskId, f r) := by
  obtain ⟨key, value⟩ := e
  rw [kept, Index.mem_ofList_iff]
  constructor
  · rintro ⟨front, back, split, last⟩
    obtain ⟨earlier, others, rfl, rfl, same⟩ := List.map_eq_append_iff.mp split
    obtain ⟨r, later, rfl, pair, rfl⟩ := List.map_eq_cons_iff.mp same
    refine ⟨r, ⟨earlier, later, rfl, fun x mem id => last ?_⟩, pair.symm⟩
    rw [← (Prod.mk.inj pair).1, ← id]
    exact List.mem_map.mpr ⟨_, List.mem_map.mpr ⟨x, mem, rfl⟩, rfl⟩
  · rintro ⟨r, ⟨earlier, later, rfl, last⟩, same⟩
    cases same
    refine ⟨_, _, List.map_append, fun mem => ?_⟩
    obtain ⟨x, mem, id⟩ : ∃ x ∈ later, g x.taskId = g r.taskId := by simpa using mem
    exact last x mem (distinct id)

/-- The last result for each task. -/
def latest (rs : List TaskResult) : List TaskResult := (kept id id rs).map Prod.snd

theorem mem_latest : r ∈ latest rs ↔ Latest rs r := by
  have mem (e : String × TaskResult) : e ∈ kept id id rs ↔ _ := mem_kept Function.injective_id
  simp [latest, mem]

theorem latest_ids_nodup (rs : List TaskResult) : ((latest rs).map (·.taskId)).Nodup := by
  have keys : (latest rs).map (·.taskId) = (kept id id rs).map Prod.fst := by
    rw [latest, List.map_map]
    refine List.map_congr_left fun e mem => ?_
    obtain ⟨r, -, rfl⟩ := (mem_kept Function.injective_id).mp mem
    rfl
  exact keys ▸ kept_ascending.nodup

/-- Stores differ in their order only. -/
theorem kept_perm (f : TaskResult → α) (rs : List TaskResult) (distinct : Function.Injective g) :
    (kept g f rs).Perm ((latest rs).map fun r => (g r.taskId, f r)) := by
  have once : ((latest rs).map fun r => (g r.taskId, f r)).Nodup := by
    refine List.Nodup.of_map Prod.fst ?_
    rw [List.map_map]
    have ids := (latest_ids_nodup rs).map distinct
    rwa [List.map_map] at ids
  refine (List.perm_ext_iff_of_nodup kept_ascending.nodup.of_map once).mpr fun e => ?_
  rw [mem_kept distinct]
  simp [mem_latest, eq_comm]

/-- A listing of the last results, or of some of them. -/
theorem listed_of_perm {pick : TaskResult → Bool} {items : List (Except StoreError TaskResult)}
    (perm : items.Perm (((latest rs).filter pick).map .ok)) :
    Listed (fun r => Latest rs r ∧ pick r = true) items where
  once := by
    rw [(perm.map listedId?).nodup_iff, List.map_map]
    have ids : ((latest rs).filter pick).map (listedId? ∘ .ok) =
        (((latest rs).filter pick).map (·.taskId)).map some := by
      rw [List.map_map]
      rfl
    rw [ids]
    refine List.Nodup.map (fun _ _ => Option.some.inj) ?_
    exact (latest_ids_nodup rs).sublist (List.filter_sublist.map _)
  whole i := by
    rw [perm.mem_iff, List.mem_map]
    simp only [List.mem_filter, mem_latest, eq_comm]

end

end TaskResult

end ClaimQueue
