import ClaimQueue.Local.Contents
import ClaimQueue.Proofs.Index
import ClaimQueue.Proofs.Task.Work
import ClaimQueue.Proofs.Time.Elapsed
import Mathlib.Data.List.Nodup

/-! The three places of a queue in memory, and how tasks move between them. Whatever is done to the
queue, some tasks go, some come, and all others stay; which of them stand where does not matter
here. -/

namespace ClaimQueue

namespace LocalQueue

/-- All tasks that are pending, in flight or dead. -/
def tasks (q : LocalQueue) : List Task :=
  q.pending ++ q.inFlight.map (·.2.task) ++ q.dead.map (·.task)

def ids (q : LocalQueue) : List String := q.tasks.map (·.id)

/-- No id is in two places, or twice in one, and each claim lies under the id of its task. -/
structure Sound (q : LocalQueue) : Prop where
  once : q.ids.Nodup
  keyed : ∀ e ∈ q.inFlight, e.1 = e.2.task.id

theorem sound_empty : Sound {} := ⟨List.nodup_nil, fun _ mem => (List.not_mem_nil mem).elim⟩

/-- From `q` to `r` the tasks `gone` go, the tasks `come` come and all others stay. -/
def Exchange (gone come : List Task) (q r : LocalQueue) : Prop :=
  ∃ rest, q.tasks.Perm (gone ++ rest) ∧ r.tasks.Perm (come ++ rest)

theorem exchange_of_perm {q r : LocalQueue} (h : r.tasks.Perm q.tasks) : Exchange [] [] q r :=
  ⟨q.tasks, .refl _, h⟩

theorem Exchange.ids_perm {gone come : List Task} {q r : LocalQueue} (h : Exchange gone come q r)
    (same : come.map (·.id) = gone.map (·.id)) : r.ids.Perm q.ids := by
  obtain ⟨rest, before, after⟩ := h
  have before := before.map (·.id)
  have after := after.map (·.id)
  rw [List.map_append] at before after
  rw [same] at after
  exact after.trans before.symm

theorem keys_eq {q : LocalQueue} (keyed : ∀ e ∈ q.inFlight, e.1 = e.2.task.id) :
    q.inFlight.map Prod.fst = q.inFlight.map (·.2.task.id) :=
  List.map_congr_left keyed

theorem Sound.keys_nodup {q : LocalQueue} (sound : q.Sound) : (q.inFlight.map Prod.fst).Nodup := by
  rw [keys_eq sound.keyed]
  have once := sound.once
  simp only [ids, tasks, List.map_append, List.map_map] at once
  exact (List.nodup_append.mp (List.nodup_append.mp once).1).2.1

theorem knows_iff {q : LocalQueue} (keyed : ∀ e ∈ q.inFlight, e.1 = e.2.task.id) {id : String} :
    q.knows id = true ↔ id ∈ q.ids := by
  have inFlight : q.inFlight.holds id = true ↔ id ∈ q.inFlight.map (·.2.task.id) := by
    rw [Index.holds_iff, keys_eq keyed]
  simp only [knows, Bool.or_eq_true, inFlight, ids, tasks, List.map_append, List.map_map,
    List.mem_append, List.any_eq_true, List.mem_map, beq_iff_eq, Function.comp]
  exact or_congr or_comm .rfl

/-! What each change does. -/

theorem exchange_enqueue {t : Task} {q r : LocalQueue} (done : q.enqueue? t = some r) :
    Exchange [] [t] q r := by
  simp only [enqueue?] at done
  split at done
  · simp at done
  · obtain rfl := Option.some.inj done
    refine ⟨q.tasks, .refl _, ?_⟩
    simp only [tasks, List.append_assoc, List.singleton_append]
    exact List.perm_middle

/-- The task that is next is not in flight. -/
theorem Sound.next_not_inFlight {q : LocalQueue} {t : Task} {rest : List Task} (sound : q.Sound)
    (pending : q.pending = t :: rest) : t.id ∉ q.inFlight.map Prod.fst := by
  have once := sound.once
  simp only [ids, tasks, pending, List.map_append, List.map_cons, List.cons_append,
    List.nodup_cons, List.mem_append, not_or, List.map_map] at once
  rw [keys_eq sound.keyed]
  exact once.1.1.2

theorem exchange_take {now : Instant} {t : Task} {q r : LocalQueue} (sound : q.Sound)
    (done : q.take? now = some (t, r)) : Exchange [] [] q r := by
  simp only [take?] at done
  split at done
  · simp at done
  · rename_i head rest pending
    simp only [Option.some.injEq, Prod.mk.injEq] at done
    obtain ⟨rfl, rfl⟩ := done
    have put := (Index.put_perm ⟨head, now⟩ (sound.next_not_inFlight pending)).map fun e : String × Claim => e.2.task
    refine exchange_of_perm ?_
    simp only [tasks, pending, List.cons_append]
    refine ((put.append_left rest).append_right _).trans ?_
    simp only [List.map_cons, List.append_assoc, List.cons_append]
    exact List.perm_middle

theorem exchange_ack (id : String) (q : LocalQueue) :
    Exchange ((q.inFlight.find? id).toList.map (·.task)) [] q (q.ack id) := by
  cases found : q.inFlight.find? id with
  | none =>
    rw [ack, Index.erase_of_find?_none found]
    exact ⟨q.tasks, .refl _, .refl _⟩
  | some c =>
    refine ⟨(q.ack id).tasks, ?_, .refl _⟩
    have erased := (Index.erase_perm found).map fun e : String × Claim => e.2.task
    simp only [tasks, ack, Option.toList_some, List.map_cons, List.map_nil]
    refine ((erased.append_left q.pending).append_right _).trans ?_
    simp only [List.map_cons, List.append_assoc, List.cons_append, List.nil_append]
    exact List.perm_middle

theorem exchange_release {id : String} {q r : LocalQueue} (done : q.release? id = some r) :
    Exchange [] [] q r := by
  simp only [release?, Option.map_eq_some_iff] at done
  obtain ⟨c, found, rfl⟩ := done
  have erased := (Index.erase_perm found).map fun e : String × Claim => e.2.task
  refine exchange_of_perm ?_
  simp only [tasks]
  refine List.Perm.trans ?_ ((erased.append_left q.pending).append_right _).symm
  simp

theorem exchange_replay {id : String} {q r : LocalQueue} (done : q.replay? id = some r) :
    Exchange [] [] q r := by
  simp only [replay?, Option.map_eq_some_iff] at done
  obtain ⟨d, found, rfl⟩ := done
  have erased : q.dead.Perm (d :: q.dead.eraseP (isLetterFor id)) := by
    obtain ⟨isLetter, before, after, split, none⟩ := List.find?_eq_some_iff_append.mp found
    have kept : ∀ e ∈ before, ¬ isLetterFor id e = true := by simpa using none
    rw [split, List.eraseP_append_right _ kept, List.eraseP_cons_of_pos isLetter]
    exact List.perm_middle
  have erased := erased.map (·.task)
  refine exchange_of_perm ?_
  simp only [tasks]
  refine List.Perm.trans ?_ (erased.append_left _).symm
  simp only [List.map_cons, List.append_assoc, List.singleton_append]
  refine List.Perm.append_left q.pending ?_
  exact List.perm_middle.symm

theorem exchange_discard {id : String} {q r : LocalQueue} (done : q.discard? id = some r) :
    Exchange ((q.dead.filter (isLetterFor id)).map (·.task)) [] q r := by
  simp only [discard?] at done
  split at done
  · obtain rfl := Option.some.inj done
    have parted := ((List.filter_append_perm (isLetterFor id) q.dead).symm).map (·.task)
    refine ⟨_, ?_, .refl _⟩
    simp only [tasks]
    refine (parted.append_left _).trans ?_
    rw [List.map_append]
    exact List.perm_append_comm_assoc _ _ _
  · simp at done

/-! Claims by age. -/

theorem claimedFirst_iff {a b : String × Claim} : claimedFirst a b = true ↔
    a.2.claimedAt.order b.2.claimedAt = .lt ∨
      a.2.claimedAt.order b.2.claimedAt = .eq ∧ a.1 ≤ b.1 := by
  unfold claimedFirst
  cases a.2.claimedAt.order b.2.claimedAt <;> simp

theorem claimedFirst_trans (a b c : String × Claim) (h : claimedFirst a b = true)
    (k : claimedFirst b c = true) : claimedFirst a c = true := by
  rw [claimedFirst_iff] at *
  rcases h with first | ⟨first, le⟩
  · rcases k with second | ⟨second, -⟩
    · exact .inl (Std.TransCmp.lt_trans first second)
    · exact .inl (Std.TransCmp.lt_of_lt_of_eq first second)
  · rcases k with second | ⟨second, le'⟩
    · exact .inl (Std.TransCmp.lt_of_eq_of_lt first second)
    · exact .inr ⟨Std.TransCmp.eq_trans first second, String.le_trans le le'⟩

theorem claimedFirst_total (a b : String × Claim) :
    (claimedFirst a b || claimedFirst b a) = true := by
  rw [Bool.or_eq_true, claimedFirst_iff, claimedFirst_iff]
  cases order : a.2.claimedAt.order b.2.claimedAt with
  | lt => exact .inl (.inl rfl)
  | eq =>
    rcases String.le_total a.1 b.1 with le | le
    · exact .inl (.inr ⟨rfl, le⟩)
    · exact .inr (.inr ⟨Std.OrientedCmp.eq_symm order, le⟩)
  | gt => exact .inr (.inl (Std.OrientedCmp.lt_of_gt order))

theorem le_of_claimedFirst {a b : String × Claim} (first : claimedFirst a b = true)
    (second : claimedFirst b a = true) : a.1 ≤ b.1 := by
  rcases claimedFirst_iff.mp first with lt | ⟨-, le⟩
  · have gt := Std.OrientedCmp.gt_of_lt lt
    rcases claimedFirst_iff.mp second with lt' | ⟨eq, -⟩
    · exact nomatch gt.symm.trans lt'
    · exact nomatch gt.symm.trans eq
  · exact le

/-- Stale claims that are in order already are taken from the front. -/
theorem stale_eq {now : Instant} {idle : Span} {q : LocalQueue} {claims : List (String × Claim)}
    (distinct : (q.inFlight.map Prod.fst).Nodup)
    (perm : (q.inFlight.filter fun e => isStale now idle e.2).Perm claims)
    (sorted : claims.Pairwise fun a b => claimedFirst a b = true) (batch : Nat) :
    q.stale now idle batch = claims.take batch := by
  have stale {e : String × Claim} (mem : e ∈ q.inFlight.filter fun e => isStale now idle e.2) :
      e ∈ q.inFlight := (List.mem_filter.mp mem).1
  have same : (q.inFlight.filter fun e => isStale now idle e.2).mergeSort claimedFirst =
      claims := by
    refine List.Perm.eq_of_pairwise (fun a b ha hb first second => ?_)
      (List.pairwise_mergeSort claimedFirst_trans claimedFirst_total _) sorted
      ((List.mergeSort_perm _ _).trans perm)
    exact List.inj_on_of_nodup_map distinct (stale (List.mem_mergeSort.mp ha))
      (stale (perm.mem_iff.mpr hb))
      (String.le_antisymm (le_of_claimedFirst first second) (le_of_claimedFirst second first))
  rw [LocalQueue.stale, same]

/-! Taking back stale claims. -/

theorem stale_subset {now : Instant} {idle : Span} {batch : Nat} {q : LocalQueue}
    {e : String × Claim} (mem : e ∈ q.stale now idle batch) : e ∈ q.inFlight :=
  (List.mem_filter.mp (List.mem_mergeSort.mp (List.mem_of_mem_take mem))).1

theorem stale_keys_nodup (now : Instant) (idle : Span) (batch : Nat) {q : LocalQueue}
    (distinct : (q.inFlight.map Prod.fst).Nodup) :
    ((q.stale now idle batch).map Prod.fst).Nodup := by
  have sorted := List.mergeSort_perm (q.inFlight.filter fun e => isStale now idle e.2) claimedFirst
  have filtered := distinct.sublist
    (List.filter_sublist (p := fun e => isStale now idle e.2).map Prod.fst)
  exact ((sorted.map Prod.fst).nodup_iff.mpr filtered).sublist ((List.take_sublist _ _).map _)

/-- Each claim is known by its key. -/
theorem any_key_iff {claims : List (String × Claim)} (distinct : (claims.map Prod.fst).Nodup)
    {taken : List (String × Claim)} (among : ∀ e ∈ taken, e ∈ claims) {e : String × Claim}
    (mem : e ∈ claims) : (taken.any (·.1 == e.1)) = true ↔ e ∈ taken := by
  simp only [List.any_eq_true, beq_iff_eq]
  constructor
  · rintro ⟨f, taken, same⟩
    exact List.inj_on_of_nodup_map distinct (among f taken) mem same ▸ taken
  · exact fun taken => ⟨e, taken, rfl⟩

/-- The claims are those taken and those left, each under its key. -/
theorem inFlight_perm_stale (now : Instant) (idle : Span) (batch : Nat) {q : LocalQueue}
    (distinct : (q.inFlight.map Prod.fst).Nodup) :
    q.inFlight.Perm (q.stale now idle batch ++
      q.inFlight.filter fun e => !(q.stale now idle batch).any (·.1 == e.1)) := by
  have parted := List.filter_append_perm
    (fun e => (q.stale now idle batch).any (·.1 == e.1)) q.inFlight
  have taken : (q.inFlight.filter fun e => (q.stale now idle batch).any (·.1 == e.1)).Perm
      (q.stale now idle batch) := by
    have one := (List.Nodup.of_map _ distinct).filter
      fun e => (q.stale now idle batch).any (·.1 == e.1)
    have other := List.Nodup.of_map _ (stale_keys_nodup now idle batch distinct)
    refine (List.perm_ext_iff_of_nodup one other).mpr fun e => ?_
    rw [List.mem_filter]
    constructor
    · exact fun ⟨mem, taken⟩ => (any_key_iff distinct (fun f => stale_subset) mem).mp taken
    · intro taken
      have mem := stale_subset taken
      exact ⟨mem, (any_key_iff distinct (fun f => stale_subset) mem).mpr taken⟩
  exact parted.symm.trans (taken.append_right _)

theorem decided_perm (policy : RetryPolicy) (bumped : List Task) :
    (bumped.filter (fun t => policy.decide t.attempts == .retry) ++
      bumped.filter (fun t => policy.decide t.attempts == .deadLetter)).Perm bumped := by
  have complement : (fun t : Task => policy.decide t.attempts == .deadLetter) =
      fun t => !(policy.decide t.attempts == .retry) := by
    funext t
    cases policy.decide t.attempts <;> rfl
  rw [complement]
  exact List.filter_append_perm _ bumped

theorem exchange_reclaim (policy : RetryPolicy) (now : Instant) (idle : Span) (batch : Nat)
    {q : LocalQueue} (sound : q.Sound) :
    Exchange ((q.stale now idle batch).map (·.2.task))
      ((q.stale now idle batch).map (·.2.task.bumped)) q (q.reclaim policy now idle batch).2 := by
  let taken := q.stale now idle batch
  let left := q.inFlight.filter fun e => !taken.any (·.1 == e.1)
  refine ⟨q.pending ++ left.map (·.2.task) ++ q.dead.map (·.task), ?_, ?_⟩
  · have claims := (inFlight_perm_stale now idle batch sound.keys_nodup).map
      fun e : String × Claim => e.2.task
    rw [List.map_append] at claims
    simp only [tasks]
    refine ((claims.append_left q.pending).append_right _).trans ?_
    simp only [List.append_assoc]
    exact List.perm_append_comm_assoc _ _ _
  · have decided := decided_perm policy (taken.map fun e => e.2.task.bumped)
    simp only [tasks, reclaim, List.map_append, List.map_map]
    have letters : (DeadLetter.task ∘ letter policy now) = id := rfl
    rw [letters, List.map_id]
    refine List.Perm.trans ?_ (decided.append_right _)
    rw [List.perm_iff_count]
    intro t
    simp only [List.count_append, taken, left]
    omega

end LocalQueue

end ClaimQueue
