import ClaimQueue.Local.Callers
import ClaimQueue.Proofs.Local.Places

/-! What one deed does to a sound queue: it takes tasks back with an attempt counted, or accepts a
new one, or removes some for good, and leaves the queue sound. -/

namespace ClaimQueue

namespace LocalQueue

namespace Deed

/-- A task is enqueued whose id the queue does not have. -/
def Accepts (t : Task) (d : Deed) : Prop := d.access = .enqueue t ∧ t.id ∉ d.before.ids

/-- A claim is acknowledged, or a dead letter discarded. -/
def Removes (id : String) (d : Deed) : Prop :=
  d.access = .ack id ∧ id ∈ d.before.inFlight.map Prod.fst ∨
    d.access = .discard id ∧ id ∈ d.before.dead.map (·.task.id)

/-- The task that is given out, if one is asked for and there is one. -/
def popped? (policy : RetryPolicy) : Deed → Option Task
  | ⟨_, _, .take, clock, before⟩ => (Access.perform policy clock before .take).1
  | _ => none

/-- A task comes to pending: released, taken back for another attempt, replayed, or accepted. -/
def Returns (policy : RetryPolicy) (id : String) (d : Deed) : Prop :=
  match d.access with
  | .enqueue t => t.id = id ∧ id ∉ d.before.ids
  | .release i => i = id ∧ id ∈ d.before.inFlight.map Prod.fst
  | .reclaim now idle batch => ∃ e ∈ d.before.stale now idle batch,
      e.1 = id ∧ policy.decide e.2.task.bumped.attempts = .retry
  | .replay i => i = id ∧ id ∈ d.before.dead.map (·.task.id)
  | _ => False

inductive Change (policy : RetryPolicy) (d : Deed) : Prop where
  /-- The tasks `taken` count one more attempt each; there may be none. -/
  | kept (taken : List Task) (h : Exchange taken (taken.map Task.bumped) d.before (d.after policy))
  | accepted (t : Task) (accepts : d.Accepts t) (h : Exchange [] [t] d.before (d.after policy))
  | removed (id : String) (gone : List Task) (removes : d.Removes id)
      (own : ∀ u ∈ gone, u.id = id) (h : Exchange gone [] d.before (d.after policy))

theorem change (policy : RetryPolicy) (d : Deed) (sound : d.before.Sound) : Change policy d := by
  obtain ⟨caller, turn, access, clock, before⟩ := d
  have same : Exchange [] ([].map Task.bumped) before before := exchange_of_perm (.refl _)
  cases access with
  | enqueue t =>
    by_cases known : before.knows t.id
    · refine .kept [] ?_
      simpa [after, Access.perform, enqueue?, known, Access.accepted] using same
    · have new : t.id ∉ before.ids := fun mem => known ((knows_iff sound.keyed).mpr mem)
      have done : before.enqueue? t = some { before with pending := before.pending ++ [t] } := by
        simp [enqueue?, known]
      refine .accepted t ⟨rfl, new⟩ ?_
      simpa [after, Access.perform, done, Access.accepted] using exchange_enqueue done
  | take =>
    refine .kept [] ?_
    cases done : before.take? clock with
    | none => simpa [after, Access.perform, done] using same
    | some e => simpa [after, Access.perform, done] using exchange_take sound done
  | ack id =>
    have acked := exchange_ack id before
    cases found : before.inFlight.find? id with
    | none =>
      rw [found] at acked
      exact .kept [] acked
    | some c =>
      rw [found] at acked
      have mem := Index.mem_of_find? found
      refine .removed id [c.task] (.inl ⟨rfl, List.mem_map.mpr ⟨_, mem, rfl⟩⟩) ?_ acked
      intro u only
      rw [List.mem_singleton.mp only]
      exact (sound.keyed _ mem).symm
  | release id =>
    refine .kept [] ?_
    cases done : before.release? id with
    | none => simpa [after, Access.perform, done, Access.accepted] using same
    | some r => simpa [after, Access.perform, done, Access.accepted] using exchange_release done
  | reclaim now idle batch =>
    refine .kept ((before.stale now idle batch).map (·.2.task)) ?_
    rw [List.map_map]
    exact exchange_reclaim policy now idle batch sound
  | replay id =>
    refine .kept [] ?_
    cases done : before.replay? id with
    | none => simpa [after, Access.perform, done, Access.accepted] using same
    | some r => simpa [after, Access.perform, done, Access.accepted] using exchange_replay done
  | discard id =>
    cases done : before.discard? id with
    | none =>
      refine .kept [] ?_
      simpa [after, Access.perform, done, Access.accepted] using same
    | some r =>
      have gone := exchange_discard done
      have dead : id ∈ before.dead.map (·.task.id) := by
        by_contra missing
        have none : before.dead.any (isLetterFor id) = false := by
          rw [List.any_eq_false]
          intro e mem
          simp only [isLetterFor, beq_iff_eq]
          exact fun eq => missing (List.mem_map.mpr ⟨e, mem, eq⟩)
        simp [discard?, none] at done
      refine .removed id _ (.inr ⟨rfl, dead⟩) ?_
        (by simpa [after, Access.perform, done, Access.accepted] using gone)
      intro u mem
      obtain ⟨e, isLetter, rfl⟩ := List.mem_map.mp mem
      simpa [isLetterFor] using (List.mem_filter.mp isLetter).2
  | counts | deadLetters | save | result | resultIds => exact .kept [] same

theorem after_keyed (policy : RetryPolicy) (d : Deed)
    (keyed : ∀ e ∈ d.before.inFlight, e.1 = e.2.task.id) :
    ∀ e ∈ (d.after policy).inFlight, e.1 = e.2.task.id := by
  obtain ⟨caller, turn, access, clock, before⟩ := d
  intro e mem
  have erased {id : String} (mem : e ∈ before.inFlight.erase id) : e.1 = e.2.task.id :=
    keyed e ((Index.erase_sublist id before.inFlight).subset mem)
  cases access with
  | enqueue t =>
    refine keyed e ?_
    by_cases known : before.knows t.id <;>
      simpa [after, Access.perform, enqueue?, known, Access.accepted] using mem
  | take =>
    simp only [after, Access.perform, take?] at mem
    cases pending : before.pending with
    | nil => exact keyed e (by simpa [pending] using mem)
    | cons t rest =>
      have mem : e ∈ before.inFlight.put t.id ⟨t, clock⟩ := by simpa [pending] using mem
      rcases Index.mem_put mem with rfl | mem
      · rfl
      · exact keyed e mem
  | ack id => exact erased mem
  | release id =>
    cases found : before.inFlight.find? id with
    | none =>
      exact keyed e (by simpa [after, Access.perform, release?, found, Access.accepted] using mem)
    | some c =>
      exact erased (by simpa [after, Access.perform, release?, found, Access.accepted] using mem)
  | reclaim now idle batch => exact keyed e (List.mem_filter.mp mem).1
  | replay id =>
    refine keyed e ?_
    cases found : before.dead.find? (isLetterFor id) <;>
      simpa [after, Access.perform, replay?, found, Access.accepted] using mem
  | discard id =>
    refine keyed e ?_
    by_cases found : before.dead.any (isLetterFor id) <;>
      simpa [after, Access.perform, discard?, found, Access.accepted] using mem
  | counts | deadLetters | save | result | resultIds => exact keyed e mem

theorem after_sound (policy : RetryPolicy) (d : Deed) (sound : d.before.Sound) :
    (d.after policy).Sound := by
  refine ⟨?_, d.after_keyed policy sound.keyed⟩
  cases d.change policy sound with
  | kept taken h =>
    refine (h.ids_perm ?_).nodup_iff.mpr sound.once
    simp only [List.map_map, Function.comp_def, Task.id_bumped]
  | accepted t accepts h =>
    obtain ⟨rest, before, after⟩ := h
    have ids : (d.after policy).ids.Perm (t.id :: d.before.ids) :=
      (after.map _).trans ((before.map _).symm.cons _)
    exact ids.nodup_iff.mpr (List.nodup_cons.mpr ⟨accepts.2, sound.once⟩)
  | removed id gone removes own h =>
    obtain ⟨rest, before, after⟩ := h
    have once : (gone ++ rest |>.map (·.id)).Nodup := (before.map _).nodup_iff.mp sound.once
    rw [List.map_append] at once
    exact (after.map _).nodup_iff.mpr (List.nodup_append.mp once).2.1

/-- A task stays, with its work, unless it is removed. -/
theorem after_keeps (policy : RetryPolicy) (d : Deed) (sound : d.before.Sound) {t : Task}
    (mem : t ∈ d.before.tasks) (kept : ¬ d.Removes t.id) :
    ∃ u ∈ (d.after policy).tasks, t.SameWork u := by
  cases d.change policy sound with
  | kept taken h =>
    obtain ⟨rest, before, after⟩ := h
    rcases List.mem_append.mp (before.mem_iff.mp mem) with mem | mem
    · exact ⟨t.bumped, after.mem_iff.mpr (List.mem_append_left _ (List.mem_map_of_mem mem)),
        t.sameWork_bumped⟩
    · exact ⟨t, after.mem_iff.mpr (List.mem_append_right _ mem), .refl t⟩
  | accepted _ _ h =>
    obtain ⟨rest, before, after⟩ := h
    exact ⟨t, after.mem_iff.mpr (List.mem_append_right _ (before.mem_iff.mp mem)), .refl t⟩
  | removed id gone removes own h =>
    obtain ⟨rest, before, after⟩ := h
    rcases List.mem_append.mp (before.mem_iff.mp mem) with mem | mem
    · exact absurd (own t mem ▸ removes) kept
    · exact ⟨t, after.mem_iff.mpr mem, .refl t⟩

end Deed

end LocalQueue

end ClaimQueue
