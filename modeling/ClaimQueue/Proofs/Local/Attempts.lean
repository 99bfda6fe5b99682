import ClaimQueue.Proofs.Local.Runs

/-! Attempts, and the way to the dead letters. A reclaim counts one attempt for each task that it
takes back, and nothing else does; where the task goes then depends on the new count alone. Main
statement: the count of a task is the number of its reclaims since it was enqueued. -/

namespace ClaimQueue

theorem le_countUp (n : UInt32) : n ≤ countUp n := by
  have := n.toNat_lt
  rw [UInt32.le_iff_toNat_le, countUp_toNat]
  omega

theorem RetryPolicy.decide_eq_retry {p : RetryPolicy} {n : UInt32} :
    p.decide n = .retry ↔ ¬ p.maxRetry < n := by
  unfold RetryPolicy.decide
  split <;> simp_all

theorem RetryPolicy.decide_eq_deadLetter {p : RetryPolicy} {n : UInt32} :
    p.decide n = .deadLetter ↔ p.maxRetry < n := by
  unfold RetryPolicy.decide
  split <;> simp_all

namespace LocalQueue

open Deed

variable {policy : RetryPolicy}

theorem Exchange.subset {gone : List Task} {q r : LocalQueue} (h : Exchange gone [] q r) :
    ∀ v ∈ r.tasks, v ∈ q.tasks := by
  obtain ⟨rest, before, after⟩ := h
  exact fun v mem => before.mem_iff.mpr (List.mem_append_right _ (after.mem_iff.mp mem))

theorem Sound.eq_of_id {q : LocalQueue} (sound : q.Sound) {u v : Task} (mem : u ∈ q.tasks)
    (mem' : v ∈ q.tasks) (same : v.id = u.id) : v = u :=
  List.inj_on_of_nodup_map sound.once mem' mem same

theorem Sound.not_pending_of_dead {q : LocalQueue} (sound : q.Sound) {id : String}
    (dead : id ∈ q.dead.map (·.task.id)) : id ∉ q.pending.map (·.id) := by
  have once := sound.once
  simp only [ids, tasks, List.map_append, List.map_map] at once
  intro pending
  exact (List.nodup_append.mp once).2.2 id (List.mem_append_left _ pending) id dead rfl

namespace Deed

/-- A reclaim takes the claim of this id back. -/
def takes (id : String) (d : Deed) : Bool :=
  match d.access with
  | .reclaim now idle batch => (d.before.stale now idle batch).any (·.1 == id)
  | _ => false

/-- A reclaim that has brought the task back to pending. -/
def putsBack (policy : RetryPolicy) (id : String) (d : Deed) : Bool :=
  d.takes id && (d.after policy).pending.any (·.id == id)

/-- A dead letter of this id is replayed. -/
def Replays (id : String) (d : Deed) : Prop :=
  d.access = .replay id ∧ id ∈ d.before.dead.map (·.task.id)

theorem takes_iff {id : String} {d : Deed} : d.takes id = true ↔
    ∃ now idle batch, d.access = .reclaim now idle batch ∧
      ∃ e ∈ d.before.stale now idle batch, e.1 = id := by
  unfold takes
  split
  · rename_i now idle batch access
    simp [access]
  · rename_i other
    simp only [Bool.false_eq_true, false_iff]
    rintro ⟨now, idle, batch, access, -⟩
    exact other now idle batch access

/-- Without a reclaim, a task that is held was held before, or is a new one. -/
theorem held_or_new (policy : RetryPolicy) (d : Deed) (sound : d.before.Sound)
    (calm : ∀ now idle batch, d.access ≠ .reclaim now idle batch) {v : Task}
    (mem : v ∈ (d.after policy).tasks) : v ∈ d.before.tasks ∨ v.id ∉ d.before.ids := by
  obtain ⟨caller, turn, access, clock, before⟩ := d
  cases access with
  | reclaim now idle batch => exact absurd rfl (calm now idle batch)
  | enqueue t =>
    by_cases known : before.knows t.id
    · exact .inl (by simpa [after, Access.perform, enqueue?, known, Access.accepted] using mem)
    · have done : before.enqueue? t = some { before with pending := before.pending ++ [t] } := by
        simp [enqueue?, known]
      obtain ⟨rest, same, more⟩ := exchange_enqueue done
      have mem := more.mem_iff.mp (by
        simpa [after, Access.perform, done, Access.accepted] using mem)
      rcases List.mem_cons.mp mem with rfl | mem
      · exact .inr fun known' => known ((knows_iff sound.keyed).mpr known')
      · exact .inl (same.mem_iff.mpr mem)
  | take =>
    cases done : before.take? clock with
    | none => exact .inl (by simpa [after, Access.perform, done] using mem)
    | some e =>
      exact .inl ((exchange_take sound done).subset v
        (by simpa [after, Access.perform, done] using mem))
  | ack id => exact .inl ((exchange_ack id before).subset v mem)
  | release id =>
    cases done : before.release? id with
    | none => exact .inl (by simpa [after, Access.perform, done, Access.accepted] using mem)
    | some r =>
      exact .inl ((exchange_release done).subset v
        (by simpa [after, Access.perform, done, Access.accepted] using mem))
  | replay id =>
    cases done : before.replay? id with
    | none => exact .inl (by simpa [after, Access.perform, done, Access.accepted] using mem)
    | some r =>
      exact .inl ((exchange_replay done).subset v
        (by simpa [after, Access.perform, done, Access.accepted] using mem))
  | discard id =>
    cases done : before.discard? id with
    | none => exact .inl (by simpa [after, Access.perform, done, Access.accepted] using mem)
    | some r =>
      exact .inl ((exchange_discard done).subset v
        (by simpa [after, Access.perform, done, Access.accepted] using mem))
  | counts | deadLetters | save | result | resultIds => exact .inl mem

/-- A task that stays counts one more attempt if it is taken back, and does not change otherwise. -/
theorem carried (policy : RetryPolicy) (d : Deed) (sound : d.before.Sound) {u v : Task}
    (mem : u ∈ d.before.tasks) (mem' : v ∈ (d.after policy).tasks) (same : v.id = u.id) :
    v = if d.takes u.id then u.bumped else u := by
  by_cases reclaims : ∃ now idle batch, d.access = .reclaim now idle batch
  · obtain ⟨now, idle, batch, access⟩ := reclaims
    obtain ⟨caller, turn, _, clock, before⟩ := d
    obtain rfl : _ = Access.reclaim now idle batch := access
    obtain ⟨rest, split, after⟩ := exchange_reclaim policy now idle batch sound
    have once : ((before.stale now idle batch).map (·.2.task) ++ rest |>.map (·.id)).Nodup :=
      (split.map _).nodup_iff.mp sound.once
    rw [List.map_append, List.nodup_append] at once
    rcases List.mem_append.mp (after.mem_iff.mp mem') with taken | left
    · obtain ⟨e, stale, rfl⟩ := List.mem_map.mp taken
      have held : e.2.task ∈ before.tasks :=
        split.mem_iff.mpr (List.mem_append_left _ (List.mem_map.mpr ⟨e, stale, rfl⟩))
      have own : e.2.task = u := sound.eq_of_id mem held same
      have keyed : e.1 = u.id := own ▸ sound.keyed e (stale_subset stale)
      rw [if_pos (takes_iff.mpr ⟨now, idle, batch, rfl, e, stale, keyed⟩), own]
    · have held : v ∈ before.tasks := split.mem_iff.mpr (List.mem_append_right _ left)
      have own : v = u := sound.eq_of_id mem held same
      subst own
      rw [if_neg]
      intro takes
      obtain ⟨_, _, _, access, e, stale, keyed⟩ := takes_iff.mp takes
      cases access
      refine once.2.2 e.1 ?_ v.id (List.mem_map_of_mem left) keyed
      rw [List.map_map]
      exact List.mem_map.mpr ⟨e, stale, (sound.keyed e (stale_subset stale)).symm⟩
  · have calm : ∀ now idle batch, d.access ≠ .reclaim now idle batch :=
      fun now idle batch access => reclaims ⟨now, idle, batch, access⟩
    rw [if_neg]
    · refine sound.eq_of_id mem ((d.held_or_new policy sound calm mem').resolve_right ?_) same
      exact fun new => new (same ▸ List.mem_map_of_mem mem)
    · intro takes
      obtain ⟨now, idle, batch, access, -⟩ := takes_iff.mp takes
      exact calm now idle batch access

/-- A task that is not removed is carried over. -/
theorem carried_of_kept (policy : RetryPolicy) (d : Deed) (sound : d.before.Sound) {u : Task}
    (mem : u ∈ d.before.tasks) (kept : ¬ d.Removes u.id) :
    (if d.takes u.id then u.bumped else u) ∈ (d.after policy).tasks := by
  obtain ⟨v, mem', work⟩ := d.after_keeps policy sound mem kept
  exact d.carried policy sound mem mem' work.id_eq ▸ mem'

theorem mem_after_of_accepts (policy : RetryPolicy) {d : Deed} (sound : d.before.Sound) {t : Task}
    (accepts : d.Accepts t) : t ∈ (d.after policy).tasks := by
  obtain ⟨caller, turn, access, clock, before⟩ := d
  obtain ⟨access, new⟩ := accepts
  obtain rfl : _ = Access.enqueue t := access
  have pending : (Deed.after policy ⟨caller, turn, .enqueue t, clock, before⟩).pending =
      before.pending ++ [t] := by
    have done := (perform_enqueue policy clock sound t).2 new
    rw [Deed.after, done]
  simp [tasks, pending]

/-! Where a task goes that is taken back, and where dead letters come from. -/

theorem goes (policy : RetryPolicy) (d : Deed) (sound : d.before.Sound) {id : String}
    (taken : d.takes id) : ∃ u ∈ d.before.tasks, u.id = id ∧
      if policy.maxRetry < u.bumped.attempts then id ∈ (d.after policy).dead.map (·.task.id)
      else id ∈ (d.after policy).pending.map (·.id) := by
  obtain ⟨now, idle, batch, access, e, stale, keyed⟩ := takes_iff.mp taken
  obtain ⟨caller, turn, _, clock, before⟩ := d
  obtain rfl : _ = Access.reclaim now idle batch := access
  have held := stale_subset stale
  have own : e.2.task.id = id := (sound.keyed e held).symm.trans keyed
  have bumped : e.2.task.bumped ∈ (before.stale now idle batch).map (·.2.task.bumped) :=
    List.mem_map.mpr ⟨e, stale, rfl⟩
  refine ⟨e.2.task, ?_, own, ?_⟩
  · exact List.mem_append_left _ (List.mem_append_right _ (List.mem_map.mpr ⟨e, held, rfl⟩))
  · split
    · rename_i beyond
      refine List.mem_map.mpr ⟨letter policy now e.2.task.bumped, ?_, own⟩
      refine List.mem_append_right _ (List.mem_map_of_mem (List.mem_filter.mpr ⟨bumped, ?_⟩))
      rw [RetryPolicy.decide_eq_deadLetter.mpr beyond]
      rfl
    · rename_i within
      refine List.mem_map.mpr ⟨e.2.task.bumped, ?_, own⟩
      refine List.mem_append_right _ (List.mem_filter.mpr ⟨bumped, ?_⟩)
      rw [RetryPolicy.decide_eq_retry.mpr within]
      rfl

theorem dead_iff_of_takes (policy : RetryPolicy) (d : Deed) (sound : d.before.Sound) {id : String}
    (taken : d.takes id) : ∃ u ∈ d.before.tasks, u.id = id ∧
      (id ∈ (d.after policy).dead.map (·.task.id) ↔ policy.maxRetry < u.bumped.attempts) ∧
      (id ∈ (d.after policy).pending.map (·.id) ↔ ¬ policy.maxRetry < u.bumped.attempts) := by
  obtain ⟨u, mem, own, goes⟩ := d.goes policy sound taken
  have apart (dead : id ∈ (d.after policy).dead.map (·.task.id)) :
      id ∉ (d.after policy).pending.map (·.id) :=
    (d.after_sound policy sound).not_pending_of_dead dead
  refine ⟨u, mem, own, ?_⟩
  split at goes
  · rename_i beyond
    exact ⟨iff_of_true goes beyond, iff_of_false (apart goes) (not_not_intro beyond)⟩
  · rename_i within
    exact ⟨iff_of_false (fun dead => apart dead goes) within, iff_of_true goes within⟩

theorem not_over_of_putsBack {d : Deed} (sound : d.before.Sound) {id : String}
    (back : d.putsBack policy id) : d.takes id ∧
      ∃ u ∈ d.before.tasks, u.id = id ∧ ¬ policy.maxRetry < u.bumped.attempts := by
  simp only [putsBack, Bool.and_eq_true, List.any_eq_true, beq_iff_eq] at back
  obtain ⟨taken, v, pending, same⟩ := back
  obtain ⟨u, mem, own, -, only⟩ := d.dead_iff_of_takes policy sound taken
  exact ⟨taken, u, mem, own, only.mp (List.mem_map.mpr ⟨v, pending, same⟩)⟩

/-- A new dead letter is that of a task taken back, whose count is over the ceiling. -/
theorem dead_after (policy : RetryPolicy) (d : Deed) (sound : d.before.Sound) {l : DeadLetter}
    (mem : l ∈ (d.after policy).dead) : l ∈ d.before.dead ∨ d.takes l.task.id ∧
      policy.maxRetry < l.task.attempts ∧ l.reason = policy.reason l.task.attempts := by
  obtain ⟨caller, turn, access, clock, before⟩ := d
  cases access with
  | reclaim now idle batch =>
    refine (List.mem_append.mp mem).imp_right fun new => ?_
    obtain ⟨t, spent, rfl⟩ := List.mem_map.mp new
    obtain ⟨bumped, beyond⟩ := List.mem_filter.mp spent
    obtain ⟨e, stale, rfl⟩ := List.mem_map.mp bumped
    have beyond : policy.decide e.2.task.bumped.attempts = .deadLetter := by simpa using beyond
    refine ⟨?_, RetryPolicy.decide_eq_deadLetter.mp beyond, rfl⟩
    exact takes_iff.mpr ⟨now, idle, batch, rfl, e, stale, sound.keyed e (stale_subset stale)⟩
  | enqueue t =>
    refine .inl ?_
    by_cases known : before.knows t.id <;>
      simpa [after, Access.perform, enqueue?, known, Access.accepted] using mem
  | take =>
    refine .inl ?_
    cases pending : before.pending <;>
      simpa [after, Access.perform, take?, pending] using mem
  | release id =>
    refine .inl ?_
    cases found : before.inFlight.find? id <;>
      simpa [after, Access.perform, release?, found, Access.accepted] using mem
  | replay id =>
    cases found : before.dead.find? (isLetterFor id) with
    | none =>
      exact .inl (by simpa [after, Access.perform, replay?, found, Access.accepted] using mem)
    | some e =>
      have mem : l ∈ before.dead.eraseP (isLetterFor id) := by
        simpa [after, Access.perform, replay?, found, Access.accepted] using mem
      exact .inl (List.eraseP_subset mem)
  | discard id =>
    by_cases found : before.dead.any (isLetterFor id)
    · have mem : l ∈ before.dead.filter fun e => !isLetterFor id e := by
        simpa [after, Access.perform, discard?, found, Access.accepted] using mem
      exact .inl (List.mem_filter.mp mem).1
    · exact .inl (by simpa [after, Access.perform, discard?, found, Access.accepted] using mem)
  | ack | counts | deadLetters | save | result | resultIds => exact .inl mem

theorem over_after (policy : RetryPolicy) (d : Deed) (sound : d.before.Sound) {id : String}
    (beyond : ∃ u ∈ d.before.tasks, u.id = id ∧ policy.maxRetry < u.attempts)
    (kept : ¬ d.Removes id) :
    ∃ u ∈ (d.after policy).tasks, u.id = id ∧ policy.maxRetry < u.attempts := by
  obtain ⟨u, mem, rfl, beyond⟩ := beyond
  refine ⟨_, d.carried_of_kept policy sound mem kept, ?_⟩
  split
  · exact ⟨rfl, UInt32.lt_of_lt_of_le beyond (le_countUp _)⟩
  · exact ⟨rfl, beyond⟩

end Deed

/-! Over many deeds. -/

section

variable {d : Deed} {later earlier : List Deed} {q : LocalQueue} {t : Task}

theorem Linked.exists_of_append {deeds : List Deed} (linked : Linked policy (later ++ deeds) q) :
    ∃ p, Linked policy deeds p := by
  induction later generalizing q with
  | nil => exact ⟨q, linked⟩
  | cons e later ih => exact ih linked.2

theorem Linked.attempts (linked : Linked policy (later ++ d :: earlier) q) (accepts : d.Accepts t)
    (kept : ∀ r ∈ later, ¬ r.Removes t.id) : ∃ u ∈ q.tasks, u.id = t.id ∧
      u.attempts.toNat = min (2 ^ 32 - 1) (t.attempts.toNat + later.countP (takes t.id)) := by
  induction later generalizing q with
  | nil =>
    refine ⟨t, linked.1 ▸ mem_after_of_accepts policy linked.2.sound accepts, rfl, ?_⟩
    have := t.attempts.toNat_lt
    rw [List.countP_nil]
    omega
  | cons e later ih =>
    obtain ⟨u, mem, own, count⟩ := ih linked.2 fun r mem => kept r (List.mem_cons_of_mem _ mem)
    have stays : ¬ e.Removes u.id := own ▸ kept e List.mem_cons_self
    have carried := e.carried_of_kept policy linked.2.sound mem stays
    refine ⟨_, linked.1 ▸ carried, ?_⟩
    rw [List.countP_cons, own]
    split
    · refine ⟨own, ?_⟩
      rw [Task.bumped, countUp_toNat, count]
      omega
    · exact ⟨own, count⟩

/-- Letters tell the count that was over the ceiling. -/
theorem Linked.dead {deeds : List Deed} (linked : Linked policy deeds q) : ∀ l ∈ q.dead,
    policy.maxRetry < l.task.attempts ∧ l.reason = policy.reason l.task.attempts := by
  induction deeds generalizing q with
  | nil =>
    obtain rfl : q = {} := linked
    exact fun _ none => (List.not_mem_nil none).elim
  | cons e deeds ih =>
    intro l mem
    rw [linked.1] at mem
    exact (e.dead_after policy linked.2.sound mem).elim (ih linked.2 l) And.right

/-- Each return uses up one of the attempts that were left. -/
theorem Linked.putsBack_le (below : policy.maxRetry.toNat < 2 ^ 32 - 1)
    (linked : Linked policy (later ++ d :: earlier) q) (accepts : d.Accepts t)
    (kept : ∀ r ∈ later, ¬ r.Removes t.id) :
    later.countP (putsBack policy t.id) ≤ policy.maxRetry.toNat - t.attempts.toNat := by
  induction later generalizing q with
  | nil => exact Nat.zero_le _
  | cons e later ih =>
    have kept' : ∀ r ∈ later, ¬ r.Removes t.id := fun r mem => kept r (List.mem_cons_of_mem _ mem)
    rw [List.countP_cons]
    split
    · rename_i back
      obtain ⟨u, mem, own, count⟩ := Linked.attempts linked.2 accepts kept'
      obtain ⟨-, v, mem', own', within⟩ := not_over_of_putsBack linked.2.sound back
      obtain rfl : v = u := linked.2.sound.eq_of_id mem mem' (own'.trans own.symm)
      have fewer : later.countP (putsBack policy t.id) ≤ later.countP (takes t.id) :=
        List.countP_mono_left fun r _ back => (Bool.and_eq_true _ _ ▸ back : _ ∧ _).1
      rw [UInt32.lt_iff_toNat_lt, Task.bumped, countUp_toNat, count] at within
      omega
    · exact ih linked.2 kept'

/-- Once a dead letter is replayed, the count of its task is over the ceiling for good. -/
theorem Linked.over_of_replays {id : String} (linked : Linked policy (later ++ d :: earlier) q)
    (replays : d.Replays id) (kept : ∀ r ∈ later, ¬ r.Removes id) :
    ∃ u ∈ q.tasks, u.id = id ∧ policy.maxRetry < u.attempts := by
  induction later generalizing q with
  | nil =>
    obtain ⟨l, mem, own⟩ := List.mem_map.mp replays.2
    have beyond := (Linked.dead linked.2 l mem).1
    have held : l.task ∈ d.before.tasks := List.mem_append_right _ (List.mem_map_of_mem mem)
    have stays : ¬ d.Removes id := by simp [Removes, replays.1]
    exact linked.1 ▸ d.over_after policy linked.2.sound ⟨l.task, held, own, beyond⟩ stays
  | cons e later ih =>
    have beyond := ih linked.2 fun r mem => kept r (List.mem_cons_of_mem _ mem)
    exact linked.1 ▸ e.over_after policy linked.2.sound beyond (kept e List.mem_cons_self)

/-- The next reclaim of a replayed task makes a dead letter of it again. -/
theorem Linked.dead_again {between : List Deed} {first second : Deed} {id : String}
    (linked : Linked policy (later ++ second :: between ++ first :: earlier) q)
    (replays : first.Replays id) (kept : ∀ r ∈ between, ¬ r.Removes id)
    (taken : second.takes id) : id ∈ (second.after policy).dead.map (·.task.id) := by
  rw [List.append_assoc] at linked
  have linked : Linked policy (between ++ first :: earlier) second.before := linked.before
  obtain ⟨u, mem, own, beyond⟩ := linked.over_of_replays replays kept
  obtain ⟨v, mem', own', dead, -⟩ := second.dead_iff_of_takes policy linked.sound taken
  obtain rfl : v = u := linked.sound.eq_of_id mem mem' (own'.trans own.symm)
  exact dead.mpr (UInt32.lt_of_lt_of_le beyond (le_countUp _))

end

namespace System

/-- The count of a task is what it was enqueued with and its reclaims since, up to the largest
count. Reclaims alone change it, and past the ceiling, and only there, they make dead letters, which
name the count and the ceiling. So a task returns by reclaim only as often as the ceiling leaves
attempts, and once replayed not at all. -/
theorem run_counts_each_reclaim (policy : RetryPolicy) (rounds n : Nat) (events : List Event) :
    let y := (fresh policy n).run rounds events
    (∀ later d earlier t, y.deeds = later ++ d :: earlier → d.Accepts t →
      (∀ r ∈ later, ¬ r.Removes t.id) → ∃ u, y.queue.tasks.filter (·.id == t.id) = [u] ∧
        u.attempts.toNat = min (2 ^ 32 - 1) (t.attempts.toNat + later.countP (takes t.id))) ∧
    (∀ d ∈ y.deeds, ∀ u ∈ d.before.tasks, ∀ v ∈ (d.after policy).tasks, v.id = u.id →
      v = if d.takes u.id then u.bumped else u) ∧
    (∀ d ∈ y.deeds, ∀ id,
      (d.takes id → ∃ u ∈ d.before.tasks, u.id = id ∧
        (id ∈ (d.after policy).dead.map (·.task.id) ↔ policy.maxRetry < u.bumped.attempts) ∧
        (id ∈ (d.after policy).pending.map (·.id) ↔ ¬ policy.maxRetry < u.bumped.attempts)) ∧
      (id ∈ (d.after policy).dead.map (·.task.id) → id ∉ d.before.dead.map (·.task.id) →
        d.takes id)) ∧
    (∀ l ∈ y.queue.dead, policy.maxRetry < l.task.attempts ∧ l.reason =
      "attempts " ++ toString l.task.attempts.toNat ++ " exceeded max_retry " ++
        toString policy.maxRetry.toNat) ∧
    (policy.maxRetry.toNat < 2 ^ 32 - 1 →
      (∀ later between d earlier t, y.deeds = later ++ (between ++ d :: earlier) → d.Accepts t →
        (∀ r ∈ between, ¬ r.Removes t.id) →
        between.countP (putsBack policy t.id) ≤ policy.maxRetry.toNat - t.attempts.toNat) ∧
      ∀ later second between first earlier id,
        y.deeds = later ++ second :: between ++ first :: earlier → first.Replays id →
        (∀ r ∈ between, ¬ r.Removes id) → second.takes id →
        id ∈ (second.after policy).dead.map (·.task.id)) := by
  intro y
  have linked : Linked policy y.deeds y.queue := ((kept_fresh policy rounds n).run events).linked
  have sound_before (d : Deed) (mem : d ∈ y.deeds) : d.before.Sound := by
    obtain ⟨later, earlier, split⟩ := List.append_of_mem mem
    exact (Linked.before (split ▸ linked)).sound
  refine ⟨?_, ?_, ?_, ?_, fun below => ⟨?_, ?_⟩⟩
  · intro later d earlier t deeds accepts stays
    obtain ⟨u, mem, own, count⟩ := Linked.attempts (deeds ▸ linked) accepts stays
    exact ⟨u, own ▸ tasks_filter_of_mem linked.sound.once mem, count⟩
  · intro d mem u held v held' same
    exact d.carried policy (sound_before d mem) held held' same
  · refine fun d mem id => ⟨d.dead_iff_of_takes policy (sound_before d mem), fun dead new => ?_⟩
    obtain ⟨l, letter, rfl⟩ := List.mem_map.mp dead
    have old : l ∉ d.before.dead := fun old => new (List.mem_map.mpr ⟨l, old, rfl⟩)
    exact ((d.dead_after policy (sound_before d mem) letter).resolve_left old).1
  · exact linked.dead
  · intro later between d earlier t deeds accepts stays
    have ⟨p, linked⟩ := Linked.exists_of_append (deeds ▸ linked)
    exact Linked.putsBack_le below linked accepts stays
  · intro later second between first earlier id deeds replays stays taken
    exact Linked.dead_again (deeds ▸ linked) replays stays taken

end System

end LocalQueue

end ClaimQueue
