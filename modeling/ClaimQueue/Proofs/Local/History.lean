import ClaimQueue.Proofs.Local.Deeds

/-! The record of a run: each deed found the queue as the deed before it left it. From this follows
what becomes of a task in the long run, whoever the callers are and however their steps are mixed.
-/

namespace ClaimQueue

namespace LocalQueue

open Deed

/-- The deeds, the latest first, lead from an empty queue to `q`. -/
def Linked (policy : RetryPolicy) : List Deed → LocalQueue → Prop
  | [], q => q = {}
  | d :: earlier, q => q = d.after policy ∧ Linked policy earlier d.before

variable {policy : RetryPolicy}

theorem Linked.sound {deeds : List Deed} {q : LocalQueue} (linked : Linked policy deeds q) :
    q.Sound := by
  induction deeds generalizing q with
  | nil => exact linked ▸ sound_empty
  | cons d earlier ih => exact linked.1 ▸ d.after_sound policy (ih linked.2)

theorem Linked.before {later earlier : List Deed} {d : Deed} {q : LocalQueue}
    (linked : Linked policy (later ++ d :: earlier) q) : Linked policy earlier d.before := by
  induction later generalizing q with
  | nil => exact linked.2
  | cons e later ih => exact ih linked.2

theorem Linked.held {later earlier : List Deed} {d : Deed} {q : LocalQueue} {t : Task}
    (linked : Linked policy (later ++ d :: earlier) q) (accepts : d.Accepts t)
    (kept : ∀ r ∈ later, ¬ r.Removes t.id) : ∃ u ∈ q.tasks, t.SameWork u := by
  induction later generalizing q with
  | nil =>
    have sound := linked.2.sound
    have done : d.before.enqueue? t = some { d.before with pending := d.before.pending ++ [t] } := by
      have unknown : ¬ d.before.knows t.id = true :=
        fun known => accepts.2 ((knows_iff sound.keyed).mp known)
      simp [enqueue?, unknown]
    refine ⟨t, ?_, .refl t⟩
    obtain ⟨rest, -, after⟩ := exchange_enqueue done
    obtain ⟨caller, turn, access, clock, before⟩ := d
    obtain rfl : access = .enqueue t := accepts.1
    rw [linked.1]
    simpa [Deed.after, Access.perform, done, Access.accepted] using
      after.mem_iff.mpr List.mem_cons_self
  | cons e later ih =>
    obtain ⟨u, mem, work⟩ := ih linked.2 fun r mem => kept r (List.mem_cons_of_mem _ mem)
    have stays : ¬ e.Removes u.id := work.id_eq ▸ kept e List.mem_cons_self
    obtain ⟨v, mem, more⟩ := e.after_keeps policy linked.2.sound mem stays
    exact ⟨v, linked.1 ▸ mem, work.trans more⟩

/-- With no id twice, a task is the only one of its id. -/
theorem tasks_filter_of_mem {q : LocalQueue} (once : q.ids.Nodup) {u : Task} (mem : u ∈ q.tasks) :
    q.tasks.filter (·.id == u.id) = [u] := by
  obtain ⟨before, after, split⟩ := List.append_of_mem mem
  simp only [ids, split, List.map_append, List.map_cons] at once
  have others := (List.perm_middle.nodup_iff.mp once : (u.id :: _).Nodup)
  rw [List.nodup_cons, List.mem_append, not_or] at others
  have none {ts : List Task} (missing : u.id ∉ ts.map (·.id)) :
      ts.filter (·.id == u.id) = [] := by
    rw [List.filter_eq_nil_iff]
    exact fun t mem same => missing (List.mem_map.mpr ⟨t, mem, by simpa using same⟩)
  rw [split, List.filter_append, List.filter_cons_of_pos (by simp), none others.1.1,
    none others.1.2, List.nil_append]

/-! Between two times that a task is given out. -/

theorem popped?_eq_some {d : Deed} {t : Task} (popped : d.popped? policy = some t) :
    ∃ rest, d.before.pending = t :: rest ∧ (d.after policy).pending = rest := by
  obtain ⟨caller, turn, access, clock, before⟩ := d
  cases access with
  | take =>
    simp only [popped?, Deed.after, Access.perform, take?] at popped ⊢
    cases pending : before.pending with
    | nil => simp [pending] at popped
    | cons u rest =>
      have same : u = t := by simpa [pending] using popped
      exact ⟨rest, by rw [same], by simp⟩
  | _ => simp [popped?] at popped

theorem id_eq_of_joined {id : String} {ts : List Task} {t : Task} (absent : id ∉ ts.map (·.id))
    (present : id ∈ (ts ++ [t]).map (·.id)) : t.id = id := by
  rw [List.map_append, List.mem_append] at present
  exact (List.mem_singleton.mp (present.resolve_left absent)).symm

/-- A task that comes to pending is returned by the deed. -/
theorem returns_of_pending {d : Deed} (keyed : ∀ e ∈ d.before.inFlight, e.1 = e.2.task.id)
    {id : String} (absent : id ∉ d.before.pending.map (·.id))
    (present : id ∈ (d.after policy).pending.map (·.id)) : d.Returns policy id := by
  obtain ⟨caller, turn, access, clock, before⟩ := d
  cases access with
  | enqueue t =>
    by_cases known : before.knows t.id
    · simp only [Deed.after, Access.perform, enqueue?, known, Access.accepted, if_true] at present
      exact absurd present absent
    · simp only [Deed.after, Access.perform, enqueue?, known, Access.accepted] at present
      have same := id_eq_of_joined absent present
      exact ⟨same, fun mem => known ((knows_iff keyed).mpr (same ▸ mem))⟩
  | take =>
    refine absurd ?_ absent
    simp only [Deed.after, Access.perform, take?] at present
    cases pending : before.pending with
    | nil => simp [pending] at present
    | cons t rest =>
      simp only [pending] at present
      exact List.mem_cons_of_mem _ present
  | release i =>
    cases found : before.inFlight.find? i with
    | none =>
      simp only [Deed.after, Access.perform, release?, found, Access.accepted,
        Option.map_none] at present
      exact absurd present absent
    | some c =>
      simp only [Deed.after, Access.perform, release?, found, Access.accepted,
        Option.map_some] at present
      have mem := Index.mem_of_find? found
      have key : i = id := (keyed _ mem).trans (id_eq_of_joined absent present)
      exact ⟨key, List.mem_map.mpr ⟨_, mem, key⟩⟩
  | reclaim now idle batch =>
    simp only [Deed.after, Access.perform, reclaim, List.map_append, List.mem_append] at present
    obtain ⟨u, mem, same⟩ := List.mem_map.mp (present.resolve_left absent)
    obtain ⟨mem, again⟩ := List.mem_filter.mp mem
    obtain ⟨e, stale, rfl⟩ := List.mem_map.mp mem
    exact ⟨e, stale, (keyed e (stale_subset stale)).trans same, by simpa using again⟩
  | replay i =>
    cases found : before.dead.find? (isLetterFor i) with
    | none =>
      simp only [Deed.after, Access.perform, replay?, found, Access.accepted,
        Option.map_none] at present
      exact absurd present absent
    | some l =>
      simp only [Deed.after, Access.perform, replay?, found, Access.accepted,
        Option.map_some] at present
      have same := id_eq_of_joined absent present
      have key : l.task.id = i := by simpa [isLetterFor] using List.find?_some found
      exact ⟨key.symm.trans same, List.mem_map.mpr ⟨l, List.mem_of_find?_eq_some found, same⟩⟩
  | discard i =>
    refine absurd ?_ absent
    by_cases found : before.dead.any (isLetterFor i) <;>
      simpa [Deed.after, Access.perform, discard?, found, Access.accepted] using present
  | ack | counts | deadLetters | save | result | resultIds => exact absurd present absent

theorem Linked.not_pending {between earlier : List Deed} {first : Deed} {q : LocalQueue} {t : Task}
    (linked : Linked policy (between ++ first :: earlier) q)
    (popped : first.popped? policy = some t) (none : ∀ r ∈ between, ¬ r.Returns policy t.id) :
    t.id ∉ q.pending.map (·.id) := by
  induction between generalizing q with
  | nil =>
    obtain ⟨rest, before, after⟩ := popped?_eq_some popped
    have once := linked.2.sound.once
    simp only [ids, tasks, before, List.map_append, List.map_cons, List.cons_append,
      List.nodup_cons, List.mem_append, not_or] at once
    rw [linked.1, after]
    exact once.1.1.1
  | cons r between ih =>
    have absent := ih linked.2 fun r mem => none r (List.mem_cons_of_mem _ mem)
    intro present
    rw [linked.1] at present
    exact none r List.mem_cons_self (returns_of_pending linked.2.sound.keyed absent present)

theorem Linked.returned_between {later between earlier : List Deed} {first second : Deed}
    {q : LocalQueue} {t u : Task}
    (linked : Linked policy (later ++ second :: between ++ first :: earlier) q)
    (popped : first.popped? policy = some t) (again : second.popped? policy = some u)
    (same : u.id = t.id) : ∃ r ∈ between, r.Returns policy t.id := by
  by_contra none
  rw [List.append_assoc] at linked
  have linked : Linked policy (between ++ first :: earlier) second.before := linked.before
  obtain ⟨rest, pending, -⟩ := popped?_eq_some again
  refine linked.not_pending popped (fun r mem returns => none ⟨r, mem, returns⟩) ?_
  simp [pending, same]

end LocalQueue

end ClaimQueue
