import ClaimQueue.Proofs.Local.History

/-! Runs of several callers on one queue in memory. The record of every run is linked, and a call
that enqueues a task has one deed, by which it stands or falls. Main statement: no task is ever lost
or doubled. -/

namespace ClaimQueue

namespace LocalQueue

def Deed.isOf (caller turn : Nat) (d : Deed) : Bool := d.caller == caller && d.turn == turn

/-- The rest of a call that enqueues a task, once the queue has it. -/
def ringing : Steps (Except QueueError Unit) := .ask .ring fun _ => .done (.ok ())

theorem answer_enqueue (rounds : Nat) (t : Task) :
    LocalQueue.answer rounds (.enqueue t) = .ask (.access (.enqueue t)) fun accepted =>
      if accepted then ringing else .done (.error (.duplicateTask t.id)) := by
  have cont : (fun accepted : Bool => (ringIf accepted).bind fun accepted =>
      if accepted then (.done (.ok ()) : Steps (Except QueueError Unit))
      else .done (.error (.duplicateTask t.id))) =
      fun accepted => if accepted then ringing else .done (.error (.duplicateTask t.id)) := by
    funext accepted
    cases accepted <;> rfl
  exact congrArg (Program.ask (I := steps) (.access (.enqueue t))) cont

theorem settle_cases (c : Caller) :
    (∃ u o, c.current = some ⟨u, .done o⟩ ∧ c.settle = ⟨none, ⟨u, o⟩ :: c.history⟩) ∨
      c.settle = c := by
  unfold Caller.settle
  split
  · rename_i u o current
    exact .inl ⟨u, o, current, rfl⟩
  · exact .inr rfl

theorem Caller.history_settle (c : Caller) : c.history <:+ c.settle.history := by
  rcases settle_cases c with ⟨u, o, -, settled⟩ | settled
  · exact settled.symm ▸ List.suffix_cons _ _
  · exact settled.symm ▸ List.suffix_refl _

theorem Caller.history_begin (rounds : Nat) (u : Undertaking) (c : Caller) :
    c.history <:+ (c.begin rounds u).history := by
  unfold Caller.begin
  split
  · exact List.suffix_refl _
  · exact Caller.history_settle { c with current := some ⟨u, u.work rounds⟩ }

variable {policy : RetryPolicy} {rounds : Nat}

/-- What the deeds of a finished call to enqueue `t` tell: there is one, and the call has failed,
changing nothing, if the id was in one of the three places then, and else the task is pending. -/
def Told (policy : RetryPolicy) (deeds : List Deed) (t : Task) (r : Except QueueError Unit) : Prop :=
  ∃ d, deeds = [d] ∧ d.access = .enqueue t ∧
    (t.id ∈ d.before.ids → r = .error (.duplicateTask t.id) ∧ d.after policy = d.before) ∧
    (t.id ∉ d.before.ids →
      r = .ok () ∧ d.after policy = { d.before with pending := d.before.pending ++ [t] })

/-- Where an unfinished call to enqueue `t` stands. -/
def Standing (policy : RetryPolicy) (rounds : Nat) (deeds : List Deed) (t : Task)
    (p : Steps (Except QueueError Unit)) : Prop :=
  p = LocalQueue.answer rounds (.enqueue t) ∧ deeds = [] ∨
    p = ringing ∧ Told policy deeds t (.ok ())

structure Consistent (policy : RetryPolicy) (rounds : Nat) (deeds : List Deed) (i : Nat)
    (c : Caller) : Prop where
  turns : ∀ d ∈ deeds, d.caller = i → d.turn < c.history.length ∨
    d.turn = c.history.length ∧ c.current.isSome
  ended : ∀ later t r earlier, c.history = later ++ ⟨.call (.enqueue t), r⟩ :: earlier →
    Told policy (deeds.filter (Deed.isOf i earlier.length)) t r
  underway : ∀ t p, c.current = some ⟨.call (.enqueue t), p⟩ →
    Standing policy rounds (deeds.filter (Deed.isOf i c.history.length)) t p

theorem consistent_fresh (i : Nat) : Consistent policy rounds [] i {} where
  turns _ mem := (List.not_mem_nil mem).elim
  ended later _ _ _ eq := by simp at eq
  underway _ _ eq := by simp at eq

/-- The deeds of others do not matter. -/
theorem Consistent.of_other {deeds : List Deed} {i : Nat} {c : Caller} {d : Deed}
    (h : Consistent policy rounds deeds i c) (other : d.caller ≠ i) :
    Consistent policy rounds (d :: deeds) i c := by
  have same (k : Nat) : (d :: deeds).filter (Deed.isOf i k) = deeds.filter (Deed.isOf i k) :=
    List.filter_cons_of_neg (by simp [Deed.isOf, other])
  refine ⟨fun e mem own => ?_, fun later t r earlier eq => ?_, fun t p eq => ?_⟩
  · rcases List.mem_cons.mp mem with rfl | mem
    · exact absurd own other
    · exact h.turns e mem own
  · rw [same]
    exact h.ended later t r earlier eq
  · rw [same]
    exact h.underway t p eq

/-- A busy caller, whose undertaking ends if nothing is left to do. -/
theorem Consistent.settle {deeds : List Deed} {i : Nat} {c : Caller} (busy : c.current.isSome)
    (turns : ∀ d ∈ deeds, d.caller = i → d.turn ≤ c.history.length)
    (ended : ∀ later t r earlier, c.history = later ++ ⟨.call (.enqueue t), r⟩ :: earlier →
      Told policy (deeds.filter (Deed.isOf i earlier.length)) t r)
    (underway : ∀ t p, c.current = some ⟨.call (.enqueue t), p⟩ →
      Standing policy rounds (deeds.filter (Deed.isOf i c.history.length)) t p ∨
        ∃ r, p = .done r ∧ Told policy (deeds.filter (Deed.isOf i c.history.length)) t r) :
    Consistent policy rounds deeds i c.settle := by
  rcases settle_cases c with ⟨u, o, current, settled⟩ | settled
  · rw [settled]
    refine ⟨fun d mem own => .inl (Nat.lt_succ_of_le (turns d mem own)), ?_, fun _ _ eq => ?_⟩
    · intro later t r earlier eq
      cases later with
      | cons _ later =>
        obtain ⟨-, eq⟩ := List.cons.inj eq
        exact ended later t r earlier eq
      | nil =>
        obtain ⟨same, rfl⟩ := List.cons.inj eq
        cases same
        rcases underway t _ current with (⟨unstarted, -⟩ | ⟨ringing, -⟩) | ⟨r, same, told⟩
        · rw [answer_enqueue] at unstarted
          cases unstarted
        · cases ringing
        · cases same
          exact told
    · cases eq
  · rw [settled]
    refine ⟨fun d mem own => ?_, ended, fun t p eq => ?_⟩
    · exact (Nat.lt_or_eq_of_le (turns d mem own)).imp_right fun eq => ⟨eq, busy⟩
    · refine (underway t p eq).resolve_right fun ⟨_, done, _⟩ => ?_
      simp only [Caller.settle, eq, done] at settled
      rw [← settled] at eq
      cases eq

theorem perform_enqueue (policy : RetryPolicy) (clock : Instant) {q : LocalQueue} (sound : q.Sound) (t : Task) :
    (t.id ∈ q.ids → Access.perform policy clock q (.enqueue t) = (false, q)) ∧
      (t.id ∉ q.ids → Access.perform policy clock q (.enqueue t) =
        (true, { q with pending := q.pending ++ [t] })) := by
  constructor
  · intro mem
    have known := (knows_iff sound.keyed).mpr mem
    simp [Access.perform, enqueue?, known, Access.accepted]
  · intro new
    have unknown : ¬ q.knows t.id = true := fun known => new ((knows_iff sound.keyed).mp known)
    simp [Access.perform, enqueue?, unknown, Access.accepted]

/-- A caller that does a deed. -/
theorem Consistent.deed {deeds : List Deed} {i : Nat} {c : Caller} {q : LocalQueue} (sound : q.Sound)
    (h : Consistent policy rounds deeds i c) {u : Undertaking} {a : Access}
    {next : a.Answer → Steps u.Outcome} (current : c.current = some ⟨u, .ask (.access a) next⟩)
    (clock : Instant) :
    let d : Deed := ⟨i, c.history.length, a, clock, q⟩
    Consistent policy rounds (d :: deeds) i
      { c with current := some ⟨u, next (d.answer policy)⟩ : Caller }.settle := by
  intro d
  refine Consistent.settle rfl (fun e mem own => ?_) (fun later t r earlier eq => ?_) fun t p eq => ?_
  · rcases List.mem_cons.mp mem with rfl | mem
    · exact Nat.le_refl _
    · exact (h.turns e mem own).elim Nat.le_of_lt fun here => Nat.le_of_eq here.1
  · have before : c.history.length ≠ earlier.length := by
      have := congrArg List.length eq
      simp only [List.length_append, List.length_cons] at this
      omega
    rw [List.filter_cons_of_neg (by simp [d, Deed.isOf, before])]
    exact h.ended later t r earlier eq
  · cases eq
    rcases h.underway t _ current with ⟨unstarted, none⟩ | ⟨ringing, -⟩
    · rw [answer_enqueue] at unstarted
      cases unstarted
      have alone : (d :: deeds).filter (Deed.isOf i c.history.length) = [d] := by
        rw [List.filter_cons_of_pos (by simp [d, Deed.isOf]), none]
      rw [alone]
      obtain ⟨refused, accepted⟩ := perform_enqueue policy clock sound t
      by_cases mem : t.id ∈ q.ids
      · have done := refused mem
        have answer : d.answer policy = false := congrArg Prod.fst done
        refine .inr ⟨.error (.duplicateTask t.id), by rw [answer]; rfl, d, rfl, rfl, fun _ => ?_,
          fun new => absurd mem new⟩
        exact ⟨rfl, congrArg Prod.snd done⟩
      · have done := accepted mem
        have answer : d.answer policy = true := congrArg Prod.fst done
        refine .inl (.inr ⟨by rw [answer]; rfl, d, rfl, rfl, fun old => absurd old mem, fun _ => ?_⟩)
        exact ⟨rfl, congrArg Prod.snd done⟩
    · cases ringing

/-- A caller that does something else. -/
theorem Consistent.other {deeds : List Deed} {i : Nat} {c : Caller}
    (h : Consistent policy rounds deeds i c) {u : Undertaking} {s : Step}
    {next : s.Answer → Steps u.Outcome} (current : c.current = some ⟨u, .ask s next⟩)
    (noAccess : ∀ a, s ≠ .access a) (answer : s.Answer) :
    Consistent policy rounds deeds i
      { c with current := some ⟨u, next answer⟩ : Caller }.settle := by
  refine Consistent.settle rfl (fun e mem own => ?_) h.ended fun t p eq => ?_
  · exact (h.turns e mem own).elim Nat.le_of_lt fun here => Nat.le_of_eq here.1
  · cases eq
    rcases h.underway t _ current with ⟨unstarted, none⟩ | ⟨rings, told⟩
    · rw [answer_enqueue] at unstarted
      cases unstarted
      exact absurd rfl (noAccess _)
    · cases rings
      exact .inr ⟨_, rfl, told⟩

theorem Consistent.begin {deeds : List Deed} {i : Nat} {c : Caller}
    (h : Consistent policy rounds deeds i c) (u : Undertaking) :
    Consistent policy rounds deeds i (c.begin rounds u) := by
  unfold Caller.begin
  split
  · exact h
  · rename_i idle
    have past : ∀ d ∈ deeds, d.caller = i → d.turn < c.history.length := by
      intro d mem own
      refine (h.turns d mem own).resolve_right fun ⟨_, busy⟩ => ?_
      simp [idle] at busy
    refine Consistent.settle rfl (fun d mem own => Nat.le_of_lt (past d mem own)) h.ended fun t p eq => ?_
    cases eq
    refine .inl (.inl ⟨rfl, List.filter_eq_nil_iff.mpr fun d mem => ?_⟩)
    simp only [Deed.isOf, Bool.and_eq_true, beq_iff_eq, not_and]
    exact fun own => Nat.ne_of_lt (past d mem own)

namespace System

/-- What holds of several callers of one queue, at every moment. -/
structure Kept (policy : RetryPolicy) (rounds : Nat) (y : System) : Prop where
  policy_eq : y.policy = policy
  linked : Linked policy y.deeds y.queue
  callers : ∀ i c, y.callers[i]? = some c → Consistent policy rounds y.deeds i c

theorem kept_fresh (policy : RetryPolicy) (rounds n : Nat) : Kept policy rounds (fresh policy n) where
  policy_eq := rfl
  linked := rfl
  callers i c found := by
    have idle := List.mem_of_getElem? found
    rw [List.eq_of_mem_replicate idle]
    exact consistent_fresh i

/-- A new deed, if there is one, is the caller's own. -/
theorem Kept.set {y : System} (h : Kept policy rounds y) {i : Nat} {c : Caller} {deeds : List Deed}
    (own : Consistent policy rounds deeds i c)
    (others : deeds = y.deeds ∨ ∃ d, deeds = d :: y.deeds ∧ d.caller = i) :
    ∀ j c', (y.callers.set i c)[j]? = some c' → Consistent policy rounds deeds j c' := by
  intro j c' found
  rw [List.getElem?_set] at found
  split at found
  · rename_i same
    subst same
    split at found
    · cases found
      exact own
    · cases found
  · rename_i other
    rcases others with rfl | ⟨d, rfl, rfl⟩
    · exact h.callers j c' found
    · exact (h.callers j c' found).of_other other

theorem Kept.go {y : System} (h : Kept policy rounds y) (i : Nat) (around : Surroundings) :
    Kept policy rounds (y.go i around) := by
  obtain ⟨rfl, linked, callers⟩ := h
  unfold System.go
  split
  · exact ⟨rfl, linked, callers⟩
  · rename_i c found
    have own := callers i c found
    split
    · rename_i u a next current
      refine ⟨rfl, ⟨rfl, linked⟩, ?_⟩
      exact Kept.set ⟨rfl, linked, callers⟩ (own.deed linked.sound current _)
        (.inr ⟨_, rfl, rfl⟩)
    · rename_i u s next other current
      have noAccess : ∀ a, s ≠ .access a := by
        rintro a rfl
        exact other a next rfl .rfl
      refine ⟨rfl, linked, ?_⟩
      exact Kept.set ⟨rfl, linked, callers⟩ (own.other current noAccess _) (.inl rfl)
    · exact ⟨rfl, linked, callers⟩

theorem Kept.step {y : System} (h : Kept policy rounds y) (e : Event) :
    Kept policy rounds (y.step rounds e) := by
  cases e with
  | go i around => exact h.go i around
  | begin i u =>
    simp only [System.step]
    split
    · exact h
    · rename_i c found
      exact ⟨h.policy_eq, h.linked, h.set ((h.callers i c found).begin u) (.inl rfl)⟩

theorem Kept.run {y : System} (h : Kept policy rounds y) (events : List Event) :
    Kept policy rounds (y.run rounds events) := by
  induction events generalizing y with
  | nil => exact h
  | cons e events ih => exact ih (h.step e)

/-- No task is lost or doubled, in any run of any callers. -/
theorem run_keeps_each_task_once (policy : RetryPolicy) (rounds n : Nat) (events : List Event) :
    let y := (fresh policy n).run rounds events
    y.queue.ids.Nodup ∧
    (∀ e ∈ y.queue.inFlight, e.1 = e.2.task.id) ∧
    (∀ later d earlier t, y.deeds = later ++ d :: earlier → d.Accepts t →
      (∀ r ∈ later, ¬ r.Removes t.id) →
      ∃ u, y.queue.tasks.filter (·.id == t.id) = [u] ∧ t.SameWork u) ∧
    (∀ (i : Nat) (c : Caller), y.callers[i]? = some c → ∀ later t r earlier,
      c.history = later ++ ⟨.call (.enqueue t), r⟩ :: earlier →
      Told policy (y.deeds.filter (Deed.isOf i earlier.length)) t r) ∧
    (∀ later second between first earlier t u,
      y.deeds = later ++ second :: between ++ first :: earlier →
      first.popped? policy = some t → second.popped? policy = some u → u.id = t.id →
      ∃ r ∈ between, r.Returns policy t.id) := by
  intro y
  have kept : Kept policy rounds y := (kept_fresh policy rounds n).run events
  have sound : y.queue.Sound := kept.linked.sound
  refine ⟨sound.once, sound.keyed, ?_, ?_, ?_⟩
  · intro later d earlier t deeds accepts stays
    have linked := kept.linked
    rw [deeds] at linked
    obtain ⟨u, mem, work⟩ := linked.held accepts stays
    refine ⟨u, ?_, work⟩
    rw [← work.id_eq]
    exact tasks_filter_of_mem sound.once mem
  · intro i c found later t r earlier history
    exact (kept.callers i c found).ended later t r earlier history
  · intro later second between first earlier t u deeds popped again same
    have linked := kept.linked
    rw [deeds] at linked
    exact linked.returned_between popped again same

end System

end LocalQueue

end ClaimQueue
