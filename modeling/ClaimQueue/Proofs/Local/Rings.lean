import ClaimQueue.Local.Callers

/-! Whoever brings tasks to a queue in memory goes on to ring for each of them, and only a pop that
may wait attends the bell. -/

namespace ClaimQueue

namespace LocalQueue

variable {α β σ : Type}

/-- The rings that come next, one after the other. -/
def owed : Steps α → Nat
  | .ask .ring next => owed (next ()) + 1
  | _ => 0

/-- After each access as many rings follow as tasks came to pending, and nobody attends the bell. -/
def Rings : Steps α → Prop
  | .ask (.access a) next =>
    (∀ policy clock q, (a.perform policy clock q).2.pending.length ≤
      q.pending.length + owed (next (a.perform policy clock q).1)) ∧ ∀ r, Rings (next r)
  | .ask (.attend _) _ => False
  | .ask _ next => ∀ r, Rings (next r)
  | _ => True

theorem owed_ask {s : Step} {next : s.Answer → Steps α} (silent : s ≠ .ring) :
    owed (.ask s next) = 0 := by
  cases s with
  | ring => exact (silent rfl).elim
  | _ => rfl

theorem Rings.next {s : Step} {next : s.Answer → Steps α} (h : Rings (.ask s next)) (r : s.Answer) :
    Rings (next r) := by
  cases s with
  | access a => exact h.2 r
  | attend => exact h.elim
  | _ => exact h r

theorem owed_le_bind (p : Steps α) (f : α → Steps β) : owed p ≤ owed (p.bind f) := by
  induction p with
  | done a => exact Nat.zero_le _
  | spent => exact Nat.zero_le _
  | ask s next ih =>
    cases s with
    | ring => exact Nat.succ_le_succ (ih ())
    | _ => exact Nat.zero_le _

theorem Rings.bind {p : Steps α} {f : α → Steps β} (h : Rings p) (more : ∀ a, Rings (f a)) :
    Rings (p.bind f) := by
  induction p with
  | done a => exact more a
  | spent => trivial
  | ask s next ih =>
    cases s with
    | access a =>
      refine ⟨fun policy clock q => ?_, fun r => ih r (h.2 r)⟩
      exact Nat.le_trans (h.1 policy clock q) (Nat.add_le_add_left (owed_le_bind _ f) _)
    | attend => exact h.elim
    | clock | elapsed | ring | announce | announced | attendResult => exact fun r => ih r (h r)

theorem rings_loop {body : σ → Steps (σ ⊕ α)} (round : ∀ s, Rings (body s)) (rounds : Nat) (s : σ) :
    Rings (Program.loop body rounds s) := by
  induction rounds generalizing s with
  | zero => trivial
  | succ rounds ih =>
    refine (round s).bind fun r => ?_
    cases r with
    | inl s => exact ih s
    | inr a => trivial

/-! Accesses. -/

/-- An access that brings nothing to pending. -/
def BringsNothing (a : Access) : Prop :=
  ∀ policy clock (q : LocalQueue), (a.perform policy clock q).2.pending.length ≤ q.pending.length

theorem BringsNothing.rings {a : Access} (h : BringsNothing a) : Rings (access a) :=
  ⟨fun policy clock q => h policy clock q, fun _ => trivial⟩

theorem take_brings_nothing : BringsNothing .take := by
  intro policy clock q
  cases pending : q.pending with
  | nil => simp [Access.perform, take?, pending]
  | cons t rest => simp [Access.perform, take?, pending]

theorem discard_brings_nothing (id : String) : BringsNothing (.discard id) := by
  intro policy clock q
  simp only [Access.perform, discard?]
  split <;> exact Nat.le_refl _

theorem ack_brings_nothing (id : String) : BringsNothing (.ack id) := fun _ _ _ => Nat.le_refl _

theorem counts_brings_nothing (now : Instant) : BringsNothing (.counts now) :=
  fun _ _ _ => Nat.le_refl _

theorem deadLetters_brings_nothing (limit : Nat) : BringsNothing (.deadLetters limit) :=
  fun _ _ _ => Nat.le_refl _

theorem save_brings_nothing (r : TaskResult) : BringsNothing (.save r) := fun _ _ _ => Nat.le_refl _

theorem result_brings_nothing (id : String) : BringsNothing (.result id) :=
  fun _ _ _ => Nat.le_refl _

theorem resultIds_brings_nothing : BringsNothing .resultIds := fun _ _ _ => Nat.le_refl _

/-- One ring follows an access that was accepted, and none one that was not. -/
theorem accepted_le {q : LocalQueue} {after? : Option LocalQueue}
    (one : ∀ after, after? = some after → after.pending.length ≤ q.pending.length + 1) :
    (Access.accepted q after?).2.pending.length ≤
      q.pending.length + owed (ringIf (Access.accepted q after?).1) := by
  cases after? with
  | none => exact Nat.le_add_right _ _
  | some after => exact one after rfl

theorem rings_ringIf (b : Bool) : Rings (ringIf b) := by
  cases b with
  | false => trivial
  | true => exact fun _ => trivial

theorem owed_ringTimes (n : Nat) : owed (ringTimes n) = n := by
  induction n with
  | zero => rfl
  | succ n ih => exact congrArg Nat.succ ih

theorem rings_ringTimes (n : Nat) : Rings (ringTimes n) := by
  induction n with
  | zero => trivial
  | succ n ih => exact fun _ => ih

/-! Calls. -/

theorem rings_enqueue (t : Task) : Rings (access (.enqueue t) >>= ringIf) := by
  refine ⟨fun policy clock q => accepted_le fun after done => ?_, rings_ringIf⟩
  simp only [enqueue?] at done
  split at done <;> cases done
  simp

theorem rings_release (id : String) : Rings (access (.release id) >>= ringIf) := by
  refine ⟨fun policy clock q => accepted_le fun after done => ?_, rings_ringIf⟩
  simp only [release?, Option.map_eq_some_iff] at done
  obtain ⟨c, -, rfl⟩ := done
  simp

theorem rings_replay (id : String) : Rings (access (.replay id) >>= ringIf) := by
  refine ⟨fun policy clock q => accepted_le fun after done => ?_, rings_ringIf⟩
  simp only [replay?, Option.map_eq_some_iff] at done
  obtain ⟨d, -, rfl⟩ := done
  simp

theorem rings_reclaim (idle : Span) (batch : Nat) : Rings (Calls.reclaim idle batch) := by
  refine fun now => ⟨fun policy clock q => ?_, fun n => (rings_ringTimes n).bind fun _ => trivial⟩
  have rung := owed_le_bind (ringTimes (q.reclaim policy now idle batch).1) fun _ =>
    (.done (q.reclaim policy now idle batch).1 : Steps Nat)
  rw [owed_ringTimes] at rung
  refine Nat.le_trans (Nat.le_of_eq ?_) (Nat.add_le_add_left rung _)
  simp [Access.perform, reclaim]

theorem rings_pop (rounds : Nat) (timeout : Span) : Rings (Calls.pop rounds false timeout) := by
  refine fun start => rings_loop (fun _ => take_brings_nothing.rings.bind fun t? => ?_) rounds ()
  cases t? <;> trivial

theorem rings_awaitResult (rounds : Nat) (id : String) (timeout : Span) :
    Rings (Calls.awaitResult rounds id timeout) := by
  refine fun start => rings_loop (fun _ => ?_) rounds ()
  refine fun seen => (result_brings_nothing id).rings.bind fun r? => ?_
  cases r? with
  | some r => trivial
  | none =>
    intro heard
    cases heard <;> trivial

theorem rings_nextResult (kind : Option TaskKind) (ids : List String) :
    Rings (Calls.nextResult kind ids) := by
  induction ids with
  | nil => trivial
  | cons id rest ih =>
    refine (result_brings_nothing id).rings.bind fun r? => ?_
    cases r? with
    | none => exact ih
    | some r =>
      show Rings (if _ then _ else _)
      split
      · trivial
      · exact ih

theorem rings_results (kind : Option TaskKind) (ids : List String) :
    Rings (Calls.results kind ids) := by
  refine rings_loop (fun (left, found) => (rings_nextResult kind left).bind fun next => ?_) _ _
  cases next <;> trivial

/-- All but a pop that may wait. -/
theorem rings_work (rounds : Nat) {u : Undertaking} (other : ∀ t, u ≠ .call (.pop true t)) :
    Rings (u.work rounds) := by
  cases u with
  | result id => exact (result_brings_nothing id).rings
  | list kind => exact resultIds_brings_nothing.rings.bind fun ids => rings_results kind ids
  | call c =>
    cases c with
    | enqueue t =>
      refine (rings_enqueue t).bind fun accepted => ?_
      cases accepted <;> trivial
    | pop block timeout =>
      cases block with
      | true => exact (other timeout rfl).elim
      | false => exact (rings_pop rounds timeout).bind fun _ => trivial
    | ack id => exact (ack_brings_nothing id).rings.bind fun _ => trivial
    | release id => exact (rings_release id).bind fun _ => trivial
    | publish r =>
      have saved : Rings (Calls.save r) := (save_brings_nothing r).rings.bind fun _ _ => trivial
      exact saved.bind fun _ => trivial
    | awaitResult id timeout => exact (rings_awaitResult rounds id timeout).bind fun _ => trivial
    | reclaim idle batch => exact (rings_reclaim idle batch).bind fun _ => trivial
    | prune idle => trivial
    | counts => exact fun now => (counts_brings_nothing now).rings.bind fun _ => trivial
    | deadLetters limit => exact (deadLetters_brings_nothing limit).rings.bind fun _ => trivial
    | replay id => exact (rings_replay id).bind fun _ => trivial
    | discard id => exact (discard_brings_nothing id).rings.bind fun _ => trivial

end LocalQueue

end ClaimQueue
