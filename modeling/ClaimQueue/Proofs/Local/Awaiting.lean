import ClaimQueue.Local.Audience
import ClaimQueue.Proofs.Index
import ClaimQueue.Proofs.Local.Watch

/-! Where a wait for a result, or the saving of one, can stand between two of its steps, and what a
step of anyone does to results and announcements. -/

namespace ClaimQueue

namespace LocalQueue

abbrev AwaitSteps := Steps (Except QueueError (Option TaskResult))

/-- About to note how many announcements there were. -/
def noting (rounds : Nat) (id : String) (deadline : Span) : AwaitSteps :=
  (Program.loop (fun _ => Calls.awaitRound id deadline) rounds ()).bind fun r? => .done (.ok r?)

/-- After a vain look. -/
def dozing (rounds : Nat) (id : String) (deadline : Span) (seen : Nat) : AwaitSteps :=
  .ask (.attendResult seen deadline) fun told =>
    if told then noting rounds id deadline else .done (.ok none)

/-- About to look. -/
def peeking (rounds : Nat) (id : String) (deadline : Span) (seen : Nat) : AwaitSteps :=
  .ask (.access (.result id)) fun r? => match r? with
    | some r => .done (.ok (some r))
    | none => dozing rounds id deadline seen

theorem noting_succ (rounds : Nat) (id : String) (deadline : Span) :
    noting (rounds + 1) id deadline = .ask .announced fun seen =>
      peeking rounds id deadline seen := by
  refine congrArg (Program.ask (I := steps) .announced) (funext fun seen => ?_)
  refine congrArg (Program.ask (I := steps) (.access (.result id))) (funext fun r? => ?_)
  cases r? with
  | some r => rfl
  | none =>
    refine congrArg (Program.ask (I := steps) (.attendResult seen deadline)) (funext fun told => ?_)
    cases told <;> rfl

theorem answer_awaitResult (rounds : Nat) (id : String) (timeout : Span) :
    LocalQueue.answer rounds (.awaitResult id timeout) = .ask .elapsed fun start =>
      noting rounds id ⟨start.nanos + timeout.nanos⟩ := rfl

/-- The rest of a call that saves a result, once the queue has it. -/
def announcing : Steps (Except QueueError Unit) := .ask .announce fun _ => .done (.ok ())

theorem answer_publish (rounds : Nat) (r : TaskResult) :
    LocalQueue.answer rounds (.publish r) = .ask (.access (.save r)) fun _ => announcing := rfl

/-! What an access does to the results. -/

theorem perform_results (policy : RetryPolicy) (clock : Instant) (q : LocalQueue) (a : Access) :
    (a.perform policy clock q).2.results = match a with
      | .save r => Index.put r.taskId r q.results
      | _ => q.results := by
  cases a with
  | enqueue t =>
    simp only [Access.perform, enqueue?]
    split <;> rfl
  | take =>
    simp only [Access.perform, take?]
    cases q.pending <;> rfl
  | release id =>
    simp only [Access.perform, release?]
    cases q.inFlight.find? id <;> rfl
  | replay id =>
    simp only [Access.perform, replay?]
    cases q.dead.find? (isLetterFor id) <;> rfl
  | discard id =>
    simp only [Access.perform, discard?]
    split <;> rfl
  | _ => rfl

namespace Audience

variable {i : Nat} {c : Caller} {u : Undertaking} {s : Step} {next : s.Answer → Steps u.Outcome}

/-- What one step, taken by anyone, does to all that callers share. -/
structure Moved (m : Moment) (y y' : Audience) : Prop where
  record : y'.record = m :: y.record
  now : m.time = y.time
  time : y'.time = y.time
  announced : y'.announced = if m.step.announces then y.announced + 1 else y.announced
  results : y'.queue.results = match m.step with
    | .access (.save r) => Index.put r.taskId r y.queue.results
    | _ => y.queue.results
  deeds : ∀ d ∈ y.deeds, d ∈ y'.deeds
  saved : ∀ r, m.step = .access (.save r) → ∃ d ∈ y'.deeds, d.access = .save r

theorem go_eq {y : Audience} (found : y.callers[i]? = some c)
    (current : c.current = some ⟨u, .ask s next⟩) (awake : y.holds s = false)
    (around : Surroundings) : y.go i around = { y with
      toSystem := y.toSystem.go i (y.telling around)
      announced := if s.announces then y.announced + 1 else y.announced
      record := ⟨i, c.history.length, u, s, y.time⟩ :: y.record } := by
  obtain ⟨now, history⟩ := c
  cases current
  simp [Audience.go, found, awake]

theorem go_moved {y : Audience} (found : y.callers[i]? = some c)
    (current : c.current = some ⟨u, .ask s next⟩) (awake : y.holds s = false)
    (around : Surroundings) :
    Moved ⟨i, c.history.length, u, s, y.time⟩ y (y.go i around) := by
  rw [go_eq found current awake]
  cases s with
  | access a =>
    have deeds : (y.toSystem.go i (y.telling around)).deeds =
        ⟨i, c.history.length, a, y.telling around .clock, y.queue⟩ :: y.deeds := by
      simp only [System.go, found, current]
    refine ⟨rfl, rfl, rfl, rfl, ?_, fun d mem => ?_, fun r save => ?_⟩
    · show (y.toSystem.go i (y.telling around)).queue.results = _
      rw [(go_access found current _).1, perform_results]
      cases a <;> rfl
    · show d ∈ (y.toSystem.go i (y.telling around)).deeds
      rw [deeds]
      exact List.mem_cons_of_mem _ mem
    · cases save
      show ∃ d ∈ (y.toSystem.go i (y.telling around)).deeds, _
      rw [deeds]
      exact ⟨_, List.mem_cons_self, rfl⟩
  | _ =>
    have silent : (y.toSystem.go i (y.telling around)).queue = y.queue ∧
        (y.toSystem.go i (y.telling around)).deeds = y.deeds := by
      simp [System.go, found, current]
    refine ⟨rfl, rfl, rfl, rfl, congrArg LocalQueue.results silent.1, fun d mem => ?_,
      fun r save => (by cases save)⟩
    show d ∈ (y.toSystem.go i (y.telling around)).deeds
    rwa [silent.2]

theorem callers_of_told {y : Audience} (found : y.callers[i]? = some c)
    (current : c.current = some ⟨u, .ask s next⟩) (awake : y.holds s = false)
    (other : ∀ a, s ≠ .access a) (around : Surroundings) :
    (y.go i around).callers = y.callers.set i
      ({ c with current := some ⟨u, next (y.telling around s)⟩ } : Caller).settle := by
  rw [go_eq found current awake]
  exact (go_other found current other _).2

theorem callers_of_access {y : Audience} {a : Access} {next : a.Answer → Steps u.Outcome}
    (found : y.callers[i]? = some c) (current : c.current = some ⟨u, .ask (.access a) next⟩)
    (around : Surroundings) :
    (y.go i around).callers = y.callers.set i ({ c with
      current := some ⟨u, next (a.perform y.policy (around .clock) y.queue).1⟩ } : Caller).settle := by
  rw [go_eq found current rfl]
  exact (go_access found current _).2

theorem callers_of_go {y : Audience} (found : y.callers[i]? = some c)
    (current : c.current = some ⟨u, .ask s next⟩) (awake : y.holds s = false)
    (around : Surroundings) : ∃ q : Steps u.Outcome,
      (y.go i around).callers =
        y.callers.set i ({ c with current := some ⟨u, q⟩ } : Caller).settle := by
  cases s with
  | access a => exact ⟨_, callers_of_access found current around⟩
  | _ => exact ⟨_, callers_of_told found current awake (fun _ same => by cases same) around⟩

/-- A caller that is idle, has lost its way or sleeps does not move. -/
theorem go_still {y : Audience} (i : Nat) (around : Surroundings) : y.go i around = y ∨
    ∃ c u s next, y.callers[i]? = some c ∧ c.current = some ⟨u, .ask s next⟩ ∧
      y.holds s = false := by
  unfold Audience.go
  split
  · rename_i u s next history found
    split
    · exact .inl rfl
    · rename_i awake
      exact .inr ⟨_, u, s, next, found, rfl, by simpa using awake⟩
  · exact .inl rfl

section

variable {m : Moment} {y y' : Audience} (moved : Moved m y y')
include moved

theorem Moved.announced_le : y.announced ≤ y'.announced := by
  rw [moved.announced]
  split <;> omega

/-- A result may be replaced, but it does not go away. -/
theorem Moved.result? (id : String) :
    y'.queue.result? id = y.queue.result? id ∨
      ∃ r, m.step = .access (.save r) ∧ r.taskId = id ∧ y'.queue.result? id = some r := by
  have results := moved.results
  simp only [LocalQueue.result?]
  split at results
  · rename_i r save
    rw [results, Index.find?_put]
    split
    · rename_i same
      exact .inr ⟨r, save, same, rfl⟩
    · exact .inl rfl
  · rw [results]
    exact .inl rfl

theorem Moved.keeps_result {id : String} (there : (y.queue.result? id).isSome) :
    (y'.queue.result? id).isSome := by
  rcases moved.result? id with same | ⟨r, -, -, found⟩
  · rwa [same]
  · rw [found]
    rfl

end

end Audience

end LocalQueue

end ClaimQueue
