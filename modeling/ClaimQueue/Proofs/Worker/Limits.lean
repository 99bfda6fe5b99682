import ClaimQueue.Proofs.Worker.Runs

/-! A worker's limits, by what it was told: tasks that it finished, the time since it started, and
the time since then or since its last finished task. Each pop keeps to them, and when the worker
leaves the first of the reasons that hold is given. -/

namespace ClaimQueue

namespace Worker

/-! What can be told from the exchanges. -/

/-- How many claimed tasks have a result that was accepted before the next claim; `results` are the
ids of those accepted since. -/
def servedWith : Told → (results : List String) → Nat
  | [], _ => 0
  | ⟨.pop _, some (.ok (some t))⟩ :: past, results =>
    servedWith past [] + if results.contains t.id then 1 else 0
  | ⟨.publish r, .ok ()⟩ :: past, results => servedWith past (r.taskId :: results)
  | _ :: past, results => servedWith past results

def served (past : Told) : Nat := servedWith past []

/-- The times that were looked at otherwise than with the flag: at the start, and whenever a task
was finished. The latest first. -/
def marks : Told → List Span
  | ⟨.elapsed, _⟩ :: ⟨.stopSeen, _⟩ :: past => marks past
  | ⟨.elapsed, now⟩ :: past => now :: marks past
  | _ :: past => marks past
  | [] => []

/-- What a worker knows when it decides whether to go on. -/
structure Reading where
  stop : Bool
  now : Span
  started : Span
  /-- Start, or end of the last finished task. -/
  since : Span
  served : Nat

/-- The last thing that was done was to look at flag and time. -/
def Checked (past : Told) (r : Reading) : Prop :=
  ∃ before, past = ⟨.elapsed, r.now⟩ :: ⟨.stopSeen, r.stop⟩ :: before ∧ r.served = served before ∧
    (marks before).getLast? = some r.started ∧ (marks before).head? = some r.since ∧
    (marks before).length = r.served + 1

namespace Reading

def uptime (r : Reading) : Nat := r.now.nanos - r.started.nanos

def idle (r : Reading) : Nat := r.now.nanos - r.since.nanos

/-- Whether there is this reason to leave. -/
def holds (c : Config) (r : Reading) : Reason → Bool
  | .shutdown => r.stop
  | .completed => decide (c.tasks ≤ r.served)
  | .maxUptime => match c.uptimeLimit with
    | some limit => decide (limit.nanos ≤ r.uptime)
    | none => false
  | .idleTimeout => decide (c.idleLimit.nanos ≤ r.idle)

end Reading

/-- The reasons to leave, those that count before others first. -/
def reasons : List Reason := [.shutdown, .completed, .maxUptime, .idleTimeout]

/-- A wait within all limits, and no longer than they last. -/
structure Room (c : Config) (r : Reading) (wait : Span) : Prop where
  stop : r.stop = false
  tasks : r.served < c.tasks
  uptime : ∀ limit, c.uptimeLimit = some limit → r.uptime < limit.nanos
  idle : r.idle < c.idleLimit.nanos
  positive : 0 < c.poll.nanos → 0 < wait.nanos
  poll : wait.nanos ≤ c.poll.nanos
  idleLeft : wait.nanos ≤ c.idleLimit.nanos - r.idle
  uptimeLeft : ∀ limit, c.uptimeLimit = some limit → wait.nanos ≤ limit.nanos - r.uptime

/-- A pop for which there was room when the worker looked last. -/
structure Within (c : Config) (past : Told) (wait : Span) (r : Reading) : Prop
    extends Room c r wait where
  checked : Checked past r
  unstopped : ∀ x ∈ past, x ≠ ⟨.stopSeen, true⟩

/-- How a worker leaves in good order. -/
structure Leaves (c : Config) (past : Told) (e : Exit) (r : Reading) : Prop where
  checked : Checked past r
  completed : e.completed = served past
  most : e.completed ≤ c.tasks
  all : e.reason = .completed → e.completed = c.tasks
  reason : reasons.find? (r.holds c) = some e.reason

theorem least_nanos (s t : Span) : (s.least t).nanos = min s.nanos t.nanos := by
  unfold Span.least
  split <;> omega

theorem isZero_less (s t : Span) : (s.less t).isZero = decide (s.nanos ≤ t.nanos) := by
  have same : s.nanos - t.nanos = 0 ↔ s.nanos ≤ t.nanos := Nat.sub_eq_zero_iff_le
  rw [Span.isZero, Span.less, ← decide_eq_decide.mpr same]
  exact Bool.beq_eq_decide_eq ..

namespace Reading

def idleLeft (c : Config) (r : Reading) : Span := c.idleLimit.less (r.now.less r.since)

def uptimeLeft (c : Config) (r : Reading) : Span :=
  match c.uptimeLimit with
  | some limit => limit.less (r.now.less r.started)
  | none => .longest

theorem isZero_idleLeft (c : Config) (r : Reading) :
    (r.idleLeft c).isZero = r.holds c .idleTimeout := isZero_less _ _

theorem isZero_uptimeLeft (c : Config) (r : Reading) :
    (r.uptimeLeft c).isZero = r.holds c .maxUptime := by
  unfold uptimeLeft holds
  cases c.uptimeLimit with
  | none => rfl
  | some limit => exact isZero_less _ _

end Reading

/-- The first reason that holds decides. -/
theorem next_eq (c : Config) (r : Reading) :
    next c r.started r.now r.stop ⟨r.served, r.since⟩ =
      match reasons.find? (r.holds c) with
      | some reason => .inl reason
      | none => .inr ((c.poll.least (r.idleLeft c)).least (r.uptimeLeft c)) := by
  have tasks : (c.tasks ≤ r.served) = (r.holds c .completed = true) := by simp [Reading.holds]
  show (if r.holds c .shutdown then .inl .shutdown
    else if c.tasks ≤ r.served then .inl .completed
    else if (r.uptimeLeft c).isZero then .inl .maxUptime
    else if (r.idleLeft c).isZero then .inl .idleTimeout
    else .inr ((c.poll.least (r.idleLeft c)).least (r.uptimeLeft c)) : Reason ⊕ Span) = _
  simp only [r.isZero_uptimeLeft, r.isZero_idleLeft, tasks, reasons, List.find?_cons,
    List.find?_nil]
  cases r.holds c .shutdown <;> cases r.holds c .completed <;> cases r.holds c .maxUptime <;>
    cases r.holds c .idleTimeout <;> rfl

theorem holds_eq_false {c : Config} {r : Reading} (stays : reasons.find? (r.holds c) = none)
    (reason : Reason) : r.holds c reason = false := by
  have all := List.find?_eq_none.mp stays reason
  cases reason <;> simpa [reasons] using all

theorem room_of_stays {c : Config} {r : Reading} (stays : reasons.find? (r.holds c) = none) :
    Room c r ((c.poll.least (r.idleLeft c)).least (r.uptimeLeft c)) := by
  have idle : r.idle < c.idleLimit.nanos := by
    simpa [Reading.holds] using holds_eq_false stays .idleTimeout
  refine ⟨holds_eq_false stays .shutdown, ?_, fun limit limited => ?_, idle, fun some => ?_, ?_, ?_,
    fun limit limited => ?_⟩
  · simpa [Reading.holds] using holds_eq_false stays .completed
  · simpa [Reading.holds, limited] using holds_eq_false stays .maxUptime
  · have idleLeft : 0 < (r.idleLeft c).nanos := Nat.sub_pos_of_lt idle
    have uptimeLeft : 0 < (r.uptimeLeft c).nanos := by
      have zero := r.isZero_uptimeLeft c
      rw [holds_eq_false stays] at zero
      exact Nat.pos_of_ne_zero (beq_eq_false_iff_ne.mp zero)
    rw [least_nanos, least_nanos]
    exact Nat.lt_min.mpr ⟨Nat.lt_min.mpr ⟨some, idleLeft⟩, uptimeLeft⟩
  · rw [least_nanos, least_nanos]
    omega
  · rw [least_nanos, least_nanos]
    exact Nat.le_trans (Nat.min_le_left _ _) (Nat.min_le_right _ _)
  · rw [least_nanos, Reading.uptimeLeft, limited]
    exact Nat.min_le_right _ _

/-! What exchanges count for. -/

/-- A result for the task was accepted. -/
def answered (t : Task) : Exchange asks → Bool
  | ⟨.publish r, .ok ()⟩ => r.taskId == t.id
  | _ => false

section Counted

variable {past new : Told} {t : Task} {results : List String}

/-- From the claim on, the exchanges count for this task alone. -/
theorem servedWith_own (own : ∀ x ∈ new, x.1.isOwn) (wait : Span) :
    servedWith (new ++ claiming wait t past) results =
      served past + if results.contains t.id || new.any (answered t) then 1 else 0 := by
  induction new generalizing results with
  | nil => simp [servedWith, claiming, served]
  | cons x new ih =>
    rw [List.forall_mem_cons] at own
    have more := @ih results own.2
    obtain ⟨q, r⟩ := x
    cases q with
    | stopSeen | elapsed | pop | pause => cases own.1
    | publish result =>
      cases r with
      | error e => exact more
      | ok =>
        -- It joins the results that are looked through at the claim.
        have either : ((result.taskId :: results).contains t.id || new.any (answered t)) =
            (results.contains t.id || (result.taskId == t.id || new.any (answered t))) := by
          rw [List.contains_cons, BEq.comm, Bool.or_comm (_ == _), Bool.or_assoc]
        have counted := @ih (result.taskId :: results) own.2
        rw [either] at counted
        exact counted
    | labour | clock | ack | release => exact more

theorem served_own (own : ∀ x ∈ new, x.1.isOwn) (wait : Span) :
    served (new ++ claiming wait t past) = served past + if new.any (answered t) then 1 else 0 :=
  servedWith_own own wait

theorem marks_own (own : ∀ x ∈ new, x.1.isOwn) (wait : Span) :
    marks (new ++ claiming wait t past) = marks past := by
  induction new with
  | nil => rfl
  | cons x new ih =>
    rw [List.forall_mem_cons] at own
    obtain ⟨q, r⟩ := x
    cases q with
    | stopSeen | elapsed | pop | pause => cases own.1
    | publish | labour | clock | ack | release => exact ih own.2

/-- The time that is looked at after a task counts. -/
theorem marks_finish (own : ∀ x ∈ new, x.1.isOwn) (wait now : Span) :
    marks (⟨.elapsed, now⟩ :: (new ++ claiming wait t past)) = now :: marks past := by
  have before := @marks_own past new t own wait
  cases new with
  | nil => rfl
  | cons x new =>
    rw [List.forall_mem_cons] at own
    obtain ⟨q, r⟩ := x
    cases q with
    | stopSeen | elapsed | pop | pause => cases own.1
    | publish | labour | clock | ack | release => exact congrArg (now :: ·) before

end Counted

/-! What becomes of a claimed task tells whether a result for it was accepted. -/

section Answered

open Job

variable {t : Task} {past : Told}

/-- The job ends, and then it is known whether a result was accepted. -/
abbrev Tells {α : Type} (t : Task) (known : α → Bool) : Job α → Told → Prop :=
  Keeps (fun _ _ => True) (fun now a => now.any (answered t) = known a) (fun _ _ => True)

theorem must_tells {known : Bool} (a : Act)
    (counts : ∀ x, act? x = some (a, .ok ()) → (answered t x || past.any (answered t)) = known) :
    Tells t (fun _ => known) (must a.call) past := by
  refine Program.Keeps.bind (a.call_keeps trivial) ?_ ?_
  · rintro _ r ⟨answer, x, same, rfl, act⟩
    cases same
    cases r with
    | ok => exact counts x act
    | error e => trivial
  · rintro _ ⟨_, _, none, -⟩
    cases none

theorem must_publish {r : TaskResult} (same : r.taskId = t.id) :
    Tells t (fun _ => true) (must (ask (.publish r))) past := by
  refine must_tells (.publish r) fun x act => ?_
  rw [eq_of_act?_publish act, answered, same, beq_self_eq_true, Bool.true_or]

theorem must_more (a : Act) (done : past.any (answered t) = true) :
    Tells t (fun _ => true) (must a.call) past :=
  must_tells a fun x _ => by rw [done, Bool.or_true]

theorem settle_more (id : String) (r : TaskResult) (done : past.any (answered t) = true) :
    Tells t (fun _ => true) (settle id r) past := by
  unfold settle
  split
  · exact must_more (.ack id) done
  · split
    · exact keeps_pure done
    · exact must_more (.ack id) done
  · exact must_more (.release id) done

theorem handBack_tells (id : String) : Tells t (· == .finished) (handBack id) [] := by
  have unanswered : Tells t (fun _ => false) (must (ask (.release id))) [] :=
    must_tells (.release id) fun x act => by
      unfold act? at act
      split at act <;> cases act
      rfl
  exact unanswered.bind fun now _ told => keeps_pure told

theorem refuse_tells (e : WireError) : Tells t (· == .finished) (refuse t e) [] := by
  refine (keeps_ask trivial).bind fun past now _ => ?_
  refine (must_publish rfl).bind fun past _ done => ?_
  exact (must_more (.ack t.id) done).bind fun past _ done => keeps_pure done

theorem taskId_of_resultOf {now : Instant} {o : Outcome} {r : TaskResult}
    (result : resultOf t now o = .ok r) : r.taskId = t.id := by
  cases o with
  | fault => cases result
  | done | skip | failed =>
    cases result
    rfl

theorem execute_tells (h : Handler) : Tells t (· == .finished) (execute h t) [] := by
  refine (keeps_ask trivial).bind fun past outcome _ => ?_
  refine (keeps_ask trivial).bind fun past now _ => ?_
  split
  · exact keeps_throw trivial
  · rename_i r result
    refine (must_publish (taskId_of_resultOf result)).bind fun past _ done => ?_
    exact (settle_more t.id r done).bind fun past _ done => keeps_pure done

/-- A task is finished if a result for it was accepted, and else handed back. -/
theorem process_tells (w : Template) (t : Task) :
    Tells t (· == .finished) (process w t) [] := by
  unfold process
  split
  · split
    · exact refuse_tells _
    · split
      · exact handBack_tells t.id
      · exact execute_tells _
  · exact handBack_tells t.id

end Answered

/-! The whole run. -/

/-- A pop keeps to the limits. -/
def Fits (c : Config) (past : Told) (q : Ask) : Prop :=
  ∀ wait, q = .pop wait → ∃ r, Within c past wait r

/-- A worker that has not failed leaves for a reason. -/
def Over (c : Config) (past : Told) : Except Error Exit → Prop
  | .ok e => ∃ r, Leaves c past e r
  | .error _ => True

theorem fits_of_isOwn {c : Config} {past : Told} {q : Ask} (own : q.isOwn) : Fits c past q := by
  rintro wait rfl
  cases own

/-- What a worker keeps in mind agrees with what it was told. -/
structure Standing (c : Config) (started : Span) (past : Told) (p : Progress) : Prop where
  served : served past = p.completed
  started : (marks past).getLast? = some started
  since : (marks past).head? = some p.idleSince
  count : (marks past).length = p.completed + 1
  tasks : p.completed ≤ c.tasks
  unseen : ∀ x ∈ past, x ≠ ⟨.stopSeen, true⟩

theorem standing_start (c : Config) (started : Span) :
    Standing c started [⟨.elapsed, started⟩] ⟨0, started⟩ :=
  ⟨rfl, rfl, rfl, rfl, Nat.zero_le _, by simp⟩

namespace Standing

variable {c : Config} {started : Span} {past : Told} {p : Progress}

theorem cons (h : Standing c started past p) {x : Exchange asks}
    (served : Worker.served (x :: past) = Worker.served past)
    (marks : Worker.marks (x :: past) = Worker.marks past) (unset : x ≠ ⟨.stopSeen, true⟩) :
    Standing c started (x :: past) p where
  served := served.trans h.served
  started := marks.symm ▸ h.started
  since := marks.symm ▸ h.since
  count := marks.symm ▸ h.count
  tasks := h.tasks
  unseen := List.forall_mem_cons.mpr ⟨unset, h.unseen⟩

theorem check (h : Standing c started past p) (now : Span) :
    Standing c started (⟨.elapsed, now⟩ :: ⟨.stopSeen, false⟩ :: past) p where
  served := h.served
  started := h.started
  since := h.since
  count := h.count
  tasks := h.tasks
  unseen := by simpa using h.unseen

theorem checked (h : Standing c started past p) (stop : Bool) (now : Span) :
    Checked (⟨.elapsed, now⟩ :: ⟨.stopSeen, stop⟩ :: past)
      ⟨stop, now, started, p.idleSince, p.completed⟩ :=
  ⟨past, rfl, h.served.symm, h.started, h.since, h.count⟩

theorem leaves (h : Standing c started past p) {stop : Bool} {now : Span} {reason : Reason}
    (found : reasons.find? (Reading.holds c ⟨stop, now, started, p.idleSince, p.completed⟩) =
      some reason) :
    Leaves c (⟨.elapsed, now⟩ :: ⟨.stopSeen, stop⟩ :: past) ⟨reason, p.completed⟩
      ⟨stop, now, started, p.idleSince, p.completed⟩ where
  checked := h.checked stop now
  completed := h.served.symm
  most := h.tasks
  all same := by
    have enough := List.find?_some found
    rw [show reason = .completed from same] at enough
    exact Nat.le_antisymm h.tasks (of_decide_eq_true enough)
  reason := found

variable {new : Told} {t : Task} {wait : Span}

theorem unseen_own (h : Standing c started past p) (own : ∀ x ∈ new, x.1.isOwn) :
    ∀ x ∈ new ++ claiming wait t past, x ≠ ⟨.stopSeen, true⟩ := by
  intro x mem
  rcases List.mem_append.mp mem with mem | mem
  · rintro rfl
    cases own _ mem
  · rcases List.mem_cons.mp mem with rfl | mem
    · exact fun same => by cases same
    · exact h.unseen x mem

theorem finish (h : Standing c started past p) (left : p.completed < c.tasks)
    (own : ∀ x ∈ new, x.1.isOwn) (told : new.any (answered t) = true) (now : Span) :
    Standing c started (⟨.elapsed, now⟩ :: (new ++ claiming wait t past))
      ⟨p.completed + 1, now⟩ where
  served := by
    have counted := @served_own past new t own wait
    rw [told, if_pos rfl, h.served] at counted
    exact counted
  started := by
    rw [marks_finish own, List.getLast?_cons, h.started]
    rfl
  since := by
    rw [marks_finish own]
    rfl
  count := by
    rw [marks_finish own, List.length_cons, h.count]
  tasks := left
  unseen := List.forall_mem_cons.mpr ⟨fun same => (by cases same), h.unseen_own own⟩

theorem reject (h : Standing c started past p) (own : ∀ x ∈ new, x.1.isOwn)
    (told : new.any (answered t) = false) :
    Standing c started (⟨.pause c.backoff, ()⟩ :: (new ++ claiming wait t past)) p where
  served := by
    have counted := @served_own past new t own wait
    rw [told, if_neg Bool.false_ne_true, h.served] at counted
    exact counted
  started := (marks_own own wait).symm ▸ h.started
  since := (marks_own own wait).symm ▸ h.since
  count := (marks_own own wait).symm ▸ h.count
  tasks := h.tasks
  unseen := List.forall_mem_cons.mpr ⟨fun same => (by cases same), h.unseen_own own⟩

end Standing

/-- After a round: it stands as it should for the next one, or is over. -/
def Onward (c : Config) (started : Span) (now : Told) :
    Option (Progress ⊕ Except Error Exit) → Prop
  | some (.inl p) => Standing c started now p
  | some (.inr r) => Over c now r
  | none => False

section Limits

variable {w : Template} {started : Span} {p : Progress} {past : Told}

theorem serve_limits (wait : Span) (t : Task) (standing : Standing w.config started past p)
    (left : p.completed < w.config.tasks) :
    (serve w p t).Keeps (Fits w.config) (Onward w.config started) (claiming wait t past) := by
  have alone := ((process_keeps w t).and (process_tells w t)).all
    (fun _ _ fit => fit.1.isOwn) fun _ none => (List.not_mem_nil none).elim
  refine ((alone.after (claiming wait t past)).mono ?_ fun _ _ told => told).bind ?_ ?_
  · rintro _ q ⟨new, rfl, fit, -⟩
    exact fits_of_isOwn fit.1.isOwn
  · rintro _ (e | d) ⟨new, rfl, ⟨-, tells⟩, own⟩
    -- What is told beyond the claim is the task's own, so it moves no mark.
    · trivial
    · have told : new.any (answered t) = (d == .finished) := tells
      cases d with
      | finished =>
        exact ⟨fun _ same => (by cases same), fun now => standing.finish left own told now⟩
      | rejected =>
        exact ⟨fun _ same => (by cases same), fun _ => standing.reject own told⟩
  · rintro _ ⟨_, _, ⟨none, -⟩, -⟩
    exact none.elim

theorem round_limits (standing : Standing w.config started past p) :
    (round w started p).Keeps (Fits w.config) (Onward w.config started) past := by
  refine ⟨fun _ same => (by cases same), fun stop => ⟨fun _ same => (by cases same), fun now => ?_⟩⟩
  have checked := standing.checked stop now
  have decided := next_eq w.config ⟨stop, now, started, p.idleSince, p.completed⟩
  simp only [Program.bind] at decided ⊢
  rw [decided]
  let r : Reading := ⟨stop, now, started, p.idleSince, p.completed⟩
  cases found : reasons.find? (r.holds w.config) with
  | some reason => exact ⟨_, standing.leaves found⟩
  | none =>
    have room := room_of_stays found
    obtain rfl : stop = false := room.stop
    have standing := standing.check now
    refine ⟨fun wait same => ?_, fun popped => ?_⟩
    · cases same
      exact ⟨_, room, checked, standing.unseen⟩
    · rcases popped with _ | e | _ | t
      · exact standing.cons rfl rfl fun same => by cases same
      · trivial
      · exact standing.cons rfl rfl fun same => by cases same
      · exact serve_limits _ t standing room.tasks

theorem run_limits (rounds : Nat) (w : Template) : (run rounds w).Keeps (Fits w.config)
    (fun now r => match r with
      | some r => Over w.config now r
      | none => True) [] := by
  refine ⟨fun _ same => (by cases same), fun started => ?_⟩
  refine Program.keeps_loop (Standing w.config started) (fun past p standing => ?_)
    (fun _ _ _ => trivial) rounds (standing_start w.config started)
  exact (round_limits standing).mono (fun _ _ fit => fit) fun now r onward => by
    rcases r with _ | (_ | _) <;> exact onward

end Limits

/-- A worker's run, whatever it is told and wherever it stands. Each pop comes right after a look at
the flag, which no look has found set, and at the time: with fewer tasks finished than it may take,
and within its uptime and its patience; and it waits no longer than these last, but not in vain. A
worker that leaves in good order says how many of its claims have a result, at most as many as it may
take, and gives the first reason that held when it looked last. -/
theorem run_respects_limits (rounds : Nat) (w : Template) {past : Told}
    {p : Program asks (Except Error Exit)} (reaches : (run rounds w).Reaches past p) :
    (∀ later wait answer earlier, past = later ++ ⟨.pop wait, answer⟩ :: earlier →
      ∃ r, Within w.config earlier wait r) ∧
    match p with
    | .ask q _ => Fits w.config past q
    | .done r => Over w.config past r
    | .spent => True := by
  have limits := run_limits rounds w
  have now := limits.of_reaches reaches
  refine ⟨fun later wait answer earlier split => limits.asked reaches split wait rfl, ?_⟩
  cases p with
  | ask q next => exact now.1
  | done r => exact now
  | spent => trivial

private def hem : Task := ⟨.render, "hem", [], .empty, 0, .epoch, 1⟩

/-- Would sew two hems, if she had the time. -/
private def seamstress : Template where
  registry := ⟨[⟨"sew", .render, .empty, fun _ => ⟨⟨0⟩, .done []⟩⟩]⟩
  config := { tasks := 2, uptimeLimit := some (.ofSeconds 9) }

private def pops (past : Told) : Nat :=
  past.countP fun | ⟨.pop _, _⟩ => true | _ => false

/-- Each wait takes four seconds, and the second one is for a hem. -/
private def afternoon : (q : Ask) → Told → q.Answer
  | .stopSeen, _ => false
  | .elapsed, past => .ofSeconds (4 * pops past)
  | .clock, _ => .epoch
  | .pop _, past => some (.ok (if pops past = 1 then some hem else none))
  | .release _, _ | .ack _, _ | .publish _, _ => .ok ()
  | .labour work, _ => work.outcome
  | .pause _, _ => ()

private def stitches : Told := [
  ⟨.elapsed, .ofSeconds 12⟩, ⟨.stopSeen, false⟩,
  ⟨.pop (.ofSeconds 1), some (.ok none)⟩, ⟨.elapsed, .ofSeconds 8⟩, ⟨.stopSeen, false⟩,
  ⟨.elapsed, .ofSeconds 8⟩, ⟨.ack "hem", .ok ()⟩, ⟨.publish (.ok hem [] .epoch), .ok ()⟩,
  ⟨.clock, .epoch⟩, ⟨.labour ⟨⟨0⟩, .done []⟩, .done []⟩,
  ⟨.pop (.ofSeconds 5), some (.ok (some hem))⟩, ⟨.elapsed, .ofSeconds 4⟩, ⟨.stopSeen, false⟩,
  ⟨.pop (.ofSeconds 5), some (.ok none)⟩, ⟨.elapsed, .ofSeconds 0⟩, ⟨.stopSeen, false⟩,
  ⟨.elapsed, .ofSeconds 0⟩]

theorem run_sews_a_hem :
    (run 4 seamstress).Reaches stitches (.done (.ok ⟨.maxUptime, 1⟩)) ∧
    (∃ r, Within seamstress.config (stitches.drop 3) (.ofSeconds 1) r) ∧
    ∃ r, Leaves seamstress.config stitches ⟨.maxUptime, 1⟩ r := by
  have reaches : (run 4 seamstress).Reaches stitches (.done (.ok ⟨.maxUptime, 1⟩)) :=
    Program.Reaches.start.of_run afternoon rfl
  obtain ⟨popped, leaves⟩ := run_respects_limits 4 seamstress reaches
  exact ⟨reaches, popped (stitches.take 2) _ _ _ rfl, leaves⟩

end Worker

end ClaimQueue
