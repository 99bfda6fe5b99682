import ClaimQueue.Proofs.Worker.Dealings

/-! A worker's run, whatever its queue does: claims are brought to their end one after another, and
the first call that fails, or the first handler that breaks down, is the last thing the worker has
to do with its queue. Main statement: nothing is retired before its result was accepted. -/

namespace ClaimQueue

namespace Worker

/-- A question about a task that was claimed; the others come between two claims. -/
def Ask.isOwn : Ask → Bool
  | .labour _ | .clock | .publish _ | .ack _ | .release _ => true
  | .stopSeen | .elapsed | .pop _ | .pause _ => false

/-- What a call on the queue failed with. -/
def failure? : Exchange asks → Option QueueError
  | ⟨.pop _, some (.error e)⟩ => some e
  | ⟨.publish _, .error e⟩ | ⟨.ack _, .error e⟩ | ⟨.release _, .error e⟩ => some e
  | _ => none

/-- Between two claims, without a task and without a failure. -/
def Idle : Exchange asks → Prop
  | ⟨.stopSeen, _⟩ | ⟨.elapsed, _⟩ | ⟨.pause _, _⟩ | ⟨.pop _, none⟩ | ⟨.pop _, some (.ok none)⟩ => True
  | _ => False

/-- What was told up to a claim, with the claim. -/
def claiming (wait : Span) (t : Task) (past : Told) : Told := ⟨.pop wait, some (.ok (some t))⟩ :: past

/-- Every task claimed so far was brought to its end, as planned. -/
inductive Settled : Told → Prop
  | start : Settled []
  | idle {x : Exchange asks} {past : Told} (h : Settled past) (idle : Idle x) : Settled (x :: past)
  | claim {wait : Span} {t : Task} {new past : Told} {d : Disposition} (h : Settled past)
      (own : ∀ x ∈ new, x.1.isOwn) (ended : Ended t new (.ok d)) :
      Settled (new ++ claiming wait t past)

/-- What a worker may ask. -/
inductive MayAsk : Told → Ask → Prop
  | between {past : Told} {q : Ask} (settled : Settled past) (free : q.isOwn = false) : MayAsk past q
  | within {wait : Span} {t : Task} {new past : Told} {q : Ask} (settled : Settled past)
      (own : ∀ x ∈ new, x.1.isOwn) (underway : Underway t new q) :
      MayAsk (new ++ claiming wait t past) q

/-- When a worker may end, and how. -/
inductive MayEnd : Told → Except Error Exit → Prop
  | leave {past : Told} (e : Exit) (settled : Settled past) : MayEnd past (.ok e)
  | noPop {wait : Span} {e : QueueError} {past : Told} (settled : Settled past) :
      MayEnd (⟨.pop wait, some (.error e)⟩ :: past) (.error (.queue e))
  | within {wait : Span} {t : Task} {new past : Told} {e : Error} (settled : Settled past)
      (own : ∀ x ∈ new, x.1.isOwn) (ended : Ended t new (.error e)) :
      MayEnd (new ++ claiming wait t past) (.error e)

theorem Underway.isOwn {t : Task} {new : Told} {q : Ask} (h : Underway t new q) : q.isOwn := by
  cases h with
  | labour | clock => rfl
  | @act _ a => cases a <;> rfl

/-! A round, and a run. -/

/-- After a round: settled for the next one, or at the end. -/
def After {σ : Type} (now : Told) : Option (σ ⊕ Except Error Exit) → Prop
  | some (.inl _) => Settled now
  | some (.inr r) => MayEnd now r
  | none => False

theorem serve_keeps (w : Template) (p : Progress) (wait : Span) (t : Task) {past : Told}
    (settled : Settled past) : (serve w p t).Keeps MayAsk After (claiming wait t past) := by
  have alone := (process_keeps w t).all (fun _ _ => Underway.isOwn) fun _ none => by simp at none
  refine ((alone.after (claiming wait t past)).mono ?_ fun _ _ told => told).bind ?_ ?_
  · rintro _ q ⟨new, rfl, underway, own⟩
    exact .within settled own underway
  · rintro _ (e | d) ⟨new, rfl, ended, own⟩
    · exact .within settled own ended
    · have settled : Settled (new ++ claiming wait t past) := .claim settled own ended
      cases d with
      | finished => exact ⟨.between settled rfl, fun now => .idle settled trivial⟩
      | rejected => exact ⟨.between settled rfl, fun now => .idle settled trivial⟩
  · rintro _ ⟨_, _, none, -⟩
    exact none.elim

theorem round_keeps (w : Template) (started : Span) (p : Progress) {past : Told}
    (settled : Settled past) : (round w started p).Keeps MayAsk After past := by
  refine ⟨.between settled rfl, fun stop => ?_⟩
  have settled : Settled (⟨.stopSeen, stop⟩ :: past) := .idle settled trivial
  refine ⟨.between settled rfl, fun now => ?_⟩
  have settled : Settled (⟨.elapsed, now⟩ :: ⟨.stopSeen, stop⟩ :: past) := .idle settled trivial
  simp only [Program.bind]
  cases next w.config started now stop p with
  | inl reason => exact .leave _ settled
  | inr wait =>
    refine ⟨.between settled rfl, fun popped => ?_⟩
    rcases popped with _ | e | _ | t
    · exact .idle settled trivial
    · exact .noPop settled
    · exact .idle settled trivial
    · exact serve_keeps w p wait t settled

theorem run_keeps (rounds : Nat) (w : Template) : (run rounds w).Keeps MayAsk
    (fun now r => match r with
      | some r => MayEnd now r
      | none => Settled now) [] := by
  refine ⟨.between .start rfl, fun started => ?_⟩
  have settled : Settled [⟨.elapsed, started⟩] := .idle .start trivial
  refine Program.keeps_loop (fun now _ => Settled now) (fun past p settled => ?_)
    (fun _ _ settled => settled) rounds settled
  exact (round_keeps w started p settled).mono (fun _ _ fit => fit) fun now r after => by
    rcases r with _ | (_ | _) <;> exact after

/-! What is not to be found in what was told, as long as all goes well. -/

theorem failure?_of_idle {x : Exchange asks} (idle : Idle x) : failure? x = none := by
  unfold Idle at idle
  split at idle <;> first | rfl | exact idle.elim

theorem mem_acts {new : Told} {x : Exchange asks} {a : Act} {r : Except QueueError Unit}
    (mem : x ∈ new) (act : act? x = some (a, r)) : (a, r) ∈ acts new :=
  List.mem_reverse.mpr (List.mem_filterMap.mpr ⟨x, mem, act⟩)

/-- About a claimed task, only a call can fail. -/
theorem act?_of_failure {x : Exchange asks} {e : QueueError} (own : x.1.isOwn)
    (failed : failure? x = some e) : ∃ a, act? x = some (a, .error e) := by
  unfold failure? at failed
  split at failed <;> simp_all [Ask.isOwn, act?]

theorem failure?_of_through {new : Told} {done : List Act} (own : ∀ x ∈ new, x.1.isOwn)
    (calls : acts new = through done) : ∀ x ∈ new, failure? x = none := by
  intro x mem
  cases failed : failure? x with
  | none => rfl
  | some e =>
    obtain ⟨a, act⟩ := act?_of_failure (own x mem) failed
    have mem := mem_acts mem act
    simp [calls, through] at mem

theorem failure?_of_mem_claiming {wait : Span} {t : Task} {new past : Told}
    (mine : ∀ x ∈ new, failure? x = none) (past' : ∀ x ∈ past, failure? x = none) :
    ∀ x ∈ new ++ claiming wait t past, failure? x = none := by
  intro x mem
  rcases List.mem_append.mp mem with mem | mem
  · exact mine x mem
  · rcases List.mem_cons.mp mem with rfl | mem
    · rfl
    · exact past' x mem

theorem Settled.calm {past : Told} (h : Settled past) : ∀ x ∈ past, failure? x = none := by
  induction h with
  | start => exact fun x mem => (List.not_mem_nil mem).elim
  | idle _ idle ih =>
    intro x mem
    rcases List.mem_cons.mp mem with rfl | mem
    · exact failure?_of_idle idle
    · exact ih x mem
  | claim _ own ended ih =>
    cases ended with
    | carried _ plan calls whole =>
      exact failure?_of_mem_claiming (failure?_of_through own calls) ih

theorem MayAsk.calm {past : Told} {q : Ask} (h : MayAsk past q) : ∀ x ∈ past, failure? x = none := by
  cases h with
  | between settled free => exact settled.calm
  | @within _ _ new _ _ settled own underway =>
    obtain ⟨done, calls⟩ : ∃ done, acts new = through done := by
      cases underway with
      | labour _ calls | clock calls => exact ⟨[], calls⟩
      | act plan calls whole => exact ⟨_, calls⟩
    exact failure?_of_mem_claiming (failure?_of_through own calls) settled.calm

theorem Settled.whole {past : Told} (h : Settled past) : Whole past := by
  induction h with
  | start => exact fun _ _ => List.not_mem_nil
  | idle _ idle ih =>
    refine ih.cons fun work message same => ?_
    rw [same] at idle
    exact idle.elim
  | claim _ own ended ih =>
    cases ended with
    | carried _ plan calls whole =>
      intro work message mem
      rcases List.mem_append.mp mem with mem | mem
      · exact whole work message mem
      · exact (List.mem_cons.mp mem).elim (fun same => nomatch same) (ih work message)

/-! What is to be found there. -/

/-- The worker has failed as it was told. -/
theorem MayEnd.of_failure {past : Told} {r : Except Error Exit} (h : MayEnd past r)
    {x : Exchange asks} {e : QueueError} (mem : x ∈ past) (failed : failure? x = some e) :
    r = .error (.queue e) := by
  have calm {past : Told} (settled : Settled past) (mem : x ∈ past) : False := by
    rw [settled.calm x mem] at failed
    cases failed
  cases h with
  | leave _ settled => exact (calm settled mem).elim
  | noPop settled =>
    rcases List.mem_cons.mp mem with rfl | mem
    · cases failed
      rfl
    · exact (calm settled mem).elim
  | within settled own ended =>
    rcases List.mem_append.mp mem with mem | mem
    · obtain ⟨a, act⟩ := act?_of_failure (own x mem) failed
      have mem := mem_acts mem act
      cases ended with
      | cutShort plan calls whole =>
        rw [calls, List.mem_append] at mem
        have last := mem.resolve_left (by simp [through])
        cases List.mem_singleton.mp last
        rfl
      | broken _ fault calls =>
        rw [calls] at mem
        exact (List.not_mem_nil mem).elim
    · rcases List.mem_cons.mp mem with rfl | mem
      · cases failed
      · exact (calm settled mem).elim

theorem split_of_notMem {α : Type} {x : α} {later earlier new rest : List α}
    (split : later ++ x :: earlier = new ++ rest) (absent : x ∉ rest) :
    ∃ mid, new = later ++ x :: mid := by
  rcases List.append_eq_append_iff.mp split with ⟨mid, rfl, inside⟩ | ⟨mid, -, outside⟩
  · cases mid with
    | nil =>
      obtain rfl : x :: earlier = rest := inside
      exact absurd List.mem_cons_self absent
    | cons y mid => exact ⟨mid, by rw [(List.cons.inj inside).1]⟩
  · exact absurd (outside ▸ List.mem_append_right _ List.mem_cons_self) absent

theorem Settled.whole_claiming {past : Told} (h : Settled past) (wait : Span) (t : Task) :
    Whole (claiming wait t past) := by
  intro work message mem
  exact (List.mem_cons.mp mem).elim (fun same => nomatch same) (h.whole work message)

/-- After a handler broke down, only the clock is looked at, once. -/
theorem MayAsk.of_fault {later earlier : Told} {q : Ask} {work : Labour} {message : String}
    (h : MayAsk (later ++ ⟨.labour work, .fault message⟩ :: earlier) q) :
    q = .clock ∧ ∀ x ∈ later, x.1 ≠ .clock := by
  generalize split : later ++ ⟨.labour work, .fault message⟩ :: earlier = past at h
  cases h with
  | between settled free =>
    refine absurd ?_ (settled.whole work message)
    exact split ▸ List.mem_append_right _ List.mem_cons_self
  | @within wait t new past _ settled own underway =>
    obtain ⟨mid, rfl⟩ := split_of_notMem split (settled.whole_claiming wait t work message)
    cases underway with
    | labour _ calls whole | act plan calls whole =>
      exact absurd (List.mem_append_right _ List.mem_cons_self) (whole work message)
    | clock calls first =>
      refine ⟨rfl, fun x mem clock => ?_⟩
      obtain ⟨_, now⟩ := x
      cases clock
      exact first now (List.mem_append_left _ mem)

theorem MayEnd.of_fault {past : Told} {r : Except Error Exit} {work : Labour} {message : String}
    (h : MayEnd past r) (mem : ⟨.labour work, .fault message⟩ ∈ past) :
    ∃ work message handler id, ⟨.labour work, .fault message⟩ ∈ past ∧
      r = .error (.handlerFault handler id message) := by
  cases h with
  | leave _ settled => exact absurd mem (settled.whole work message)
  | noPop settled =>
    have mem := (List.mem_cons.mp mem).resolve_left fun same => nomatch same
    exact absurd mem (settled.whole work message)
  | @within wait t _ _ _ settled own ended =>
    cases ended with
    | broken handler fault calls => exact ⟨_, _, handler, _, List.mem_append_left _ fault, rfl⟩
    | cutShort plan calls whole =>
      rcases List.mem_append.mp mem with mem | mem
      · exact absurd mem (whole work message)
      · exact absurd mem (settled.whole_claiming wait t work message)

theorem eq_of_act?_publish {x : Exchange asks} {r : TaskResult} {answer : Except QueueError Unit}
    (act : act? x = some (.publish r, answer)) : x = ⟨.publish r, answer⟩ := by
  unfold act? at act
  split at act <;> cases act
  rfl

theorem Plan.of_ack {t : Task} {new : Told} {done more : List Act} {id : String}
    (h : Plan t new (done ++ .ack id :: more)) :
    id = t.id ∧ ∃ r, done = [.publish r] ∧ Answers t new r ∧ Final r := by
  generalize split : done ++ Act.ack id :: more = plan at h
  cases h with
  | retire answers final =>
    match done, split with
    | [_], split =>
      cases split
      exact ⟨rfl, _, rfl, answers, final⟩
    | _ :: _ :: _, split => simp at split
  | handBack => cases done <;> simp at split
  | keep => cases done <;> simp at split
  | putBack =>
    match done, split with
    | [_], split => cases split
    | _ :: _ :: _, split => simp at split

/-- Before an ack comes the result, and it was accepted. -/
theorem MayAsk.of_ack {past : Told} {id : String} (h : MayAsk past (.ack id)) :
    ∃ r mid start, past = mid ++ ⟨.publish r, .ok ()⟩ :: start ∧
      (∀ x ∈ mid, x.1.isOwn ∧ act? x = none) ∧ r.taskId = id ∧ Final r := by
  generalize same : Ask.ack id = q at h
  cases h with
  | between settled free =>
    subst same
    cases free
  | @within wait t new past _ settled own underway =>
    cases underway with
    | labour | clock => cases same
    | @act done a more plan calls whole =>
      obtain rfl : a = .ack id := by
        cases a <;> cases same
        rfl
      obtain ⟨rfl, r, rfl, answers, final⟩ := plan.of_ack
      have made : new.filterMap act? = [(.publish r, .ok ())] := by
        rw [← List.reverse_reverse (new.filterMap act?)]
        exact congrArg List.reverse calls
      obtain ⟨mid, x, start, rfl, none, act, -⟩ := List.filterMap_eq_cons_iff.mp made
      obtain rfl := eq_of_act?_publish act
      refine ⟨r, mid, start ++ claiming wait t past, List.append_assoc .., ?_, answers.taskId, final⟩
      exact fun y mem => ⟨own y (List.mem_append_left _ mem), none y mem⟩

/-- A worker's run, whatever it is told and wherever it stands. For each task that it claims it makes
the calls of one plan, up to one that fails. Nothing is retired before a final result for it was
accepted; a call that fails is the last thing that is asked, and after a handler broke down the
queue is not asked again. Both end the run with that error. -/
theorem run_publishes_before_it_retires (rounds : Nat) (w : Template) {past : Told}
    {p : Program asks (Except Error Exit)} (reaches : (run rounds w).Reaches past p) :
    (∀ later x earlier, past = later ++ x :: earlier → MayAsk earlier x.1) ∧
    (match p with
      | .ask q _ => MayAsk past q
      | .done r => MayEnd past r
      | .spent => Settled past) ∧
    (∀ later id answer earlier, past = later ++ ⟨.ack id, answer⟩ :: earlier →
      ∃ r mid start, earlier = mid ++ ⟨.publish r, .ok ()⟩ :: start ∧
        (∀ x ∈ mid, x.1.isOwn ∧ act? x = none) ∧ r.taskId = id ∧ Final r) ∧
    (∀ later x earlier e, past = later ++ x :: earlier → failure? x = some e →
      later = [] ∧ p = .done (.error (.queue e))) ∧
    (∀ later work message earlier, past = later ++ ⟨.labour work, .fault message⟩ :: earlier →
      later = [] ∧ (∃ next, p = .ask .clock next) ∨
        (∀ x ∈ later, x.1 = .clock) ∧
          ∃ handler id, p = .done (.error (.handlerFault handler id message))) := by
  have keeps := run_keeps rounds w
  have asked {later x earlier} (split : past = later ++ x :: earlier) : MayAsk earlier x.1 :=
    keeps.asked reaches split
  have stands := keeps.of_reaches reaches
  refine ⟨fun _ _ _ => asked, ?_, ?_, ?_, ?_⟩
  · cases p with
    | ask q next => exact stands.1
    | done r => exact stands
    | spent => exact stands
  · intro later id answer earlier split
    exact (asked split).of_ack
  · intro later x earlier e split failed
    have mem : x ∈ past := split ▸ List.mem_append_right _ List.mem_cons_self
    have alone : later = [] := by
      cases later with
      | nil => rfl
      | cons y later =>
        have split : past = [] ++ y :: (later ++ x :: earlier) := split
        have calm := (asked split).calm x (List.mem_append_right _ List.mem_cons_self)
        rw [calm] at failed
        cases failed
    refine ⟨alone, ?_⟩
    have loud (calm : ∀ x ∈ past, failure? x = none) : False := by
      rw [calm x mem] at failed
      cases failed
    cases p with
    | ask q next => exact (loud stands.1.calm).elim
    | spent => exact (loud (Settled.calm stands)).elim
    | done r => rw [MayEnd.of_failure stands mem failed]
  · intro later work message earlier split
    have mem : ⟨.labour work, .fault message⟩ ∈ past :=
      split ▸ List.mem_append_right _ List.mem_cons_self
    have clocks : ∀ x ∈ later, x.1 = .clock := by
      intro x mem
      obtain ⟨front, rear, rfl⟩ := List.append_of_mem mem
      rw [List.append_assoc] at split
      exact (MayAsk.of_fault (asked split)).1
    cases p with
    | ask q next =>
      have may : MayAsk past q := stands.1
      rw [split] at may
      obtain ⟨rfl, none⟩ := may.of_fault
      refine .inl ⟨List.eq_nil_iff_forall_not_mem.mpr fun x mem => ?_, next, rfl⟩
      exact none x mem (clocks x mem)
    | spent => exact absurd mem (Settled.whole stands work message)
    | done r =>
      obtain ⟨work', message', handler, id, mem', rfl⟩ := MayEnd.of_fault stands mem
      refine .inr ⟨clocks, handler, id, ?_⟩
      rw [split, List.mem_append, List.mem_cons] at mem'
      rcases mem' with mem' | same | mem'
      · cases clocks _ mem'
      · cases same
        rfl
      · obtain ⟨front, rear, rfl⟩ := List.append_of_mem mem'
        cases (MayAsk.of_fault (asked split)).1

private def penny : Task := ⟨.render, "penny", [], .empty, 0, .epoch, 1⟩

private def minter : Template where
  registry := ⟨[⟨"mint", .render, .empty, fun _ => ⟨⟨0⟩, .done []⟩⟩]⟩
  config := {}

/-- A queue with a penny to mint, that accepts everything. -/
private def obliging : (q : Ask) → Told → q.Answer
  | .stopSeen, _ => false
  | .elapsed, _ => ⟨0⟩
  | .clock, _ => .epoch
  | .pop _, _ => some (.ok (some penny))
  | .release _, _ | .ack _, _ | .publish _, _ => .ok ()
  | .labour work, _ => work.outcome
  | .pause _, _ => ()

private def minted : TaskResult := .ok penny [] .epoch

/-- What the worker was told that minted the penny. -/
private def minting : Told := [
  ⟨.elapsed, ⟨0⟩⟩, ⟨.stopSeen, false⟩, ⟨.elapsed, ⟨0⟩⟩, ⟨.ack "penny", .ok ()⟩,
  ⟨.publish minted, .ok ()⟩, ⟨.clock, .epoch⟩, ⟨.labour ⟨⟨0⟩, .done []⟩, .done []⟩,
  ⟨.pop (.ofSeconds 5), some (.ok (some penny))⟩, ⟨.elapsed, ⟨0⟩⟩, ⟨.stopSeen, false⟩,
  ⟨.elapsed, ⟨0⟩⟩]

theorem run_retires_penny : (run 2 minter).Reaches minting (.done (.ok ⟨.completed, 1⟩)) ∧
    MayEnd minting (.ok ⟨.completed, 1⟩) ∧ ∃ later earlier r mid start,
      minting = later ++ ⟨.ack "penny", .ok ()⟩ :: earlier ∧
        earlier = mid ++ ⟨.publish r, .ok ()⟩ :: start ∧ Final r := by
  have reaches : (run 2 minter).Reaches minting (.done (.ok ⟨.completed, 1⟩)) :=
    Program.Reaches.start.of_run obliging rfl
  obtain ⟨-, ends, acked, -⟩ := run_publishes_before_it_retires 2 minter reaches
  obtain ⟨r, mid, start, split, -, -, final⟩ := acked (minting.take 3) "penny" (.ok ()) _ rfl
  exact ⟨reaches, ends, minting.take 3, _, r, mid, start, rfl, split, final⟩

end Worker

end ClaimQueue
