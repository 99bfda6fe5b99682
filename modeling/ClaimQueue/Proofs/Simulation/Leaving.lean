import ClaimQueue.Proofs.Simulation.Errands
import ClaimQueue.Proofs.Worker.Limits

/-! A worker alone with a queue in memory leaves, even if it can run nothing: what it hands back it
is given again, but no round is for nothing. Either a task is finished, or of the time that the
worker is patient some has passed. -/

namespace ClaimQueue

namespace Simulation

open Worker (Told Progress Config Template)

variable {signal : Signal} {α β : Type}

/-! A worker's programs, with what it was told. -/

/-- The program comes to its end: after how many turns, with what result, and what was told by
then. -/
inductive Comes (signal : Signal) {α : Type} :
    Nat → Program Worker.asks α → Told → World → α → Told → World → Prop
  | done (a : α) (told : Told) (w : World) : Comes signal 0 (.done a) told w a told w
  | ask {m n : Nat} {q : Worker.Ask} {r : q.Answer} {next : q.Answer → Program Worker.asks α}
      {past told : Told} {w u v : World} {a : α} (hears : Hears signal m q w r u)
      (rest : Comes signal n (next r) (⟨q, r⟩ :: past) u a told v) :
      Comes signal (m + n) (.ask q next) past w a told v

/-- Keeps what is told, the latest first. -/
def noted (q : Worker.Ask) (past : Told) : Program Worker.asks (q.Answer × Told) := do
  let r ← Worker.ask q
  return (r, ⟨q, r⟩ :: past)

/-- A worker's run, and what it was told. -/
def diary (rounds : Nat) (signal : Signal) (t : Template) :
    Script (Except Worker.Error Worker.Exit × Told) :=
  ((Worker.run rounds t).through (J := Worker.asks) noted []).lower (J := requests)
    (workerAsk rounds signal)

namespace Comes

variable {m n : Nat} {p : Program Worker.asks α} {past told : Told} {w u v : World} {a : α}

theorem bind {f : α → Program Worker.asks β} {b : β} {later : Told}
    (first : Comes signal m p past w a told u) (second : Comes signal n (f a) told u b later v) :
    Comes signal (m + n) (p.bind f) past w b later v := by
  induction first with
  | done =>
    rw [Nat.zero_add]
    exact second
  | ask hears _ ih =>
    rw [Nat.add_assoc]
    exact .ask hears (ih second)

theorem keeps {fit : Told → Worker.Ask → Prop} {ends : Told → Option α → Prop}
    (h : Comes signal n p past w a told v) (keeps : p.Keeps fit ends past) :
    ends told (some a) := by
  induction h with
  | done => exact keeps
  | ask _ _ ih => exact ih (keeps.2 _)

theorem suffix (h : Comes signal n p past w a told v) : past <:+ told := by
  induction h with
  | done => exact List.suffix_refl _
  | ask _ _ ih => exact (List.suffix_cons _ _).trans ih

/-- What was told before makes no difference. -/
theorem after (h : Comes signal n p past w a told v) (before : Told) :
    Comes signal n p (past ++ before) w a (told ++ before) v := by
  induction h with
  | done => exact .done _ _ _
  | ask hears _ ih => exact .ask hears ih

theorem brings (h : Comes signal n p past w a told v) (rounds : Nat) :
    Brings (rounds + 2) n (p.lower (J := requests) (workerAsk (rounds + 2) signal)) w a v := by
  induction h with
  | done => exact .done _ _ _
  | ask hears _ ih => exact (hears rounds).bind ih

theorem brings_told (h : Comes signal n p past w a told v) (rounds : Nat) :
    Brings (rounds + 2) n
      ((p.through (J := Worker.asks) noted past).lower (J := requests)
        (workerAsk (rounds + 2) signal)) w (a, told) v := by
  induction h with
  | done => exact .done _ _ _
  | ask hears _ ih => exact (hears rounds).bind ih

end Comes

/-- What is done for a claimed task comes to its end. -/
theorem comes_of_own (signal : Signal) {p : Program Worker.asks α} {fit : Told → Worker.Ask → Prop}
    {ends : Told → Option α → Prop} {past : Told} {w : World} (keeps : p.Keeps fit ends past)
    (own : ∀ past q, fit past q → q.isOwn) (sure : ∀ past, ¬ ends past none)
    (deserted : w.Deserted) : ∃ n a told v, Comes signal n p past w a told v ∧ w.Ahead v ∧
      ((∀ work outcome, ⟨.labour work, outcome⟩ ∉ told) → v.time = w.time) := by
  induction p generalizing past w with
  | done a => exact ⟨0, a, past, w, .done a past w, deserted.ahead, fun _ => rfl⟩
  | spent => exact (sure past keeps).elim
  | ask q next ih =>
    obtain ⟨m, r, u, hears, ahead, quick⟩ := hears_own signal deserted (own past q keeps.1)
    obtain ⟨n, a, told, v, rest, onward, still⟩ := ih r (keeps.2 r) ahead.deserted
    refine ⟨m + n, a, told, v, .ask hears rest, ahead.trans onward, fun idle => ?_⟩
    refine (still idle).trans (quick ?_)
    rintro work rfl
    exact idle work r (rest.suffix.subset List.mem_cons_self)

/-- A task that goes back without a result was not worked on. -/
theorem untouched_of_unanswered {t : Task} {new : Told} {d : Worker.Disposition}
    (ended : Worker.Ended t new (.ok d)) (unanswered : new.any (Worker.answered t) = false) :
    ∀ work outcome, ⟨.labour work, outcome⟩ ∉ new := by
  cases ended with
  | carried _ plan calls whole =>
    -- Each other plan begins with a result for the task.
    have published {r : TaskResult} {more : List Worker.Act} (answers : Worker.Answers t new r)
        (calls : Worker.acts new = Worker.through (.publish r :: more)) : False := by
      have made : (Worker.Act.publish r, (.ok () : Except QueueError Unit)) ∈ Worker.acts new := by
        rw [calls]
        exact List.mem_cons_self
      obtain ⟨x, mem, act⟩ := List.mem_filterMap.mp (List.mem_reverse.mp made)
      have unseen := List.any_eq_false.mp unanswered x mem
      rw [Worker.eq_of_act?_publish act, Worker.answered, answers.taskId] at unseen
      exact unseen (beq_self_eq_true t.id)
    cases plan with
    | handBack untouched => exact untouched
    | retire answers => exact (published answers calls).elim
    | keep answers => exact (published answers calls).elim
    | putBack answers => exact (published answers calls).elim

/-! A claimed task, to its end. -/

section Serve

variable {t : Template} {p : Progress} {w : World}

/-- After a claimed task: a failure, one more that is finished, or the pause after it was handed
back. -/
def Served (t : Template) (p : Progress) (w v : World) :
    Progress ⊕ Except Worker.Error Worker.Exit → Prop
  | .inl p' => p' = ⟨p.completed + 1, v.elapsed⟩ ∨
      p' = p ∧ v.time = max w.time (w.ending t.config.backoff)
  | .inr r => ∀ e, r ≠ .ok e

theorem comes_serve (signal : Signal) (t : Template) (p : Progress) (deserted : w.Deserted)
    (wait : Span) (task : Task) (past : Told) : ∃ n o told v,
      Comes signal n (Worker.serve t p task) (Worker.claiming wait task past) w o told v ∧
        w.Ahead v ∧ Served t p w v o := by
  have keeps := (Worker.process_keeps t task).and (Worker.process_tells t task)
  obtain ⟨n, r, new, u, alone, ahead, still⟩ := comes_of_own signal keeps
    (fun _ _ fit => fit.1.isOwn) (fun _ none => none.1) deserted
  have ends := alone.keeps keeps
  have processed := alone.after (Worker.claiming wait task past)
  rcases r with e | d
  · refine ⟨_, .inr (.error e), _, u, processed.bind (.done _ _ u), ahead, fun _ same => ?_⟩
    cases same
  · obtain ⟨ended, tells⟩ := ends
    cases d with
    | finished =>
      have served : Comes signal (n + (0 + 0)) (Worker.serve t p task)
          (Worker.claiming wait task past) w (.inl ⟨p.completed + 1, u.elapsed⟩)
          (⟨.elapsed, u.elapsed⟩ :: (new ++ Worker.claiming wait task past)) u :=
        processed.bind (.ask (hears_elapsed signal u) (.done _ _ u))
      exact ⟨_, _, _, _, served, ahead, .inl rfl⟩
    | rejected =>
      have same : u.time = w.time := still (untouched_of_unanswered ended tells)
      obtain ⟨m, v, hears, rested, time⟩ := hears_pause signal ahead.deserted t.config.backoff
      have served : Comes signal (n + (m + 0)) (Worker.serve t p task)
          (Worker.claiming wait task past) w (.inl p)
          (⟨.pause t.config.backoff, ()⟩ :: (new ++ Worker.claiming wait task past)) v :=
        processed.bind (.ask hears (.done _ _ v))
      rw [same, World.ending_of_time same] at time
      exact ⟨_, _, _, _, served, ahead.trans rested.toAhead, .inr ⟨rfl, time⟩⟩

end Serve

/-! A round. -/

section Round

variable {t : Template} {started : Span} {p : Progress} {past : Told} {w : World} {ms I B : Nat}

/-- A worker between two rounds, with the time at which it started or finished its last task. -/
structure Poised (c : Config) (started : Span) (past : Told) (p : Progress) (ms : Nat) (w : World) :
    Prop where
  deserted : w.Deserted
  standing : Worker.Standing c started past p
  since : p.idleSince = .ofMillis ms
  later : ms ≤ w.time
  soon : w.elapsed.nanos ≤ p.idleSince.nanos + c.idleLimit.nanos + c.backoff.nanos

/-- A worker that leaves does so in time. -/
def InTime (c : Config) (told : Told) (v : World) (r : Except Worker.Error Worker.Exit) : Prop :=
  ∀ e, r = .ok e → ∃ last, Worker.Leaves c told e last ∧ v.elapsed = last.now ∧
    last.now.nanos ≤ last.since.nanos + c.idleLimit.nanos + c.backoff.nanos

/-- Tasks that the worker may still take, each of which renews its patience, and the milliseconds
that it is patient yet. -/
def left (c : Config) (I : Nat) (p : Progress) (ms : Nat) (w : World) : Nat :=
  (c.tasks - p.completed) * (I + 1) + (ms + I - w.time)

/-- After a round there is less left, or the worker has left. -/
def Onward (c : Config) (started : Span) (I bound : Nat) (told : Told) (v : World) :
    Progress ⊕ Except Worker.Error Worker.Exit → Prop
  | .inl p => ∃ ms, Poised c started told p ms v ∧ left c I p ms v < bound
  | .inr r => InTime c told v r

theorem ending_eq (w : World) (s : Span) :
    w.ending s = (w.time * 1000000 + s.nanos + 999999) / 1000000 := by
  rw [World.ending]
  rfl

/-- A wait ends before the worker's patience does. -/
theorem wait_ends {r : Worker.Reading} {wait : Span} (room : Worker.Room t.config r wait)
    (now : r.now = w.elapsed) (since : r.since = .ofMillis ms) (later : ms ≤ w.time)
    (idle : t.config.idleLimit = .ofMillis I) (poll : 0 < t.config.poll.nanos) :
    w.time < w.ending wait ∧ w.ending wait ≤ ms + I := by
  have some := room.positive poll
  have limit := room.idleLeft
  have patient := room.idle
  rw [Worker.Reading.idle, now, since, idle] at limit patient
  simp only [World.elapsed, Span.ofMillis] at limit patient
  rw [ending_eq]
  omega

theorem elapsed_le {s : Span} {v : World} (since : s = .ofMillis ms)
    (idle : t.config.idleLimit = .ofMillis I) (backoff : t.config.backoff = .ofMillis B)
    (soon : v.time ≤ ms + I + B) :
    v.elapsed.nanos ≤ s.nanos + t.config.idleLimit.nanos + t.config.backoff.nanos := by
  rw [since, idle, backoff]
  simp only [World.elapsed, Span.ofMillis]
  omega

theorem left_lt_of_later {c : Config} {v : World} (patient : w.time < ms + I)
    (later : w.time < v.time) :
    left c I p ms v < left c I p ms w := by
  unfold left
  omega

theorem left_lt_of_finished {c : Config} {v : World} {ms' : Nat} {now : Span}
    (tasks : p.completed < c.tasks) (later : ms' ≤ v.time) :
    left c I ⟨p.completed + 1, now⟩ ms' v < left c I p ms w := by
  obtain ⟨k, more⟩ : ∃ k, c.tasks - p.completed = k + 1 := ⟨c.tasks - p.completed - 1, by omega⟩
  have fewer : c.tasks - (p.completed + 1) = k := by omega
  have patience : ms' + I - v.time ≤ I := by omega
  rw [left, left, more, fewer, Nat.succ_mul]
  omega

/-- What a worker is told before it decides whether to go on. -/
def looked (signal : Signal) (w : World) (past : Told) : Told :=
  ⟨.elapsed, w.elapsed⟩ :: ⟨.stopSeen, w.given.contains signal⟩ :: past

section Look

variable {m n : Nat} {u v : World}

theorem comes_leave {reason : Worker.Reason}
    (next : Worker.next t.config started w.elapsed (w.given.contains signal) p = .inl reason) :
    Comes signal (0 + (0 + 0)) (Worker.round t started p) past w
      (.inr (.ok ⟨reason, p.completed⟩)) (looked signal w past) w := by
  refine .ask (hears_stopSeen signal w) (.ask (hears_elapsed signal w) ?_)
  simp only [Program.bind]
  rw [next]
  exact .done _ _ w

variable {wait : Span}
  (next : Worker.next t.config started w.elapsed (w.given.contains signal) p = .inr wait)
include next

theorem comes_vain (hears : Hears signal n (.pop wait) w (some (.ok none)) v) :
    Comes signal (0 + (0 + (n + 0))) (Worker.round t started p) past w (.inl p)
      (⟨.pop wait, some (.ok none)⟩ :: looked signal w past) v := by
  refine .ask (hears_stopSeen signal w) (.ask (hears_elapsed signal w) ?_)
  simp only [Program.bind]
  rw [next]
  exact .ask hears (.done _ _ v)

theorem comes_claim {task : Task} {o : Progress ⊕ Except Worker.Error Worker.Exit} {told : Told}
    (hears : Hears signal m (.pop wait) w (some (.ok (some task))) u)
    (rest : Comes signal n (Worker.serve t p task)
      (Worker.claiming wait task (looked signal w past)) u o told v) :
    Comes signal (0 + (0 + (m + n))) (Worker.round t started p) past w o told v := by
  refine .ask (hears_stopSeen signal w) (.ask (hears_elapsed signal w) ?_)
  simp only [Program.bind]
  rw [next]
  exact .ask hears rest

end Look

section Patient

variable (idle : t.config.idleLimit = .ofMillis I) (backoff : t.config.backoff = .ofMillis B)
  (pause : 0 < B) (poll : 0 < t.config.poll.nanos)
include idle backoff pause poll

theorem round_comes (signal : Signal) (poised : Poised t.config started past p ms w) :
    ∃ n o told v, Comes signal n (Worker.round t started p) past w o told v ∧
      Onward t.config started I (left t.config I p ms w) told v o := by
  let r : Worker.Reading :=
    ⟨w.given.contains signal, w.elapsed, started, p.idleSince, p.completed⟩
  have decided : Worker.next t.config started w.elapsed (w.given.contains signal) p = _ :=
    Worker.next_eq t.config r
  cases found : Worker.reasons.find? (r.holds t.config) with
  | some reason =>
    rw [found] at decided
    refine ⟨_, _, _, w, comes_leave decided, fun e same => ?_⟩
    cases same
    exact ⟨_, poised.standing.leaves found, rfl, poised.soon⟩
  | none =>
    rw [found] at decided
    have room := Worker.room_of_stays found
    obtain ⟨early, patient⟩ := wait_ends room rfl poised.since poised.later idle poll
    have hopeful : w.time < ms + I := Nat.lt_of_lt_of_le early patient
    obtain ⟨m, popped, u, hears, pop⟩ := hears_pop poised.deserted room.stop early
    cases popped with
    | none =>
      -- The wait was in vain, and has cost patience.
      have comes : Comes signal _ (Worker.round t started p) past w _ _ u :=
        comes_vain decided hears
      have time := pop.late rfl
      have soon : u.time ≤ ms + I + B := by omega
      refine ⟨_, _, _, u, comes, ms, ?_, left_lt_of_later hopeful (time ▸ early)⟩
      exact ⟨pop.ahead.deserted, comes.keeps (Worker.round_limits poised.standing), poised.since,
        Nat.le_trans poised.later pop.ahead.later, elapsed_le poised.since idle backoff soon⟩
    | some task =>
      obtain ⟨n, o, told, v, serves, ahead, served⟩ := comes_serve signal t p
        pop.ahead.deserted _ task (looked signal w past)
      have comes := comes_claim decided hears serves
      have stands := comes.keeps (Worker.round_limits poised.standing)
      have time := pop.soon (fun same => by cases same)
      refine ⟨_, o, told, v, comes, ?_⟩
      cases o with
      | inr r => exact fun e same => absurd same (served e)
      | inl p' =>
        rcases served with rfl | ⟨rfl, paused⟩
        -- A finished task counts, however long it took; after one that was handed back, it is the
        -- pause that costs patience.
        · refine ⟨v.time, ⟨ahead.deserted, stands, rfl, Nat.le_refl _, ?_⟩,
            left_lt_of_finished room.tasks (Nat.le_refl _)⟩
          exact Nat.le_trans (Nat.le_add_right _ _) (Nat.le_add_right _ _)
        · have rested : v.time = w.time + B := by
            rw [paused, time, ending_eq, time, backoff]
            simp only [Span.ofMillis]
            omega
          have soon : v.time ≤ ms + I + B := by omega
          have later : ms ≤ v.time := Nat.le_trans poised.later (by omega)
          exact ⟨ms, ⟨ahead.deserted, stands, poised.since, later,
            elapsed_le poised.since idle backoff soon⟩, left_lt_of_later hopeful (by omega)⟩

/-- As there is less and less left, the worker leaves. -/
theorem loop_comes (signal : Signal) {bound : Nat} (poised : Poised t.config started past p ms w)
    (most : left t.config I p ms w < bound) :
    ∃ n r told v, (∀ rounds, bound ≤ rounds →
      Comes signal n (Program.loop (Worker.round t started) rounds p) past w r told v) ∧
        InTime t.config told v r := by
  induction bound generalizing past p ms w with
  | zero => exact absurd most (Nat.not_lt_zero _)
  | succ bound ih =>
    obtain ⟨m, o, now, u, round, onward⟩ := round_comes idle backoff pause poll signal poised
    cases o with
    | inr r =>
      refine ⟨m + 0, r, now, u, fun rounds enough => ?_, onward⟩
      obtain ⟨rounds, rfl⟩ : ∃ more, rounds = more + 1 := ⟨rounds - 1, by omega⟩
      exact round.bind (.done r now u)
    | inl p' =>
      obtain ⟨ms', poised, fewer⟩ := onward
      obtain ⟨n, r, told, v, comes, inTime⟩ := ih poised (by omega)
      refine ⟨m + n, r, told, v, fun rounds enough => ?_, inTime⟩
      obtain ⟨rounds, rfl⟩ : ∃ more, rounds = more + 1 := ⟨rounds - 1, by omega⟩
      exact round.bind (comes rounds (by omega))

end Patient

end Round

/-- A worker alone with a queue in memory, whatever tasks are pending, whatever it can run and
however long that takes: it leaves, though what it hands back it is given again and again. A worker
that leaves in good order does so no later than its patience and one more pause after it started or
finished its last task. -/
theorem lone_worker_leaves {w : World} (deserted : w.Deserted) (signal : Signal) {t : Template}
    {I B : Nat} (idle : t.config.idleLimit = .ofMillis I) (backoff : t.config.backoff = .ofMillis B)
    (pause : 0 < B) (poll : 0 < t.config.poll.nanos) : ∃ turns r told v,
      (∀ e, r = .ok e → ∃ last, Worker.Leaves t.config told e last ∧ v.elapsed = last.now ∧
        last.now.nanos ≤ last.since.nanos + t.config.idleLimit.nanos + t.config.backoff.nanos) ∧
      ∀ rounds more, (t.config.tasks + 1) * (I + 1) < rounds → turns < more →
        runAll rounds more [begun (workerRun rounds signal t)] w = (some [.ended r], v) ∧
        runAll rounds more [begun (diary rounds signal t)] w = (some [.ended (r, told)], v) := by
  have poised : Poised t.config w.elapsed [⟨.elapsed, w.elapsed⟩] ⟨0, w.elapsed⟩ w.time w := by
    refine ⟨deserted, Worker.standing_start t.config w.elapsed, rfl, Nat.le_refl _, ?_⟩
    exact Nat.le_trans (Nat.le_add_right _ _) (Nat.le_add_right _ _)
  have most : left t.config I ⟨0, w.elapsed⟩ w.time w < (t.config.tasks + 1) * (I + 1) := by
    rw [left, Nat.sub_zero, Nat.succ_mul]
    omega
  obtain ⟨n, r, told, v, loop, inTime⟩ := loop_comes idle backoff pause poll signal poised most
  refine ⟨0 + n, r, told, v, inTime, fun rounds more rounded enough => ?_⟩
  have some : 0 < (t.config.tasks + 1) * (I + 1) := Nat.mul_pos (Nat.succ_pos _) (Nat.succ_pos _)
  obtain ⟨looks, rfl⟩ : ∃ looks, rounds = looks + 2 := ⟨rounds - 2, by omega⟩
  have whole : Comes signal (0 + n) (Worker.run (looks + 2) t) [] w r told v :=
    .ask (hears_elapsed signal w) (loop (looks + 2) (by omega))
  exact ⟨(whole.brings looks).runAll enough, (whole.brings_told looks).runAll enough⟩

private def anvil : Task := ⟨.render, "anvil", [], .ofList ["crane"], 0, .epoch, 1⟩

/-- Has no crane. -/
private def weakling : Template where
  registry := ⟨[⟨"lift", .render, .empty, fun _ => ⟨⟨0⟩, .done []⟩⟩]⟩
  config := {
    idleLimit := .ofMillis 2
    poll := .ofMillis 1
    backoff := .ofMillis 1 }

private def smithy : World where
  clock := .epoch
  queue := { pending := [anvil] }

theorem weakling_leaves : smithy.Deserted ∧
    (runAll 7 20 [begun (workerRun 7 0 weakling)] smithy).1 =
      some [.ended (.ok ⟨.idleTimeout, 0⟩)] ∧
    ∃ turns r v, ∀ rounds more, 6 < rounds → turns < more →
      runAll rounds more [begun (workerRun rounds 0 weakling)] smithy = (some [.ended r], v) := by
  have deserted : smithy.Deserted := ⟨rfl, rfl, rfl, rfl⟩
  obtain ⟨turns, r, told, v, -, leaves⟩ := @lone_worker_leaves smithy deserted 0 weakling 2 1
    rfl rfl (by decide) (by decide)
  exact ⟨deserted, rfl, turns, r, v, fun rounds more rounded enough =>
    (leaves rounds more rounded enough).1⟩

end Simulation

end ClaimQueue
