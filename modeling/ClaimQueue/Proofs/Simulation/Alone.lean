import ClaimQueue.Simulation.Run

/-! A script alone in its world. What is answered at once is answered at once; a wait takes as long
as it may, since nobody else ends it, and a handler's work as long as it says. -/

namespace ClaimQueue

namespace Simulation

/-- Nobody else is about. -/
structure World.Deserted (w : World) : Prop where
  crew : w.crew = []
  alive : w.alive = []
  waiting : w.bell.waiting = []
  woken : w.bell.woken = []

/-- In so many turns the script comes to its end, whatever follows it. -/
structure Brings {α : Type} (rounds turns : Nat) (s : Script α) (w : World) (a : α) (v : World) :
    Prop where
  runs : ∀ {β : Type} (more : α → Script β) (left : Nat),
    runAll rounds (turns + left + 1) [begun (s.bind more)] w =
      runAll rounds (left + 1) [begun (more a)] v

variable {α β : Type} {rounds : Nat}

/-! Turns of a world with one course. -/

theorem settle_nobody {w : World} (none : w.crew = []) (rounds turns : Nat) :
    settle rounds turns w = (false, w) := by
  cases turns with
  | zero => rfl
  | succ turns =>
    have same : { w with crew := [] } = w := by rw [← none]
    simp only [settle, none, pollCrew, Bool.false_eq_true, if_false, List.append_nil]
    rw [same]

/-- A turn looks at nothing but what the course comes to. -/
theorem runAll_congr {c c' : Course α} {w w' : World}
    (same : pollCourse rounds c w = pollCourse rounds c' w') (left : Nat) :
    runAll rounds (left + 1) [c] w = runAll rounds (left + 1) [c'] w' := by
  have all : pollAll rounds [c] w = pollAll rounds [c'] w' := by rw [pollAll, pollAll, same]
  rw [runAll, runAll, all]

theorem runAll_moved {c : Course α} {f : Fiber α} {w w' v : World} {other : Bool} {turns : Nat}
    (polled : pollCourse rounds c w = (.running f, true, w'))
    (settled : settle rounds turns w' = (other, v)) :
    runAll rounds (turns + 1) [c] w = runAll rounds turns [.running f] v := by
  simp [runAll, pollAll, polled, settled, Course.isRunning]

theorem runAll_crew {c : Course α} {f : Fiber α} {w w' v : World} {turns : Nat}
    (polled : pollCourse rounds c w = (.running f, false, w'))
    (settled : settle rounds turns w' = (true, v)) :
    runAll rounds (turns + 1) [c] w = runAll rounds turns [.running f] v := by
  simp [runAll, pollAll, polled, settled, Course.isRunning]

theorem runAll_jump {c : Course α} {f : Fiber α} {w w' v : World} {turns t : Nat}
    (polled : pollCourse rounds c w = (.running f, false, w'))
    (settled : settle rounds turns w' = (false, v))
    (next : earliest (deadlines [.running f] v) = some t) :
    runAll rounds (turns + 1) [c] w = runAll rounds turns [.running f] { v with time := t } := by
  simp [runAll, pollAll, polled, settled, Course.isRunning, next]

namespace Brings

variable {turns : Nat} {s : Script α} {w u v : World} {a : α}

theorem done (rounds : Nat) (a : α) (w : World) : Brings rounds 0 (.done a) w a w := by
  refine ⟨fun more left => ?_⟩
  rw [Nat.zero_add]
  rfl

theorem bind {m : Nat} {f : α → Script β} {b : β} (first : Brings rounds turns s w a u)
    (second : Brings rounds m (f a) u b v) : Brings rounds (turns + m) (s.bind f) w b v := by
  refine ⟨fun more left => ?_⟩
  rw [Program.bind_assoc, Nat.add_assoc turns m left]
  exact (first.runs (fun a => (f a).bind more) (m + left)).trans (second.runs more left)

theorem ask {m : Nat} {q : Request} {r : q.Answer} {next : q.Answer → Script β} {b : β}
    (first : Brings rounds turns (ask q) w r u) (second : Brings rounds m (next r) u b v) :
    Brings rounds (turns + m) (.ask q next) w b v :=
  first.bind second

theorem first {q : Request} {r : q.Answer} {next : q.Answer → Script β} {b : β}
    (first : Brings rounds 0 (Simulation.ask q) w r u)
    (second : Brings rounds turns (next r) u b v) :
    Brings rounds turns (.ask q next) w b v :=
  Nat.zero_add turns ▸ first.ask second

theorem last {q : Request} {r : q.Answer} {next : q.Answer → Script β} {b : β}
    (brings : Brings rounds turns (Simulation.ask q) w r v) (ends : next r = .done b) :
    Brings rounds turns (.ask q next) w b v := by
  have rest : Brings rounds 0 (next r) v b v := ends ▸ done rounds b v
  exact brings.ask rest

theorem runAll {more : Nat} (brings : Brings rounds turns s w a v) (enough : turns < more) :
    Simulation.runAll rounds more [begun s] w = (some [.ended a], v) := by
  obtain ⟨rest, rfl⟩ : ∃ rest, more = turns + rest + 1 := ⟨more - turns - 1, by omega⟩
  have runs := brings.runs .done rest
  rw [Program.bind_done] at runs
  exact runs

/-- An answer that comes at once. -/
theorem now {q : Request} {r : q.Answer} (begins : w.begin rounds q = (.now r, v)) :
    Brings rounds 0 (Simulation.ask q) w r v := by
  refine ⟨fun more left => ?_⟩
  rw [Nat.zero_add]
  refine runAll_congr ?_ left
  show poll rounds (.ask q more) none true w = poll rounds (more r) none true v
  simp only [poll, begins]

/-- A wait that lasts until its time has come. -/
theorem wait {q : Request} {r : q.Answer} {number t : Nat}
    (begins : w.begin rounds q = (.held ⟨number, some t⟩, u)) (nobody : u.crew = [])
    (early : u.resume ⟨number, some t⟩ q = (none, u))
    (late : { u with time := t }.resume ⟨number, some t⟩ q = (some r, v)) :
    Brings rounds 2 (Simulation.ask q) w r v := by
  refine ⟨fun {β} more left => ?_⟩
  let f : Fiber β := ⟨.ask q more, some ⟨number, some t⟩⟩
  have turns : 2 + left + 1 = left + 1 + 1 + 1 := by omega
  have first : pollCourse rounds (begun (.ask q more)) w = (.running f, true, u) := by
    simp only [begun, pollCourse, poll, begins]
    rfl
  have second : pollCourse rounds (.running f) u = (.running f, false, u) := by
    simp only [f, pollCourse, poll, early]
    rfl
  have next : earliest (deadlines [.running f] u) = some t := by
    simp [deadlines, nobody, f, dueOf, earliest]
  rw [turns]
  -- One turn begins the wait, in the next nobody can go on, and then its time has come.
  refine (runAll_moved first (settle_nobody nobody _ _)).trans ?_
  refine (runAll_jump second (settle_nobody nobody _ _) next).trans (runAll_congr ?_ left)
  show poll rounds (.ask q more) (some ⟨number, some t⟩) false _ = poll rounds (more r) none true v
  simp only [poll, late]

end Brings

/-! Pauses, and handlers at work. -/

/-- Still nobody about, and time has not gone back. -/
structure World.Ahead (w v : World) : Prop where
  deserted : v.Deserted
  given : v.given = w.given
  later : w.time ≤ v.time

/-- Nor was the queue touched, or the clock set. -/
structure World.Still (w v : World) : Prop extends w.Ahead v where
  queue : v.queue = w.queue
  clock : v.clock = w.clock

namespace World

variable {w u v : World}

theorem Deserted.ahead (h : w.Deserted) : w.Ahead w := ⟨h, rfl, Nat.le_refl _⟩

theorem Ahead.trans (first : w.Ahead u) (second : u.Ahead v) : w.Ahead v :=
  ⟨second.deserted, second.given.trans first.given, Nat.le_trans first.later second.later⟩

-- Sealed, since its numerals would be unfolded whenever two worlds are compared.
/-- When a wait ends that begins now. -/
@[irreducible]
def ending (s : Span) (w : World) : Nat := mark ⟨w.elapsed.nanos + s.nanos⟩

theorem ending_of_time (same : v.time = w.time) (s : Span) : v.ending s = w.ending s := by
  rw [ending, ending, elapsed, elapsed, same]

theorem begin_pause_due {s : Span} (due : w.ending s ≤ w.time) (rounds : Nat) :
    w.begin rounds (.pause s) = (.now (), w) := by
  simp only [ending] at due
  simp [begin, beginWait, isDue, due]

theorem begin_pause {s : Span} (early : w.time < w.ending s) (rounds : Nat) :
    w.begin rounds (.pause s) =
      (.held ⟨w.fresh, some (w.ending s)⟩, { w with fresh := w.fresh + 1 }) := by
  have later : ¬ mark ⟨w.elapsed.nanos + s.nanos⟩ ≤ w.time := by
    rw [ending] at early
    exact Nat.not_le.mpr early
  simp [begin, beginWait, isDue, later, number, ending]

theorem resume_pause (w : World) (number t : Nat) (s : Span) :
    w.resume ⟨number, some t⟩ (.pause s) = (if t ≤ w.time then some () else none, w) := by
  simp only [resume, resumeWait, isOver, Bool.false_eq_true, if_false, decide_eq_true_eq]
  split <;> rfl

end World

theorem brings_pause {w : World} (deserted : w.Deserted) (s : Span) : ∃ turns v,
    (∀ rounds, Brings rounds turns (ask (.pause s)) w () v) ∧ w.Still v ∧
      v.time = max w.time (w.ending s) := by
  by_cases due : w.ending s ≤ w.time
  · exact ⟨0, w, fun rounds => .now (World.begin_pause_due due rounds), ⟨deserted.ahead, rfl, rfl⟩,
      (Nat.max_eq_left due).symm⟩
  · have early : w.time < w.ending s := Nat.lt_of_not_le due
    refine ⟨2, { w with
      fresh := w.fresh + 1
      time := w.ending s }, fun rounds => ?_, ?_, ?_⟩
    · refine .wait (World.begin_pause early rounds) deserted.crew ?_ ?_
      · rw [World.resume_pause, if_neg due]
      · rw [World.resume_pause, if_pos (Nat.le_refl _)]
    · exact ⟨⟨⟨deserted.crew, deserted.alive, deserted.waiting, deserted.woken⟩, rfl,
        Nat.le_of_lt early⟩, rfl, rfl⟩
    · exact (Nat.max_eq_right (Nat.le_of_lt early)).symm

/-! A handler works in the background, where it does nothing but pause. -/

section Labour

variable {w : World} {number other t : Nat} {s : Span}

theorem poll_pause_due (due : w.ending s ≤ w.time) (rounds : Nat) :
    @poll Unit rounds (ask (.pause s)) none true w = (.ended (), true, w) := by
  simp only [ask, Program.call, poll, World.begin_pause_due due]

theorem poll_pause (early : w.time < w.ending s) (rounds : Nat) :
    @poll Unit rounds (ask (.pause s)) none true w =
      (.running ⟨ask (.pause s), some ⟨w.fresh, some (w.ending s)⟩⟩, true,
        { w with fresh := w.fresh + 1 }) := by
  simp only [ask, Program.call, poll, World.begin_pause early]

theorem poll_resting (rounds : Nat) :
    @poll Unit rounds (ask (.pause s)) (some ⟨other, some t⟩) false w =
    if t ≤ w.time then (.ended (), true, w)
    else (.running ⟨ask (.pause s), some ⟨other, some t⟩⟩, false, w) := by
  by_cases late : t ≤ w.time
  · simp only [ask, Program.call, poll, World.resume_pause, if_pos late]
  · simp only [ask, Program.call, poll, World.resume_pause, if_neg late]

/-- Who was to pause and has a time to wait for. -/
def resting (number other t : Nat) (s : Span) : Nat × Fiber Unit :=
  (number, ⟨ask (.pause s), some ⟨other, some t⟩⟩)

/-! Turns of one in the background. -/

section Turn

variable {u : World} {f g : Fiber Unit} {rounds : Nat} (crew : w.crew = [(number, f)])
  (nobody : u.crew = [])
include crew nobody

theorem settle_ended
    (polled : poll rounds f.script f.hold f.hold.isNone { w with crew := [] } =
      (.ended (), true, u)) (turns : Nat) :
    settle rounds (turns + 1) w = (true, { u with alive := u.alive.erase number }) := by
  simp only [settle, crew, pollCrew, polled, if_true, nobody, List.append_nil]
  rw [settle_nobody rfl, ← nobody]

theorem settle_began
    (polled : poll rounds f.script f.hold f.hold.isNone { w with crew := [] } =
      (.running g, true, u)) (turns : Nat) :
    settle rounds (turns + 1) w =
      (true, (settle rounds turns { u with crew := [(number, g)] }).2) := by
  simp only [settle, crew, pollCrew, polled, if_true, nobody, List.append_nil, Bool.true_or]

theorem settle_idle
    (polled : poll rounds f.script f.hold f.hold.isNone { w with crew := [] } =
      (.running g, false, u)) (turns : Nat) :
    settle rounds (turns + 1) w = (false, { u with crew := [(number, g)] }) := by
  simp only [settle, crew, pollCrew, polled, nobody, List.append_nil, Bool.or_self,
    Bool.false_eq_true, if_false]

end Turn

theorem settle_resting (crew : w.crew = [resting number other t s]) (early : w.time < t)
    (rounds turns : Nat) : settle rounds turns w = (false, w) := by
  cases turns with
  | zero => rfl
  | succ turns =>
    have polled := @poll_resting { w with crew := [] } other t s rounds
    rw [if_neg (Nat.not_le.mpr early)] at polled
    have same : { w with crew := [resting number other t s] } = w := by rw [← crew]
    exact (settle_idle crew rfl polled turns).trans (congrArg (Prod.mk false) same)

theorem settle_rested (crew : w.crew = [resting number other t s]) (late : t ≤ w.time)
    (rounds turns : Nat) : settle rounds (turns + 1) w =
      (true, { w with
        crew := []
        alive := w.alive.erase number }) := by
  have polled := @poll_resting { w with crew := [] } other t s rounds
  rw [if_pos late] at polled
  exact settle_ended crew rfl polled turns

theorem ending_alone (w : World) (s : Span) : World.ending s { w with crew := [] } = w.ending s :=
  World.ending_of_time (w := w) (v := { w with crew := [] }) rfl s

theorem settle_pausing_due (crew : w.crew = [(number, ⟨ask (.pause s), none⟩)])
    (due : w.ending s ≤ w.time) (rounds turns : Nat) : settle rounds (turns + 1) w =
      (true, { w with
        crew := []
        alive := w.alive.erase number }) := by
  rw [← ending_alone] at due
  exact settle_ended crew rfl (@poll_pause_due { w with crew := [] } s due rounds) turns

theorem settle_pausing (crew : w.crew = [(number, ⟨ask (.pause s), none⟩)])
    (early : w.time < w.ending s) (rounds turns : Nat) : settle rounds (turns + 1) w =
      (true, { w with
        fresh := w.fresh + 1
        crew := [resting number w.fresh (w.ending s) s] }) := by
  have later := early
  rw [← ending_alone] at later
  have polled := @poll_pause { w with crew := [] } s later rounds
  rw [ending_alone] at polled
  have rest := @settle_resting
    { w with
      fresh := w.fresh + 1
      crew := [resting number w.fresh (w.ending s) s] } _ _ _ _ rfl early rounds turns
  exact (settle_began crew rfl polled turns).trans
    (congrArg (Prod.mk true) (congrArg Prod.snd rest))

theorem resume_labour (w : World) (number : Nat) (work : Labour) :
    w.resume ⟨number, none⟩ (.labour work) =
      if w.alive.contains number then (none, w) else (some work.outcome, w) := rfl

section Work

variable {β : Type} {rounds : Nat} {work : Labour} {more : Outcome → Script β}

/-- One who waits for a handler's work. -/
def served (work : Labour) (more : Outcome → Script β) (number : Nat) : Fiber β :=
  ⟨.ask (.labour work) more, some ⟨number, none⟩⟩

theorem poll_served (busy : w.alive = [number]) :
    pollCourse rounds (.running (served work more number)) w =
      (.running (served work more number), false, w) := by
  have resumes := resume_labour w number work
  rw [busy, List.contains_cons, beq_self_eq_true, Bool.true_or, if_pos rfl] at resumes
  simp only [served, pollCourse, poll, resumes]
  rfl

theorem poll_served_done (free : w.alive = []) :
    pollCourse rounds (.running (served work more number)) w =
      pollCourse rounds (begun (more work.outcome)) w := by
  have resumes := resume_labour w number work
  rw [free, List.contains_nil, if_neg Bool.false_ne_true] at resumes
  simp only [served, pollCourse, poll, resumes, begun, Option.isNone_none]

/-- The handler ends its work, and then the other goes on. -/
theorem runAll_served (crew : w.crew = [resting number other t s]) (busy : w.alive = [number])
    (early : w.time < t) (left : Nat) :
    runAll rounds (left + 3) [.running (served work more number)] w =
      runAll rounds (left + 1) [begun (more work.outcome)] { w with
        time := t
        crew := []
        alive := w.alive.erase number } := by
  have next : earliest (deadlines [.running (served work more number)] w) = some t := by
    simp [deadlines, served, crew, resting, dueOf, earliest]
  have free : w.alive.erase number = [] := by rw [busy, List.erase_cons_head]
  refine (runAll_jump (poll_served busy) (settle_resting crew early _ _) next).trans ?_
  have again : pollCourse rounds (.running (served work more number)) { w with time := t } =
      (.running (served work more number), false, { w with time := t }) := poll_served busy
  have ended := @settle_rested { w with time := t } number other t s crew (Nat.le_refl t) rounds
    left
  refine (runAll_crew again ended).trans ?_
  exact runAll_congr (poll_served_done free) left

end Work

section Work

variable {u : World} {rounds : Nat} {work : Labour}
  (begins : w.begin rounds (.labour work) = (.held ⟨number, none⟩, u))
  (crew : u.crew = [(number, ⟨ask (.pause work.takes), none⟩)]) (alive : u.alive = [number])
include begins

theorem poll_labour {β : Type} (more : Outcome → Script β) :
    pollCourse rounds (begun (.ask (.labour work) more)) w =
      (.running (served work more number), true, u) := by
  simp only [begun, pollCourse, poll, begins, Option.isNone_none]
  rfl

include crew alive

theorem brings_work_due (due : u.ending work.takes ≤ u.time) :
    Brings rounds 1 (ask (.labour work)) w work.outcome { u with
      crew := []
      alive := u.alive.erase number } := by
  refine ⟨fun more left => ?_⟩
  have free : u.alive.erase number = [] := by rw [alive, List.erase_cons_head]
  rw [Nat.add_comm 1 left]
  refine (runAll_moved (poll_labour begins more) (settle_pausing_due crew due rounds left)).trans ?_
  exact runAll_congr (poll_served_done free) left

theorem brings_work (early : u.time < u.ending work.takes) :
    Brings rounds 3 (ask (.labour work)) w work.outcome { u with
      fresh := u.fresh + 1
      time := u.ending work.takes
      crew := []
      alive := u.alive.erase number } := by
  refine ⟨fun more left => ?_⟩
  have turns : 3 + left + 1 = left + 3 + 1 := by omega
  have started := settle_pausing crew early rounds (left + 2)
  rw [turns]
  refine (runAll_moved (poll_labour begins more) started).trans ?_
  exact @runAll_served { u with
    fresh := u.fresh + 1
    crew := [resting number u.fresh (u.ending work.takes) work.takes] } _ _ _ _ _ _ _ _ rfl alive
    early left

end Work

end Labour

theorem brings_labour {w : World} (deserted : w.Deserted) (work : Labour) : ∃ turns v,
    (∀ rounds, Brings rounds turns (ask (.labour work)) w work.outcome v) ∧ w.Still v := by
  obtain ⟨u, same⟩ : ∃ u, u = (w.start (ask (.pause work.takes))).2 := ⟨_, rfl⟩
  have begins (rounds : Nat) : w.begin rounds (.labour work) = (.held ⟨w.fresh, none⟩, u) := by
    rw [same]
    rfl
  have crew : u.crew = [(w.fresh, ⟨ask (.pause work.takes), none⟩)] := by
    rw [same, World.start, deserted.crew]
    rfl
  have alive : u.alive = [w.fresh] := by rw [same, World.start, deserted.alive]
  have bell : u.bell = w.bell := by rw [same, World.start]
  have given : u.given = w.given := by rw [same, World.start]
  have time : u.time = w.time := by rw [same, World.start]
  have queue : u.queue = w.queue := by rw [same, World.start]
  have clock : u.clock = w.clock := by rw [same, World.start]
  have free : u.alive.erase w.fresh = [] := by rw [alive, List.erase_cons_head]
  have waiting : u.bell.waiting = [] := by rw [bell, deserted.waiting]
  have woken : u.bell.woken = [] := by rw [bell, deserted.woken]
  by_cases due : u.ending work.takes ≤ u.time
  · exact ⟨1, _, fun rounds => brings_work_due (begins rounds) crew alive due,
      ⟨⟨rfl, free, waiting, woken⟩, given, Nat.le_of_eq time.symm⟩, queue, clock⟩
  · have early := Nat.lt_of_not_le due
    exact ⟨3, _, fun rounds => brings_work (begins rounds) crew alive early,
      ⟨⟨rfl, free, waiting, woken⟩, given, time ▸ Nat.le_of_lt early⟩, queue, clock⟩

end Simulation

end ClaimQueue
