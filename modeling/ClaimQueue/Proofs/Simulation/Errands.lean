import ClaimQueue.Proofs.Local.Waits
import ClaimQueue.Proofs.Simulation.Alone
import ClaimQueue.Proofs.Worker.Runs

/-! A worker alone with a queue in memory: what each of its questions comes to. No call fails; a
wait for a task ends with the first one pending, or when its time is up, and a ring that was kept
only makes it look once more. -/

namespace ClaimQueue

namespace Simulation

variable {signal : Signal} {w u v : World} {due : Span}

/-! A wait for a task. -/

theorem ahead_access (deserted : w.Deserted) (a : Access) : w.Ahead (w.access a).2 :=
  ⟨⟨deserted.crew, deserted.alive, deserted.waiting, deserted.woken⟩, rfl, Nat.le_refl w.time⟩

theorem brings_take (rounds : Nat) (signal : Signal) (w : World) :
    Brings rounds 0 (ask (.heeding signal (.access .take))) w (some (w.access .take).1)
      (w.access .take).2 :=
  .now rfl

/-- A ring was kept. -/
theorem brings_ring (deserted : w.Deserted) (kept : w.bell.kept = true) (signal : Signal)
    (due : Span) : ∃ v, (∀ rounds, Brings rounds 0 (ask (.heeding signal (.attend due))) w
      (some true) v) ∧ w.Ahead v ∧ v.time = w.time ∧ v.queue = w.queue ∧ v.bell.kept = false := by
  refine ⟨{ w with
    fresh := w.fresh + 1
    bell := { w.bell with kept := false } }, fun rounds => .now ?_, ⟨?_, rfl, Nat.le_refl _⟩, rfl,
    rfl, rfl⟩
  · simp [World.begin, World.beginStep, World.beginAttend, World.number, Bell.register, kept,
      Begun.map]
  · exact ⟨deserted.crew, deserted.alive, deserted.waiting, deserted.woken⟩

theorem resume_attend {number t : Nat} (late : ¬ t ≤ w.time)
    (unheard : w.given.contains signal = false) (woken : w.bell.woken = []) (due : Span) :
    w.resume ⟨number, some t⟩ (.heeding signal (.attend due)) = (none, w) := by
  have asleep : w.bell.resume? number = none := by simp [Bell.resume?, woken]
  simp only [World.resume, unheard, World.resumeStep, World.resumeAttend, asleep, World.isOver,
    late]
  rfl

theorem resume_attend_late {number t : Nat} (late : t ≤ w.time)
    (unheard : w.given.contains signal = false) (woken : w.bell.woken = []) (due : Span) :
    w.resume ⟨number, some t⟩ (.heeding signal (.attend due)) =
      (some (some false), { w with bell := w.bell.leave number }) := by
  have asleep : w.bell.resume? number = none := by simp [Bell.resume?, woken]
  simp only [World.resume, unheard, World.resumeStep, World.resumeAttend, asleep, World.isOver,
    late]
  rfl

/-- Nobody rings. -/
theorem brings_vain (deserted : w.Deserted) (kept : w.bell.kept = false)
    (unheard : w.given.contains signal = false) (early : w.time < World.mark due) :
    ∃ v, (∀ rounds, Brings rounds 2 (ask (.heeding signal (.attend due))) w (some false) v) ∧
      w.Ahead v ∧ v.time = World.mark due := by
  have later : ¬ World.mark due ≤ w.time := Nat.not_le.mpr early
  obtain ⟨u, same⟩ : ∃ u : World, u = { w with
    fresh := w.fresh + 1
    bell := { w.bell with waiting := [w.fresh] } } := ⟨_, rfl⟩
  have begins (rounds : Nat) : w.begin rounds (.heeding signal (.attend due)) =
      (.held ⟨w.fresh, some (World.mark due)⟩, u) := by
    simp [World.begin, World.beginStep, World.beginAttend, World.number, Bell.register, kept,
      deserted.waiting, World.isDue, later, Begun.map, same]
  have crew : u.crew = [] := by rw [same, deserted.crew]
  have alive : u.alive = [] := by rw [same, deserted.alive]
  have woken : u.bell.woken = [] := by rw [same, deserted.woken]
  have given : u.given = w.given := by rw [same]
  have time : u.time = w.time := by rw [same]
  have left : u.bell.leave w.fresh = { w.bell with waiting := [] } := by
    simp [same, Bell.leave, deserted.woken]
  rw [← given] at unheard
  rw [← time] at later
  have asleep := @resume_attend signal u w.fresh _ later unheard woken due
  have late := @resume_attend_late signal { u with time := World.mark due } w.fresh _
    (Nat.le_refl _) unheard woken due
  refine ⟨_, fun rounds => .wait (begins rounds) crew asleep late,
    ⟨⟨crew, alive, ?_, ?_⟩, given, ?_⟩, rfl⟩
  · rw [left]
  · rw [left]
    exact deserted.woken
  · exact Nat.le_of_lt early

/-! Looks, until there is a task or the time is up. -/

open LocalQueue (looking looking_succ)

variable {rounds looks : Nat}

theorem looking_finds {t : Task} (found : (w.access .take).1 = some t) :
    Brings rounds 0 (heeding signal (looking (looks + 1) due)) w (some (.ok (some t)))
      (w.access .take).2 := by
  have first := brings_take rounds signal w
  rw [found] at first
  rw [looking_succ]
  exact first.first (.done rounds _ _)

theorem looking_waits {turns : Nat} (nothing : (w.access .take).1 = none)
    (vain : Brings rounds turns (ask (.heeding signal (.attend due))) (w.access .take).2
      (some false) v) :
    Brings rounds turns (heeding signal (looking (looks + 1) due)) w (some (.ok none)) v := by
  have first := brings_take rounds signal w
  rw [nothing] at first
  rw [looking_succ]
  exact first.first (vain.last rfl)

theorem looking_again {turns : Nat} {r : Option (Except QueueError (Option Task))}
    (nothing : (w.access .take).1 = none)
    (rung : Brings rounds 0 (ask (.heeding signal (.attend due))) (w.access .take).2 (some true) u)
    (rest : Brings rounds turns (heeding signal (looking looks due)) u r v) :
    Brings rounds turns (heeding signal (looking (looks + 1) due)) w r v := by
  have first := brings_take rounds signal w
  rw [nothing] at first
  rw [looking_succ]
  exact first.first (rung.first rest)

/-- What a wait for a task gives, and when. -/
structure Popped (w v : World) (ends : Nat) (found : Option Task) : Prop where
  ahead : w.Ahead v
  soon : found ≠ none → v.time = w.time
  late : found = none → v.time = ends

theorem popped_take (deserted : w.Deserted) (ends : Nat) (t : Task) :
    Popped w (w.access .take).2 ends (some t) :=
  ⟨ahead_access deserted .take, fun _ => rfl, fun same => (by cases same)⟩

theorem brings_looking_unrung (deserted : w.Deserted) (unheard : w.given.contains signal = false)
    (early : w.time < World.mark due) (kept : w.bell.kept = false) : ∃ turns found v,
      (∀ rounds looks, Brings rounds turns (heeding signal (looking (looks + 1) due)) w
        (some (.ok found)) v) ∧ Popped w v (World.mark due) found := by
  have ahead := ahead_access deserted .take
  cases found : (w.access .take).1 with
  | some t => exact ⟨0, some t, _, fun _ _ => looking_finds found, popped_take deserted _ t⟩
  | none =>
    obtain ⟨v, vain, onward, time⟩ := @brings_vain signal (w.access .take).2 due ahead.deserted kept
      unheard early
    exact ⟨2, none, v, fun rounds looks => looking_waits found (vain rounds), ahead.trans onward,
      fun task => absurd rfl task, fun _ => time⟩

/-- A ring that was kept makes for one more look. -/
theorem brings_looking (deserted : w.Deserted) (unheard : w.given.contains signal = false)
    (early : w.time < World.mark due) : ∃ turns found v,
      (∀ rounds looks, Brings rounds turns (heeding signal (looking (looks + 2) due)) w
        (some (.ok found)) v) ∧ Popped w v (World.mark due) found := by
  cases kept : w.bell.kept with
  | false =>
    obtain ⟨turns, found, v, brings, popped⟩ := brings_looking_unrung deserted unheard early kept
    exact ⟨turns, found, v, fun rounds looks => brings rounds (looks + 1), popped⟩
  | true =>
    have ahead := ahead_access deserted .take
    cases found : (w.access .take).1 with
    | some t => exact ⟨0, some t, _, fun _ _ => looking_finds found, popped_take deserted _ t⟩
    | none =>
      obtain ⟨u, rung, onward, time, queue, unrung⟩ :=
        brings_ring ahead.deserted kept signal due
      have ahead := ahead.trans onward
      obtain ⟨turns, found', v, brings, popped⟩ := brings_looking_unrung onward.deserted
        (ahead.given ▸ unheard) (time ▸ early) unrung
      exact ⟨turns, found', v,
        fun rounds looks => looking_again found (rung rounds) (brings rounds looks),
        ahead.trans popped.ahead, fun task => (popped.soon task).trans time, popped.late⟩

/-! The questions of a worker. -/

/-- To a question that its worker asks, this is the answer after so many turns. -/
def Hears (signal : Signal) (turns : Nat) (q : Worker.Ask) (w : World) (r : q.Answer) (v : World) :
    Prop :=
  ∀ rounds, Brings (rounds + 2) turns (workerAsk (rounds + 2) signal q) w r v

theorem hears_stopSeen (signal : Signal) (w : World) :
    Hears signal 0 .stopSeen w (w.given.contains signal) w :=
  fun _ => .now rfl

theorem hears_elapsed (signal : Signal) (w : World) : Hears signal 0 .elapsed w w.elapsed w :=
  fun _ => .now rfl

theorem hears_pause (signal : Signal) (deserted : w.Deserted) (s : Span) : ∃ turns v,
    Hears signal turns (.pause s) w () v ∧ w.Still v ∧ v.time = max w.time (w.ending s) := by
  obtain ⟨turns, v, brings, still, time⟩ := brings_pause deserted s
  exact ⟨turns, v, fun rounds => brings _, still, time⟩

theorem hears_labour (signal : Signal) (deserted : w.Deserted) (work : Labour) : ∃ turns v,
    Hears signal turns (.labour work) w work.outcome v ∧ w.Still v := by
  obtain ⟨turns, v, brings, still⟩ := brings_labour deserted work
  exact ⟨turns, v, fun rounds => brings _, still⟩

theorem hears_clock (signal : Signal) (w : World) : Hears signal 0 .clock w w.clock w :=
  fun _ => .now rfl

/-- All that was done was done to the queue, and in no time. -/
structure World.Turned (w v : World) (q : LocalQueue) : Prop extends w.Ahead v where
  time : v.time = w.time
  queue : v.queue = q
  clock : v.clock = w.clock

theorem hears_ack (signal : Signal) (deserted : w.Deserted) (id : String) : ∃ v,
    Hears signal 0 (.ack id) w (.ok ()) v ∧ w.Turned v (w.queue.ack id) := by
  have acked (rounds : Nat) : Brings rounds 0 (ask (.step (.access (.ack id)))) w ()
      (w.access (.ack id)).2 := .now rfl
  exact ⟨_, fun rounds => (acked _).first (.done _ _ _), ahead_access deserted (.ack id), rfl, rfl,
    rfl⟩

theorem hears_publish (signal : Signal) (deserted : w.Deserted) (r : TaskResult) : ∃ v,
    Hears signal 0 (.publish r) w (.ok ()) v ∧ w.Turned v (w.queue.save r) := by
  have saved (rounds : Nat) : Brings rounds 0 (ask (.step (.access (.save r)))) w ()
      (w.access (.save r)).2 := .now rfl
  have announced (rounds : Nat) (u : World) : Brings rounds 0 (ask (.step .announce)) u ()
      { u with announced := u.announced + 1 } := .now rfl
  refine ⟨_, fun rounds => (saved _).first ((announced _ _).first (.done _ _ _)), ⟨?_, rfl, ?_⟩,
    rfl, rfl, rfl⟩
  · exact ⟨deserted.crew, deserted.alive, deserted.waiting, deserted.woken⟩
  · exact Nat.le_refl _

/-- A task asked for comes as soon as a look for it comes to its end. -/
theorem hears_look (unheard : w.given.contains signal = false) {wait : Span} {turns : Nat}
    {found : Option Task}
    (brings : ∀ rounds looks, Brings rounds turns
      (heeding signal (looking (looks + 2) ⟨w.elapsed.nanos + wait.nanos⟩)) w (some (.ok found)) v) :
    Hears signal turns (.pop wait) w (some (.ok found)) v := by
  intro rounds
  have asked : Brings (rounds + 2) 0 (ask (.given signal)) w false w :=
    .now (congrArg (fun given => (Begun.now given, w)) unheard)
  have started : Brings (rounds + 2) 0 (ask (.heeding signal .elapsed)) w (some w.elapsed) w :=
    .now rfl
  exact asked.first (started.first (brings (rounds + 2) rounds))

theorem hears_pop (deserted : w.Deserted) (unheard : w.given.contains signal = false) {wait : Span}
    (early : w.time < w.ending wait) : ∃ turns found v,
      Hears signal turns (.pop wait) w (some (.ok found)) v ∧ Popped w v (w.ending wait) found := by
  rw [World.ending] at early ⊢
  obtain ⟨turns, found, v, brings, popped⟩ := brings_looking deserted unheard early
  exact ⟨turns, found, v, hears_look unheard brings, popped⟩

theorem ring_of_nobody {b : Bell} (nobody : b.waiting = []) : b.ring = { b with kept := true } := by
  simp [Bell.ring, nobody]

theorem hears_release (signal : Signal) (deserted : w.Deserted) (id : String) : ∃ v,
    Hears signal 0 (.release id) w (.ok ()) v ∧
      w.Turned v ((w.queue.release? id).getD w.queue) := by
  have first (rounds : Nat) : Brings rounds 0 (ask (.step (.access (.release id)))) w
      (w.access (.release id)).1 (w.access (.release id)).2 := .now rfl
  cases released : w.queue.release? id with
  | none =>
    have refused : w.access (.release id) = (false, w) := by
      simp only [World.access, Access.perform, released, Access.accepted]
    rw [refused] at first
    exact ⟨w, fun rounds => (first _).first (.done _ _ _), deserted.ahead, rfl, rfl, rfl⟩
  | some q =>
    have accepted : w.access (.release id) = (true, { w with queue := q }) := by
      simp only [World.access, Access.perform, released, Access.accepted]
    rw [accepted] at first
    have rung (rounds : Nat) : Brings rounds 0 (ask (.step .ring)) { w with queue := q } ()
        { w with queue := q, bell := { w.bell with kept := true } } := by
      rw [← ring_of_nobody deserted.waiting]
      exact .now rfl
    exact ⟨_, fun rounds => (first _).first ((rung _).first (.done _ _ _)),
      ⟨⟨deserted.crew, deserted.alive, deserted.waiting, deserted.woken⟩, rfl, Nat.le_refl _⟩, rfl,
      rfl, rfl⟩

/-- What belongs to a claimed task takes no time, but for the handler's work. -/
theorem hears_own (signal : Signal) (deserted : w.Deserted) {q : Worker.Ask} (own : q.isOwn) :
    ∃ turns r v, Hears signal turns q w r v ∧ w.Ahead v ∧
      ((∀ work, q ≠ .labour work) → v.time = w.time) := by
  cases q with
  | stopSeen | elapsed | pop | pause => cases own
  | clock => exact ⟨0, w.clock, w, hears_clock signal w, deserted.ahead, fun _ => rfl⟩
  | labour work =>
    obtain ⟨turns, v, hears, still⟩ := hears_labour signal deserted work
    exact ⟨turns, work.outcome, v, hears, still.toAhead, fun other => absurd rfl (other work)⟩
  | ack id =>
    obtain ⟨v, hears, turned⟩ := hears_ack signal deserted id
    exact ⟨0, .ok (), v, hears, turned.toAhead, fun _ => turned.time⟩
  | publish r =>
    obtain ⟨v, hears, turned⟩ := hears_publish signal deserted r
    exact ⟨0, .ok (), v, hears, turned.toAhead, fun _ => turned.time⟩
  | release id =>
    obtain ⟨v, hears, turned⟩ := hears_release signal deserted id
    exact ⟨0, .ok (), v, hears, turned.toAhead, fun _ => turned.time⟩

end Simulation

end ClaimQueue
