import ClaimQueue.Proofs.Local.Places
import ClaimQueue.Proofs.Simulation.Leaving
import ClaimQueue.Proofs.Worker.Routing

/-! A worker alone with a queue in memory comes to the task that it can run. Those that it cannot run
it hands back, last in line and each at the price of one pause, and as it is still patient after so
many pauses, the one it can run gets its turn. -/

namespace ClaimQueue

/-- The handler is through with the task, for good. -/
def Outcome.isLast : Outcome → Bool
  | .done _ => true
  | .failed e => !e.isRetryable
  | .skip _ | .fault _ => false

namespace LocalQueue

variable {q : LocalQueue} {t : Task} {rest : List Task}

/-- The first of the line is claimed. -/
def claimed (now : Instant) (t : Task) (rest : List Task) (q : LocalQueue) : LocalQueue :=
  { q with pending := rest, inFlight := q.inFlight.put t.id ⟨t, now⟩ }

theorem take?_eq (pending : q.pending = t :: rest) (now : Instant) :
    q.take? now = some (t, q.claimed now t rest) := by
  rw [take?, pending]
  rfl

/-- A claim that is given back at once leaves no trace but the task's place. -/
theorem release?_claimed (free : t.id ∉ q.inFlight.map Prod.fst) (now : Instant) :
    (q.claimed now t rest).release? t.id = some { q with pending := rest ++ [t] } := by
  have found : (q.claimed now t rest).inFlight.find? t.id = some ⟨t, now⟩ :=
    (Index.find?_put _ _ _ _).trans (if_pos rfl)
  rw [release?, found, Option.map_some, claimed, Index.erase_put_of_new _ free]

theorem ack_save_claimed (free : t.id ∉ q.inFlight.map Prod.fst) (now : Instant) (r : TaskResult) :
    ((q.claimed now t rest).save r).ack t.id =
      { q with pending := rest, results := q.results.put r.taskId r } := by
  rw [ack, save, claimed, Index.erase_put_of_new _ free]

theorem Sound.pending_nodup (sound : q.Sound) : (q.pending.map (·.id)).Nodup := by
  have once := sound.once
  simp only [ids, tasks, List.map_append] at once
  exact (List.nodup_append.mp (List.nodup_append.mp once).1).1

/-- No task that is pending is claimed. -/
theorem Sound.free (sound : q.Sound) (mem : t ∈ q.pending) : t.id ∉ q.inFlight.map Prod.fst := by
  have once := sound.once
  simp only [ids, tasks, List.map_append] at once
  have apart := (List.nodup_append.mp (List.nodup_append.mp once).1).2.2
  rw [keys_eq sound.keyed]
  intro claimed
  rw [List.map_map] at apart
  exact apart t.id (List.mem_map_of_mem mem) t.id claimed rfl

end LocalQueue

namespace Worker

/-- What the handlers were set to. -/
def labours (told : Told) : List Labour := told.filterMap fun
  | ⟨.labour work, _⟩ => some work
  | _ => none

theorem resultOf_of_isLast (t : Task) (now : Instant) {o : Outcome} (last : o.isLast = true) :
    ∃ r, resultOf t now o = .ok r ∧ Final r := by
  cases o with
  | done data => exact ⟨_, rfl, .inl rfl⟩
  | failed e =>
    have final : e.isRetryable = false := by simpa [Outcome.isLast] using last
    refine ⟨_, rfl, ?_⟩
    rw [final]
    exact final_refusal t e.message now
  | skip | fault => cases last

/-- After a final result the claim is acknowledged. -/
theorem settle_of_final (id : String) {r : TaskResult} (final : Final r) :
    settle id r = must (ask (.ack id)) := by
  rcases final with ok | ⟨error, last⟩
  · rw [settle, ok]
  · rw [settle, error]
    simp [last]

theorem stays_of_room {c : Config} {r : Reading} (stop : r.stop = false) (tasks : r.served < c.tasks)
    (uptime : ∀ limit ∈ c.uptimeLimit, r.uptime < limit.nanos)
    (idle : r.idle < c.idleLimit.nanos) : reasons.find? (r.holds c) = none := by
  have unspent : r.holds c .maxUptime = false := by
    unfold Reading.holds
    cases limited : c.uptimeLimit with
    | none => rfl
    | some limit => exact decide_eq_false (Nat.not_le.mpr (uptime limit limited))
  have unstopped : r.holds c .shutdown = false := stop
  have incomplete : r.holds c .completed = false := decide_eq_false (Nat.not_le.mpr tasks)
  have patient : r.holds c .idleTimeout = false := decide_eq_false (Nat.not_le.mpr idle)
  simp [reasons, unstopped, incomplete, unspent, patient]

end Worker

namespace Simulation

open Worker (Told Progress Config Template labours)

variable {signal : Signal} {t : Template} {started : Span} {p : Progress} {past : Told}
  {w : World} {q : LocalQueue} {task : Task} {rest : List Task}

/-- Enough patience for so many pauses. -/
structure Patient (c : Config) (started : Span) (pauses : Nat) (w : World) : Prop where
  later : started.nanos ≤ w.elapsed.nanos
  idle : w.elapsed.nanos + pauses * c.backoff.nanos < started.nanos + c.idleLimit.nanos
  uptime : ∀ limit ∈ c.uptimeLimit,
    w.elapsed.nanos + pauses * c.backoff.nanos < started.nanos + limit.nanos

theorem Patient.next {pauses : Nat} (patient : Patient t.config started pauses w)
    (unheard : w.given.contains signal = false) (tasks : 0 < t.config.tasks) :
    ∃ wait, Worker.next t.config started w.elapsed (w.given.contains signal) ⟨0, started⟩ =
      .inr wait := by
  have decided := Worker.next_eq t.config
    ⟨w.given.contains signal, w.elapsed, started, started, 0⟩
  obtain ⟨later, idle, uptime⟩ := patient
  rw [Worker.stays_of_room unheard tasks] at decided
  · exact ⟨_, decided⟩
  · intro limit limited
    have soon := uptime limit limited
    simp only [Worker.Reading.uptime]
    omega
  · simp only [Worker.Reading.idle]
    omega

theorem hears_first (unheard : w.given.contains signal = false) (wait : Span)
    (pending : w.queue.pending = task :: rest) :
    Hears signal 0 (.pop wait) w (some (.ok (some task)))
      { w with queue := w.queue.claimed w.clock task rest } := by
  have taken : w.access .take = (some task, { w with queue := w.queue.claimed w.clock task rest }) := by
    simp only [World.access, Access.perform, LocalQueue.take?_eq pending]
  refine hears_look unheard fun rounds looks => ?_
  have finds := @looking_finds signal w ⟨w.elapsed.nanos + wait.nanos⟩ rounds (looks + 1) task
    (congrArg Prod.fst taken)
  rwa [taken] at finds

/-- A claimed task that the worker cannot run is handed back, and then the worker pauses. -/
theorem comes_handBack {B : Nat} (deserted : w.Deserted)
    (queue : w.queue = q.claimed w.clock task rest) (free : task.id ∉ q.inFlight.map Prod.fst)
    (back : Worker.HandsBack t task) (backoff : t.config.backoff = .ofMillis B) : ∃ n told v,
      Comes signal n (Worker.serve t p task) past w (.inl p) told v ∧ w.Ahead v ∧
        v.queue = { q with pending := rest ++ [task] } ∧ v.clock = w.clock ∧
        v.time = w.time + B ∧ labours told = labours past := by
  obtain ⟨u, released, turned⟩ := hears_release signal deserted task.id
  obtain ⟨m, v, paused, still, late⟩ := hears_pause signal turned.deserted t.config.backoff
  have served : Comes signal (0 + (m + 0)) (Worker.serve t p task) past w (.inl p)
      (⟨.pause t.config.backoff, ()⟩ :: ⟨.release task.id, .ok ()⟩ :: past) v := by
    unfold Worker.serve
    rw [Worker.HandsBack] at back
    rw [back]
    exact .ask released (.ask paused (.done _ _ v))
  refine ⟨_, _, v, served, turned.trans still.toAhead, ?_, still.clock.trans turned.clock, ?_, rfl⟩
  · rw [still.queue, turned.queue, queue, LocalQueue.release?_claimed free, Option.getD_some]
  · rw [late, ending_eq, turned.time, backoff]
    simp only [Span.ofMillis]
    omega

/-- A claimed task that the worker can run gets its result, and is over. -/
theorem comes_execute {h : Handler} {r : TaskResult} (deserted : w.Deserted)
    (runs : Worker.process t task = Worker.execute h task)
    (result : Worker.resultOf task w.clock (h.run task).outcome = .ok r) (final : Worker.Final r) :
    ∃ n told v, Comes signal n (Worker.serve t p task) past w
      (.inl ⟨p.completed + 1, v.elapsed⟩) told v ∧ w.Ahead v ∧
        v.queue = (w.queue.save r).ack task.id ∧ labours told = h.run task :: labours past := by
  obtain ⟨m, u, worked, still⟩ := hears_labour signal deserted (h.run task)
  obtain ⟨u', published, turned⟩ := hears_publish signal still.deserted r
  obtain ⟨v, acked, turned'⟩ := hears_ack signal turned.deserted task.id
  rw [← still.clock] at result
  have served : Comes signal (m + (0 + (0 + (0 + (0 + 0))))) (Worker.serve t p task) past w
      (.inl ⟨p.completed + 1, v.elapsed⟩)
      (⟨.elapsed, v.elapsed⟩ :: ⟨.ack task.id, .ok ()⟩ :: ⟨.publish r, .ok ()⟩ ::
        ⟨.clock, u.clock⟩ :: ⟨.labour (h.run task), (h.run task).outcome⟩ :: past) v := by
    unfold Worker.serve
    rw [runs]
    refine .ask worked (.ask (hears_clock signal u) ?_)
    simp only [Function.comp, Program.bind, ExceptT.bindCont, result]
    refine .ask published ?_
    simp only [Program.bind, Worker.settle_of_final _ final]
    exact .ask acked (.ask (hears_elapsed signal v) (.done _ _ v))
  refine ⟨_, _, v, served, still.trans (turned.trans turned'.toAhead), ?_, rfl⟩
  rw [turned'.queue, turned.queue, still.queue]

/-! Rounds. -/

section Round

variable {B pauses : Nat} {h : Handler} {r : TaskResult}

theorem Patient.pause {v : World} (patient : Patient t.config started (pauses + 1) w)
    (backoff : t.config.backoff = .ofMillis B) (time : v.time = w.time + B) :
    Patient t.config started pauses v := by
  have rested : v.elapsed.nanos = w.elapsed.nanos + t.config.backoff.nanos := by
    rw [backoff]
    simp only [World.elapsed, Span.ofMillis, time, Nat.add_mul]
  obtain ⟨later, idle, uptime⟩ := patient
  rw [Nat.succ_mul] at idle
  refine ⟨by omega, by omega, fun limit limited => ?_⟩
  have soon := uptime limit limited
  rw [Nat.succ_mul] at soon
  omega

theorem ahead_queue (deserted : w.Deserted) (q : LocalQueue) : w.Ahead { w with queue := q } :=
  ⟨⟨deserted.crew, deserted.alive, deserted.waiting, deserted.woken⟩, rfl, Nat.le_refl _⟩

variable (deserted : w.Deserted) (unheard : w.given.contains signal = false)
  (tasks : t.config.tasks = 1)
include deserted unheard tasks

section Claim

variable (patient : Patient t.config started pauses w) (pending : w.queue.pending = task :: rest)
include patient pending

omit deserted in
/-- The first of the line is claimed, and the rest of the round is for it. -/
theorem round_claims (past : Told) : ∃ told, labours told = labours past ∧ ∀ {n o now v},
    Comes signal n (Worker.serve t ⟨0, started⟩ task) told
      { w with queue := w.queue.claimed w.clock task rest } o now v →
    Comes signal (0 + (0 + (0 + n))) (Worker.round t started ⟨0, started⟩) past w o now v := by
  obtain ⟨wait, next⟩ := patient.next unheard (by omega)
  exact ⟨Worker.claiming wait task (looked signal w past), rfl,
    fun served => comes_claim next (hears_first unheard wait pending) served⟩

variable (free : task.id ∉ w.queue.inFlight.map Prod.fst)
include free

theorem round_passes (past : Told) (backoff : t.config.backoff = .ofMillis B) (back : Worker.HandsBack t task) :
    ∃ n told v, Comes signal n (Worker.round t started ⟨0, started⟩) past w (.inl ⟨0, started⟩) told
      v ∧ w.Ahead v ∧ v.queue = { w.queue with pending := rest ++ [task] } ∧ v.clock = w.clock ∧
      v.time = w.time + B ∧ labours told = labours past := by
  have taken := ahead_queue deserted (w.queue.claimed w.clock task rest)
  obtain ⟨before, none, round⟩ := round_claims unheard tasks patient pending past
  obtain ⟨n, told, v, served, ahead, queue, clock, time, idle⟩ :=
    @comes_handBack signal t ⟨0, started⟩ before _ w.queue task rest B taken.deserted rfl free back
      backoff
  exact ⟨_, told, v, round served, taken.trans ahead, queue, clock, time, idle.trans none⟩

theorem round_executes (past : Told) (runs : Worker.process t task = Worker.execute h task)
    (result : Worker.resultOf task w.clock (h.run task).outcome = .ok r) (final : Worker.Final r) :
    ∃ n told v, Comes signal n (Worker.round t started ⟨0, started⟩) past w
      (.inl ⟨1, v.elapsed⟩) told v ∧ w.Ahead v ∧
        v.queue = { w.queue with pending := rest, results := w.queue.results.put r.taskId r } ∧
        labours told = h.run task :: labours past := by
  have taken := ahead_queue deserted (w.queue.claimed w.clock task rest)
  obtain ⟨before, none, round⟩ := round_claims unheard tasks patient pending past
  obtain ⟨n, told, v, served, ahead, queue, worked⟩ :=
    @comes_execute signal t ⟨0, started⟩ before _ task h r taken.deserted runs result final
  exact ⟨_, told, v, round served, taken.trans ahead,
    queue.trans (LocalQueue.ack_save_claimed free _ r), worked.trans (by rw [none])⟩

end Claim

/-- One round for each task that is handed back, one for the task that is run, and one to leave. -/
theorem loop_passes {us : List Task} (past : Told) (backoff : t.config.backoff = .ofMillis B)
    (patient : Patient t.config started us.length w)
    (pending : w.queue.pending = us ++ task :: rest)
    (free : ∀ u ∈ us ++ [task], u.id ∉ w.queue.inFlight.map Prod.fst)
    (backs : ∀ u ∈ us, Worker.HandsBack t u)
    (runs : Worker.process t task = Worker.execute h task)
    (result : Worker.resultOf task w.clock (h.run task).outcome = .ok r) (final : Worker.Final r) :
    ∃ n told v, (∀ rounds, us.length + 2 ≤ rounds →
      Comes signal n (Program.loop (Worker.round t started) rounds ⟨0, started⟩) past w
        (.ok ⟨.completed, 1⟩) told v) ∧
      v.queue = { w.queue with
        pending := rest ++ us
        results := w.queue.results.put r.taskId r } ∧
      labours told = h.run task :: labours past := by
  induction us generalizing w past rest with
  | nil =>
    obtain ⟨n, told, v, round, ahead, queue, worked⟩ := round_executes deserted unheard
      tasks patient pending (free task List.mem_cons_self) past runs result final
    have full : Worker.next t.config started v.elapsed (v.given.contains signal) ⟨1, v.elapsed⟩ =
        .inl .completed := by
      rw [ahead.given, unheard]
      simp [Worker.next, tasks]
    refine ⟨n + (0 + (0 + 0) + 0), looked signal v told, v, fun rounds enough => ?_, ?_, worked⟩
    · obtain ⟨rounds, rfl⟩ : ∃ more, rounds = more + 2 := ⟨rounds - 2, (Nat.sub_add_cancel enough).symm⟩
      exact round.bind ((comes_leave full).bind (.done _ _ v))
    · rw [queue, List.append_nil]
  | cons u us ih =>
    rw [List.forall_mem_cons] at backs
    rw [List.cons_append, List.forall_mem_cons] at free
    obtain ⟨m, now, v, round, ahead, queue, clock, time, idle⟩ := round_passes deserted
      unheard tasks patient pending free.1 past backoff backs.1
    -- From here on the task stands last in line, and the others have moved up.
    have later : v.queue.pending = us ++ task :: (rest ++ [u]) := by
      rw [queue]
      exact List.append_assoc us (task :: rest) [u]
    have claims : v.queue.inFlight = w.queue.inFlight := by rw [queue]
    obtain ⟨n, told, x, comes, after, worked⟩ := ih ahead.deserted
      (ahead.given ▸ unheard) now (patient.pause backoff time) later (claims ▸ free.2) backs.2
      (clock ▸ result)
    refine ⟨m + n, told, x, fun rounds enough => ?_, ?_, worked.trans (by rw [idle])⟩
    · rw [List.length_cons] at enough
      obtain ⟨rounds, rfl⟩ : ∃ more, rounds = more + 1 := ⟨rounds - 1, by omega⟩
      exact round.bind (comes rounds (by omega))
    · rw [after, queue, List.append_assoc]
      rfl

end Round

/-- A worker alone with a queue in memory, with tasks in front that it cannot run and then one that
it can: if it is patient enough for a pause for each of the others, it runs that one and nothing
else, and leaves. The others are last in line, as they were and without a result. -/
theorem lone_worker_reaches_its_task {w : World} (deserted : w.Deserted) {signal : Signal}
    (unheard : w.given.contains signal = false) (sound : w.queue.Sound) {us rest : List Task}
    {r : Task} (pending : w.queue.pending = us ++ r :: rest) {t : Template}
    (backs : ∀ u ∈ us, Worker.HandsBack t u) {h : Handler} (runs : Worker.Runs t r h)
    (last : (h.run r).outcome.isLast = true) (tasks : t.config.tasks = 1) {B : Nat}
    (backoff : t.config.backoff = .ofMillis B)
    (idle : us.length * t.config.backoff.nanos < t.config.idleLimit.nanos)
    (uptime : ∀ limit ∈ t.config.uptimeLimit,
      us.length * t.config.backoff.nanos < limit.nanos) : ∃ turns told result v,
      Worker.resultOf r w.clock (h.run r).outcome = .ok result ∧ Worker.Final result ∧
      labours told = [h.run r] ∧
      v.queue = { w.queue with
        pending := rest ++ us
        results := w.queue.results.put r.id result } ∧
      (∀ u ∈ us, v.queue.results.find? u.id = w.queue.results.find? u.id) ∧
      ∀ rounds more, us.length + 2 ≤ rounds → turns < more →
        runAll rounds more [begun (workerRun rounds signal t)] w =
          (some [.ended (.ok ⟨.completed, 1⟩)], v) ∧
        runAll rounds more [begun (diary rounds signal t)] w =
          (some [.ended (.ok ⟨.completed, 1⟩, told)], v) := by
  obtain ⟨result, given, final⟩ := Worker.resultOf_of_isLast r w.clock last
  have own := Worker.taskId_of_resultOf given
  have patient : Patient t.config w.elapsed us.length w :=
    ⟨Nat.le_refl _, Nat.add_lt_add_left idle _,
      fun limit limited => Nat.add_lt_add_left (uptime limit limited) _⟩
  have free : ∀ u ∈ us ++ [r], u.id ∉ w.queue.inFlight.map Prod.fst := by
    intro u mem
    refine sound.free ?_
    rw [pending]
    exact List.mem_append.mpr ((List.mem_append.mp mem).imp_right fun mem =>
      List.mem_cons.mpr (.inl (List.mem_singleton.mp mem)))
  obtain ⟨n, told, v, loop, queue, worked⟩ := loop_passes deserted unheard tasks
    [⟨.elapsed, w.elapsed⟩] backoff patient pending free backs runs.2 given final
  rw [own] at queue
  refine ⟨0 + n, told, result, v, given, final, worked, queue, fun u mem => ?_,
    fun rounds more rounded enough => ?_⟩
  · have once := sound.pending_nodup
    rw [pending, List.map_append] at once
    have other : u.id ≠ r.id :=
      (List.nodup_append.mp once).2.2 _ (List.mem_map_of_mem mem) _ List.mem_cons_self
    rw [queue, Index.find?_put, if_neg other.symm]
  · obtain ⟨looks, rfl⟩ : ∃ looks, rounds = looks + 2 := ⟨rounds - 2, by omega⟩
    have whole : Comes signal (0 + n) (Worker.run (looks + 2) t) [] w (.ok ⟨.completed, 1⟩) told v :=
      .ask (hears_elapsed signal w) (loop (looks + 2) rounded)
    exact ⟨(whole.brings looks).runAll enough, (whole.brings_told looks).runAll enough⟩

private def load (id : String) (requires : CapabilitySet) : Task :=
  ⟨.render, id, [], requires, 0, .epoch, 1⟩

private def crane : CapabilitySet := .ofList ["crane"]

/-- Has no crane. -/
private def lifter : Handler := ⟨"lift", .render, .empty, fun _ => ⟨.ofMillis 5, .done []⟩⟩

private def porter : Template where
  registry := ⟨[lifter]⟩
  config := {
    idleLimit := .ofMillis 3
    poll := .ofMillis 1
    backoff := .ofMillis 1 }

private def quay : World where
  clock := .epoch
  queue := { pending := [load "piano" crane, load "safe" crane, load "chair" .empty] }

theorem porter_reaches_the_chair : quay.Deserted ∧ quay.queue.Sound ∧
    Worker.HandsBack porter (load "piano" crane) ∧ Worker.HandsBack porter (load "safe" crane) ∧
    Worker.Runs porter (load "chair" .empty) lifter ∧
    ∃ turns v, v.queue.pending = [load "piano" crane, load "safe" crane] ∧
      v.queue.results.keys = ["chair"] ∧ ∀ rounds more, 4 ≤ rounds → turns < more →
        runAll rounds more [begun (workerRun rounds 0 porter)] quay =
          (some [.ended (.ok ⟨.completed, 1⟩)], v) := by
  have deserted : quay.Deserted := ⟨rfl, rfl, rfl, rfl⟩
  have sound : quay.queue.Sound := ⟨by decide, fun _ mem => (List.not_mem_nil mem).elim⟩
  have piano : Worker.HandsBack porter (load "piano" crane) := Worker.handsBack_of_eq rfl
  have safe : Worker.HandsBack porter (load "safe" crane) := Worker.handsBack_of_eq rfl
  have runs : Worker.Runs porter (load "chair" .empty) lifter := ⟨List.mem_singleton_self _, rfl⟩
  have backs : ∀ u ∈ [load "piano" crane, load "safe" crane], Worker.HandsBack porter u := by
    rintro u (_ | ⟨_, _ | ⟨_, ⟨⟩⟩⟩)
    · exact piano
    · exact safe
  obtain ⟨turns, told, result, v, -, -, -, queue, -, leaves⟩ := @lone_worker_reaches_its_task quay
    deserted 0 rfl sound _ [] _ rfl porter backs lifter runs rfl rfl 1 rfl (by decide) nofun
  refine ⟨deserted, sound, piano, safe, runs, turns, v, ?_, ?_, fun rounds more rounded enough =>
    (leaves rounds more rounded enough).1⟩
  · rw [queue]
    rfl
  · rw [queue]
    rfl

end Simulation

end ClaimQueue
