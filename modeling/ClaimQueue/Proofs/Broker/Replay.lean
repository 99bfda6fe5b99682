import ClaimQueue.Proofs.Broker.Contest

/-! A single replay with commands and replies lost on the way. The item is removed by one command and
its task appended by the next, so between the two the task is nowhere but in the client's hands. -/

namespace ClaimQueue

namespace Broker

open Server

variable {id raw : String} {l : DeadLetter} {s : Settings} {w v : Server} {c : Client} {y : System}
  {i rounds : Nat} {done : List Ask}

/-- The task of a letter can be had: its item is in the list, or its document in the stream. -/
def Server.Recoverable (raw : String) (l : DeadLetter) (w : Server) : Prop :=
  Text.Utf8.bytes raw ∈ w.dead ∨ some (Text.Utf8.bytes l.task.encoded) ∈ w.entries.map Prod.snd

/-- What the broker has carried out of a replay, the latest first, and what it is then. -/
inductive Carried (w : Server) : List Ask → Server → Prop
  | nothing : Carried w [] w
  | listed : Carried w [.send (.letters (-1))] w
  | removed (raw : String) : Carried w [.send (.unbury raw), .send (.letters (-1))]
      { w with dead := w.dead.erase (Text.Utf8.bytes raw) }
  | appended {raw : String} {l : DeadLetter} (read : DeadLetter.decoder.ofText raw = .ok l) :
      Carried w [.send (.append (Text.Utf8.bytes l.task.encoded)), .send (.unbury raw),
          .send (.letters (-1))]
        (Server.append (some (Text.Utf8.bytes l.task.encoded))
          { w with dead := w.dead.erase (Text.Utf8.bytes raw) })

theorem mem_erase_of_other {raw' : String} (there : Text.Utf8.bytes raw ∈ w.dead)
    (other : raw' ≠ raw) : Text.Utf8.bytes raw ∈ w.dead.erase (Text.Utf8.bytes raw') :=
  (List.mem_erase_of_ne fun same => other (Text.Utf8.bytes_injective same).symm).mpr there

/-- A task is lost exactly if its item was removed and its document not appended, unless there was
another one of the two from the beginning. -/
theorem Carried.recoverable_iff (h : Carried w done v) (there : Text.Utf8.bytes raw ∈ w.dead)
    (read : DeadLetter.decoder.ofText raw = .ok l) :
    v.Recoverable raw l ↔ .send (.unbury raw) ∉ done ∨
      .send (.append (Text.Utf8.bytes l.task.encoded)) ∈ done ∨
      1 < w.dead.count (Text.Utf8.bytes raw) ∨
      some (Text.Utf8.bytes l.task.encoded) ∈ w.entries.map Prod.snd := by
  cases h with
  | nothing => exact iff_of_true (.inl there) (.inl List.not_mem_nil)
  | listed => exact iff_of_true (.inl there) (.inl (by simp))
  | removed raw' =>
    by_cases same : raw' = raw
    · subst same
      have still : Text.Utf8.bytes raw' ∈ w.dead.erase (Text.Utf8.bytes raw') ↔
          1 < w.dead.count (Text.Utf8.bytes raw') := by
        rw [← List.count_pos_iff, List.count_erase_self]
        omega
      simp [Recoverable, still]
    · exact iff_of_true (.inl (mem_erase_of_other there same)) (.inl (by simp [Ne.symm same]))
  | @appended raw' l' read' =>
    by_cases same : raw' = raw
    · subst same
      rw [read] at read'
      cases read'
      exact iff_of_true (.inr (by simp [Server.append])) (.inr (.inl (by simp)))
    · exact iff_of_true (.inl (mem_erase_of_other there same)) (.inl (by simp [Ne.symm same]))

/-- Where a client stands with its replay. -/
inductive Progress (id : String) (w : Server) (s : Settings) : Client → List Ask → Server → Prop
  | lists : Progress id w s
      { settings := s, current := some (Aim.replay.underway id (Aim.replay.lists id).run) } [] w
  | removes {raw : String} {l : DeadLetter} (read : DeadLetter.decoder.ofText raw = .ok l) :
      Progress id w s
        { settings := s, current := some (Aim.replay.underway id (Aim.replay.removes raw l).run) }
        [.send (.letters (-1))] w
  | appends {raw : String} {l : DeadLetter} (read : DeadLetter.decoder.ofText raw = .ok l) :
      Progress id w s
        { settings := s, current := some (Aim.replay.underway id (Aim.replay.use l).run) }
        [.send (.unbury raw), .send (.letters (-1))]
        { w with dead := w.dead.erase (Text.Utf8.bytes raw) }
  | failed (e : QueueError) {done : List Ask} {v : Server} (carried : Carried w done v) :
      Progress id w s { settings := s, history := [Aim.replay.finished id (.error e)] } done v
  | missed {done : List Ask} {v : Server} (carried : Carried w done v) (same : v.dead = w.dead) :
      Progress id w s { settings := s, history := [Aim.replay.finished id (.ok false)] } done v
  | replayed {raw : String} {l : DeadLetter} (read : DeadLetter.decoder.ofText raw = .ok l) :
      Progress id w s { settings := s, history := [Aim.replay.finished id (.ok true)] }
        [.send (.append (Text.Utf8.bytes l.task.encoded)), .send (.unbury raw), .send (.letters (-1))]
        (Server.append (some (Text.Utf8.bytes l.task.encoded))
          { w with dead := w.dead.erase (Text.Utf8.bytes raw) })

theorem Progress.carried (h : Progress id w s c done v) : Carried w done v := by
  cases h with
  | lists => exact .nothing
  | removes => exact .listed
  | appends => exact .removed _
  | failed _ carried => exact carried
  | missed carried _ => exact carried
  | replayed read => exact .appended read

/-- Nothing but the time of the broker may differ. -/
def Later (w v : Server) : Prop := ∃ clock time, v = { w with clock, time }

theorem Later.unbury (h : Later w v) (s : Settings) (raw : String) :
    Later { w with dead := w.dead.erase (Text.Utf8.bytes raw) }
      (v.answer s (.send (.unbury raw))).2 := by
  obtain ⟨clock, time, rfl⟩ := h
  exact ⟨clock, time, rfl⟩

theorem Later.append (h : Later w v) (s : Settings) (body : List UInt8) :
    Later (w.append (some body)) (v.answer s (.send (.append body))).2 := by
  obtain ⟨clock, time, rfl⟩ := h
  exact ⟨clock, time, rfl⟩

/-- The replay of a lone client; the time does not matter. -/
def Alone (id : String) (w : Server) (s : Settings) (y : System) : Prop :=
  ∃ c v, y.clients = [c] ∧ Progress id w s c (y.deeds.map (·.ask)) v ∧ Later v y.server

/-! One step. -/

theorem System.go_idle (idle : ∀ c, y.clients[i]? = some c → c.current = none) : y.go i = y := by
  cases found : y.clients[i]? with
  | none => simp only [go, found]
  | some c => simp only [go, found, idle c found]

theorem System.lose_idle (idle : ∀ c, y.clients[i]? = some c → c.current = none) (fault : LinkFault)
    (reached : Bool) : y.lose i fault reached = y := by
  cases found : y.clients[i]? with
  | none => simp only [lose, found]
  | some c => simp only [lose, found, idle c found]

section

variable {p p' : Program asks (Except QueueError Bool)} {q : Ask} {c' : Client} {u : Server}

theorem Alone.goes (clients : y.clients = [c])
    (current : c.current = some (Aim.replay.underway id p)) (moves : Moves c.settings y.server q p p')
    (settled : ({ c with current := some (Aim.replay.underway id p') } : Client).settle = c')
    (server : Later v (y.server.answer c.settings q).2)
    (progress : Progress id w s c' (q :: y.deeds.map (·.ask)) v) : Alone id w s (y.go 0) := by
  have found : y.clients[0]? = some c := by rw [clients]; rfl
  rw [Aim.go_eq _ found current moves, settled]
  refine ⟨c', v, ?_, progress, server⟩
  show y.clients.set 0 c' = [c']
  rw [clients]
  rfl

theorem Alone.loses (clients : y.clients = [c]) (settings : c.settings = s) (none : c.history = [])
    (current : c.current = some (Aim.replay.underway id p)) {fault : LinkFault}
    (breaks : Breaks fault q p (.done (.error fault.toQueueError)))
    (server : Later v y.server) (before : Carried w (y.deeds.map (·.ask)) v)
    (answered : Later u (y.server.answer c.settings q).2)
    (after : Carried w (q :: y.deeds.map (·.ask)) u) (reached : Bool) :
    Alone id w s (y.lose 0 fault reached) := by
  have found : y.clients[0]? = some c := by rw [clients]; rfl
  have ended (c' : Client) : y.clients.set 0 c' = [c'] := by rw [clients]; rfl
  rw [Aim.lose_eq _ found current breaks, Aim.settle_done, none, settings]
  cases reached with
  | false => exact ⟨_, v, ended _, .failed _ before, server⟩
  | true => exact ⟨_, u, ended _, .failed _ after, settings ▸ answered⟩

end

theorem Alone.go (h : Alone id w s y) : Alone id w s (y.go 0) := by
  have whole := h
  obtain ⟨c, v, clients, progress, server⟩ := h
  have found : y.clients[0]? = some c := by rw [clients]; rfl
  have idle (none : c.current = none) : y.go 0 = y :=
    System.go_idle fun c' found' => by
      cases found.symm.trans found'
      exact none
  generalize deeds : y.deeds.map (·.ask) = done at progress
  cases progress with
  | lists =>
    have reply : (y.server.perform s (.letters (-1))).1 = .ok (.list (y.server.dead.map .bulk)) := by
      simp only [perform, upTo_all]
    cases parsed : Reply.texts? (.list (y.server.dead.map .bulk)) with
    | none =>
      refine Alone.goes clients rfl (moves_read_none reply parsed) (Aim.settle_done _ _ _ _) server ?_
      rw [deeds]
      exact .failed _ .listed
    | some texts =>
      cases chosen : letterFor? id texts with
      | none =>
        refine Alone.goes clients rfl (Aim.moves_lists_none parsed chosen _)
          (Aim.settle_done _ _ _ _) server ?_
        rw [deeds]
        exact .missed .listed rfl
      | some e =>
        refine Alone.goes clients rfl (Aim.moves_lists parsed chosen _)
          (Aim.settle_removes _ _) server ?_
        rw [deeds]
        exact .removes (mem_readable.mp (List.mem_of_find?_eq_some chosen)).2
  | @removes raw l read =>
    have dead : y.server.dead = w.dead := by
      obtain ⟨clock, time, same⟩ := server
      rw [same]
    have after := server.unbury s raw
    by_cases there : Text.Utf8.bytes raw ∈ y.server.dead
    · refine Alone.goes clients rfl (Aim.moves_removes there _) (Aim.settle_appends _) after ?_
      rw [deeds]
      exact .appends read
    · refine Alone.goes clients rfl (Aim.moves_removes_none there _) (Aim.settle_done _ _ _ _) after ?_
      rw [deeds]
      exact .missed (.removed raw) (List.erase_of_not_mem (dead ▸ there))
  | @appends raw l read =>
    have after := server.append s (Text.Utf8.bytes l.task.encoded)
    refine Alone.goes clients rfl Aim.moves_appends (Aim.settle_done _ _ _ _) after ?_
    rw [deeds]
    exact .replayed read
  | failed | missed | replayed =>
    rw [idle rfl]
    exact whole

theorem Alone.lose (h : Alone id w s y) (fault : LinkFault) (reached : Bool) :
    Alone id w s (y.lose 0 fault reached) := by
  have whole := h
  obtain ⟨c, v, clients, progress, server⟩ := h
  have found : y.clients[0]? = some c := by rw [clients]; rfl
  have idle (none : c.current = none) : y.lose 0 fault reached = y :=
    System.lose_idle (fun c' found' => by
      cases found.symm.trans found'
      exact none) fault reached
  have carried := progress.carried
  generalize deeds : y.deeds.map (·.ask) = done at progress
  cases progress with
  | lists =>
    refine Alone.loses clients rfl rfl rfl (breaks_read fault _ _ _) server carried server ?_ reached
    rw [deeds]
    exact .listed
  | @removes raw l read =>
    have after := server.unbury s raw
    refine Alone.loses clients rfl rfl rfl (breaks_read fault _ _ _) server carried after ?_ reached
    rw [deeds]
    exact .removed raw
  | @appends raw l read =>
    have after := server.append s (Text.Utf8.bytes l.task.encoded)
    refine Alone.loses clients rfl rfl rfl (Aim.breaks_appends fault) server carried after ?_ reached
    rw [deeds]
    exact .appended read
  | failed | missed | replayed =>
    rw [idle rfl]
    exact whole

theorem Alone.step (h : Alone id w s y) {e : Event} (calls : ∀ i u, e ≠ .begin i u) :
    Alone id w s (y.step rounds e) := by
  have beyond {i : Nat} (other : i ≠ 0) : y.clients[i]? = none := by
    obtain ⟨c, v, clients, -⟩ := h
    rw [clients]
    cases i with
    | zero => exact absurd rfl other
    | succ i => rfl
  cases e with
  | begin i u => exact absurd rfl (calls i u)
  | wait span =>
    obtain ⟨c, v, clients, progress, clock, time, same⟩ := h
    exact ⟨c, v, clients, progress, _, _, by rw [System.step, same]; rfl⟩
  | go i =>
    by_cases first : i = 0
    · exact first ▸ h.go
    · have idle : y.go i = y := System.go_idle fun c found =>
        absurd (found.symm.trans (beyond first)) (Option.some_ne_none c)
      rw [System.step, idle]
      exact h
  | lose i fault reached =>
    by_cases first : i = 0
    · exact first ▸ h.lose fault reached
    · have idle : y.lose i fault reached = y := System.lose_idle (fun c found =>
        absurd (found.symm.trans (beyond first)) (Option.some_ne_none c)) fault reached
      rw [System.step, idle]
      exact h

theorem Alone.run (h : Alone id w s y) {events : List Event} (calls : ∀ i u, .begin i u ∉ events) :
    Alone id w s (y.run rounds events) := by
  induction events generalizing y with
  | nil => exact h
  | cons e events ih =>
    have first : ∀ i u, e ≠ .begin i u := fun i u same => calls i u (same ▸ List.mem_cons_self)
    exact ih (h.step first) fun i u mem => calls i u (List.mem_cons_of_mem _ mem)

theorem alone_begin (id : String) (w : Server) (s : Settings) :
    Alone id w s ((System.around w [s]).step rounds (.begin 0 (.call (.replay id)))) := by
  have work : (⟨.call (.replay id), (Undertaking.call (.replay id)).work rounds s⟩ : Underway) =
      Aim.replay.underway id (Aim.replay.lists id).run := Aim.work_eq .replay id rounds s
  have begun : ({ settings := s } : Client).begin rounds (.call (.replay id)) =
      { settings := s, current := some (Aim.replay.underway id (Aim.replay.lists id).run) } := by
    rw [Client.begin, work]
    exact Aim.settle_lists .replay id { settings := s }
  refine ⟨_, w, ?_, .lists, w.clock, w.time, rfl⟩
  show [({ settings := s } : Client).begin rounds (.call (.replay id))] = _
  rw [begun]

theorem Later.recoverable (h : Later w v) : v.Recoverable raw l ↔ w.Recoverable raw l := by
  obtain ⟨clock, time, rfl⟩ := h
  exact .rfl

theorem Client.outcomes_single (a : Aim) (id : String) (o : Except QueueError Bool)
    (h : c.history = [a.finished id o]) : c.outcomes a id = [o] := by
  cases a <;> simp [Client.outcomes, h, Finished.outcome?, Aim.finished]

/-- Whoever is answered, with `false` or `true`, has lost nothing. -/
theorem Progress.kept (h : Progress id w s c done v) (there : Text.Utf8.bytes raw ∈ w.dead)
    (read : DeadLetter.decoder.ofText raw = .ok l) {b : Bool}
    (told : .ok b ∈ c.outcomes .replay id) : v.Recoverable raw l := by
  have carried := h.carried
  cases h with
  | lists | removes | appends => cases told
  | failed e _ =>
    rw [Client.outcomes_single .replay id (.error e) rfl] at told
    cases List.mem_singleton.mp told
  | missed _ same => exact .inl (same ▸ there)
  | @replayed raw' l' read' =>
    refine (carried.recoverable_iff there read).mpr ?_
    by_cases same : raw' = raw
    · subst same
      cases read.symm.trans read'
      exact .inr (.inl List.mem_cons_self)
    · exact .inl (by simp [Ne.symm same])

/-- A client that does nothing but this one replay. -/
def System.replaying (rounds : Nat) (w : Server) (s : Settings) (id : String) (events : List Event) :
    System :=
  (System.around w [s]).run rounds (.begin 0 (.call (.replay id)) :: events)

/-- Whatever is lost on the way: a task is lost exactly if its item was removed and its document not
appended, and there was no other copy of either. So it is never lost by a replay that does not fail,
but one that fails may lose it. -/
theorem replay_keeps_task_iff (rounds : Nat) (w : Server) (s : Settings) (id : String)
    (events : List Event) (calls : ∀ i u, .begin i u ∉ events) (there : Text.Utf8.bytes raw ∈ w.dead)
    (read : DeadLetter.decoder.ofText raw = .ok l) :
    ((System.replaying rounds w s id events).server.Recoverable raw l ↔
      (∀ d ∈ (System.replaying rounds w s id events).deeds, d.ask ≠ .send (.unbury raw)) ∨
      (∃ d ∈ (System.replaying rounds w s id events).deeds,
        d.ask = .send (.append (Text.Utf8.bytes l.task.encoded))) ∨
      1 < w.dead.count (Text.Utf8.bytes raw) ∨
      some (Text.Utf8.bytes l.task.encoded) ∈ w.entries.map Prod.snd) ∧
    ∀ b, .ok b ∈ (System.replaying rounds w s id events).outcomes .replay id →
      (System.replaying rounds w s id events).server.Recoverable raw l := by
  have alone : Alone id w s (System.replaying rounds w s id events) := (alone_begin id w s).run calls
  obtain ⟨c, v, clients, progress, later⟩ := alone
  constructor
  · rw [later.recoverable, progress.carried.recoverable_iff there read]
    simp only [List.mem_map, not_exists, not_and, ne_eq]
  · intro b told
    rw [System.outcomes, clients, List.flatMap_singleton] at told
    exact later.recoverable.mpr (progress.kept there read told)

private def ducat : DeadLetter := ⟨⟨.execute, "ducat", [], .empty, 3, .epoch, 1⟩, "", .epoch⟩

private def ducatText : String :=
  "[[\"execute\",\"ducat\",\x7b\x7d,[],3,\"1970-01-01T00:00:00Z\",1],\"\",\"1970-01-01T00:00:00Z\"]"

private theorem read_ducat : DeadLetter.decoder.ofText ducatText = .ok ducat := by
  decide +kernel

private def mint : Server where
  dead := [Text.Utf8.bytes ducatText]
  clock := .epoch

/-- The item is removed, and then the connection breaks. -/
private def snapped : List Event := [.go 0, .go 0, .lose 0 (.lost "broken pipe") false]

private theorem snapped_begins (i : Nat) (u : Undertaking) : .begin i u ∉ snapped := by
  simp [snapped]

private def snappedOff : System := System.replaying 1 mint { consumer := "a" } "ducat" snapped

private theorem snapped_eq :
    snappedOff.server.dead = [] ∧ snappedOff.server.entries = [] ∧
      snappedOff.outcomes .replay "ducat" = [.error (.transport "broken pipe")] := by
  decide +kernel

private theorem snapped_lost : ¬ snappedOff.server.Recoverable ducatText ducat := by
  obtain ⟨dead, entries, -⟩ := snapped_eq
  simp [Recoverable, dead, entries]

theorem replay_removes_ducat : ∃ d ∈ snappedOff.deeds, d.ask = .send (.unbury ducatText) := by
  have keeps := replay_keeps_task_iff 1 mint { consumer := "a" } "ducat" snapped snapped_begins
    (List.mem_singleton_self _) read_ducat
  by_contra none
  exact snapped_lost (keeps.1.mpr (.inl fun d mem same => none ⟨d, mem, same⟩))

/-- A replay that fails can lose the task. -/
theorem replay_loses_ducat :
    ¬ ∀ (rounds : Nat) (w : Server) (s : Settings) (id raw : String) (l : DeadLetter)
      (events : List Event), (∀ i u, .begin i u ∉ events) → Text.Utf8.bytes raw ∈ w.dead →
      DeadLetter.decoder.ofText raw = .ok l → ∀ e : QueueError,
      .error e ∈ (System.replaying rounds w s id events).outcomes .replay id →
      (System.replaying rounds w s id events).server.Recoverable raw l := by
  intro claim
  have failed : .error (.transport "broken pipe") ∈ snappedOff.outcomes .replay "ducat" :=
    snapped_eq.2.2 ▸ List.mem_singleton_self _
  exact snapped_lost (claim 1 mint { consumer := "a" } "ducat" ducatText ducat snapped snapped_begins
    (List.mem_singleton_self _) read_ducat _ failed)

end Broker

end ClaimQueue
