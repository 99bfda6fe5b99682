import ClaimQueue.Proofs.Agreement.Mirror

/-! Each call by itself, on a broker and a queue in memory that correspond: both give the same, and
they correspond again. -/

namespace ClaimQueue

namespace Agreement

open Broker Server

variable {rounds : Nat} {policy : RetryPolicy} {around : LocalQueue.Surroundings}

/-- Both succeed with the same value, and what they leave corresponds. -/
structure Agrees (rounds : Nat) (policy : RetryPolicy) (around : LocalQueue.Surroundings)
    (l : Ledger) (w : Server) (t : Turn) : Prop where
  outcome : ∃ v v', (t.inMemory rounds policy around l.queue).1 = some (.ok v) ∧
    (t.onBroker rounds w).1 = some (.ok v') ∧
    Answered.withoutAge ⟨t.request, some (.ok v)⟩ = ⟨t.request, some (.ok v')⟩
  mirrors : ∃ taken line,
    Mirrors taken line (l.after rounds policy around t) (t.onBroker rounds w).2

section

variable {taken taken' : List Taken} {line line' : List (Nat × Task)} {l : Ledger} {w w' : Server}
  {q' : LocalQueue}

theorem Request.popped?_of_not_pop {r : Request} (h : r.isPop = false) (o : Option r.Outcome) :
    r.popped? o = none := by
  cases r with
  | result id => rfl
  | call c =>
    cases c with
    | pop => cases h
    | _ => rfl

/-- A call that pops nothing takes nothing. -/
theorem agrees_of {t : Turn} (h : Mirrors taken line l w) (proper : l.Proper policy t)
    (other : t.request.isPop = false) (v v' : t.request.Value)
    (memory : t.inMemory rounds policy around l.queue = (some (.ok v), q'))
    (broker : t.onBroker rounds w = (some (.ok v'), w'))
    (value : Answered.withoutAge ⟨t.request, some (.ok v)⟩ = ⟨t.request, some (.ok v')⟩)
    (fewer : taken'.Sublist taken) (laid : Laid taken' line' w') (same : Same taken' line' q' w')
    (fine : Fine q') : Agrees rounds policy around l w t where
  outcome := ⟨v, v', by rw [memory], by rw [broker], value⟩
  mirrors := by
    have after : l.after rounds policy around t =
        { queue := q', holders := l.holders, clock := some t.clock, popped := l.popped } := by
      simp only [Ledger.after, memory, Request.popped?_of_not_pop other, other]
      rfl
    refine ⟨taken', line', ?_⟩
    rw [after, broker]
    exact ⟨laid, same, fine, h.timed.later fewer proper.clock proper.forward rfl rfl rfl⟩

/-- Consumers, results, dead letters and the clock have no part in the layout. -/
theorem Laid.of_eq {v : Server} (h : Laid taken line w) (entries : v.entries = w.entries)
    (held : v.held = w.held) (delivered : v.delivered = w.delivered)
    (newest : v.newest = w.newest) (claims : v.claims = w.claims) : Laid taken line v where
  entries := entries.trans h.entries
  held := held.trans h.held
  ordered := h.ordered.fewer newest delivered (entries ▸ .refl _) (held ▸ .refl _)
  waiting := delivered ▸ h.waiting
  claims := claims ▸ h.claims
  ascending := claims ▸ h.ascending

theorem Laid.at (h : Laid taken line w) (clock : Instant) : Laid taken line { w with clock } :=
  h.of_eq rfl rfl rfl rfl rfl

theorem Same.at {q : LocalQueue} (h : Same taken line q w) (clock : Instant) :
    Same taken line q { w with clock } :=
  ⟨h.inFlight, h.pending, h.dead, h.results⟩

/-! Steps of a queue in memory. -/

theorem run_access_bind {β : Type} (clock : Instant) (q : LocalQueue) (a : Access)
    (f : a.Answer → LocalQueue.Steps β) :
    (LocalQueue.access a >>= f).run (surroundings policy clock around) q =
      (f (a.perform policy clock q).1).run (surroundings policy clock around)
        (a.perform policy clock q).2 := rfl

theorem run_ringIf (clock : Instant) (b : Bool) (q : LocalQueue) :
    (LocalQueue.ringIf b).run (surroundings policy clock around) q = (some b, q) := by
  cases b <;> rfl

theorem run_ringTimes (clock : Instant) (n : Nat) (q : LocalQueue) :
    (LocalQueue.ringTimes n).run (surroundings policy clock around) q = (some (), q) := by
  induction n with
  | zero => rfl
  | succ n ih => exact ih

theorem run_popRound (clock : Instant) (deadline : Span) (q : LocalQueue) :
    (LocalQueue.Calls.popRound false deadline).run (surroundings policy clock around) q =
      (some (.inr (Access.perform policy clock q .take).1),
        (Access.perform policy clock q .take).2) := by
  rw [LocalQueue.Calls.popRound, run_access_bind]
  cases (Access.perform policy clock q .take).1 <;> rfl

theorem run_pop (clock : Instant) (timeout : Span) (q : LocalQueue) :
    (LocalQueue.answer (rounds + 1) (.pop false timeout)).run (surroundings policy clock around) q =
      (some (.ok (Access.perform policy clock q .take).1),
        (Access.perform policy clock q .take).2) :=
  Program.run_bind_of_some (Program.run_bind_of_some (run_popRound clock _ q))

/-! Enqueueing. -/

theorem agrees_enqueue {s : Settings} {clock : Instant} {task : Task} (h : Mirrors taken line l w)
    (proper : l.Proper policy ⟨s, clock, .call (.enqueue task)⟩) :
    Agrees rounds policy around l w ⟨s, clock, .call (.enqueue task)⟩ := by
  obtain ⟨new, known, plain⟩ := proper.admits
  have unknown : ¬ l.queue.knows task.id = true :=
    fun knows => new ((LocalQueue.knows_iff h.fine.sound.keyed).mp knows)
  have perform : Access.perform policy clock l.queue (.enqueue task) =
      (true, { l.queue with pending := l.queue.pending ++ [task] }) := by
    simp [Access.perform, LocalQueue.enqueue?, unknown, Access.accepted]
  have fine := h.fine.perform policy clock (.enqueue task)
    (fun t same => by cases same; exact ⟨known, plain⟩) (fun _ same => by cases same)
  rw [perform] at fine
  have memory : (LocalQueue.Calls.enqueue task).run (surroundings policy clock around) l.queue =
      (some (.ok ()), { l.queue with pending := l.queue.pending ++ [task] }) := by
    rw [LocalQueue.Calls.enqueue, run_access_bind, perform]
    rfl
  refine agrees_of h proper rfl () () memory (gives_append task) rfl (.refl _)
    ((h.laid.at clock).append task) ⟨h.same.inFlight, ?_, h.same.dead, h.same.results⟩ fine
  rw [List.map_append, h.same.pending]
  rfl

/-! Popping. -/

theorem Laid.claimed {n : Nat} {t : Task} (h : Laid taken ((n, t) :: line) w)
    (new : t.id ∉ taken.map Taken.id) (s : Settings) :
    Laid (taken ++ [(⟨n, s.consumer, w.clock⟩, t)]) line (w.claimed s n t) where
  entries := by
    rw [List.map_append, List.append_assoc]
    exact h.entries
  held := by
    rw [List.map_append, ← h.held]
    rfl
  ordered := by
    have after := ordered_deliver h.ordered s
    rw [deliver_eq, h.waiting_eq] at after
    exact after.fewer rfl rfl (.refl _) (.refl _)
  waiting e mem := by
    have numbers := h.numbers.2
    rw [List.map_cons, List.pairwise_cons] at numbers
    exact numbers.1 e.1 (List.mem_map_of_mem mem)
  claims id := by
    show Index.find? id (Index.put t.id _ w.claims) = _
    rw [Index.find?_put, List.find?_append, h.claims]
    split
    · rename_i same
      have absent : (taken.find? fun g => g.id == id) = none := by
        refine List.find?_eq_none.mpr fun g mem own => new ?_
        rw [same, ← beq_iff_eq.mp own]
        exact List.mem_map_of_mem mem
      have here : (([(⟨n, s.consumer, w.clock⟩, t)] : List Taken).find? fun g => g.id == id) =
          some (⟨n, s.consumer, w.clock⟩, t) := List.find?_cons_of_pos (beq_iff_eq.mpr same)
      rw [absent, here]
      rfl
    · rename_i other
      have absent : (([(⟨n, s.consumer, w.clock⟩, t)] : List Taken).find? fun g => g.id == id) =
          none := List.find?_cons_of_neg fun own => other (beq_iff_eq.mp own)
      rw [absent, Option.or_none]
  ascending := Index.put_ascending _ _ h.ascending

/-- All that was delivered was delivered before. -/
theorem Timed.before {now : Instant} (h : Timed taken l) (millis : now.InMillis)
    (later : ∀ p, l.popped = some p → 0 < now.since p) {g : Taken} (mem : g ∈ taken) :
    g.1.since.nanos < now.nanos := by
  obtain ⟨p, last, le⟩ := h.popped g mem
  have later := later p last
  rw [Instant.since_eq millis.plain (h.clock p last).1.plain] at later
  omega

theorem Timed.polled {now : Instant} (h : Timed taken l) (millis : now.InMillis)
    (later : ∀ p, l.popped = some p → 0 < now.since p) (queue : LocalQueue) :
    Timed taken { queue, holders := l.holders, clock := some now, popped := some now } where
  millis := h.millis
  since := h.since
  popped g mem := ⟨now, rfl, Int.le_of_lt (h.before millis later mem)⟩
  clock p last := by
    cases last
    exact ⟨millis, now, rfl, millis, Int.le_refl _⟩
  holders := h.holders

theorem Timed.taking {now : Instant} (h : Timed taken l) (millis : now.InMillis)
    (later : ∀ p, l.popped = some p → 0 < now.since p) (queue : LocalQueue) {n : Nat}
    {consumer : String} {t : Task} (new : t.id ∉ taken.map Taken.id) :
    Timed (taken ++ [(⟨n, consumer, now⟩, t)])
      { queue
        holders := Index.put t.id consumer l.holders
        clock := some now
        popped := some now } where
  millis := List.forall_mem_append.mpr ⟨h.millis, List.forall_mem_singleton.mpr millis⟩
  since := List.pairwise_append.mpr ⟨h.since, List.pairwise_singleton _ _, fun g mem _ last => by
    rw [List.mem_singleton.mp last]
    exact h.before millis later mem⟩
  popped := List.forall_mem_append.mpr
    ⟨fun g mem => ⟨now, rfl, Int.le_of_lt (h.before millis later mem)⟩,
      List.forall_mem_singleton.mpr ⟨now, rfl, Int.le_refl _⟩⟩
  clock p last := by
    cases last
    exact ⟨millis, now, rfl, millis, Int.le_refl _⟩
  holders := by
    refine List.forall_mem_append.mpr ⟨fun g mem => ?_, List.forall_mem_singleton.mpr ?_⟩
    · have other : t.id ≠ g.id := fun same => new (same ▸ List.mem_map_of_mem mem)
      rw [Index.find?_put, if_neg other]
      exact h.holders g mem
    · rw [Index.find?_put]
      exact if_pos rfl

theorem agrees_pop {s : Settings} {clock : Instant} {block : Bool} {timeout : Span}
    (h : Mirrors taken line l w)
    (proper : l.Proper policy ⟨s, clock, .call (.pop block timeout)⟩) :
    Agrees (rounds + 1) policy around l w ⟨s, clock, .call (.pop block timeout)⟩ := by
  obtain ⟨rfl, later⟩ := proper.admits
  have laid := h.laid.at clock
  have memory : Turn.inMemory (rounds + 1) policy around ⟨s, clock, .call (.pop false timeout)⟩
      l.queue = _ := run_pop clock timeout l.queue
  cases line with
  | nil =>
    have take : Access.perform policy clock l.queue .take = (none, l.queue) := by
      simp [Access.perform, LocalQueue.take?, ← h.same.pending]
    rw [take] at memory
    have broker : Turn.onBroker (rounds + 1) ⟨s, clock, .call (.pop false timeout)⟩ w =
        (some (.ok none), { w with clock }.heard s.consumer) :=
      gives_pop_nothing (by rw [laid.waiting_eq]; rfl) rounds timeout
    refine ⟨⟨none, none, by rw [memory], by rw [broker], rfl⟩, taken, [], ?_⟩
    rw [Ledger.after, memory, broker]
    exact ⟨laid.of_eq rfl rfl rfl rfl rfl,
      ⟨h.same.inFlight, h.same.pending, h.same.dead, h.same.results⟩, h.fine,
      h.timed.polled proper.clock later l.queue⟩
  | cons e line =>
    obtain ⟨n, t⟩ := e
    have pending : l.queue.pending = t :: line.map Prod.snd := h.same.pending.symm
    have taking : Access.perform policy clock l.queue .take = (some t, { l.queue with
        pending := line.map Prod.snd, inFlight := l.queue.inFlight.put t.id ⟨t, clock⟩ }) := by
      simp [Access.perform, LocalQueue.take?, pending]
    have fine := h.fine.perform_old policy clock .take (by simp) (by simp)
    rw [taking] at fine memory
    have new := h.fine.sound.next_not_inFlight pending
    have new' : t.id ∉ taken.map Taken.id := by
      rw [← (h.same.inFlight.map Prod.fst).mem_iff, List.map_map] at new
      exact new
    have sendable : Sendable t := h.fine.sendable t (List.mem_append_left _
      (List.mem_append_left _ (pending ▸ List.mem_cons_self)))
    have broker : Turn.onBroker (rounds + 1) ⟨s, clock, .call (.pop false timeout)⟩ w =
        (some (.ok (some t)), { w with clock }.claimed s n t) :=
      gives_pop (by simp) sendable.faithful (by rw [laid.waiting_eq]; rfl) rounds
    refine ⟨⟨some t, some t, by rw [memory], by rw [broker], rfl⟩,
      taken ++ [(⟨n, s.consumer, clock⟩, t)], line, ?_⟩
    rw [Ledger.after, memory, broker]
    refine ⟨laid.claimed new' s, ⟨?_, rfl, h.same.dead, h.same.results⟩, fine,
      h.timed.taking proper.clock later _ new'⟩
    rw [List.map_append]
    exact List.perm_append_comm.trans
      ((h.same.inFlight.cons _).trans (Index.put_perm _ new).symm)

/-! Ending claims. -/

/-- Both know the claim, and it is the client's, or neither knows of one. -/
theorem Mirrors.ends {s : Settings} {id : String} (h : Mirrors taken line l w)
    (may : l.MayEnd s id) :
    (Index.find? id w.claims = none ∧ l.queue.inFlight.find? id = none) ∨
      ∃ before g after, taken = before ++ g :: after ∧ g.id = id ∧
        Index.find? id w.claims = some (claimValue (entryId g.number) s.consumer) ∧
        l.queue.inFlight.find? id = some g.claim.2 := by
  have claims := h.laid.claims id
  have inFlight := h.same.find?_inFlight h.fine.sound id
  cases found : taken.find? fun g => g.id == id with
  | none =>
    rw [found] at claims inFlight
    exact .inl ⟨claims, inFlight⟩
  | some g =>
    rw [found] at claims inFlight
    have mem := List.mem_of_find?_eq_some found
    have own : g.id = id := by simpa using List.find?_some found
    have holder : l.holders.find? id = some g.1.consumer := own ▸ h.timed.holders g mem
    have client : g.1.consumer = s.consumer := by
      rcases may with absent | holds
      · rw [inFlight] at absent
        cases absent
      · exact Option.some.inj (holder.symm.trans holds)
    obtain ⟨before, after, split⟩ := List.append_of_mem mem
    refine .inr ⟨before, g, after, split, own, ?_, inFlight⟩
    rw [claims, ← client]
    rfl

theorem agrees_ack {s : Settings} {clock : Instant} {id : String} (h : Mirrors taken line l w)
    (proper : l.Proper policy ⟨s, clock, .call (.ack id)⟩) :
    Agrees rounds policy around l w ⟨s, clock, .call (.ack id)⟩ := by
  have laid := h.laid.at clock
  have fine := h.fine.perform_old policy clock (.ack id) (by simp) (by simp)
  have memory : Turn.inMemory rounds policy around ⟨s, clock, .call (.ack id)⟩ l.queue =
      (some (.ok ()), l.queue.ack id) := rfl
  rcases h.ends proper.admits with ⟨absent, none⟩ | ⟨before, g, after, split, rfl, claim, inFlight⟩
  · refine agrees_of h proper rfl () () memory (gives_ack_none absent) rfl (.refl _) laid
      ⟨?_, h.same.pending, h.same.dead, h.same.results⟩ fine
    show (taken.map Taken.claim).Perm (l.queue.inFlight.erase id)
    rw [Index.erase_of_find?_none none]
    exact h.same.inFlight
  · have once := h.same.ids_nodup h.fine.sound
    refine agrees_of h proper rfl () () memory (gives_ack proper.named claim) rfl ?_
      (laid.remove once split) ⟨h.same.erase_perm h.fine.sound split, h.same.pending,
        h.same.dead, h.same.results⟩ fine
    rw [split]
    exact (List.sublist_cons_self g after).append_left before

theorem agrees_release {s : Settings} {clock : Instant} {id : String}
    (h : Mirrors taken line l w) (proper : l.Proper policy ⟨s, clock, .call (.release id)⟩) :
    Agrees rounds policy around l w ⟨s, clock, .call (.release id)⟩ := by
  have laid := h.laid.at clock
  have fine := h.fine.perform_old policy clock (.release id) (by simp) (by simp)
  have memory : Turn.inMemory rounds policy around ⟨s, clock, .call (.release id)⟩ l.queue =
      (some (.ok ()), (Access.perform policy clock l.queue (.release id)).2) := by
    show Program.run _ (LocalQueue.answer rounds (.release id)) _ = _
    rw [LocalQueue.answer, run_access_bind]
    exact Program.run_bind_of_some (run_ringIf clock _ _)
  rcases h.ends proper.admits with ⟨absent, none⟩ | ⟨before, g, after, split, rfl, claim, inFlight⟩
  · have perform : (Access.perform policy clock l.queue (.release id)).2 = l.queue := by
      simp [Access.perform, LocalQueue.release?, none, Access.accepted]
    rw [perform] at memory fine
    exact agrees_of h proper rfl () () memory (gives_release_none absent) rfl (.refl _) laid
      (h.same.at clock) fine
  · have perform : (Access.perform policy clock l.queue (.release g.id)).2 = { l.queue with
        inFlight := l.queue.inFlight.erase g.id, pending := l.queue.pending ++ [g.2] } := by
      simp [Access.perform, LocalQueue.release?, inFlight, Access.accepted, Taken.claim]
    rw [perform] at memory fine
    have mem : g ∈ taken := split ▸ List.mem_append_right _ List.mem_cons_self
    have once := h.same.ids_nodup h.fine.sound
    refine agrees_of h proper rfl () () memory
      (gives_release proper.named claim (laid.lookUp mem)) rfl ?_
      ((laid.append g.2).remove once split) ⟨h.same.erase_perm h.fine.sound split, ?_,
        h.same.dead, h.same.results⟩ fine
    · rw [split]
      exact (List.sublist_cons_self g after).append_left before
    · rw [List.map_append, h.same.pending]
      rfl

/-! Results. -/

theorem agrees_publish {s : Settings} {clock : Instant} {r : TaskResult}
    (h : Mirrors taken line l w) (proper : l.Proper policy ⟨s, clock, .call (.publish r)⟩) :
    Agrees rounds policy around l w ⟨s, clock, .call (.publish r)⟩ := by
  have fine := h.fine.perform policy clock (.save r) (fun _ same => by cases same)
    (fun _ same => by cases same; exact proper.admits)
  refine agrees_of h proper rfl () () rfl (gives_publish r) rfl (.refl _)
    (h.laid.of_eq rfl rfl rfl rfl rfl) ⟨h.same.inFlight, h.same.pending, h.same.dead, ?_⟩ fine
  show Index.put r.taskId _ w.results = (Index.put r.taskId r l.queue.results).map _
  rw [h.same.results]
  have put := Index.map_put (fun r : TaskResult => Text.Utf8.bytes r.encoded) r.taskId r
    l.queue.results
  exact put.symm

theorem agrees_result {s : Settings} {clock : Instant} {id : String} (h : Mirrors taken line l w)
    (proper : l.Proper policy ⟨s, clock, .result id⟩) :
    Agrees rounds policy around l w ⟨s, clock, .result id⟩ := by
  have laid := h.laid.at clock
  have same := h.same.at clock
  have memory : Turn.inMemory rounds policy around ⟨s, clock, .result id⟩ l.queue =
      (some (.ok (l.queue.results.find? id)), l.queue) := rfl
  have results : Index.find? id w.results =
      (l.queue.results.find? id).map fun r => Text.Utf8.bytes r.encoded := by
    rw [h.same.results]
    exact Index.find?_map (fun r : TaskResult => Text.Utf8.bytes r.encoded) id l.queue.results
  cases found : l.queue.results.find? id with
  | none =>
    rw [found] at results memory
    exact agrees_of h proper rfl none none memory (gives_get_none results) rfl (.refl _) laid same
      h.fine
  | some r =>
    rw [found] at results memory
    have saved := h.fine.saved _ (Index.mem_of_find? found)
    have plain : r.Plain Json.maxNesting :=
      ⟨saved.data, Nat.le_trans saved.nesting (Nat.sub_le _ _)⟩
    exact agrees_of h proper rfl (some r) (some r) memory (gives_get plain results) rfl (.refl _)
      laid same h.fine

end

end Agreement

end ClaimQueue
