import ClaimQueue.Proofs.Agreement.Calls

/-! Counting, and what is done with dead letters. A queue in memory has them in the order they came,
a broker the other way round, which makes no difference as no two are for one id. -/

namespace ClaimQueue

namespace Agreement

open Broker Server

variable {rounds : Nat} {policy : RetryPolicy} {around : LocalQueue.Surroundings}
  {taken : List Taken} {line : List (Nat × Task)} {l : Ledger} {w : Server} {q : LocalQueue}
  {s : Settings} {clock : Instant}

/-! Asking. -/

theorem Fine.letters (h : Fine q) : ∀ d ∈ q.dead.reverse, Sendable d.task := fun d mem =>
  h.sendable d.task (List.mem_append_right _ (List.mem_map_of_mem (List.mem_reverse.mp mem)))

theorem tasks_length (q : LocalQueue) :
    q.tasks.length = q.pending.length + q.inFlight.length + q.dead.length := by
  simp only [LocalQueue.tasks, List.length_append, List.length_map]

theorem agrees_counts (h : Mirrors taken line l w)
    (proper : l.Proper policy ⟨s, clock, .call .counts⟩) :
    Agrees rounds policy around l w ⟨s, clock, .call .counts⟩ := by
  have fits : l.queue.tasks.length < 2 ^ 63 := proper.admits
  rw [tasks_length] at fits
  have held : w.held.length = l.queue.inFlight.length := by
    rw [h.laid.held, List.length_map, ← h.same.inFlight.length_eq, List.length_map]
  have entries : w.entries.length = l.queue.inFlight.length + l.queue.pending.length := by
    rw [h.laid.entries, List.length_append, List.length_map, List.length_map,
      ← h.same.inFlight.length_eq, ← h.same.pending, List.length_map, List.length_map]
  have dead : w.dead.length = l.queue.dead.length := by
    rw [h.same.dead, bodies, List.length_map, List.length_reverse]
  have broker := gives_counts (s := s) (w := { w with clock }) (by rw [entries]; omega)
    (by rw [dead]; omega)
  refine agrees_of h proper rfl (l.queue.counts clock) _ rfl broker ?_ (.refl _)
    (h.laid.at clock) (h.same.at clock) h.fine
  have pending : w.entries.length - l.queue.inFlight.length = l.queue.pending.length := by omega
  simp only [Answered.withoutAge, LocalQueue.counts, held, dead, pending]

theorem agrees_deadLetters {limit : Nat} (h : Mirrors taken line l w)
    (proper : l.Proper policy ⟨s, clock, .call (.deadLetters limit)⟩) :
    Agrees rounds policy around l w ⟨s, clock, .call (.deadLetters limit)⟩ := by
  have fits : l.queue.tasks.length < 2 ^ 63 := proper.admits
  rw [tasks_length] at fits
  have broker := gives_deadLetters (s := s) (w := { w with clock })
    (fun d mem => (h.fine.letters d mem).plain) h.same.dead
    (by rw [List.length_reverse]; omega) limit
  exact agrees_of h proper rfl (l.queue.deadLetters limit) _ rfl broker rfl (.refl _)
    (h.laid.at clock) (h.same.at clock) h.fine

/-! Taking one away. -/

/-- The only dead letter for an id, in its place. -/
structure Lone (id : String) (before : List DeadLetter) (d : DeadLetter) (after : List DeadLetter) :
    Prop where
  own : LocalQueue.isLetterFor id d = true
  before : ∀ e ∈ before, ¬ LocalQueue.isLetterFor id e = true
  after : ∀ e ∈ after, ¬ LocalQueue.isLetterFor id e = true

theorem lone_of_find? (sound : q.Sound) {id : String} {d : DeadLetter}
    (found : q.dead.find? (LocalQueue.isLetterFor id) = some d) :
    ∃ before after, q.dead = before ++ d :: after ∧ Lone id before d after := by
  obtain ⟨own, before, after, split, others⟩ := List.find?_eq_some_iff_append.mp found
  have once := sound.once
  simp only [LocalQueue.ids, LocalQueue.tasks, split, List.map_append, List.map_cons,
    List.nodup_append, List.nodup_cons] at once
  refine ⟨before, after, split, own, fun e mem => by simpa using others e mem, fun e mem too => ?_⟩
  have same : e.task.id = d.task.id := (beq_iff_eq.mp too).trans (beq_iff_eq.mp own).symm
  exact once.2.1.2.1.1 (List.mem_map.mpr ⟨e.task, List.mem_map_of_mem mem, same⟩)

namespace Lone

variable {id : String} {d : DeadLetter} {before after : List DeadLetter}

theorem find? (h : Lone id before d after) :
    (before ++ d :: after).find? (LocalQueue.isLetterFor id) = some d := by
  rw [List.find?_append, List.find?_eq_none.mpr h.before, Option.none_or,
    List.find?_cons_of_pos h.own]

theorem reverse (h : Lone id before d after) : Lone id after.reverse d before.reverse :=
  ⟨h.own, fun e mem => h.after e (List.mem_reverse.mp mem),
    fun e mem => h.before e (List.mem_reverse.mp mem)⟩

theorem find?_reverse (h : Lone id before d after) :
    (before ++ d :: after).reverse.find? (LocalQueue.isLetterFor id) = some d := by
  rw [List.reverse_append, List.reverse_cons, List.append_assoc]
  exact h.reverse.find?

theorem any (h : Lone id before d after) :
    (before ++ d :: after).any (LocalQueue.isLetterFor id) = true :=
  List.any_eq_true.mpr ⟨d, List.mem_append_right _ List.mem_cons_self, h.own⟩

theorem eraseP (h : Lone id before d after) :
    (before ++ d :: after).eraseP (LocalQueue.isLetterFor id) = before ++ after := by
  rw [List.eraseP_append_right _ h.before, List.eraseP_cons_of_pos h.own]

theorem filter (h : Lone id before d after) :
    (before ++ d :: after).filter (fun e => !LocalQueue.isLetterFor id e) = before ++ after := by
  rw [List.filter_append, List.filter_cons_of_neg (by simp [h.own]),
    List.filter_eq_self.mpr fun e mem => by simpa using h.before e mem,
    List.filter_eq_self.mpr fun e mem => by simpa using h.after e mem]

/-- The broker erases it by its text, which is that of no other letter. -/
theorem erase (h : Lone id before d after)
    (sendable : ∀ e ∈ (before ++ d :: after).reverse, Sendable e.task) :
    (bodies (before ++ d :: after).reverse).erase (Text.Utf8.bytes d.encoded) =
      bodies (before ++ after).reverse := by
  simp only [List.reverse_append, List.reverse_cons, List.append_assoc, List.singleton_append,
    bodies, List.map_append, List.map_cons] at sendable ⊢
  have absent : Text.Utf8.bytes d.encoded ∉
      after.reverse.map fun e => Text.Utf8.bytes e.encoded := by
    intro mem
    obtain ⟨e, among, same⟩ := List.mem_map.mp mem
    have readE := (sendable e (List.mem_append_left _ among)).letter_read
    have readD := (sendable d (List.mem_append_right _ List.mem_cons_self)).letter_read
    rw [same, readD] at readE
    exact h.after e (List.mem_reverse.mp among) (Except.ok.inj readE ▸ h.own)
  rw [List.erase_append_right _ absent, List.erase_cons_head]

end Lone

/-- Both know a letter for the id, the same, or neither knows of one. -/
theorem Mirrors.letter (h : Mirrors taken line l w) (id : String) :
    (l.queue.dead.find? (LocalQueue.isLetterFor id) = none ∧
      ∀ clock, Job.Gives s { w with clock } (Calls.takeLetter id) none { w with clock }) ∨
    ∃ before d after, l.queue.dead = before ++ d :: after ∧ Lone id before d after ∧
      ∀ clock, Job.Gives s { w with clock } (Calls.takeLetter id) (some d)
        { w with clock, dead := bodies (before ++ after).reverse } := by
  have plain : ∀ d ∈ l.queue.dead.reverse, d.task.Plain (Json.maxNesting - 1) :=
    fun d mem => (h.fine.letters d mem).plain
  cases found : l.queue.dead.find? (LocalQueue.isLetterFor id) with
  | none =>
    have absent : l.queue.dead.reverse.find? (fun d => d.task.id == id) = none := by
      rw [List.find?_eq_none] at found ⊢
      exact fun d mem => found d (List.mem_reverse.mp mem)
    exact .inl ⟨rfl, fun clock => gives_takeLetter_none plain (h.same.at clock).dead absent⟩
  | some d =>
    obtain ⟨before, after, split, lone⟩ := lone_of_find? h.fine.sound found
    have letters := h.fine.letters
    have dead := h.same.dead
    rw [split] at plain letters dead
    refine .inr ⟨before, d, after, split, lone, fun clock => ?_⟩
    have gives := gives_takeLetter (s := s) (w := { w with clock }) plain dead
      lone.find?_reverse
    have erased : w.dead.erase (Text.Utf8.bytes d.encoded) =
        bodies (before ++ after).reverse := by rw [dead, lone.erase letters]
    rw [← erased]
    exact gives

theorem agrees_replay {id : String} (h : Mirrors taken line l w)
    (proper : l.Proper policy ⟨s, clock, .call (.replay id)⟩) :
    Agrees rounds policy around l w ⟨s, clock, .call (.replay id)⟩ := by
  have fine := h.fine.perform_old policy clock (.replay id) (by simp) (by simp)
  have memory : Turn.inMemory rounds policy around ⟨s, clock, .call (.replay id)⟩ l.queue =
      (some (.ok (Access.perform policy clock l.queue (.replay id)).1),
        (Access.perform policy clock l.queue (.replay id)).2) := by
    show Program.run _ (LocalQueue.answer rounds (.replay id)) _ = _
    rw [LocalQueue.answer, LocalQueue.Calls.replay, bind_assoc, run_access_bind]
    exact Program.run_bind_of_some (run_ringIf clock _ _)
  rcases h.letter (s := s) id with ⟨absent, gives⟩ | ⟨before, d, after, split, lone, gives⟩
  · have perform : Access.perform policy clock l.queue (.replay id) = (false, l.queue) := by
      simp [Access.perform, LocalQueue.replay?, absent, Access.accepted]
    rw [perform] at memory fine
    exact agrees_of h proper rfl false false memory ((gives clock).bind (Job.gives_pure _)) rfl
      (.refl _) (h.laid.at clock) (h.same.at clock) fine
  · have perform : Access.perform policy clock l.queue (.replay id) = (true, { l.queue with
        dead := before ++ after, pending := l.queue.pending ++ [d.task] }) := by
      simp only [Access.perform, LocalQueue.replay?, split, lone.find?, lone.eraseP,
        Option.map_some, Access.accepted]
    rw [perform] at memory fine
    have laid : Laid taken line { w with clock, dead := bodies (before ++ after).reverse } :=
      h.laid.of_eq rfl rfl rfl rfl rfl
    refine agrees_of h proper rfl true true memory
      ((gives clock).bind ((gives_append d.task).bind (Job.gives_pure _))) rfl (.refl _)
      (laid.append d.task)
      ⟨h.same.inFlight, ?_, rfl, h.same.results⟩ fine
    rw [List.map_append, h.same.pending]
    rfl

theorem agrees_discard {id : String} (h : Mirrors taken line l w)
    (proper : l.Proper policy ⟨s, clock, .call (.discard id)⟩) :
    Agrees rounds policy around l w ⟨s, clock, .call (.discard id)⟩ := by
  have fine := h.fine.perform_old policy clock (.discard id) (by simp) (by simp)
  have memory : Turn.inMemory rounds policy around ⟨s, clock, .call (.discard id)⟩ l.queue =
      (some (.ok (Access.perform policy clock l.queue (.discard id)).1),
        (Access.perform policy clock l.queue (.discard id)).2) := rfl
  rcases h.letter (s := s) id with ⟨absent, gives⟩ | ⟨before, d, after, split, lone, gives⟩
  · have none : l.queue.dead.any (LocalQueue.isLetterFor id) = false :=
      List.any_eq_false.mpr (List.find?_eq_none.mp absent)
    have perform : Access.perform policy clock l.queue (.discard id) = (false, l.queue) := by
      simp [Access.perform, LocalQueue.discard?, none, Access.accepted]
    rw [perform] at memory fine
    exact agrees_of h proper rfl false false memory ((gives clock).bind (Job.gives_pure _)) rfl
      (.refl _) (h.laid.at clock) (h.same.at clock) fine
  · have perform : Access.perform policy clock l.queue (.discard id) = (true, { l.queue with
        dead := before ++ after }) := by
      simp only [Access.perform, LocalQueue.discard?, split, lone.any, lone.filter, if_true,
        Access.accepted]
    rw [perform] at memory fine
    exact agrees_of h proper rfl true true memory ((gives clock).bind (Job.gives_pure _)) rfl
      (.refl _) (h.laid.of_eq rfl rfl rfl rfl rfl) ⟨h.same.inFlight, h.same.pending, rfl, h.same.results⟩ fine

end Agreement

end ClaimQueue
