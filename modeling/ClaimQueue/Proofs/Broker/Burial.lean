import ClaimQueue.Proofs.Broker.Answers
import ClaimQueue.Proofs.Broker.Questions
import ClaimQueue.Proofs.Task.Legible

/-! Tasks that are parked for good, and whether operators can reach them. A dead letter nests one
level deeper than the task in it, but both are read to the same depth: a task that was read off the
stream may be parked in a letter that nobody can read. -/

namespace ClaimQueue

namespace Broker

open Server Job

/-- Undisturbed, the call is answered with `a` and leaves `v`. -/
def Answers (s : Settings) (w : Server) (c : QueueCall) (a : c.Value) (v : Server) : Prop :=
  ∀ rounds, (answer rounds s c).run (Server.answer s) w = (some (.ok a), v)

variable {s : Settings} {w v : Server} {id raw : String} {before after texts : List String}
  {l : DeadLetter}

theorem answers_deadLetters {limit : Nat} {letters : List DeadLetter}
    (h : Gives s w (Calls.deadLetters limit) letters v) :
    Answers s w (.deadLetters limit) letters v := fun _ => h

theorem answers_replay_none (h : Gives s w (Calls.takeLetter id) none v) :
    Answers s w (.replay id) false v := fun _ => h.bind (gives_pure false)

theorem answers_replay (h : Gives s w (Calls.takeLetter id) (some l) v) :
    Answers s w (.replay id) true (v.append (some (Text.Utf8.bytes l.task.encoded))) := fun _ =>
  h.bind ((gives_append l.task).bind (gives_pure true))

theorem answers_discard {l? : Option DeadLetter} (h : Gives s w (Calls.takeLetter id) l? v) :
    Answers s w (.discard id) l?.isSome v := fun _ => h.bind (gives_pure l?.isSome)

/-! One item of the dead list among others. -/

theorem readable_append (before after : List String) :
    Calls.readable (before ++ after) = Calls.readable before ++ Calls.readable after :=
  List.filterMap_append

theorem readable_cons_of_error {fault : Json.Fault}
    (unread : DeadLetter.decoder.ofText raw = .error fault) (texts : List String) :
    Calls.readable (raw :: texts) = Calls.readable texts :=
  List.filterMap_cons_none (by rw [unread])

/-- The item is a letter for the task. Wherever it lies it is listed, if that many are asked for, and
a letter for the task is found. -/
structure InReach (raw id : String) : Prop where
  letter : ∃ l, DeadLetter.decoder.ofText raw = .ok l ∧ l.task.id = id
  listed : ∀ s (w : Server) before after limit,
    w.dead = (before ++ raw :: after).map Text.Utf8.bytes → before.length < pageLength limit →
    ∃ letters, Answers s w (.deadLetters limit) letters w ∧ ∃ l ∈ letters, l.task.id = id
  replayed : ∀ s (w : Server) before after,
    w.dead = (before ++ raw :: after).map Text.Utf8.bytes → ∃ v, Answers s w (.replay id) true v
  discarded : ∀ s (w : Server) before after,
    w.dead = (before ++ raw :: after).map Text.Utf8.bytes → ∃ v, Answers s w (.discard id) true v

/-- The item is no letter, though it lies in the list. What is listed are other items, and only they
are found. -/
structure OutOfReach (raw : String) : Prop where
  unread : DeadLetter.decoder.ofText raw = .error .malformed
  unlisted : ∀ s (w : Server) before after limit,
    w.dead = (before ++ raw :: after).map Text.Utf8.bytes →
    ∃ letters, Answers s w (.deadLetters limit) letters w ∧
      ∀ l ∈ letters, ∃ text ∈ before ++ after, DeadLetter.decoder.ofText text = .ok l
  unfound : ∀ s (w : Server) before after id,
    w.dead = (before ++ raw :: after).map Text.Utf8.bytes → letterFor? id (before ++ after) = none →
    Answers s w (.replay id) false w ∧ Answers s w (.discard id) false w

theorem letterFor?_isSome (read : DeadLetter.decoder.ofText raw = .ok l)
    (before after : List String) : (letterFor? l.task.id (before ++ raw :: after)).isSome :=
  List.find?_isSome.mpr ⟨(raw, l),
    mem_readable.mpr ⟨List.mem_append_right _ List.mem_cons_self, read⟩, beq_self_eq_true _⟩

theorem inReach_of_ok (read : DeadLetter.decoder.ofText raw = .ok l) : InReach raw l.task.id where
  letter := ⟨l, read, rfl⟩
  listed s w before after limit dead within := by
    obtain ⟨n, more⟩ := Nat.exists_eq_add_of_lt within
    have among : raw ∈ (before ++ raw :: after).take (pageLength limit) := by
      rw [more, Nat.add_assoc, List.take_length_add_append, List.take_succ_cons]
      exact List.mem_append_right _ List.mem_cons_self
    exact ⟨_, answers_deadLetters (gives_listing dead limit), l,
      List.mem_map_of_mem (mem_readable.mpr ⟨among, read⟩), rfl⟩
  replayed s w before after dead := by
    obtain ⟨found, same⟩ := Option.isSome_iff_exists.mp (letterFor?_isSome read before after)
    exact ⟨_, answers_replay (gives_taking dead same)⟩
  discarded s w before after dead := by
    obtain ⟨found, same⟩ := Option.isSome_iff_exists.mp (letterFor?_isSome read before after)
    exact ⟨_, answers_discard (gives_taking dead same)⟩

theorem outOfReach_of_error (unread : DeadLetter.decoder.ofText raw = .error .malformed) :
    OutOfReach raw where
  unread := unread
  unlisted s w before after limit dead := by
    refine ⟨_, answers_deadLetters (gives_listing dead limit), fun l mem => ?_⟩
    obtain ⟨⟨text, _⟩, listed, rfl⟩ := List.mem_map.mp mem
    obtain ⟨among, read⟩ := mem_readable.mp listed
    have other : text ≠ raw := by
      rintro rfl
      rw [unread] at read
      cases read
    refine ⟨text, ?_, read⟩
    have among := List.mem_of_mem_take among
    simp only [List.mem_append, List.mem_cons] at among ⊢
    exact among.imp id fun h => h.resolve_left other
  unfound s w before after id dead absent := by
    have passed : letterFor? id (before ++ raw :: after) = letterFor? id (before ++ after) := by
      rw [letterFor?, readable_append, readable_cons_of_error unread, ← readable_append, letterFor?]
    have taken := gives_taking_none (s := s) dead (passed.trans absent)
    exact ⟨answers_replay_none taken, answers_discard taken⟩

/-! What is parked. -/

/-- Among the questions of a call that takes claims back, one buries what cannot be tried again. -/
theorem ReclaimAsks.buried {past : Told} {cs : List Command}
    (h : ReclaimAsks s past (.transaction cs)) (buries : .bury raw ∈ cs) :
    ∃ e t now, TakenOver e past ∧ e.task = .ok t ∧
      s.retry.decide t.bumped.attempts = .deadLetter ∧
      raw = DeadLetter.encoded ⟨t.bumped, s.retry.reason t.bumped.attempts, now⟩ := by
  cases h with
  | @move _ e t taken task now =>
    have moved : Command.bury raw = Calls.moved s now t.bumped := by
      simpa [handling] using buries
    unfold Calls.moved at moved
    split at moved
    · cases moved
    · rename_i decided
      exact ⟨e, t, now, taken, task, decided, Command.bury.inj moved⟩
  | drop => simp [handling] at buries

/-- A call that is told of an entry with a task moves that task first. -/
theorem reclaim_reaches_move {idle : Span} {batch : Nat} (positive : batch ≠ 0) {r : Reply}
    {e : Entry} {es : List Entry} {t : Task} (taken : takenEntries r = .ok (e :: es))
    (task : e.task = .ok t) (now : Instant) :
    ∃ next, (Calls.reclaim s idle batch).run.Reaches
      [⟨.clock, now⟩, ⟨.send (.takeIdle (Calls.wholeMillis idle) batch), .ok r⟩]
      (.ask (.transaction (handling [Calls.moved s now t.bumped] e.id (some t.id))) next) := by
  have told : (Calls.reclaim s idle batch).run.Reaches
      [⟨.send (.takeIdle (Calls.wholeMillis idle) batch), .ok r⟩]
      (Job.ofExcept (takenEntries r) >>= Calls.takeBackAll s).run := by
    rw [Calls.reclaim, if_neg positive]
    exact Program.Reaches.answer (I := asks) (q := Ask.send _) .start (Except.ok r)
  rw [taken] at told
  have first : (Calls.reclaim s idle batch).run.Reaches _ (Calls.takeBackAll s (e :: es)).run := told
  rw [Calls.takeBackAll, Calls.takeBack] at first
  simp only [task] at first
  exact ⟨_, Program.Reaches.answer (I := asks) (q := Ask.clock) first now⟩

theorem Entry.payload_legible {e : Entry} {t : Task} (task : e.task = .ok t) :
    Json.Legible (Json.maxNesting - 1) (.object t.payload) := by
  unfold Entry.task at task
  split at task
  · exact Task.ofBytes_legible task
  · cases task

/-- Whatever an entry holds, whatever the policy and the time: what is parked for a task that nests
less deep than readers go is in reach, and what is parked for any other is out of reach. -/
theorem reclaim_buries_in_reach_iff {idle : Span} {batch : Nat} {past : Told} {cs : List Command}
    {next : Except LinkFault Reply → Program asks (Except QueueError Nat)}
    (reaches : (Calls.reclaim s idle batch).run.Reaches past (.ask (.transaction cs) next))
    (buries : .bury raw ∈ cs) :
    ∃ e t, TakenOver e past ∧ e.task = .ok t ∧
      s.retry.decide t.bumped.attempts = .deadLetter ∧
      if t.toJson.nesting < Json.maxNesting then InReach raw t.id else OutOfReach raw := by
  have asks : ReclaimAsks s past (.transaction cs) := (reclaim_along s idle batch).question reaches
  obtain ⟨e, t, now, taken, task, decided, rfl⟩ := asks.buried buries
  refine ⟨e, t, taken, task, decided, ?_⟩
  have legible := Entry.payload_legible task
  rw [← t.nesting_bumped]
  split
  · rename_i shallow
    obtain ⟨q, read⟩ := DeadLetter.ofText_of_legible
      (l := ⟨t.bumped, s.retry.reason t.bumped.attempts, now⟩) legible shallow
    exact inReach_of_ok read
  · rename_i deep
    exact outOfReach_of_error (DeadLetter.ofText_of_deep
      (l := ⟨t.bumped, s.retry.reason t.bumped.attempts, now⟩) legible (Nat.not_lt.mp deep))

/-! A task that was read, at the depth to which letters are read and one deeper. -/

/-- Taken back three times already. -/
private def lantern (depth : Nat) : Task :=
  ⟨.evaluate, "lantern", [("x", Json.brackets depth)], .empty, 3, .epoch, Task.supportedSchema⟩

private def reaper : Settings := { consumer := "reaper" }

private def lanternEntry (depth : Nat) : Nat × Option (List UInt8) :=
  (1, some (Text.Utf8.bytes (lantern depth).encoded))

private def lanternTold (depth : Nat) : Told :=
  [⟨.clock, .epoch⟩, ⟨.send (.takeIdle (Calls.wholeMillis (.ofSeconds 60)) 10),
    .ok (.list [bulk "0-0", .list ([lanternEntry depth].map entryReply)])⟩]

private def lanternLetter (depth : Nat) : DeadLetter :=
  ⟨(lantern depth).bumped, reaper.retry.reason (lantern depth).bumped.attempts, .epoch⟩

private def lanternMoves (depth : Nat) : List Command :=
  handling [.bury (lanternLetter depth).encoded] (entryId 1) (some "lantern")

private theorem nesting_lantern (depth : Nat) : (lantern depth).toJson.nesting = depth + 2 := by
  simp [Task.nesting_toJson, lantern, Json.nesting, Json.nestingMembers]

private theorem task_lantern {depth : Nat} (deep : depth ≤ 125) :
    (seen (lanternEntry depth)).task = .ok (lantern depth) := by
  have ascending : ["x"].Pairwise (· < ·) := by decide
  have nesting : (lantern depth).toJson.nesting ≤ Json.maxNesting := by
    rw [nesting_lantern]
    exact Nat.add_le_add_right deep 2
  exact Task.ofBytes_of_plain ⟨⟨ascending, Json.plain_brackets depth, trivial⟩, nesting⟩
    UInt32.le_rfl

private theorem taken_lantern {depth : Nat} {e : Entry} (taken : TakenOver e (lanternTold depth)) :
    e = seen (lanternEntry depth) := by
  obtain ⟨millis, batch, r, es, mem, read, among⟩ := taken
  simp only [lanternTold, List.mem_cons, List.not_mem_nil, or_false] at mem
  rcases mem with mem | mem
  · cases mem
  · cases mem
    have entries : Except.ok es = Except.ok [seen (lanternEntry depth)] :=
      read.symm.trans (entriesOf_entryReply [lanternEntry depth])
    rw [Except.ok.inj entries] at among
    exact List.mem_singleton.mp among

private theorem reaches_lantern {depth : Nat} (deep : depth ≤ 125) :
    ∃ next, (Calls.reclaim reaper (.ofSeconds 60) 10).run.Reaches (lanternTold depth)
      (.ask (.transaction (lanternMoves depth)) next) := by
  have entries : takenEntries (.list [bulk "0-0", .list ([lanternEntry depth].map entryReply)]) =
      .ok [seen (lanternEntry depth)] := entriesOf_entryReply [lanternEntry depth]
  exact reclaim_reaches_move (by decide) entries (task_lantern deep) .epoch

private theorem buries_lantern (depth : Nat) :
    .bury (lanternLetter depth).encoded ∈ lanternMoves depth := List.mem_cons_self

/-- One deeper than letters are read, it is parked out of reach. -/
theorem reclaim_buries_out_of_reach :
    Task.ofBytes (Text.Utf8.bytes (lantern 125).encoded) = .ok (lantern 125) ∧
    (∃ next, (Calls.reclaim reaper (.ofSeconds 60) 10).run.Reaches (lanternTold 125)
      (.ask (.transaction (lanternMoves 125)) next)) ∧
    .bury (lanternLetter 125).encoded ∈ lanternMoves 125 ∧
    ¬ ∃ l, DeadLetter.decoder.ofText (lanternLetter 125).encoded = .ok l := by
  have task : Task.ofBytes (Text.Utf8.bytes (lantern 125).encoded) = .ok (lantern 125) :=
    task_lantern (Nat.le_refl 125)
  have deep : Json.maxNesting ≤ (lantern 125).toJson.nesting := (nesting_lantern 125).symm.le
  have legible : Json.Legible (Json.maxNesting - 1) (.object (lantern 125).payload) :=
    Task.ofBytes_legible task
  have unread : DeadLetter.decoder.ofText (lanternLetter 125).encoded = .error .malformed :=
    DeadLetter.ofText_of_deep (l := lanternLetter 125) legible deep
  refine ⟨task, reaches_lantern (Nat.le_refl 125), buries_lantern 125, ?_⟩
  rintro ⟨l, read⟩
  rw [unread] at read
  cases read

theorem reclaim_buries_lantern :
    (∃ next, (Calls.reclaim reaper (.ofSeconds 60) 10).run.Reaches (lanternTold 124)
      (.ask (.transaction (lanternMoves 124)) next)) ∧
    .bury (lanternLetter 124).encoded ∈ lanternMoves 124 ∧
    InReach (lanternLetter 124).encoded "lantern" ∧
    (∃ next, (Calls.reclaim reaper (.ofSeconds 60) 10).run.Reaches (lanternTold 125)
      (.ask (.transaction (lanternMoves 125)) next)) ∧
    .bury (lanternLetter 125).encoded ∈ lanternMoves 125 ∧
    OutOfReach (lanternLetter 125).encoded := by
  obtain ⟨next, shallow⟩ := reaches_lantern (by decide : 124 ≤ 125)
  obtain ⟨next', deep⟩ := reaches_lantern (Nat.le_refl 125)
  obtain ⟨e, t, taken, task, -, reach⟩ := reclaim_buries_in_reach_iff shallow (buries_lantern 124)
  rw [taken_lantern taken, task_lantern (by decide)] at task
  cases task
  rw [nesting_lantern, if_pos (by decide)] at reach
  obtain ⟨e, t, taken, task, -, lost⟩ := reclaim_buries_in_reach_iff deep (buries_lantern 125)
  rw [taken_lantern taken, task_lantern (Nat.le_refl 125)] at task
  cases task
  rw [nesting_lantern, if_neg (by decide)] at lost
  exact ⟨⟨next, shallow⟩, buries_lantern 124, reach, ⟨next', deep⟩, buries_lantern 125, lost⟩

end Broker

end ClaimQueue
