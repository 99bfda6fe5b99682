import ClaimQueue.Proofs.Local.Awaiting

/-! Nobody sleeps beside a result. Whoever looks in vain has noted the announcements before, and an
announcement follows the saving of the result that it is about; so either the look finds the result,
or the announcement is one that was not noted. -/

namespace ClaimQueue

namespace LocalQueue

/-- The end of a call that saves a result for this id. -/
def Moment.Announces (id : String) (m : Moment) : Prop :=
  ∃ r, m.undertaking = .call (.publish r) ∧ m.step = .announce ∧ r.taskId = id

namespace Audience

def HasAnnounced (id : String) (y : Audience) : Prop := ∃ m ∈ y.record, m.Announces id

/-- What a caller did in one of its undertakings. -/
def own (i turn : Nat) (y : Audience) : List Moment :=
  y.record.filter fun m => m.caller == i && m.turn == turn

/-- What can be told of a wait that has ended: it gave a result that was saved for the id, or its
time was up, and nothing had been announced for the id until then. -/
def Told (y : Audience) (own : List Moment) (id : String) (timeout : Span) :
    Except QueueError (Option TaskResult) → Prop
  | .ok (some r) => r.taskId = id ∧ ∃ d ∈ y.deeds, d.access = .save r
  | .ok none => ∃ start between last seen, own = last :: between ++ [start] ∧
      start.step = .elapsed ∧
      last.step = .attendResult seen ⟨start.time.nanos + timeout.nanos⟩ ∧
      start.time.nanos + timeout.nanos ≤ last.time.nanos ∧
      ∀ m ∈ y.record, m.Announces id → start.time.nanos + timeout.nanos ≤ m.time.nanos
  | .error _ => False

/-- The first that a wait did was to look at the time, which gave it its deadline. -/
def Begun (own : List Moment) (timeout deadline : Span) : Prop :=
  ∃ more start, own = more ++ [start] ∧ start.step = .elapsed ∧
    deadline = ⟨start.time.nanos + timeout.nanos⟩

/-- Where a wait stands. Each round has noted more announcements than the one before it. -/
inductive Stage (rounds : Nat) (y : Audience) (own : List Moment) (id : String) (timeout : Span) :
    AwaitSteps → Prop
  | starts (none : own = []) : Stage rounds y own id timeout
      (LocalQueue.answer rounds (.awaitResult id timeout))
  | notes {left : Nat} {deadline : Span} (begun : Begun own timeout deadline)
      (used : rounds ≤ left + y.announced) : Stage rounds y own id timeout (noting left id deadline)
  | looks {left seen : Nat} {deadline : Span} (begun : Begun own timeout deadline)
      (noted : seen ≤ y.announced) (used : rounds ≤ left + 1 + seen) :
      Stage rounds y own id timeout (peeking left id deadline seen)
  | sleeps {left seen : Nat} {deadline : Span} (begun : Begun own timeout deadline)
      (noted : seen ≤ y.announced) (used : rounds ≤ left + 1 + seen)
      (vain : seen = y.announced → ¬ y.HasAnnounced id) :
      Stage rounds y own id timeout (dozing left id deadline seen)

/-- There is something left to do. -/
theorem Stage.ne_done {rounds : Nat} {y : Audience} {own : List Moment} {id : String}
    {timeout : Span} {p : AwaitSteps} (h : Stage rounds y own id timeout p)
    {o : Except QueueError (Option TaskResult)} : p ≠ .done o := by
  intro done
  cases h with
  | starts | looks | sleeps => cases done
  | @notes left =>
    cases left with
    | zero => cases done
    | succ left =>
      rw [noting_succ] at done
      cases done

/-- Where the saving of a result stands. -/
inductive Saving (rounds : Nat) (y : Audience) (r : TaskResult) : Steps (Except QueueError Unit) → Prop
  | starts : Saving rounds y r (LocalQueue.answer rounds (.publish r))
  | saved (there : (y.queue.result? r.taskId).isSome) : Saving rounds y r announcing

structure Heeded (rounds : Nat) (y : Audience) (i : Nat) (c : Caller) : Prop where
  turns : ∀ m ∈ y.record, m.caller = i → m.turn < c.history.length ∨
    m.turn = c.history.length ∧ c.current.isSome
  ended : ∀ later id timeout o earlier,
    c.history = later ++ ⟨.call (.awaitResult id timeout), o⟩ :: earlier →
    Told y (y.own i earlier.length) id timeout o
  waits : ∀ id timeout p, c.current = some ⟨.call (.awaitResult id timeout), p⟩ →
    Stage rounds y (y.own i c.history.length) id timeout p
  saves : ∀ r p, c.current = some ⟨.call (.publish r), p⟩ → Saving rounds y r p

structure Kept (rounds : Nat) (y : Audience) : Prop where
  times : ∀ m ∈ y.record, m.time.nanos ≤ y.time.nanos
  sound : ∀ id r, y.queue.result? id = some r → r.taskId = id ∧ ∃ d ∈ y.deeds, d.access = .save r
  stored : ∀ id, y.HasAnnounced id → (y.queue.result? id).isSome
  callers : ∀ i c, y.callers[i]? = some c → Heeded rounds y i c

theorem heeded_fresh (policy : RetryPolicy) (rounds n i : Nat) :
    Heeded rounds (fresh policy n) i {} where
  turns _ mem := (List.not_mem_nil mem).elim
  ended later _ _ _ _ same := by simp at same
  waits _ _ _ same := nomatch same
  saves _ _ same := nomatch same

theorem kept_fresh (policy : RetryPolicy) (rounds n : Nat) : Kept rounds (fresh policy n) where
  times _ mem := (List.not_mem_nil mem).elim
  sound id r found := nomatch found
  stored id announced := by
    obtain ⟨m, mem, -⟩ := announced
    cases mem
  callers i c found := by
    rw [List.eq_of_mem_replicate (List.mem_of_getElem? found)]
    exact heeded_fresh policy rounds n i

section Moved

variable {rounds i : Nat} {m : Moment} {y y' : Audience} {own : List Moment} {id : String}
  {timeout : Span}

theorem Moved.hasAnnounced (moved : Moved m y y') :
    y'.HasAnnounced id ↔ m.Announces id ∨ y.HasAnnounced id := by
  simp only [HasAnnounced, moved.record, List.exists_mem_cons_iff]

theorem Moved.own_of_other (moved : Moved m y y') (other : m.caller ≠ i) (turn : Nat) :
    y'.own i turn = y.own i turn := by
  simp [Audience.own, moved.record, other]

theorem Moved.own_now (moved : Moved m y y') : y'.own m.caller m.turn = m :: y.own m.caller m.turn := by
  simp [Audience.own, moved.record]

theorem Moved.own_then (moved : Moved m y y') {turn : Nat} (other : m.turn ≠ turn) :
    y'.own i turn = y.own i turn := by
  simp [Audience.own, moved.record, other]

/-- What any event leaves as it was, for all callers that it is not about. -/
structure Onward (y y' : Audience) : Prop where
  announced : y.announced ≤ y'.announced
  silent : y'.announced = y.announced → ∀ id, y'.HasAnnounced id → y.HasAnnounced id
  results : ∀ id, (y.queue.result? id).isSome → (y'.queue.result? id).isSome
  deeds : ∀ d ∈ y.deeds, d ∈ y'.deeds
  record : ∀ m ∈ y'.record, m ∈ y.record ∨ m.time = y.time

theorem Moved.onward (moved : Moved m y y') : Onward y y' where
  announced := moved.announced_le
  silent same id announced := by
    refine (moved.hasAnnounced.mp announced).resolve_left fun ⟨r, _, announce, _⟩ => ?_
    have grew := moved.announced
    rw [announce] at grew
    have counted : y'.announced = y.announced + 1 := grew
    omega
  results _ := moved.keeps_result
  deeds := moved.deeds
  record x mem := by
    rw [moved.record] at mem
    rcases List.mem_cons.mp mem with rfl | mem
    · exact .inr moved.now
    · exact .inl mem

theorem onward_of_eq (record : y'.record = y.record) (announced : y'.announced = y.announced)
    (queue : y'.queue = y.queue) (deeds : y'.deeds = y.deeds) : Onward y y' where
  announced := Nat.le_of_eq announced.symm
  silent _ id announced := by rwa [HasAnnounced, record] at announced
  results id there := by rwa [queue]
  deeds d mem := by rwa [deeds]
  record x mem := .inl (by rwa [← record])

section Onward

variable (onward : Onward y y')
include onward

/-- What was told of an ended wait stays true: announcements after it come after its deadline. -/
theorem Onward.told (times : ∀ m ∈ y.record, m.time.nanos ≤ y.time.nanos)
    (among : ∀ m ∈ own, m ∈ y.record) {o : Except QueueError (Option TaskResult)}
    (told : Told y own id timeout o) : Told y' own id timeout o := by
  match o, told with
  | .ok (some r), ⟨same, d, mem, save⟩ => exact ⟨same, d, onward.deeds d mem, save⟩
  | .ok none, ⟨start, between, last, seen, split, first, wait, late, announced⟩ =>
    refine ⟨start, between, last, seen, split, first, wait, late, fun x mem told => ?_⟩
    rcases onward.record x mem with mem | now
    · exact announced x mem told
    · rw [now]
      exact Nat.le_trans late (times last (among last (split ▸ List.mem_cons_self)))

theorem Onward.stage {p : AwaitSteps} (stage : Stage rounds y own id timeout p) :
    Stage rounds y' own id timeout p := by
  have more := onward.announced
  cases stage with
  | starts none => exact .starts none
  | notes begun used => exact .notes begun (Nat.le_trans used (Nat.add_le_add_left more _))
  | looks begun noted used => exact .looks begun (Nat.le_trans noted more) used
  | sleeps begun noted used vain =>
    refine .sleeps begun (Nat.le_trans noted more) used fun all announced => ?_
    have same : y'.announced = y.announced := Nat.le_antisymm (all ▸ noted) more
    exact vain (all.trans same) (onward.silent same _ announced)

theorem Onward.saving {r : TaskResult} {p : Steps (Except QueueError Unit)}
    (saving : Saving rounds y r p) : Saving rounds y' r p := by
  cases saving with
  | starts => exact .starts
  | saved there => exact .saved (onward.results _ there)

end Onward

theorem own_subset : ∀ m ∈ y.own i turn, m ∈ y.record := fun _ mem => (List.mem_filter.mp mem).1

/-- An event that is about another. -/
theorem Heeded.of_other {c : Caller} (h : Heeded rounds y i c) (onward : Onward y y')
    (others : ∀ turn, y'.own i turn = y.own i turn)
    (turns : ∀ m ∈ y'.record, m.caller = i → m ∈ y.record)
    (times : ∀ m ∈ y.record, m.time.nanos ≤ y.time.nanos) : Heeded rounds y' i c where
  turns x mem own := h.turns x (turns x mem own) own
  ended later id timeout o earlier history := by
    rw [others]
    exact onward.told times own_subset (h.ended later id timeout o earlier history)
  waits id timeout p current := by
    rw [others]
    exact onward.stage (h.waits id timeout p current)
  saves r p current := onward.saving (h.saves r p current)

/-- A busy caller, whose undertaking ends if nothing is left to do. -/
theorem Heeded.settle {c : Caller} (busy : c.current.isSome)
    (turns : ∀ m ∈ y.record, m.caller = i → m.turn ≤ c.history.length)
    (ended : ∀ later id timeout o earlier,
      c.history = later ++ ⟨.call (.awaitResult id timeout), o⟩ :: earlier →
      Told y (y.own i earlier.length) id timeout o)
    (waits : ∀ id timeout p, c.current = some ⟨.call (.awaitResult id timeout), p⟩ →
      Stage rounds y (y.own i c.history.length) id timeout p ∨
        ∃ o, p = .done o ∧ Told y (y.own i c.history.length) id timeout o)
    (saves : ∀ r p, c.current = some ⟨.call (.publish r), p⟩ →
      Saving rounds y r p ∨ ∃ o, p = .done o) : Heeded rounds y i c.settle := by
  rcases settle_cases c with ⟨u, o, current, settled⟩ | settled
  · rw [settled]
    refine ⟨fun m mem own => .inl (Nat.lt_succ_of_le (turns m mem own)), ?_,
      fun _ _ _ none => (by cases none), fun _ _ none => (by cases none)⟩
    intro later id timeout o' earlier history
    cases later with
    | cons _ later => exact ended later id timeout o' earlier (List.cons.inj history).2
    | nil =>
      obtain ⟨same, rfl⟩ := List.cons.inj history
      cases same
      rcases waits id timeout _ current with stage | ⟨o, same, told⟩
      · exact (stage.ne_done rfl).elim
      · cases same
        exact told
  · rw [settled]
    refine ⟨fun m mem own => ?_, ended, fun id timeout p current => ?_, fun r p current => ?_⟩
    · exact (Nat.lt_or_eq_of_le (turns m mem own)).imp_right fun same => ⟨same, busy⟩
    · refine (waits id timeout p current).resolve_right ?_
      rintro ⟨o, done, -⟩
      simp only [Caller.settle, current, done] at settled
      rw [← settled] at current
      cases current
    · refine (saves r p current).resolve_right ?_
      rintro ⟨o, done⟩
      simp only [Caller.settle, current, done] at settled
      rw [← settled] at current
      cases current

theorem Heeded.begin {c : Caller} (h : Heeded rounds y i c) (u : Undertaking) :
    Heeded rounds y i (c.begin rounds u) := by
  unfold Caller.begin
  split
  · exact h
  · rename_i idle
    have past : ∀ m ∈ y.record, m.caller = i → m.turn < c.history.length := by
      intro m mem own
      refine (h.turns m mem own).resolve_right fun ⟨_, busy⟩ => ?_
      simp [idle] at busy
    refine Heeded.settle rfl (fun m mem own => Nat.le_of_lt (past m mem own)) h.ended
      (fun id timeout p current => ?_) fun r p current => ?_
    · cases current
      refine .inl (.starts (List.filter_eq_nil_iff.mpr fun m mem => ?_))
      simp only [Bool.and_eq_true, beq_iff_eq, not_and]
      exact fun own => Nat.ne_of_lt (past m mem own)
    · cases current
      exact .inl .starts

/-- A step of the caller itself. -/
theorem Heeded.own_step {c : Caller} (h : Heeded rounds y i c) {u : Undertaking} {s : Step}
    {q : Steps u.Outcome} (moved : Moved ⟨i, c.history.length, u, s, y.time⟩ y y')
    (times : ∀ m ∈ y.record, m.time.nanos ≤ y.time.nanos)
    (waits : ∀ id timeout q', (⟨u, q⟩ : Underway) = ⟨.call (.awaitResult id timeout), q'⟩ →
      Stage rounds y' (y'.own i c.history.length) id timeout q' ∨
        ∃ o, q' = .done o ∧ Told y' (y'.own i c.history.length) id timeout o)
    (saves : ∀ r q', (⟨u, q⟩ : Underway) = ⟨.call (.publish r), q'⟩ →
      Saving rounds y' r q' ∨ ∃ o, q' = .done o) :
    Heeded rounds y' i ({ c with current := some ⟨u, q⟩ } : Caller).settle := by
  refine Heeded.settle rfl (fun m mem own => ?_) (fun later id timeout o earlier history => ?_)
    (fun id timeout q' same => waits id timeout q' (Option.some.inj same))
    fun r q' same => saves r q' (Option.some.inj same)
  · rw [moved.record] at mem
    rcases List.mem_cons.mp mem with rfl | mem
    · exact Nat.le_refl _
    · exact (h.turns m mem own).elim Nat.le_of_lt fun here => Nat.le_of_eq here.1
  · have before : c.history.length ≠ earlier.length := by
      have length := congrArg List.length history
      simp only [List.length_append, List.length_cons] at length
      omega
    rw [moved.own_then before]
    exact moved.onward.told times own_subset (h.ended later id timeout o earlier history)

/-! The wait's own steps, and those of a call that saves. -/

theorem Begun.cons {deadline : Span} (h : Begun own timeout deadline) (m : Moment) :
    Begun (m :: own) timeout deadline := by
  obtain ⟨more, start, split, first, same⟩ := h
  exact ⟨m :: more, start, by rw [split]; rfl, first, same⟩

/-- What is left of a wait after one more step. -/
theorem Stage.go {c : Caller} {s : Step} {next : s.Answer → AwaitSteps}
    (stage : Stage rounds y (y.own i c.history.length) id timeout (.ask s next))
    (found : y.callers[i]? = some c)
    (current : c.current = some ⟨.call (.awaitResult id timeout), .ask s next⟩)
    (awake : y.holds s = false)
    (sound : ∀ id r, y.queue.result? id = some r → r.taskId = id ∧ ∃ d ∈ y.deeds, d.access = .save r)
    (stored : ∀ id, y.HasAnnounced id → (y.queue.result? id).isSome) (around : Surroundings) :
    ∃ q : AwaitSteps, (y.go i around).callers = y.callers.set i ({ c with
        current := some ⟨.call (.awaitResult id timeout), q⟩ } : Caller).settle ∧
      (Stage rounds (y.go i around) ((y.go i around).own i c.history.length) id timeout q ∨
        ∃ o, q = .done o ∧
          Told (y.go i around) ((y.go i around).own i c.history.length) id timeout o) := by
  have moved := go_moved found current awake around
  have more := moved.announced_le
  have now := moved.own_now
  dsimp only at now
  rw [now]
  have silent (quiet : s.announces = false) :
      (y.go i around).HasAnnounced id → y.HasAnnounced id := by
    intro announced
    refine (moved.hasAnnounced.mp announced).resolve_left ?_
    rintro ⟨r, -, announce, -⟩
    have step : s = .announce := announce
    rw [step] at quiet
    cases quiet
  generalize whole : (Program.ask s next : AwaitSteps) = p at stage
  cases stage with
  | starts none =>
    rw [answer_awaitResult] at whole
    cases whole
    refine ⟨_, callers_of_told found current awake (fun _ same => by cases same) around,
      .inl (.notes ?_ ?_)⟩
    · rw [none]
      exact ⟨[], _, rfl, rfl, rfl⟩
    · exact Nat.le_add_right _ _
  | @notes left deadline begun used =>
    cases left with
    | zero => cases whole
    | succ left =>
      rw [noting_succ] at whole
      cases whole
      refine ⟨_, callers_of_told found current awake (fun _ same => by cases same) around,
        .inl (.looks (begun.cons _) more used)⟩
  | @looks left seen deadline begun noted used =>
    cases whole
    refine ⟨_, callers_of_access found current around, ?_⟩
    have looked : (Access.perform y.policy (around .clock) y.queue (.result id)).1 =
        y.queue.result? id := rfl
    rw [looked]
    cases there : y.queue.result? id with
    | some r =>
      obtain ⟨same, d, mem, save⟩ := sound id r there
      exact .inr ⟨_, rfl, same, d, moved.deeds d mem, save⟩
    | none =>
      refine .inl (.sleeps (begun.cons _) (Nat.le_trans noted more) used fun _ announced => ?_)
      have found := stored id (silent rfl announced)
      rw [there] at found
      cases found
  | @sleeps left seen deadline begun noted used vain =>
    cases whole
    refine ⟨_, callers_of_told found current awake (fun _ same => by cases same) around, ?_⟩
    by_cases all : seen = y.announced
    · have asleep : y.telling around (.attendResult seen deadline) = false := by
        simp [telling, all]
      have late : deadline.nanos ≤ y.time.nanos := by simpa [holds, all] using awake
      rw [asleep]
      obtain ⟨between, start, split, first, same⟩ := begun
      subst same
      have none : ∀ m ∈ (y.go i around).record, ¬ m.Announces id := fun m mem told =>
        vain all (silent rfl ⟨m, mem, told⟩)
      exact .inr ⟨_, rfl, start, between, ⟨i, c.history.length, _, _, y.time⟩, seen,
        congrArg (List.cons _) split, first, rfl, late, fun m mem told => (none m mem told).elim⟩
    · have woken : y.telling around (.attendResult seen deadline) = true := by
        simp [telling, Ne.symm all]
      rw [woken]
      refine .inl (.notes (begun.cons _) ?_)
      omega

theorem Saving.go {c : Caller} {r : TaskResult} {s : Step}
    {next : s.Answer → Steps (Except QueueError Unit)} (saving : Saving rounds y r (.ask s next))
    (found : y.callers[i]? = some c)
    (current : c.current = some ⟨.call (.publish r), .ask s next⟩) (awake : y.holds s = false)
    (around : Surroundings) : ∃ q : Steps (Except QueueError Unit),
      (y.go i around).callers = y.callers.set i ({ c with
        current := some ⟨.call (.publish r), q⟩ } : Caller).settle ∧
      (Saving rounds (y.go i around) r q ∨ ∃ o, q = .done o) ∧
      (s = .announce → (y.queue.result? r.taskId).isSome) := by
  have moved := go_moved found current awake around
  generalize whole : (Program.ask s next : Steps (Except QueueError Unit)) = p at saving
  cases saving with
  | starts =>
    rw [answer_publish] at whole
    cases whole
    refine ⟨_, callers_of_access found current around, .inl (.saved ?_), fun same => (by cases same)⟩
    have results := moved.results
    dsimp only at results
    rw [LocalQueue.result?, results, Index.find?_put, if_pos rfl]
    rfl
  | saved there =>
    cases whole
    exact ⟨_, callers_of_told found current awake (fun _ same => by cases same) around,
      .inr ⟨_, rfl⟩, fun _ => there⟩

end Moved

section Kept

variable {rounds i : Nat} {y : Audience} {c : Caller} {u : Undertaking} {s : Step}
  {next : s.Answer → Steps u.Outcome}

theorem Kept.caller_go (h : Kept rounds y) (found : y.callers[i]? = some c)
    (current : c.current = some ⟨u, .ask s next⟩) (awake : y.holds s = false)
    (around : Surroundings) : ∃ c', (y.go i around).callers = y.callers.set i c' ∧
      Heeded rounds (y.go i around) i c' := by
  have moved := go_moved found current awake around
  have own := h.callers i c found
  by_cases waits : ∃ id timeout, u = .call (.awaitResult id timeout)
  · obtain ⟨id, timeout, rfl⟩ := waits
    obtain ⟨q, callers, stage⟩ := (own.waits id timeout _ current).go found current awake h.sound
      h.stored around
    refine ⟨_, callers, own.own_step moved h.times (fun id' timeout' q' same => ?_) fun r q' same => ?_⟩
    · cases same
      exact stage
    · cases same
  · by_cases saves : ∃ r, u = .call (.publish r)
    · obtain ⟨r, rfl⟩ := saves
      obtain ⟨q, callers, saving, -⟩ := (own.saves r _ current).go found current awake around
      refine ⟨_, callers, own.own_step moved h.times (fun id timeout q' same => ?_) fun r' q' same => ?_⟩
      · cases same
      · cases same
        exact saving
    · obtain ⟨q, callers⟩ := callers_of_go found current awake around
      refine ⟨_, callers, own.own_step moved h.times (fun id timeout q' same => ?_) fun r q' same => ?_⟩
      · exact (waits ⟨id, timeout, congrArg Underway.undertaking same⟩).elim
      · exact (saves ⟨r, congrArg Underway.undertaking same⟩).elim

theorem Kept.go (h : Kept rounds y) (i : Nat) (around : Surroundings) :
    Kept rounds (y.go i around) := by
  rcases go_still i around with same | ⟨c, u, s, next, found, current, awake⟩
  · rwa [same]
  have moved := go_moved found current awake around
  refine ⟨fun m mem => ?_, fun id r there => ?_, fun id announced => ?_, fun j d found' => ?_⟩
  · rw [moved.record] at mem
    rw [moved.time]
    rcases List.mem_cons.mp mem with rfl | mem
    · exact Nat.le_refl _
    · exact h.times m mem
  · rcases moved.result? id with same | ⟨r', save, own, put⟩
    · obtain ⟨own, d, mem, save⟩ := h.sound id r (same.symm.trans there)
      exact ⟨own, d, moved.deeds d mem, save⟩
    · obtain rfl : r' = r := Option.some.inj (put.symm.trans there)
      exact ⟨own, moved.saved r' save⟩
  · refine moved.keeps_result ?_
    rcases moved.hasAnnounced.mp announced with ⟨r, publish, announce, rfl⟩ | announced
    · obtain rfl : u = .call (.publish r) := publish
      obtain ⟨-, -, -, there⟩ := ((h.callers i c found).saves r _ current).go found current awake around
      exact there announce
    · exact h.stored id announced
  · obtain ⟨c', callers, heeded⟩ := h.caller_go found current awake around
    rw [callers, List.getElem?_set] at found'
    split at found'
    · rename_i same
      subst same
      split at found'
      · cases found'
        exact heeded
      · cases found'
    · rename_i other
      refine (h.callers j d found').of_other moved.onward
        (moved.own_of_other (fun same => other same)) (fun m mem own => ?_) h.times
      rw [moved.record] at mem
      exact (List.mem_cons.mp mem).resolve_left fun same =>
        other ((congrArg Moment.caller same).symm.trans own)

theorem Kept.begin (h : Kept rounds y) (i : Nat) (u : Undertaking) :
    Kept rounds (y.step rounds (.begin i u)) := by
  cases found : y.callers[i]? with
  | none =>
    have same : y.step rounds (.begin i u) = y := by simp only [Audience.step, System.step, found]
    rwa [same]
  | some c =>
    have begun : y.step rounds (.begin i u) = { y with
        callers := y.callers.set i (c.begin rounds u) } := by
      simp only [Audience.step, System.step, found]
    rw [begun]
    refine ⟨h.times, h.sound, h.stored, fun j d found' => ?_⟩
    have alike (d : Caller) (heeded : Heeded rounds y j d) :
        Heeded rounds { y with
          callers := y.callers.set i (c.begin rounds u) } j d :=
      heeded.of_other (onward_of_eq rfl rfl rfl rfl) (fun _ => rfl) (fun _ mem _ => mem) h.times
    rw [List.getElem?_set] at found'
    split at found'
    · rename_i same
      subst same
      split at found'
      · cases found'
        exact alike _ ((h.callers i c found).begin u)
      · cases found'
    · exact alike d (h.callers j d found')

theorem Kept.pass (h : Kept rounds y) (span : Span) : Kept rounds (y.step rounds (.pass span)) where
  times m mem := Nat.le_trans (h.times m mem) (Nat.le_add_right _ _)
  sound := h.sound
  stored := h.stored
  callers i c found := (h.callers i c found).of_other (onward_of_eq rfl rfl rfl rfl) (fun _ => rfl)
    (fun _ mem _ => mem) h.times

theorem Kept.step (h : Kept rounds y) (e : Event) : Kept rounds (y.step rounds e) := by
  cases e with
  | begin i u => exact h.begin i u
  | go i around => exact h.go i around
  | pass span => exact h.pass span

theorem Kept.run (h : Kept rounds y) (events : List Event) : Kept rounds (y.run rounds events) := by
  induction events generalizing y with
  | nil => exact h
  | cons e events ih => exact ih (h.step e)

end Kept

end Audience

end LocalQueue

end ClaimQueue
