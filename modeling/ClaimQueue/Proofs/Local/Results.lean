import ClaimQueue.Proofs.Local.Announcements

/-! Waiting for a result, whatever others do meanwhile. Main statement: no wait sleeps through the
announcement of a result for its id, and no wait ends in vain before its time is up. -/

namespace ClaimQueue

namespace LocalQueue

namespace Audience

/-- How many steps of its own a wait needs at most, once the result is there and announced. -/
inductive Near (rounds : Nat) (y : Audience) (id : String) (timeout : Span) (n : Nat) :
    AwaitSteps → Prop
  | starts (few : 3 ≤ n) : Near rounds y id timeout n
      (LocalQueue.answer rounds (.awaitResult id timeout))
  | notes {left : Nat} {deadline : Span} (few : 2 ≤ n) :
      Near rounds y id timeout n (noting (left + 1) id deadline)
  | looks {left seen : Nat} {deadline : Span} (few : 1 ≤ n) :
      Near rounds y id timeout n (peeking left id deadline seen)
  | wakes {left seen : Nat} {deadline : Span} (few : 3 ≤ n) (missed : seen < y.announced) :
      Near rounds y id timeout n (dozing (left + 1) id deadline seen)

variable {rounds i n : Nat} {y y' : Audience} {own : List Moment} {id : String} {timeout : Span}
  {p : AwaitSteps} {c : Caller} {old : List Finished}

/-- Rounds are left, as each has noted another number of announcements. -/
theorem Stage.near (stage : Stage rounds y own id timeout p) (announced : y.HasAnnounced id)
    (enough : y.announced < rounds) : Near rounds y id timeout 3 p := by
  cases stage with
  | starts => exact .starts (Nat.le_refl 3)
  | @notes left deadline begun used =>
    obtain ⟨more, rfl⟩ := Nat.exists_eq_add_of_lt (show 0 < left by omega)
    rw [Nat.zero_add]
    exact .notes (by decide)
  | looks => exact .looks (by decide)
  | @sleeps left seen deadline begun noted used vain =>
    have missed : seen < y.announced := Nat.lt_of_le_of_ne noted fun all => vain all announced
    obtain ⟨more, rfl⟩ := Nat.exists_eq_add_of_lt (show 0 < left by omega)
    rw [Nat.zero_add]
    exact .wakes (Nat.le_refl 3) missed

theorem Near.onward (near : Near rounds y id timeout n p) (more : y.announced ≤ y'.announced) :
    Near rounds y' id timeout n p := by
  cases near with
  | starts few => exact .starts few
  | notes few => exact .notes few
  | looks few => exact .looks few
  | wakes few missed => exact .wakes few (Nat.lt_of_lt_of_le missed more)

theorem Near.ne_done (near : Near rounds y id timeout n p)
    (o : Except QueueError (Option TaskResult)) : p ≠ .done o := by
  intro done
  cases near with
  | notes =>
    rw [noting_succ] at done
    cases done
  | starts | looks | wakes => cases done

/-- One step of its own brings it nearer, as it is neither asleep nor looks in vain. -/
theorem Near.go (near : Near rounds y id timeout (n + 1) p) (found : y.callers[i]? = some c)
    (current : c.current = some ⟨.call (.awaitResult id timeout), p⟩) (enough : 0 < rounds)
    (there : (y.queue.result? id).isSome) (around : Surroundings) : ∃ q : AwaitSteps,
      (y.go i around).callers = y.callers.set i ({ c with
        current := some ⟨.call (.awaitResult id timeout), q⟩ } : Caller).settle ∧
      (Near rounds (y.go i around) id timeout n q ∨ ∃ r, q = .done (.ok (some r))) := by
  cases near with
  | starts few =>
    obtain ⟨more, rfl⟩ := Nat.exists_eq_add_of_lt enough
    refine ⟨_, callers_of_told found current rfl (fun _ same => by cases same) around, .inl ?_⟩
    rw [Nat.zero_add]
    exact .notes (Nat.le_of_succ_le_succ few)
  | notes few =>
    rw [noting_succ] at current
    exact ⟨_, callers_of_told found current rfl (fun _ same => by cases same) around,
      .inl (.looks (Nat.le_of_succ_le_succ few))⟩
  | looks =>
    obtain ⟨r, result⟩ := Option.isSome_iff_exists.mp there
    have looked : (Access.perform y.policy (around .clock) y.queue (.result id)).1 = some r := result
    refine ⟨_, callers_of_access found current around, .inr ⟨r, ?_⟩⟩
    rw [looked]
  | @wakes left seen deadline few missed =>
    have awake : y.holds (.attendResult seen deadline) = false := by
      simp [holds, Nat.ne_of_gt missed]
    have woken : y.telling around (.attendResult seen deadline) = true := by
      simp [telling, Nat.ne_of_gt missed]
    refine ⟨_, callers_of_told found current awake (fun _ same => by cases same) around, .inl ?_⟩
    rw [woken]
    exact .notes (Nat.le_trans (by decide) (Nat.le_of_succ_le_succ few))

/-! Where a caller with its wait is, while others go on as well. -/

def Nearing (rounds : Nat) (y : Audience) (i : Nat) (old : List Finished) (id : String)
    (timeout : Span) (n : Nat) : Prop :=
  ∃ c p, y.callers[i]? = some c ∧ c.history = old ∧
    c.current = some ⟨.call (.awaitResult id timeout), p⟩ ∧ Near rounds y id timeout n p

def Answered (y : Audience) (i : Nat) (old : List Finished) (id : String) (timeout : Span) : Prop :=
  ∃ c later r, y.callers[i]? = some c ∧
    c.history = later ++ ⟨.call (.awaitResult id timeout), .ok (some r)⟩ :: old

/-- The event is a step of this caller. -/
def Event.goes (i : Nat) : Event → Bool
  | .go j _ => j == i
  | _ => false

theorem history_settle (now : Option Underway) (c : Caller) :
    c.history <:+ ({ c with current := now } : Caller).settle.history :=
  Caller.history_settle { c with current := now }

/-- With something left to do, the undertaking goes on. -/
theorem settle_of_left {u : Undertaking} {p : Steps u.Outcome} (left : ∀ o, p ≠ .done o)
    (c : Caller) : ({ c with current := some ⟨u, p⟩ } : Caller).settle =
      { c with current := some ⟨u, p⟩ } := by
  rcases settle_cases { c with current := some ⟨u, p⟩ } with ⟨v, o, current, -⟩ | settled
  · cases current
    exact (left o rfl).elim
  · exact settled

theorem getElem?_set_of_some {callers : List Caller} (found : callers[i]? = some c) (j : Nat)
    (d : Caller) : (callers.set j d)[i]? = some (if j = i then d else c) := by
  have within : i < callers.length := (List.getElem?_eq_some_iff.mp found).1
  rw [List.getElem?_set]
  by_cases same : j = i
  · simp [same, within]
  · simp [same, found]

/-- What a caller has finished stays so. -/
theorem step_history (found : y.callers[i]? = some c) (e : Event) :
    ∃ c', (y.step rounds e).callers[i]? = some c' ∧ c.history <:+ c'.history := by
  cases e with
  | pass span => exact ⟨c, found, List.suffix_refl _⟩
  | begin j u =>
    cases there : y.callers[j]? with
    | none => exact ⟨c, by simpa [Audience.step, System.step, there] using found, List.suffix_refl _⟩
    | some d =>
      have begun : (y.step rounds (.begin j u)).callers = y.callers.set j (d.begin rounds u) := by
        simp only [Audience.step, System.step, there]
      rw [begun]
      refine ⟨_, getElem?_set_of_some found j _, ?_⟩
      split
      · rename_i same
        subst same
        cases found.symm.trans there
        exact c.history_begin rounds u
      · exact List.suffix_refl _
  | go j around =>
    rcases go_still j around with same | ⟨d, u, s, next, there, current, awake⟩
    · exact ⟨c, (congrArg (·.callers[i]?) same).trans found, List.suffix_refl _⟩
    · obtain ⟨q, callers⟩ := callers_of_go there current awake around
      rw [show (y.step rounds (.go j around)).callers = _ from callers]
      refine ⟨_, getElem?_set_of_some found j _, ?_⟩
      split
      · rename_i same
        subst same
        cases found.symm.trans there
        exact history_settle _ c
      · exact List.suffix_refl _

theorem Answered.step (h : Answered y i old id timeout) (e : Event) :
    Answered (y.step rounds e) i old id timeout := by
  obtain ⟨c, later, r, found, history⟩ := h
  obtain ⟨c', found', more, grew⟩ := step_history found e
  exact ⟨c', more ++ later, r, found', by rw [← grew, history, List.append_assoc]⟩

theorem step_onward (y : Audience) (e : Event) : Onward y (y.step rounds e) := by
  cases e with
  | pass span => exact onward_of_eq rfl rfl rfl rfl
  | begin j u =>
    have same : (y.toSystem.step rounds (.begin j u)).queue = y.queue ∧
        (y.toSystem.step rounds (.begin j u)).deeds = y.deeds := by
      simp only [System.step]
      split <;> exact ⟨rfl, rfl⟩
    exact onward_of_eq rfl rfl same.1 same.2
  | go j around =>
    rcases go_still j around with same | ⟨d, u, s, next, there, current, awake⟩
    · rw [Audience.step, same]
      exact onward_of_eq rfl rfl rfl rfl
    · exact (go_moved there current awake around).onward

/-- A busy caller stays where it is until its own next step. -/
theorem step_other (found : y.callers[i]? = some c) (busy : c.current.isSome) {e : Event}
    (other : e.goes i = false) : (y.step rounds e).callers[i]? = some c := by
  cases e with
  | pass span => exact found
  | begin j u =>
    cases there : y.callers[j]? with
    | none => simpa [Audience.step, System.step, there] using found
    | some d =>
      have begun : (y.step rounds (.begin j u)).callers = y.callers.set j (d.begin rounds u) := by
        simp only [Audience.step, System.step, there]
      rw [begun, getElem?_set_of_some found]
      split
      · rename_i same
        subst same
        cases found.symm.trans there
        obtain ⟨v, current⟩ := Option.isSome_iff_exists.mp busy
        simp only [Caller.begin, current]
      · rfl
  | go j around =>
    have different : j ≠ i := by simpa [Event.goes] using other
    rcases go_still j around with same | ⟨d, u, s, next, there, current, awake⟩
    · exact (congrArg (·.callers[i]?) same).trans found
    · obtain ⟨q, callers⟩ := callers_of_go there current awake around
      rw [show (y.step rounds (.go j around)).callers = _ from callers, getElem?_set_of_some found,
        if_neg different]

theorem Nearing.of_other (h : Nearing rounds y i old id timeout n) {e : Event}
    (other : e.goes i = false) : Nearing rounds (y.step rounds e) i old id timeout n := by
  obtain ⟨c, p, found, history, current, near⟩ := h
  have busy : c.current.isSome := by
    rw [current]
    rfl
  exact ⟨c, p, step_other found busy other, history, current, near.onward (step_onward y e).announced⟩

theorem Nearing.go (h : Nearing rounds y i old id timeout (n + 1)) (enough : 0 < rounds)
    (there : (y.queue.result? id).isSome) (around : Surroundings) :
    Nearing rounds (y.go i around) i old id timeout n ∨
      Answered (y.go i around) i old id timeout := by
  obtain ⟨c, p, found, history, current, near⟩ := h
  obtain ⟨q, callers, onward⟩ := near.go found current enough there around
  have now := getElem?_set_of_some found i
    ({ c with current := some ⟨.call (.awaitResult id timeout), q⟩ } : Caller).settle
  rw [← callers, if_pos rfl] at now
  rcases onward with near | ⟨r, rfl⟩
  · rw [settle_of_left near.ne_done] at now
    exact .inl ⟨_, q, now, history, rfl, near⟩
  · exact .inr ⟨_, [], r, now, by rw [← history]; rfl⟩

theorem Nearing.pos (h : Nearing rounds y i old id timeout n) : 0 < n := by
  obtain ⟨c, p, -, -, -, near⟩ := h
  cases near <;> omega

/-- Any three steps of its own are enough. -/
theorem run_answers (h : Nearing rounds y i old id timeout n ∨ Answered y i old id timeout)
    (enough : 0 < rounds) (there : (y.queue.result? id).isSome) {more : List Event}
    (often : n ≤ more.countP (Event.goes i)) : Answered (y.run rounds more) i old id timeout := by
  induction more generalizing y n with
  | nil =>
    refine h.resolve_left fun nearing => ?_
    exact Nat.not_lt_zero _ (Nat.lt_of_lt_of_le nearing.pos often)
  | cons e more ih =>
    have still : ((y.step rounds e).queue.result? id).isSome := (step_onward y e).results id there
    rcases h with nearing | answered
    · cases goes : e.goes i with
      | false =>
        rw [List.countP_cons_of_neg (by simp [goes])] at often
        exact ih (.inl (nearing.of_other goes)) still often
      | true =>
        rw [List.countP_cons_of_pos goes] at often
        obtain ⟨m, rfl⟩ := Nat.exists_eq_succ_of_ne_zero (Nat.ne_of_gt nearing.pos)
        cases e with
        | begin | pass => cases goes
        | go j around =>
          obtain rfl : j = i := by simpa [Event.goes] using goes
          exact ih (nearing.go enough there around) still (Nat.le_of_succ_le_succ often)
    · exact ih (n := 0) (.inr (answered.step e)) still (Nat.zero_le _)

theorem of_asked? {u : Undertaking} {p : Steps u.Outcome} {s : Step}
    (found : y.callers[i]? = some c) (current : c.current = some ⟨u, p⟩)
    (asked : y.asked? i = some s) : ∃ next, p = .ask s next := by
  obtain ⟨now, history⟩ := c
  cases current
  cases p with
  | ask s' next =>
    simp only [System.asked?, found, Option.some.injEq] at asked
    subst asked
    exact ⟨next, rfl⟩
  | done | spent =>
    simp only [System.asked?, found] at asked
    cases asked

/-- Whoever sleeps has an announcement for its id still ahead. -/
theorem Stage.woken {seen : Nat} {deadline : Span} {next : Bool → AwaitSteps}
    (stage : Stage rounds y own id timeout (.ask (.attendResult seen deadline) next))
    (announced : y.HasAnnounced id) : seen < y.announced := by
  generalize whole : (Program.ask (.attendResult seen deadline) next : AwaitSteps) = p at stage
  cases stage with
  | @notes left =>
    cases left with
    | zero => cases whole
    | succ left =>
      rw [noting_succ] at whole
      cases whole
  | starts | looks => cases whole
  | sleeps begun noted used vain =>
    cases whole
    exact Nat.lt_of_le_of_ne noted fun all => vain all announced

/-- At every moment of every run of any callers: whoever waits and has looked in vain has been woken
if a result for its id is saved and announced; a wait that has ended gave a result that was saved for
its id, or ended at its deadline or later, with nothing announced for its id until then; and a wait
for whose id something is announced ends with a result after three steps of its own at most. -/
theorem run_misses_no_result (policy : RetryPolicy) (rounds callers : Nat) (events : List Event) :
    let y := (fresh policy callers).run rounds events
    (∀ (i : Nat) (c : Caller) id timeout p, y.callers[i]? = some c →
      c.current = some ⟨.call (.awaitResult id timeout), p⟩ →
      ∀ seen deadline, y.asked? i = some (.attendResult seen deadline) →
      (∃ m ∈ y.record, m.Announces id) → seen < y.announced) ∧
    (∀ (i : Nat) (c : Caller), y.callers[i]? = some c → ∀ later id timeout o earlier,
      c.history = later ++ ⟨.call (.awaitResult id timeout), o⟩ :: earlier →
      Told y (y.own i earlier.length) id timeout o) ∧
    (∀ (i : Nat) (c : Caller) id timeout p, y.callers[i]? = some c →
      c.current = some ⟨.call (.awaitResult id timeout), p⟩ →
      (∃ m ∈ y.record, m.Announces id) → y.announced < rounds →
      ∀ more : List Event, 3 ≤ more.countP (Event.goes i) →
        ∃ (d : Caller) (later : List Finished) (r : TaskResult),
          (y.run rounds more).callers[i]? = some d ∧ r.taskId = id ∧
          d.history = later ++ ⟨.call (.awaitResult id timeout), .ok (some r)⟩ :: c.history) := by
  intro y
  have kept : Kept rounds y := (kept_fresh policy rounds callers).run events
  refine ⟨fun i c id timeout p found current seen deadline asked announced => ?_,
    fun i c found => (kept.callers i c found).ended,
    fun i c id timeout p found current announced enough more often => ?_⟩
  · obtain ⟨next, rfl⟩ := of_asked? found current asked
    exact ((kept.callers i c found).waits id timeout _ current).woken announced
  · have stage := (kept.callers i c found).waits id timeout p current
    obtain ⟨d, later, r, there, history⟩ := run_answers
      (.inl ⟨c, p, found, rfl, current, stage.near announced enough⟩)
      (Nat.zero_lt_of_lt enough) (kept.stored id announced) often
    have told := ((kept.run more).callers i d there).ended later id timeout _ c.history history
    exact ⟨d, later, r, there, told.1, history⟩

private def hush : Surroundings
  | .access a => (a.perform {} .epoch {}).1
  | .clock => .epoch
  | .elapsed => ⟨0⟩
  | .ring | .announce => ()
  | .announced => (0 : Nat)
  | .attend _ | .attendResult _ _ => false

private def song (id : String) : TaskResult := ⟨id, none, .ok, [], .epoch, 1⟩

/-- One waits for a lark, and one in vain for an owl. Then a wren is announced, and then a lark. -/
private def dawn : List Event := [
  .begin 0 (.call (.awaitResult "lark" ⟨100⟩)), .go 0 hush, .go 0 hush, .go 0 hush,
  .begin 1 (.call (.awaitResult "owl" ⟨5⟩)), .go 1 hush, .go 1 hush, .go 1 hush,
  .pass ⟨7⟩, .go 0 hush, .go 1 hush,
  .begin 2 (.call (.publish (song "wren"))), .go 2 hush, .go 2 hush,
  .begin 3 (.call (.publish (song "lark"))), .go 3 hush, .go 3 hush]

private def morning : List Event := [.go 0 hush, .pass ⟨200⟩, .go 0 hush, .go 0 hush]

theorem run_hears_lark :
    let y := (fresh {} 4).run 3 dawn
    (∃ seen deadline, y.asked? 0 = some (.attendResult seen deadline) ∧ seen < y.announced) ∧
    (∃ c, y.callers[1]? = some c ∧ c.history = [⟨.call (.awaitResult "owl" ⟨5⟩), .ok none⟩] ∧
      Told y (y.own 1 0) "owl" ⟨5⟩ (.ok none)) ∧
    ∃ (d : Caller) (more : List Finished) (r : TaskResult),
      (y.run 3 morning).callers[0]? = some d ∧ r.taskId = "lark" ∧
      d.history = more ++ [⟨.call (.awaitResult "lark" ⟨100⟩), .ok (some r)⟩] := by
  intro y
  obtain ⟨woken, ended, answered⟩ := run_misses_no_result {} 3 4 dawn
  have announced : ∃ m ∈ y.record, m.Announces "lark" :=
    ⟨_, List.mem_cons_self, song "lark", rfl, rfl, rfl⟩
  exact ⟨⟨0, ⟨100⟩, rfl, woken 0 _ "lark" ⟨100⟩ _ rfl rfl 0 ⟨100⟩ rfl announced⟩,
    ⟨_, rfl, rfl, ended 1 _ rfl [] "owl" ⟨5⟩ _ [] rfl⟩,
    answered 0 _ "lark" ⟨100⟩ _ rfl rfl announced (by decide) morning (by decide)⟩

end Audience

end LocalQueue

end ClaimQueue
