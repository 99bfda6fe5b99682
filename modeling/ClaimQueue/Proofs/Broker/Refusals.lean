import ClaimQueue.Proofs.Broker.Treatment
import ClaimQueue.Proofs.CommandLine.Acceptance
import ClaimQueue.Proofs.Task.Schema

/-! Entries that cannot be read, and who is told. Only a refusal for a newer schema names a task, and
only a call to pop looks at the name: whatever else is wrong with a document, or whoever takes the
entry back, the producer is not told. -/

namespace ClaimQueue

namespace Broker

open Job

/-- If the program ends well, it treated the entry in one of these ways each time it was given it. -/
def Completes {α : Type} (p : Program asks (Except QueueError α)) (e : Entry)
    (treats : Treatment → Prop) : Prop :=
  ∀ a later x earlier, p.Reaches (later ++ x :: earlier) (.done (.ok a)) → e ∈ given x →
    ∃ t, treats t ∧ Removed t (x :: earlier) later

section Refused

variable {e : Entry} {fault : WireError}

/-- At a good end nothing is left, so each refused entry has been treated. -/
theorem completes_of_along {α : Type} {job : Job QueueError α} {fit : Told → Ask → Prop}
    {own : Entry → WireError → Treatment → Prop} {treats : Treatment → Prop}
    (settles : Along fit (fun now _ => Settled own [] now) job []) (refused : e.task = .error fault)
    (fits : ∀ t, own e fault t → treats t) : Completes job.run e treats := by
  intro a later x earlier reaches mem
  have settled : Settled own [] (later ++ x :: earlier) := settles.outcome reaches a rfl
  obtain none | ⟨t, proper, removed⟩ := settled later x earlier rfl e mem fault refused
  · cases none
  · exact ⟨t, fits t proper, removed⟩

theorem popTreats_iff (s : Settings) (refused : e.task = .error fault) (t : Treatment) :
    PopTreats s e t ↔ Disposes e fault t :=
  ⟨PopTreats.disposes refused, popTreats_of_disposes s refused⟩

theorem reclaimTreats_iff (s : Settings) (refused : e.task = .error fault) (t : Treatment) :
    ReclaimTreats s e t ↔ t = .aside e :=
  ⟨ReclaimTreats.aside refused, fun same => same ▸ reclaimTreats_aside s refused⟩

theorem pop_completes (s : Settings) (refused : e.task = .error fault) (rounds : Nat) (block : Bool)
    (timeout : Span) : Completes (Calls.pop rounds s block timeout).run e (PopTreats s e) :=
  completes_of_along (pop_removes rounds s block timeout) refused fun t =>
    (popTreats_iff s refused t).mpr

theorem reclaim_completes (s : Settings) (refused : e.task = .error fault) (idle : Span)
    (batch : Nat) : Completes (Calls.reclaim s idle batch).run e (ReclaimTreats s e) :=
  completes_of_along (reclaim_removes s idle batch) refused fun t =>
    (reclaimTreats_iff s refused t).mpr

theorem alike_iff (s : Settings) (refused : e.task = .error fault) :
    (∀ t, PopTreats s e t ↔ ReclaimTreats s e t) ↔ fault.taskId? = none := by
  simp only [popTreats_iff s refused, reclaimTreats_iff s refused]
  cases named : fault.taskId? with
  | none => simp [disposes_of_none named]
  | some id =>
    simp only [disposes_of_name named, reduceCtorEq, iff_false]
    intro alike
    have same := congrArg Treatment.answers ((alike (.answered e id fault .epoch)).mp ⟨_, rfl⟩)
    cases same

end Refused

/-- A call to pop answers a refused entry by the id in the refusal, and a call to reclaim puts it aside
whatever the refusal says. They treat it alike only if the refusal names no task. Whichever ends well
has treated every refused entry that it was given. -/
theorem pop_and_reclaim_alike_iff (s : Settings) {e : Entry} {fault : WireError}
    (refused : e.task = .error fault) :
    ((∀ t, PopTreats s e t ↔ ReclaimTreats s e t) ↔ fault.taskId? = none) ∧
    (∀ t, PopTreats s e t ↔ match fault.taskId? with
      | some id => ∃ now, t = .answered e id fault now
      | none => t = .aside e) ∧
    (∀ t, ReclaimTreats s e t ↔ t = .aside e) ∧
    (∀ rounds block timeout,
      Completes (Calls.pop rounds s block timeout).run e (PopTreats s e)) ∧
    ∀ idle batch, Completes (Calls.reclaim s idle batch).run e (ReclaimTreats s e) :=
  ⟨alike_iff s refused, popTreats_iff s refused, reclaimTreats_iff s refused,
    pop_completes s refused, reclaim_completes s refused⟩

private def porter : Settings where
  consumer := "porter"

/-- A document of a newer schema. -/
private def newcomer : Entry :=
  ⟨"1-0", some (Text.Utf8.bytes "\x7b\"id\":\"kite\",\"schema_version\":2\x7d")⟩

private theorem task_newcomer : newcomer.task = .error (.unsupportedSchema (some "kite") 2) := by
  decide +kernel

theorem reclaim_parks_newcomer :
    (∃ fault, newcomer.task = .error fault ∧ fault.taskId? = some "kite") ∧
    ¬ ∀ t, PopTreats porter newcomer t ↔ ReclaimTreats porter newcomer t := by
  refine ⟨⟨_, task_newcomer, rfl⟩, fun alike => ?_⟩
  cases (alike_iff porter task_newcomer).mp alike

theorem pop_answers_newcomer :
    (∀ t, PopTreats porter newcomer t ↔
      ∃ now, t = .answered newcomer "kite" (.unsupportedSchema (some "kite") 2) now) ∧
    (∀ t, ReclaimTreats porter newcomer t ↔ t = .aside newcomer) :=
  have treated := pop_and_reclaim_alike_iff porter task_newcomer
  ⟨treated.2.1, treated.2.2.1⟩

/-! Documents that name a task. -/

/-- The body is a document with this id. -/
def Entry.Names (e : Entry) (j : Json) (id : String) : Prop :=
  ∃ body, e.body = some body ∧ Json.ofBytes body = .ok j ∧ j.member? "id" = some (.string id)

theorem Entry.taskId?_eq_some_iff {e : Entry} {fault : WireError} {id : String}
    (refused : e.task = .error fault) : fault.taskId? = some id ↔
      ∃ j, e.Names j id ∧ Task.supportedSchema.toNat < Task.claimedSchema j := by
  unfold Entry.task at refused
  cases held : e.body with
  | none =>
    rw [held] at refused
    cases refused
    simp [WireError.taskId?, Entry.Names, held]
  | some body =>
    rw [held] at refused
    rw [Task.taskId?_eq_some_iff refused]
    simp only [Entry.Names, held, Option.some.injEq, exists_eq_left']
    constructor
    · rintro ⟨j, read, newer, named⟩
      exact ⟨j, ⟨read, named⟩, newer⟩
    · rintro ⟨j, ⟨read, named⟩, newer⟩
      exact ⟨j, read, newer, named⟩

theorem Entry.Names.eq {e : Entry} {i j : Json} {id name : String} (h : e.Names i id)
    (g : e.Names j name) : i = j := by
  obtain ⟨body, held, read, -⟩ := h
  obtain ⟨body', held', read', -⟩ := g
  rw [held] at held'
  cases held'
  rw [read] at read'
  exact Except.ok.inj read'

section Named

variable {e : Entry} {fault : WireError}

theorem popTreats_of_names (s : Settings) (refused : e.task = .error fault) {j : Json} {id : String}
    (names : e.Names j id) (t : Treatment) :
    PopTreats s e t ↔ if Task.supportedSchema.toNat < Task.claimedSchema j then
      ∃ now, t = .answered e id fault now else t = .aside e := by
  rw [popTreats_iff s refused]
  split
  · rename_i newer
    exact disposes_of_name ((Entry.taskId?_eq_some_iff refused).mpr ⟨j, names, newer⟩) t
  · rename_i known
    refine disposes_of_none (Option.eq_none_iff_forall_ne_some.mpr fun name named => known ?_) t
    obtain ⟨i, other, newer⟩ := (Entry.taskId?_eq_some_iff refused).mp named
    exact names.eq other ▸ newer

theorem popTreats_of_nameless (s : Settings) (refused : e.task = .error fault)
    (nameless : ∀ j id, ¬ e.Names j id) (t : Treatment) : PopTreats s e t ↔ t = .aside e := by
  rw [popTreats_iff s refused]
  refine disposes_of_none (Option.eq_none_iff_forall_ne_some.mpr fun name named => ?_) t
  obtain ⟨i, names, -⟩ := (Entry.taskId?_eq_some_iff refused).mp named
  exact nameless i name names

end Named

theorem plain_refused (id message : String) (now : Instant) :
    (TaskResult.refused id message now).Plain Json.maxNesting := by
  have ascending : ["error", "retryable"].Pairwise (· < ·) := by decide
  have nesting : (TaskResult.refused id message now).toJson.nesting ≤ Json.maxNesting := by
    rw [TaskResult.nesting_toJson]
    simp [TaskResult.refused, TaskResult.errorData, Json.nesting, Json.nestingMembers,
      Json.maxNesting]
  exact ⟨⟨ascending, trivial, trivial, trivial⟩, nesting⟩

/-- Whoever waits for a task is given the answer to it. -/
theorem retrieved_refused (id message : String) (now : Instant) :
    Retrieved (.refused id message now) :=
  retrieved_of_ok (TaskResult.ofBytes_encoded (plain_refused id message now))

/-- An entry that is refused for another reason than a newer schema is put aside, though its document
may name a task; nobody who waits for that task is told. -/
theorem pop_answers_newer_only (s : Settings) {e : Entry} {fault : WireError}
    (refused : e.task = .error fault) :
    (∀ j id, e.Names j id → ∀ t, PopTreats s e t ↔
      if Task.supportedSchema.toNat < Task.claimedSchema j then
        ∃ now, t = .answered e id fault now else t = .aside e) ∧
    ((∀ j id, ¬ e.Names j id) → ∀ t, PopTreats s e t ↔ t = .aside e) ∧
    (∀ id now, (TaskResult.refused id fault.message now).status = .error ∧
      (TaskResult.refused id fault.message now).isRetryable = false ∧
      Retrieved (.refused id fault.message now)) ∧
    ∀ rounds block timeout,
      Completes (Calls.pop rounds s block timeout).run e (PopTreats s e) :=
  ⟨fun _ _ => popTreats_of_names s refused, popTreats_of_nameless s refused,
    fun id now => ⟨rfl, rfl, retrieved_refused id _ now⟩, pop_completes s refused⟩

/-- A document of an unknown kind. -/
private def stranger : Entry :=
  ⟨"1-0", some (Text.Utf8.bytes
    "\x7b\"kind\":\"compile\",\"id\":\"kite\",\"created_at\":\"1970-01-01T00:00:00Z\"\x7d")⟩

private def strange : Json := .object [
  ("created_at", .string "1970-01-01T00:00:00Z"),
  ("id", .string "kite"),
  ("kind", .string "compile")]

private def unknownKind : WireError :=
  .malformed (.unknownVariant "compile" ["render", "mutate", "execute", "evaluate"])

private theorem task_stranger : stranger.task = .error unknownKind := by decide +kernel

private theorem names_stranger : stranger.Names strange "kite" :=
  ⟨_, rfl, by decide +kernel, rfl⟩

private theorem names_newcomer : newcomer.Names
    (.object [("id", .string "kite"), ("schema_version", .int 2)]) "kite" :=
  ⟨_, rfl, by decide +kernel, rfl⟩

theorem pop_parks_stranger :
    (∃ j fault, stranger.Names j "kite" ∧ stranger.task = .error fault) ∧
    ∃ t, PopTreats porter stranger t ∧ t.answers = [] :=
  ⟨⟨strange, unknownKind, names_stranger, task_stranger⟩, .aside stranger,
    (popTreats_of_names porter task_stranger names_stranger _).mpr rfl, rfl⟩

theorem pop_answers_none_but_newcomer :
    (∀ t, PopTreats porter stranger t ↔ t = .aside stranger) ∧
    (∀ t, PopTreats porter newcomer t ↔
      ∃ now, t = .answered newcomer "kite" (.unsupportedSchema (some "kite") 2) now) ∧
    ∀ t, PopTreats porter ⟨"1-0", none⟩ t ↔ t = .aside ⟨"1-0", none⟩ := by
  have known := (pop_answers_newer_only porter task_stranger).1 _ _ names_stranger
  have newer := (pop_answers_newer_only porter task_newcomer).1 _ _ names_newcomer
  have empty := (pop_answers_newer_only porter (e := ⟨"1-0", none⟩) rfl).2.1
  refine ⟨fun t => (known t).trans ?_, fun t => (newer t).trans ?_,
    empty fun _ _ ⟨_, held, _⟩ => nomatch held⟩
  · rw [if_neg (by decide)]
  · rw [if_pos (by decide)]

end Broker

end ClaimQueue
