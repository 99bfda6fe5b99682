import ClaimQueue.Proofs.Program
import ClaimQueue.Worker.Run

/-! What a worker asks of its queue for one task that it has claimed, whatever it is told. The calls
follow a plan, which what was told before decides, and only a call that fails cuts them short. -/

namespace ClaimQueue

namespace Worker

abbrev Told := List (Exchange asks)

/-- A call for a claimed task. -/
inductive Act where
  | publish (result : TaskResult)
  | ack (id : String)
  | release (id : String)

def Act.question : Act → Ask
  | .publish r => .publish r
  | .ack id => .ack id
  | .release id => .release id

/-- The call, and how it went. -/
def act? : Exchange asks → Option (Act × Except QueueError Unit)
  | ⟨.publish r, answer⟩ => some (.publish r, answer)
  | ⟨.ack id, answer⟩ => some (.ack id, answer)
  | ⟨.release id, answer⟩ => some (.release id, answer)
  | _ => none

/-- The calls for claimed tasks, in their order. -/
def acts (past : Told) : List (Act × Except QueueError Unit) := (past.filterMap act?).reverse

/-- The calls that all went through. -/
def through (calls : List Act) : List (Act × Except QueueError Unit) := calls.map (·, .ok ())

/-- No handler broke down. -/
def Whole (new : Told) : Prop := ∀ work message, ⟨.labour work, .fault message⟩ ∉ new

/-- A result for the task and this attempt, at the time of the clock: the refusal of its schema, or
what came of the labour. -/
structure Answers (t : Task) (new : Told) (r : TaskResult) : Prop where
  taskId : r.taskId = t.id
  kind : r.kind = some t.kind
  attemptsUsed : r.attemptsUsed.toNat = min (t.attempts.toNat + 1) (2 ^ 32 - 1)
  createdAt : ⟨.clock, r.createdAt⟩ ∈ new
  source : (∃ e, t.checkSchema = .error e ∧ r = .error t e.message false r.createdAt) ∨
    ∃ work outcome, ⟨.labour work, outcome⟩ ∈ new ∧ resultOf t r.createdAt outcome = .ok r

/-- A result that ends the task. -/
def Final (r : TaskResult) : Prop := r.status = .ok ∨ r.status = .error ∧ r.isRetryable = false

/-- The calls for a claimed task, if they all go through. A task goes back only without any work. -/
inductive Plan (t : Task) (new : Told) : List Act → Prop
  | handBack (untouched : ∀ work outcome, ⟨.labour work, outcome⟩ ∉ new) : Plan t new [.release t.id]
  | retire {r : TaskResult} (answers : Answers t new r) (final : Final r) :
      Plan t new [.publish r, .ack t.id]
  | keep {r : TaskResult} (answers : Answers t new r)
      (again : r.status = .error ∧ r.isRetryable = true) : Plan t new [.publish r]
  | putBack {r : TaskResult} (answers : Answers t new r) (skipped : r.status = .skip) :
      Plan t new [.publish r, .release t.id]

/-- What may be asked for a task, after what was told since it was claimed. -/
inductive Underway (t : Task) (new : Told) : Ask → Prop
  | labour (work : Labour) (calls : acts new = []) (whole : Whole new) : Underway t new (.labour work)
  | clock (calls : acts new = []) (first : ∀ now, ⟨.clock, now⟩ ∉ new) : Underway t new .clock
  | act {done : List Act} {a : Act} {more : List Act} (plan : Plan t new (done ++ a :: more))
      (calls : acts new = through done) (whole : Whole new) : Underway t new a.question

/-- How the calls for a task end: as planned, or with the call that failed, or with none, as the
handler broke down. -/
inductive Ended (t : Task) (new : Told) : Except Error Disposition → Prop
  | carried {plan : List Act} (d : Disposition) (own : Plan t new plan)
      (calls : acts new = through plan) (whole : Whole new) : Ended t new (.ok d)
  | cutShort {done : List Act} {a : Act} {more : List Act} {e : QueueError}
      (plan : Plan t new (done ++ a :: more)) (calls : acts new = through done ++ [(a, .error e)])
      (whole : Whole new) : Ended t new (.error (.queue e))
  | broken {work : Labour} {message : String} (handler : String)
      (fault : ⟨.labour work, .fault message⟩ ∈ new) (calls : acts new = []) :
      Ended t new (.error (.handlerFault handler t.id message))

theorem acts_cons (x : Exchange asks) (past : Told) :
    acts (x :: past) = acts past ++ (act? x).toList := by
  rw [acts, acts, List.filterMap_cons]
  cases act? x <;> simp

theorem through_append (done more : List Act) :
    through (done ++ more) = through done ++ through more := List.map_append

theorem Whole.cons {new : Told} {x : Exchange asks} (h : Whole new)
    (other : ∀ work message, x ≠ ⟨.labour work, .fault message⟩) : Whole (x :: new) :=
  fun work message mem => (List.mem_cons.mp mem).elim (fun same => other work message same.symm)
    (h work message)

theorem Answers.mono {t : Task} {new : Told} {r : TaskResult} (h : Answers t new r)
    (x : Exchange asks) : Answers t (x :: new) r where
  taskId := h.taskId
  kind := h.kind
  attemptsUsed := h.attemptsUsed
  createdAt := List.mem_cons_of_mem _ h.createdAt
  source := h.source.imp_right fun ⟨work, outcome, mem, same⟩ =>
    ⟨work, outcome, List.mem_cons_of_mem _ mem, same⟩

/-- Calls change no plan. -/
theorem Plan.act {t : Task} {new : Told} {plan : List Act} {x : Exchange asks} {a : Act}
    {answer : Except QueueError Unit} (h : Plan t new plan) (act : act? x = some (a, answer)) :
    Plan t (x :: new) plan := by
  cases h with
  | handBack untouched =>
    refine .handBack fun work outcome mem => ?_
    rcases List.mem_cons.mp mem with rfl | mem
    · cases act
    · exact untouched work outcome mem
  | retire answers final => exact .retire (answers.mono x) final
  | keep answers again => exact .keep (answers.mono x) again
  | putBack answers skipped => exact .putBack (answers.mono x) skipped

theorem answers_refusal {t : Task} {new : Told} {e : WireError} {now : Instant}
    (refused : t.checkSchema = .error e) (clock : ⟨.clock, now⟩ ∈ new) :
    Answers t new (.error t e.message false now) :=
  ⟨rfl, rfl, countUp_toNat _, clock, .inl ⟨e, refused, rfl⟩⟩

theorem answers_labour {t : Task} {new : Told} {work : Labour} {outcome : Outcome} {now : Instant}
    {r : TaskResult} (told : ⟨.labour work, outcome⟩ ∈ new) (clock : ⟨.clock, now⟩ ∈ new)
    (result : resultOf t now outcome = .ok r) : Answers t new r := by
  cases outcome with
  | fault message => cases result
  | done data =>
    cases result
    exact ⟨rfl, rfl, countUp_toNat _, clock, .inr ⟨work, _, told, rfl⟩⟩
  | skip reason =>
    cases result
    exact ⟨rfl, rfl, countUp_toNat _, clock, .inr ⟨work, _, told, rfl⟩⟩
  | failed e =>
    cases result
    exact ⟨rfl, rfl, countUp_toNat _, clock, .inr ⟨work, _, told, rfl⟩⟩

/-- A refusal is final. -/
theorem final_refusal (t : Task) (message : String) (now : Instant) :
    Final (.error t message false now) := .inr ⟨rfl, rfl⟩

/-! Jobs of a worker. -/

namespace Job

variable {α β : Type}

/-- As `Program.Keeps`; the job comes to an end, and what fails is told as well. -/
def Keeps (fit : Told → Ask → Prop) (ends : Told → α → Prop) (fails : Told → Error → Prop)
    (j : Job α) (past : Told) : Prop :=
  Program.Keeps fit (fun now (r : Option (Except Error α)) => match r with
    | some (.ok a) => ends now a
    | some (.error e) => fails now e
    | none => False) j.run past

variable {fit : Told → Ask → Prop} {ends : Told → α → Prop} {fails : Told → Error → Prop}
  {past : Told}

theorem keeps_pure {a : α} (h : ends past a) : Keeps fit ends fails (pure a : Job α) past := h

theorem keeps_throw {e : Error} (h : fails past e) :
    Keeps fit ends fails (throw e : Job α) past := h

theorem Keeps.bind {ends' : Told → β → Prop} {j : Job α} {f : α → Job β}
    (h : Keeps fit ends fails j past) (more : ∀ now a, ends now a → Keeps fit ends' fails (f a) now) :
    Keeps fit ends' fails (j >>= f) past := by
  refine Program.Keeps.bind h (fun now r told => ?_) fun _ none => none.elim
  cases r with
  | ok a => exact more now a told
  | error e => exact told

theorem keeps_ask {q : Ask} (h : fit past q) :
    Keeps fit (fun now a => now = ⟨q, a⟩ :: past) fails (liftM (ask q) : Job q.Answer) past :=
  ⟨h, fun _ => rfl⟩

end Job

open Job

variable {t : Task}

/-- So far the calls went through as planned. -/
structure Stage (t : Task) (done more : List Act) (new : Told) : Prop where
  plan : Plan t new (done ++ more)
  calls : acts new = through done
  whole : Whole new

/-- Makes the call. -/
def Act.call : Act → Program asks (Except QueueError Unit)
  | .publish r => ask (.publish r)
  | .ack id => ask (.ack id)
  | .release id => ask (.release id)

theorem Act.call_keeps {fit : Told → Ask → Prop} {past : Told} (a : Act) (h : fit past a.question) :
    a.call.Keeps fit (fun now r => ∃ answer x, r = some answer ∧ now = x :: past ∧
      act? x = some (a, answer)) past := by
  cases a <;> exact ⟨h, fun answer => ⟨answer, _, rfl, rfl, rfl⟩⟩

/-- A call is no labour. -/
theorem Whole.act {new : Told} {x : Exchange asks} {a : Act} {answer : Except QueueError Unit}
    (h : Whole new) (act : act? x = some (a, answer)) : Whole (x :: new) :=
  h.cons fun work message same => by
    rw [same] at act
    cases act

/-- The next call of the plan. -/
theorem must_keeps {done more : List Act} {a : Act} {new : Told}
    (stage : Stage t done (a :: more) new) :
    Keeps (Underway t) (fun now _ => Stage t (done ++ [a]) more now)
      (fun now e => Ended t now (.error e)) (must a.call) new := by
  obtain ⟨plan, calls, whole⟩ := stage
  refine Program.Keeps.bind (a.call_keeps (.act plan calls whole)) (fun now r told => ?_) ?_
  · obtain ⟨_, x, same, rfl, act⟩ := told
    cases same
    have calls : acts (x :: new) = through done ++ [(a, r)] := by
      rw [acts_cons, calls, act, Option.toList_some]
    cases r with
    | ok =>
      refine ⟨?_, ?_, whole.act act⟩
      · rw [List.append_assoc]
        exact plan.act act
      · rw [calls, through_append]
        rfl
    | error e => exact .cutShort (plan.act act) calls (whole.act act)
  · rintro now ⟨_, _, none, -⟩
    cases none

theorem handBack_keeps : Keeps (Underway t) (fun now d => Ended t now (.ok d))
    (fun now e => Ended t now (.error e)) (handBack t.id) [] := by
  have stage : Stage t [] [.release t.id] [] :=
    ⟨.handBack fun _ _ => List.not_mem_nil, rfl, fun _ _ => List.not_mem_nil⟩
  exact (must_keeps stage).bind fun now _ ⟨plan, calls, whole⟩ => .carried _ plan calls whole

theorem refuse_keeps {e : WireError} (refused : t.checkSchema = .error e) :
    Keeps (Underway t) (fun now d => Ended t now (.ok d)) (fun now e => Ended t now (.error e))
      (refuse t e) [] := by
  refine (keeps_ask (.clock rfl fun _ => List.not_mem_nil)).bind fun past now told => ?_
  subst told
  have answers := answers_refusal refused (List.mem_singleton_self (⟨.clock, now⟩ : Exchange asks))
  have stage : Stage t [] [.publish (.error t e.message false now), .ack t.id] [⟨.clock, now⟩] :=
    ⟨.retire answers (final_refusal t _ now), rfl, fun work message mem => by simp at mem⟩
  refine (must_keeps stage).bind fun past _ stage => ?_
  exact (must_keeps stage).bind fun past _ ⟨plan, calls, whole⟩ => .carried _ plan calls whole

/-- What is left to do after a result is published. -/
def remaining (id : String) (r : TaskResult) : List Act :=
  match r.status with
  | .ok => [.ack id]
  | .error => if r.isRetryable then [] else [.ack id]
  | .skip => [.release id]

theorem plan_remaining {new : Told} {r : TaskResult} (answers : Answers t new r) :
    Plan t new (.publish r :: remaining t.id r) := by
  unfold remaining
  split
  · rename_i ok
    exact .retire answers (.inl ok)
  · rename_i error
    split
    · rename_i again
      exact .keep answers ⟨error, again⟩
    · rename_i final
      exact .retire answers (.inr ⟨error, by simpa using final⟩)
  · rename_i skip
    exact .putBack answers skip

theorem settle_keeps {done : List Act} {r : TaskResult} {new : Told}
    (stage : Stage t done (remaining t.id r) new) :
    Keeps (Underway t) (fun now _ => Stage t (done ++ remaining t.id r) [] now)
      (fun now e => Ended t now (.error e)) (settle t.id r) new := by
  unfold remaining at stage ⊢
  unfold settle
  cases status : r.status with
  | ok =>
    rw [status] at stage
    exact must_keeps stage
  | skip =>
    rw [status] at stage
    exact must_keeps stage
  | error =>
    simp only [status] at stage ⊢
    split
    · rename_i again
      rw [if_pos again] at stage
      exact keeps_pure ((List.append_nil done).symm ▸ stage)
    · rename_i final
      rw [if_neg final] at stage
      exact must_keeps stage

theorem execute_keeps (h : Handler) :
    Keeps (Underway t) (fun now d => Ended t now (.ok d)) (fun now e => Ended t now (.error e))
      (execute h t) [] := by
  refine (keeps_ask (.labour _ rfl fun _ _ => List.not_mem_nil)).bind fun past outcome told => ?_
  subst told
  have first : ∀ now, ⟨.clock, now⟩ ∉ [(⟨.labour (h.run t), outcome⟩ : Exchange asks)] := by simp
  refine (keeps_ask (.clock rfl first)).bind fun past now told => ?_
  subst told
  split
  · rename_i message broken
    cases outcome with
    | fault message' =>
      cases broken
      exact keeps_throw (.broken h.name (List.mem_cons_of_mem _ List.mem_cons_self) rfl)
    | done | skip | failed => cases broken
  · rename_i r result
    have answers : Answers t [⟨.clock, now⟩, ⟨.labour (h.run t), outcome⟩] r :=
      answers_labour (List.mem_cons_of_mem _ List.mem_cons_self) List.mem_cons_self result
    have whole : Whole [⟨.clock, now⟩, ⟨.labour (h.run t), outcome⟩] := by
      intro work message mem
      simp only [List.mem_cons, List.not_mem_nil, or_false] at mem
      rcases mem with same | same
      · cases same
      · cases same
        cases result
    have stage : Stage t [] (.publish r :: remaining t.id r) _ := ⟨plan_remaining answers, rfl, whole⟩
    refine (must_keeps stage).bind fun past _ stage => ?_
    refine (settle_keeps stage).bind fun past _ ⟨plan, calls, whole⟩ => keeps_pure ?_
    rw [List.append_nil] at plan
    exact .carried _ plan calls whole

/-- Whatever is told, the calls for a task are as planned up to where one fails. -/
theorem process_keeps (w : Template) (t : Task) :
    Keeps (Underway t) (fun now d => Ended t now (.ok d)) (fun now e => Ended t now (.error e))
      (process w t) [] := by
  unfold process
  split
  · split
    · rename_i e refused
      exact refuse_keeps refused
    · split
      · exact handBack_keeps
      · exact execute_keeps _
  · exact handBack_keeps

end Worker

end ClaimQueue
