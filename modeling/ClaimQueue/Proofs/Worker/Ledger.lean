import ClaimQueue.Proofs.Worker.Runs

/-! A worker's account of its claims, by what it was told: tasks claimed, results published, claims
parted with. Between two tasks it has exactly those claims whose last result asks for another
attempt, and after a handler broke down the claim on that handler's task besides. -/

namespace ClaimQueue

namespace Worker

inductive Dealing where
  | claimed (t : Task)
  | published (r : TaskResult)
  /-- Acknowledged or released. -/
  | parted (id : String)

/-- Claimed and not parted with. The latest note comes first. -/
def Has (id : String) : List Dealing → Prop
  | [] => False
  | .claimed t :: rest => t.id = id ∨ Has id rest
  | .published _ :: rest => Has id rest
  | .parted i :: rest => i ≠ id ∧ Has id rest

def lastResult? (id : String) : List Dealing → Option TaskResult
  | [] => none
  | .published r :: rest => if r.taskId = id then some r else lastResult? id rest
  | .claimed _ :: rest | .parted _ :: rest => lastResult? id rest

/-- A failure that asks for another attempt. -/
def Again (r : TaskResult) : Prop := r.status = .error ∧ r.isRetryable = true

def AsksAgain (id : String) (notes : List Dealing) : Prop := ∃ r ∈ lastResult? id notes, Again r

def Balanced (notes : List Dealing) : Prop := ∀ id, Has id notes ↔ AsksAgain id notes

/-- Nothing was claimed that the worker had already. -/
def Apart : List Dealing → Prop
  | [] => True
  | .claimed t :: rest => ¬ Has t.id rest ∧ Apart rest
  | .published _ :: rest | .parted _ :: rest => Apart rest

variable {t : Task} {id : String} {before : List Dealing} {new past : Told}

@[simp] theorem asksAgain_claimed :
    AsksAgain id (.claimed t :: before) ↔ AsksAgain id before := .rfl

@[simp] theorem asksAgain_parted {i : String} :
    AsksAgain id (.parted i :: before) ↔ AsksAgain id before := .rfl

@[simp] theorem asksAgain_published {r : TaskResult} : AsksAgain id (.published r :: before) ↔
    if r.taskId = id then Again r else AsksAgain id before := by
  by_cases same : r.taskId = id <;> simp [AsksAgain, lastResult?, same]

theorem Apart.of_append {after : List Dealing} (h : Apart (after ++ before)) : Apart before := by
  induction after with
  | nil => exact h
  | cons n after ih =>
    cases n with
    | claimed t => exact ih h.2
    | published | parted => exact ih h

/-- A claim that is not parted with is still there. -/
theorem parted_or_has {after : List Dealing} :
    .parted t.id ∈ after ∨ Has t.id (after ++ .claimed t :: before) := by
  induction after with
  | nil => exact .inr (.inl rfl)
  | cons n after ih =>
    rcases ih with mem | has
    · exact .inl (List.mem_cons_of_mem n mem)
    · cases n with
      | claimed u => exact .inr (.inr has)
      | published r => exact .inr has
      | parted i =>
        by_cases same : i = t.id
        · simp [same]
        · exact .inr ⟨same, has⟩

/-! The notes of what was told. -/

def note? : Exchange asks → Option Dealing
  | ⟨.pop _, some (.ok (some t))⟩ => some (.claimed t)
  | ⟨.publish r, _⟩ => some (.published r)
  | ⟨.ack id, _⟩ | ⟨.release id, _⟩ => some (.parted id)
  | _ => none

def notes (past : Told) : List Dealing := past.filterMap note?

def Act.note : Act → Dealing
  | .publish r => .published r
  | .ack id | .release id => .parted id

theorem notes_append (new past : Told) : notes (new ++ past) = notes new ++ notes past := by
  simp [notes]

theorem notes_claiming (wait : Span) (t : Task) (past : Told) :
    notes (claiming wait t past) = .claimed t :: notes past := rfl

theorem notes_of_idle {x : Exchange asks} (idle : Idle x) : notes (x :: past) = notes past := by
  unfold Idle at idle
  split at idle <;> first | rfl | exact idle.elim

theorem note?_of_isOwn {x : Exchange asks} (own : x.1.isOwn) :
    note? x = (act? x).map fun a => a.1.note := by
  obtain ⟨q, r⟩ := x
  cases q with
  | labour | clock | publish | ack | release => rfl
  | stopSeen | elapsed | pop | pause => cases own

/-- For a claimed task, the notes are those of the calls. -/
theorem notes_of_isOwn (own : ∀ x ∈ new, x.1.isOwn) :
    notes new = ((acts new).map fun a => a.1.note).reverse := by
  induction new with
  | nil => rfl
  | cons x new ih =>
    rw [List.forall_mem_cons] at own
    have more := ih own.2
    rw [acts_cons, List.map_append, List.reverse_append, ← more, notes, List.filterMap_cons,
      note?_of_isOwn own.1]
    cases act? x <;> rfl

theorem notes_of_through {plan : List Act} (own : ∀ x ∈ new, x.1.isOwn)
    (calls : acts new = through plan) : notes new = (plan.map Act.note).reverse := by
  rw [notes_of_isOwn own, calls, through, List.map_map]
  rfl

/-! The account of a whole run. -/

theorem Balanced.parted {r : TaskResult} (h : Balanced before) (own : r.taskId = t.id)
    (enough : ¬ Again r) :
    Balanced (.parted t.id :: .published r :: .claimed t :: before) := by
  intro id
  by_cases same : t.id = id
  · simp [Has, same, own, enough]
  · simp [Has, same, own, h id]

/-- A plan that is carried out leaves the account balanced. -/
theorem Plan.balanced {plan : List Act} (h : Plan t new plan) (balanced : Balanced before)
    (free : ¬ Has t.id before) :
    Balanced ((plan.map Act.note).reverse ++ .claimed t :: before) := by
  cases h with
  | handBack =>
    intro id
    by_cases same : t.id = id
    · have none : ¬ AsksAgain id before := fun again => free (same ▸ (balanced id).mpr again)
      simp [Act.note, Has, same, none]
    · simp [Act.note, Has, same, balanced id]
  | retire answers final =>
    refine balanced.parted answers.taskId fun again => ?_
    rcases final with ok | ⟨-, last⟩
    · exact nomatch ok.symm.trans again.1
    · exact nomatch last.symm.trans again.2
  | @keep r answers again =>
    intro id
    by_cases same : t.id = id
    · simp [Act.note, Has, same, answers.taskId, show Again r from again]
    · simp [Act.note, Has, same, answers.taskId, balanced id]
  | putBack answers skipped =>
    exact balanced.parted answers.taskId fun again => nomatch skipped.symm.trans again.1

theorem Settled.balanced (h : Settled past) (apart : Apart (notes past)) :
    Balanced (notes past) := by
  induction h with
  | start =>
    intro id
    simp [notes, Has, AsksAgain, lastResult?]
  | idle _ idle ih =>
    rw [notes_of_idle idle] at apart ⊢
    exact ih apart
  | @claim wait t new past d _ own ended ih =>
    rw [notes_append, notes_claiming] at apart ⊢
    obtain ⟨free, apart⟩ := apart.of_append
    cases ended with
    | carried _ plan calls whole =>
      rw [notes_of_through own calls]
      exact plan.balanced (ih apart) free

theorem MayEnd.balanced {e : Exit} (h : MayEnd past (.ok e)) (apart : Apart (notes past)) :
    Balanced (notes past) := by
  cases h with
  | leave _ settled => exact settled.balanced apart

/-- After a handler broke down, its task is left claimed. -/
theorem MayEnd.has_iff_of_fault {handler i message : String}
    (h : MayEnd past (.error (.handlerFault handler i message))) (apart : Apart (notes past)) :
    Has id (notes past) ↔ AsksAgain id (notes past) ∨ id = i := by
  cases h with
  | @within wait t new past _ settled own ended =>
    cases ended with
    | broken _ fault calls =>
      have none : notes new = [] := by rw [notes_of_isOwn own, calls]; rfl
      rw [notes_append, notes_claiming, none] at apart ⊢
      have balanced := settled.balanced apart.2
      simp [Has, balanced id, or_comm, eq_comm]

/-- Only a call that failed ends a run with its error. -/
theorem MayEnd.failure {e : QueueError} (h : MayEnd past (.error (.queue e))) :
    ∃ x ∈ past, failure? x = some e := by
  cases h with
  | noPop => exact ⟨_, List.mem_cons_self, rfl⟩
  | @within wait t new past _ settled own ended =>
    cases ended with
    | @cutShort done a more _ plan calls whole =>
      have mem : (a, .error e) ∈ acts new := by simp [calls]
      obtain ⟨x, mem, act⟩ := List.mem_filterMap.mp (List.mem_reverse.mp mem)
      refine ⟨x, List.mem_append_left _ mem, ?_⟩
      unfold act? at act
      split at act <;> cases act <;> rfl

/-! A task is asked for right after the signal was seen not to be given. -/

/-- The worker has looked at the signal, perhaps at the time, and at nothing else since. -/
def Looked : Told → Prop
  | ⟨.stopSeen, false⟩ :: _ | ⟨.elapsed, _⟩ :: ⟨.stopSeen, false⟩ :: _ => True
  | _ => False

theorem looked_elapsed {now : Span} (h : Looked (⟨.elapsed, now⟩ :: past)) : Looked past := by
  unfold Looked at h
  split at h <;> simp_all [Looked]

def LooksFirst (past : Told) (q : Ask) : Prop := ∀ wait, q = .pop wait → Looked past

theorem looksFirst_of_isOwn {q : Ask} (own : q.isOwn) : LooksFirst past q := by
  rintro wait rfl
  cases own

/-- Whatever comes of it, a result. -/
private def Comes {α : Type} (_ : Told) (r : Option α) : Prop := r.isSome

theorem serve_looksFirst (w : Template) (p : Progress) (t : Task) (past : Told) :
    (serve w p t).Keeps LooksFirst Comes past := by
  refine (((process_keeps w t).after past).mono ?_ fun _ _ told => told).bind ?_ ?_
  · rintro _ q ⟨new, -, underway⟩
    exact looksFirst_of_isOwn underway.isOwn
  · rintro now (e | d) -
    · rfl
    · cases d with
      | finished => exact ⟨nofun, fun _ => rfl⟩
      | rejected => exact ⟨nofun, fun _ => rfl⟩
  · rintro now ⟨_, -, none⟩
    exact none.elim

theorem round_looksFirst (w : Template) (started : Span) (p : Progress) (past : Told) :
    (round w started p).Keeps LooksFirst Comes past := by
  refine ⟨nofun, fun stop => ⟨nofun, fun now => ?_⟩⟩
  simp only [Program.bind]
  cases stop with
  | true =>
    simp only [next]
    rfl
  | false =>
    cases next w.config started now false p with
    | inl reason => rfl
    | inr wait =>
      refine ⟨fun _ _ => trivial, fun popped => ?_⟩
      rcases popped with _ | e | _ | t
      · rfl
      · rfl
      · rfl
      · exact serve_looksFirst w p t _

theorem run_looksFirst (rounds : Nat) (w : Template) :
    (run rounds w).Keeps LooksFirst (fun _ _ => True) [] := by
  refine ⟨nofun, fun started => ?_⟩
  refine Program.keeps_loop (fun _ _ => True) (fun past p _ => ?_) (fun _ _ _ => trivial) rounds
    trivial
  refine (round_looksFirst w started p past).mono (fun _ _ fit => fit) fun now r comes => ?_
  rcases r with _ | (_ | _)
  · cases comes
  · trivial
  · trivial

end Worker

end ClaimQueue
