import ClaimQueue.Proofs.Local.Waits
import ClaimQueue.Proofs.Worker.Ledger
import ClaimQueue.Simulation.World

/-! What a worker asks of a queue in memory, step by step, whatever it is told. The steps belong to
the calls of its run, so what was noted of them is what was noted of the calls, and none of the
calls fails. No task is asked for after the signal to stop was seen. -/

namespace ClaimQueue

namespace Simulation

open Worker (Dealing Looked)

abbrev Heard := List (Exchange requests)

def note? : Exchange requests → Option Dealing
  | ⟨.heeding _ (.access .take), some (some t)⟩ => some (.claimed t)
  | ⟨.step (.access (.save r)), _⟩ => some (.published r)
  | ⟨.step (.access (.ack id)), _⟩ | ⟨.step (.access (.release id)), _⟩ => some (.parted id)
  | _ => none

def notes (told : Heard) : List Dealing := told.filterMap note?

/-- By this the worker knows that the signal is given. -/
def Sees : Exchange requests → Prop
  | ⟨.given _, true⟩ | ⟨.heeding _ _, none⟩ => True
  | _ => False

def Seen (told : Heard) : Prop := ∃ x ∈ told, Sees x

/-- A signal that was seen is given whenever it is looked at again. -/
def Lasting : Heard → Prop
  | [] => True
  | ⟨.given _, given⟩ :: rest => (Seen rest → given = true) ∧ Lasting rest
  | _ :: rest => Lasting rest

/-- Of the contents of the queue, a worker asks nothing but this. -/
def Usual : Request → Prop
  | .step (.access (.ack _)) | .step (.access (.release _)) | .step (.access (.save _)) => True
  | .step (.access _) => False
  | .heeding _ (.access .take) => True
  | .heeding _ (.access _) => False
  | _ => True

def Takes : Request → Prop
  | .step (.access .take) | .heeding _ (.access .take) => True
  | _ => False

def Fit (told : Heard) (q : Request) : Prop := Usual q ∧ (Takes q → Lasting told → ¬ Seen told)

variable {told : Heard} {past : Worker.Told} {x : Exchange requests}

theorem seen_cons : Seen (x :: told) ↔ Sees x ∨ Seen told := by
  simp [Seen]

theorem Lasting.tail (h : Lasting (x :: told)) : Lasting told := by
  obtain ⟨q, r⟩ := x
  cases q with
  | given => exact h.2
  | _ => exact h

theorem Lasting.of_append {later : Heard} (h : Lasting (later ++ told)) : Lasting told := by
  induction later with
  | nil => exact h
  | cons x later ih => exact ih h.tail

/-- Step by step the same was done as call by call, and no call failed. -/
structure Mirrors (told : Heard) (past : Worker.Told) : Prop where
  notes : notes told = Worker.notes past
  calm : ∀ x ∈ past, Worker.failure? x = none
  unseen : Looked past → Lasting told → ¬ Seen told

namespace Mirrors

theorem nothing : Mirrors [] [] := ⟨rfl, by simp, fun looked => looked.elim⟩

/-- A step that is part of a call. -/
theorem hear (h : Mirrors told past) (none : note? x = none) (unseen : ¬ Sees x) :
    Mirrors (x :: told) past := by
  refine ⟨?_, h.calm, fun looked lasting seen => ?_⟩
  · rw [← h.notes, Simulation.notes, List.filterMap_cons, none]
    rfl
  · exact h.unseen looked lasting.tail ((seen_cons.mp seen).resolve_left unseen)

/-- The step that makes a call. -/
theorem call {y : Exchange Worker.asks} (h : Mirrors told past) (note : note? x = Worker.note? y)
    (calm : Worker.failure? y = none)
    (unseen : Looked (y :: past) → Lasting (x :: told) → ¬ Seen (x :: told)) :
    Mirrors (x :: told) (y :: past) := by
  refine ⟨?_, by simpa [calm] using h.calm, unseen⟩
  have same := h.notes
  simp only [Simulation.notes, Worker.notes, List.filterMap_cons, note] at same ⊢
  rw [same]

end Mirrors

/-- After a call: what was told by it, if it came to its end. -/
def Called (q : Worker.Ask) (past : Worker.Told) (now : Heard) : Option q.Answer → Prop
  | some r => Mirrors now (⟨q, r⟩ :: past)
  | none => True

/-- While it waits for a task. -/
theorem looking_keeps {wait : Span} (signal : Signal) (rounds : Nat) (deadline : Span)
    (h : Mirrors told past) (clear : Lasting told → ¬ Seen told) :
    (heeding signal (LocalQueue.looking rounds deadline)).Keeps Fit (Called (.pop wait) past)
      told := by
  induction rounds generalizing told with
  | zero => trivial
  | succ rounds ih =>
    rw [LocalQueue.looking_succ]
    refine ⟨⟨trivial, fun _ => clear⟩, fun found => ?_⟩
    rcases found with _ | _ | t
    · exact h.call rfl rfl nofun
    · have h := h.hear (x := ⟨.heeding signal (.access .take), some none⟩) rfl id
      refine ⟨⟨trivial, False.elim⟩, fun rung => ?_⟩
      rcases rung with _ | _ | _
      · exact h.call rfl rfl nofun
      · exact h.call rfl rfl nofun
      · refine ih (h.hear rfl id) fun lasting seen => ?_
        simp only [seen_cons] at seen
        exact clear lasting (seen.resolve_left id |>.resolve_left id)
    · exact h.call rfl rfl nofun

theorem workerAsk_keeps (rounds : Nat) (signal : Signal) {q : Worker.Ask} (h : Mirrors told past)
    (looks : Worker.LooksFirst past q) :
    (workerAsk rounds signal q).Keeps Fit (Called q past) told := by
  cases q with
  | stopSeen =>
    refine ⟨⟨trivial, False.elim⟩, fun given => h.call rfl rfl fun looked lasting seen => ?_⟩
    cases given with
    | true => exact looked
    | false => exact nomatch lasting.1 ((seen_cons.mp seen).resolve_left id)
  | elapsed =>
    refine ⟨⟨trivial, False.elim⟩, fun now => h.call rfl rfl fun looked lasting seen => ?_⟩
    exact h.unseen (Worker.looked_elapsed looked) lasting ((seen_cons.mp seen).resolve_left id)
  | clock | labour | pause => exact ⟨⟨trivial, False.elim⟩, fun r => h.call rfl rfl nofun⟩
  | publish r =>
    refine ⟨⟨trivial, False.elim⟩, fun saved => ⟨⟨trivial, False.elim⟩, fun announced => ?_⟩⟩
    exact (h.call (y := ⟨.publish r, .ok ()⟩) rfl rfl nofun).hear rfl id
  | ack id => exact ⟨⟨trivial, False.elim⟩, fun acked => h.call rfl rfl nofun⟩
  | release id =>
    refine ⟨⟨trivial, False.elim⟩, fun released => ?_⟩
    have h := h.call (x := ⟨.step (.access (.release id)), released⟩) (y := ⟨.release id, .ok ()⟩)
      rfl rfl nofun
    cases released with
    | false => exact h
    | true => exact ⟨⟨trivial, False.elim⟩, fun rung => h.hear rfl fun sees => sees⟩
  | pop wait =>
    have clear := h.unseen (looks wait rfl)
    refine ⟨⟨trivial, False.elim⟩, fun given => ?_⟩
    cases given with
    | true => exact h.call rfl rfl nofun
    | false =>
      have h := h.hear (x := ⟨.given signal, false⟩) rfl id
      refine ⟨⟨trivial, False.elim⟩, fun start => ?_⟩
      rcases start with _ | start
      · exact h.call rfl rfl nofun
      · refine looking_keeps signal rounds _ (h.hear rfl id) fun lasting seen => ?_
        simp only [seen_cons] at seen
        exact clear lasting.2 (seen.resolve_left id |>.resolve_left id)

/-- What is left when a worker's run is over. -/
def Left (told : Heard) : Option (Except Worker.Error Worker.Exit) → Prop
  | some r => ∃ past, Mirrors told past ∧ Worker.MayEnd past r
  | none => True

theorem workerRun_keeps (rounds : Nat) (signal : Signal) (w : Worker.Template) :
    (workerRun rounds signal w).Keeps Fit Left [] := by
  refine ((Worker.run_keeps rounds w).and (Worker.run_looksFirst rounds w)).lower Mirrors
    (fun told past q along fit => ?_) (fun told past r along ends => ?_) .nothing
  · exact (workerAsk_keeps rounds signal along fit.2).mono (fun _ _ fit => fit) fun now r called =>
      by cases r <;> exact called
  · cases r with
    | none => trivial
    | some r => exact ⟨past, along, ends.1⟩

end Simulation

end ClaimQueue
