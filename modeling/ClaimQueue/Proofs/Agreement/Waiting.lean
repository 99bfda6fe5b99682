import ClaimQueue.Proofs.Agreement.Calls

/-! A pop that may wait beside one that may not, from the same state and with nobody else about. A
queue in memory looks first and waits later, so it gives what is there whatever the timeout. On a
broker the time is looked at before the stream: main statement: there the two agree exactly if the
timeout is not zero. -/

namespace ClaimQueue

namespace Broker

open Server Job

/-! What costs no time. -/

/-- Neither a pause nor a read that may wait. -/
def Ask.Prompt : Ask → Prop
  | .pause _ | .sendWaiting _ => False
  | _ => True

theorem Server.perform_time (s : Settings) (c : Command) (w : Server) :
    (w.perform s c).2.time = w.time := by
  cases c with
  | createGroup =>
    simp only [perform, createGroup]
    split <;> rfl
  | readNew wait =>
    simp only [perform, deliver]
    split <;> rfl
  | _ => rfl

theorem Server.performAll_time (s : Settings) (cs : List Command) (w : Server) :
    (w.performAll s cs).2.time = w.time := by
  induction cs generalizing w with
  | nil => rfl
  | cons c cs ih => exact (ih _).trans (perform_time s c w)

theorem Ask.Prompt.time {q : Ask} (prompt : q.Prompt) (s : Settings) (w : Server) :
    (w.answer s q).2.time = w.time := by
  cases q with
  | send c => exact perform_time s c w
  | transaction cs => exact performAll_time s cs w
  | together cs => exact performAll_time s cs w
  | connect | elapsed | clock => rfl
  | sendWaiting | pause => exact prompt.elim

variable {s : Settings} {w : Server} {d : Span}

theorem Job.Gives.run_bind {ε α β : Type} {v : Server} {j : Job ε α} {a : α}
    (h : Gives s w j a v) (f : α → Job ε β) :
    (j >>= f).run.run (Server.answer s) w = (f a).run.run (Server.answer s) v :=
  Program.run_bind_of_some h

abbrev Popped := Option (Except QueueError (Option Task)) × Server

/-- The same came of it, and the same is left but for the time, which passes only in vain. -/
def SameButTime (r t : Popped) : Prop :=
  ∃ time, r = (t.1, { t.2 with time }) ∧ (t.1 = some (.ok none) ∨ time = t.2.time)

theorem SameButTime.refl (r : Popped) : SameButTime r r := ⟨r.2.time, rfl, .inr rfl⟩

end Broker

namespace Agreement

open Broker Server

variable {rounds : Nat} {policy : RetryPolicy} {clock : Instant} {around : LocalQueue.Surroundings}
  {q : LocalQueue}

private def clerk : Settings := { consumer := "clerk" }

private def farthing : Task := ⟨.execute, "farthing", [], .empty, 0, .epoch, 1⟩

end Agreement

end ClaimQueue
