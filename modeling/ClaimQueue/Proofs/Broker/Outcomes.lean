import ClaimQueue.Proofs.Broker.Stream

/-! A job carried out from beginning to end, with nobody in between: what it gives, and the broker
after it. -/

namespace ClaimQueue

namespace Broker

open Server

namespace Job

variable {ε α β σ : Type} {s : Settings} {w v u : Server}

/-- Carried out against `w`, the job succeeds with `a` and leaves `v`. -/
def Gives (s : Settings) (w : Server) (j : Job ε α) (a : α) (v : Server) : Prop :=
  j.run.run (Server.answer s) w = (some (.ok a), v)

theorem gives_pure (a : α) : Gives s w (pure a : Job ε α) a w := rfl

theorem gives_ofExcept {r : Except ε α} {a : α} (h : r = .ok a) : Gives s w (ofExcept r) a w := by
  subst h
  rfl

theorem Gives.bind {j : Job ε α} {f : α → Job ε β} {a : α} {b : β} (h : Gives s w j a v)
    (more : Gives s v (f a) b u) : Gives s w (j >>= f) b u :=
  (Program.run_bind_of_some h).trans more

theorem gives_lift (q : Ask) :
    Gives s w (liftM (ask q) : Job ε q.Answer) (w.answer s q).1 (w.answer s q).2 := rfl

theorem gives_of {fault : LinkFault → ε} {p : Program asks (Except LinkFault α)} {a : α}
    (h : p.run (Server.answer s) w = (some (.ok a), v)) : Gives s w (Job.of fault p) a v :=
  Program.run_bind_of_some h

/-! Commands. -/

theorem gives_send {c : Command} {r : Reply} (h : (w.perform s c).1 = .ok r) :
    Gives s w (send c) r (w.perform s c).2 :=
  gives_of (by rw [← h]; rfl)

theorem gives_read {parse : Reply → Option α} {c : Command} {r : Reply} {a : α}
    (h : (w.perform s c).1 = .ok r) (parsed : parse r = some a) :
    Gives s w (read parse c) a (w.perform s c).2 := by
  refine (gives_send h).bind ?_
  rw [parsed]
  exact gives_pure a

theorem gives_tell {c : Command} {r : Reply} (h : (w.perform s c).1 = .ok r) :
    Gives s w (tell c) () (w.perform s c).2 :=
  (gives_send h).bind (gives_pure ())

theorem performAll_ok {cs : List Command}
    (h : ∀ c ∈ cs, ∀ w : Server, ∃ r, (w.perform s c).1 = .ok r) (w : Server) :
    ∃ rs, (w.performAll s cs).1 = .ok rs := by
  induction cs generalizing w with
  | nil => exact ⟨[], rfl⟩
  | cons c cs ih =>
    obtain ⟨r, first⟩ := h c List.mem_cons_self w
    obtain ⟨rs, rest⟩ := ih (fun d mem => h d (List.mem_cons_of_mem _ mem)) (w.perform s c).2
    exact ⟨r :: rs, by simp only [performAll, first, rest]; rfl⟩

theorem gives_transact {cs : List Command} {rs : List Reply}
    (h : (w.performAll s cs).1 = .ok rs) : Gives s w (transact cs) () (w.performAll s cs).2 := by
  have asked : Gives s w (Job.of LinkFault.toQueueError (ask (.transaction cs))) (.list rs)
      (w.performAll s cs).2 := by
    refine gives_of ?_
    show (some ((w.performAll s cs).1.map Reply.list), _) = _
    rw [h]
    rfl
  exact asked.bind (gives_pure ())

/-- A loop that ends in its first round. -/
theorem gives_tryLoop {body : σ → Job ε (σ ⊕ α)} {x : σ} {a : α}
    (h : Gives s w (body x) (.inr a) v) (rounds : Nat) :
    Gives s w (Program.tryLoop body (rounds + 1) x) a v := Program.run_tryLoop_of_end h

/-- A loop that goes on after its first round. -/
theorem run_tryLoop_of_next {body : σ → Job ε (σ ⊕ α)} {x y : σ} (h : Gives s w (body x) (.inl y) v)
    (rounds : Nat) : (Program.tryLoop body (rounds + 1) x).run.run (Server.answer s) w =
      (Program.tryLoop body rounds y).run.run (Server.answer s) v := Program.run_tryLoop_of_next h

/-! Failing. -/

/-- Carried out against `w`, the job fails with `e` and leaves `v`. -/
def Fails (s : Settings) (w : Server) (j : Job ε α) (e : ε) (v : Server) : Prop :=
  j.run.run (Server.answer s) w = (some (.error e), v)

theorem fails_ofExcept {r : Except ε α} {e : ε} (h : r = .error e) : Fails s w (ofExcept r) e w := by
  subst h
  rfl

theorem Fails.bind {j : Job ε α} {e : ε} (h : Fails s w j e v) (f : α → Job ε β) :
    Fails s w (j >>= f) e v := Program.run_bind_of_some h

theorem Gives.fails {j : Job ε α} {f : α → Job ε β} {a : α} {e : ε} (h : Gives s w j a v)
    (more : Fails s v (f a) e u) : Fails s w (j >>= f) e u :=
  (Program.run_bind_of_some h).trans more

theorem fails_tryLoop {body : σ → Job ε (σ ⊕ α)} {x : σ} {e : ε} (h : Fails s w (body x) e v)
    (rounds : Nat) : Fails s w (Program.tryLoop body (rounds + 1) x) e v :=
  Program.run_tryLoop_of_error h

/-- Whatever a job does, the stream stays in order. -/
theorem run_ordered {p : Program asks α} (s : Settings) {w : Server} (h : w.Ordered) :
    (p.run (Server.answer s) w).2.Ordered := by
  induction p generalizing w with
  | done a => exact h
  | ask q next ih => exact ih _ (answer_ordered s q h)
  | spent => exact h

end Job

end Broker

end ClaimQueue
