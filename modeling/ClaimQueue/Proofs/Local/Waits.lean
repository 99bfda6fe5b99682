import ClaimQueue.Proofs.Local.Rings

/-! Waiting for a task: what the bell does with those who wait, and where a pop that may wait can
stand between two of its steps. -/

namespace ClaimQueue

namespace Bell

variable {b : Bell} {i : Nat}

def registered (b : Bell) : List Nat := b.waiting ++ b.woken

theorem registered_ring (b : Bell) : b.ring.registered.Perm b.registered := by
  unfold ring registered
  split
  · rename_i w rest waiting
    rw [waiting, ← List.append_assoc]
    exact List.perm_append_singleton w (rest ++ b.woken)
  · exact .refl _

/-- A ring that leaves anyone asleep has woken one. -/
theorem ring_of_waiting (asleep : b.ring.waiting ≠ []) :
    b.waiting ≠ [] ∧ b.ring.woken.length = b.woken.length + 1 ∧ b.ring.kept = b.kept := by
  unfold ring at asleep ⊢
  split
  · rename_i w rest waiting
    exact ⟨by rw [waiting]; exact List.cons_ne_nil w rest, List.length_append, rfl⟩
  · rename_i waiting
    rw [waiting] at asleep
    exact absurd rfl asleep

theorem leave_of_woken (woken : i ∈ b.woken) :
    b.leave i = { b with woken := b.woken.erase i }.ring := by
  simp [leave, woken]

theorem leave_of_not_woken (other : i ∉ b.woken) :
    b.leave i = { b with waiting := b.waiting.erase i } := by
  simp [leave, other]

theorem registered_leave (mem : i ∈ b.registered) :
    (i :: (b.leave i).registered).Perm b.registered := by
  by_cases woken : i ∈ b.woken
  · rw [leave_of_woken woken]
    refine ((registered_ring _).cons i).trans ?_
    exact List.perm_middle.symm.trans (List.Perm.append_left _ (List.perm_cons_erase woken).symm)
  · rw [leave_of_not_woken woken]
    have waiting : i ∈ b.waiting := (List.mem_append.mp mem).resolve_right woken
    exact (List.perm_cons_erase waiting).symm.append_right b.woken

theorem leave_of_not_registered (other : i ∉ b.registered) : b.leave i = b := by
  have apart := fun mem => other (List.mem_append.mpr mem)
  rw [leave_of_not_woken fun mem => apart (.inr mem),
    List.erase_of_not_mem fun mem => apart (.inl mem)]

/-- One who leaves takes no wake-up with him that another might need. -/
theorem leave_of_waiting (asleep : (b.leave i).waiting ≠ []) :
    b.waiting ≠ [] ∧ (b.leave i).woken.length = b.woken.length ∧ (b.leave i).kept = b.kept := by
  by_cases woken : i ∈ b.woken
  · rw [leave_of_woken woken] at asleep ⊢
    obtain ⟨waiting, count, kept⟩ := ring_of_waiting asleep
    refine ⟨waiting, count.trans ?_, kept⟩
    have some := List.length_pos_of_mem woken
    rw [List.length_erase_of_mem woken]
    omega
  · rw [leave_of_not_woken woken] at asleep ⊢
    refine ⟨fun none => asleep ?_, rfl, rfl⟩
    rw [none]
    rfl

end Bell

namespace LocalQueue

/-! A pop that may wait. -/

abbrev PopSteps := Steps (Except QueueError (Option Task))

/-- About to look. -/
def looking (rounds : Nat) (deadline : Span) : PopSteps :=
  (Program.loop (fun _ => Calls.popRound true deadline) rounds ()).bind fun t? => .done (.ok t?)

/-- After a vain look. -/
def attending (rounds : Nat) (deadline : Span) : PopSteps :=
  .ask (.attend deadline) fun rung =>
    if rung then looking rounds deadline else .done (.ok none)

theorem looking_succ (rounds : Nat) (deadline : Span) :
    looking (rounds + 1) deadline = .ask (.access .take) fun t? => match t? with
      | some t => .done (.ok (some t))
      | none => attending rounds deadline := by
  refine congrArg (Program.ask (I := steps) (.access .take)) (funext fun t? => ?_)
  cases t? with
  | some t => rfl
  | none =>
    refine congrArg (Program.ask (I := steps) (.attend deadline)) (funext fun rung => ?_)
    cases rung <;> rfl

inductive Popping : PopSteps → Prop
  | begins (rounds : Nat) (timeout : Span) :
      Popping (LocalQueue.answer rounds (.pop true timeout))
  | looks (rounds : Nat) (deadline : Span) : Popping (looking rounds deadline)
  | attends (rounds : Nat) (deadline : Span) : Popping (attending rounds deadline)

theorem Popping.owed {p : PopSteps} (h : Popping p) : owed p = 0 := by
  cases h with
  | begins => rfl
  | looks rounds deadline =>
    cases rounds with
    | zero => rfl
    | succ rounds =>
      rw [looking_succ]
      rfl
  | attends => rfl

end LocalQueue

end ClaimQueue
