import ClaimQueue.Task.Basic

/-! The work of a task is all of it but its attempts, which a queue counts on its own. -/

namespace ClaimQueue

namespace Task

def withAttempts (n : UInt32) (t : Task) : Task := { t with attempts := n }

/-- The same kind, id, payload, requirements, time of creation and schema version. -/
def SameWork (t u : Task) : Prop := ∃ n, u = t.withAttempts n

theorem SameWork.refl (t : Task) : SameWork t t := ⟨t.attempts, rfl⟩

theorem SameWork.trans {t u v : Task} : SameWork t u → SameWork u v → SameWork t v
  | ⟨_, tu⟩, ⟨n, uv⟩ => ⟨n, by rw [uv, tu]; rfl⟩

theorem sameWork_bumped (t : Task) : SameWork t t.bumped := ⟨countUp t.attempts, rfl⟩

theorem SameWork.id_eq {t u : Task} : SameWork t u → u.id = t.id
  | ⟨_, same⟩ => by rw [same]; rfl

@[simp] theorem id_bumped (t : Task) : t.bumped.id = t.id := rfl

end Task

end ClaimQueue
