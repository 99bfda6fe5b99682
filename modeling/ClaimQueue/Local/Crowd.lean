import ClaimQueue.Local.Callers

/-! Several callers of one queue in memory, and the bell between those who bring tasks and those who
wait for one. A vain look and the registration with the bell are two steps, and others may come in
between. Whoever waits may see his time run out, and a call to pop that may wait may be dropped at
any point; a wake-up that has reached him but that he did not take up yet goes to the next then. -/

namespace ClaimQueue

namespace LocalQueue

/-- What a caller is about to do. -/
def System.asked? (i : Nat) (y : System) : Option Step :=
  match y.callers[i]? with
  | some ⟨some ⟨_, .ask s _⟩, _⟩ => some s
  | _ => none

/-- The same surroundings, but for what one hears who attends the bell. -/
def hearing (rung : Bool) (around : Surroundings) : Surroundings
  | .attend _ => rung
  | s => around s

structure Crowd extends System where
  bell : Bell := {}
  /-- Those whom the bell let go on, until their next step. -/
  roused : List Nat := []

namespace Crowd

inductive Event where
  | begin (caller : Nat) (u : Undertaking)
  | go (caller : Nat) (around : Surroundings)
  /-- A caller's time is up. One who was woken goes on all the same. -/
  | expire (caller : Nat) (around : Surroundings)
  /-- A call to pop that may wait is given up. -/
  | drop (caller : Nat)

def fresh (policy : RetryPolicy) (callers : Nat) : Crowd :=
  { toSystem := .fresh policy callers }

/-- Back from the bell. -/
def rouse (i : Nat) (around : Surroundings) (bell : Bell) (y : Crowd) : Crowd :=
  { y with toSystem := y.toSystem.go i (hearing true around), bell, roused := i :: y.roused }

def attend (i : Nat) (around : Surroundings) (y : Crowd) : Crowd :=
  if y.bell.waiting.contains i then y
  else match y.bell.resume? i with
    | some bell => y.rouse i around bell
    | none => match y.bell.register i with
      | (true, bell) => y.rouse i around bell
      | (false, bell) => { y with bell }

def go (i : Nat) (around : Surroundings) (y : Crowd) : Crowd :=
  match y.asked? i with
  | some (.attend _) => y.attend i around
  | some .ring => { y with toSystem := y.toSystem.go i around, bell := y.bell.ring }
  | some _ => { y with toSystem := y.toSystem.go i around, roused := y.roused.erase i }
  | none => y

/-- Only one who is registered and not woken can be too late. -/
def expire (i : Nat) (around : Surroundings) (y : Crowd) : Crowd :=
  if y.bell.waiting.contains i then
    { y with toSystem := y.toSystem.go i (hearing false around), bell := y.bell.leave i }
  else y

def drop (i : Nat) (y : Crowd) : Crowd :=
  match y.callers[i]? with
  | some ⟨some ⟨.call (.pop true _), _⟩, history⟩ =>
    { y with
      callers := y.callers.set i { history }
      bell := y.bell.leave i
      roused := y.roused.erase i }
  | _ => y

def step (rounds : Nat) (y : Crowd) : Event → Crowd
  | .begin i u => { y with toSystem := y.toSystem.step rounds (.begin i u) }
  | .go i around => y.go i around
  | .expire i around => y.expire i around
  | .drop i => y.drop i

def run (rounds : Nat) (y : Crowd) (events : List Event) : Crowd := events.foldl (step rounds) y

end Crowd

end LocalQueue

end ClaimQueue
