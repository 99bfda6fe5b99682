/-! A bell for those who wait for an arrival. A ring wakes the one that waits longest; with nobody
waiting it is kept, but only once, for the next who comes. One that was woken and leaves without
looking hands its wake-up on. -/

namespace ClaimQueue

structure Bell where
  /-- Registered and not woken, in order of arrival. -/
  waiting : List Nat := []
  /-- Woken, and not yet back at work. -/
  woken : List Nat := []
  kept : Bool := false
  deriving DecidableEq, Repr

namespace Bell

def ring (b : Bell) : Bell :=
  match b.waiting with
  | w :: rest => { b with waiting := rest, woken := b.woken ++ [w] }
  | [] => { b with kept := true }

/-- Whether a kept ring lets `w` go on at once. -/
def register (w : Nat) (b : Bell) : Bool × Bell :=
  if b.kept then (true, { b with kept := false })
  else (false, { b with waiting := b.waiting ++ [w] })

/-- Back to work, if woken. -/
def resume? (w : Nat) (b : Bell) : Option Bell :=
  if b.woken.contains w then some { b with woken := b.woken.erase w } else none

/-- Waits no more: its time is up, or it was told to stop. -/
def leave (w : Nat) (b : Bell) : Bell :=
  if b.woken.contains w then { b with woken := b.woken.erase w }.ring
  else { b with waiting := b.waiting.erase w }

end Bell

end ClaimQueue
