import ClaimQueue.Simulation.Answer

/-! Runs scripts side by side until all have ended. Each goes on as far as it can before the next
has its turn: first those that are watched, in order, then those in the background. When all wait,
time jumps to the next deadline. -/

namespace ClaimQueue

namespace Simulation

inductive Course (α : Type) where
  | running (f : Fiber α)
  | ended (a : α)
  /-- Ran out of rounds. -/
  | lost

def Course.isRunning {α : Type} : Course α → Bool
  | .running _ => true
  | _ => false

/-- Goes on until the next wait. `moved` tells whether anything was answered. -/
def poll {α : Type} (rounds : Nat) :
    Script α → Option Hold → (moved : Bool) → World → Course α × Bool × World
  | .done a, _, moved, w => (.ended a, moved, w)
  | .spent, _, moved, w => (.lost, moved, w)
  | .ask q next, none, moved, w =>
    match w.begin rounds q with
    | (.now a, w) => poll rounds (next a) none true w
    | (.held h, w) => (.running ⟨.ask q next, some h⟩, moved, w)
  | .ask q next, some h, moved, w =>
    match w.resume h q with
    | (some a, w) => poll rounds (next a) none true w
    | (none, w) => (.running ⟨.ask q next, some h⟩, moved, w)

def pollCourse {α : Type} (rounds : Nat) : Course α → World → Course α × Bool × World
  | .running f, w => poll rounds f.script f.hold f.hold.isNone w
  | c, w => (c, false, w)

/-- One turn for each of those that are watched. -/
def pollAll {α : Type} (rounds : Nat) : List (Course α) → World → List (Course α) × Bool × World
  | [], w => ([], false, w)
  | c :: rest, w =>
    let (c, moved, w) := pollCourse rounds c w
    let (rest, restMoved, w) := pollAll rounds rest w
    (c :: rest, moved || restMoved, w)

/-- One turn for each in the background; those that have ended leave it. -/
def pollCrew (rounds : Nat) :
    List (Nat × Fiber Unit) → World → List (Nat × Fiber Unit) × Bool × World
  | [], w => ([], false, w)
  | (number, f) :: rest, w =>
    let (c, moved, w) := poll rounds f.script f.hold f.hold.isNone w
    match c with
    | .running f =>
      let (rest, restMoved, w) := pollCrew rounds rest w
      ((number, f) :: rest, moved || restMoved, w)
    | _ =>
      let (rest, _, w) := pollCrew rounds rest { w with alive := w.alive.erase number }
      (rest, true, w)

/-- Turns for the background until none of it can go on, and whether any could. -/
def settle (rounds : Nat) : (turns : Nat) → World → Bool × World
  | 0, w => (false, w)
  | turns + 1, w =>
    let (crew, moved, after) := pollCrew rounds w.crew { w with crew := [] }
    let after := { after with crew := crew ++ after.crew }
    if moved then (true, (settle rounds turns after).2) else (false, after)

def dueOf {α : Type} (f : Fiber α) : Option Nat := f.hold.bind (·.due)

def earliest : List Nat → Option Nat
  | [] => none
  | t :: rest => some ((earliest rest).elim t (min t))

def deadlines {α : Type} (cs : List (Course α)) (w : World) : List Nat :=
  (cs.filterMap fun
    | .running f => dueOf f
    | _ => none) ++ w.crew.filterMap fun f => dueOf f.2

/-- The results in order; none if rounds run out, or if all wait for ever. -/
def runAll {α : Type} (rounds : Nat) : (turns : Nat) → List (Course α) → World →
    Option (List (Course α)) × World
  | 0, _, w => (none, w)
  | turns + 1, cs, w =>
    let (cs, moved, w) := pollAll rounds cs w
    if cs.any Course.isRunning then
      let (crewMoved, w) := settle rounds turns w
      if moved || crewMoved then runAll rounds turns cs w
      else match earliest (deadlines cs w) with
        | none => (none, w)
        | some t => runAll rounds turns cs { w with time := t }
    else (some cs, w)

/-- How many rounds and turns are given to a run that is expected to end. -/
def plenty : Nat := 2 ^ 40

def begun {α : Type} (s : Script α) : Course α := .running ⟨s, none⟩

end Simulation

end ClaimQueue
