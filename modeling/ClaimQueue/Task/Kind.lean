import ClaimQueue.Text.Blank

/-! The kinds of work. Codes are fixed for good; a new kind takes the next one. -/

namespace ClaimQueue

inductive TaskKind where
  | render
  | mutate
  | execute
  | evaluate
  deriving DecidableEq, Repr

namespace TaskKind

def all : List TaskKind := [.render, .mutate, .execute, .evaluate]

def code : TaskKind → Nat
  | .render => 0
  | .mutate => 1
  | .execute => 2
  | .evaluate => 3

def name : TaskKind → String
  | .render => "render"
  | .mutate => "mutate"
  | .execute => "execute"
  | .evaluate => "evaluate"

/-- The name as a title, for lists of missing kinds. -/
def title : TaskKind → String
  | .render => "Render"
  | .mutate => "Mutate"
  | .execute => "Execute"
  | .evaluate => "Evaluate"

def table : List (String × TaskKind) := all.map fun k => (k.name, k)

/-- Reads a name with blanks around it, in capital or small ASCII letters. -/
def ofText? (s : String) : Option TaskKind :=
  let cs := (Text.trim s.toList).map Char.toLower
  all.find? fun k => k.name.toList == cs

def unknownMessage (s : String) : String := "unknown task kind '" ++ s ++ "'"

end TaskKind

end ClaimQueue
