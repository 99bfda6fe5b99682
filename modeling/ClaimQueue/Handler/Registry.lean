import ClaimQueue.Handler.Basic

/-! The handlers of a worker, in the order of registration, which decides between several that fit.
A handler fits a task of its kind if the task's requirements lie within what the handler provides,
and that within what the worker has. -/

namespace ClaimQueue

structure Registry where
  handlers : List Handler := []

namespace Registry

def names (r : Registry) : List String := r.handlers.map (·.name)

/-- Adds a handler at the end; nothing, if its name is taken. -/
def register? (r : Registry) (h : Handler) : Option Registry :=
  if r.names.contains h.name then none else some ⟨r.handlers ++ [h]⟩

def takenMessage (name : String) : String := "handler '" ++ name ++ "' is already registered"

def allows (allowed : Option (List String)) (name : String) : Bool :=
  match allowed with
  | none => true
  | some names => names.contains name

def fits (kind : TaskKind) (requires caps : CapabilitySet) (allowed : Option (List String))
    (h : Handler) : Bool :=
  h.kind == kind && allows allowed h.name && requires.within h.provides && h.provides.within caps

def select? (r : Registry) (kind : TaskKind) (requires caps : CapabilitySet)
    (allowed : Option (List String)) : Option Handler :=
  r.handlers.find? (fits kind requires caps allowed)

/-- The kinds that have a handler, by code. -/
def kinds (r : Registry) : List TaskKind :=
  TaskKind.all.filter fun k => r.handlers.any (·.kind == k)

end Registry

end ClaimQueue
