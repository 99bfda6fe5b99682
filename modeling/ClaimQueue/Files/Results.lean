import ClaimQueue.Files.Directory
import ClaimQueue.Files.Name
import ClaimQueue.Queue.Error

/-! Results in a directory, one file for each task. A result is written to a temporary file, which
then takes the place of the one before, so a reader sees either the one or the other. -/

namespace ClaimQueue

namespace Files

abbrev Job (α : Type) := ExceptT StoreError (Program asks) α

def must {α : Type} (p : Program asks (Except String α)) : Job α :=
  ExceptT.mk do
    match ← p with
    | .ok a => return .ok a
    | .error detail => return .error (.io detail)

def document (r : TaskResult) : List UInt8 := Text.Utf8.bytes r.toJson.pretty

/-- Writes and puts in place what is in the temporary file. -/
def fill (temporary target : String) (bytes : List UInt8) : Job Unit := do
  must (ask (.write temporary bytes))
  must (ask (.sync temporary))
  must (ask (.rename temporary target))

/-- A temporary file that could not be put in place is removed. -/
def save (r : TaskResult) : Job Unit := do
  let temporary ← must (ask .openTemporary)
  match ← ExceptT.lift (fill temporary (nameOf r.taskId) (document r)).run with
  | .ok () => return ()
  | .error e =>
    let _ ← ExceptT.lift (ask (.remove temporary))
    throw e

/-- The result in a file, if there is such a file. -/
def readFile (name : String) : Job (Option TaskResult) := do
  match ← must (ask (.read name)) with
  | none => return none
  | some bytes => match TaskResult.decoder.ofBytes bytes with
    | .ok r => return some r
    | .error fault => throw (.corrupt fault)

def get (id : String) : Job (Option TaskResult) := readFile (nameOf id)

/-- The files to be listed, in order of their names. -/
def names : Job (List String) := do
  let all ← must (ask .names)
  return (all.filter isResultName).mergeSort fun a b => decide (a ≤ b)

/-- What a listing gives for a file; nothing, if it is gone or of another kind. -/
def item (kind : Option TaskKind) (name : String) :
    Program asks (Option (Except StoreError TaskResult)) := do
  match ← (readFile name).run with
  | .ok none => return none
  | .ok (some r) => return if r.matchesKind kind then some (.ok r) else none
  | .error e => return some (.error e)

/-- Each file is read when its turn comes. -/
def items (kind : Option TaskKind) :
    List String → Program asks (List (Except StoreError TaskResult))
  | [] => pure []
  | name :: rest => do
    let found ← item kind name
    return found.toList ++ (← items kind rest)

/-- Makes sure that the directory is there. -/
def prepare : Job Unit := must (ask .create)

end Files

end ClaimQueue
