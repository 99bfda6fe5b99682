import ClaimQueue.Index
import ClaimQueue.Program

/-! What is asked of a directory, and a directory in memory that answers. -/

namespace ClaimQueue

namespace Files

inductive Ask where
  /-- Makes the directory, unless it is there. -/
  | create
  | names
  /-- The bytes of a file; none if there is no such file. -/
  | read (name : String)
  /-- A new file under a name that no one uses: that name. -/
  | openTemporary
  | write (name : String) (bytes : List UInt8)
  /-- Waits until a file's bytes are safe. -/
  | sync (name : String)
  /-- Puts a file in the place of another, in one step. -/
  | rename (old new : String)
  | remove (name : String)

abbrev Ask.Answer : Ask → Type
  | .create | .write _ _ | .sync _ | .rename _ _ | .remove _ => Except String Unit
  | .names => Except String (List String)
  | .read _ => Except String (Option (List UInt8))
  | .openTemporary => Except String String

abbrev asks : Interface := ⟨Ask, Ask.Answer⟩

def ask (q : Ask) : Program asks q.Answer := Program.call (I := asks) q

inductive Node where
  | file (bytes : List UInt8)
  | folder
  deriving DecidableEq, Repr

/-- What lies at a path. -/
inductive Place where
  | vacant
  /-- A file, where a directory should be. -/
  | occupied
  | directory (nodes : Index Node)
  deriving DecidableEq, Repr

/-- A directory in memory. `fault` is said of whatever cannot be done. -/
structure Memory where
  place : Place := .vacant
  fault : String := "not possible"
  /-- How many temporary files were opened. -/
  opened : Nat := 0

namespace Memory

/-- The longest file name, in bytes. -/
def nameLimit : Nat := 255

def temporaryName (n : Nat) : String := ".result-" ++ toString n ++ ".tmp"

def nodes? (m : Memory) : Option (Index Node) :=
  match m.place with
  | .directory nodes => some nodes
  | _ => none

def put (name : String) (node : Node) (m : Memory) : Memory :=
  match m.place with
  | .directory nodes => { m with place := .directory (Index.put name node nodes) }
  | _ => m

def erase (name : String) (m : Memory) : Memory :=
  match m.place with
  | .directory nodes => { m with place := .directory (Index.erase name nodes) }
  | _ => m

def find? (name : String) (m : Memory) : Option Node := m.nodes?.bind (Index.find? name)

def create (m : Memory) : Except String Unit × Memory :=
  match m.place with
  | .vacant => (.ok (), { m with place := .directory [] })
  | .directory _ => (.ok (), m)
  | .occupied => (.error m.fault, m)

def read (name : String) (m : Memory) : Except String (Option (List UInt8)) :=
  if nameLimit < name.utf8ByteSize then .error m.fault
  else match m.find? name with
    | some (.file bytes) => .ok (some bytes)
    | some .folder => .error m.fault
    | none => if m.place = .occupied then .error m.fault else .ok none

def openTemporary (m : Memory) : Except String String × Memory :=
  match m.nodes? with
  | none => (.error m.fault, m)
  | some _ =>
    let name := temporaryName m.opened
    (.ok name, { m with opened := m.opened + 1 }.put name (.file []))

def rename (old new : String) (m : Memory) : Except String Unit × Memory :=
  match m.find? old with
  | none => (.error m.fault, m)
  | some node =>
    if m.find? new = some .folder ∨ nameLimit < new.utf8ByteSize then (.error m.fault, m)
    else (.ok (), (m.erase old).put new node)

def answer (q : Ask) (m : Memory) : q.Answer × Memory :=
  match q with
  | .create => m.create
  | .names => match m.nodes? with
    | some nodes => (.ok nodes.keys, m)
    | none => (.error m.fault, m)
  | .read name => (m.read name, m)
  | .openTemporary => m.openTemporary
  | .write name bytes => (.ok (), m.put name (.file bytes))
  | .sync _ => (.ok (), m)
  | .rename old new => m.rename old new
  | .remove name => (.ok (), m.erase name)

end Memory

end Files

end ClaimQueue
