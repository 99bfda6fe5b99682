import ClaimQueue.Json.Reader

/-! A decoder has two sides: it takes a value that has been read, or it reads straight from the
text. From the text, faults appear in the order of the document, whichever kind they are. -/

namespace ClaimQueue.Json

structure Decoder (α : Type) where
  ofValue : Json → Except Fault α
  read : (depth : Nat) → Source → Except Fault (Scanned α)

/-- The fault at a value of the wrong kind. A scalar is scanned first, so that it can be shown. -/
def unexpected (expected : String) (s : Source) : Fault :=
  let shown (r : Except Fault Found) : Fault := match r with
    | .ok found => .wrongType found expected
    | .error e => e
  match s with
  | some 'n' :: s => shown (Scan.word ['u', 'l', 'l'] s |>.map fun _ => .null)
  | some 't' :: s => shown (Scan.word ['r', 'u', 'e'] s |>.map fun _ => .bool true)
  | some 'f' :: s => shown (Scan.word ['a', 'l', 's', 'e'] s |>.map fun _ => .bool false)
  | some '-' :: s => shown (Scan.number true s |>.map fun r => r.1.found)
  | some '"' :: s => shown (Scan.string s |>.map fun r => .string r.1)
  | some '[' :: _ => .wrongType .array expected
  | some '\x7b' :: _ => .wrongType .object expected
  | c :: s =>
    if (Scan.digit? c).isSome then shown (Scan.number false (c :: s) |>.map fun r => r.1.found)
    else .malformed
  | [] => .unfinished

namespace Decoder

def map {α β : Type} (f : α → β) (d : Decoder α) : Decoder β where
  ofValue j := (d.ofValue j).map f
  read depth s := (d.read depth s).map fun r => (f r.1, r.2)

/-- A string that is read further by `parse`. -/
def parsed {α : Type} (expected : String) (parse : String → Except Fault α) : Decoder α where
  ofValue
    | .string s => parse s
    | j => .error (.wrongType j.found expected)
  read _ s := do
    match Scan.skipGap s with
    | some '"' :: s =>
      let (text, s) ← Scan.string s
      return (← parse text, s)
    | s => .error (unexpected expected s)

def text : Decoder String := parsed "a string" .ok

def bool : Decoder Bool where
  ofValue
    | .bool b => .ok b
    | j => .error (.wrongType j.found "a boolean")
  read _ s := do
    match Scan.skipGap s with
    | some 't' :: s => return (true, ← Scan.word ['r', 'u', 'e'] s)
    | some 'f' :: s => return (false, ← Scan.word ['a', 'l', 's', 'e'] s)
    | s => .error (unexpected "a boolean" s)

/-- A natural number up to `bound`; `expected` names the range. -/
def naturalOf (bound : Nat) (expected : String) : Json → Except Fault Nat
  | .int i =>
    if 0 ≤ i ∧ i ≤ bound then .ok i.toNat else .error (.wrongValue (.int i) expected)
  | j => .error (.wrongType j.found expected)

def natural (bound : Nat) (expected : String) : Decoder Nat where
  ofValue := naturalOf bound expected
  read _ s := do
    match Scan.skipGap s with
    | some '-' :: s =>
      let (j, s) ← Scan.number true s
      return (← naturalOf bound expected j, s)
    | c :: s =>
      if (Scan.digit? c).isSome then
        let (j, s) ← Scan.number false (c :: s)
        return (← naturalOf bound expected j, s)
      else .error (unexpected expected (c :: s))
    | [] => .error .unfinished

def word : Decoder UInt32 := (natural (2 ^ 32 - 1) "u32").map .ofNat

def natural64 : Decoder Nat := natural (2 ^ 64 - 1) "u64"

def size : Decoder Nat := natural (2 ^ 64 - 1) "usize"

def payload : Decoder Payload where
  ofValue
    | .object members => .ok members
    | j => .error (.wrongType j.found "a map")
  read depth s := do
    match Scan.skipGap s with
    | some '\x7b' :: s =>
      match depth with
      | 0 => .error .malformed
      | depth + 1 =>
        let (ms, s) ← Scan.members (Scan.value depth) (s.length + 1) true s
        return (Index.ofList ms, s)
    | s => .error (unexpected "a map" s)

def list {α : Type} (d : Decoder α) : Decoder (List α) where
  ofValue
    | .array items => items.mapM d.ofValue
    | j => .error (.wrongType j.found "a sequence")
  read depth s := do
    match Scan.skipGap s with
    | some '[' :: s =>
      match depth with
      | 0 => .error .malformed
      | depth + 1 => Scan.items (d.read depth) (s.length + 1) true s
    | s => .error (unexpected "a sequence" s)

/-- `null` stands for nothing. -/
def optional {α : Type} (d : Decoder α) : Decoder (Option α) where
  ofValue
    | .null => .ok none
    | j => (d.ofValue j).map some
  read depth s := do
    match Scan.skipGap s with
    | some 'n' :: s => return (none, ← Scan.word ['u', 'l', 'l'] s)
    | s =>
      let (a, s) ← d.read depth s
      return (some a, s)

def unitOf : Json → Except Fault Unit
  | .null => .ok ()
  | j => .error (.wrongType j.found "unit")

def readUnit (s : Source) : Except Fault Source :=
  match Scan.skipGap s with
  | some 'n' :: s => Scan.word ['u', 'l', 'l'] s
  | s => .error (unexpected "unit" s)

def lookUp {α : Type} (table : List (String × α)) (name : String) : Except Fault α :=
  match Index.find? name table with
  | some a => .ok a
  | none => .error (.unknownVariant name (table.map Prod.fst))

/-- One of a table of names, as a string or as the only key of an object whose value is `null`. -/
def variant {α : Type} (table : List (String × α)) : Decoder α where
  ofValue
    | .string name => lookUp table name
    | .object [(name, j)] => do
      let a ← lookUp table name
      unitOf j
      return a
    | .object _ => .error (.wrongValue .object "map with a single key")
    | j => .error (.wrongType j.found "string or map")
  read depth s := do
    match Scan.skipGap s with
    | [] => .error .unfinished
    | some '"' :: s =>
      let (name, s) ← Scan.string s
      return (← lookUp table name, s)
    | some '\x7b' :: s =>
      match depth with
      | 0 => .error .malformed
      | _ + 1 =>
        match Scan.skipGap s with
        | some '"' :: s =>
          let (name, s) ← Scan.string s
          let a ← lookUp table name
          let s ← readUnit (← Scan.colon s)
          return (a, ← Scan.closeObject s)
        | s => .error (unexpected "variant identifier" s)
    | _ => .error .malformed

/-- Reads a whole document. -/
def ofSource {α : Type} (d : Decoder α) (s : Source) : Except Fault α :=
  Scan.whole (d.read maxNesting) s

def ofText {α : Type} (d : Decoder α) (s : String) : Except Fault α := d.ofSource (sourceOf s)

def ofBytes {α : Type} (d : Decoder α) (bytes : List UInt8) : Except Fault α :=
  d.ofSource (Text.Utf8.units bytes)

end Decoder

end ClaimQueue.Json
