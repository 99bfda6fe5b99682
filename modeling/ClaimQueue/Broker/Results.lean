import ClaimQueue.Broker.Link

/-! Results on a broker: saved and read one by one, or listed page by page. A page is asked for only
when all before it has been taken, and a result reported twice is listed once. -/

namespace ClaimQueue

namespace Broker

def StoreError.ofWire : WireError → StoreError
  | .malformed fault => .corrupt fault
  | e => .backend e.message

def storedResult (body : List UInt8) : Except StoreError TaskResult :=
  match TaskResult.ofBytes body with
  | .ok r => .ok r
  | .error e => .error (StoreError.ofWire e)

namespace Results

def send (c : Command) : Job StoreError Reply := Job.of LinkFault.toStoreError (ask (.send c))

def mistyped : StoreError := .backend ReplyFault.mistyped.message

def save (r : TaskResult) : Job StoreError Unit := do
  let _ ← send (.saveResult r.taskId r.encoded)
  return ()

def get (id : String) : Job StoreError (Option TaskResult) := do
  match (← send (.resultOf id)).optional? Reply.bytes? with
  | none => throw mistyped
  | some none => return none
  | some (some body) => return some (← Job.ofExcept (storedResult body))

/-- Where a listing stands. -/
structure Scan where
  /-- None, once the broker has reported all. -/
  cursor : Option Nat := some 0
  page : List (List UInt8) := []
  seen : List String := []

/-- The fields that were not seen before, each once. -/
def Scan.take (scan : Scan) : List (String × List UInt8) → Scan
  | [] => scan
  | (id, body) :: rest =>
    if scan.seen.contains id then scan.take rest
    else { scan with page := scan.page ++ [body], seen := id :: scan.seen }.take rest

def pageOf? : Reply → Option (Nat × List (String × List UInt8))
  | .list [cursor, fields] => do return (← cursor.size?, ← fields.fields?)
  | _ => none

abbrev Item := Except StoreError TaskResult

def Scan.round (scan : Scan) : Program asks (Scan ⊕ Option (Item × Scan)) :=
  match scan.page, scan.cursor with
  | body :: rest, _ => pure (.inr (some (storedResult body, { scan with page := rest })))
  | [], none => pure (.inr none)
  | [], some cursor => do
    let ended : Scan := { scan with cursor := none }
    match ← ask (.send (.scanResults cursor)) with
    | .error e => return .inr (some (.error e.toStoreError, ended))
    | .ok reply => match pageOf? reply with
      | none => return .inr (some (.error mistyped, ended))
      | some (next, fields) =>
        return .inl ({ scan with cursor := if next = 0 then none else some next }.take fields)

/-- The next item, and the listing after it. -/
def Scan.next (rounds : Nat) (scan : Scan) : Program asks (Option (Item × Scan)) :=
  Program.loop Scan.round rounds scan

/-- Readable results of another kind are passed over. -/
def wanted (kind : Option TaskKind) : Item → Bool
  | .ok r => r.matchesKind kind
  | .error _ => true

def list (rounds : Nat) (kind : Option TaskKind) : Program asks (List Item) :=
  Program.loop (fun (scan, found) => do
    match ← Scan.next rounds scan with
    | none => return .inr found.reverse
    | some (item, scan) => return .inl (scan, if wanted kind item then item :: found else found))
    rounds (({} : Scan), [])

end Results

end Broker

end ClaimQueue
