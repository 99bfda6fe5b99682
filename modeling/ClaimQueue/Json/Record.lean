import ClaimQueue.Json.Decoder

/-! Records: named fields in a fixed order, as an object or as an array of the fields. A draft
collects the fields as they come. In an object a field may be unknown, and is then passed over; in
an array the last fields may be missing. Which required field is missing is settled at the end, in
the order of declaration. -/

namespace ClaimQueue.Json

structure Field (Draft : Type) where
  name : String
  set : Decoder (Draft → Draft)

def field {Draft α : Type} (name : String) (d : Decoder α) (set : α → Draft → Draft) :
    Field Draft :=
  ⟨name, d.map set⟩

structure Record (Draft α : Type) where
  name : String
  empty : Draft
  fields : List (Field Draft)
  /-- The record, or the name of the first required field that the draft lacks. -/
  build : Draft → Except String α

namespace Record

variable {Draft α : Type} (r : Record Draft α)

def find? (key : String) : Option (Field Draft) := r.fields.find? (·.name == key)

def struct : String := "struct " ++ r.name

def sizeText : String :=
  let n := r.fields.length
  r.struct ++ " with " ++ toString n ++ (if n = 1 then " element" else " elements")

def ofDraft (fault : String → Fault) (draft : Draft) : Except Fault α :=
  match r.build draft with
  | .ok a => .ok a
  | .error name => .error (fault name)

def lengthFault (name : String) : Fault :=
  .wrongLength (r.fields.findIdx (·.name == name)) r.sizeText

def draftOfMembers (draft : Draft) : List (String × Json) → Except Fault Draft
  | [] => .ok draft
  | (key, j) :: rest =>
    match r.find? key with
    | none => draftOfMembers draft rest
    | some f => do draftOfMembers ((← f.set.ofValue j) draft) rest

def draftOfItems (draft : Draft) : List (Field Draft) → List Json → Except Fault Draft
  | f :: fs, j :: rest => do draftOfItems ((← f.set.ofValue j) draft) fs rest
  | _, _ => .ok draft

def ofValue : Json → Except Fault α
  | .object members => do
    let draft ← r.draftOfMembers r.empty members
    r.ofDraft .missingField draft
  | .array items => do
    let draft ← draftOfItems r.empty r.fields items
    let a ← r.ofDraft r.lengthFault draft
    if r.fields.length < items.length then
      .error (.wrongLength items.length "fewer elements in array")
    else return a
  | j => .error (.wrongType j.found r.struct)

/-- Members up to the closing brace. A known field may come once. -/
def readMembers (depth : Nat) :
    (fuel : Nat) → (seen : List String) → Draft → Source → Except Fault (Scanned Draft)
  | 0, _, _, _ => .error .unfinished
  | fuel + 1, seen, draft, s => do
    match ← Scan.nextKey seen.isEmpty s with
    | none => return (draft, s)
    | some s =>
      let (key, s) ← Scan.string s
      match r.find? key with
      | none => readMembers depth fuel (key :: seen) draft (← Scan.pass (← Scan.colon s))
      | some f =>
        if seen.contains key then .error (.duplicateField key)
        else
          let (set, s) ← f.set.read depth (← Scan.colon s)
          readMembers depth fuel (key :: seen) (set draft) s

def readItems (depth : Nat) :
    List (Field Draft) → (first : Bool) → Draft → Source → Except Fault (Scanned Draft)
  | [], _, draft, s => .ok (draft, s)
  | f :: fs, first, draft, s => do
    match ← Scan.nextItem first s with
    | none => return (draft, s)
    | some s =>
      let (set, s) ← f.set.read depth s
      readItems depth fs false (set draft) s

def read : (depth : Nat) → Source → Except Fault (Scanned α)
  | depth, s => do
    match Scan.skipGap s with
    | some '\x7b' :: s =>
      match depth with
      | 0 => .error .malformed
      | depth + 1 =>
        let (draft, s) ← r.readMembers depth (s.length + 1) [] r.empty s
        let a ← r.ofDraft .missingField draft
        return (a, ← Scan.closeObject s)
    | some '[' :: s =>
      match depth with
      | 0 => .error .malformed
      | depth + 1 =>
        let (draft, s) ← readItems depth r.fields true r.empty s
        let a ← r.ofDraft r.lengthFault draft
        return (a, ← Scan.closeArray s)
    | s => .error (unexpected r.struct s)

def decoder : Decoder α := ⟨r.ofValue, r.read⟩

end Record

end ClaimQueue.Json
