import ClaimQueue.Json.Scan

/-! Reads one value. Brackets may nest 127 deep; of two members with one key the later counts, and
members end up in key order. Passing over a value needs neither rule: it only follows the grammar.
-/

namespace ClaimQueue.Json

namespace Scan

/-- Items up to the closing bracket, each read by `item`. The fuel is the length of the text. -/
def items {α : Type} (item : Source → Except Fault (Scanned α)) :
    (fuel : Nat) → (first : Bool) → Source → Except Fault (Scanned (List α))
  | 0, _, _ => .error .unfinished
  | fuel + 1, first, s => do
    match ← nextItem first s with
    | none => return ([], ← closeArray s)
    | some s =>
      let (a, s) ← item s
      let (as, s) ← items item fuel false s
      return (a :: as, s)

/-- Members up to the closing brace, in the order of the text. -/
def members {α : Type} (item : Source → Except Fault (Scanned α)) :
    (fuel : Nat) → (first : Bool) → Source → Except Fault (Scanned (List (String × α)))
  | 0, _, _ => .error .unfinished
  | fuel + 1, first, s => do
    match ← nextKey first s with
    | none => return ([], ← closeObject s)
    | some s =>
      let (key, s) ← string s
      let s ← colon s
      let (a, s) ← item s
      let (as, s) ← members item fuel false s
      return ((key, a) :: as, s)

/-- A value that opens at most `depth` brackets at one place. -/
def value : (depth : Nat) → Source → Except Fault (Scanned Json)
  | depth, s =>
    match skipGap s with
    | [] => .error .unfinished
    | some 'n' :: s => do return (.null, ← word ['u', 'l', 'l'] s)
    | some 't' :: s => do return (.bool true, ← word ['r', 'u', 'e'] s)
    | some 'f' :: s => do return (.bool false, ← word ['a', 'l', 's', 'e'] s)
    | some '-' :: s => number true s
    | some '"' :: s => do
      let (text, s) ← string s
      return (.string text, s)
    | some '[' :: s =>
      match depth with
      | 0 => .error .malformed
      | depth + 1 => do
        let (as, s) ← items (value depth) (s.length + 1) true s
        return (.array as, s)
    | some '\x7b' :: s =>
      match depth with
      | 0 => .error .malformed
      | depth + 1 => do
        let (ms, s) ← members (value depth) (s.length + 1) true s
        return (.object (Index.ofList ms), s)
    | c :: s => if (digit? c).isSome then number false (c :: s) else .error .malformed

def passItems (item : Source → Except Fault Source) :
    (fuel : Nat) → (first : Bool) → Source → Except Fault Source
  | 0, _, _ => .error .unfinished
  | fuel + 1, first, s => do
    match ← nextItem first s with
    | none => closeArray s
    | some s => passItems item fuel false (← item s)

def passMembers (item : Source → Except Fault Source) :
    (fuel : Nat) → (first : Bool) → Source → Except Fault Source
  | 0, _, _ => .error .unfinished
  | fuel + 1, first, s => do
    match ← nextKey first s with
    | none => closeObject s
    | some s => passMembers item fuel false (← item (← colon (← passString s)))

/-- Passes over a value. No text opens more brackets than it has characters, so with the length of
the text as `depth` the nesting has no limit. -/
def passValue : (depth : Nat) → Source → Except Fault Source
  | depth, s =>
    match skipGap s with
    | [] => .error .unfinished
    | some 'n' :: s => word ['u', 'l', 'l'] s
    | some 't' :: s => word ['r', 'u', 'e'] s
    | some 'f' :: s => word ['a', 'l', 's', 'e'] s
    | some '-' :: s => passNumber s
    | some '"' :: s => passString s
    | some '[' :: s =>
      match depth with
      | 0 => .error .malformed
      | depth + 1 => passItems (passValue depth) (s.length + 1) true s
    | some '\x7b' :: s =>
      match depth with
      | 0 => .error .malformed
      | depth + 1 => passMembers (passValue depth) (s.length + 1) true s
    | c :: s => if (digit? c).isSome then passNumber (c :: s) else .error .malformed

def pass (s : Source) : Except Fault Source := passValue s.length s

/-- Nothing but blanks may follow a document. -/
def whole {α : Type} (scan : Source → Except Fault (Scanned α)) (s : Source) : Except Fault α := do
  let (a, rest) ← scan s
  if (skipGap rest).isEmpty then return a else .error .malformed

end Scan

def maxNesting : Nat := 127

def ofSource (s : Source) : Except Fault Json := Scan.whole (Scan.value maxNesting) s

def ofText (s : String) : Except Fault Json := ofSource (sourceOf s)

def ofBytes (bytes : List UInt8) : Except Fault Json := ofSource (Text.Utf8.units bytes)

end ClaimQueue.Json
