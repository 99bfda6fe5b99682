import ClaimQueue.Number.Power

/-! Digits, and whole numbers in decimal digits, read within bounds. -/

namespace ClaimQueue.Number

def digit? (c : Char) : Option Nat := if c.isDigit then some (c.toNat - '0'.toNat) else none

def hexDigit? (c : Char) : Option Nat :=
  if '0' ≤ c ∧ c ≤ '9' then some (c.toNat - '0'.toNat)
  else if 'a' ≤ c ∧ c ≤ 'f' then some (c.toNat - 'a'.toNat + 10)
  else if 'A' ≤ c ∧ c ≤ 'F' then some (c.toNat - 'A'.toNat + 10)
  else none

def decimal? (cs : List Char) : Option Nat :=
  if cs.isEmpty then none
  else cs.foldlM (fun n c => (digit? c).map fun d => n * 10 + d) 0

/-- A number below `limit`, with a plus sign at most. -/
def unsigned? (limit : Nat) (cs : List Char) : Option Nat :=
  let n := match cs with
    | '+' :: rest => decimal? rest
    | cs => decimal? cs
  n.filter (· < limit)

/-- A 64-bit number, with a sign at most. -/
def signed? (cs : List Char) : Option Int :=
  match cs with
  | '-' :: rest => ((decimal? rest).filter (· ≤ 2 ^ 63)).map fun n => -(n : Int)
  | cs => (unsigned? (2 ^ 63) cs).map Int.ofNat

end ClaimQueue.Number
