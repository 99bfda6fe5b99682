import ClaimQueue.Number.Power

/-! Finite binary64 numbers as exact data: a sign, a significand below `2 ^ 53` and a power of two.
Every operation computes an exact ratio and rounds it once, to nearest with ties to the even
significand. No number here is infinite: rounding past the largest finite one gives `none`. -/

namespace ClaimQueue.Number

/-- Stands for `±significand * 2 ^ exponent`. The exponent is at least `-1074`, and the significand
is at least `2 ^ 52` unless the exponent is `-1074`; zero has exponent `-1074`. -/
structure Binary64 where
  negative : Bool
  significand : Nat
  exponent : Int
  deriving DecidableEq, Repr

namespace Binary64

def zero (negative : Bool) : Binary64 := ⟨negative, 0, -1074⟩

def isZero (x : Binary64) : Bool := x.significand == 0

/-- A ratio of naturals that stands for the magnitude. -/
def ratio (x : Binary64) : Nat × Nat :=
  match x.exponent with
  | .ofNat e => (x.significand * 2 ^ e, 1)
  | .negSucc e => (x.significand, 2 ^ (e + 1))

def roundHalfEven (num den : Nat) : Nat :=
  let q := num / den
  let r := num % den
  if 2 * r < den then q
  else if den < 2 * r then q + 1
  else q + q % 2

/-- `num / den` divided by `2 ^ e`, as a ratio. -/
def scaleDown (num den : Nat) : Int → Nat × Nat
  | .ofNat e => (num, den * 2 ^ e)
  | .negSucc e => (num * 2 ^ (e + 1), den)

/-- The exponent that leaves 53 significant bits of `num / den`, and at least `-1074`. -/
def exponentFor (num den : Nat) : Int :=
  let e : Int := (Nat.log2 num : Int) - Nat.log2 den - 52
  let (n, d) := scaleDown num den e
  max (if n < 2 ^ 52 * d then e - 1 else e) (-1074)

def nearest (negative : Bool) (num den : Nat) : Option Binary64 :=
  if num = 0 then some (zero negative)
  else
    let e := exponentFor num den
    let (n, d) := scaleDown num den e
    let s := roundHalfEven n d
    let (s, e) := if s = 2 ^ 53 then (2 ^ 52, e + 1) else (s, e)
    if 971 < e then none else some ⟨negative, s, e⟩

def ofNat? (n : Nat) : Option Binary64 := nearest false n 1

def negate (x : Binary64) : Binary64 := { x with negative := !x.negative }

def times (x y : Binary64) : Option Binary64 :=
  nearest (x.negative != y.negative) (x.ratio.1 * y.ratio.1) (x.ratio.2 * y.ratio.2)

/-- The divisor must not be zero. -/
def quotient (x y : Binary64) : Option Binary64 :=
  nearest (x.negative != y.negative) (x.ratio.1 * y.ratio.2) (x.ratio.2 * y.ratio.1)

/-- Scales by a rounded power of ten up to `10 ^ 308`. A larger division goes in steps of
`10 ^ 308`; three steps take every number to zero. -/
def scaleTen (x : Binary64) (exponent : Int) : (steps : Nat) → Option Binary64
  | 0 => some (zero false)
  | steps + 1 =>
    if exponent.natAbs ≤ 308 then do
      let power ← ofNat? (10 ^ exponent.natAbs)
      if 0 ≤ exponent then x.times power else x.quotient power
    else if x.isZero then some x
    else if 0 ≤ exponent then none
    else do
      let power ← ofNat? (10 ^ 308)
      let y ← x.quotient power
      y.scaleTen (exponent + 308) steps

/-- The number read for a decimal with the given digits and power of ten: the digits are rounded
first and the scaling rounds again, so the result may be one unit away from the nearest. `none`
when it is too large. -/
def ofDecimal? (negative : Bool) (digits : Nat) (exponent : Int) : Option Binary64 := do
  let x ← (← ofNat? digits).scaleTen exponent 4
  return if negative then x.negate else x

end Binary64

end ClaimQueue.Number
