import ClaimQueue.Number.Binary64

/-! The shortest decimal that reads back as a given binary64 number: the fewest digits that lie
within its rounding interval, and of those the nearest. Numbers with a decimal exponent from -5 to
15 are written positionally and keep at least `.0`; all others in scientific form with a signed
exponent. -/

namespace ClaimQueue.Number

def digitCount (n : Nat) : Nat := if n = 0 then 0 else (Nat.toDigits 10 n).length

/-- The exponent of the first digit of `num / den`, for `num` not zero. -/
def decimalExponent (num den : Nat) : Int :=
  if den ≤ num then (digitCount (num / den) : Int) - 1
  else -(digitCount ((den - 1) / num) : Int)

/-- `num / den` divided by `10 ^ e`, as a ratio. -/
def decimalScaleDown (num den : Nat) : Int → Nat × Nat
  | .ofNat e => (num, den * 10 ^ e)
  | .negSucc e => (num * 10 ^ (e + 1), den)

/-- `n * 10 ^ e` as a ratio. -/
def decimalRatio (n : Nat) : Int → Nat × Nat
  | .ofNat e => (n * 10 ^ e, 1)
  | .negSucc e => (n, 10 ^ (e + 1))

namespace Binary64

def readsBack (x : Binary64) (digits : Nat) (exponent : Int) : Bool :=
  let (n, d) := decimalRatio digits exponent
  digits != 0 && nearest x.negative n d == some x

/-- The digits on the grid of `10 ^ exponent` that read back, the nearer of two neighbours; a tie
goes to the even one. -/
def onGrid? (x : Binary64) (exponent : Int) : Option Nat :=
  let (n, d) := decimalScaleDown x.ratio.1 x.ratio.2 exponent
  let below := n / d
  let nearer := roundHalfEven n d
  let other := if nearer = below then below + 1 else below
  if x.readsBack nearer exponent then some nearer
  else if x.readsBack other exponent then some other
  else none

/-- Tries `count` digits, then one more, up to seventeen in all. -/
def shortestFrom (x : Binary64) (top : Int) : (left count : Nat) → Nat × Int
  | 0, _ => (0, 0)
  | left + 1, count =>
    let exponent := top - count + 1
    match x.onGrid? exponent with
    | some digits => (digits, exponent)
    | none => x.shortestFrom top left (count + 1)

/-- Digits and power of ten, for a number that is not zero. -/
def shortest (x : Binary64) : Nat × Int :=
  x.shortestFrom (decimalExponent x.ratio.1 x.ratio.2) 17 1

end Binary64

def zeros (n : Nat) : List Char := List.replicate n '0'

/-- Digits with the point after the first `whole` of them, which may lie outside the digits. -/
def positional (digits : List Char) (whole : Int) : List Char :=
  if whole ≤ 0 then ['0', '.'] ++ zeros (-whole).toNat ++ digits
  else
    let n := whole.toNat
    if digits.length ≤ n then digits ++ zeros (n - digits.length) ++ ['.', '0']
    else digits.take n ++ '.' :: digits.drop n

def scientific (digits : List Char) (exponent : Int) : List Char :=
  let mantissa := match digits with
    | [] => []
    | [d] => [d]
    | d :: rest => d :: '.' :: rest
  let sign := if exponent < 0 then '-' else '+'
  mantissa ++ 'e' :: sign :: Nat.toDigits 10 exponent.natAbs

namespace Binary64

def magnitude (x : Binary64) : List Char :=
  if x.isZero then ['0', '.', '0']
  else
    let (n, e) := x.shortest
    let digits := (Nat.toDigits 10 n).reverse.dropWhile (· == '0') |>.reverse
    let top : Int := e + (digitCount n : Int) - 1
    if -5 ≤ top ∧ top ≤ 15 then positional digits (top + 1) else scientific digits top

def chars (x : Binary64) : List Char :=
  if x.negative then '-' :: x.magnitude else x.magnitude

end Binary64

end ClaimQueue.Number
