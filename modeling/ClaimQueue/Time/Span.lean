import ClaimQueue.Number.Power

/-! A span of time, in nanoseconds, and its short text: seconds, milliseconds, microseconds or
nanoseconds, whichever is the largest unit that is reached, with no more decimals than needed. -/

namespace ClaimQueue

structure Span where
  nanos : Nat
  deriving DecidableEq, Repr

namespace Span

def ofMillis (n : Nat) : Span := ⟨n * 1000000⟩

def ofSeconds (n : Nat) : Span := ⟨n * 1000000000⟩

/-- Whole milliseconds; the rest is dropped. -/
def millis (s : Span) : Nat := s.nanos / 1000000

def isZero (s : Span) : Bool := s.nanos == 0

/-- The span left of `s` after `t`, at least nothing. -/
def less (s t : Span) : Span := ⟨s.nanos - t.nanos⟩

def least (s t : Span) : Span := if s.nanos ≤ t.nanos then s else t

/-- The longest span that can be asked for: 64 bits of seconds and a fraction. -/
def longest : Span := ⟨2 ^ 64 * 1000000000 - 1⟩

/-- `part` of `unit`, a power of ten with `width` zeros, as decimals without closing zeros. -/
def decimals (part width : Nat) : List Char :=
  let ds := Nat.toDigits 10 part
  let padded := List.replicate (width - ds.length) '0' ++ ds
  let kept := (padded.reverse.dropWhile (· == '0')).reverse
  if kept.isEmpty then [] else '.' :: kept

def inUnit (n unit width : Nat) (name : List Char) : List Char :=
  Nat.toDigits 10 (n / unit) ++ decimals (n % unit) width ++ name

def chars (s : Span) : List Char :=
  let n := s.nanos
  if 1000000000 ≤ n then inUnit n 1000000000 9 ['s']
  else if 1000000 ≤ n then inUnit n 1000000 6 ['m', 's']
  else if 1000 ≤ n then inUnit n 1000 3 ['µ', 's']
  else inUnit n 1 0 ['n', 's']

end Span

end ClaimQueue
