import ClaimQueue.Json.Fault
import ClaimQueue.Number.Digits
import ClaimQueue.Text.Utf8

/-! The tokens of a document: blanks, words, numbers, strings and the punctuation of arrays and
objects. Each function takes what is left of the text and returns what it read with the rest. A
`pass` function recognises a token without interpreting it. -/

namespace ClaimQueue.Json

/-- The text still to be read; `none` is a byte outside any character. -/
abbrev Source := List (Option Char)

/-- What was read, and the text after it. -/
abbrev Scanned (α : Type) := α × Source

def sourceOf (s : String) : Source := s.toList.map some

namespace Scan

def isGap : Option Char → Bool
  | some ' ' | some '\n' | some '\t' | some '\r' => true
  | _ => false

def skipGap (s : Source) : Source := s.dropWhile isGap

/-- The rest of a word whose first letter has been seen. -/
def word : List Char → Source → Except Fault Source
  | [], s => .ok s
  | _ :: _, [] => .error .unfinished
  | c :: cs, some d :: s => if c = d then word cs s else .error .malformed
  | _ :: _, none :: _ => .error .malformed

def digit? : Option Char → Option Nat
  | some c => if '0' ≤ c ∧ c ≤ '9' then some (c.toNat - '0'.toNat) else none
  | none => none

def digits : Source → List Nat × Source
  | [] => ([], [])
  | c :: s =>
    match digit? c with
    | some d => let (ds, rest) := digits s; (d :: ds, rest)
    | none => ([], c :: s)

/-- Appends digits while the number fits 64 bits; returns those left over. -/
def absorb (n : Nat) : List Nat → Nat × List Nat
  | [] => (n, [])
  | d :: ds => if n * 10 + d < 2 ^ 64 then absorb (n * 10 + d) ds else (n, d :: ds)

def doubleOf (negative : Bool) (digits : Nat) (exponent : Int) (s : Source) :
    Except Fault (Scanned Json) :=
  match Number.Binary64.ofDecimal? negative digits exponent with
  | some x => .ok (.double x, s)
  | none => .error .malformed

def isExponentMark : Option Char → Bool
  | some 'e' | some 'E' => true
  | _ => false

/-- The sign of an exponent, taken as plus when absent. -/
def exponentSign : Source → Bool × Source
  | some '+' :: s => (false, s)
  | some '-' :: s => (true, s)
  | s => (false, s)

/-- After the mark of an exponent. -/
def exponentPart (negative : Bool) (number : Nat) (exponent : Int) (s : Source) :
    Except Fault (Scanned Json) :=
  let (minus, s) := exponentSign s
  match digits s with
  | ([], []) => .error .unfinished
  | ([], _ :: _) => .error .malformed
  | (ds, rest) =>
    let e : Int := (ds.foldl (fun n d => n * 10 + d) 0 : Nat)
    doubleOf negative number (if minus then exponent - e else exponent + e) rest

/-- After the point. Digits that no longer fit are dropped. -/
def fractionPart (negative : Bool) (number : Nat) (exponent : Int) (s : Source) :
    Except Fault (Scanned Json) :=
  match digits s with
  | ([], []) => .error .unfinished
  | ([], _ :: _) => .error .malformed
  | (ds, rest) =>
    let (number, left) := absorb number ds
    let exponent := exponent - (ds.length - left.length : Nat)
    match rest with
    | c :: r =>
      if isExponentMark c then exponentPart negative number exponent r
      else doubleOf negative number exponent rest
    | [] => doubleOf negative number exponent []

/-- An integer without point and exponent. Zero with a sign is a double. -/
def wholeOf (negative : Bool) (number : Nat) (s : Source) : Except Fault (Scanned Json) :=
  if negative then
    if number = 0 ∨ 2 ^ 63 < number then doubleOf true number 0 s
    else .ok (.int (-(number : Int)), s)
  else .ok (.int number, s)

/-- After the integer digits. Digits that did not fit raise the exponent instead. -/
def afterWhole (negative : Bool) (number : Nat) (dropped : Nat) :
    Source → Except Fault (Scanned Json)
  | some '.' :: s => fractionPart negative number dropped s
  | c :: s =>
    if isExponentMark c then exponentPart negative number dropped s
    else if dropped = 0 then wholeOf negative number (c :: s)
    else doubleOf negative number dropped (c :: s)
  | [] => if dropped = 0 then wholeOf negative number [] else doubleOf negative number dropped []

/-- A number after its sign. A leading zero stands alone. -/
def number (negative : Bool) (s : Source) : Except Fault (Scanned Json) :=
  match digits s with
  | ([], []) => .error .unfinished
  | ([], _ :: _) => .error .malformed
  | (0 :: _ :: _, _) => .error .malformed
  | (ds, rest) =>
    let (n, left) := absorb 0 ds
    afterWhole negative n left.length rest

def hexDigit? (c : Option Char) : Option Nat := c.bind Number.hexDigit?

def hex4? (a b c d : Option Char) : Option Nat := do
  return (((← hexDigit? a) * 16 + (← hexDigit? b)) * 16 + (← hexDigit? c)) * 16 + (← hexDigit? d)

def byteCount : Source → Nat
  | [] => 0
  | some c :: s => c.utf8Size + byteCount s
  | none :: s => 1 + byteCount s

/-- A number escape needs four more bytes; with fewer the text is unfinished. -/
def shortEscape (s : Source) : Fault := if byteCount s < 4 then .unfinished else .malformed

def escaped? : Char → Option Char
  | '"' => some '"'
  | '\\' => some '\\'
  | '/' => some '/'
  | 'b' => some '\x08'
  | 'f' => some '\x0c'
  | 'n' => some '\n'
  | 'r' => some '\r'
  | 't' => some '\t'
  | _ => none

def isHighSurrogate (n : Nat) : Bool := 0xD800 ≤ n && n ≤ 0xDBFF

def isLowSurrogate (n : Nat) : Bool := 0xDC00 ≤ n && n ≤ 0xDFFF

def pairOf (high low : Nat) : Char :=
  Char.ofNat ((high - 0xD800) * 0x400 + (low - 0xDC00) + 0x10000)

/-- Puts a character in front of a scanned string. -/
def consChar (c : Char) : Except Fault (Scanned (List Char)) → Except Fault (Scanned (List Char))
  | .ok (cs, s) => .ok (c :: cs, s)
  | .error e => .error e

/-- A string after its opening quote. A byte outside any character is only reported at the closing
quote, so a text that ends before it is unfinished. -/
def stringTail (broken : Bool) : Source → Except Fault (Scanned (List Char))
  | [] => .error .unfinished
  | none :: s => stringTail true s
  | some '"' :: s => if broken then .error .malformed else .ok ([], s)
  | some '\\' :: some 'u' :: a :: b :: c :: d :: s =>
    match hex4? a b c d with
    | none => .error .malformed
    | some n =>
      if isLowSurrogate n then .error .malformed
      else if isHighSurrogate n then
        match s with
        | [] => .error .unfinished
        | [some '\\'] => .error .unfinished
        | some '\\' :: some 'u' :: e :: f :: g :: h :: s =>
          match hex4? e f g h with
          | none => .error .malformed
          | some m =>
            if isLowSurrogate m then consChar (pairOf n m) (stringTail broken s)
            else .error .malformed
        | some '\\' :: some 'u' :: s => .error (shortEscape s)
        | _ => .error .malformed
      else consChar (Char.ofNat n) (stringTail broken s)
  | some '\\' :: some 'u' :: s => .error (shortEscape s)
  | some '\\' :: some c :: s =>
    match escaped? c with
    | some e => consChar e (stringTail broken s)
    | none => .error .malformed
  | some '\\' :: none :: _ => .error .malformed
  | [some '\\'] => .error .unfinished
  | some c :: s => if c < ' ' then .error .malformed else consChar c (stringTail broken s)

def string (s : Source) : Except Fault (Scanned String) :=
  match stringTail false s with
  | .ok (cs, rest) => .ok (String.ofList cs, rest)
  | .error e => .error e

/-- Passes over a string after its opening quote. -/
def passString : Source → Except Fault Source
  | [] => .error .unfinished
  | some '"' :: s => .ok s
  | some '\\' :: some 'u' :: a :: b :: c :: d :: s =>
    match hex4? a b c d with
    | none => .error .malformed
    | some _ => passString s
  | some '\\' :: some 'u' :: s => .error (shortEscape s)
  | some '\\' :: some c :: s =>
    match escaped? c with
    | some _ => passString s
    | none => .error .malformed
  | some '\\' :: none :: _ => .error .malformed
  | [some '\\'] => .error .unfinished
  | some c :: s => if c < ' ' then .error .malformed else passString s
  | none :: s => passString s

def passExponent (s : Source) : Except Fault Source :=
  match digits (exponentSign s).2 with
  | ([], _) => .error .malformed
  | (_ :: _, rest) => .ok rest

/-- After integer or fraction digits. -/
def passMark : Source → Except Fault Source
  | c :: s => if isExponentMark c then passExponent s else .ok (c :: s)
  | [] => .ok []

/-- Passes over a number after its sign. A number that breaks off is malformed here. -/
def passNumber (s : Source) : Except Fault Source :=
  match digits s with
  | ([], _) => .error .malformed
  | (0 :: _ :: _, _) => .error .malformed
  | (_, some '.' :: rest) =>
    match digits rest with
    | ([], _) => .error .malformed
    | (_ :: _, rest) => passMark rest
  | (_, rest) => passMark rest

/-- The start of the next item of an array, or nothing before the closing bracket. -/
def nextItem (first : Bool) (s : Source) : Except Fault (Option Source) :=
  match skipGap s with
  | [] => .error .unfinished
  | some ']' :: _ => .ok none
  | some ',' :: s =>
    if first then .error .malformed
    else match skipGap s with
      | [] => .error .unfinished
      | some ']' :: _ => .error .malformed
      | s => .ok (some s)
  | s => if first then .ok (some s) else .error .malformed

def closeArray (s : Source) : Except Fault Source :=
  match skipGap s with
  | some ']' :: s => .ok s
  | [] => .error .unfinished
  | _ => .error .malformed

/-- The text of the next key after its opening quote, or nothing before the closing brace. -/
def nextKey (first : Bool) (s : Source) : Except Fault (Option Source) :=
  match skipGap s with
  | [] => .error .unfinished
  | some '\x7d' :: _ => .ok none
  | some ',' :: s =>
    if first then .error .malformed
    else match skipGap s with
      | [] => .error .unfinished
      | some '"' :: s => .ok (some s)
      | _ => .error .malformed
  | some '"' :: s => if first then .ok (some s) else .error .malformed
  | _ => .error .malformed

def colon (s : Source) : Except Fault Source :=
  match skipGap s with
  | some ':' :: s => .ok s
  | [] => .error .unfinished
  | _ => .error .malformed

def closeObject (s : Source) : Except Fault Source :=
  match skipGap s with
  | some '\x7d' :: s => .ok s
  | [] => .error .unfinished
  | _ => .error .malformed

end Scan

end ClaimQueue.Json
