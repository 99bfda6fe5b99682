import ClaimQueue.Text.Blank
import ClaimQueue.Time.Instant

/-! Timestamps as text. Writing gives `Z` and no, three, six or nine decimals, the fewest that lose
nothing; a year outside 0 to 9999 has a sign. Reading is relaxed: blanks around the parts, a blank
for the `T`, parts of one digit, any number of decimals, and an offset. -/

namespace ClaimQueue.Instant

def padded (width n : Nat) : List Char :=
  let ds := Nat.toDigits 10 n
  List.replicate (width - ds.length) '0' ++ ds

def yearChars (year : Int) : List Char :=
  if 0 ≤ year ∧ year ≤ 9999 then padded 4 year.toNat
  else (if year < 0 then '-' else '+') :: padded 4 year.natAbs

def decimalChars (nano : Nat) : List Char :=
  if nano = 0 then []
  else if nano % 1000000 = 0 then '.' :: padded 3 (nano / 1000000)
  else if nano % 1000 = 0 then '.' :: padded 6 (nano / 1000)
  else '.' :: padded 9 nano

def chars (t : Instant) : List Char :=
  let extra := t.nano / 1000000000
  yearChars t.date.year ++ '-' :: padded 2 t.date.month ++ '-' :: padded 2 t.date.day ++
    'T' :: padded 2 (t.second / 3600) ++ ':' :: padded 2 (t.second / 60 % 60) ++
    ':' :: padded 2 (t.second % 60 + extra) ++ decimalChars (t.nano % 1000000000) ++ ['Z']

def text (t : Instant) : String := String.ofList t.chars

/-! Reading. Every part returns what it read with the rest. -/

def digit? (c : Char) : Option Nat :=
  if '0' ≤ c ∧ c ≤ '9' then some (c.toNat - '0'.toNat) else none

/-- Up to `most` digits, at least one. -/
def readDigits? (most : Nat) (cs : List Char) : Option (Nat × List Char) :=
  let ds := (cs.take most).takeWhile fun c => (digit? c).isSome
  if ds.isEmpty then none
  else some ((ds.filterMap digit?).foldl (fun n d => n * 10 + d) 0, cs.drop ds.length)

def readPart? (most : Nat) (cs : List Char) : Option (Nat × List Char) :=
  readDigits? most (Text.trimStart cs)

/-- A sign allows more than four digits. -/
def readYear? (cs : List Char) : Option (Int × List Char) :=
  match Text.trimStart cs with
  | '-' :: cs => (readDigits? cs.length cs).map fun r => (-(r.1 : Int), r.2)
  | '+' :: cs => (readDigits? cs.length cs).map fun r => ((r.1 : Int), r.2)
  | cs => (readDigits? 4 cs).map fun r => ((r.1 : Int), r.2)

def readMark? (mark : Char) (cs : List Char) : Option (List Char) :=
  match Text.trimStart cs with
  | c :: rest => if c = mark then some rest else none
  | [] => none

def readSeparator? : List Char → Option (List Char)
  | 'T' :: cs | 't' :: cs | ' ' :: cs => some cs
  | _ => none

/-- Decimals past the ninth are dropped. -/
def readDecimals? : List Char → Option (Nat × List Char)
  | '.' :: cs => do
    let (n, rest) ← readDigits? 9 cs
    let count := cs.length - rest.length
    return (n * 10 ^ (9 - count), rest.dropWhile fun c => (digit? c).isSome)
  | cs => some (0, cs)

def isOffsetGap (c : Char) : Bool := c == ':' || Text.isBlank c

/-- Seconds east, from two digits of hours and two of minutes with colons or blanks between. -/
def readHoursMinutes? : List Char → Option (Nat × List Char)
  | a :: b :: cs => do
    let hours := (← digit? a) * 10 + (← digit? b)
    match cs.dropWhile isOffsetGap with
    | c :: d :: rest =>
      let tens ← digit? c
      if 5 < tens then none
      else return (hours * 3600 + (tens * 10 + (← digit? d)) * 60, rest)
    | _ => none
  | _ => none

def readOffset? (cs : List Char) : Option (Int × List Char) :=
  match cs with
  | a :: b :: c :: rest =>
    if a.toLower = 'u' ∧ b.toLower = 't' ∧ c.toLower = 'c' then some (0, rest) else signed cs
  | _ => signed cs
where
  signed : List Char → Option (Int × List Char)
    | 'Z' :: cs | 'z' :: cs => some (0, cs)
    | '+' :: cs => (readHoursMinutes? cs).map fun r => ((r.1 : Int), r.2)
    | '-' :: cs | '\u2212' :: cs => (readHoursMinutes? cs).map fun r => (-(r.1 : Int), r.2)
    | _ => none

/-- A time of day on a date, read `east` seconds east of Greenwich. -/
def ofLocal? (date : Date) (second nano : Nat) (east : Int) : Option Instant := do
  if 86400 ≤ east.natAbs then none
  else
    let utc := (second : Int) - east
    if utc < 0 then of? (← date.previous?) (utc + 86400).toNat nano
    else if 86400 ≤ utc then of? (← date.next?) (utc - 86400).toNat nano
    else of? date utc.toNat nano

def ofChars? (cs : List Char) : Option Instant := do
  let (year, cs) ← readYear? cs
  let cs ← readMark? '-' cs
  let (month, cs) ← readPart? 2 cs
  let cs ← readMark? '-' cs
  let (day, cs) ← readPart? 2 cs
  let cs ← readSeparator? cs
  let (hour, cs) ← readPart? 2 cs
  let cs ← readMark? ':' cs
  let (minute, cs) ← readPart? 2 cs
  let cs ← readMark? ':' cs
  let (second, cs) ← readPart? 2 cs
  let (nano, cs) ← readDecimals? cs
  let (east, cs) ← readOffset? (Text.trimStart cs)
  if ¬ (Text.trimStart cs).isEmpty ∨ 23 < hour ∨ 59 < minute ∨ 60 < second then none
  else
    let date ← Date.of? year month day
    let time := hour * 3600 + minute * 60
    if second = 60 then ofLocal? date (time + 59) (nano + 1000000000) east
    else ofLocal? date (time + second) nano east

def ofText? (s : String) : Option Instant := ofChars? s.toList

end ClaimQueue.Instant
