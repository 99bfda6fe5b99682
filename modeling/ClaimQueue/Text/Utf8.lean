import ClaimQueue.Number.Power

/-! UTF-8 over lists of bytes. `encode` writes characters, `units` reads bytes one character at a
time and keeps a byte that belongs to no character as `none`, and `lossy` reads with a replacement
character for each broken sequence. -/

namespace ClaimQueue.Text.Utf8

/-- The bytes of one character, shortest form. -/
def encodeChar (c : Char) : List UInt8 :=
  let n := c.toNat
  let low (k : Nat) : UInt8 := .ofNat (0x80 + n / 64 ^ k % 64)
  if n < 0x80 then [.ofNat n]
  else if n < 0x800 then [.ofNat (0xC0 + n / 64), low 0]
  else if n < 0x10000 then [.ofNat (0xE0 + n / 64 ^ 2), low 1, low 0]
  else [.ofNat (0xF0 + n / 64 ^ 3), low 2, low 1, low 0]

def encode (cs : List Char) : List UInt8 := cs.flatMap encodeChar

def bytes (s : String) : List UInt8 := encode s.toList

/-- How many bytes follow the first byte of a sequence, and between which two values the second
byte lies: the bounds keep out overlong forms, surrogates and numbers past the last character. -/
def lead (b : UInt8) : Option (Nat × UInt8 × UInt8) :=
  if b < 0x80 then some (0, 0, 0)
  else if b < 0xC2 then none
  else if b < 0xE0 then some (1, 0x80, 0xBF)
  else if b == 0xE0 then some (2, 0xA0, 0xBF)
  else if b == 0xED then some (2, 0x80, 0x9F)
  else if b < 0xF0 then some (2, 0x80, 0xBF)
  else if b == 0xF0 then some (3, 0x90, 0xBF)
  else if b < 0xF4 then some (3, 0x80, 0xBF)
  else if b == 0xF4 then some (3, 0x80, 0x8F)
  else none

def isTail (b : UInt8) : Bool := 0x80 ≤ b && b ≤ 0xBF

def tailBits (b : UInt8) : Nat := b.toNat % 64

/-- The bytes of `rest` that continue the sequence begun by a byte with `lead` data. -/
def continuation (count : Nat) (low high : UInt8) : List UInt8 → List UInt8
  | [] => []
  | b :: rest =>
    if count = 0 then []
    else if low ≤ b && b ≤ high then b :: (rest.take (count - 1)).takeWhile isTail
    else []

/-- The character at the front of a byte list and the number of bytes after its first. -/
def first? (b : UInt8) (rest : List UInt8) : Option (Char × Nat) :=
  match lead b with
  | none => none
  | some (count, low, high) =>
    let tail := continuation count low high rest
    if tail.length < count then none
    else
      let top := if count = 0 then b.toNat else b.toNat % 2 ^ (6 - count)
      some (Char.ofNat (tail.foldl (fun n t => n * 64 + tailBits t) top), count)

/-- `pending` counts the bytes still to pass over that belong to the character before them. -/
def unitsAfter (pending : Nat) : List UInt8 → List (Option Char)
  | [] => []
  | b :: rest =>
    match pending with
    | pending + 1 => unitsAfter pending rest
    | 0 =>
      match first? b rest with
      | none => none :: unitsAfter 0 rest
      | some (c, n) => some c :: unitsAfter n rest

def units : List UInt8 → List (Option Char) := unitsAfter 0

def decode? (bytes : List UInt8) : Option (List Char) :=
  (units bytes).mapM id

def text? (bytes : List UInt8) : Option String :=
  (decode? bytes).map String.ofList

def lossyAfter (pending : Nat) : List UInt8 → List Char
  | [] => []
  | b :: rest =>
    match pending with
    | pending + 1 => lossyAfter pending rest
    | 0 =>
      match first? b rest with
      | some (c, n) => c :: lossyAfter n rest
      | none =>
        match lead b with
        | none => '\uFFFD' :: lossyAfter 0 rest
        | some (count, low, high) =>
          '\uFFFD' :: lossyAfter (continuation count low high rest).length rest

/-- Reads every byte list: the longest start of a sequence that cannot be finished, and any other
byte out of place, becomes one U+FFFD. -/
def lossy : List UInt8 → List Char := lossyAfter 0

end ClaimQueue.Text.Utf8
