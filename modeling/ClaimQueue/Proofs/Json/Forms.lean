import ClaimQueue.Proofs.Json.Numbers
import ClaimQueue.Proofs.Json.Layout

/-! Documents by their grammar: where blanks stand, how each character of a string is written, which
digits a number has. Every form has a text. It has a value only as far as its numbers, its
surrogates and its nesting can be held. -/

namespace ClaimQueue.Json

open Scan

/-- Blanks between two tokens. -/
structure Gap where
  chars : List Char
  blank : Blank (source chars)

namespace Gap

def empty : Gap := ⟨[], by unfold Blank; decide⟩

def append (g h : Gap) : Gap where
  chars := g.chars ++ h.chars
  blank c mem := by
    rw [source_append, List.mem_append] at mem
    exact mem.elim (g.blank c) (h.blank c)

end Gap

/-- A character of a string: as it is, after a backslash, or by four digits. -/
inductive Glyph where
  | plain (c : Char) (fits : ¬ c < ' ' ∧ c ≠ '"' ∧ c ≠ '\\')
  | short (mark c : Char) (marks : escaped? mark = some c)
  | coded (a b c d : Char) (unit : Nat)
    (codes : hex4? (some a) (some b) (some c) (some d) = some unit)

namespace Glyph

def chars : Glyph → List Char
  | .plain c _ => [c]
  | .short mark _ _ => ['\\', mark]
  | .coded a b c d _ _ => ['\\', 'u', a, b, c, d]

/-- The characters of a string between the quotes; none, if a surrogate is not one of a pair. -/
def decode? : List Glyph → Option (List Char)
  | [] => some []
  | .plain c _ :: rest | .short _ c _ :: rest => (decode? rest).map (c :: ·)
  | .coded _ _ _ _ unit _ :: rest =>
    if isLowSurrogate unit then none
    else if isHighSurrogate unit then
      match rest with
      | .coded _ _ _ _ second _ :: rest =>
        if isLowSurrogate second then (decode? rest).map (pairOf unit second :: ·) else none
      | _ => none
    else (decode? rest).map (Char.ofNat unit :: ·)

/-- A string with its quotes. -/
def quoted (gs : List Glyph) : List Char := '"' :: (gs.flatMap chars ++ ['"'])

end Glyph

/-- At least one digit. -/
structure Digits where
  chars : List Char
  nonempty : chars ≠ []
  digits : ∀ c ∈ chars, c.isDigit = true

/-- The power of ten of a number. -/
structure Exponent where
  mark : Char
  marks : mark = 'e' ∨ mark = 'E'
  sign : List Char
  signs : sign = [] ∨ sign = ['+'] ∨ sign = ['-']
  digits : Digits

def Exponent.chars (e : Exponent) : List Char := e.mark :: (e.sign ++ e.digits.chars)

/-- A number. A leading zero stands alone. -/
structure Figure where
  negative : Bool
  whole : Digits
  leading : ∀ more, whole.chars = '0' :: more → more = []
  fraction : Option Digits
  exponent : Option Exponent

namespace Figure

def fractionChars : Option Digits → List Char
  | none => []
  | some ds => '.' :: ds.chars

def exponentChars : Option Exponent → List Char
  | none => []
  | some e => e.chars

/-- The number without its sign. -/
def magnitude (n : Figure) : List Char :=
  n.whole.chars ++ (fractionChars n.fraction ++ exponentChars n.exponent)

def chars (n : Figure) : List Char := if n.negative then '-' :: n.magnitude else n.magnitude

/-- What is read of the number where nothing follows it; none, if it is too large. -/
def value? (n : Figure) : Option Json :=
  (number n.negative (source n.magnitude)).toOption.map Prod.fst

end Figure

/-- An item of an array, with blanks around it. -/
structure Item (α : Type) where
  before : Gap
  content : α
  after : Gap

/-- A member of an object, with blanks around each token. -/
structure Member (α : Type) where
  before : Gap
  key : List Glyph
  behind : Gap
  ahead : Gap
  content : α
  after : Gap

/-- The key that is written. -/
def Member.name? {α : Type} (m : Member α) : Option String :=
  (Glyph.decode? m.key).map String.ofList

/-- A value by its grammar. Blanks that follow an opening bracket stand apart from those before the
first item, for where there is none. -/
inductive Form where
  | null
  | bool (b : Bool)
  | number (n : Figure)
  | string (gs : List Glyph)
  | array (inner : Gap) (items : List (Item Form))
  | object (inner : Gap) (members : List (Member Form))

namespace Form

mutual

def chars : Form → List Char
  | .null => ['n', 'u', 'l', 'l']
  | .bool true => ['t', 'r', 'u', 'e']
  | .bool false => ['f', 'a', 'l', 's', 'e']
  | .number n => n.chars
  | .string gs => Glyph.quoted gs
  | .array inner items => '[' :: (inner.chars ++ (joined true (itemChars items) ++ [']']))
  | .object inner members =>
    '\x7b' :: (inner.chars ++ (joined true (memberChars members) ++ ['\x7d']))

def itemChars : List (Item Form) → List (List Char)
  | [] => []
  | ⟨before, content, after⟩ :: rest =>
    (before.chars ++ (chars content ++ after.chars)) :: itemChars rest

def memberChars : List (Member Form) → List (List Char)
  | [] => []
  | ⟨before, key, behind, ahead, content, after⟩ :: rest =>
    (before.chars ++ (Glyph.quoted key ++ (behind.chars ++
      ':' :: (ahead.chars ++ (chars content ++ after.chars))))) :: memberChars rest

end

mutual

/-- The value a form stands for, where at most `depth` brackets may be open. -/
def value? : Form → (depth : Nat) → Option Json
  | .null, _ => some .null
  | .bool b, _ => some (.bool b)
  | .number n, _ => n.value?
  | .string gs, _ => (Glyph.decode? gs).map fun cs => .string (String.ofList cs)
  | .array _ _, 0 | .object _ _, 0 => none
  | .array _ items, depth + 1 => (items? items depth).map .array
  | .object _ members, depth + 1 =>
    (entries? members depth).map fun entries => .object (Index.ofList entries)

def items? : List (Item Form) → (depth : Nat) → Option (List Json)
  | [], _ => some []
  | ⟨_, content, _⟩ :: rest, depth =>
    (value? content depth).bind fun a => (items? rest depth).map (a :: ·)

/-- The members of an object, in the order of the text. -/
def entries? : List (Member Form) → (depth : Nat) → Option (List (String × Json))
  | [], _ => some []
  | ⟨_, key, _, _, content, _⟩ :: rest, depth =>
    ((Glyph.decode? key).map String.ofList).bind fun name =>
      (value? content depth).bind fun a => (entries? rest depth).map ((name, a) :: ·)

end

mutual

/-- How many brackets are open at the deepest place. -/
def nesting : Form → Nat
  | .array _ items => nestingItems items + 1
  | .object _ members => nestingMembers members + 1
  | _ => 0

def nestingItems : List (Item Form) → Nat
  | [] => 0
  | ⟨_, content, _⟩ :: rest => max (nesting content) (nestingItems rest)

def nestingMembers : List (Member Form) → Nat
  | [] => 0
  | ⟨_, _, _, _, content, _⟩ :: rest => max (nesting content) (nestingMembers rest)

end

mutual

/-- No number is too large, and every surrogate is one of a pair. -/
def Sound : Form → Prop
  | .null | .bool _ => True
  | .number n => n.value?.isSome
  | .string gs => (Glyph.decode? gs).isSome
  | .array _ items => SoundItems items
  | .object _ members => SoundMembers members

def SoundItems : List (Item Form) → Prop
  | [] => True
  | ⟨_, content, _⟩ :: rest => Sound content ∧ SoundItems rest

def SoundMembers : List (Member Form) → Prop
  | [] => True
  | ⟨_, key, _, _, content, _⟩ :: rest =>
    (Glyph.decode? key).isSome ∧ Sound content ∧ SoundMembers rest

end

mutual

theorem isSome_value?_iff : (f : Form) → (depth : Nat) →
    ((f.value? depth).isSome ↔ f.Sound ∧ f.nesting ≤ depth)
  | .null, depth => by simp [value?, Sound, nesting]
  | .bool b, depth => by simp [value?, Sound, nesting]
  | .number n, depth => by simp [value?, Sound, nesting]
  | .string gs, depth => by simp [value?, Sound, nesting]
  | .array _ items, 0 => by simp [value?, nesting]
  | .array _ items, depth + 1 => by
    rw [value?, Option.isSome_map, isSome_items?_iff items depth, Sound, nesting,
      Nat.add_le_add_iff_right]
  | .object _ members, 0 => by simp [value?, nesting]
  | .object _ members, depth + 1 => by
    rw [value?, Option.isSome_map, isSome_entries?_iff members depth, Sound, nesting,
      Nat.add_le_add_iff_right]

theorem isSome_items?_iff : (items : List (Item Form)) → (depth : Nat) →
    ((items? items depth).isSome ↔ SoundItems items ∧ nestingItems items ≤ depth)
  | [], depth => by simp [items?, SoundItems, nestingItems]
  | ⟨before, content, after⟩ :: items, depth => by
    have head := isSome_value?_iff content depth
    have tail := isSome_items?_iff items depth
    rw [items?, SoundItems, nestingItems, Nat.max_le, and_and_and_comm, ← head, ← tail]
    cases value? content depth <;> simp

theorem isSome_entries?_iff : (members : List (Member Form)) → (depth : Nat) →
    ((entries? members depth).isSome ↔ SoundMembers members ∧ nestingMembers members ≤ depth)
  | [], depth => by simp [entries?, SoundMembers, nestingMembers]
  | ⟨before, key, behind, ahead, content, after⟩ :: members, depth => by
    have head := isSome_value?_iff content depth
    have tail := isSome_entries?_iff members depth
    rw [entries?, SoundMembers, nestingMembers, Nat.max_le, and_assoc, and_and_and_comm, ← head,
      ← tail]
    cases Glyph.decode? key with
    | none => simp
    | some cs => cases value? content depth <;> simp

end

end Form

end ClaimQueue.Json
