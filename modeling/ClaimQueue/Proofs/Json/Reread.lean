import ClaimQueue.Proofs.Json.Doubles
import ClaimQueue.Proofs.Json.Layout

/-! What a written value is read as: itself, as far as its brackets nest no deeper than the reader
goes, but each number as it can be read, and each object with its members in key order. -/

namespace ClaimQueue.Json

open Scan

/-- A number that can be read at all is read the same whatever follows it. -/
def rereadNumber (cs : List Char) : Option Json := (value 0 (source cs)).toOption.map Prod.fst

mutual

def reread : Json → (depth : Nat) → Option Json
  | .null, _ => some .null
  | .bool b, _ => some (.bool b)
  | .int i, _ => rereadNumber (intChars i)
  | .double x, _ => rereadNumber x.chars
  | .string s, _ => some (.string s)
  | .array _, 0 => none
  | .array items, depth + 1 => (rereadItems items depth).map .array
  | .object _, 0 => none
  | .object members, depth + 1 =>
    (rereadMembers members depth).map fun ms => .object (Index.ofList ms)

def rereadItems : List Json → (depth : Nat) → Option (List Json)
  | [], _ => some []
  | item :: rest, depth =>
    (reread item depth).bind fun a => (rereadItems rest depth).map (a :: ·)

def rereadMembers : List (String × Json) → (depth : Nat) → Option (List (String × Json))
  | [], _ => some []
  | (key, item) :: rest, depth =>
    (reread item depth).bind fun a => (rereadMembers rest depth).map ((key, a) :: ·)

end

/-- The first character of a value, which no reader takes for anything else. -/
def Opens (cs : List Char) : Prop :=
  ∃ c rest, cs = c :: rest ∧ isGap (some c) = false ∧ c ≠ ']' ∧ c ≠ ','

theorem Numeral.digit {cs : List Char} (h : Numeral cs) :
    ∃ c rest, cs = c :: rest ∧ c.isDigit = true := by
  obtain ⟨nonempty, digits, -⟩ := h
  obtain ⟨c, rest, rfl⟩ := List.exists_cons_of_ne_nil nonempty
  exact ⟨c, _, rfl, digits c List.mem_cons_self⟩

theorem Numeral.opens {cs : List Char} (h : Numeral cs) : Opens cs := by
  obtain ⟨c, rest, rfl, digit⟩ := Numeral.digit h
  obtain ⟨n, small, rfl⟩ := digitChar_of_isDigit digit
  refine ⟨_, rest, rfl, ?_⟩
  interval_cases n <;> decide

/-- A numeral, or one after a minus sign. -/
def Signed (cs : List Char) : Prop := Numeral cs ∨ ∃ ds, cs = '-' :: ds ∧ Numeral ds

theorem signed_intChars (i : Int) : Signed (intChars i) := by
  rw [intChars_eq]
  split
  · exact .inl (numeral_toDigits _)
  · exact .inr ⟨_, rfl, numeral_toDigits _⟩

theorem signed_double (x : Number.Binary64) : Signed x.chars := by
  unfold Number.Binary64.chars
  split
  · exact .inr ⟨_, rfl, x.numeral_magnitude⟩
  · exact .inl x.numeral_magnitude

theorem Signed.opens {cs : List Char} (h : Signed cs) : Opens cs := by
  rcases h with h | ⟨ds, rfl, -⟩
  · exact Numeral.opens h
  · exact ⟨'-', ds, rfl, by decide⟩

theorem chars_opens (j : Json) : Opens j.chars := by
  match j with
  | .null => exact ⟨'n', _, rfl, by decide⟩
  | .bool true => exact ⟨'t', _, rfl, by decide⟩
  | .bool false => exact ⟨'f', _, rfl, by decide⟩
  | .int i => exact (signed_intChars i).opens
  | .double x => exact (signed_double x).opens
  | .string s => exact ⟨'"', _, rfl, by decide⟩
  | .array items => exact ⟨'[', _, rfl, by decide⟩
  | .object members => exact ⟨'\x7b', _, rfl, by decide⟩

theorem Layout.opens (l : Layout) (level : Nat) (j : Json) : Opens (l.chars level j) := by
  cases j with
  | null | bool | int | double | string =>
    simp only [Layout.chars]
    exact chars_opens _
  | array items => exact ⟨'[', _, rfl, by decide⟩
  | object members => exact ⟨'\x7b', _, rfl, by decide⟩

theorem value_number {cs : List Char} (h : Signed cs) (depth : Nat) {rest : Source}
    (ends : Ends rest) :
    (value depth (source cs ++ rest)).toOption = (rereadNumber cs).map (·, rest) := by
  have settled : ∃ j? : Option Json, ∀ depth rest, Ends rest →
      (value depth (source cs ++ rest)).toOption = j?.map (·, rest) := by
    rcases h with h | ⟨ds, rfl, h⟩
    · obtain ⟨j?, settled⟩ := number_settled false h
      refine ⟨j?, fun depth rest ends => ?_⟩
      rw [← settled rest ends]
      obtain ⟨c, cs, rfl, digit⟩ := Numeral.digit h
      exact congrArg _ (value_of_digit digit depth _)
    · obtain ⟨j?, settled⟩ := number_settled true h
      refine ⟨j?, fun depth rest ends => ?_⟩
      rw [← settled rest ends]
      exact congrArg _ (value_of_minus depth _)
  obtain ⟨j?, settled⟩ := settled
  have alone := settled 0 [] .text
  rw [List.append_nil] at alone
  rw [settled depth rest ends, rereadNumber, alone]
  cases j? <;> rfl

theorem value_of_reads {cs : List Char} {j : Json}
    (reads : ∀ depth, value depth (source cs) = .ok (j, [])) : rereadNumber cs = some j := by
  rw [rereadNumber, reads]
  rfl

/-- An integer of 64 bits, signed or unsigned. -/
def Wide (i : Int) : Prop := -(2 ^ 63) ≤ i ∧ i < 2 ^ 64

instance (i : Int) : Decidable (Wide i) := inferInstanceAs (Decidable (_ ∧ _))

theorem rereadNumber_intChars {i : Int} (wide : Wide i) :
    rereadNumber (intChars i) = some (.int i) := by
  obtain ⟨low, high⟩ := wide
  refine value_of_reads fun depth => ?_
  rw [intChars_eq]
  split
  · rename_i positive
    have read := number_toDigits false (n := i.toNat) (by omega) .text
    rw [List.append_nil] at read
    obtain ⟨c, cs, first, digit⟩ := Numeral.digit (numeral_toDigits i.toNat)
    rw [first] at read ⊢
    rw [source_cons, value_of_digit digit, ← source_cons, read]
    have same : ((i.toNat : Nat) : Int) = i := Int.toNat_of_nonneg positive
    simp [wholeOf, same]
  · rename_i negative
    have read := number_toDigits true (n := (-i).toNat) (by omega) .text
    rw [List.append_nil] at read
    have same : ((-i).toNat : Int) = -i := Int.toNat_of_nonneg (by omega)
    have inside : ¬ ((-i).toNat = 0 ∨ 2 ^ 63 < (-i).toNat) := by omega
    rw [source_cons, value_of_minus, read]
    simp only [wholeOf, if_true, if_neg inside, same, Int.neg_neg]

/-! Items and members, one after the other. -/

theorem skipGap_append {gap : Source} (blank : Blank gap) (s : Source) :
    skipGap (gap ++ s) = skipGap s := by
  induction gap with
  | nil => rfl
  | cons c gap ih =>
    rw [List.cons_append, skipGap, List.dropWhile_cons_of_pos (blank c List.mem_cons_self)]
    exact ih fun d mem => blank d (List.mem_cons_of_mem _ mem)

theorem skipGap_cons {c : Option Char} (h : isGap c = false) (s : Source) :
    skipGap (c :: s) = c :: s := List.dropWhile_cons_of_neg (Bool.eq_false_iff.mp h)

theorem Scan.Ends.after_gap {gap rest : Source} (blank : Blank gap) (ends : Ends rest) :
    Ends (gap ++ rest) := by
  cases gap with
  | nil => exact ends
  | cons c gap => exact .of_gap (blank c List.mem_cons_self) _

theorem joined_ends (pieces : List (List Char)) {rest : Source} (ends : Ends rest) :
    Ends (source (joined false pieces) ++ rest) := by
  cases pieces with
  | nil => exact ends
  | cons a pieces => exact .comma _

theorem value_append {gap : Source} (blank : Blank gap) (depth : Nat) (s : Source) :
    value depth (gap ++ s) = value depth s := by
  rw [value, skipGap_append blank, ← value]

theorem nextItem_lead (first : Bool) {gap : Source} (blank : Blank gap) {cs : List Char}
    (opens : Opens cs) (rest : Source) :
    nextItem first (source (lead first) ++ (gap ++ (source cs ++ rest))) =
      .ok (some (source cs ++ rest)) := by
  obtain ⟨c, cs, rfl, noGap, noBracket, noComma⟩ := opens
  have comma : isGap (some ',') = false := rfl
  cases first with
  | true =>
    simp only [lead, source_nil, List.nil_append, source_cons, List.cons_append, nextItem,
      skipGap_append blank, skipGap_cons noGap, if_true]
    split <;> simp_all
  | false =>
    simp only [lead, Bool.false_eq_true, if_false, source_cons, source_nil, List.cons_append,
      List.nil_append, nextItem, skipGap_cons comma, skipGap_append blank, skipGap_cons noGap]
    split <;> simp_all

theorem nextKey_lead (first : Bool) {gap : Source} (blank : Blank gap) (s : Source) :
    nextKey first (source (lead first) ++ (gap ++ some '"' :: s)) = .ok (some s) := by
  have comma : isGap (some ',') = false := rfl
  cases first with
  | true =>
    rw [nextKey]
    simp only [lead, if_true, source_nil, List.nil_append, skipGap_append blank]
    rfl
  | false =>
    simp only [lead, Bool.false_eq_true, if_false, source_cons, source_nil, List.cons_append,
      List.nil_append, nextKey, skipGap_cons comma, skipGap_append blank]
    rfl

/-- Nothing more before a closing bracket. -/
theorem nextItem_last {gap : Source} (blank : Blank gap) (first : Bool) (rest : Source) :
    nextItem first (gap ++ some ']' :: rest) = .ok none := by
  rw [nextItem, skipGap_append blank]
  rfl

theorem nextKey_last {gap : Source} (blank : Blank gap) (first : Bool) (rest : Source) :
    nextKey first (gap ++ some '\x7d' :: rest) = .ok none := by
  rw [nextKey, skipGap_append blank]
  rfl

theorem closeArray_append {gap : Source} (blank : Blank gap) (rest : Source) :
    closeArray (gap ++ some ']' :: rest) = .ok rest := by
  rw [closeArray, skipGap_append blank]
  rfl

theorem closeObject_append {gap : Source} (blank : Blank gap) (rest : Source) :
    closeObject (gap ++ some '\x7d' :: rest) = .ok rest := by
  rw [closeObject, skipGap_append blank]
  rfl

theorem items_nil {α : Type} (item : Source → Except Fault (Scanned α)) (fuel : Nat) (first : Bool)
    {gap : Source} (blank : Blank gap) (rest : Source) :
    items item (fuel + 1) first (gap ++ some ']' :: rest) = .ok ([], rest) := by
  simp only [items, nextItem_last blank, bind, Except.bind, closeArray_append blank]
  rfl

theorem members_nil {α : Type} (item : Source → Except Fault (Scanned α)) (fuel : Nat)
    (first : Bool) {gap : Source} (blank : Blank gap) (rest : Source) :
    members item (fuel + 1) first (gap ++ some '\x7d' :: rest) = .ok ([], rest) := by
  simp only [members, nextKey_last blank, bind, Except.bind, closeObject_append blank]
  rfl

theorem items_cons {α : Type} (item : Source → Except Fault (Scanned α)) (fuel : Nat) {first : Bool}
    {s t : Source} (next : nextItem first s = .ok (some t)) :
    (items item (fuel + 1) first s).toOption = (item t).toOption.bind fun r =>
      (items item fuel false r.2).toOption.map fun q => (r.1 :: q.1, q.2) := by
  rw [items, next]
  simp only [bind, Except.bind]
  cases item t with
  | error => rfl
  | ok r =>
    simp only [Except.toOption, Option.bind_some]
    cases items item fuel false r.2 <;> rfl

theorem members_cons {α : Type} (item : Source → Except Fault (Scanned α)) (fuel : Nat)
    {first : Bool} {s t : Source} {key : String}
    (next : nextKey first s =
      .ok (some (source (key.toList.flatMap escapedChar) ++ some '"' :: some ':' :: t))) :
    (members item (fuel + 1) first s).toOption = (item t).toOption.bind fun r =>
      (members item fuel false r.2).toOption.map fun q => ((key, r.1) :: q.1, q.2) := by
  have passed : colon (some ':' :: t) = .ok t := rfl
  rw [members, next]
  simp only [bind, Except.bind, string_written, passed]
  cases item t with
  | error => rfl
  | ok r =>
    simp only [Except.toOption, Option.bind_some]
    cases members item fuel false r.2 <;> rfl

/-! The whole value. -/

theorem value_array (depth : Nat) (s : Source) :
    (value (depth + 1) (some '[' :: s)).toOption =
      (Scan.items (value depth) (s.length + 1) true s).toOption.map fun r => (.array r.1, r.2) := by
  rw [value, skipGap_cons rfl]
  simp only [bind, Except.bind]
  cases Scan.items (value depth) (s.length + 1) true s <;> rfl

theorem value_object (depth : Nat) (s : Source) :
    (value (depth + 1) (some '\x7b' :: s)).toOption =
      (Scan.members (value depth) (s.length + 1) true s).toOption.map fun r =>
        (.object (Index.ofList r.1), r.2) := by
  rw [value, skipGap_cons rfl]
  simp only [bind, Except.bind]
  cases Scan.members (value depth) (s.length + 1) true s <;> rfl

mutual

/-- Whatever the layout. -/
theorem value_chars (l : Layout) : (j : Json) → (depth level : Nat) → {rest : Source} → Ends rest →
    (value depth (source (l.chars level j) ++ rest)).toOption = (reread j depth).map (·, rest)
  | .null, _, _, _, _ => by
    rw [value]
    rfl
  | .bool true, _, _, _, _ => by
    rw [value]
    rfl
  | .bool false, _, _, _, _ => by
    rw [value]
    rfl
  | .int i, depth, _, _, ends => value_number (signed_intChars i) depth ends
  | .double x, depth, _, _, ends => value_number (signed_double x) depth ends
  | .string s, depth, _, rest, _ => by
    have read : value depth (source (stringChars s) ++ rest) = .ok (.string s, rest) := by
      rw [source_stringChars, value, skipGap_cons rfl]
      simp only [string_written]
      rfl
    exact congrArg Except.toOption read
  | .array items, depth, level, rest, _ => by
    cases depth with
    | zero =>
      rw [value]
      rfl
    | succ depth =>
      rw [l.source_array, value_array, items_written l items depth (level + 1) _ true
        (l.blank_ending level _) rest (l.length_lt_items ..)]
      simp only [reread]
      cases rereadItems items depth <;> rfl
  | .object members, depth, level, rest, _ => by
    cases depth with
    | zero =>
      rw [value]
      rfl
    | succ depth =>
      rw [l.source_object, value_object, members_written l members depth (level + 1) _
        true (l.blank_ending level _) rest (l.length_lt_members ..)]
      simp only [reread]
      cases rereadMembers members depth <;> rfl

theorem items_written (l : Layout) : (items : List Json) → (depth level fuel : Nat) →
    (first : Bool) → {gap : Source} → Blank gap → (rest : Source) → items.length < fuel →
    (Scan.items (value depth) fuel first
      (source (joined first (l.itemChars level items)) ++ (gap ++ some ']' :: rest))).toOption =
      (rereadItems items depth).map (·, rest)
  | [], depth, _, fuel + 1, first, gap, blank, rest, _ =>
    congrArg Except.toOption (items_nil (value depth) fuel first blank rest)
  | item :: items, depth, level, fuel + 1, first, gap, blank, rest, enough => by
    have next := nextItem_lead first (l.blank_line level) (l.opens level item)
      (source (joined false (l.itemChars level items)) ++ (gap ++ some ']' :: rest))
    have head := value_chars l item depth level
      (joined_ends (l.itemChars level items) (.after_gap blank (.bracket rest)))
    have tail := items_written l items depth level fuel false blank rest
      (Nat.lt_of_succ_lt_succ enough)
    rw [l.source_item, items_cons _ fuel next, head]
    simp only [rereadItems]
    cases reread item depth with
    | none => rfl
    | some a =>
      simp only [Option.map_some, Option.bind_some, tail]
      cases rereadItems items depth <;> rfl

theorem members_written (l : Layout) : (members : List (String × Json)) →
    (depth level fuel : Nat) → (first : Bool) → {gap : Source} → Blank gap → (rest : Source) →
    members.length < fuel →
    (Scan.members (value depth) fuel first
      (source (joined first (l.memberChars level members)) ++
        (gap ++ some '\x7d' :: rest))).toOption =
      (rereadMembers members depth).map (·, rest)
  | [], depth, _, fuel + 1, first, gap, blank, rest, _ =>
    congrArg Except.toOption (members_nil (value depth) fuel first blank rest)
  | (key, item) :: members, depth, level, fuel + 1, first, gap, blank, rest, enough => by
    have ends := joined_ends (l.memberChars level members) (.after_gap blank (.brace rest))
    have tail := members_written l members depth level fuel false blank rest
      (Nat.lt_of_succ_lt_succ enough)
    rw [l.source_member, members_cons _ fuel (nextKey_lead first (l.blank_line level) _),
      value_append l.blank_space, value_chars l item depth level ends]
    simp only [rereadMembers]
    cases reread item depth with
    | none => rfl
    | some a =>
      simp only [Option.map_some, Option.bind_some, tail]
      cases rereadMembers members depth <;> rfl

end

theorem reread_int {i : Int} (wide : Wide i) (depth : Nat) : reread (.int i) depth = some (.int i) :=
  rereadNumber_intChars wide

theorem rereadItems_strings (texts : List String) (depth : Nat) :
    rereadItems (texts.map .string) depth = some (texts.map .string) := by
  induction texts with
  | nil => rfl
  | cons s texts ih => simp [rereadItems, reread, ih]

/-- What a document is read as, in any layout. -/
theorem ofText_chars (l : Layout) (j : Json) :
    (ofText (String.ofList (l.chars 0 j))).toOption = reread j maxNesting := by
  have read := value_chars l j maxNesting 0 .text
  rw [List.append_nil] at read
  rw [ofText, ofSource, sourceOf_ofList, whole, toOption_bind, read]
  cases reread j maxNesting <;> rfl

theorem ofText_compact (j : Json) : (ofText j.compact).toOption = reread j maxNesting := by
  rw [compact, ← Layout.chars_tight j 0]
  exact ofText_chars .tight j

end ClaimQueue.Json
