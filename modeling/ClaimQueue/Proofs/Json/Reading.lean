import ClaimQueue.Proofs.Json.Tokens

/-! Values by their grammar. Whatever follows a form, it is read as the value it stands for, and is
malformed if it stands for none. Passing over it succeeds in either case. -/

namespace ClaimQueue.Json

open Scan

/-- How a number begins: with its sign, or with a digit. -/
theorem Figure.first (n : Figure) :
    (n.negative = true ∧ n.chars = '-' :: n.magnitude) ∨
      n.negative = false ∧ ∃ c cs, c.isDigit = true ∧ n.magnitude = c :: cs ∧ n.chars = c :: cs := by
  rw [Figure.chars]
  cases n.negative with
  | true => exact .inl ⟨rfl, rfl⟩
  | false =>
    obtain ⟨c, cs, first⟩ := List.exists_cons_of_ne_nil n.whole.nonempty
    have digit := n.whole.digits c (first ▸ List.mem_cons_self)
    have magnitude : n.magnitude = c :: (cs ++ (fractionChars n.fraction ++
        exponentChars n.exponent)) := by
      rw [Figure.magnitude, first, List.cons_append]
    exact .inr ⟨rfl, c, _, digit, magnitude, (if_neg Bool.false_ne_true).trans magnitude⟩

/-- How the kinds of values are told apart. -/
def Form.Begins : Form → Char → Prop
  | .null, c => c = 'n'
  | .bool true, c => c = 't'
  | .bool false, c => c = 'f'
  | .number _, c => c = '-' ∨ c.isDigit = true
  | .string _, c => c = '"'
  | .array _ _, c => c = '['
  | .object _ _, c => c = '\x7b'

theorem Form.begins (f : Form) : ∃ c cs, f.chars = c :: cs ∧ f.Begins c := by
  match f with
  | .null | .bool true | .bool false | .string _ | .array _ _ | .object _ _ => exact ⟨_, _, rfl, rfl⟩
  | .number n =>
    obtain ⟨-, same⟩ | ⟨-, c, cs, digit, -, same⟩ := n.first
    · exact ⟨'-', _, same, .inl rfl⟩
    · exact ⟨c, cs, same, .inr digit⟩

theorem Form.opens (f : Form) : Opens f.chars := by
  obtain ⟨c, cs, same, begins⟩ := f.begins
  refine ⟨c, cs, same, ?_⟩
  match f, begins with
  | .null, rfl | .bool true, rfl | .bool false, rfl | .string _, rfl | .array _ _, rfl
  | .object _ _, rfl => decide
  | .number n, .inl rfl => decide
  | .number n, .inr digit =>
    obtain ⟨k, small, rfl⟩ := digitChar_of_isDigit digit
    interval_cases k <;> decide

/-! What stands between the values. -/

theorem nextItem_append {gap : Source} (blank : Blank gap) (first : Bool) (s : Source) :
    nextItem first (gap ++ s) = nextItem first s := by
  rw [nextItem, skipGap_append blank, ← nextItem]

theorem nextKey_append {gap : Source} (blank : Blank gap) (first : Bool) (s : Source) :
    nextKey first (gap ++ s) = nextKey first s := by
  rw [nextKey, skipGap_append blank, ← nextKey]

theorem colon_append {gap : Source} (blank : Blank gap) (s : Source) :
    colon (gap ++ some ':' :: s) = .ok s := by
  rw [colon, skipGap_append blank]
  rfl

namespace Form

theorem source_item (item : Item Form) (rest : List (Item Form)) (first : Bool) (s : Source) :
    source (joined first (itemChars (item :: rest))) ++ s =
      source (lead first) ++ (source item.before.chars ++ (source item.content.chars ++
        (source item.after.chars ++ (source (joined false (itemChars rest)) ++ s)))) := by
  simp [itemChars, joined]

/-- A member after its opening quote. -/
def memberSource (m : Member Form) (s : Source) : Source :=
  source (m.key.flatMap Glyph.chars) ++ some '"' :: (source m.behind.chars ++
    some ':' :: (source m.ahead.chars ++ (source m.content.chars ++ (source m.after.chars ++ s))))

theorem source_member (m : Member Form) (rest : List (Member Form)) (first : Bool) (s : Source) :
    source (joined first (memberChars (m :: rest))) ++ s =
      source (lead first) ++ (source m.before.chars ++
        some '"' :: memberSource m (source (joined false (memberChars rest)) ++ s)) := by
  simp [memberChars, memberSource, Glyph.quoted, joined]

theorem source_array (inner : Gap) (items : List (Item Form)) (s : Source) :
    source (Form.array inner items).chars ++ s = some '[' :: (source inner.chars ++
      (source (joined true (itemChars items)) ++ some ']' :: s)) := by
  simp [chars]

theorem source_object (inner : Gap) (members : List (Member Form)) (s : Source) :
    source (Form.object inner members).chars ++ s = some '\x7b' :: (source inner.chars ++
      (source (joined true (memberChars members)) ++ some '\x7d' :: s)) := by
  simp [chars]

theorem nextItem_item (item : Item Form) (rest : List (Item Form)) (first : Bool) {gap : Source}
    (blank : Blank gap) (s : Source) :
    nextItem first (gap ++ (source (joined first (itemChars (item :: rest))) ++ s)) =
      .ok (some (source item.content.chars ++
        (source item.after.chars ++ (source (joined false (itemChars rest)) ++ s)))) := by
  rw [nextItem_append blank, source_item]
  exact nextItem_lead first item.before.blank item.content.opens _

theorem nextKey_member (m : Member Form) (rest : List (Member Form)) (first : Bool) {gap : Source}
    (blank : Blank gap) (s : Source) :
    nextKey first (gap ++ (source (joined first (memberChars (m :: rest))) ++ s)) =
      .ok (some (memberSource m (source (joined false (memberChars rest)) ++ s))) := by
  rw [nextKey_append blank, source_member]
  exact nextKey_lead first m.before.blank _

end Form

/-! Values. -/

theorem value_number_form (n : Figure) (depth : Nat) {rest : Source} (ends : Ends rest) :
    value depth (source n.chars ++ rest) = settled (legible n.value?) rest := by
  rw [← number_magnitude n ends]
  obtain ⟨negative, same⟩ | ⟨negative, c, cs, digit, magnitude, same⟩ := n.first
  · rw [negative, same]
    exact value_of_minus depth _
  · rw [negative, magnitude, same]
    exact value_of_digit digit depth _

/-- A string with its opening quote apart. -/
theorem source_quoted (gs : List Glyph) (rest : Source) : source (Glyph.quoted gs) ++ rest =
    some '"' :: (source (gs.flatMap Glyph.chars) ++ some '"' :: rest) := by
  simp [Glyph.quoted]

theorem value_string_form (gs : List Glyph) (depth : Nat) (rest : Source) :
    value depth (source (Glyph.quoted gs) ++ rest) =
      settled (legible ((Glyph.decode? gs).map fun cs => .string (String.ofList cs))) rest := by
  rw [source_quoted, value, skipGap_cons rfl]
  simp only [string_glyphs]
  cases Glyph.decode? gs <;> rfl

theorem value_open_array (depth : Nat) (s : Source) :
    value (depth + 1) (some '[' :: s) =
      (Scan.items (value depth) (s.length + 1) true s).map fun r => (.array r.1, r.2) := by
  rw [value, skipGap_cons rfl]
  simp only [bind, Except.bind]
  cases Scan.items (value depth) (s.length + 1) true s <;> rfl

theorem value_open_object (depth : Nat) (s : Source) :
    value (depth + 1) (some '\x7b' :: s) =
      (Scan.members (value depth) (s.length + 1) true s).map fun r =>
        (.object (Index.ofList r.1), r.2) := by
  rw [value, skipGap_cons rfl]
  simp only [bind, Except.bind]
  cases Scan.members (value depth) (s.length + 1) true s <;> rfl

theorem items_step {α : Type} (item : Source → Except Fault (Scanned α)) (fuel : Nat) {first : Bool}
    {s t : Source} (next : nextItem first s = .ok (some t)) :
    items item (fuel + 1) first s = (item t).bind fun r =>
      (items item fuel false r.2).map fun q => (r.1 :: q.1, q.2) := by
  rw [items, next]
  rfl

theorem members_step {α : Type} (item : Source → Except Fault (Scanned α)) (fuel : Nat)
    {first : Bool} {s t : Source} (next : nextKey first s = .ok (some t)) :
    members item (fuel + 1) first s = (Scan.string t).bind fun k => (colon k.2).bind fun u =>
      (item u).bind fun r => (members item fuel false r.2).map fun q => ((k.1, r.1) :: q.1, q.2) := by
  rw [members, next]
  rfl

/-- The key of a member, up to its value. -/
theorem members_member {α : Type} (item : Source → Except Fault (Scanned α)) (fuel : Nat)
    {first : Bool} {s t : Source} (m : Member Form)
    (next : nextKey first s = .ok (some (Form.memberSource m t))) :
    members item (fuel + 1) first s = (legible m.name?).bind fun name =>
      (item (source m.ahead.chars ++ (source m.content.chars ++ (source m.after.chars ++ t)))).bind
        fun r => (members item fuel false r.2).map fun q => ((name, r.1) :: q.1, q.2) := by
  rw [members_step item fuel next, Form.memberSource, string_glyphs, Member.name?]
  cases Glyph.decode? m.key with
  | none => rfl
  | some cs =>
    show (colon _).bind _ = _
    rw [colon_append m.behind.blank]
    rfl

namespace Form

theorem ends_after (gap : Gap) (pieces : List (List Char)) {rest : Source} (ends : Ends rest) :
    Ends (source gap.chars ++ (source (joined false pieces) ++ rest)) :=
  .after_gap gap.blank (joined_ends pieces ends)

theorem length_lt_fuel (gap : Source) (pieces : List (List Char)) (c : Option Char) (rest : Source) :
    pieces.length < (gap ++ (source (joined true pieces) ++ c :: rest)).length + 1 := by
  have := length_le_joined true pieces
  simp only [List.length_append, source, List.length_map, List.length_cons]
  omega

theorem length_itemChars (items : List (Item Form)) : (itemChars items).length = items.length := by
  induction items with
  | nil => rfl
  | cons item items ih => rw [itemChars, List.length_cons, List.length_cons, ih]

theorem length_memberChars (members : List (Member Form)) :
    (memberChars members).length = members.length := by
  induction members with
  | nil => rfl
  | cons m members ih => rw [memberChars, List.length_cons, List.length_cons, ih]

mutual

/-- A form is read as what it stands for, and up to its end. -/
theorem value_chars : (f : Form) → (depth : Nat) → {rest : Source} → Ends rest →
    Scan.value depth (source f.chars ++ rest) = settled (legible (f.value? depth)) rest
  | .null, _, _, _ => by
    rw [Scan.value]
    rfl
  | .bool true, _, _, _ => by
    rw [Scan.value]
    rfl
  | .bool false, _, _, _ => by
    rw [Scan.value]
    rfl
  | .number n, depth, _, ends => value_number_form n depth ends
  | .string gs, depth, rest, _ => value_string_form gs depth rest
  | .array inner items, 0, rest, _ => by
    rw [source_array, Scan.value]
    rfl
  | .array inner items, depth + 1, rest, _ => by
    rw [source_array, value_open_array, items_chars items depth _ true inner.blank rest
      (length_itemChars items ▸ length_lt_fuel _ _ _ _), value?]
    cases items? items depth <;> rfl
  | .object inner members, 0, rest, _ => by
    rw [source_object, Scan.value]
    rfl
  | .object inner members, depth + 1, rest, _ => by
    rw [source_object, value_open_object, members_chars members depth _ true inner.blank rest
      (length_memberChars members ▸ length_lt_fuel _ _ _ _), value?]
    cases entries? members depth <;> rfl

theorem items_chars : (items : List (Item Form)) → (depth fuel : Nat) → (first : Bool) →
    {gap : Source} → Blank gap → (rest : Source) → items.length < fuel →
    Scan.items (Scan.value depth) fuel first
      (gap ++ (source (joined first (itemChars items)) ++ some ']' :: rest)) =
      settled (legible (items? items depth)) rest
  | [], depth, fuel + 1, first, gap, blank, rest, _ =>
    items_nil (Scan.value depth) fuel first blank rest
  | ⟨before, content, after⟩ :: items, depth, fuel + 1, first, gap, blank, rest, enough => by
    have next := nextItem_item ⟨before, content, after⟩ items first blank (some ']' :: rest)
    have head := value_chars content depth (ends_after after (itemChars items) (.bracket rest))
    have tail := items_chars items depth fuel false after.blank rest (Nat.lt_of_succ_lt_succ enough)
    rw [items_step _ fuel next, head, items?]
    cases value? content depth with
    | none => rfl
    | some a =>
      show (Except.map _ (Scan.items _ _ _ _)) = _
      rw [tail]
      cases items? items depth <;> rfl

theorem members_chars : (members : List (Member Form)) → (depth fuel : Nat) → (first : Bool) →
    {gap : Source} → Blank gap → (rest : Source) → members.length < fuel →
    Scan.members (Scan.value depth) fuel first
      (gap ++ (source (joined first (memberChars members)) ++ some '\x7d' :: rest)) =
      settled (legible (entries? members depth)) rest
  | [], depth, fuel + 1, first, gap, blank, rest, _ =>
    members_nil (Scan.value depth) fuel first blank rest
  | ⟨before, key, behind, ahead, content, after⟩ :: members, depth, fuel + 1, first, gap, blank,
      rest, enough => by
    have next := nextKey_member ⟨before, key, behind, ahead, content, after⟩ members first blank
      (some '\x7d' :: rest)
    have head := value_chars content depth (ends_after after (memberChars members) (.brace rest))
    have tail := members_chars members depth fuel false after.blank rest
      (Nat.lt_of_succ_lt_succ enough)
    rw [members_member _ fuel _ next, value_append ahead.blank, head, entries?, Member.name?]
    cases (Glyph.decode? key).map String.ofList with
    | none => rfl
    | some name =>
      cases value? content depth with
      | none => rfl
      | some a =>
        show (Except.map _ (Scan.members _ _ _ _)) = _
        rw [tail]
        cases entries? members depth <;> rfl

end

end Form

/-! Values that are passed over. -/

theorem passValue_append {gap : Source} (blank : Blank gap) (depth : Nat) (s : Source) :
    passValue depth (gap ++ s) = passValue depth s := by
  rw [passValue, skipGap_append blank, ← passValue]

theorem passValue_of_digit {c : Char} (h : c.isDigit = true) (depth : Nat) (s : Source) :
    passValue depth (some c :: s) = passNumber (some c :: s) := by
  obtain ⟨n, small, rfl⟩ := digitChar_of_isDigit h
  rw [passValue]
  interval_cases n <;> rfl

theorem passValue_number_form (n : Figure) (depth : Nat) {rest : Source} (ends : Ends rest) :
    passValue depth (source n.chars ++ rest) = .ok rest := by
  rw [← passNumber_magnitude n ends]
  obtain ⟨-, same⟩ | ⟨-, c, cs, digit, magnitude, same⟩ := n.first
  · rw [same, source_cons, List.cons_append, passValue]
    rfl
  · rw [magnitude, same]
    exact passValue_of_digit digit depth _

theorem passItems_nil (item : Source → Except Fault Source) (fuel : Nat) (first : Bool)
    {gap : Source} (blank : Blank gap) (rest : Source) :
    passItems item (fuel + 1) first (gap ++ some ']' :: rest) = .ok rest := by
  rw [passItems, nextItem_last blank]
  exact closeArray_append blank rest

theorem passMembers_nil (item : Source → Except Fault Source) (fuel : Nat) (first : Bool)
    {gap : Source} (blank : Blank gap) (rest : Source) :
    passMembers item (fuel + 1) first (gap ++ some '\x7d' :: rest) = .ok rest := by
  rw [passMembers, nextKey_last blank]
  exact closeObject_append blank rest

theorem passItems_step {item : Source → Except Fault Source} (fuel : Nat) {first : Bool}
    {s t u : Source} (next : nextItem first s = .ok (some t)) (passed : item t = .ok u) :
    passItems item (fuel + 1) first s = passItems item fuel false u := by
  rw [passItems, next]
  show (item t).bind _ = _
  rw [passed]
  rfl

theorem passMembers_step {item : Source → Except Fault Source} (fuel : Nat) {first : Bool}
    {s t u : Source} (m : Member Form) (next : nextKey first s = .ok (some (Form.memberSource m t)))
    (passed : item (source m.ahead.chars ++ (source m.content.chars ++
      (source m.after.chars ++ t))) = .ok u) :
    passMembers item (fuel + 1) first s = passMembers item fuel false u := by
  rw [passMembers, next]
  show (passString _).bind _ = _
  rw [Form.memberSource, passString_glyphs]
  show (colon _).bind _ = _
  rw [colon_append m.behind.blank]
  show (item _).bind _ = _
  rw [passed]
  rfl

namespace Form

mutual

/-- Every form can be passed over, whether or not it has a value. Each bracket is a character, so
the length of its text is depth enough. -/
theorem pass_chars : (f : Form) → (depth : Nat) → {rest : Source} → Ends rest →
    f.chars.length ≤ depth → passValue depth (source f.chars ++ rest) = .ok rest
  | .null, _, _, _, _ => by
    rw [passValue]
    rfl
  | .bool true, _, _, _, _ => by
    rw [passValue]
    rfl
  | .bool false, _, _, _, _ => by
    rw [passValue]
    rfl
  | .number n, depth, _, ends, _ => passValue_number_form n depth ends
  | .string gs, depth, rest, _, _ => by
    rw [chars, source_quoted, passValue, skipGap_cons rfl]
    exact passString_glyphs gs rest
  | .array inner items, 0, _, _, enough => by simp [chars] at enough
  | .array inner items, depth + 1, rest, _, enough => by
    have inside : (joined true (itemChars items)).length ≤ depth := by
      simp only [chars, List.length_cons, List.length_append] at enough
      omega
    rw [source_array, passValue, skipGap_cons rfl]
    exact pass_items items depth _ true inner.blank rest
      (length_itemChars items ▸ length_lt_fuel _ _ _ _) inside
  | .object inner members, 0, _, _, enough => by simp [chars] at enough
  | .object inner members, depth + 1, rest, _, enough => by
    have inside : (joined true (memberChars members)).length ≤ depth := by
      simp only [chars, List.length_cons, List.length_append] at enough
      omega
    rw [source_object, passValue, skipGap_cons rfl]
    exact pass_members members depth _ true inner.blank rest
      (length_memberChars members ▸ length_lt_fuel _ _ _ _) inside

theorem pass_items : (items : List (Item Form)) → (depth fuel : Nat) → (first : Bool) →
    {gap : Source} → Blank gap → (rest : Source) → items.length < fuel →
    (joined first (itemChars items)).length ≤ depth →
    passItems (passValue depth) fuel first
      (gap ++ (source (joined first (itemChars items)) ++ some ']' :: rest)) = .ok rest
  | [], depth, fuel + 1, first, gap, blank, rest, _, _ =>
    passItems_nil (passValue depth) fuel first blank rest
  | ⟨before, content, after⟩ :: items, depth, fuel + 1, first, gap, blank, rest, enough, deep => by
    simp only [itemChars, joined, List.length_append] at deep
    have next := nextItem_item ⟨before, content, after⟩ items first blank (some ']' :: rest)
    have head := pass_chars content depth (ends_after after (itemChars items) (.bracket rest))
      (by omega)
    rw [passItems_step fuel next head]
    exact pass_items items depth fuel false after.blank rest (Nat.lt_of_succ_lt_succ enough)
      (by omega)

theorem pass_members : (members : List (Member Form)) → (depth fuel : Nat) → (first : Bool) →
    {gap : Source} → Blank gap → (rest : Source) → members.length < fuel →
    (joined first (memberChars members)).length ≤ depth →
    passMembers (passValue depth) fuel first
      (gap ++ (source (joined first (memberChars members)) ++ some '\x7d' :: rest)) = .ok rest
  | [], depth, fuel + 1, first, gap, blank, rest, _, _ =>
    passMembers_nil (passValue depth) fuel first blank rest
  | ⟨before, key, behind, ahead, content, after⟩ :: members, depth, fuel + 1, first, gap, blank,
      rest, enough, deep => by
    simp only [memberChars, joined, List.length_append, List.length_cons] at deep
    have next := nextKey_member ⟨before, key, behind, ahead, content, after⟩ members first blank
      (some '\x7d' :: rest)
    have head := pass_chars content depth (ends_after after (memberChars members) (.brace rest))
      (by omega)
    rw [passMembers_step fuel _ next ((passValue_append ahead.blank depth _).trans head)]
    exact pass_members members depth fuel false after.blank rest (Nat.lt_of_succ_lt_succ enough)
      (by omega)

end

/-- Passing over a value that has blanks in front of it. -/
theorem pass_form (gap : Gap) (f : Form) {rest : Source} (ends : Ends rest) :
    Scan.pass (source gap.chars ++ (source f.chars ++ rest)) = .ok rest := by
  rw [Scan.pass, passValue_append gap.blank]
  refine pass_chars f _ ends ?_
  simp only [List.length_append, source, List.length_map]
  omega

end Form

end ClaimQueue.Json
