import ClaimQueue.Proofs.Json.Grammar
import ClaimQueue.Proofs.Json.Legible

/-! Which texts are read, and as what. A scanner that interprets a token stops where the one that
passes over it does, so what is read is a form, and the form has the value that was read. -/

namespace ClaimQueue.Json

open Scan

/-- Whatever is read is passed over up to the same place. -/
def Follows {α : Type} (pass : Source → Except Fault Source)
    (scan : Source → Except Fault (Scanned α)) : Prop :=
  ∀ {s : Source} {a : α} {r : Source}, scan s = .ok (a, r) → pass s = .ok r

namespace Scan

theorem consChar_eq_ok {c : Char} {x : Except Fault (Scanned (List Char))} {cs : List Char}
    {r : Source} (h : consChar c x = .ok (cs, r)) : ∃ more, x = .ok (more, r) := by
  cases x with
  | error => cases h
  | ok read =>
    cases h
    exact ⟨read.1, rfl⟩

theorem passString_coded {a b c d : Option Char} {unit : Nat} (codes : hex4? a b c d = some unit)
    (s : Source) :
    passString (some '\\' :: some 'u' :: a :: b :: c :: d :: s) = passString s := by
  rw [passString, codes]

theorem follows_stringTail (broken : Bool) : Follows passString (stringTail broken) := by
  intro s cs r read
  fun_induction stringTail broken s generalizing cs with
  | case2 broken s ih => exact ih read
  | case4 broken s whole =>
    cases read
    rfl
  | case10 broken a b c d unit codes _ _ e f g h s second codes' _ ih =>
    obtain ⟨more, read⟩ := consChar_eq_ok read
    rw [passString_coded codes, passString_coded codes', ih read]
  | case14 broken a b c d s unit codes _ _ ih =>
    obtain ⟨more, read⟩ := consChar_eq_ok read
    rw [passString_coded codes, ih read]
  | case16 broken mark s _ _ c marks ih =>
    obtain ⟨more, read⟩ := consChar_eq_ok read
    rw [passString_short marks, ih read]
  | case21 broken c s noQuote _ _ noMark noByte ends above ih =>
    obtain ⟨more, read⟩ := consChar_eq_ok read
    have noBackslash : c ≠ '\\' := by
      match s with
      | [] => exact ends rfl
      | none :: s => exact noByte s rfl
      | some e :: s => exact noMark e s rfl
    rw [passString_plain ⟨above, noQuote, noBackslash⟩, ih read]
  | _ => cases read

theorem follows_string : Follows passString Scan.string := by
  intro s text r read
  unfold Scan.string at read
  split at read
  · next taken =>
    cases read
    exact follows_stringTail false taken
  · cases read

/-! Numbers. -/

theorem follows_doubleOf (negative : Bool) (n : Nat) (e : Int) :
    Follows .ok (doubleOf negative n e) := by
  intro s j r read
  unfold doubleOf at read
  split at read <;> cases read
  rfl

theorem follows_wholeOf (negative : Bool) (n : Nat) : Follows .ok (wholeOf negative n) := by
  intro s j r read
  unfold wholeOf at read
  split at read
  · split at read
    · exact follows_doubleOf true n 0 read
    · cases read
      rfl
  · cases read
    rfl

theorem follows_exponentPart (negative : Bool) (n : Nat) (e : Int) :
    Follows passExponent (exponentPart negative n e) := by
  intro s j r read
  unfold exponentPart at read
  unfold passExponent
  cases signed : exponentSign s with
  | mk minus t =>
    rw [signed] at read
    simp only at read ⊢
    cases taken : digits t with
    | mk values rest =>
      rw [taken] at read
      cases values with
      | nil => cases rest <;> cases read
      | cons d more => exact follows_doubleOf negative n _ read

/-- After the digits of a number: its exponent, or its end. -/
theorem passMark_of_read {negative : Bool} {n : Nat} {e : Int}
    {whole : Source → Except Fault (Scanned Json)} (follows : Follows .ok whole) {c : Option Char}
    {s : Source} {j : Json} {r : Source}
    (read : (if isExponentMark c then exponentPart negative n e s else whole (c :: s)) =
      .ok (j, r)) : passMark (c :: s) = .ok r := by
  rw [passMark]
  split at read
  · next mark =>
    rw [if_pos mark]
    exact follows_exponentPart negative n e read
  · next noMark =>
    rw [if_neg noMark]
    exact follows read

theorem digits_of_fractionPart {negative : Bool} {n : Nat} {e : Int} {s : Source} {j : Json}
    {r : Source} (read : fractionPart negative n e s = .ok (j, r)) :
    ∃ d more after, digits s = (d :: more, after) ∧ passMark after = .ok r := by
  unfold fractionPart at read
  cases taken : digits s with
  | mk values rest =>
    rw [taken] at read
    cases values with
    | nil => cases rest <;> cases read
    | cons d more =>
      refine ⟨d, more, rest, rfl, ?_⟩
      cases rest with
      | nil => exact follows_doubleOf negative _ _ read
      | cons c rest => exact passMark_of_read (follows_doubleOf negative _ _) read

theorem passMark_of_afterWhole {negative : Bool} {n dropped : Nat} {s : Source} {j : Json}
    {r : Source} (noPoint : ∀ t, s ≠ some '.' :: t)
    (read : afterWhole negative n dropped s = .ok (j, r)) : passMark s = .ok r := by
  have follows : Follows .ok fun s =>
      if dropped = 0 then wholeOf negative n s else doubleOf negative n dropped s := by
    intro s j r read
    split at read
    · exact follows_wholeOf negative n read
    · exact follows_doubleOf negative n dropped read
  unfold afterWhole at read
  split at read
  · exact (noPoint _ rfl).elim
  · exact passMark_of_read follows read
  · exact follows read

theorem follows_number (negative : Bool) : Follows passNumber (number negative) := by
  intro s j r read
  unfold number at read
  split at read
  · cases read
  · cases read
  · cases read
  · next values rest noEnd noOther noLeading taken =>
    have nonempty : values = [] → False := by
      rintro rfl
      cases rest with
      | nil => exact noEnd rfl rfl
      | cons c rest => exact noOther c rest rfl rfl
    obtain ⟨d, more, rfl, single⟩ := cons_of_noLeading nonempty noLeading
    by_cases point : ∃ t, rest = some '.' :: t
    · obtain ⟨t, rfl⟩ := point
      obtain ⟨e, es, after, fraction, passed⟩ := digits_of_fractionPart read
      rw [passNumber_of_point taken single fraction, passed]
    · have noPoint : ∀ t, rest ≠ some '.' :: t := fun t same => point ⟨t, same⟩
      rw [passNumber_of_digits taken single noPoint, passMark_of_afterWhole noPoint read]

/-! Values. -/

theorem follows_items {α : Type} {pass : Source → Except Fault Source}
    {item : Source → Except Fault (Scanned α)} (follows : Follows pass item) (fuel : Nat)
    (first : Bool) : Follows (passItems pass fuel first) (items item fuel first) := by
  intro s as r read
  induction fuel generalizing s as first with
  | zero => cases read
  | succ fuel ih =>
    rw [items] at read
    obtain ⟨next?, next, read⟩ := bind_eq_ok.mp read
    rw [passItems, next]
    cases next? with
    | none =>
      obtain ⟨t, closed, same⟩ := bind_eq_ok.mp read
      cases same
      exact closed
    | some t =>
      obtain ⟨⟨a, u⟩, head, read⟩ := bind_eq_ok.mp read
      obtain ⟨⟨more, v⟩, tail, same⟩ := bind_eq_ok.mp read
      cases same
      show (pass t).bind _ = _
      rw [follows head]
      exact ih false tail

theorem follows_members {α : Type} {pass : Source → Except Fault Source}
    {item : Source → Except Fault (Scanned α)} (follows : Follows pass item) (fuel : Nat)
    (first : Bool) : Follows (passMembers pass fuel first) (members item fuel first) := by
  intro s as r read
  induction fuel generalizing s as first with
  | zero => cases read
  | succ fuel ih =>
    rw [members] at read
    obtain ⟨next?, next, read⟩ := bind_eq_ok.mp read
    rw [passMembers, next]
    cases next? with
    | none =>
      obtain ⟨t, closed, same⟩ := bind_eq_ok.mp read
      cases same
      exact closed
    | some t =>
      obtain ⟨⟨key, u⟩, named, read⟩ := bind_eq_ok.mp read
      obtain ⟨v, parted, read⟩ := bind_eq_ok.mp read
      obtain ⟨⟨a, w⟩, head, read⟩ := bind_eq_ok.mp read
      obtain ⟨⟨more, x⟩, tail, same⟩ := bind_eq_ok.mp read
      cases same
      show (passString t).bind _ = _
      rw [follows_string named]
      show (colon u).bind _ = _
      rw [parted]
      show (pass v).bind _ = _
      rw [follows head]
      exact ih false tail

theorem follows_value (depth : Nat) : Follows (passValue depth) (value depth) := by
  induction depth using Nat.strong_induction_on with
  | h depth ih =>
    intro s j r read
    rw [value] at read
    rw [passValue]
    split at read
    case h_1 => cases read
    case h_2 | h_3 | h_4 =>
      obtain ⟨t, passed, same⟩ := bind_eq_ok.mp read
      cases same
      exact passed
    case h_5 => exact follows_number true read
    case h_6 =>
      obtain ⟨⟨text, t⟩, taken, same⟩ := bind_eq_ok.mp read
      cases same
      exact follows_string taken
    case h_7 =>
      cases depth with
      | zero => cases read
      | succ depth =>
        obtain ⟨⟨as, t⟩, taken, same⟩ := bind_eq_ok.mp read
        cases same
        exact follows_items (ih depth (Nat.lt_succ_self depth)) _ true taken
    case h_8 =>
      cases depth with
      | zero => cases read
      | succ depth =>
        obtain ⟨⟨entries, t⟩, taken, same⟩ := bind_eq_ok.mp read
        cases same
        exact follows_members (ih depth (Nat.lt_succ_self depth)) _ true taken
    case h_9 =>
      split at read
      · next digit =>
        rw [if_pos digit]
        exact follows_number false read
      · cases read

end Scan

theorem value_form (before : Gap) (f : Form) (after : Gap) (depth : Nat) :
    value depth (source (before.chars ++ (f.chars ++ after.chars))) =
      settled (legible (f.value? depth)) (source after.chars) := by
  rw [source_append, source_append, value_append before.blank]
  exact Form.value_chars f depth after.ends

/-- A text is read as a value just if it is a form between blanks that stands for the value. -/
theorem ofText_eq_ok_iff {s : String} {j : Json} : ofText s = .ok j ↔
    ∃ (before : Gap) (f : Form) (after : Gap),
      s.toList = before.chars ++ (f.chars ++ after.chars) ∧ f.value? maxNesting = some j := by
  show whole (value maxNesting) (source s.toList) = .ok j ↔ _
  constructor
  · intro success
    obtain ⟨r, read, ended⟩ := whole_eq_ok success
    obtain ⟨_, back, same, rfl, before, f, rfl⟩ := takes_value _ (follows_value _ read)
    obtain ⟨after, rfl⟩ := exists_gap_of_skipGap ended
    rw [List.append_assoc] at same
    refine ⟨before, f, after, same, ?_⟩
    have meant := toOption_eq_some.mpr read
    rw [same, value_form, toOption_settled_legible] at meant
    obtain ⟨b, value, same⟩ := Option.map_eq_some_iff.mp meant
    rw [value, (Prod.mk.inj same).1]
  · rintro ⟨before, f, after, same, value⟩
    refine whole_settled after ?_
    rw [same, value_form, value]
    rfl

/-- Which texts are read at all. -/
theorem isOk_ofText_iff {s : String} : (∃ j, ofText s = .ok j) ↔
    ∃ (before : Gap) (f : Form) (after : Gap),
      s.toList = before.chars ++ (f.chars ++ after.chars) ∧ f.Sound ∧ f.nesting ≤ maxNesting := by
  simp only [ofText_eq_ok_iff, ← Form.isSome_value?_iff, Option.isSome_iff_exists]
  constructor
  · rintro ⟨j, before, f, after, same, value⟩
    exact ⟨before, f, after, same, j, value⟩
  · rintro ⟨before, f, after, same, j, value⟩
    exact ⟨j, before, f, after, same, value⟩

end ClaimQueue.Json
