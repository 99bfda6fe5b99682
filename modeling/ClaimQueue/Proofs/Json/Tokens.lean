import ClaimQueue.Proofs.Json.Forms
import ClaimQueue.Proofs.Json.Reread

/-! Tokens by their grammar. A scanner reads a string or a number to its end and no further, whatever
follows, and a reader that passes over it does so in any case. -/

namespace ClaimQueue.Json

/-- What was made of a part of a document, where the rest of it is still to be read. -/
def settled {α : Type} (o : Except Fault α) (rest : Source) : Except Fault (Scanned α) :=
  o.map (·, rest)

/-- A form without a value is malformed. -/
def legible {α : Type} : Option α → Except Fault α
  | some a => .ok a
  | none => .error .malformed

theorem toOption_settled_legible {α : Type} (a? : Option α) (rest : Source) :
    (settled (legible a?) rest).toOption = a?.map (·, rest) := by
  cases a? <;> rfl

namespace Scan

/-! Strings. -/

theorem consChar_settled (c : Char) (cs? : Option (List Char)) (rest : Source) :
    consChar c (settled (legible cs?) rest) = settled (legible (cs?.map (c :: ·))) rest := by
  cases cs? <;> rfl

theorem stringTail_plain {c : Char} (fits : ¬ c < ' ' ∧ c ≠ '"' ∧ c ≠ '\\') (s : Source) :
    stringTail false (some c :: s) = consChar c (stringTail false s) := by
  obtain ⟨above, quote, backslash⟩ := fits
  rw [stringTail.eq_def]
  split
  case h_9 same =>
    cases same
    exact if_neg above
  all_goals simp_all

theorem ne_of_marks {mark c : Char} (marks : escaped? mark = some c) : mark ≠ 'u' := by
  rintro rfl
  cases marks

theorem stringTail_short {mark c : Char} (marks : escaped? mark = some c) (s : Source) :
    stringTail false (some '\\' :: some mark :: s) = consChar c (stringTail false s) := by
  have other := ne_of_marks marks
  rw [stringTail, marks]
  · exact fun _ _ _ _ _ _ => other
  · exact other

section Coded

variable {a b c d : Char} {unit : Nat}

/-- A surrogate counts only together with the one after it. -/
theorem stringTail_coded (codes : hex4? (some a) (some b) (some c) (some d) = some unit)
    (noLow : ¬ isLowSurrogate unit) (noHigh : ¬ isHighSurrogate unit) (s : Source) :
    stringTail false (some '\\' :: some 'u' :: some a :: some b :: some c :: some d :: s) =
      consChar (Char.ofNat unit) (stringTail false s) := by
  rw [stringTail, codes]
  simp only [noLow, noHigh, Bool.false_eq_true, if_false]

theorem stringTail_low (codes : hex4? (some a) (some b) (some c) (some d) = some unit)
    (low : isLowSurrogate unit) (s : Source) :
    stringTail false (some '\\' :: some 'u' :: some a :: some b :: some c :: some d :: s) =
      .error .malformed := by
  rw [stringTail, codes]
  simp only [low, if_true]

theorem stringTail_pair (codes : hex4? (some a) (some b) (some c) (some d) = some unit)
    (noLow : ¬ isLowSurrogate unit) (high : isHighSurrogate unit) {e f g h : Char} {second : Nat}
    (codes' : hex4? (some e) (some f) (some g) (some h) = some second) (s : Source) :
    stringTail false (some '\\' :: some 'u' :: some a :: some b :: some c :: some d ::
        some '\\' :: some 'u' :: some e :: some f :: some g :: some h :: s) =
      if isLowSurrogate second then consChar (pairOf unit second) (stringTail false s)
      else .error .malformed := by
  rw [stringTail, codes]
  simp only [noLow, high, Bool.false_eq_true, if_false, if_true, codes']

/-- A text whose first character is not given by its number. -/
def Unpaired (s : Source) : Prop :=
  ∃ e t, s = some e :: t ∧ (e = '\\' → ∃ f u, t = some f :: u ∧ f ≠ 'u')

theorem stringTail_unpaired (codes : hex4? (some a) (some b) (some c) (some d) = some unit)
    (noLow : ¬ isLowSurrogate unit) (high : isHighSurrogate unit) {s : Source}
    (unpaired : Unpaired s) :
    stringTail false (some '\\' :: some 'u' :: some a :: some b :: some c :: some d :: s) =
      .error .malformed := by
  obtain ⟨e, t, rfl, after⟩ := unpaired
  rw [stringTail, codes]
  simp only [noLow, high, Bool.false_eq_true, if_false, if_true]
  split <;> simp_all

end Coded

/-- A glyph that is not given by its number pairs with nothing. -/
theorem unpaired_glyphs {gs : List Glyph}
    (other : ∀ a b c d unit codes more, gs ≠ .coded a b c d unit codes :: more) (rest : Source) :
    Unpaired (source (gs.flatMap Glyph.chars) ++ some '"' :: rest) := by
  match gs, other with
  | [], _ => exact ⟨'"', rest, rfl, fun same => absurd same (by decide)⟩
  | .plain c fits :: gs, _ => exact ⟨c, _, rfl, fun same => absurd same fits.2.2⟩
  | .short mark c marks :: gs, _ =>
    exact ⟨'\\', _, rfl, fun _ => ⟨mark, _, rfl, ne_of_marks marks⟩⟩
  | .coded a b c d unit codes :: gs, other => exact (other a b c d unit codes gs rfl).elim

theorem stringTail_glyphs (gs : List Glyph) (rest : Source) :
    stringTail false (source (gs.flatMap Glyph.chars) ++ some '"' :: rest) =
      settled (legible (Glyph.decode? gs)) rest := by
  fun_induction Glyph.decode? gs with
  | case1 => rfl
  | case2 c fits gs ih =>
    rw [← consChar_settled, ← ih]
    exact stringTail_plain fits _
  | case3 mark c marks gs ih =>
    rw [← consChar_settled, ← ih]
    exact stringTail_short marks _
  | case4 a b c d unit codes gs low => exact stringTail_low codes low _
  | case5 a b c d unit codes noLow high e f g h second codes' gs low ih =>
    rw [← consChar_settled, ← ih]
    exact (stringTail_pair codes noLow high codes' _).trans (if_pos low)
  | case6 a b c d unit codes noLow high e f g h second codes' gs noLow' =>
    exact (stringTail_pair codes noLow high codes' _).trans (if_neg noLow')
  | case7 a b c d unit codes gs noLow high other =>
    exact stringTail_unpaired codes noLow high (unpaired_glyphs other rest)
  | case8 a b c d unit codes gs noLow noHigh ih =>
    rw [← consChar_settled, ← ih]
    exact stringTail_coded codes noLow noHigh _

/-- A string, where its opening quote has been seen. -/
theorem string_glyphs (gs : List Glyph) (rest : Source) :
    string (source (gs.flatMap Glyph.chars) ++ some '"' :: rest) =
      settled (legible ((Glyph.decode? gs).map String.ofList)) rest := by
  rw [string, stringTail_glyphs]
  cases Glyph.decode? gs <;> rfl

/-! Strings that are passed over. -/

theorem passString_plain {c : Char} (fits : ¬ c < ' ' ∧ c ≠ '"' ∧ c ≠ '\\') (s : Source) :
    passString (some c :: s) = passString s := by
  obtain ⟨above, quote, backslash⟩ := fits
  rw [passString.eq_def]
  split
  case h_8 same =>
    cases same
    exact if_neg above
  all_goals simp_all

theorem passString_short {mark c : Char} (marks : escaped? mark = some c) (s : Source) :
    passString (some '\\' :: some mark :: s) = passString s := by
  have other := ne_of_marks marks
  rw [passString, marks]
  · exact fun _ _ _ _ _ _ => other
  · exact other

theorem passString_glyphs (gs : List Glyph) (rest : Source) :
    passString (source (gs.flatMap Glyph.chars) ++ some '"' :: rest) = .ok rest := by
  induction gs with
  | nil => rfl
  | cons g gs ih =>
    cases g with
    | plain c fits => exact (passString_plain fits _).trans ih
    | short mark c marks => exact (passString_short marks _).trans ih
    | coded a b c d unit codes =>
      rw [← ih]
      simp only [List.flatMap_cons, Glyph.chars, source_cons, List.cons_append, List.nil_append,
        passString, codes]

/-! Numbers. What a scanner makes of one depends on nothing that follows. -/

def Definite (scan : Source → Except Fault (Scanned Json)) (cs : List Char) : Prop :=
  ∃ j? : Option Json, ∀ rest, Ends rest → scan (source cs ++ rest) = settled (legible j?) rest

theorem doubleOf_settled (negative : Bool) (n : Nat) (e : Int) (s : Source) :
    doubleOf negative n e s =
      settled (legible ((Number.Binary64.ofDecimal? negative n e).map Json.double)) s := by
  unfold doubleOf
  cases Number.Binary64.ofDecimal? negative n e <;> rfl

theorem wholeOf_definite (negative : Bool) (n : Nat) :
    ∃ j? : Option Json, ∀ s, wholeOf negative n s = settled (legible j?) s := by
  unfold wholeOf
  split
  · split
    · exact ⟨_, fun s => doubleOf_settled _ _ _ s⟩
    · exact ⟨some _, fun s => rfl⟩
  · exact ⟨some _, fun s => rfl⟩

theorem values_cons (ds : Digits) : ∃ d more, ds.chars.map digitValue = d :: more := by
  obtain ⟨c, cs, same⟩ := List.exists_cons_of_ne_nil ds.nonempty
  exact ⟨digitValue c, cs.map digitValue, by rw [same, List.map_cons]⟩

theorem Exponent.stop {e : Option Exponent} {rest : Source} (ends : Ends rest) :
    digits (source (Figure.exponentChars e) ++ rest) =
      ([], source (Figure.exponentChars e) ++ rest) := by
  cases e with
  | none => exact ends.stop
  | some e =>
    rcases e.marks with same | same <;> simp only [Figure.exponentChars, Exponent.chars, same] <;>
      exact digits_of_stop rfl _

theorem exponentSign_signs (e : Exponent) (rest : Source) :
    exponentSign (source (e.sign ++ e.digits.chars) ++ rest) =
      (decide (e.sign = ['-']), source e.digits.chars ++ rest) := by
  rcases e.signs with same | same | same
  · obtain ⟨c, cs, first⟩ := List.exists_cons_of_ne_nil e.digits.nonempty
    have digit := e.digits.digits c (first ▸ List.mem_cons_self)
    rw [same, first, List.nil_append, source_cons, List.cons_append, exponentSign]
    · rfl
    · rintro s h
      cases h
      exact absurd digit (by decide)
    · rintro s h
      cases h
      exact absurd digit (by decide)
  · rw [same]
    rfl
  · rw [same]
    rfl

theorem exponentPart_definite (negative : Bool) (n : Nat) (shift : Int) (e : Exponent) :
    Definite (exponentPart negative n shift) (e.sign ++ e.digits.chars) := by
  obtain ⟨d, more, values⟩ := values_cons e.digits
  let power : Int := ((d :: more).foldl (fun n d => n * 10 + d) 0 : Nat)
  refine ⟨(Number.Binary64.ofDecimal? negative n
    (if decide (e.sign = ['-']) then shift - power else shift + power)).map Json.double,
    fun rest ends => ?_⟩
  rw [exponentPart, exponentSign_signs]
  simp only [digits_append e.digits.digits ends.stop, values]
  exact doubleOf_settled _ _ _ _

theorem fractionPart_definite (negative : Bool) (n : Nat) (shift : Int) (ds : Digits)
    (e : Option Exponent) :
    Definite (fractionPart negative n shift) (ds.chars ++ Figure.exponentChars e) := by
  obtain ⟨d, more, values⟩ := values_cons ds
  have read {rest : Source} (ends : Ends rest) :
      digits (source (ds.chars ++ Figure.exponentChars e) ++ rest) =
        (d :: more, source (Figure.exponentChars e) ++ rest) := by
    rw [source_append, List.append_assoc, digits_append ds.digits (Exponent.stop ends), values]
  let taken := absorb n (d :: more)
  let shifted : Int := shift - ((d :: more).length - taken.2.length : Nat)
  cases e with
  | none =>
    refine ⟨(Number.Binary64.ofDecimal? negative taken.1 shifted).map Json.double,
      fun rest ends => ?_⟩
    rw [fractionPart, read ends]
    cases ends <;> exact doubleOf_settled _ _ _ _
  | some e =>
    obtain ⟨j?, definite⟩ := exponentPart_definite negative taken.1 shifted e
    refine ⟨j?, fun rest ends => ?_⟩
    rw [fractionPart, read ends, ← definite rest ends]
    rcases e.marks with same | same <;>
      simp only [Figure.exponentChars, Exponent.chars, same] <;> rfl

theorem afterWhole_definite (negative : Bool) (n dropped : Nat) (f : Option Digits)
    (e : Option Exponent) :
    Definite (afterWhole negative n dropped) (Figure.fractionChars f ++ Figure.exponentChars e) := by
  cases f with
  | some ds => exact fractionPart_definite negative n dropped ds e
  | none =>
    cases e with
    | some e =>
      obtain ⟨j?, definite⟩ := exponentPart_definite negative n dropped e
      refine ⟨j?, fun rest ends => ?_⟩
      rw [← definite rest ends]
      rcases e.marks with same | same <;>
        simp only [Figure.fractionChars, Figure.exponentChars, Exponent.chars, same] <;> rfl
    | none =>
      by_cases kept : dropped = 0
      · obtain ⟨j?, definite⟩ := wholeOf_definite negative n
        refine ⟨j?, fun rest ends => ?_⟩
        rw [← definite rest]
        exact (afterWhole_of_ends negative n dropped ends).trans (if_pos kept)
      · refine ⟨(Number.Binary64.ofDecimal? negative n dropped).map Json.double,
          fun rest ends => ?_⟩
        rw [← doubleOf_settled]
        exact (afterWhole_of_ends negative n dropped ends).trans (if_neg kept)

/-- Where the digits before the point end. -/
theorem Figure.stop (n : Figure) {rest : Source} (ends : Ends rest) :
    digits (source (Figure.fractionChars n.fraction ++ Figure.exponentChars n.exponent) ++ rest) =
      ([], source (Figure.fractionChars n.fraction ++ Figure.exponentChars n.exponent) ++ rest) := by
  cases n.fraction with
  | none => exact Exponent.stop ends
  | some ds => exact digits_of_stop rfl _

theorem digits_magnitude (n : Figure) {rest : Source} (ends : Ends rest) :
    digits (source n.magnitude ++ rest) = (n.whole.chars.map digitValue,
      source (Figure.fractionChars n.fraction ++ Figure.exponentChars n.exponent) ++ rest) := by
  rw [Figure.magnitude, source_append, List.append_assoc,
    digits_append n.whole.digits (Figure.stop n ends)]

/-- A zero in front is the only digit before the point. -/
theorem leading_values (n : Figure) {d : Nat} {more : List Nat}
    (values : n.whole.chars.map digitValue = d :: more) : ¬ (d = 0 ∧ more ≠ []) := by
  rintro ⟨rfl, some⟩
  obtain ⟨c, cs, first, zero, rfl⟩ := List.map_eq_cons_iff.mp values
  have digit := n.whole.digits c (first ▸ List.mem_cons_self)
  obtain ⟨k, small, rfl⟩ := digitChar_of_isDigit digit
  obtain rfl : k = 0 := by
    interval_cases k <;> first | rfl | exact absurd zero (by decide)
  exact some (by rw [n.leading cs first]; rfl)

theorem number_magnitude (n : Figure) {rest : Source} (ends : Ends rest) :
    number n.negative (source n.magnitude ++ rest) = settled (legible n.value?) rest := by
  obtain ⟨d, more, values⟩ := values_cons n.whole
  obtain ⟨j?, definite⟩ := afterWhole_definite n.negative (absorb 0 (d :: more)).1
    (absorb 0 (d :: more)).2.length n.fraction n.exponent
  have read {rest : Source} (ends : Ends rest) :
      number n.negative (source n.magnitude ++ rest) = settled (legible j?) rest := by
    rw [number_of_digits n.negative ((digits_magnitude n ends).trans (by rw [values])),
      if_neg (leading_values n values), definite rest ends]
  have alone : n.value? = j? := by
    have whole := read .text
    rw [List.append_nil] at whole
    rw [Figure.value?, whole, toOption_settled_legible]
    cases j? <;> rfl
  rw [read ends, alone]

/-! Numbers that are passed over. -/

theorem passMark_exponent (e : Option Exponent) {rest : Source} (ends : Ends rest) :
    passMark (source (Figure.exponentChars e) ++ rest) = .ok rest := by
  cases e with
  | none => cases ends <;> rfl
  | some e =>
    obtain ⟨d, more, values⟩ := values_cons e.digits
    have passed : passExponent (source (e.sign ++ e.digits.chars) ++ rest) = .ok rest := by
      rw [passExponent, exponentSign_signs]
      simp only [digits_append e.digits.digits ends.stop, values]
    rw [← passed]
    rcases e.marks with same | same <;>
      simp only [Figure.exponentChars, Exponent.chars, same] <;> rfl

section Digits

variable {s rest : Source} {d : Nat} {more : List Nat}

theorem passNumber_of_point (read : digits s = (d :: more, some '.' :: rest))
    (single : ¬ (d = 0 ∧ more ≠ [])) {e : Nat} {es : List Nat} {after : Source}
    (fraction : digits rest = (e :: es, after)) : passNumber s = passMark after := by
  rw [passNumber, read]
  cases d with
  | zero =>
    cases more with
    | nil => simp only [fraction]
    | cons e more => exact (single ⟨rfl, List.cons_ne_nil _ _⟩).elim
  | succ d => simp only [fraction]

theorem passNumber_of_digits (read : digits s = (d :: more, rest))
    (single : ¬ (d = 0 ∧ more ≠ [])) (noPoint : ∀ t, rest ≠ some '.' :: t) :
    passNumber s = passMark rest := by
  rw [passNumber, read]
  cases d with
  | zero =>
    cases more with
    | nil =>
      simp only
    | cons e more => exact (single ⟨rfl, List.cons_ne_nil _ _⟩).elim
  | succ d => simp only

end Digits

/-- What may follow the digits of a number is no point. -/
theorem Exponent.noPoint (e : Option Exponent) {rest : Source} (ends : Ends rest) (t : Source) :
    source (Figure.exponentChars e) ++ rest ≠ some '.' :: t := by
  cases e with
  | none => cases ends <;> simp [Figure.exponentChars]
  | some e =>
    rcases e.marks with same | same <;>
      simp [Figure.exponentChars, Exponent.chars, same]

theorem passNumber_magnitude (n : Figure) {rest : Source} (ends : Ends rest) :
    passNumber (source n.magnitude ++ rest) = .ok rest := by
  obtain ⟨d, more, values⟩ := values_cons n.whole
  have read := digits_magnitude n ends
  have single := leading_values n values
  rw [values] at read
  rw [← passMark_exponent n.exponent ends]
  cases point : n.fraction with
  | none =>
    rw [point] at read
    exact passNumber_of_digits read single (Exponent.noPoint n.exponent ends)
  | some ds =>
    obtain ⟨e, es, values'⟩ := values_cons ds
    have fraction := digits_append ds.digits (Exponent.stop (e := n.exponent) ends)
    rw [values', ← List.append_assoc, ← source_append] at fraction
    rw [point] at read
    exact passNumber_of_point read single fraction

end Scan

end ClaimQueue.Json
