import ClaimQueue.Proofs.Json.Reread
import ClaimQueue.Proofs.Number.Decimal

/-! A written binary64 number can be read. In scientific form its digits and exponent are read as
they stand; with a point and no exponent whatever is read has no positive power of ten. What is read
may be another number, but never one that is too large. -/

namespace ClaimQueue.Json.Scan

open Number

theorem ofDigitChars_lt {cs : List Char} (h : ∀ c ∈ cs, c.isDigit = true) (n : Nat) :
    Nat.ofDigitChars 10 cs n < (n + 1) * 10 ^ cs.length := by
  induction cs generalizing n with
  | nil => simp
  | cons c cs ih =>
    have digit : c.toNat - '0'.toNat < 10 := by
      obtain ⟨d, small, rfl⟩ := digitChar_of_isDigit (h c List.mem_cons_self)
      interval_cases d <;> decide
    have more := ih (fun d mem => h d (List.mem_cons_of_mem _ mem)) (10 * n + (c.toNat - '0'.toNat))
    rw [Nat.ofDigitChars_cons, List.length_cons, Nat.pow_succ]
    refine Nat.lt_of_lt_of_le more ?_
    rw [Nat.mul_comm (10 ^ cs.length) 10, ← Nat.mul_assoc]
    exact Nat.mul_le_mul_right _ (by omega)

theorem absorb_lt {n : Nat} (small : n < 2 ^ 64) (ds : List Nat) : (absorb n ds).1 < 2 ^ 64 := by
  induction ds generalizing n with
  | nil => exact small
  | cons d ds ih =>
    rw [absorb]
    split
    · rename_i fits
      exact ih fits
    · exact small

theorem length_absorb_le (n : Nat) (ds : List Nat) : (absorb n ds).2.length ≤ ds.length := by
  induction ds generalizing n with
  | nil => exact Nat.le_refl _
  | cons d ds ih =>
    rw [absorb]
    split
    · exact Nat.le_succ_of_le (ih _)
    · exact Nat.le_refl _

/-- Digits that begin a number: no zero stands before another digit. -/
structure Whole (cs : List Char) : Prop where
  digit : ∀ c ∈ cs, c.isDigit = true
  first : ∃ c ds, cs = c :: ds ∧ (digitValue c = 0 → ds = [])
  fits : Nat.ofDigitChars 10 cs 0 < 2 ^ 64

theorem Whole.number {cs : List Char} (h : Whole cs) (negative : Bool) {rest : Source}
    (stop : Scan.digits rest = ([], rest)) :
    Scan.number negative (source cs ++ rest) =
      afterWhole negative (Nat.ofDigitChars 10 cs 0) 0 rest := by
  have read := digits_append h.digit stop
  have value := absorb_of_fits h.fits
  obtain ⟨c, ds, rfl, alone⟩ := h.first
  rw [List.map_cons] at read value
  have single : ¬ (digitValue c = 0 ∧ ds.map digitValue ≠ []) := fun leading =>
    leading.2 (by rw [alone leading.1]; rfl)
  rw [number_of_digits negative read, if_neg single, value]
  rfl

theorem foldl_digitValue (cs : List Char) (n : Nat) :
    (cs.map digitValue).foldl (fun n d => n * 10 + d) n = Nat.ofDigitChars 10 cs n := by
  induction cs generalizing n with
  | nil => rfl
  | cons c cs ih =>
    rw [List.map_cons, List.foldl_cons, ih, Nat.ofDigitChars_cons, Nat.mul_comm n 10]
    rfl

/-- An exponent with its sign. -/
theorem exponentPart_written (negative : Bool) (n : Nat) (e shift : Int) :
    exponentPart negative n e
      (source ((if shift < 0 then '-' else '+') :: Nat.toDigits 10 shift.natAbs)) =
      doubleOf negative n (e + shift) [] := by
  have read := digits_append (isDigit_toDigits shift.natAbs) Ends.text.stop
  rw [List.append_nil] at read
  obtain ⟨c, cs, first⟩ :=
    List.exists_cons_of_ne_nil (Nat.toDigits_ne_nil (b := 10) (n := shift.natAbs))
  have value := foldl_digitValue (Nat.toDigits 10 shift.natAbs) 0
  rw [Nat.ofDigitChars_ten_toDigits] at value
  rw [first, List.map_cons] at value
  rw [first, List.map_cons] at read
  rw [first]
  split
  · rename_i minus
    have sum : e - (shift.natAbs : Int) = e + shift := by omega
    simp only [exponentPart, source_cons, exponentSign]
    rw [← source_cons, read]
    simp only [value, if_true, sum]
  · rename_i plus
    have sum : e + (shift.natAbs : Int) = e + shift := by omega
    simp only [exponentPart, source_cons, exponentSign]
    rw [← source_cons, read]
    simp only [value, sum]
    rfl

/-- The digits after a point, up to an exponent. -/
theorem fractionPart_scientific (negative : Bool) {n : Nat} {cs : List Char} (nonempty : cs ≠ [])
    (digit : ∀ c ∈ cs, c.isDigit = true) (fits : Nat.ofDigitChars 10 cs n < 2 ^ 64)
    (power : List Char) :
    fractionPart negative n 0 (source cs ++ source ('e' :: power)) =
      exponentPart negative (Nat.ofDigitChars 10 cs n) (-(cs.length : Int)) (source power) := by
  have mark : digit? (some 'e') = none := rfl
  have read := digits_append digit (digits_of_stop mark (source power))
  have value := absorb_of_fits fits
  obtain ⟨c, ds, rfl⟩ := List.exists_cons_of_ne_nil nonempty
  rw [List.map_cons] at read value
  rw [fractionPart, source_cons 'e', read]
  simp only [value, isExponentMark, if_true, List.length_cons, List.length_map, List.length_nil,
    Nat.sub_zero, Int.zero_sub]

/-- The scientific form. -/
theorem number_scientific (negative : Bool) {cs : List Char} (h : Whole cs)
    (nonempty : cs ≠ []) (top : Int) :
    number negative (source (scientific cs top)) =
      doubleOf negative (Nat.ofDigitChars 10 cs 0) (top - (cs.length - 1 : Nat)) [] := by
  let power := (if top < 0 then '-' else '+') :: Nat.toDigits 10 top.natAbs
  have mark : digit? (some 'e') = none := rfl
  have point : digit? (some '.') = none := rfl
  obtain ⟨c, ds, rfl⟩ := List.exists_cons_of_ne_nil nonempty
  cases ds with
  | nil =>
    have text : source (scientific [c] top) = source [c] ++ some 'e' :: source power := rfl
    rw [text, h.number negative (digits_of_stop mark _)]
    refine (exponentPart_written negative _ 0 top).trans ?_
    simp
  | cons d ds =>
    have one : Whole [c] := by
      have digit : ∀ d ∈ [c], d.isDigit = true := by
        simpa using h.digit c List.mem_cons_self
      have small := ofDigitChars_lt digit 0
      rw [List.length_singleton] at small
      exact ⟨digit, ⟨c, [], rfl, fun _ => rfl⟩, by omega⟩
    have text : source (scientific (c :: d :: ds) top) =
        source [c] ++ some '.' :: (source (d :: ds) ++ source ('e' :: power)) := by
      simp [scientific, power]
    have split : Nat.ofDigitChars 10 (d :: ds) (Nat.ofDigitChars 10 [c] 0) =
        Nat.ofDigitChars 10 (c :: d :: ds) 0 := (Nat.ofDigitChars_append (l := [c]) 0).symm
    have fraction := fractionPart_scientific negative (n := Nat.ofDigitChars 10 [c] 0)
      (List.cons_ne_nil d ds) (fun e mem => h.digit e (List.mem_cons_of_mem c mem))
      (split ▸ h.fits) power
    rw [text, one.number negative (digits_of_stop point _)]
    refine fraction.trans ((exponentPart_written negative _ _ top).trans ?_)
    rw [split]
    congr 1
    simp only [List.length_cons]
    omega

/-- The form with a point, which has no positive power of ten. -/
theorem number_point (negative : Bool) {whole cs : List Char} (h : Whole whole) (nonempty : cs ≠ [])
    (digit : ∀ c ∈ cs, c.isDigit = true) : ∃ n < 2 ^ 64, ∃ e ≤ (0 : Int),
      number negative (source (whole ++ '.' :: cs)) = doubleOf negative n e [] := by
  have point : digit? (some '.') = none := rfl
  have read := digits_append digit Ends.text.stop
  rw [List.append_nil] at read
  obtain ⟨c, ds, rfl⟩ := List.exists_cons_of_ne_nil nonempty
  rw [List.map_cons] at read
  let taken := absorb (Nat.ofDigitChars 10 whole 0) (digitValue c :: ds.map digitValue)
  have fewer := length_absorb_le (Nat.ofDigitChars 10 whole 0) (digitValue c :: ds.map digitValue)
  refine ⟨taken.1, absorb_lt h.fits _, 0 - ((digitValue c :: ds.map digitValue).length -
    taken.2.length : Nat), by omega, ?_⟩
  rw [source_append, source_cons '.', h.number negative (digits_of_stop point _)]
  show fractionPart negative (Nat.ofDigitChars 10 whole 0) 0 (source (c :: ds)) = _
  rw [fractionPart, read]

/-! Digits without the zeros at their end. -/

theorem toDigits_eq_significant (n : Nat) :
    ∃ k, Nat.toDigits 10 n = Binary64.significant n ++ List.replicate k '0' := by
  have halves := List.takeWhile_append_dropWhile (p := (· == '0')) (l := (Nat.toDigits 10 n).reverse)
  have whole := congrArg List.reverse halves
  rw [List.reverse_append, List.reverse_reverse] at whole
  refine ⟨((Nat.toDigits 10 n).reverse.takeWhile (· == '0')).length, whole.symm.trans ?_⟩
  rw [Binary64.significant]
  congr 1
  refine List.eq_replicate_iff.mpr ⟨List.length_reverse, fun c mem => ?_⟩
  have zero : (c == '0') = true :=
    List.mem_takeWhile_imp (p := (· == '0')) (List.mem_reverse.mp mem)
  exact beq_iff_eq.mp zero

/-- The digits of a number that is not zero begin with none. -/
theorem toDigits_cons_of_ne_zero {n : Nat} (h : n ≠ 0) :
    ∃ c cs, Nat.toDigits 10 n = c :: cs ∧ digitValue c ≠ 0 := by
  obtain ⟨c, cs, first, alone⟩ := toDigits_cons n
  refine ⟨c, cs, first, fun zero => h ?_⟩
  have value : Nat.ofDigitChars 10 (Nat.toDigits 10 n) 0 = n := Nat.ofDigitChars_ten_toDigits
  have null : c.toNat - '0'.toNat = 0 := zero
  rw [first, alone zero, Nat.ofDigitChars_cons, Nat.ofDigitChars_nil, null] at value
  exact value.symm

/-- Some of the digits of a number, from the first one on, and zeros after them. -/
theorem whole_of_prefix {n : Nat} (h : n ≠ 0) {cs : List Char} (nonempty : cs ≠ [])
    (front : cs <+: Binary64.significant n) (k : Nat)
    (fits : Nat.ofDigitChars 10 (cs ++ zeros k) 0 < 2 ^ 64) : Whole (cs ++ zeros k) := by
  have among := fun c mem => Binary64.isDigit_significant n c (front.subset mem)
  obtain ⟨j, whole⟩ := toDigits_eq_significant n
  obtain ⟨d, ds, first, nonzero⟩ := toDigits_cons_of_ne_zero h
  obtain ⟨c, cs, rfl⟩ := List.exists_cons_of_ne_nil nonempty
  obtain ⟨rest, same⟩ := front
  rw [← same, List.cons_append, List.cons_append, first] at whole
  obtain rfl := (List.cons.inj whole).1
  refine ⟨fun e mem => ?_, ⟨d, cs ++ zeros k, rfl, fun zero => absurd zero nonzero⟩, fits⟩
  exact (List.mem_append.mp mem).elim (among e) (isDigit_zeros k e)

theorem whole_of_front {n : Nat} (h : n ≠ 0) {cs : List Char} (nonempty : cs ≠ [])
    (front : cs <+: Binary64.significant n) (fits : Nat.ofDigitChars 10 cs 0 < 2 ^ 64) :
    Whole cs := by
  have none : cs ++ zeros 0 = cs := List.append_nil cs
  exact none ▸ whole_of_prefix h nonempty front 0 (none.symm ▸ fits)

/-- Without the zeros at its end a number is smaller by a power of ten. -/
theorem significant_spec {n : Nat} (h : n ≠ 0) : ∃ k,
    n = Nat.ofDigitChars 10 (Binary64.significant n) 0 * 10 ^ k ∧
    digitCount n = (Binary64.significant n).length + k := by
  obtain ⟨k, whole⟩ := toDigits_eq_significant n
  refine ⟨k, ?_, ?_⟩
  · calc n = Nat.ofDigitChars 10 (Nat.toDigits 10 n) 0 := Nat.ofDigitChars_ten_toDigits.symm
      _ = 10 ^ k * Nat.ofDigitChars 10 (Binary64.significant n) 0 := by
          rw [whole, Nat.ofDigitChars_append, Nat.ofDigitChars_replicate_zero]
      _ = _ := Nat.mul_comm ..
  · rw [digitCount, if_neg h, whole, List.length_append, List.length_replicate]

theorem whole_zero : Whole ['0'] := ⟨by simp, ⟨'0', [], rfl, fun _ => rfl⟩, by decide⟩

theorem fits_of_length {cs : List Char} (digit : ∀ c ∈ cs, c.isDigit = true)
    (short : cs.length ≤ 16) : Nat.ofDigitChars 10 cs 0 < 2 ^ 64 := by
  have small := ofDigitChars_lt digit 0
  have most : 10 ^ cs.length ≤ 10 ^ 16 := Nat.pow_le_pow_right (by decide) short
  omega

theorem number_positional (negative : Bool) {n : Nat} (h : n ≠ 0) (whole : Int)
    (short : whole ≤ 16) : ∃ m < 2 ^ 64, ∃ e ≤ (0 : Int),
      number negative (source (positional (Binary64.significant n) whole)) =
        doubleOf negative m e [] := by
  have digit := Binary64.isDigit_significant n
  have some := Binary64.significant_ne_nil h
  unfold positional
  split
  · have text : ['0', '.'] ++ zeros (-whole).toNat ++ Binary64.significant n =
        ['0'] ++ '.' :: (zeros (-whole).toNat ++ Binary64.significant n) := by simp
    rw [text]
    refine number_point negative whole_zero (List.append_ne_nil_of_right_ne_nil _ some) ?_
    exact fun c mem => (List.mem_append.mp mem).elim (isDigit_zeros _ c) (digit c)
  · rename_i positive
    have last : ∀ c ∈ ['0'], c.isDigit = true := by simp
    simp only
    split
    · rename_i fits
      have all : ∀ c ∈ Binary64.significant n ++
          zeros (whole.toNat - (Binary64.significant n).length), c.isDigit = true :=
        fun c mem => (List.mem_append.mp mem).elim (digit c) (isDigit_zeros _ c)
      have front := whole_of_prefix h some (List.prefix_refl _) _ (fits_of_length all (by
        simp only [zeros, List.length_append, List.length_replicate]
        omega))
      exact number_point negative front (List.cons_ne_nil _ _) last
    · rename_i long
      have front : (Binary64.significant n).take whole.toNat <+: Binary64.significant n :=
        List.take_prefix _ _
      have nonempty : (Binary64.significant n).take whole.toNat ≠ [] := by
        refine List.ne_nil_of_length_pos ?_
        rw [List.length_take]
        omega
      have fits := fits_of_length (fun c mem => digit c (front.subset mem)) (by
        rw [List.length_take]
        omega)
      refine number_point negative (whole_of_front h nonempty front fits) ?_
        fun c mem => digit c (List.mem_of_mem_drop mem)
      refine List.ne_nil_of_length_pos ?_
      rw [List.length_drop]
      omega

end ClaimQueue.Json.Scan

namespace ClaimQueue.Json

open Scan Number

theorem doubleOf_isSome {negative : Bool} {n : Nat} {e : Int}
    (h : (Binary64.ofDecimal? negative n e).isSome) (s : Source) :
    (doubleOf negative n e s).toOption.isSome := by
  rw [doubleOf_toOption, Option.isSome_map, Option.isSome_map]
  exact h

/-- Written with an exponent, it is read as the decimal it was. -/
theorem number_scientific_isSome {x : Binary64} (hx : x.Canonical)
    (inner : x.significand < 2 ^ 53 - 2 ∨ x.exponent < 971) {n : Nat} {e : Int} (shows : x.Shows n e)
    (negative : Bool) :
    (number negative (source (scientific (Binary64.significant n)
      (e + digitCount n - 1)))).toOption.isSome := by
  have nonempty := Binary64.significant_ne_nil shows.nonzero
  have length := List.length_pos_of_ne_nil nonempty
  obtain ⟨k, value, count⟩ := significant_spec shows.nonzero
  obtain ⟨m, digits⟩ : ∃ m, Nat.ofDigitChars 10 (Binary64.significant n) 0 = m := ⟨_, rfl⟩
  rw [digits] at value
  have small : m < 2 ^ 64 := by
    have less := Nat.le_mul_of_pos_right m (Nat.pow_pos (n := k) (by decide : 0 < 10))
    have := shows.short
    omega
  have whole := whole_of_front shows.nonzero nonempty (List.prefix_refl _) (digits ▸ small)
  have shift : e + (digitCount n : Int) - 1 - ((Binary64.significant n).length - 1 : Nat) =
      e + k := by omega
  rw [number_scientific negative whole nonempty, digits, shift]
  refine doubleOf_isSome (shows.ofDecimal?_isSome hx inner small ?_) []
  rw [ten_zpow_add, ← mul_assoc]
  conv_rhs => rw [value]
  push_cast
  rfl

theorem number_magnitude_isSome {x : Binary64} (hx : x.Canonical)
    (inner : x.significand < 2 ^ 53 - 2 ∨ x.exponent < 971) (negative : Bool) :
    (number negative (source x.magnitude)).toOption.isSome := by
  unfold Binary64.magnitude
  split
  · obtain ⟨n, small, e, down, read⟩ :=
      number_point negative whole_zero (List.cons_ne_nil '0' []) (by simp)
    have text : ['0', '.', '0'] = ['0'] ++ '.' :: ['0'] := rfl
    rw [text, read]
    exact doubleOf_isSome (Binary64.ofDecimal?_isSome_of_nonpos negative small down) []
  · rename_i nonzero
    have nonzero : x.significand ≠ 0 := by simpa [Binary64.isZero] using nonzero
    have shows := Binary64.shortest_shows hx nonzero
    simp only
    rw [← Binary64.significant]
    split
    · rename_i range
      obtain ⟨m, small, f, down, read⟩ :=
        number_positional negative shows.nonzero _ (Int.add_le_add_right range.2 1)
      exact read ▸ doubleOf_isSome (Binary64.ofDecimal?_isSome_of_nonpos negative small down) []
    · exact number_scientific_isSome hx inner shows negative

/-- Whatever number can be written can be read, though perhaps as another one. -/
theorem rereadNumber_double_isSome {x : Binary64} (hx : x.Canonical) :
    (rereadNumber x.chars).isSome := by
  obtain ⟨negative, significand, exponent⟩ := x
  have small : significand < 2 ^ 53 := hx.small
  by_cases inner : significand < 2 ^ 53 - 2 ∨ exponent < 971
  · have read := number_magnitude_isSome hx inner negative
    have numeral := Binary64.numeral_magnitude ⟨negative, significand, exponent⟩
    obtain ⟨c, cs, first, digit⟩ := Numeral.digit numeral
    rw [rereadNumber, Option.isSome_map, Binary64.chars]
    rw [first] at read ⊢
    cases negative with
    | false => rwa [if_neg Bool.false_ne_true, source_cons, value_of_digit digit, ← source_cons]
    | true => rwa [if_pos rfl, source_cons, value_of_minus]
  · -- the two largest numbers, with either sign
    have greatest : exponent ≤ 971 := hx.greatest
    obtain rfl : exponent = 971 := by omega
    obtain rfl | rfl : significand = 2 ^ 53 - 1 ∨ significand = 2 ^ 53 - 2 := by omega
    · cases negative <;> decide +kernel
    · cases negative <;> decide +kernel

end ClaimQueue.Json
