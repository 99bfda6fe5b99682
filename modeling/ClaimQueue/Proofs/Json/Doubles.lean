import ClaimQueue.Proofs.Json.Numbers
import Mathlib.Data.List.TakeWhile
import Mathlib.Tactic.IntervalCases

/-! A written binary64 number is a numeral after its sign, whichever of the two forms it has. -/

namespace ClaimQueue

open Json.Scan

namespace Number

theorem isDigit_zeros (n : Nat) : ∀ c ∈ zeros n, c.isDigit = true := by
  intro c mem
  rw [List.eq_of_mem_replicate mem]
  rfl

theorem numeral_positional {digits : List Char} (h : ∀ c ∈ digits, c.isDigit = true) (whole : Int) :
    Numeral (positional digits whole) := by
  unfold positional
  split
  · have frac : ∀ c ∈ zeros (-whole).toNat ++ digits, c.isDigit = true := fun c mem =>
      (List.mem_append.mp mem).elim (isDigit_zeros _ c) (h c)
    have zero : ∀ c ∈ ['0'], c.isDigit = true := by simp
    have written := Numeral.mk (List.cons_ne_nil _ _) zero (.point frac .none)
    simpa using written
  · rename_i positive
    simp only
    split
    · have front : ∀ c ∈ digits ++ zeros (whole.toNat - digits.length), c.isDigit = true :=
        fun c mem => (List.mem_append.mp mem).elim (h c) (isDigit_zeros _ c)
      have nonempty : digits ++ zeros (whole.toNat - digits.length) ≠ [] := by
        refine List.ne_nil_of_length_pos ?_
        simp only [zeros, List.length_append, List.length_replicate]
        omega
      have last : ∀ c ∈ ['0'], c.isDigit = true := by simp
      have written := Numeral.mk nonempty front (.point last .none)
      simpa using written
    · rename_i long
      have front : ∀ c ∈ digits.take whole.toNat, c.isDigit = true :=
        fun c mem => h c (List.mem_of_mem_take mem)
      have back : ∀ c ∈ digits.drop whole.toNat, c.isDigit = true :=
        fun c mem => h c (List.mem_of_mem_drop mem)
      have nonempty : digits.take whole.toNat ≠ [] := by
        refine List.ne_nil_of_length_pos ?_
        rw [List.length_take]
        omega
      have written := Numeral.mk nonempty front (.point back .none)
      simpa using written

theorem numeral_scientific {digits : List Char} (nonempty : digits ≠ [])
    (h : ∀ c ∈ digits, c.isDigit = true) (exponent : Int) :
    Numeral (scientific digits exponent) := by
  have power : Power
      ('e' :: (if exponent < 0 then '-' else '+') :: Nat.toDigits 10 exponent.natAbs) := by
    refine .some ?_ (isDigit_toDigits _)
    split
    · exact .inr rfl
    · exact .inl rfl
  unfold scientific
  match digits with
  | [] => exact absurd rfl nonempty
  | [d] => exact Numeral.mk (List.cons_ne_nil _ _) h (.power power)
  | d :: e :: rest =>
    have frac : ∀ c ∈ e :: rest, c.isDigit = true := fun c mem => h c (List.mem_cons_of_mem _ mem)
    have first : ∀ c ∈ [d], c.isDigit = true := fun c mem =>
      h c (List.mem_singleton.mp mem ▸ List.mem_cons_self)
    have written := Numeral.mk (by simp) first (.point frac power)
    simpa using written

namespace Binary64

theorem onGrid?_ne_zero {x : Binary64} {e : Int} {n : Nat} (h : x.onGrid? e = some n) : n ≠ 0 := by
  have read {n : Nat} (back : x.readsBack n e = true) : n ≠ 0 := by
    simp only [readsBack, Bool.and_eq_true, bne_iff_ne] at back
    exact back.1
  have chosen {a b : Nat} (h : (if x.readsBack a e then some a
      else if x.readsBack b e then some b else none) = some n) : n ≠ 0 := by
    split at h
    · rename_i back
      exact Option.some.inj h ▸ read back
    · split at h
      · rename_i back
        exact Option.some.inj h ▸ read back
      · cases h
  exact chosen h

theorem shortestFrom_ne_zero (x : Binary64) (top : Int) (left count : Nat) :
    (x.shortestFrom top left count).1 ≠ 0 ∨ x.shortestFrom top left count = (0, 0) := by
  induction left generalizing count with
  | zero => exact .inr rfl
  | succ left ih =>
    rw [shortestFrom]
    split
    · rename_i found
      exact .inl (onGrid?_ne_zero found)
    · exact ih (count + 1)

/-- The digits without the zeros at their end. -/
def significant (n : Nat) : List Char :=
  ((Nat.toDigits 10 n).reverse.dropWhile (· == '0')).reverse

theorem isDigit_significant (n : Nat) : ∀ c ∈ significant n, c.isDigit = true := fun c mem =>
  isDigit_toDigits n c (List.mem_reverse.mp
    ((List.dropWhile_sublist _).subset (List.mem_reverse.mp mem)))

theorem significant_ne_nil {n : Nat} (h : n ≠ 0) : significant n ≠ [] := by
  intro nil
  have zeros := List.dropWhile_eq_nil_iff.mp (List.reverse_eq_nil_iff.mp nil)
  obtain ⟨c, cs, first, alone⟩ := toDigits_cons n
  have zero : c = '0' := by
    refine beq_iff_eq.mp (zeros c (List.mem_reverse.mpr ?_))
    rw [first]
    exact List.mem_cons_self
  have value : Nat.ofDigitChars 10 (Nat.toDigits 10 n) 0 = n := Nat.ofDigitChars_ten_toDigits
  rw [first, alone (by rw [zero]; rfl), zero] at value
  exact h value.symm

theorem numeral_magnitude (x : Binary64) : Numeral x.magnitude := by
  unfold magnitude
  split
  · have frac : ∀ c ∈ ['0'], c.isDigit = true := by simp
    exact Numeral.mk (List.cons_ne_nil _ _) frac (.point frac .none)
  · rcases shortestFrom_ne_zero x (decimalExponent x.ratio.1 x.ratio.2) 17 1 with nonzero | zero
    · have digits := isDigit_significant x.shortest.1
      simp only
      split
      · exact numeral_positional digits _
      · exact numeral_scientific (significant_ne_nil nonzero) digits _
    · have shortest : x.shortest = (0, 0) := zero
      simp only [shortest]
      rw [if_pos (by decide)]
      exact numeral_positional (isDigit_significant 0) _

end Binary64

end Number

namespace Json.Scan

theorem digitChar_of_isDigit {c : Char} (h : c.isDigit = true) : ∃ n < 10, c = Nat.digitChar n := by
  simp only [Char.isDigit, Bool.and_eq_true, decide_eq_true_eq] at h
  have low : 48 ≤ c.toNat := h.1
  have high : c.toNat ≤ 57 := h.2
  obtain ⟨n, same⟩ : ∃ n, c.toNat = n := ⟨_, rfl⟩
  have back : c = Char.ofNat n := by rw [← same, Char.ofNat_toNat]
  rw [same] at low high
  refine ⟨n - 48, by omega, ?_⟩
  rw [back]
  interval_cases n <;> rfl

theorem value_of_digit {c : Char} (h : c.isDigit = true) (depth : Nat) (s : Source) :
    value depth (some c :: s) = number false (some c :: s) := by
  obtain ⟨n, small, rfl⟩ := digitChar_of_isDigit h
  rw [value]
  interval_cases n <;> rfl

theorem value_of_minus (depth : Nat) (s : Source) :
    value depth (some '-' :: s) = number true s := by
  rw [value]
  rfl

end Json.Scan

end ClaimQueue
