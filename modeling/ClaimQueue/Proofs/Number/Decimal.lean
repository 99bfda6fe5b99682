import ClaimQueue.Proofs.Number.Shortest

/-! What is read for a decimal. Its digits are rounded, the power of ten is rounded, and so is their
product or quotient; where a quotient would need too large a power it goes in steps. No quotient
leaves the range, and a product stays in it if the decimal keeps two roundings away from its end. -/

namespace ClaimQueue.Number.Binary64

variable {x y p : Binary64}

theorem ten_pow_lt_ceiling {k : ℕ} (small : k ≤ 308) : 10 ^ k < ceiling :=
  Nat.lt_of_le_of_lt (Nat.pow_le_pow_right (by decide) small) (by decide +kernel)

theorem ceiling_lt_ten_pow {k : ℕ} (large : 308 < k) : ceiling < 10 ^ k :=
  Nat.lt_of_lt_of_le (by decide +kernel) (Nat.pow_le_pow_right (by decide) large)

/-- A whole number, rounded. -/
theorem ofNat?_spec {m : ℕ} (positive : 0 < m) (below : m < ceiling) :
    ∃ p, ofNat? m = some p ∧ p.Canonical ∧ (m : ℚ) / 2 ≤ p.size ∧
      p.size ≤ m * (1 + 1 / 2 ^ 53) := by
  have one : (1 : ℚ) ≤ m := by exact_mod_cast positive
  have whole : (m : ℚ) / (1 : ℕ) = m := by rw [Nat.cast_one, div_one]
  have inside : (m : ℚ) / (1 : ℕ) < ceiling := by
    rw [whole]
    exact Nat.cast_lt.mpr below
  have some : (nearest false m 1).isSome := nearest_isSome Nat.one_pos inside
  obtain ⟨p, rounded⟩ := Option.isSome_iff_exists.mp some
  obtain ⟨-, canonical, e, -, grid, near⟩ := nearest_spec positive Nat.one_pos rounded
  have large : 1 ≤ (m : ℚ) / (1 : ℕ) := by rwa [whole]
  have half := grid.half_le large
  refine ⟨p, rounded, canonical, ?_, whole ▸ nearest_size_le positive Nat.one_pos rounded large⟩
  rw [whole] at half near
  have part : (m : ℚ) / 2 ^ 53 ≤ m / 2 := by
    apply div_le_div_of_nonneg_left <;> norm_num
  linarith [(abs_le.mp near).1]

theorem times_ratio (x y : Binary64) :
    ((x.ratio.1 * y.ratio.1 : ℕ) : ℚ) / (x.ratio.2 * y.ratio.2 : ℕ) = x.size * y.size := by
  rw [Nat.cast_mul, Nat.cast_mul, mul_div_mul_comm, ratio_div, ratio_div]

theorem quotient_ratio (x y : Binary64) :
    ((x.ratio.1 * y.ratio.2 : ℕ) : ℚ) / (x.ratio.2 * y.ratio.1 : ℕ) = x.size / y.size := by
  rw [Nat.cast_mul, Nat.cast_mul, mul_div_mul_comm, ← ratio_div x, ← ratio_div y,
    div_eq_mul_inv _ (_ / _), inv_div]

theorem times_isSome (below : x.size * y.size < ceiling) : (x.times y).isSome :=
  nearest_isSome (Nat.mul_pos x.ratio_pos y.ratio_pos) (by rwa [times_ratio])

theorem times_canonical (h : x.times y = some p) : p.Canonical :=
  nearest_canonical (Nat.mul_pos x.ratio_pos y.ratio_pos) h

theorem ratio_num_pos_of_size (h : 0 < x.size) : 0 < x.ratio.1 := by
  refine Nat.pos_of_ne_zero fun zero => ?_
  rw [← ratio_div, zero, Nat.cast_zero, zero_div] at h
  exact lt_irrefl 0 h

theorem quotient_isSome (divisor : 0 < y.size) (below : x.size / y.size < ceiling) :
    (x.quotient y).isSome :=
  nearest_isSome (Nat.mul_pos x.ratio_pos (ratio_num_pos_of_size divisor)) (by rwa [quotient_ratio])

theorem quotient_canonical (divisor : 0 < y.size) (h : x.quotient y = some p) : p.Canonical :=
  nearest_canonical (Nat.mul_pos x.ratio_pos (ratio_num_pos_of_size divisor)) h

/-- Rounding at most doubles what is not tiny. -/
theorem quotient_size_le (divisor : 0 < y.size) (h : x.quotient y = some p) :
    p.size ≤ 2 * (x.size / y.size) + 1 := by
  have denominator := Nat.mul_pos x.ratio_pos (ratio_num_pos_of_size divisor)
  rcases Nat.eq_zero_or_pos (x.ratio.1 * y.ratio.2) with none | numerator
  · rw [quotient, none, nearest_zero] at h
    cases h
    rw [size_zero]
    linarith [div_nonneg x.size_nonneg (le_of_lt divisor)]
  · obtain ⟨-, -, e, -, grid, near⟩ := nearest_spec numerator denominator h
    rw [quotient_ratio] at near grid
    have half : (2 : ℚ) ^ e / 2 ≤ x.size / y.size + 1 := by
      rcases grid.full with least | full
      · have tiny : (2 : ℚ) ^ e ≤ 2 ^ (0 : ℤ) := two_zpow_le_iff.mpr (by omega)
        rw [zpow_zero] at tiny
        linarith [div_nonneg x.size_nonneg (le_of_lt divisor)]
      · have bits : (2 : ℚ) ^ (e + 52) = 2 ^ 52 * 2 ^ e := two_zpow_add e 52
        rw [bits] at full
        linarith [two_zpow_pos e]
    linarith [(abs_le.mp near).2]

/-- A power of ten that scales. -/
theorem tenPower (k : ℕ) (small : k ≤ 308) : ∃ p, ofNat? (10 ^ k) = some p ∧ 0 < p.size ∧
    (k ≠ 0 → 4 ≤ p.size) ∧ p.size ≤ 10 ^ k * (1 + 1 / 2 ^ 53) := by
  obtain ⟨p, rounded, -, low, high⟩ :=
    ofNat?_spec (Nat.pow_pos (by decide : 0 < 10)) (ten_pow_lt_ceiling small)
  rw [Nat.cast_pow, Nat.cast_ofNat] at low high
  have positive : (0 : ℚ) < 10 ^ k := by positivity
  refine ⟨p, rounded, by linarith, fun nonzero => ?_, high⟩
  have large : (10 : ℚ) ^ 1 ≤ 10 ^ k := pow_le_pow_right₀ (by norm_num) (by omega)
  linarith

/-- One round of scaling. -/
theorem scaleTen_of_small {e : ℤ} (small : e.natAbs ≤ 308) (steps : ℕ)
    (power : ofNat? (10 ^ e.natAbs) = some p) :
    x.scaleTen e (steps + 1) = if 0 ≤ e then x.times p else x.quotient p := by
  rw [scaleTen, if_pos small, power]
  rfl

theorem scaleTen_of_large {e : ℤ} (large : ¬ e.natAbs ≤ 308) (negative : e < 0) (steps : ℕ)
    (power : ofNat? (10 ^ 308) = some p) :
    x.scaleTen e (steps + 1) =
      if x.isZero then some x else (x.quotient p).bind fun y => y.scaleTen (e + 308) steps := by
  rw [scaleTen, if_neg large, if_neg (not_le.mpr negative), power]
  rfl

/-- Scaling down never leaves the range. -/
theorem scaleTen_isSome (steps : ℕ) {x : Binary64} {e : ℤ} (down : e ≤ 0) (small : x.size ≤ 2 ^ 65) :
    (x.scaleTen e steps).isSome := by
  have room : ((2 ^ 66 : ℕ) : ℚ) < ceiling := Nat.cast_lt.mpr (by decide +kernel)
  push_cast at room
  have smaller {p : Binary64} (one : 1 ≤ p.size) : x.size / p.size ≤ x.size :=
    div_le_self x.size_nonneg one
  induction steps generalizing x e with
  | zero => rfl
  | succ steps ih =>
    by_cases near : e.natAbs ≤ 308
    · obtain ⟨p, power, divisor, large, high⟩ := tenPower e.natAbs near
      rw [scaleTen_of_small near steps power]
      split
      · obtain rfl : e = 0 := by omega
        refine times_isSome (lt_of_le_of_lt ?_ room)
        rw [Int.natAbs_zero, pow_zero] at high
        nlinarith [x.size_nonneg, p.size_nonneg]
      · exact quotient_isSome divisor (by linarith [smaller (by linarith [large (by omega)])])
    · obtain ⟨p, power, divisor, large, -⟩ := tenPower 308 (Nat.le_refl _)
      have four := large (by decide)
      rw [scaleTen_of_large near (by omega) steps power]
      split
      · rfl
      · obtain ⟨y, divided⟩ := Option.isSome_iff_exists.mp
          (quotient_isSome divisor (lt_of_le_of_lt (smaller (by linarith)) (by linarith)))
        have part : x.size / p.size ≤ x.size / 4 :=
          div_le_div_of_nonneg_left x.size_nonneg (by norm_num) four
        rw [divided]
        exact ih (by omega) (by linarith [quotient_size_le divisor divided])
          fun one => div_le_self y.size_nonneg one

theorem scaleTen_canonical (steps : ℕ) {x : Binary64} {e : ℤ} (hx : x.Canonical) {y : Binary64}
    (h : x.scaleTen e steps = some y) : y.Canonical := by
  induction steps generalizing x e with
  | zero =>
    cases h
    exact canonical_zero false
  | succ steps ih =>
    by_cases near : e.natAbs ≤ 308
    · obtain ⟨p, power, divisor, -, -⟩ := tenPower e.natAbs near
      rw [scaleTen_of_small near steps power] at h
      split at h
      · exact times_canonical h
      · exact quotient_canonical divisor h
    · obtain ⟨p, power, divisor, -, -⟩ := tenPower 308 (Nat.le_refl _)
      by_cases down : e < 0
      · rw [scaleTen_of_large near down steps power] at h
        split at h
        · cases h
          exact hx
        · obtain ⟨z, divided, rest⟩ := Option.bind_eq_some_iff.mp h
          exact ih (quotient_canonical divisor divided) rest
      · rw [scaleTen, if_neg near, if_pos (not_lt.mp down)] at h
        split at h
        · cases h
          exact hx
        · cases h

/-! Decimals. -/

theorem ofNat?_canonical {n : ℕ} (h : ofNat? n = some x) : x.Canonical :=
  nearest_canonical Nat.one_pos h

theorem negate_canonical (hx : x.Canonical) : x.negate.Canonical :=
  ⟨hx.small, hx.least, hx.greatest, hx.full⟩

theorem ofDecimal?_canonical {negative : Bool} {n : ℕ} {e : ℤ}
    (h : ofDecimal? negative n e = some x) : x.Canonical := by
  obtain ⟨whole, rounded, rest⟩ := Option.bind_eq_some_iff.mp h
  obtain ⟨scaled, scales, same⟩ := Option.bind_eq_some_iff.mp rest
  have canonical := scaleTen_canonical 4 (ofNat?_canonical rounded) scales
  cases negative with
  | false =>
    cases same
    exact canonical
  | true =>
    cases same
    exact negate_canonical canonical

theorem ofDecimal?_isSome {negative : Bool} {n : ℕ} {e : ℤ} (rounded : ofNat? n = some x)
    (scaled : (x.scaleTen e 4).isSome) : (ofDecimal? negative n e).isSome := by
  obtain ⟨y, scaled⟩ := Option.isSome_iff_exists.mp scaled
  rw [ofDecimal?, rounded, Option.bind_eq_bind, Option.bind_some, scaled]
  rfl

theorem ofNat?_zero : ofNat? 0 = some (zero false) := rfl

/-- Decimals without a positive power of ten are in range. -/
theorem ofDecimal?_isSome_of_nonpos (negative : Bool) {n : ℕ} (small : n < 2 ^ 64) {e : ℤ}
    (down : e ≤ 0) : (ofDecimal? negative n e).isSome := by
  rcases Nat.eq_zero_or_pos n with rfl | positive
  · exact ofDecimal?_isSome ofNat?_zero (scaleTen_isSome 4 down (by rw [size_zero]; positivity))
  · have below : n < ceiling := Nat.lt_trans small (by decide +kernel)
    obtain ⟨x, rounded, -, -, high⟩ := ofNat?_spec positive below
    have small : (n : ℚ) < 2 ^ 64 := by exact_mod_cast small
    exact ofDecimal?_isSome rounded (scaleTen_isSome 4 down (by linarith))

/-- Others are, if they are so after two roundings. -/
theorem ofDecimal?_isSome_of_room (negative : Bool) {n : ℕ} {e : ℤ} (up : 0 ≤ e)
    (room : (n : ℚ) * 10 ^ e * (1 + 1 / 2 ^ 53) ^ 2 < ceiling) :
    (ofDecimal? negative n e).isSome := by
  obtain ⟨k, rfl⟩ := Int.eq_ofNat_of_zero_le up
  rw [zpow_natCast] at room
  rcases Nat.eq_zero_or_pos n with rfl | positive
  · refine ofDecimal?_isSome ofNat?_zero ?_
    by_cases near : (k : ℤ).natAbs ≤ 308
    · obtain ⟨p, power, -⟩ := tenPower _ near
      rw [scaleTen_of_small near 3 power, if_pos up]
      refine times_isSome ?_
      rw [size_zero, zero_mul]
      exact_mod_cast (by decide +kernel : 0 < ceiling)
    · rw [scaleTen, if_neg near]
      rfl
  · have one : (1 : ℚ) ≤ n := by exact_mod_cast positive
    have ten : (0 : ℚ) < 10 ^ k := by positivity
    have least : (1 : ℚ) ≤ 10 ^ k := one_le_pow₀ (by norm_num)
    have whole : (n : ℚ) * 10 ^ k < ceiling := by
      nlinarith [mul_pos (lt_of_lt_of_le one_pos one) ten]
    have below : n < ceiling := by
      have : (n : ℚ) < ceiling := by nlinarith
      exact_mod_cast this
    have few : k ≤ 308 := by
      refine Nat.not_lt.mp fun many => ?_
      have most : n * 10 ^ k < ceiling := by exact_mod_cast whole
      have := Nat.le_mul_of_pos_left (10 ^ k) positive
      have := ceiling_lt_ten_pow many
      omega
    have near : (k : ℤ).natAbs ≤ 308 := few
    obtain ⟨x, rounded, -, -, high⟩ := ofNat?_spec positive below
    obtain ⟨p, power, -, -, most⟩ := tenPower _ near
    refine ofDecimal?_isSome rounded ?_
    rw [scaleTen_of_small near 3 power, if_pos up]
    refine times_isSome (lt_of_le_of_lt ?_ room)
    rw [Int.natAbs_natCast] at most
    calc x.size * p.size ≤ n * (1 + 1 / 2 ^ 53) * (10 ^ k * (1 + 1 / 2 ^ 53)) :=
          mul_le_mul high most p.size_nonneg (by positivity)
      _ = n * 10 ^ k * (1 + 1 / 2 ^ 53) ^ 2 := by ring

/-- The decimal of a number can be read, except perhaps for the two largest. -/
theorem Shows.ofDecimal?_isSome {n : ℕ} {e : ℤ} (h : x.Shows n e) (hx : x.Canonical)
    (inner : x.significand < 2 ^ 53 - 2 ∨ x.exponent < 971) {negative : Bool} {m : ℕ} {f : ℤ}
    (small : m < 2 ^ 64) (same : (m : ℚ) * 10 ^ f = n * 10 ^ e) :
    (ofDecimal? negative m f).isSome := by
  rcases le_total f 0 with down | up
  · exact ofDecimal?_isSome_of_nonpos negative small down
  refine ofDecimal?_isSome_of_room negative up ?_
  have near := h.le_size
  have step := two_zpow_pos x.exponent
  rw [same, ceiling_eq]
  rw [size] at near
  generalize (n : ℚ) * 10 ^ e = v at near
  -- either the significand or the exponent leaves room for two roundings
  have room : v ≤ (2 ^ 53 - 5 / 2) * 2 ^ (971 : ℤ) := by
    rcases inner with low | inner
    · have low : x.significand + 3 ≤ 2 ^ 53 := by omega
      have low : (x.significand : ℚ) + 3 ≤ 2 ^ 53 := by exact_mod_cast low
      have steps : (2 : ℚ) ^ x.exponent ≤ 2 ^ (971 : ℤ) := two_zpow_le_iff.mpr hx.greatest
      generalize (2 : ℚ) ^ (971 : ℤ) = t at steps ⊢
      nlinarith
    · have low : x.significand + 1 ≤ 2 ^ 53 := hx.small
      have low : (x.significand : ℚ) + 1 ≤ 2 ^ 53 := by exact_mod_cast low
      have steps : (2 : ℚ) ^ (x.exponent + 1) ≤ 2 ^ (971 : ℤ) := two_zpow_le_iff.mpr inner
      rw [two_zpow_succ] at steps
      generalize (2 : ℚ) ^ (971 : ℤ) = t at steps ⊢
      nlinarith
  have largest := two_zpow_pos 971
  generalize (2 : ℚ) ^ (971 : ℤ) = t at room largest ⊢
  have factor : (2 ^ 53 - 5 / 2 : ℚ) * (1 + 1 / 2 ^ 53) ^ 2 < 2 ^ 53 - 1 / 2 := by norm_num
  nlinarith

end ClaimQueue.Number.Binary64
