import ClaimQueue.Number.Binary64
import Mathlib.Algebra.Order.Field.Power
import Mathlib.Tactic.Linarith
import Mathlib.Tactic.Positivity
import Mathlib.Tactic.NormNum
import Mathlib.Tactic.FieldSimp
import Mathlib.Tactic.Ring

/-! Binary64 numbers as rationals, and how far rounding leads away from a ratio. A ratio is rounded
on the grid of a power of two that leaves it 53 bits; it goes half a step at most. -/

namespace ClaimQueue.Number

/-! Powers of a base in ratios. -/

section base

variable {b : ℕ}

/-- `n * b ^ e` as a ratio. -/
def raised (b n : ℕ) : ℤ → ℕ × ℕ
  | .ofNat e => (n * b ^ e, 1)
  | .negSucc e => (n, b ^ (e + 1))

/-- `num / den` divided by `b ^ e`, as a ratio. -/
def lowered (b num den : ℕ) : ℤ → ℕ × ℕ
  | .ofNat e => (num, den * b ^ e)
  | .negSucc e => (num * b ^ (e + 1), den)

theorem raised_pos (hb : 0 < b) (n : ℕ) (e : ℤ) : 0 < (raised b n e).2 := by
  cases e with
  | ofNat e => exact Nat.one_pos
  | negSucc e => exact Nat.pow_pos hb

theorem raised_num_pos (hb : 0 < b) {n : ℕ} (h : n ≠ 0) (e : ℤ) : 0 < (raised b n e).1 := by
  cases e with
  | ofNat e => exact Nat.mul_pos (Nat.pos_of_ne_zero h) (Nat.pow_pos hb)
  | negSucc e => exact Nat.pos_of_ne_zero h

theorem raised_div (b n : ℕ) (e : ℤ) :
    ((raised b n e).1 : ℚ) / (raised b n e).2 = n * (b : ℚ) ^ e := by
  cases e with
  | ofNat e => simp [raised]
  | negSucc e => simp [raised, zpow_negSucc, div_eq_mul_inv]

theorem lowered_pos (hb : 0 < b) (num : ℕ) {den : ℕ} (hd : 0 < den) (e : ℤ) :
    0 < (lowered b num den e).2 := by
  cases e with
  | ofNat e => exact Nat.mul_pos hd (Nat.pow_pos hb)
  | negSucc e => exact hd

theorem lowered_div (b num den : ℕ) (e : ℤ) :
    ((lowered b num den e).1 : ℚ) / (lowered b num den e).2 = (num : ℚ) / den / (b : ℚ) ^ e := by
  cases e with
  | ofNat e => simp [lowered, div_div]
  | negSucc e =>
    simp only [lowered, zpow_negSucc, div_inv_eq_mul]
    push_cast
    ring

end base

theorem scaleDown_eq : Binary64.scaleDown = lowered 2 := by
  funext num den e
  cases e <;> rfl

theorem ratio_eq (x : Binary64) : x.ratio = raised 2 x.significand x.exponent := by
  obtain ⟨negative, significand, exponent⟩ := x
  cases exponent <;> rfl

namespace Binary64

/-- The magnitude as a rational. -/
def size (x : Binary64) : ℚ := x.significand * 2 ^ x.exponent

theorem two_zpow_pos (e : ℤ) : (0 : ℚ) < 2 ^ e := zpow_pos (by norm_num) e

theorem two_zpow_succ (e : ℤ) : (2 : ℚ) ^ (e + 1) = 2 * 2 ^ e := by
  rw [zpow_add_one₀ (by norm_num), mul_comm]

theorem two_zpow_add (e : ℤ) (n : ℕ) : (2 : ℚ) ^ (e + n) = 2 ^ n * 2 ^ e := by
  rw [zpow_add₀ (by norm_num), zpow_natCast, mul_comm]

theorem two_zpow_lt_iff {a b : ℤ} : (2 : ℚ) ^ a < 2 ^ b ↔ a < b :=
  zpow_lt_zpow_iff_right₀ (by norm_num)

theorem two_zpow_le_iff {a b : ℤ} : (2 : ℚ) ^ a ≤ 2 ^ b ↔ a ≤ b :=
  zpow_le_zpow_iff_right₀ (by norm_num)

theorem size_nonneg (x : Binary64) : 0 ≤ x.size :=
  mul_nonneg (Nat.cast_nonneg _) (le_of_lt (two_zpow_pos _))

theorem size_zero (negative : Bool) : (zero negative).size = 0 := by
  rw [size, zero, Nat.cast_zero, zero_mul]

theorem ratio_pos (x : Binary64) : 0 < x.ratio.2 := by
  rw [ratio_eq]
  exact raised_pos (by decide) _ _

theorem ratio_num_pos {x : Binary64} (nonzero : x.significand ≠ 0) : 0 < x.ratio.1 := by
  rw [ratio_eq]
  exact raised_num_pos (by decide) nonzero _

theorem ratio_div (x : Binary64) : (x.ratio.1 : ℚ) / x.ratio.2 = x.size := by
  rw [ratio_eq]
  exact raised_div 2 _ _

theorem scaleDown_pos (num : ℕ) {den : ℕ} (hd : 0 < den) (e : ℤ) :
    0 < (scaleDown num den e).2 := by
  rw [scaleDown_eq]
  exact lowered_pos (by decide) num hd e

theorem scaleDown_div (num den : ℕ) (e : ℤ) :
    ((scaleDown num den e).1 : ℚ) / (scaleDown num den e).2 = (num : ℚ) / den / 2 ^ e := by
  rw [scaleDown_eq]
  exact lowered_div 2 num den e

/-! Rounding to whole numbers. -/

/-- Half a step at most. -/
theorem roundHalfEven_near (num : ℕ) {den : ℕ} (positive : 0 < den) :
    |(roundHalfEven num den : ℚ) - (num : ℚ) / den| ≤ 1 / 2 := by
  have d : (0 : ℚ) < den := by exact_mod_cast positive
  obtain ⟨q, whole⟩ : ∃ q, num / den = q := ⟨_, rfl⟩
  obtain ⟨r, part⟩ : ∃ r, num % den = r := ⟨_, rfl⟩
  have value : (num : ℚ) / den = q + (r : ℚ) / den := by
    have sum : (num : ℚ) = den * q + r := by
      rw [← whole, ← part]
      exact_mod_cast (Nat.div_add_mod num den).symm
    rw [sum]
    field_simp
  have least : (0 : ℚ) ≤ (r : ℚ) / den := by positivity
  have below : (r : ℚ) / den < 1 := by
    rw [div_lt_one d, ← part]
    exact_mod_cast Nat.mod_lt num positive
  simp only [roundHalfEven, whole, part, value]
  rw [abs_le]
  split
  · rename_i low
    have low : (r : ℚ) / den < 1 / 2 := by
      rw [div_lt_div_iff₀ d (by norm_num)]
      norm_cast
      omega
    constructor <;> linarith
  · split
    · rename_i high
      have high : 1 / 2 < (r : ℚ) / den := by
        rw [div_lt_div_iff₀ (by norm_num) d]
        norm_cast
        omega
      push_cast
      constructor <;> linarith
    · have tie : (r : ℚ) / den = 1 / 2 := by
        rw [div_eq_div_iff (ne_of_gt d) (by norm_num)]
        norm_cast
        omega
      have even : ((q % 2 : ℕ) : ℚ) = 0 ∨ ((q % 2 : ℕ) : ℚ) = 1 := by
        rcases Nat.mod_two_eq_zero_or_one q with even | odd
        · exact .inl (by rw [even]; rfl)
        · exact .inr (by rw [odd]; rfl)
      push_cast [tie] at *
      rcases even with even | odd <;> constructor <;> linarith

/-! The grid. -/

/-- The power of two that leaves a positive rational 53 bits, or the least there is. -/
structure Grid (v : ℚ) (e : ℤ) : Prop where
  least : -1074 ≤ e
  below : v < 2 ^ (e + 53)
  full : e = -1074 ∨ 2 ^ (e + 52) ≤ v

theorem Grid.unique {v : ℚ} {e f : ℤ} (he : Grid v e) (hf : Grid v f) : e = f := by
  have one {e f : ℤ} (he : Grid v e) (hf : Grid v f) : e ≤ f := by
    rcases he.full with least | full
    · rw [least]
      exact hf.least
    · have := two_zpow_lt_iff.mp (lt_of_le_of_lt full hf.below)
      omega
  exact le_antisymm (one he hf) (one hf he)

/-- With 53 bits left, or at the least power. -/
theorem Grid.of_full {v : ℚ} {f : ℤ} (full : 2 ^ (f + 52) ≤ v) (below : v < 2 ^ (f + 53)) :
    Grid v (max f (-1074)) where
  least := le_max_right _ _
  below := lt_of_lt_of_le below (two_zpow_le_iff.mpr (add_le_add_left (le_max_left _ _) _))
  full := by
    rcases le_total f (-1074) with deep | shallow
    · exact .inl (max_eq_right deep)
    · rw [max_eq_left shallow]
      exact .inr full

theorem log2_bounds {n : ℕ} (positive : 0 < n) :
    (2 : ℚ) ^ (Nat.log2 n : ℤ) ≤ n ∧ (n : ℚ) < 2 ^ ((Nat.log2 n : ℤ) + 1) := by
  have next : (Nat.log2 n : ℤ) + 1 = (Nat.log2 n + 1 : ℕ) := by push_cast; rfl
  rw [next, zpow_natCast, zpow_natCast]
  exact ⟨by exact_mod_cast Nat.log2_self_le (Nat.ne_of_gt positive),
    by exact_mod_cast Nat.lt_log2_self⟩

/-- The logarithms leave a ratio 52 or 53 bits. -/
theorem ratio_bounds {num den : ℕ} (hn : 0 < num) (hd : 0 < den) {e : ℤ}
    (logs : e = (Nat.log2 num : ℤ) - Nat.log2 den - 52) :
    (2 : ℚ) ^ (e + 51) ≤ (num : ℚ) / den ∧ (num : ℚ) / den < 2 ^ (e + 53) := by
  have d : (0 : ℚ) < den := by exact_mod_cast hd
  obtain ⟨numLow, numHigh⟩ := log2_bounds hn
  obtain ⟨denLow, denHigh⟩ := log2_bounds hd
  rw [le_div_iff₀ d, div_lt_iff₀ d]
  constructor
  · calc (2 : ℚ) ^ (e + 51) * den ≤ 2 ^ (e + 51) * 2 ^ ((Nat.log2 den : ℤ) + 1) :=
          mul_le_mul_of_nonneg_left (le_of_lt denHigh) (le_of_lt (two_zpow_pos _))
      _ = 2 ^ (Nat.log2 num : ℤ) := by
          rw [← zpow_add₀ (by norm_num)]
          congr 1
          omega
      _ ≤ num := numLow
  · calc (num : ℚ) < 2 ^ ((Nat.log2 num : ℤ) + 1) := numHigh
      _ = 2 ^ (e + 53) * 2 ^ (Nat.log2 den : ℤ) := by
          rw [← zpow_add₀ (by norm_num)]
          congr 1
          omega
      _ ≤ 2 ^ (e + 53) * den := mul_le_mul_of_nonneg_left denLow (le_of_lt (two_zpow_pos _))

/-- A ratio scaled down has less than 53 bits if the ratio is below the power. -/
theorem scaleDown_lt_iff (num : ℕ) {den : ℕ} (hd : 0 < den) (e : ℤ) :
    (scaleDown num den e).1 < 2 ^ 52 * (scaleDown num den e).2 ↔
      (num : ℚ) / den < 2 ^ (e + 52) := by
  have s : (0 : ℚ) < (scaleDown num den e).2 := by exact_mod_cast scaleDown_pos num hd e
  have bits : (2 : ℚ) ^ (e + 52) = 2 ^ 52 * 2 ^ e := two_zpow_add e 52
  rw [bits, ← div_lt_iff₀ (two_zpow_pos e), ← scaleDown_div, div_lt_iff₀ s]
  norm_cast

theorem grid_exponentFor {num den : ℕ} (hn : 0 < num) (hd : 0 < den) :
    Grid ((num : ℚ) / den) (exponentFor num den) := by
  obtain ⟨e, logs⟩ : ∃ e, e = (Nat.log2 num : ℤ) - Nat.log2 den - 52 := ⟨_, rfl⟩
  obtain ⟨low, high⟩ := ratio_bounds hn hd logs
  simp only [exponentFor, ← logs, scaleDown_lt_iff num hd]
  split
  · rename_i less
    refine .of_full ?_ ?_
    · rwa [show e - 1 + 52 = e + 51 by ring]
    · rwa [show e - 1 + 53 = e + 52 by ring]
  · rename_i more
    exact .of_full (not_lt.mp more) high

/-- Half a step at most, in steps or as a whole. -/
theorem near_of_near_scaled {v step : ℚ} (positive : 0 < step) {s : ℕ}
    (near : |(s : ℚ) - v / step| ≤ 1 / 2) : |(s : ℚ) * step - v| ≤ step / 2 := by
  have factor : (s : ℚ) * step - v = (s - v / step) * step := by
    rw [sub_mul, div_mul_cancel₀ v (ne_of_gt positive)]
  rw [factor, abs_mul, abs_of_pos positive]
  linarith [mul_le_mul_of_nonneg_right near (le_of_lt positive)]

theorem Grid.le_of_near {v : ℚ} {e : ℤ} {s : ℕ} (grid : Grid v e)
    (near : |(s : ℚ) - v / 2 ^ e| ≤ 1 / 2) : s ≤ 2 ^ 53 := by
  have bits : (2 : ℚ) ^ (e + 53) = 2 ^ 53 * 2 ^ e := two_zpow_add e 53
  have high : v / 2 ^ e < 2 ^ 53 := by
    rw [div_lt_iff₀ (two_zpow_pos e), ← bits]
    exact grid.below
  have bound : (s : ℚ) < 2 ^ 53 + 1 := by linarith [(abs_le.mp near).2]
  have bound : s < 2 ^ 53 + 1 := by exact_mod_cast bound
  omega

theorem Grid.full_of_near {v : ℚ} {e : ℤ} {s : ℕ} (grid : Grid v e)
    (near : |(s : ℚ) - v / 2 ^ e| ≤ 1 / 2) : e = -1074 ∨ 2 ^ 52 ≤ s := by
  refine grid.full.imp id fun full => ?_
  have bits : (2 : ℚ) ^ (e + 52) = 2 ^ 52 * 2 ^ e := two_zpow_add e 52
  have low : (2 : ℚ) ^ 52 ≤ v / 2 ^ e := by
    rw [le_div_iff₀ (two_zpow_pos e), ← bits]
    exact full
  have bound : (2 : ℚ) ^ 52 < s + 1 := by linarith [(abs_le.mp near).1]
  have bound : 2 ^ 52 < s + 1 := by exact_mod_cast bound
  omega

/-! Rounding to a number. -/

/-- What the fields of a number are. -/
structure Canonical (x : Binary64) : Prop where
  small : x.significand < 2 ^ 53
  least : -1074 ≤ x.exponent
  greatest : x.exponent ≤ 971
  full : x.exponent = -1074 ∨ 2 ^ 52 ≤ x.significand

theorem canonical_zero (negative : Bool) : (zero negative).Canonical :=
  ⟨Nat.pow_pos (by decide), Int.le_refl _, by simp [zero], .inl rfl⟩

theorem nearest_zero (negative : Bool) (den : ℕ) : nearest negative 0 den = some (zero negative) :=
  rfl

variable {negative : Bool} {num den : ℕ}

/-- A significand that needs one bit more moves the grid. -/
theorem nearest_of_grid (negative : Bool) {e : ℤ} (hn : 0 < num) (hd : 0 < den)
    (grid : Grid ((num : ℚ) / den) e) : ∃ s : ℕ, |(s : ℚ) - (num : ℚ) / den / 2 ^ e| ≤ 1 / 2 ∧
      nearest negative num den =
        if s = 2 ^ 53 then if 971 < e + 1 then none else some ⟨negative, 2 ^ 52, e + 1⟩
        else if 971 < e then none else some ⟨negative, s, e⟩ := by
  have same : exponentFor num den = e := (grid_exponentFor hn hd).unique grid
  have near := roundHalfEven_near (scaleDown num den e).1 (scaleDown_pos num hd e)
  rw [scaleDown_div] at near
  refine ⟨_, near, ?_⟩
  simp only [nearest, Nat.ne_of_gt hn, if_false, same]
  split <;> rfl

/-- A ratio is rounded to a number in reach of half a step of its grid. -/
theorem nearest_spec {x : Binary64} (hn : 0 < num) (hd : 0 < den)
    (h : nearest negative num den = some x) : x.negative = negative ∧ x.Canonical ∧
      ∃ e ≤ x.exponent, Grid ((num : ℚ) / den) e ∧ |x.size - (num : ℚ) / den| ≤ 2 ^ e / 2 := by
  obtain ⟨e, grid⟩ : ∃ e, Grid ((num : ℚ) / den) e := ⟨_, grid_exponentFor hn hd⟩
  obtain ⟨s, near, rounded⟩ := nearest_of_grid negative hn hd grid
  have least := grid.least
  have size := near_of_near_scaled (two_zpow_pos e) near
  rw [h] at rounded
  split at rounded
  · rename_i carry
    split at rounded
    · cases rounded
    · rename_i finite
      have same : ((2 ^ 52 : ℕ) : ℚ) * 2 ^ (e + 1) = s * 2 ^ e := by
        rw [two_zpow_succ, carry]
        push_cast
        ring
      cases rounded
      refine ⟨rfl, ⟨?_, ?_, not_lt.mp finite, .inr (Nat.le_refl _)⟩, e, by simp, grid, ?_⟩
      · exact Nat.pow_lt_pow_right (by decide) (by decide)
      · exact le_trans least (by simp)
      · rwa [Binary64.size, same]
  · rename_i kept
    split at rounded
    · cases rounded
    · rename_i finite
      cases rounded
      have bound := Nat.lt_of_le_of_ne (grid.le_of_near near) kept
      exact ⟨rfl, ⟨bound, least, not_lt.mp finite, grid.full_of_near near⟩, e, le_refl _, grid, size⟩

theorem nearest_canonical {x : Binary64} (hd : 0 < den) (h : nearest negative num den = some x) :
    x.Canonical := by
  rcases Nat.eq_zero_or_pos num with rfl | hn
  · rw [nearest_zero] at h
    cases h
    exact canonical_zero negative
  · exact (nearest_spec hn hd h).2.1

/-- Half a step is a small part of what fills the grid. -/
theorem Grid.half_le {v : ℚ} {e : ℤ} (grid : Grid v e) (large : 1 ≤ v) : 2 ^ e / 2 ≤ v / 2 ^ 53 := by
  have full : 2 ^ (e + 52) ≤ v := by
    refine grid.full.resolve_left ?_
    rintro rfl
    have below : v < 2 ^ (-1074 + 53 : ℤ) := grid.below
    have one : (2 : ℚ) ^ (-1074 + 53 : ℤ) ≤ 2 ^ (0 : ℤ) := two_zpow_le_iff.mpr (by omega)
    rw [zpow_zero] at one
    linarith
  have bits : (2 : ℚ) ^ (e + 52) = 2 ^ 52 * 2 ^ e := two_zpow_add e 52
  rw [bits] at full
  rw [le_div_iff₀ (by positivity)]
  linarith

/-- The relative error of rounding. -/
theorem nearest_size_le {x : Binary64} (hn : 0 < num) (hd : 0 < den)
    (h : nearest negative num den = some x) (large : 1 ≤ (num : ℚ) / den) :
    x.size ≤ (num : ℚ) / den * (1 + 1 / 2 ^ 53) := by
  obtain ⟨-, -, e, -, grid, near⟩ := nearest_spec hn hd h
  have half := grid.half_le large
  rw [mul_add, mul_one, mul_one_div]
  linarith [(abs_le.mp near).2]

/-- The least number that is too large: half a step above the largest of all. -/
def ceiling : ℕ := (2 ^ 54 - 1) * 2 ^ 970

theorem ceiling_eq : (ceiling : ℚ) = (2 ^ 53 - 1 / 2) * 2 ^ (971 : ℤ) := by
  have product (k : ℕ) : (((2 ^ 54 - 1) * 2 ^ k : ℕ) : ℚ) = (2 ^ 53 - 1 / 2) * 2 ^ (k + 1 : ℤ) := by
    rw [two_zpow_succ, zpow_natCast]
    push_cast
    ring
  rw [show (971 : ℤ) = ((970 : ℕ) : ℤ) + 1 from rfl, ← product]
  rfl

/-- What is below it is rounded to a number. -/
theorem nearest_isSome (hd : 0 < den) (below : (num : ℚ) / den < ceiling) :
    (nearest negative num den).isSome := by
  rcases Nat.eq_zero_or_pos num with rfl | hn
  · rfl
  rw [ceiling_eq] at below
  obtain ⟨e, grid⟩ : ∃ e, Grid ((num : ℚ) / den) e := ⟨_, grid_exponentFor hn hd⟩
  obtain ⟨s, near, rounded⟩ := nearest_of_grid negative hn hd grid
  generalize last : (971 : ℤ) = t at below rounded ⊢
  have inside : e ≤ t := by
    rcases grid.full with least | full
    · omega
    · have bits : (2 : ℚ) ^ (t + 53) = 2 ^ 53 * 2 ^ t := two_zpow_add t 53
      have bound : (2 : ℚ) ^ (e + 52) < 2 ^ (t + 53) := by linarith [two_zpow_pos t]
      have := two_zpow_lt_iff.mp bound
      omega
  rw [rounded]
  split
  · rename_i carry
    have above : e ≠ t := by
      rintro rfl
      have scaled : (num : ℚ) / den / 2 ^ e < 2 ^ 53 - 1 / 2 := by
        rwa [div_lt_iff₀ (two_zpow_pos e)]
      rw [carry] at near
      push_cast at near
      linarith [(abs_le.mp near).2]
    rw [if_neg (by omega)]
    rfl
  · rw [if_neg (by omega)]
    rfl

/-- A ratio closer to a whole number of steps than half a step is rounded to it. -/
theorem nearest_of_near_steps (negative : Bool) {e : ℤ} {m : ℕ} (hn : 0 < num) (hd : 0 < den)
    (grid : Grid ((num : ℚ) / den) e) (near : |(num : ℚ) / den - m * 2 ^ e| < 2 ^ e / 2) :
    nearest negative num den =
      if m = 2 ^ 53 then if 971 < e + 1 then none else some ⟨negative, 2 ^ 52, e + 1⟩
      else if 971 < e then none else some ⟨negative, m, e⟩ := by
  have step := two_zpow_pos e
  obtain ⟨s, rounds, rounded⟩ := nearest_of_grid negative hn hd grid
  have scaled : |(num : ℚ) / den / 2 ^ e - m| < 1 / 2 := by
    have factor : (num : ℚ) / den / 2 ^ e - m = ((num : ℚ) / den - m * 2 ^ e) / 2 ^ e := by
      rw [sub_div, mul_div_cancel_right₀ _ (ne_of_gt step)]
    rw [factor, abs_div, abs_of_pos step, div_lt_iff₀ step]
    linarith
  have apart : |(s : ℚ) - m| < 1 := by
    calc |(s : ℚ) - m| ≤ |s - (num : ℚ) / den / 2 ^ e| + |(num : ℚ) / den / 2 ^ e - m| :=
          abs_sub_le ..
      _ < 1 := by linarith
  have apart : |(s : ℤ) - m| < 1 := by exact_mod_cast apart
  have same : s = m := by
    have := Int.abs_lt_one_iff.mp apart
    omega
  rwa [same] at rounded

/-- A ratio closer to a number than half a step is rounded to it; below a power of two the steps are
half as long. -/
theorem nearest_of_near {x : Binary64} (hx : x.Canonical) (hn : 0 < num) (hd : 0 < den)
    (near : |(num : ℚ) / den - x.size| < 2 ^ x.exponent / 2)
    (closer : x.significand = 2 ^ 52 → x.size - (num : ℚ) / den < 2 ^ x.exponent / 4)
    (sign : x.negative = negative) : nearest negative num den = some x := by
  obtain ⟨sgn, m, e⟩ := x
  obtain rfl : sgn = negative := sign
  obtain ⟨v, value⟩ : ∃ v : ℚ, (num : ℚ) / den = v := ⟨_, rfl⟩
  have step := two_zpow_pos e
  have limit : ¬ 971 < e := not_lt.mpr hx.greatest
  have bits : (2 : ℚ) ^ (e + 53) = 2 ^ 53 * 2 ^ e := two_zpow_add e 53
  have fewer : (2 : ℚ) ^ (e + 52) = 2 ^ 52 * 2 ^ e := two_zpow_add e 52
  simp only [Binary64.size] at near closer
  have reach := abs_lt.mp near
  rw [value] at reach closer
  by_cases full : e = -1074 ∨ 2 ^ (e + 52) ≤ v
  · have small : m < 2 ^ 53 := hx.small
    have below : v < 2 ^ (e + 53) := by
      have small : (m : ℚ) + 1 ≤ 2 ^ 53 := by exact_mod_cast small
      have room := mul_le_mul_of_nonneg_right small (le_of_lt step)
      rw [bits]
      linarith
    have grid : Grid ((num : ℚ) / den) e := value ▸ ⟨hx.least, below, full⟩
    rw [nearest_of_near_steps sgn hn hd grid near, if_neg (Nat.ne_of_lt small), if_neg limit]
  · -- just below a power of two: the significand of the finer grid is carried over
    push Not at full
    obtain ⟨inner, less⟩ := full
    have top : m = 2 ^ 52 := by
      have low : 2 ^ 52 ≤ m := hx.full.resolve_left inner
      have high : (m : ℚ) * 2 ^ e < (2 ^ 52 + 1) * 2 ^ e := by linarith
      have high : (m : ℚ) < 2 ^ 52 + 1 := lt_of_mul_lt_mul_right high (le_of_lt step)
      have high : m < 2 ^ 52 + 1 := by exact_mod_cast high
      omega
    subst top
    have closer := closer rfl
    push_cast at closer
    have half : (2 : ℚ) ^ e = 2 * 2 ^ (e - 1) := by rw [← two_zpow_succ, sub_add_cancel]
    have finer : (2 : ℚ) ^ (e - 1 + 52) = 2 ^ 52 * 2 ^ (e - 1) := two_zpow_add (e - 1) 52
    have grid : Grid ((num : ℚ) / den) (e - 1) := by
      have least : -1074 ≤ e := hx.least
      refine value ▸ ⟨by omega, ?_, .inr ?_⟩
      · rwa [show e - 1 + 53 = e + 52 by ring]
      · linarith
    have near : |(num : ℚ) / den - ((2 ^ 53 : ℕ) : ℚ) * 2 ^ (e - 1)| < 2 ^ (e - 1) / 2 := by
      rw [value, abs_lt]
      push_cast
      constructor <;> linarith
    rw [nearest_of_near_steps sgn hn hd grid near, if_pos rfl, sub_add_cancel, if_neg limit]

end Binary64

end ClaimQueue.Number
