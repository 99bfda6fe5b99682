import ClaimQueue.Number.Shortest
import ClaimQueue.Proofs.Number.Rounding

/-! Seventeen digits are enough: on the grid of the seventeenth digit of a number lies a decimal that
is rounded to it. So the search for the fewest digits ends with digits that read back. -/

namespace ClaimQueue.Number

theorem ten_zpow_pos (e : ℤ) : (0 : ℚ) < 10 ^ e := zpow_pos (by norm_num) e

theorem ten_zpow_add (e : ℤ) (n : ℕ) : (10 : ℚ) ^ (e + n) = 10 ^ n * 10 ^ e := by
  rw [zpow_add₀ (by norm_num), zpow_natCast, mul_comm]

/-! Decimal digits. -/

theorem digitCount_pos {n : ℕ} (h : n ≠ 0) : 0 < digitCount n := by
  rw [digitCount, if_neg h]
  exact List.length_pos_of_ne_nil Nat.toDigits_ne_nil

theorem digitCount_le_iff {n k : ℕ} (h : n ≠ 0) (positive : 0 < k) :
    digitCount n ≤ k ↔ n < 10 ^ k := by
  rw [digitCount, if_neg h]
  exact Nat.length_toDigits_le_iff (by decide) positive

theorem lt_pow_digitCount {n : ℕ} (h : n ≠ 0) : n < 10 ^ digitCount n :=
  (digitCount_le_iff h (digitCount_pos h)).mp (Nat.le_refl _)

theorem pow_digitCount_le {n : ℕ} (h : n ≠ 0) : 10 ^ (digitCount n - 1) ≤ n := by
  rcases Nat.eq_zero_or_pos (digitCount n - 1) with one | more
  · rw [one, Nat.pow_zero]
    exact Nat.pos_of_ne_zero h
  · have positive := digitCount_pos h
    refine Nat.not_lt.mp fun less => ?_
    have := (digitCount_le_iff h more).mpr less
    omega

/-- Between two powers of ten. -/
theorem decimalExponent_spec {num den : ℕ} (hn : 0 < num) (hd : 0 < den) :
    (10 : ℚ) ^ decimalExponent num den ≤ (num : ℚ) / den ∧
      (num : ℚ) / den < 10 ^ (decimalExponent num den + 1) := by
  have d : (0 : ℚ) < den := by exact_mod_cast hd
  unfold decimalExponent
  split
  · rename_i large
    have nonzero : num / den ≠ 0 := Nat.ne_of_gt (Nat.div_pos large hd)
    have positive := digitCount_pos nonzero
    have low := pow_digitCount_le nonzero
    have high := lt_pow_digitCount nonzero
    rw [Nat.le_div_iff_mul_le hd] at low
    rw [Nat.div_lt_iff_lt_mul hd] at high
    have same : (digitCount (num / den) : ℤ) - 1 = ((digitCount (num / den) - 1 : ℕ) : ℤ) := by
      omega
    constructor
    · rw [same, zpow_natCast, le_div_iff₀ d]
      exact_mod_cast low
    · rw [sub_add_cancel, zpow_natCast, div_lt_iff₀ d]
      exact_mod_cast high
  · rename_i small
    have small := Nat.not_le.mp small
    have nonzero : (den - 1) / num ≠ 0 := Nat.ne_of_gt (Nat.div_pos (by omega) hn)
    obtain ⟨c, count⟩ : ∃ c, digitCount ((den - 1) / num) = c + 1 :=
      ⟨_, (Nat.sub_add_cancel (digitCount_pos nonzero)).symm⟩
    have low := pow_digitCount_le nonzero
    have high := lt_pow_digitCount nonzero
    rw [count] at low high ⊢
    rw [Nat.le_div_iff_mul_le hn] at low
    rw [Nat.div_lt_iff_lt_mul hn] at high
    constructor
    · rw [zpow_neg, zpow_natCast, inv_le_iff_one_le_mul₀ (by positivity), div_mul_eq_mul_div,
        le_div_iff₀ d, one_mul, mul_comm]
      have : den ≤ 10 ^ (c + 1) * num := by omega
      exact_mod_cast this
    · have same : -((c + 1 : ℕ) : ℤ) + 1 = -(c : ℤ) := by omega
      rw [same, zpow_neg, zpow_natCast, lt_inv_comm₀ (by positivity) (by positivity), inv_div,
        lt_div_iff₀ (by exact_mod_cast hn)]
      have : 10 ^ (c + 1 - 1) * num < den := by omega
      exact_mod_cast this

theorem decimalRatio_eq : decimalRatio = raised 10 := by
  funext n e
  cases e <;> rfl

theorem decimalScaleDown_eq : decimalScaleDown = lowered 10 := by
  funext num den e
  cases e <;> rfl

theorem decimalRatio_pos (n : ℕ) (e : ℤ) : 0 < (decimalRatio n e).2 := by
  rw [decimalRatio_eq]
  exact raised_pos (by decide) n e

theorem decimalRatio_num_pos {n : ℕ} (h : n ≠ 0) (e : ℤ) : 0 < (decimalRatio n e).1 := by
  rw [decimalRatio_eq]
  exact raised_num_pos (by decide) h e

theorem decimalRatio_div (n : ℕ) (e : ℤ) :
    ((decimalRatio n e).1 : ℚ) / (decimalRatio n e).2 = n * 10 ^ e := by
  rw [decimalRatio_eq]
  exact raised_div 10 n e

theorem decimalScaleDown_pos (num : ℕ) {den : ℕ} (hd : 0 < den) (e : ℤ) :
    0 < (decimalScaleDown num den e).2 := by
  rw [decimalScaleDown_eq]
  exact lowered_pos (by decide) num hd e

theorem decimalScaleDown_div (num den : ℕ) (e : ℤ) :
    ((decimalScaleDown num den e).1 : ℚ) / (decimalScaleDown num den e).2 =
      (num : ℚ) / den / 10 ^ e := by
  rw [decimalScaleDown_eq]
  exact lowered_div 10 num den e

namespace Binary64

variable {x : Binary64} {n : ℕ} {e : ℤ}

theorem readsBack_iff : x.readsBack n e = true ↔
    n ≠ 0 ∧ nearest x.negative (decimalRatio n e).1 (decimalRatio n e).2 = some x := by
  simp [readsBack]

theorem roundHalfEven_le (num den : ℕ) : roundHalfEven num den ≤ num / den + 1 := by
  have parity := Nat.mod_lt (num / den) (by decide : 0 < 2)
  simp only [roundHalfEven]
  split
  · omega
  · split <;> omega

/-- What is found on a grid reads back, and it is next to the number. -/
theorem onGrid?_spec (h : x.onGrid? e = some n) : x.readsBack n e = true ∧
    n ≤ (decimalScaleDown x.ratio.1 x.ratio.2 e).1 / (decimalScaleDown x.ratio.1 x.ratio.2 e).2
      + 1 := by
  have chosen {a b k : ℕ} (ha : a ≤ k + 1) (hb : b ≤ k + 1) (h : (if x.readsBack a e then some a
      else if x.readsBack b e then some b else none) = some n) :
      x.readsBack n e = true ∧ n ≤ k + 1 := by
    split at h
    · rename_i back
      cases h
      exact ⟨back, ha⟩
    · split at h
      · rename_i back
        cases h
        exact ⟨back, hb⟩
      · cases h
  simp only [onGrid?] at h
  refine chosen (roundHalfEven_le _ _) ?_ h
  split
  · exact Nat.le_refl _
  · exact Nat.le_succ _

theorem onGrid?_isSome (h : x.readsBack (roundHalfEven (decimalScaleDown x.ratio.1 x.ratio.2 e).1
    (decimalScaleDown x.ratio.1 x.ratio.2 e).2) e = true) : (x.onGrid? e).isSome := by
  simp only [onGrid?]
  rw [if_pos h]
  rfl

/-- The exponent of the first digit. -/
def top (x : Binary64) : ℤ := decimalExponent x.ratio.1 x.ratio.2

theorem top_spec (nonzero : x.significand ≠ 0) : (10 : ℚ) ^ x.top ≤ x.size ∧
    x.size < 10 ^ (x.top + 1) := by
  rw [← ratio_div]
  exact decimalExponent_spec (ratio_num_pos nonzero) x.ratio_pos

/-- The nearest decimal of a grid is half a step of it away at most. -/
theorem roundHalfEven_onGrid (x : Binary64) (g : ℤ) :
    |(roundHalfEven (decimalScaleDown x.ratio.1 x.ratio.2 g).1
      (decimalScaleDown x.ratio.1 x.ratio.2 g).2 : ℚ) * 10 ^ g - x.size| ≤ 10 ^ g / 2 := by
  have near := roundHalfEven_near (decimalScaleDown x.ratio.1 x.ratio.2 g).1
    (decimalScaleDown_pos x.ratio.1 x.ratio_pos g)
  rw [decimalScaleDown_div, ratio_div] at near
  exact near_of_near_scaled (ten_zpow_pos g) near

/-- The nearest decimal of seventeen digits reads back: their grid is finer than the grid of the
number, since `2 ^ 53 < 10 ^ 16`. -/
theorem onGrid?_isSome_seventeen (hx : x.Canonical) (nonzero : x.significand ≠ 0) :
    (x.onGrid? (x.top - 16)).isSome := by
  obtain ⟨g, grid⟩ : ∃ g, x.top - 16 = g := ⟨_, rfl⟩
  have step := ten_zpow_pos g
  have bits := two_zpow_pos x.exponent
  have low : 10 ^ 16 * (10 : ℚ) ^ g ≤ x.size := by
    have digits : (10 : ℚ) ^ (g + 16) = 10 ^ 16 * 10 ^ g := ten_zpow_add g 16
    rw [← digits, ← grid, sub_add_cancel]
    exact (top_spec nonzero).1
  have near := roundHalfEven_onGrid x g
  rw [grid]
  refine onGrid?_isSome (readsBack_iff.mpr ?_)
  generalize roundHalfEven (decimalScaleDown x.ratio.1 x.ratio.2 g).1
    (decimalScaleDown x.ratio.1 x.ratio.2 g).2 = n at near ⊢
  have reach := abs_le.mp near
  have positive : n ≠ 0 := by
    rintro rfl
    push_cast at reach
    linarith
  refine ⟨positive,
    nearest_of_near hx (decimalRatio_num_pos positive g) (decimalRatio_pos n g) ?_ ?_ rfl⟩
  · have size : x.size < 2 ^ 53 * 2 ^ x.exponent :=
      mul_lt_mul_of_pos_right (by exact_mod_cast hx.small) bits
    rw [decimalRatio_div]
    exact lt_of_le_of_lt near (by linarith)
  · intro least
    have size : x.size = 2 ^ 52 * 2 ^ x.exponent := by
      rw [Binary64.size, least]
      push_cast
      rfl
    rw [decimalRatio_div]
    linarith

/-- A decimal of at most seventeen digits, or the next power of ten, that is rounded to the number.
-/
structure Shows (x : Binary64) (n : ℕ) (e : ℤ) : Prop where
  nonzero : n ≠ 0
  rounds : nearest x.negative (decimalRatio n e).1 (decimalRatio n e).2 = some x
  short : n ≤ 10 ^ 17

theorem shows_of_onGrid? (nonzero : x.significand ≠ 0) {count : ℕ} (few : count ≤ 17)
    (found : x.onGrid? (x.top - count + 1) = some n) : x.Shows n (x.top - count + 1) := by
  obtain ⟨back, bound⟩ := onGrid?_spec found
  obtain ⟨positive, rounds⟩ := readsBack_iff.mp back
  refine ⟨positive, rounds, ?_⟩
  have pos := decimalScaleDown_pos x.ratio.1 x.ratio_pos (x.top - count + 1)
  have value := decimalScaleDown_div x.ratio.1 x.ratio.2 (x.top - count + 1)
  rw [ratio_div] at value
  have high : x.size / 10 ^ (x.top - count + 1) < 10 ^ count := by
    have digits := ten_zpow_add (x.top - count + 1) count
    rw [div_lt_iff₀ (ten_zpow_pos _), ← digits, show x.top - count + 1 + count = x.top + 1 by ring]
    exact (top_spec nonzero).2
  rw [← value, div_lt_iff₀ (by exact_mod_cast pos)] at high
  have below : (decimalScaleDown x.ratio.1 x.ratio.2 (x.top - count + 1)).1 /
      (decimalScaleDown x.ratio.1 x.ratio.2 (x.top - count + 1)).2 < 10 ^ count := by
    rw [Nat.div_lt_iff_lt_mul pos]
    exact_mod_cast high
  have most : 10 ^ count ≤ 10 ^ 17 := Nat.pow_le_pow_right (by decide) few
  omega

theorem shortestFrom_shows (hx : x.Canonical) (nonzero : x.significand ≠ 0) (left count : ℕ)
    (all : left + count = 17) :
    x.Shows (x.shortestFrom x.top (left + 1) count).1 (x.shortestFrom x.top (left + 1) count).2 := by
  induction left generalizing count with
  | zero =>
    obtain ⟨n, found⟩ := Option.isSome_iff_exists.mp (onGrid?_isSome_seventeen hx nonzero)
    obtain rfl : count = 17 := by omega
    have found : x.onGrid? (x.top - (17 : ℕ) + 1) = some n := by
      rw [← found]
      congr 1
      omega
    simp only [shortestFrom, found]
    exact shows_of_onGrid? nonzero (Nat.le_refl _) found
  | succ left ih =>
    rw [shortestFrom]
    cases found : x.onGrid? (x.top - count + 1) with
    | none => simpa only [found] using ih (count + 1) (by omega)
    | some n => simpa only [found] using shows_of_onGrid? nonzero (by omega) found

/-- The digits that are written are rounded to the number. -/
theorem shortest_shows (hx : x.Canonical) (nonzero : x.significand ≠ 0) :
    x.Shows x.shortest.1 x.shortest.2 :=
  shortestFrom_shows hx nonzero 16 1 rfl

/-- Rounding moved them by half a step at most. -/
theorem Shows.le_size (h : x.Shows n e) : (n : ℚ) * 10 ^ e ≤ x.size + 2 ^ x.exponent / 2 := by
  obtain ⟨-, -, g, least, -, near⟩ :=
    nearest_spec (decimalRatio_num_pos h.nonzero e) (decimalRatio_pos n e) h.rounds
  rw [decimalRatio_div] at near
  linarith [(abs_le.mp near).1, two_zpow_le_iff.mpr least]

end Binary64

end ClaimQueue.Number
