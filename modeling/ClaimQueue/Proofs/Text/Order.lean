import ClaimQueue.Proofs.Text.Utf8
import Mathlib.Order.Basic

/-! The order of texts is the order of their bytes. Code points and their sequences ascend together:
a longer sequence begins with a larger byte, and of two sequences of one length the bits decide in
the order in which they stand. -/

namespace ClaimQueue.Text.Utf8

theorem encodeChar_ne_nil (c : Char) : encodeChar c ≠ [] := by
  rw [encodeChar_eq]
  split_ifs <;> exact List.cons_ne_nil _ _

/-- The digits decide, the last one after all others. -/
theorem lt_digits (base : Nat) {n m : Nat} (below : n < m) :
    n / base < m / base ∨ n / base = m / base ∧ n % base < m % base := by
  have front : n / base ≤ m / base := Nat.div_le_div_right (Nat.le_of_lt below)
  refine (Nat.lt_or_eq_of_le front).imp_right fun same => ⟨same, ?_⟩
  have splits := Nat.div_add_mod n base
  have splits' := Nat.div_add_mod m base
  rw [← same] at splits'
  omega

theorem encodeChar_lt {c d : Char} (below : c < d) (xs ys : List UInt8) :
    encodeChar c ++ xs < encodeChar d ++ ys := by
  have less : c.toNat < d.toNat := below
  have last : d.toNat < 0x110000 := by
    rcases valid_cases d with valid | valid <;> omega
  have thirds (n : Nat) : n / 4096 = n / 64 / 64 := (Nat.div_div_eq_div_mul n 64 64).symm
  have fourths (n : Nat) : n / 262144 = n / 64 / 64 / 64 := by
    rw [Nat.div_div_eq_div_mul, Nat.div_div_eq_div_mul]
  rw [encodeChar_eq, encodeChar_eq]
  split_ifs <;>
    simp only [List.cons_append, List.nil_append, List.cons_lt_cons_iff, UInt8.lt_iff_toNat_lt,
      ← UInt8.toNat_inj, toNat_low, UInt8.toNat_ofNat', Nat.reducePow, thirds, fourths]
  -- Where the upper digits are the same, the last one decides.
  all_goals
    rcases lt_digits 64 less with high | ⟨same, low⟩
    · rcases lt_digits 64 high with high | ⟨same, low⟩
      · rcases lt_digits 64 high with high | ⟨same, low⟩ <;> omega
      · omega
    · omega

theorem encode_lt {cs ds : List Char} (below : cs < ds) : encode cs < encode ds := by
  induction below with
  | @nil d ds =>
    obtain ⟨b, bs, first⟩ := List.exists_cons_of_ne_nil (encodeChar_ne_nil d)
    rw [encode, encode, List.flatMap_cons, first]
    exact List.nil_lt_cons b _
  | cons _ ih => exact List.append_left_lt ih
  | rel below => exact encodeChar_lt below _ _

theorem bytes_lt {s t : String} (below : s < t) : bytes s < bytes t := encode_lt below

end ClaimQueue.Text.Utf8
