import ClaimQueue.Proofs.Text.Order
import ClaimQueue.Ulid
import Mathlib.Data.List.GetD
import Mathlib.Logic.Function.Basic

/-! Identifiers in the order of their making. All have as many digits, and the digits of base 32
ascend with what they count, so the order of the texts is the order of the numbers; of the numbers,
the upper bits hold the time. -/

namespace ClaimQueue.Ulid

open Text.Utf8 (bytes bytes_lt lt_digits)

/-! Digits. -/

theorem digits_ascending : digits.Pairwise (· < ·) := by decide +kernel

theorem length_digits : digits.length = 32 := by decide +kernel

theorem digit_eq (n : Nat) : ∃ inside : n % 32 < digits.length, digit n = digits[n % 32] := by
  have inside : n % 32 < digits.length := by
    rw [length_digits]
    omega
  exact ⟨inside, List.getD_eq_getElem digits '0' inside⟩

theorem digit_mem (n : Nat) : digit n ∈ digits := by
  obtain ⟨inside, same⟩ := digit_eq n
  rw [same]
  exact List.getElem_mem inside

theorem idxOf_digit (n : Nat) : digits.idxOf (digit n) = n % 32 := by
  have nodup : digits.Nodup := digits_ascending.imp Char.ne_of_lt
  obtain ⟨inside, same⟩ := digit_eq n
  rw [same]
  exact nodup.idxOf_getElem _ inside

theorem digit_lt {n m : Nat} (below : n % 32 < m % 32) : digit n < digit m := by
  obtain ⟨inside, same⟩ := digit_eq n
  obtain ⟨inside', same'⟩ := digit_eq m
  rw [same, same']
  exact List.pairwise_iff_getElem.mp digits_ascending _ _ inside inside' below

/-! Numbers of a fixed count of digits. -/

/-- The number that a text of digits stands for. -/
def value (cs : List Char) : Nat := cs.foldl (fun n c => n * 32 + digits.idxOf c) 0

theorem value_append (cs : List Char) (c : Char) :
    value (cs ++ [c]) = value cs * 32 + digits.idxOf c := by
  simp only [value, List.foldl_append, List.foldl_cons, List.foldl_nil]

theorem length_base32 (n count : Nat) : (base32 n count).length = count := by
  induction count generalizing n with
  | zero => rfl
  | succ count ih => rw [base32, List.length_append, ih, List.length_singleton]

theorem mem_digits_of_mem_base32 {n count : Nat} {c : Char} (mem : c ∈ base32 n count) :
    c ∈ digits := by
  induction count generalizing n with
  | zero => cases mem
  | succ count ih =>
    rcases List.mem_append.mp mem with front | last
    · exact ih front
    · rw [List.mem_singleton.mp last]
      exact digit_mem n

theorem value_base32 (n count : Nat) : value (base32 n count) = n % 32 ^ count := by
  induction count generalizing n with
  | zero => exact (Nat.mod_one n).symm
  | succ count ih =>
    rw [base32, value_append, ih, idxOf_digit, Nat.pow_succ', Nat.mod_mul]
    omega

theorem append_lt_append_of_length {xs ys : List Char} (below : xs < ys)
    (length : xs.length = ys.length) (as bs : List Char) : xs ++ as < ys ++ bs := by
  induction below with
  | nil => cases length
  | cons _ ih => exact List.cons_lt_cons_iff.mpr (.inr ⟨rfl, ih (Nat.succ.inj length)⟩)
  | rel below => exact List.cons_lt_cons_iff.mpr (.inl below)

/-- The last digit decides where all before it are the same. -/
theorem base32_lt {n m count : Nat} (below : n < m) (fits : m < 32 ^ count) :
    base32 n count < base32 m count := by
  induction count generalizing n m with
  | zero => omega
  | succ count ih =>
    rw [Nat.pow_succ] at fits
    rcases lt_digits 32 below with front | ⟨front, last⟩
    · have same : (base32 (n / 32) count).length = (base32 (m / 32) count).length := by
        rw [length_base32, length_base32]
      exact append_lt_append_of_length (ih front (by omega)) same _ _
    · rw [base32, base32, front]
      exact List.append_left_lt (List.cons_lt_cons_iff.mpr (.inl (digit_lt last)))

/-! Identifiers. -/

/-- A text of 26 digits that stands for the number. -/
structure Writes (cs : List Char) (u : Ulid) : Prop where
  length : cs.length = 26
  digits : ∀ c ∈ cs, c ∈ digits
  value : value cs = u.toNat

theorem writes_chars (u : Ulid) : Writes u.chars u where
  length := length_base32 _ _
  digits _ := mem_digits_of_mem_base32
  value := by
    have bound := u.isLt
    rw [chars, value_base32, Nat.mod_eq_of_lt (by omega)]

theorem Writes.unique {cs : List Char} {u v : Ulid} (hu : Writes cs u) (hv : Writes cs v) : u = v :=
  BitVec.eq_of_toNat_eq (hu.value.symm.trans hv.value)

theorem toList_named (kind : String) (u : Ulid) :
    (u.named kind).toList = kind.toList ++ u.chars := by
  rw [named, String.toList_ofList]

theorem named_lt (kind : String) {u v : Ulid} (below : u < v) :
    bytes (u.named kind) < bytes (v.named kind) := by
  have bound := v.isLt
  have chars : u.chars < v.chars := base32_lt (BitVec.lt_def.mp below) (by omega)
  refine bytes_lt (String.lt_iff.mpr ?_)
  rw [toList_named, toList_named]
  exact List.append_left_lt chars

theorem named_lt_iff (kind : String) {u v : Ulid} :
    bytes (u.named kind) < bytes (v.named kind) ↔ u < v := by
  refine ⟨fun below => ?_, named_lt kind⟩
  rcases Nat.lt_trichotomy u.toNat v.toNat with lt | same | gt
  · exact lt
  · rw [BitVec.toNat_inj.mp same] at below
    exact absurd below (List.lt_irrefl _)
  · exact absurd (named_lt kind gt) (List.lt_asymm below)

theorem named_injective (kind : String) : Function.Injective (named kind) := by
  intro u v same
  have texts := congrArg String.toList same
  rw [toList_named, toList_named] at texts
  have written := writes_chars u
  rw [List.append_cancel_left texts] at written
  exact written.unique (writes_chars v)

theorem toNat_ofParts (millis random : Nat) :
    (ofParts millis random).toNat = millis % 2 ^ 48 * 2 ^ 80 + random % 2 ^ 80 := by
  rw [ofParts, BitVec.toNat_ofNat, Nat.mod_eq_of_lt]
  omega

theorem ofParts_lt {m n : Nat} (before : m < n) (fits : n < 2 ^ 48) (r s : Nat) :
    ofParts m r < ofParts n s := by
  rw [BitVec.lt_def, toNat_ofParts, toNat_ofParts]
  omega

/-- A reading before 1970 counts as 1970, so only the later of two has to be past its beginning. -/
theorem ofInstant_lt {first second : Instant} (before : first.epochMillis < second.epochMillis)
    (past : 0 < second.epochMillis) (fits : second.epochMillis < 2 ^ 48) (r s : Nat) :
    ofInstant first r < ofInstant second s :=
  ofParts_lt (by omega) (by omega) r s

/-- From 1970 on, and as long as 48 bits hold the milliseconds, what is made at a later millisecond
comes later by its bytes, whatever the random parts are. So it does for any two numbers, behind any
opening: no two share a text, and each is written in 26 digits. -/
theorem ids_ascend_with_time :
    (∀ (first second : Instant) (r s : Nat), 0 ≤ first.epochMillis →
      first.epochMillis < second.epochMillis → second.epochMillis < 2 ^ 48 →
      bytes (ofInstant first r).taskId < bytes (ofInstant second s).taskId ∧
      bytes (ofInstant first r).workerId < bytes (ofInstant second s).workerId) ∧
    ∀ kind : String,
      (∀ u v : Ulid, bytes (u.named kind) < bytes (v.named kind) ↔ u < v) ∧
      Function.Injective (named kind) ∧
      ∀ u : Ulid, ∃ cs, (u.named kind).toList = kind.toList ++ cs ∧ Writes cs u := by
  constructor
  · intro first second r s since before fits
    have below : ofInstant first r < ofInstant second s := ofInstant_lt before (by omega) fits r s
    exact ⟨named_lt "task-" below, named_lt "worker-" below⟩
  · intro kind
    exact ⟨fun u v => named_lt_iff kind, named_injective kind,
      fun u => ⟨u.chars, toList_named kind u, writes_chars u⟩⟩

example : taskId (.allOnes 128) = "task-7ZZZZZZZZZZZZZZZZZZZZZZZZZ" := by decide +kernel

/-- The last millisecond that 48 bits hold. -/
private def brink : Instant where
  date := ⟨10889, 8, 2, by decide, by decide, by decide⟩
  second := 19910
  nano := 655000000
  second_range := by decide
  nano_range := by decide
  leap := by decide

private def eve : Instant :=
  { brink with nano := 654000000, nano_range := by decide, leap := by decide }

/-- A millisecond outweighs all random bits. -/
theorem ids_ascend_to_brink :
    0 ≤ eve.epochMillis ∧ eve.epochMillis < brink.epochMillis ∧ brink.epochMillis < 2 ^ 48 ∧
    bytes (ofInstant eve (2 ^ 80 - 1)).taskId < bytes (ofInstant brink 0).taskId := by
  have since : 0 ≤ eve.epochMillis := by decide
  have before : eve.epochMillis < brink.epochMillis := by decide
  have fits : brink.epochMillis < 2 ^ 48 := by decide
  exact ⟨since, before, fits, (ids_ascend_with_time.1 eve brink _ _ since before fits).1⟩

end ClaimQueue.Ulid
