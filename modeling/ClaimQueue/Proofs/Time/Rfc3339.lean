import ClaimQueue.Proofs.Json.Numbers
import ClaimQueue.Time.Rfc3339

/-! A written timestamp reads back as it is, whatever its year, its decimals, and with a second 60.
-/

namespace ClaimQueue.Instant

/-! Digits. -/

def Digits (cs : List Char) : Prop := ∀ c ∈ cs, c.isDigit = true

theorem digit?_of_isDigit {c : Char} (h : c.isDigit = true) :
    digit? c = some (c.toNat - '0'.toNat) := by
  simp only [Char.isDigit, Bool.and_eq_true, decide_eq_true_eq] at h
  exact if_pos h

theorem foldl_digits {cs : List Char} (h : Digits cs) (n : Nat) :
    (cs.filterMap digit?).foldl (fun n d => n * 10 + d) n = Nat.ofDigitChars 10 cs n := by
  induction cs generalizing n with
  | nil => rfl
  | cons c cs ih =>
    rw [List.filterMap_cons_some (digit?_of_isDigit (h c List.mem_cons_self)), List.foldl_cons,
      Nat.ofDigitChars_cons, Nat.mul_comm 10 n]
    exact ih (fun d mem => h d (List.mem_cons_of_mem _ mem)) _

/-- No digit stands at the front. -/
def NoDigit (cs : List Char) : Prop := ∀ c, cs.head? = some c → digit? c = none

theorem takeWhile_digits {cs rest : List Char} (h : Digits cs) (stop : NoDigit rest) :
    (cs ++ rest).takeWhile (fun c => (digit? c).isSome) = cs := by
  have each : ∀ c ∈ cs, (digit? c).isSome = true := fun c mem => by
    rw [digit?_of_isDigit (h c mem)]
    rfl
  rw [List.takeWhile_append_of_pos each]
  cases rest with
  | nil => simp
  | cons d rest => rw [List.takeWhile_cons_of_neg (by simp [stop d rfl]), List.append_nil]

theorem readDigits?_append (most : Nat) {cs : List Char} (rest : List Char) (h : Digits cs)
    (nonempty : cs ≠ []) (fits : cs.length ≤ most) (stop : NoDigit (rest.take (most - cs.length))) :
    readDigits? most (cs ++ rest) = some (Nat.ofDigitChars 10 cs 0, rest) := by
  have taken : ((cs ++ rest).take most).takeWhile (fun c => (digit? c).isSome) = cs := by
    rw [List.take_append, List.take_of_length_le fits, takeWhile_digits h stop]
  simp [readDigits?, taken, List.isEmpty_eq_false_iff.mpr nonempty, foldl_digits h]

/-! Numbers of a fixed width. -/

theorem digits_padded (width n : Nat) : Digits (padded width n) := by
  intro c mem
  rcases List.mem_append.mp mem with zero | mem
  · rw [(List.mem_replicate.mp zero).2]
    rfl
  · exact Json.Scan.isDigit_toDigits n c mem

theorem padded_ne_nil (width n : Nat) : padded width n ≠ [] := by simp [padded]

theorem length_padded {width n : Nat} (positive : 0 < width) (small : n < 10 ^ width) :
    (padded width n).length = width := by
  have fits : (Nat.toDigits 10 n).length ≤ width :=
    (Nat.length_toDigits_le_iff (by decide) positive).mpr small
  simp only [padded, List.length_append, List.length_replicate]
  omega

theorem ofDigitChars_padded (width n : Nat) : Nat.ofDigitChars 10 (padded width n) 0 = n := by
  simp only [padded]
  rw [Nat.ofDigitChars_append, Nat.ofDigitChars_replicate_zero, Nat.mul_zero,
    Nat.ofDigitChars_ten_toDigits]

theorem padded_cons (width n : Nat) : ∃ c cs, padded width n = c :: cs ∧ c.isDigit = true := by
  obtain ⟨c, cs, same⟩ := List.exists_cons_of_ne_nil (padded_ne_nil width n)
  exact ⟨c, cs, same, digits_padded width n c (same ▸ List.mem_cons_self)⟩

/-- A number that fills its width is read to its end, whatever follows. -/
theorem readDigits?_padded {width : Nat} (n : Nat) (positive : 0 < width) (small : n < 10 ^ width)
    (rest : List Char) : readDigits? width (padded width n ++ rest) = some (n, rest) := by
  have length := length_padded positive small
  have whole := readDigits?_append width rest (digits_padded width n) (padded_ne_nil width n)
    (Nat.le_of_eq length) (by simp [length, NoDigit])
  rwa [ofDigitChars_padded] at whole

theorem not_blank_of_isDigit {c : Char} (h : c.isDigit = true) : Text.isBlank c = false := by
  simp only [Char.isDigit, Bool.and_eq_true, decide_eq_true_eq] at h
  have low : 48 ≤ c.toNat := h.1
  have high : c.toNat ≤ 57 := h.2
  simp only [Text.isBlank, Bool.or_eq_false_iff, Bool.and_eq_false_iff, decide_eq_false_iff_not,
    beq_eq_false_iff_ne]
  omega

theorem trimStart_cons {c : Char} (h : Text.isBlank c = false) (cs : List Char) :
    Text.trimStart (c :: cs) = c :: cs := List.dropWhile_cons_of_neg (by simp [h])

theorem trimStart_padded (width n : Nat) (rest : List Char) :
    Text.trimStart (padded width n ++ rest) = padded width n ++ rest := by
  obtain ⟨c, cs, same, digit⟩ := padded_cons width n
  rw [same]
  exact trimStart_cons (not_blank_of_isDigit digit) _

theorem readPart?_padded {n : Nat} (small : n < 100) (rest : List Char) :
    readPart? 2 (padded 2 n ++ rest) = some (n, rest) := by
  rw [readPart?, trimStart_padded]
  exact readDigits?_padded n (by decide) small rest

theorem readMark?_cons {mark : Char} (h : Text.isBlank mark = false) (rest : List Char) :
    readMark? mark (mark :: rest) = some rest := by
  rw [readMark?, trimStart_cons h]
  exact if_pos rfl

/-! Year and decimals. -/

/-- All digits up to the dash. -/
theorem readDigits?_dash (n : Nat) (rest : List Char) :
    readDigits? (padded 4 n ++ '-' :: rest).length (padded 4 n ++ '-' :: rest) =
      some (n, '-' :: rest) := by
  have whole := readDigits?_append (padded 4 n ++ '-' :: rest).length ('-' :: rest)
    (digits_padded 4 n) (padded_ne_nil 4 n) (by simp) (by simp [NoDigit, digit?])
  rwa [ofDigitChars_padded] at whole

theorem readYear?_yearChars (year : Int) (rest : List Char) :
    readYear? (yearChars year ++ '-' :: rest) = some (year, '-' :: rest) := by
  unfold yearChars
  split
  · rename_i plain
    have small : year.toNat < 10 ^ 4 := by omega
    have read := readDigits?_padded year.toNat (by decide) small ('-' :: rest)
    have same : (year.toNat : Int) = year := Int.toNat_of_nonneg plain.1
    obtain ⟨c, cs, first, digit⟩ := padded_cons 4 year.toNat
    rw [readYear?, trimStart_padded]
    rw [first, List.cons_append] at read ⊢
    split
    · rename_i minus
      cases minus
      exact absurd digit (by decide)
    · rename_i plus
      cases plus
      exact absurd digit (by decide)
    · rw [read, Option.map_some, same]
  · split
    · rename_i negative
      have same : -(year.natAbs : Int) = year := by omega
      simp only [readYear?, List.cons_append, trimStart_cons (show Text.isBlank '-' = false from rfl),
        readDigits?_dash, Option.map_some, same]
    · rename_i positive
      have same : (year.natAbs : Int) = year := by omega
      simp only [readYear?, List.cons_append, trimStart_cons (show Text.isBlank '+' = false from rfl),
        readDigits?_dash, Option.map_some, same]

theorem readDecimals?_padded {width n : Nat} (positive : 0 < width) (most : width ≤ 9)
    (small : n < 10 ^ width) (rest : List Char) (stop : NoDigit rest) :
    readDecimals? ('.' :: padded width n ++ rest) = some (n * 10 ^ (9 - width), rest) := by
  have length := length_padded positive small
  have read := readDigits?_append 9 rest (digits_padded width n) (padded_ne_nil width n)
    (by omega) (fun c first => by
      refine stop c ?_
      cases rest with
      | nil => simp at first
      | cons d rest =>
        cases more : 9 - (padded width n).length with
        | zero => simp [more] at first
        | succ k => simpa [more] using first)
  rw [ofDigitChars_padded] at read
  have left : rest.dropWhile (fun c => (digit? c).isSome) = rest := by
    cases rest with
    | nil => rfl
    | cons d rest => exact List.dropWhile_cons_of_neg (by simp [stop d rfl])
  have count : (padded width n ++ rest).length - rest.length = width := by
    rw [List.length_append, length]
    omega
  simp only [readDecimals?, List.cons_append, read, Option.bind_eq_bind, Option.bind_some, count,
    left]
  rfl

theorem readDecimals?_decimalChars {nano : Nat} (small : nano < 1000000000) :
    readDecimals? (decimalChars nano ++ ['Z']) = some (nano, ['Z']) := by
  have stop : NoDigit ['Z'] := by simp [NoDigit, digit?]
  unfold decimalChars
  split
  · rename_i none
    rw [none]
    rfl
  · split
    · rename_i millis
      rw [readDecimals?_padded (by decide) (by decide) (by omega) _ stop]
      simp only [Nat.reduceSub, Nat.reducePow, Option.some.injEq, Prod.mk.injEq, and_true]
      omega
    · split
      · rename_i micros
        rw [readDecimals?_padded (by decide) (by decide) (by omega) _ stop]
        simp only [Nat.reduceSub, Nat.reducePow, Option.some.injEq, Prod.mk.injEq, and_true]
        omega
      · rw [readDecimals?_padded (by decide) (by decide) (by omega) _ stop]
        simp

/-! The whole timestamp. -/

theorem ofLocal?_utc (t : Instant) : ofLocal? t.date t.second t.nano 0 = some t := by
  have inside := t.second_range
  have low : ¬ (t.second : Int) - 0 < 0 := by omega
  have high : ¬ (86400 : Int) ≤ (t.second : Int) - 0 := by omega
  have same : ((t.second : Int) - 0).toNat = t.second := by omega
  rw [ofLocal?, if_neg (by decide)]
  simp only [if_neg low, if_neg high, same]
  exact of?_self t

theorem monthLength_le (year : Int) (month : Nat) : monthLength year month ≤ 31 := by
  unfold monthLength
  split
  · split <;> omega
  all_goals omega

theorem chars_eq (t : Instant) : t.chars =
    yearChars t.date.year ++ '-' :: (padded 2 t.date.month ++ '-' :: (padded 2 t.date.day ++
      'T' :: (padded 2 (t.second / 3600) ++ ':' :: (padded 2 (t.second / 60 % 60) ++
        ':' :: (padded 2 (t.second % 60 + t.nano / 1000000000) ++
          (decimalChars (t.nano % 1000000000) ++ ['Z'])))))) := by
  simp only [chars, List.append_assoc, List.cons_append]

theorem ofChars?_chars (t : Instant) : ofChars? t.chars = some t := by
  have months := t.date.month_range
  have days := t.date.day_range
  have shortest := monthLength_le t.date.year t.date.month
  have seconds := t.second_range
  have nanos := t.nano_range
  have extra : t.nano / 1000000000 ≤ 1 := by omega
  have dash : Text.isBlank '-' = false := rfl
  have colon : Text.isBlank ':' = false := rfl
  have zone : readOffset? (Text.trimStart ['Z']) = some (0, []) := rfl
  have nothing : Text.trimStart [] = [] := rfl
  have inside : ¬ ((¬ ([] : List Char).isEmpty = true) ∨ 23 < t.second / 3600 ∨
      59 < t.second / 60 % 60 ∨ 60 < t.second % 60 + t.nano / 1000000000) := by
    simp only [List.isEmpty_nil, not_true_eq_false, false_or]
    omega
  have time : t.second / 3600 * 3600 + t.second / 60 % 60 * 60 = t.second - t.second % 60 := by
    omega
  have separator (cs : List Char) : readSeparator? ('T' :: cs) = some cs := rfl
  -- The parts are read one by one; all at once would go through what is left at every part.
  rw [ofChars?, chars_eq, readYear?_yearChars]
  dsimp only [Option.bind_eq_bind, Option.bind_some]
  rw [readMark?_cons dash, Option.bind_some, readPart?_padded (show t.date.month < 100 by omega)]
  dsimp only [Option.bind_some]
  rw [readMark?_cons dash, Option.bind_some, readPart?_padded (show t.date.day < 100 by omega)]
  dsimp only [Option.bind_some]
  rw [separator, Option.bind_some, readPart?_padded (show t.second / 3600 < 100 by omega)]
  dsimp only [Option.bind_some]
  rw [readMark?_cons colon, Option.bind_some,
    readPart?_padded (show t.second / 60 % 60 < 100 by omega)]
  dsimp only [Option.bind_some]
  rw [readMark?_cons colon, Option.bind_some,
    readPart?_padded (show t.second % 60 + t.nano / 1000000000 < 100 by omega)]
  dsimp only [Option.bind_some]
  rw [readDecimals?_decimalChars (Nat.mod_lt t.nano (by decide : 0 < 1000000000))]
  dsimp only [Option.bind_some]
  rw [zone]
  dsimp only [Option.bind_some]
  rw [nothing, if_neg inside, Date.of?_self, Option.bind_some, time]
  by_cases leap : 1000000000 ≤ t.nano
  · have last := t.leap leap
    have second : t.second % 60 + t.nano / 1000000000 = 60 := by omega
    have whole : t.second - t.second % 60 + 59 = t.second := by omega
    have nano : t.nano % 1000000000 + 1000000000 = t.nano := by omega
    rw [if_pos second, whole, nano]
    exact ofLocal?_utc t
  · have second : ¬ t.second % 60 + t.nano / 1000000000 = 60 := by omega
    have whole : t.second - t.second % 60 + (t.second % 60 + t.nano / 1000000000) = t.second := by
      omega
    have nano : t.nano % 1000000000 = t.nano := by omega
    rw [if_neg second, whole, nano]
    exact ofLocal?_utc t

/-- Reading undoes writing. -/
theorem ofText?_text (t : Instant) : ofText? t.text = some t := by
  rw [ofText?, text, String.toList_ofList]
  exact ofChars?_chars t

end ClaimQueue.Instant
