import ClaimQueue.Json.Printer
import ClaimQueue.Json.Scan

/-! A written string reads back as it is: each character, escaped or not, is read as one character.
-/

namespace ClaimQueue.Json

/-- Characters as text to be read. -/
def source (cs : List Char) : Source := cs.map some

@[simp] theorem source_nil : source [] = [] := rfl

@[simp] theorem source_cons (c : Char) (cs : List Char) : source (c :: cs) = some c :: source cs :=
  rfl

@[simp] theorem source_append (cs ds : List Char) : source (cs ++ ds) = source cs ++ source ds :=
  List.map_append

theorem sourceOf_ofList (cs : List Char) : sourceOf (String.ofList cs) = source cs :=
  congrArg source String.toList_ofList

namespace Scan

theorem hexDigit?_digitChar : ∀ d < 16, Number.hexDigit? (Nat.digitChar d) = some d := by decide

theorem hex4?_hexPair {n : Nat} (small : n < 256) :
    hex4? (some '0') (some '0') (some (Nat.digitChar (n / 16))) (some (Nat.digitChar (n % 16))) =
      some n := by
  have high : hexDigit? (some (Nat.digitChar (n / 16))) = some (n / 16) :=
    hexDigit?_digitChar _ (by omega)
  have low : hexDigit? (some (Nat.digitChar (n % 16))) = some (n % 16) :=
    hexDigit?_digitChar _ (by omega)
  have zero : hexDigit? (some '0') = some 0 := rfl
  have value : ((0 * 16 + 0) * 16 + n / 16) * 16 + n % 16 = n := by omega
  simp only [hex4?, zero, high, low, Option.bind_eq_bind, Option.bind_some, Option.pure_def, value]

theorem stringTail_number {n : Nat} (small : n < ' '.toNat) (broken : Bool) (rest : Source) :
    stringTail broken (source (['\\', 'u', '0', '0'] ++ hexPair n) ++ rest) =
      consChar (Char.ofNat n) (stringTail broken rest) := by
  have below : n < 32 := small
  have value := hex4?_hexPair (n := n) (by omega)
  have noLow : isLowSurrogate n = false := by
    simp only [isLowSurrogate, Bool.and_eq_false_iff, decide_eq_false_iff_not]
    omega
  have noHigh : isHighSurrogate n = false := by
    simp only [isHighSurrogate, Bool.and_eq_false_iff, decide_eq_false_iff_not]
    omega
  simp [hexPair, stringTail, value, noLow, noHigh]

theorem stringTail_escapedChar (c : Char) (broken : Bool) (rest : Source) :
    stringTail broken (source (escapedChar c) ++ rest) = consChar c (stringTail broken rest) := by
  unfold escapedChar
  split
  · simp [stringTail, escaped?]
  · simp [stringTail, escaped?]
  · simp [stringTail, escaped?]
  · simp [stringTail, escaped?]
  · simp [stringTail, escaped?]
  · simp [stringTail, escaped?]
  · simp [stringTail, escaped?]
  · rename_i quote backslash _ _ _ _ _
    split
    · rename_i control
      have below : c.toNat < ' '.toNat := control
      rw [stringTail_number below, Char.ofNat_toNat]
    · rename_i plain
      simp only [source_cons, source_nil, List.cons_append, List.nil_append]
      rw [stringTail.eq_def]
      split
      case h_9 same =>
        cases same
        exact if_neg plain
      all_goals simp_all

theorem stringTail_escaped (cs : List Char) (rest : Source) :
    stringTail false (source (cs.flatMap escapedChar) ++ some '"' :: rest) = .ok (cs, rest) := by
  induction cs with
  | nil => rfl
  | cons c cs ih =>
    rw [List.flatMap_cons, source_append, List.append_assoc, stringTail_escapedChar, ih]
    rfl

/-- What follows the opening quote. -/
theorem string_written (s : String) (rest : Source) :
    string (source (s.toList.flatMap escapedChar) ++ some '"' :: rest) = .ok (s, rest) := by
  rw [string, stringTail_escaped]
  simp only [String.ofList_toList]

theorem source_stringChars (s : String) (rest : Source) :
    source (stringChars s) ++ rest =
      some '"' :: (source (s.toList.flatMap escapedChar) ++ some '"' :: rest) := by
  simp [stringChars]

end Scan

end ClaimQueue.Json
