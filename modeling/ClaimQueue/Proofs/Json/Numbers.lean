import ClaimQueue.Json.Reader
import ClaimQueue.Proofs.Json.Strings

/-! A written number is read to its end and no further, as long as no digit follows. An integer of
64 bits reads back as it is; what a binary64 number becomes is left open here. -/

namespace ClaimQueue

theorem toOption_bind {ε α β : Type} (x : Except ε α) (f : α → Except ε β) :
    (x >>= f).toOption = x.toOption.bind fun a => (f a).toOption := by
  cases x <;> rfl

theorem toOption_eq_some {ε α : Type} {x : Except ε α} {a : α} :
    x.toOption = some a ↔ x = .ok a := by
  cases x <;> simp [Except.toOption]

theorem bind_eq_ok {ε α β : Type} {x : Except ε α} {f : α → Except ε β} {b : β} :
    x >>= f = .ok b ↔ ∃ a, x = .ok a ∧ f a = .ok b := by
  cases x with
  | error e => exact ⟨(nomatch ·), fun ⟨_, h, _⟩ => nomatch h⟩
  | ok a => exact ⟨fun h => ⟨a, rfl, h⟩, fun ⟨_, same, h⟩ => Except.ok.inj same ▸ h⟩

namespace Json.Scan

/-- Where a value may end. -/
inductive Ends : Source → Prop
  | text : Ends []
  | comma (s : Source) : Ends (some ',' :: s)
  | bracket (s : Source) : Ends (some ']' :: s)
  | brace (s : Source) : Ends (some '\x7d' :: s)
  | blank (s : Source) : Ends (some ' ' :: s)
  | newLine (s : Source) : Ends (some '\n' :: s)
  | tab (s : Source) : Ends (some '\t' :: s)
  | carriage (s : Source) : Ends (some '\r' :: s)

theorem Ends.of_gap {c : Option Char} (h : isGap c = true) (s : Source) : Ends (c :: s) := by
  unfold isGap at h
  split at h
  · exact .blank s
  · exact .newLine s
  · exact .tab s
  · exact .carriage s
  · cases h

def digitValue (c : Char) : Nat := c.toNat - '0'.toNat

theorem digit?_of_isDigit {c : Char} (h : c.isDigit = true) :
    digit? (some c) = some (digitValue c) := by
  simp only [Char.isDigit, Bool.and_eq_true, decide_eq_true_eq] at h
  exact if_pos h

theorem digits_of_stop {c : Option Char} (h : digit? c = none) (s : Source) :
    digits (c :: s) = ([], c :: s) := by
  simp only [digits, h]

theorem digits_append {cs : List Char} (h : ∀ c ∈ cs, c.isDigit = true) {rest : Source}
    (stop : digits rest = ([], rest)) :
    digits (source cs ++ rest) = (cs.map digitValue, rest) := by
  induction cs with
  | nil => exact stop
  | cons c cs ih =>
    have tail := ih fun d mem => h d (List.mem_cons_of_mem _ mem)
    simp only [source_cons, List.cons_append, digits, digit?_of_isDigit (h c List.mem_cons_self),
      tail, List.map_cons]

theorem Ends.stop {rest : Source} (h : Ends rest) : digits rest = ([], rest) := by
  cases h with
  | text => rfl
  | comma | bracket | brace | blank | newLine | tab | carriage => exact digits_of_stop rfl _

/-- The reading of a token that stops where the token does. -/
def Settled (read : Source → Except Fault (Scanned Json)) (cs : List Char) : Prop :=
  ∃ j? : Option Json, ∀ rest, Ends rest → (read (source cs ++ rest)).toOption = j?.map (·, rest)

theorem doubleOf_toOption (negative : Bool) (n : Nat) (e : Int) (s : Source) :
    (doubleOf negative n e s).toOption =
      ((Number.Binary64.ofDecimal? negative n e).map Json.double).map (·, s) := by
  unfold doubleOf
  cases Number.Binary64.ofDecimal? negative n e <;> rfl

theorem wholeOf_settled (negative : Bool) (n : Nat) :
    ∃ j? : Option Json, ∀ s, (wholeOf negative n s).toOption = j?.map (·, s) := by
  unfold wholeOf
  split
  · split
    · exact ⟨_, fun s => doubleOf_toOption _ _ _ s⟩
    · exact ⟨some _, fun s => rfl⟩
  · exact ⟨some _, fun s => rfl⟩

/-- What may follow the digits of a number that has no point, or of a fraction. -/
inductive Power : List Char → Prop
  | none : Power []
  | some {sign : Char} {cs : List Char} (signed : sign = '+' ∨ sign = '-')
      (digits : ∀ c ∈ cs, c.isDigit = true) : Power ('e' :: sign :: cs)

theorem Power.stop {cs : List Char} (h : Power cs) {rest : Source} (ends : Ends rest) :
    digits (source cs ++ rest) = ([], source cs ++ rest) := by
  cases h with
  | none => exact ends.stop
  | some => exact digits_of_stop rfl _

theorem exponentPart_settled (negative : Bool) (n : Nat) (e : Int) {sign : Char} {cs : List Char}
    (signed : sign = '+' ∨ sign = '-') (h : ∀ c ∈ cs, c.isDigit = true) :
    Settled (exponentPart negative n e) (sign :: cs) := by
  have plain {rest : Source} (ends : Ends rest) :
      exponentSign (source (sign :: cs) ++ rest) = (sign == '-', source cs ++ rest) := by
    rcases signed with rfl | rfl <;> rfl
  cases cs with
  | nil =>
    refine ⟨none, fun rest ends => ?_⟩
    rw [exponentPart, plain ends]
    simp only [source_nil, List.nil_append, ends.stop]
    cases rest <;> rfl
  | cons c cs =>
    let shift : Int := (((c :: cs).map digitValue).foldl (fun n d => n * 10 + d) 0 : Nat)
    refine ⟨(Number.Binary64.ofDecimal? negative n
      (if sign == '-' then e - shift else e + shift)).map Json.double, fun rest ends => ?_⟩
    rw [exponentPart, plain ends]
    simp only [digits_append h ends.stop, List.map_cons]
    exact doubleOf_toOption _ _ _ _

theorem fractionPart_settled (negative : Bool) (n : Nat) (e : Int) {cs power : List Char}
    (h : ∀ c ∈ cs, c.isDigit = true) (ends : Power power) :
    Settled (fractionPart negative n e) (cs ++ power) := by
  have read {rest : Source} (stop : Ends rest) :
      digits (source (cs ++ power) ++ rest) = (cs.map digitValue, source power ++ rest) := by
    rw [source_append, List.append_assoc, digits_append h (ends.stop stop)]
  cases cs with
  | nil =>
    refine ⟨none, fun rest stop => ?_⟩
    rw [fractionPart, read stop]
    cases source power ++ rest <;> rfl
  | cons c cs =>
    let taken := absorb n ((c :: cs).map digitValue)
    let shifted : Int := e - (((c :: cs).map digitValue).length - taken.2.length : Nat)
    cases ends with
    | none =>
      refine ⟨(Number.Binary64.ofDecimal? negative taken.1 shifted).map Json.double,
        fun rest stop => ?_⟩
      rw [fractionPart, read stop]
      simp only [List.map_cons, source_nil, List.nil_append]
      cases stop <;> exact doubleOf_toOption _ _ _ _
    | some signed digits =>
      obtain ⟨j?, settled⟩ := exponentPart_settled negative taken.1 shifted signed digits
      refine ⟨j?, fun rest stop => ?_⟩
      rw [fractionPart, read stop, ← settled rest stop]
      rfl

/-- What may follow the digits before a point. -/
inductive Tail : List Char → Prop
  | power {cs : List Char} (h : Power cs) : Tail cs
  | point {frac cs : List Char} (digits : ∀ c ∈ frac, c.isDigit = true) (h : Power cs) :
      Tail ('.' :: (frac ++ cs))

theorem Tail.stop {cs : List Char} (h : Tail cs) {rest : Source} (ends : Ends rest) :
    digits (source cs ++ rest) = ([], source cs ++ rest) := by
  cases h with
  | power h => exact h.stop ends
  | point => exact digits_of_stop rfl _

theorem afterWhole_of_ends (negative : Bool) (n dropped : Nat) {rest : Source} (ends : Ends rest) :
    afterWhole negative n dropped rest =
      if dropped = 0 then wholeOf negative n rest else doubleOf negative n dropped rest := by
  cases ends <;> rfl

theorem afterWhole_settled (negative : Bool) (n dropped : Nat) {cs : List Char} (h : Tail cs) :
    Settled (afterWhole negative n dropped) cs := by
  cases h with
  | point digits h => exact fractionPart_settled negative n dropped digits h
  | power h =>
    cases h with
    | some signed digits => exact exponentPart_settled negative n dropped signed digits
    | none =>
      by_cases kept : dropped = 0
      · obtain ⟨j?, settled⟩ := wholeOf_settled negative n
        refine ⟨j?, fun rest ends => ?_⟩
        rw [source_nil, List.nil_append, afterWhole_of_ends negative n dropped ends, if_pos kept]
        exact settled rest
      · refine ⟨(Number.Binary64.ofDecimal? negative n dropped).map Json.double,
          fun rest ends => ?_⟩
        rw [source_nil, List.nil_append, afterWhole_of_ends negative n dropped ends, if_neg kept]
        exact doubleOf_toOption _ _ _ _

theorem number_of_digits (negative : Bool) {s rest : Source} {d : Nat} {ds : List Nat}
    (read : digits s = (d :: ds, rest)) : number negative s =
      if d = 0 ∧ ds ≠ [] then .error .malformed
      else afterWhole negative (absorb 0 (d :: ds)).1 (absorb 0 (d :: ds)).2.length rest := by
  rw [number, read]
  cases d with
  | zero => cases ds <;> rfl
  | succ d => rfl

/-- Digits and what may follow them. -/
inductive Numeral : List Char → Prop
  | mk {whole tail : List Char} (nonempty : whole ≠ []) (digits : ∀ c ∈ whole, c.isDigit = true)
      (h : Tail tail) : Numeral (whole ++ tail)

theorem number_settled (negative : Bool) {cs : List Char} (h : Numeral cs) :
    Settled (number negative) cs := by
  obtain ⟨nonempty, digit, tail⟩ := h
  rename_i whole more
  obtain ⟨c, whole, rfl⟩ := List.exists_cons_of_ne_nil nonempty
  have read (rest : Source) (ends : Ends rest) :
      digits (source (c :: whole ++ more) ++ rest) =
        (digitValue c :: whole.map digitValue, source more ++ rest) := by
    rw [source_append, List.append_assoc, digits_append digit (tail.stop ends), List.map_cons]
  by_cases leading : digitValue c = 0 ∧ whole.map digitValue ≠ []
  · refine ⟨none, fun rest ends => ?_⟩
    rw [number_of_digits negative (read rest ends), if_pos leading]
    rfl
  · obtain ⟨j?, settled⟩ := afterWhole_settled negative
      (absorb 0 (digitValue c :: whole.map digitValue)).1
      (absorb 0 (digitValue c :: whole.map digitValue)).2.length tail
    refine ⟨j?, fun rest ends => ?_⟩
    rw [number_of_digits negative (read rest ends), if_neg leading, settled rest ends]

/-! Written integers. -/

theorem isDigit_toDigits (n : Nat) : ∀ c ∈ Nat.toDigits 10 n, c.isDigit = true :=
  fun _ mem => Nat.isDigit_of_mem_toDigits (by decide) (by decide) mem

theorem numeral_toDigits (n : Nat) : Numeral (Nat.toDigits 10 n) := by
  have whole := Numeral.mk Nat.toDigits_ne_nil (isDigit_toDigits n) (.power .none)
  rwa [List.append_nil] at whole

theorem le_ofDigitChars (cs : List Char) (n : Nat) : n ≤ Nat.ofDigitChars 10 cs n := by
  rw [Nat.ofDigitChars_eq_ofDigitChars_zero]
  have := Nat.le_mul_of_pos_left n (Nat.pow_pos (n := cs.length) (by decide : 0 < 10))
  omega

theorem absorb_of_fits {cs : List Char} {n : Nat} (fits : Nat.ofDigitChars 10 cs n < 2 ^ 64) :
    absorb n (cs.map digitValue) = (Nat.ofDigitChars 10 cs n, []) := by
  induction cs generalizing n with
  | nil => rfl
  | cons c cs ih =>
    rw [Nat.ofDigitChars_cons] at fits ⊢
    have same : 10 * n + (c.toNat - '0'.toNat) = n * 10 + digitValue c := by
      rw [Nat.mul_comm, digitValue]
    rw [same] at fits ⊢
    have below := Nat.lt_of_le_of_lt (le_ofDigitChars cs (n * 10 + digitValue c)) fits
    rw [List.map_cons, absorb, if_pos below]
    exact ih fits

/-- Only zero is written with a leading zero. -/
theorem toDigits_cons (n : Nat) : ∃ c cs, Nat.toDigits 10 n = c :: cs ∧
    (digitValue c = 0 → cs = []) := by
  induction n using Nat.strongRecOn with
  | _ n ih =>
    by_cases small : n < 10
    · exact ⟨_, [], Nat.toDigits_of_lt_base small, fun _ => rfl⟩
    · have more := Nat.toDigits_of_base_le (b := 10) (by decide) (Nat.le_of_not_lt small)
      obtain ⟨c, cs, first, zero⟩ := ih (n / 10) (by omega)
      refine ⟨c, cs ++ [(n % 10).digitChar], by rw [more, first]; rfl, fun null => ?_⟩
      have value : Nat.ofDigitChars 10 (Nat.toDigits 10 (n / 10)) 0 = n / 10 :=
        Nat.ofDigitChars_ten_toDigits
      rw [first, zero null, Nat.ofDigitChars_cons, Nat.ofDigitChars_nil] at value
      have null : c.toNat - '0'.toNat = 0 := null
      omega

theorem number_toDigits (negative : Bool) {n : Nat} (fits : n < 2 ^ 64) {rest : Source}
    (ends : Ends rest) :
    number negative (source (Nat.toDigits 10 n) ++ rest) = wholeOf negative n rest := by
  have read := digits_append (isDigit_toDigits n) ends.stop
  have value : absorb 0 ((Nat.toDigits 10 n).map digitValue) = (n, []) := by
    rw [absorb_of_fits (by rwa [Nat.ofDigitChars_ten_toDigits]), Nat.ofDigitChars_ten_toDigits]
  obtain ⟨c, cs, first, zero⟩ := toDigits_cons n
  rw [first] at read value ⊢
  have single : ¬ (digitValue c = 0 ∧ cs.map digitValue ≠ []) :=
    fun leading => leading.2 (by rw [zero leading.1]; rfl)
  rw [List.map_cons] at read value
  rw [number_of_digits negative read, if_neg single, value, List.length_nil,
    afterWhole_of_ends negative n 0 ends, if_pos rfl]

theorem intChars_eq (i : Int) : intChars i =
    if 0 ≤ i then Nat.toDigits 10 i.toNat else '-' :: Nat.toDigits 10 (-i).toNat := by
  rw [intChars, Int.toString_eq_repr, Int.repr_eq_if]
  split
  · exact Nat.toList_repr
  · rw [String.toList_append, Nat.toList_repr]
    rfl

end Json.Scan

end ClaimQueue
