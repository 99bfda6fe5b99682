import ClaimQueue.Proofs.Json.Unknown

/-! What is passed over is a form, so the forms are all there is: a text is passed over whole just if
it is a form between blanks. Each scanner takes a front of the text that its token admits. -/

namespace ClaimQueue.Json

open Scan

/-- The scanner takes a front of the text that `P` admits, and leaves the rest. -/
def Takes (scan : Source → Except Fault Source) (P : List Char → Prop) : Prop :=
  ∀ {cs : List Char} {r : Source}, scan (source cs) = .ok r →
    ∃ front back, cs = front ++ back ∧ r = source back ∧ P front

theorem source_eq_cons {cs : List Char} {c : Char} {s : Source} (same : source cs = some c :: s) :
    ∃ rest, cs = c :: rest ∧ s = source rest := by
  obtain ⟨d, rest, rfl, first, rfl⟩ := List.map_eq_cons_iff.mp same
  exact ⟨rest, by rw [Option.some.inj first], rfl⟩

/-- The blanks in front of a text. -/
theorem skipGap_source (cs : List Char) : ∃ (gap : Gap) (back : List Char),
    cs = gap.chars ++ back ∧ skipGap (source cs) = source back := by
  induction cs with
  | nil => exact ⟨.empty, [], rfl, rfl⟩
  | cons c cs ih =>
    by_cases blank : isGap (some c) = true
    · obtain ⟨gap, back, rfl, skipped⟩ := ih
      refine ⟨⟨c :: gap.chars, ?_⟩, back, rfl, ?_⟩
      · intro d mem
        rcases List.mem_cons.mp mem with rfl | mem
        · exact blank
        · exact gap.blank d mem
      · rw [← skipped, source_cons, skipGap, List.dropWhile_cons_of_pos blank, skipGap]
    · rw [Bool.not_eq_true] at blank
      exact ⟨.empty, c :: cs, rfl, skipGap_cons blank _⟩

theorem exists_gap_of_skipGap {cs : List Char} (ended : skipGap (source cs) = []) :
    ∃ gap : Gap, cs = gap.chars := by
  obtain ⟨gap, back, rfl, skipped⟩ := skipGap_source cs
  obtain rfl : back = [] := List.map_eq_nil_iff.mp (skipped.symm.trans ended)
  exact ⟨gap, List.append_nil _⟩

theorem takes_word (letters : List Char) : Takes (word letters) (· = letters) := by
  intro cs r passed
  induction letters generalizing cs with
  | nil =>
    cases passed
    exact ⟨[], cs, rfl, rfl, rfl⟩
  | cons c letters ih =>
    cases cs with
    | nil => cases passed
    | cons d cs =>
      rw [source_cons, word] at passed
      split at passed
      · next same =>
        obtain ⟨front, back, rfl, left, rfl⟩ := ih passed
        exact ⟨d :: front, back, rfl, left, by rw [same]⟩
      · cases passed

/-- A scanner for a single character after blanks. -/
theorem takes_single {scan : Source → Except Fault Source} {c : Char}
    (single : ∀ s r, scan s = .ok r → skipGap s = some c :: r) :
    Takes scan fun cs => ∃ gap : Gap, cs = gap.chars ++ [c] := by
  intro cs r passed
  obtain ⟨gap, back, rfl, skipped⟩ := skipGap_source cs
  obtain ⟨rest, rfl, rfl⟩ := source_eq_cons (skipped.symm.trans (single _ _ passed))
  exact ⟨gap.chars ++ [c], rest, by simp, rfl, gap, rfl⟩

theorem takes_colon : Takes colon fun cs => ∃ gap : Gap, cs = gap.chars ++ [':'] := by
  refine takes_single fun s r passed => ?_
  unfold colon at passed
  split at passed <;> cases passed
  assumption

theorem takes_closeArray : Takes closeArray fun cs => ∃ gap : Gap, cs = gap.chars ++ [']'] := by
  refine takes_single fun s r passed => ?_
  unfold closeArray at passed
  split at passed <;> cases passed
  assumption

theorem takes_closeObject :
    Takes closeObject fun cs => ∃ gap : Gap, cs = gap.chars ++ ['\x7d'] := by
  refine takes_single fun s r passed => ?_
  unfold closeObject at passed
  split at passed <;> cases passed
  assumption

/-! Strings. -/

/-- Glyphs up to the closing quote. -/
def Glyph.Closed (cs : List Char) : Prop := ∃ gs : List Glyph, cs = gs.flatMap Glyph.chars ++ ['"']

theorem Glyph.closed_cons (g : Glyph) {cs : List Char} {r : Source}
    (taken : ∃ front back, cs = front ++ back ∧ r = source back ∧ Closed front) :
    ∃ front back, g.chars ++ cs = front ++ back ∧ r = source back ∧ Closed front := by
  obtain ⟨front, back, rfl, left, gs, rfl⟩ := taken
  exact ⟨g.chars ++ (gs.flatMap chars ++ ['"']), back, by simp, left, g :: gs, by simp⟩

theorem takes_string : Takes passString Glyph.Closed := by
  intro cs r passed
  generalize same : source cs = s at passed
  fun_induction passString s generalizing cs with
  | case2 s =>
    cases passed
    obtain ⟨rest, rfl, rfl⟩ := source_eq_cons same
    exact ⟨['"'], rest, rfl, rfl, [], rfl⟩
  | case4 a b c d s unit codes ih =>
    simp only [source, List.map_eq_cons_iff, Option.some.injEq] at same
    obtain ⟨_, _, rfl, rfl, _, _, rfl, rfl, a, _, rfl, rfl, b, _, rfl, rfl, c, _, rfl, rfl, d, cs,
      rfl, rfl, rfl⟩ := same
    exact Glyph.closed_cons (.coded a b c d unit codes) (ih rfl passed)
  | case6 mark s noCode other c marks ih =>
    simp only [source, List.map_eq_cons_iff, Option.some.injEq] at same
    obtain ⟨_, _, rfl, rfl, _, cs, rfl, rfl, rfl⟩ := same
    exact Glyph.closed_cons (.short _ c marks) (ih rfl passed)
  | case11 c s noQuote noCode noUnit noMark broken ends above ih =>
    obtain ⟨rest, rfl, rfl⟩ := source_eq_cons same
    have noBackslash : c ≠ '\\' := by
      cases rest with
      | nil => exact ends rfl
      | cons e rest => exact noMark e (source rest) rfl
    exact Glyph.closed_cons (.plain c ⟨above, noQuote, noBackslash⟩) (ih rfl passed)
  | case12 s ih => cases cs <;> cases same
  | _ => cases passed

/-! Numbers. -/

theorem isDigit_of_digit? {c : Char} {d : Nat} (h : digit? (some c) = some d) :
    c.isDigit = true ∧ digitValue c = d := by
  simp only [digit?] at h
  split at h
  · next bounds =>
    refine ⟨?_, Option.some.inj h⟩
    simp only [Char.isDigit, Bool.and_eq_true, decide_eq_true_eq]
    exact bounds
  · cases h

/-- The digits in front of a text. -/
theorem digits_source (cs : List Char) : ∃ front back, cs = front ++ back ∧
    (∀ c ∈ front, c.isDigit = true) ∧ digits (source cs) = (front.map digitValue, source back) := by
  induction cs with
  | nil => exact ⟨[], [], rfl, fun _ mem => absurd mem List.not_mem_nil, rfl⟩
  | cons c cs ih =>
    cases read : digit? (some c) with
    | none => exact ⟨[], c :: cs, rfl, fun _ mem => absurd mem List.not_mem_nil, digits_of_stop read _⟩
    | some d =>
      obtain ⟨digit, value⟩ := isDigit_of_digit? read
      obtain ⟨front, back, rfl, all, taken⟩ := ih
      refine ⟨c :: front, back, rfl, List.forall_mem_cons.mpr ⟨digit, all⟩, ?_⟩
      simp only [source_cons, digits, read, taken, List.map_cons, value]

/-- Of digits that were taken, one at least. -/
theorem exists_digits {cs : List Char} {d : Nat} {more : List Nat} {r : Source}
    (read : digits (source cs) = (d :: more, r)) :
    ∃ (ds : Digits) (back : List Char), cs = ds.chars ++ back ∧ r = source back ∧
      ds.chars.map digitValue = d :: more := by
  obtain ⟨front, back, rfl, all, taken⟩ := digits_source cs
  obtain ⟨values, rest⟩ := Prod.mk.inj (taken.symm.trans read)
  refine ⟨⟨front, ?_, all⟩, back, rfl, rest.symm, values⟩
  rintro rfl
  cases values

theorem exponentSign_source (cs : List Char) : ∃ sign back : List Char, cs = sign ++ back ∧
    (sign = [] ∨ sign = ['+'] ∨ sign = ['-']) ∧ (exponentSign (source cs)).2 = source back := by
  unfold exponentSign
  split
  · next same =>
    obtain ⟨rest, rfl, rfl⟩ := source_eq_cons same
    exact ⟨['+'], rest, rfl, .inr (.inl rfl), rfl⟩
  · next same =>
    obtain ⟨rest, rfl, rfl⟩ := source_eq_cons same
    exact ⟨['-'], rest, rfl, .inr (.inr rfl), rfl⟩
  · exact ⟨[], cs, rfl, .inl rfl, rfl⟩

theorem eq_of_isExponentMark {c : Char} (h : isExponentMark (some c) = true) : c = 'e' ∨ c = 'E' := by
  unfold isExponentMark at h
  split at h
  · next same => exact .inl (Option.some.inj same)
  · next same => exact .inr (Option.some.inj same)
  · cases h

theorem takes_exponent {mark : Char} (marks : mark = 'e' ∨ mark = 'E') :
    Takes passExponent fun cs => ∃ e : Exponent, mark :: cs = e.chars := by
  intro cs r passed
  obtain ⟨sign, back, rfl, signs, signed⟩ := exponentSign_source cs
  rw [passExponent, signed] at passed
  split at passed
  · cases passed
  · next read =>
    cases passed
    obtain ⟨ds, back, rfl, rfl, -⟩ := exists_digits read
    exact ⟨sign ++ ds.chars, back, by simp, rfl, ⟨mark, marks, sign, signs, ds⟩, rfl⟩

theorem takes_mark : Takes passMark fun cs => ∃ e, cs = Figure.exponentChars e := by
  intro cs r passed
  cases cs with
  | nil =>
    cases passed
    exact ⟨[], [], rfl, rfl, none, rfl⟩
  | cons c cs =>
    rw [source_cons, passMark] at passed
    split at passed
    · next mark =>
      obtain ⟨front, back, rfl, left, e, same⟩ := takes_exponent (eq_of_isExponentMark mark) passed
      exact ⟨c :: front, back, rfl, left, some e, same⟩
    · cases passed
      exact ⟨[], c :: cs, rfl, rfl, none, rfl⟩

/-- A zero that stands alone among its values stands alone. -/
theorem leading_of_single {cs : List Char} {d : Nat} {more : List Nat}
    (values : cs.map digitValue = d :: more) (single : ¬ (d = 0 ∧ more ≠ [])) :
    ∀ rest, cs = '0' :: rest → rest = [] := by
  rintro rest rfl
  obtain ⟨zero, rest⟩ := List.cons.inj values
  by_contra some
  refine single ⟨zero.symm, fun none => some ?_⟩
  rw [none] at rest
  exact List.map_eq_nil_iff.mp rest

theorem cons_of_noLeading {values : List Nat} (some : values = [] → False)
    (noLeading : ∀ e more, values = 0 :: e :: more → False) :
    ∃ d more, values = d :: more ∧ ¬ (d = 0 ∧ more ≠ []) := by
  obtain ⟨d, more, rfl⟩ := List.exists_cons_of_ne_nil some
  refine ⟨d, more, rfl, ?_⟩
  rintro ⟨rfl, several⟩
  obtain ⟨e, more, rfl⟩ := List.exists_cons_of_ne_nil several
  exact noLeading e more rfl

/-- What a number that was passed over consists of. -/
theorem parts_of_passNumber {s r : Source} (passed : passNumber s = .ok r) :
    ∃ d more left, digits s = (d :: more, left) ∧ ¬ (d = 0 ∧ more ≠ []) ∧
      (passMark left = .ok r ∨ ∃ t e es after,
        left = some '.' :: t ∧ digits t = (e :: es, after) ∧ passMark after = .ok r) := by
  unfold passNumber at passed
  split at passed
  · cases passed
  · cases passed
  · next values t noDigit noLeading read =>
    obtain ⟨d, more, rfl, single⟩ := cons_of_noLeading noDigit noLeading
    split at passed
    · cases passed
    · next e es after fraction =>
      exact ⟨d, more, _, read, single, .inr ⟨t, e, es, after, rfl, fraction, passed⟩⟩
  · next values left noDigit noLeading noPoint read =>
    obtain ⟨d, more, rfl, single⟩ := cons_of_noLeading noDigit noLeading
    exact ⟨d, more, left, read, single, .inl passed⟩

theorem takes_number (negative : Bool) : Takes passNumber fun cs =>
    ∃ n : Figure, n.negative = negative ∧ cs = n.magnitude := by
  intro cs r passed
  obtain ⟨d, more, left, read, single, rest⟩ := parts_of_passNumber passed
  obtain ⟨ds, back, rfl, rfl, values⟩ := exists_digits read
  have leading := leading_of_single values single
  obtain whole | ⟨t, d, more, after, point, fractional, rest⟩ := rest
  · obtain ⟨front, back, rfl, left, e, rfl⟩ := takes_mark whole
    exact ⟨ds.chars ++ Figure.exponentChars e, back, by simp, left,
      ⟨negative, ds, leading, none, e⟩, rfl, rfl⟩
  · obtain ⟨fraction, rfl, rfl⟩ := source_eq_cons point
    obtain ⟨fs, back, rfl, rfl, -⟩ := exists_digits fractional
    obtain ⟨front, back, rfl, left, e, rfl⟩ := takes_mark rest
    exact ⟨ds.chars ++ ('.' :: fs.chars ++ Figure.exponentChars e), back, by simp, left,
      ⟨negative, ds, leading, some fs, e⟩, rfl, rfl⟩

/-! What stands between the values. -/

/-- Blanks, and a comma with more blanks unless it is the first item. -/
theorem nextItem_source {first : Bool} {cs : List Char} {t : Source}
    (next : nextItem first (source cs) = .ok (some t)) :
    ∃ (gap before : Gap) (back : List Char),
      cs = gap.chars ++ (lead first ++ (before.chars ++ back)) ∧ t = source back := by
  obtain ⟨gap, rest, rfl, skipped⟩ := skipGap_source cs
  rw [nextItem, skipped] at next
  split at next
  · cases next
  · cases next
  · next same =>
    obtain ⟨rest, rfl, rfl⟩ := source_eq_cons same
    split at next
    · cases next
    · next later =>
      obtain ⟨before, back, rfl, skipped⟩ := skipGap_source rest
      rw [skipped] at next
      obtain rfl := (Bool.not_eq_true first).mp later
      split at next <;> cases next
      exact ⟨gap, before, back, rfl, rfl⟩
  · split at next
    · next early =>
      cases next
      exact ⟨gap, .empty, rest, by rw [early]; rfl, rfl⟩
    · cases next

theorem nextKey_source {first : Bool} {cs : List Char} {t : Source}
    (next : nextKey first (source cs) = .ok (some t)) :
    ∃ (gap before : Gap) (back : List Char),
      cs = gap.chars ++ (lead first ++ (before.chars ++ '"' :: back)) ∧ t = source back := by
  obtain ⟨gap, rest, rfl, skipped⟩ := skipGap_source cs
  rw [nextKey, skipped] at next
  split at next
  · cases next
  · cases next
  · next same =>
    obtain ⟨rest, rfl, rfl⟩ := source_eq_cons same
    split at next
    · cases next
    · next later =>
      obtain ⟨before, back, rfl, skipped⟩ := skipGap_source rest
      rw [skipped] at next
      obtain rfl := (Bool.not_eq_true first).mp later
      split at next <;> cases next
      next same =>
        obtain ⟨back, rfl, rfl⟩ := source_eq_cons same
        exact ⟨gap, before, back, rfl, rfl⟩
  · next same =>
    split at next
    · next early =>
      cases next
      obtain ⟨back, rfl, rfl⟩ := source_eq_cons same
      exact ⟨gap, .empty, back, by rw [early]; rfl, rfl⟩
    · cases next
  · cases next

/-! Values. -/

/-- A form with blanks in front of it. -/
def Form.Led (cs : List Char) : Prop := ∃ (gap : Gap) (f : Form), cs = gap.chars ++ f.chars

theorem takes_items {item : Source → Except Fault Source} (taken : Takes item Form.Led)
    (fuel : Nat) (first : Bool) : Takes (passItems item fuel first) fun cs =>
      ∃ (gap : Gap) (items : List (Item Form)),
        cs = gap.chars ++ (joined first (Form.itemChars items) ++ [']']) := by
  intro cs r passed
  induction fuel generalizing first cs with
  | zero => cases passed
  | succ fuel ih =>
    rw [passItems] at passed
    obtain ⟨next?, next, passed⟩ := bind_eq_ok.mp passed
    cases next? with
    | none =>
      obtain ⟨front, back, rfl, left, gap, rfl⟩ := takes_closeArray passed
      exact ⟨gap.chars ++ [']'], back, rfl, left, gap, [], rfl⟩
    | some t =>
      obtain ⟨u, read, others⟩ := bind_eq_ok.mp passed
      obtain ⟨gap, before, back, rfl, rfl⟩ := nextItem_source next
      obtain ⟨_, back, rfl, rfl, more, content, rfl⟩ := taken read
      obtain ⟨_, back, rfl, left, after, items, rfl⟩ := ih false others
      refine ⟨_, back, ?_, left, gap, ⟨before.append more, content, after⟩ :: items, rfl⟩
      simp [Form.itemChars, joined, Gap.append]

theorem takes_members {item : Source → Except Fault Source} (taken : Takes item Form.Led)
    (fuel : Nat) (first : Bool) : Takes (passMembers item fuel first) fun cs =>
      ∃ (gap : Gap) (members : List (Member Form)),
        cs = gap.chars ++ (joined first (Form.memberChars members) ++ ['\x7d']) := by
  intro cs r passed
  induction fuel generalizing first cs with
  | zero => cases passed
  | succ fuel ih =>
    rw [passMembers] at passed
    obtain ⟨next?, next, passed⟩ := bind_eq_ok.mp passed
    cases next? with
    | none =>
      obtain ⟨front, back, rfl, left, gap, rfl⟩ := takes_closeObject passed
      exact ⟨gap.chars ++ ['\x7d'], back, rfl, left, gap, [], rfl⟩
    | some t =>
      obtain ⟨u, named, passed⟩ := bind_eq_ok.mp passed
      obtain ⟨v, parted, passed⟩ := bind_eq_ok.mp passed
      obtain ⟨w, read, others⟩ := bind_eq_ok.mp passed
      obtain ⟨gap, before, back, rfl, rfl⟩ := nextKey_source next
      obtain ⟨_, back, rfl, rfl, key, rfl⟩ := takes_string named
      obtain ⟨_, back, rfl, rfl, behind, rfl⟩ := takes_colon parted
      obtain ⟨_, back, rfl, rfl, ahead, content, rfl⟩ := taken read
      obtain ⟨_, back, rfl, left, after, members, rfl⟩ := ih false others
      refine ⟨_, back, ?_, left, gap,
        ⟨before, key, behind, ahead, content, after⟩ :: members, rfl⟩
      simp [Form.memberChars, joined, Glyph.quoted]

/-- A form that begins with `c`, where the scanner takes the rest of it. -/
theorem led_of_takes {scan : Source → Except Fault Source} {P : List Char → Prop} (taken : Takes scan P)
    {c : Char} (forms : ∀ front, P front → ∃ f : Form, f.chars = c :: front) (gap : Gap)
    {back : List Char} {s r : Source} (same : source back = some c :: s)
    (passed : scan s = .ok r) :
    ∃ front rest, gap.chars ++ back = front ++ rest ∧ r = source rest ∧ Form.Led front := by
  obtain ⟨back, rfl, rfl⟩ := source_eq_cons same
  obtain ⟨front, rest, rfl, left, admitted⟩ := taken passed
  obtain ⟨f, spelled⟩ := forms front admitted
  exact ⟨gap.chars ++ f.chars, rest, by simp [spelled], left, gap, f, rfl⟩

/-- What is passed over is a form. -/
theorem takes_value (depth : Nat) : Takes (passValue depth) Form.Led := by
  induction depth using Nat.strong_induction_on with
  | h depth ih =>
    intro cs r passed
    obtain ⟨gap, back, rfl, skipped⟩ := skipGap_source cs
    rw [passValue, skipped] at passed
    split at passed
    case h_1 => cases passed
    case h_2 same =>
      refine led_of_takes (takes_word _) ?_ gap same passed
      rintro _ rfl
      exact ⟨.null, rfl⟩
    case h_3 same =>
      refine led_of_takes (takes_word _) ?_ gap same passed
      rintro _ rfl
      exact ⟨.bool true, rfl⟩
    case h_4 same =>
      refine led_of_takes (takes_word _) ?_ gap same passed
      rintro _ rfl
      exact ⟨.bool false, rfl⟩
    case h_5 same =>
      refine led_of_takes (takes_number true) ?_ gap same passed
      rintro _ ⟨n, negative, rfl⟩
      exact ⟨.number n, if_pos negative⟩
    case h_6 same =>
      refine led_of_takes takes_string ?_ gap same passed
      rintro _ ⟨gs, rfl⟩
      exact ⟨.string gs, rfl⟩
    case h_7 same =>
      cases depth with
      | zero => cases passed
      | succ depth =>
        refine led_of_takes (takes_items (ih depth (Nat.lt_succ_self depth)) _ true) ?_ gap same
          passed
        rintro _ ⟨inner, items, rfl⟩
        exact ⟨.array inner items, rfl⟩
    case h_8 same =>
      cases depth with
      | zero => cases passed
      | succ depth =>
        refine led_of_takes (takes_members (ih depth (Nat.lt_succ_self depth)) _ true) ?_ gap same
          passed
        rintro _ ⟨inner, members, rfl⟩
        exact ⟨.object inner members, rfl⟩
    case h_9 same =>
      split at passed
      · rw [← same] at passed
        obtain ⟨_, rest, rfl, rfl, n, negative, rfl⟩ := takes_number false passed
        refine ⟨gap.chars ++ n.magnitude, rest, by simp, rfl, gap, .number n, ?_⟩
        rw [Form.chars, Figure.chars, negative]
        rfl
      · cases passed

/-- A text is passed over whole just if it is a form between blanks. -/
theorem passed_whole_iff (cs : List Char) :
    (∃ r, Scan.pass (source cs) = .ok r ∧ skipGap r = []) ↔
      ∃ (before : Gap) (f : Form) (after : Gap), cs = before.chars ++ (f.chars ++ after.chars) := by
  constructor
  · rintro ⟨r, passed, ended⟩
    obtain ⟨_, back, rfl, rfl, before, f, rfl⟩ := takes_value _ passed
    obtain ⟨after, rfl⟩ := exists_gap_of_skipGap ended
    exact ⟨before, f, after, List.append_assoc _ _ _⟩
  · rintro ⟨before, f, after, rfl⟩
    refine ⟨source after.chars, ?_, after.skipGap_chars⟩
    rw [source_append, source_append]
    exact Form.pass_form before f after.ends

/-- A text that is passed over whole and opens a brace is an object on a page. -/
theorem exists_page {cs : List Char} {r s : Source} (passed : Scan.pass (source cs) = .ok r)
    (ended : skipGap r = []) (brace : skipGap (source cs) = some '\x7b' :: s) :
    ∃ (p : Page) (members : List (Member Form)), cs = p.chars members := by
  obtain ⟨before, f, after, rfl⟩ := (passed_whole_iff cs).mp ⟨r, passed, ended⟩
  rw [source_append, source_append, skipGap_append before.blank, skipGap_form] at brace
  obtain ⟨inner, members, rfl⟩ := Form.eq_object (Form.begins_of_eq brace)
  exact ⟨⟨before, inner, after⟩, members, rfl⟩

end ClaimQueue.Json
