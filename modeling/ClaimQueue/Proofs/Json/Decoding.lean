import ClaimQueue.Json.Record
import ClaimQueue.Proofs.Json.Reading

/-! Decoders on documents by their grammar. What a decoder makes of a form, be it a value or a fault,
depends on nothing around the form. So what a record makes of an object is settled by its members
one after the other, and a member with an unknown key has no part in it. -/

namespace ClaimQueue.Json

open Scan

variable {α : Type}

theorem skipGap_form (f : Form) (rest : Source) :
    skipGap (source f.chars ++ rest) = source f.chars ++ rest := by
  obtain ⟨c, cs, same, noGap, -⟩ := f.opens
  rw [same]
  exact skipGap_cons noGap _

theorem Form.begins_of_eq {f : Form} {rest s : Source} {c : Char}
    (same : source f.chars ++ rest = some c :: s) : f.Begins c := by
  obtain ⟨d, cs, first, begins⟩ := f.begins
  rw [first] at same
  cases same
  exact begins

namespace Form

variable {f : Form}

theorem eq_null (begins : f.Begins 'n') : f = .null := by
  match f, begins with
  | .null, _ => rfl
  | .number _, .inr digit => cases digit

theorem eq_string (begins : f.Begins '"') : ∃ gs, f = .string gs := by
  match f, begins with
  | .string gs, _ => exact ⟨gs, rfl⟩
  | .number _, .inr digit => cases digit

theorem eq_object (begins : f.Begins '\x7b') : ∃ inner members, f = .object inner members := by
  match f, begins with
  | .object inner members, _ => exact ⟨inner, members, rfl⟩
  | .number _, .inr digit => cases digit

theorem eq_number {c : Char} (sign : c = '-' ∨ c.isDigit = true) (begins : f.Begins c) :
    ∃ n, f = .number n := by
  match f, begins with
  | .number n, _ => exact ⟨n, rfl⟩
  | .null, rfl | .bool true, rfl | .bool false, rfl | .string _, rfl | .array _ _, rfl
  | .object _ _, rfl => exact absurd sign (by decide)

end Form

theorem unexpected_of_digit (expected : String) {c : Char} (h : c.isDigit = true) (s : Source) :
    unexpected expected (some c :: s) =
      match (number false (some c :: s)).map fun r => r.1.found with
      | .ok found => .wrongType found expected
      | .error fault => fault := by
  obtain ⟨k, small, rfl⟩ := digitChar_of_isDigit h
  unfold unexpected
  interval_cases k <;> rfl

namespace Form

/-- What is shown of a form where another kind is expected; none, if that cannot be read. -/
def found? : Form → Option Found
  | .null => some .null
  | .bool b => some (.bool b)
  | .number n => n.value?.map Json.found
  | .string gs => (Glyph.decode? gs).map fun cs => .string (String.ofList cs)
  | .array _ _ => some .array
  | .object _ _ => some .object

/-- The fault at a form of the wrong kind. -/
def mistaken (expected : String) (f : Form) : Fault :=
  match f.found? with
  | some found => .wrongType found expected
  | none => .malformed

theorem unexpected_chars (expected : String) (f : Form) {rest : Source} (ends : Ends rest) :
    unexpected expected (source f.chars ++ rest) = f.mistaken expected := by
  cases f with
  | null => rfl
  | bool b => cases b <;> rfl
  | array inner items => rfl
  | object inner members => rfl
  | string gs =>
    rw [chars, source_quoted, unexpected, mistaken, found?]
    simp only [string_glyphs]
    cases Glyph.decode? gs <;> rfl
  | number n =>
    have read := number_magnitude n ends
    rw [chars, mistaken, found?]
    obtain ⟨negative, same⟩ | ⟨negative, c, cs, digit, magnitude, same⟩ := n.first
    · rw [negative] at read
      rw [same, source_cons, List.cons_append, unexpected]
      simp only [read]
      cases n.value? <;> rfl
    · rw [negative, magnitude] at read
      rw [same, source_cons, List.cons_append, unexpected_of_digit expected digit,
        ← List.cons_append, ← source_cons, read]
      cases n.value? <;> rfl

end Form

namespace Decoder

/-- A decoder skips the blanks before a form, and looks at nothing behind it. -/
structure Steady (d : Decoder α) : Prop where
  lead : ∀ depth {gap : Source}, Blank gap → ∀ s, d.read depth (gap ++ s) = d.read depth s
  body : ∀ depth (f : Form), ∃ o : Except Fault α, ∀ rest, Ends rest →
    d.read depth (source f.chars ++ rest) = settled o rest

/-- What a decoder makes of a form. -/
def meaning (d : Decoder α) (depth : Nat) (f : Form) : Except Fault α :=
  (d.read depth (source f.chars)).map Prod.fst

theorem Steady.read {d : Decoder α} (steady : d.Steady) (depth : Nat) (gap : Gap) (f : Form)
    {rest : Source} (ends : Ends rest) :
    d.read depth (source gap.chars ++ (source f.chars ++ rest)) =
      settled (d.meaning depth f) rest := by
  obtain ⟨o, body⟩ := steady.body depth f
  have alone : d.meaning depth f = o := by
    have whole := body [] .text
    rw [List.append_nil] at whole
    rw [meaning, whole]
    cases o <;> rfl
  rw [steady.lead depth gap.blank, body rest ends, alone]

theorem Steady.map {β : Type} {d : Decoder α} (steady : d.Steady) (f : α → β) :
    (d.map f).Steady where
  lead depth gap blank s := congrArg (Except.map _) (steady.lead depth blank s)
  body depth form := by
    obtain ⟨o, body⟩ := steady.body depth form
    refine ⟨o.map f, fun rest ends => ?_⟩
    show (d.read depth _).map _ = _
    rw [body rest ends]
    cases o <;> rfl

theorem steady_parsed (expected : String) (parse : String → Except Fault α) :
    (parsed expected parse).Steady where
  lead depth gap blank s := by simp only [parsed, skipGap_append blank]
  body depth f := by
    by_cases text : ∃ gs, f = .string gs
    · obtain ⟨gs, rfl⟩ := text
      refine ⟨(legible ((Glyph.decode? gs).map String.ofList)).bind parse, fun rest _ => ?_⟩
      rw [parsed]
      simp only [skipGap_form]
      rw [Form.chars, source_quoted]
      simp only [string_glyphs]
      cases Glyph.decode? gs with
      | none => rfl
      | some cs =>
        show (parse (String.ofList cs)).bind _ = settled (parse (String.ofList cs)) rest
        cases parse (String.ofList cs) <;> rfl
    · refine ⟨.error (f.mistaken expected), fun rest ends => ?_⟩
      have noQuote (s : Source) : source f.chars ++ rest ≠ some '"' :: s :=
        fun same => text (Form.eq_string (Form.begins_of_eq same))
      simp only [parsed, skipGap_form, f.unexpected_chars expected ends]
      rfl

theorem Steady.optional {d : Decoder α} (steady : d.Steady) : d.optional.Steady where
  lead depth gap blank s := by simp only [Decoder.optional, skipGap_append blank]
  body depth f := by
    by_cases null : f = .null
    · subst null
      exact ⟨.ok none, fun rest _ => rfl⟩
    · obtain ⟨o, body⟩ := steady.body depth f
      refine ⟨o.map some, fun rest ends => ?_⟩
      have noNull (s : Source) : source f.chars ++ rest ≠ some 'n' :: s :=
        fun same => null (Form.eq_null (Form.begins_of_eq same))
      simp only [Decoder.optional, skipGap_form, body rest ends]
      cases o <;> rfl

theorem digit?_of_not_isDigit {c : Char} (h : ¬ c.isDigit = true) : digit? (some c) = none := by
  simp only [Char.isDigit, Bool.and_eq_true, decide_eq_true_eq] at h
  exact if_neg h

theorem natural_number (bound : Nat) (expected : String) (depth : Nat) (n : Figure) (rest : Source) :
    (natural bound expected).read depth (source n.chars ++ rest) =
      (number n.negative (source n.magnitude ++ rest)).bind fun r =>
        (naturalOf bound expected r.1).bind fun a => .ok (a, r.2) := by
  obtain ⟨negative, same⟩ | ⟨negative, c, cs, digit, magnitude, same⟩ := n.first
  · rw [negative, same]
    rfl
  · rw [negative, magnitude, same]
    obtain ⟨k, small, rfl⟩ := digitChar_of_isDigit digit
    interval_cases k <;> rfl

theorem natural_other (bound : Nat) (expected : String) (depth : Nat) {c : Char}
    (noGap : isGap (some c) = false) (other : ¬ (c = '-' ∨ c.isDigit = true)) (s : Source) :
    (natural bound expected).read depth (some c :: s) =
      .error (unexpected expected (some c :: s)) := by
  rw [not_or] at other
  simp only [natural, skipGap_cons noGap]
  split
  · next same =>
    cases same
    exact (other.1 rfl).elim
  · next same =>
    cases same
    simp only [digit?_of_not_isDigit other.2, Option.isSome_none, Bool.false_eq_true, if_false]
  · next same => cases same

theorem steady_natural (bound : Nat) (expected : String) : (natural bound expected).Steady where
  lead depth gap blank s := by simp only [natural, skipGap_append blank]
  body depth f := by
    by_cases number : ∃ n, f = .number n
    · obtain ⟨n, rfl⟩ := number
      refine ⟨(legible n.value?).bind (naturalOf bound expected), fun rest ends => ?_⟩
      rw [Form.chars, natural_number, number_magnitude n ends]
      cases n.value? with
      | none => rfl
      | some j =>
        show (naturalOf bound expected j).bind _ = settled (naturalOf bound expected j) rest
        cases naturalOf bound expected j <;> rfl
    · refine ⟨.error (f.mistaken expected), fun rest ends => ?_⟩
      obtain ⟨c, cs, same, begins⟩ := f.begins
      have other : ¬ (c = '-' ∨ c.isDigit = true) := fun sign => number (Form.eq_number sign begins)
      have noGap : isGap (some c) = false := by
        obtain ⟨d, ds, same', noGap, -⟩ := f.opens
        rw [same] at same'
        cases same'
        exact noGap
      have mistaken := f.unexpected_chars expected ends
      rw [same, source_cons, List.cons_append] at mistaken ⊢
      rw [natural_other bound expected depth noGap other, mistaken]
      rfl

theorem steady_payload : payload.Steady where
  lead depth gap blank s := by simp only [payload, skipGap_append blank]
  body depth f := by
    by_cases object : ∃ inner members, f = .object inner members
    · obtain ⟨inner, members, rfl⟩ := object
      cases depth with
      | zero => exact ⟨.error .malformed, fun rest _ => rfl⟩
      | succ depth =>
        refine ⟨(legible (Form.entries? members depth)).map Index.ofList, fun rest _ => ?_⟩
        simp only [payload, skipGap_form]
        rw [Form.source_object]
        show (Scan.members (value depth) _ true _).bind _ = _
        rw [Form.members_chars members depth _ true inner.blank rest
          (Form.length_memberChars members ▸ Form.length_lt_fuel _ _ _ _)]
        cases Form.entries? members depth <;> rfl
    · refine ⟨.error (f.mistaken "a map"), fun rest ends => ?_⟩
      have noBrace (s : Source) : source f.chars ++ rest ≠ some '\x7b' :: s :=
        fun same => object (Form.eq_object (Form.begins_of_eq same))
      simp only [payload, skipGap_form, f.unexpected_chars "a map" ends]
      rfl

/-! The name of a variant. -/

theorem readUnit_form (gap : Gap) (f : Form) :
    ∃ o : Except Fault Unit, ∀ rest, Ends rest →
      readUnit (source gap.chars ++ (source f.chars ++ rest)) = o.map fun _ => rest := by
  by_cases null : f = .null
  · subst null
    refine ⟨.ok (), fun rest _ => ?_⟩
    rw [readUnit, skipGap_append gap.blank]
    rfl
  · refine ⟨.error (f.mistaken "unit"), fun rest ends => ?_⟩
    have noNull (s : Source) : source f.chars ++ rest ≠ some 'n' :: s :=
      fun same => null (Form.eq_null (Form.begins_of_eq same))
    simp only [readUnit, skipGap_append gap.blank, skipGap_form, f.unexpected_chars "unit" ends]
    rfl

/-- Only the last member is followed by the closing brace. -/
theorem closeObject_members (gap : Gap) (members : List (Member Form)) :
    ∃ o : Except Fault Unit, ∀ rest : Source,
      closeObject (source gap.chars ++ (source (joined false (Form.memberChars members)) ++
        some '\x7d' :: rest)) = o.map fun _ => rest := by
  cases members with
  | nil =>
    refine ⟨.ok (), fun rest => ?_⟩
    exact closeObject_append gap.blank rest
  | cons m members =>
    refine ⟨.error .malformed, fun rest => ?_⟩
    rw [Form.source_member, closeObject, skipGap_append gap.blank]
    rfl

theorem variant_quote (table : List (String × α)) (depth : Nat) {s t : Source}
    (quote : skipGap s = some '"' :: t) :
    (variant table).read (depth + 1) (some '\x7b' :: s) =
      (Scan.string t).bind fun k => (lookUp table k.1).bind fun a => (colon k.2).bind fun u =>
        (readUnit u).bind fun v => (closeObject v).bind fun w => .ok (a, w) := by
  rw [variant]
  simp only [skipGap_cons (c := some '\x7b') rfl, quote]
  rfl

theorem variant_brace (table : List (String × α)) (depth : Nat) {s t : Source}
    (brace : skipGap s = some '\x7d' :: t) :
    (variant table).read (depth + 1) (some '\x7b' :: s) = .error .malformed := by
  rw [variant]
  simp only [skipGap_cons (c := some '\x7b') rfl, brace]
  rfl

theorem variant_number_form (table : List (String × α)) (depth : Nat) (n : Figure) (rest : Source) :
    (variant table).read depth (source n.chars ++ rest) = .error .malformed := by
  obtain ⟨-, same⟩ | ⟨-, c, cs, digit, -, same⟩ := n.first
  · rw [same]
    rfl
  · rw [same]
    obtain ⟨k, small, rfl⟩ := digitChar_of_isDigit digit
    interval_cases k <;> rfl

theorem variant_string_form (table : List (String × α)) (depth : Nat) (gs : List Glyph)
    (rest : Source) :
    (variant table).read depth (source (Glyph.quoted gs) ++ rest) =
      settled ((legible ((Glyph.decode? gs).map String.ofList)).bind (lookUp table)) rest := by
  rw [source_quoted, variant]
  simp only [skipGap_cons (c := some '"') rfl, string_glyphs]
  cases Glyph.decode? gs with
  | none => rfl
  | some cs =>
    show (lookUp table (String.ofList cs)).bind _ = settled (lookUp table (String.ofList cs)) rest
    cases lookUp table (String.ofList cs) <;> rfl

theorem variant_object_nil (table : List (String × α)) (depth : Nat) (inner : Gap)
    (rest : Source) :
    (variant table).read (depth + 1) (source (Form.object inner []).chars ++ rest) =
      .error .malformed := by
  rw [Form.source_object]
  exact variant_brace table depth (skipGap_append inner.blank _)

/-- The first member gives the name of the variant. It is the only one, and holds nothing. -/
theorem variant_object_cons (table : List (String × α)) (depth : Nat) (inner : Gap)
    (m : Member Form) (members : List (Member Form)) :
    ∃ o : Except Fault α, ∀ rest : Source,
      (variant table).read (depth + 1) (source (Form.object inner (m :: members)).chars ++ rest) =
        settled o rest := by
  obtain ⟨unit, unitRead⟩ := readUnit_form m.ahead m.content
  obtain ⟨close, closed⟩ := closeObject_members m.after members
  refine ⟨(legible m.name?).bind fun name => (lookUp table name).bind fun a =>
    unit.bind fun _ => close.bind fun _ => .ok a, fun rest => ?_⟩
  have quote : skipGap (source inner.chars ++
      (source (joined true (Form.memberChars (m :: members))) ++ some '\x7d' :: rest)) =
      some '"' :: Form.memberSource m (source (joined false (Form.memberChars members)) ++
        some '\x7d' :: rest) := by
    rw [skipGap_append inner.blank, Form.source_member]
    exact skipGap_append m.before.blank _
  have unitRead := unitRead _ (Form.ends_after m.after (Form.memberChars members) (.brace rest))
  rw [Form.source_object, variant_quote table depth quote, Form.memberSource, string_glyphs,
    Member.name?]
  cases Glyph.decode? m.key with
  | none => rfl
  | some cs =>
    show (lookUp table (String.ofList cs)).bind _ =
      settled ((lookUp table (String.ofList cs)).bind _) rest
    cases lookUp table (String.ofList cs) with
    | error => rfl
    | ok a =>
      show (colon _).bind _ = _
      rw [colon_append m.behind.blank]
      show (readUnit _).bind _ = settled (unit.bind _) rest
      rw [unitRead]
      cases unit with
      | error => rfl
      | ok =>
        show (closeObject _).bind _ = settled (close.bind _) rest
        rw [closed]
        cases close <;> rfl

theorem steady_variant (table : List (String × α)) : (variant table).Steady where
  lead depth gap blank s := by simp only [variant, skipGap_append blank]
  body depth f := by
    cases f with
    | null => exact ⟨.error .malformed, fun rest _ => rfl⟩
    | bool b => exact ⟨.error .malformed, fun rest _ => by cases b <;> rfl⟩
    | number n => exact ⟨.error .malformed, fun rest _ => variant_number_form table depth n rest⟩
    | string gs => exact ⟨_, fun rest _ => variant_string_form table depth gs rest⟩
    | array inner items => exact ⟨.error .malformed, fun rest _ => rfl⟩
    | object inner members =>
      cases depth with
      | zero => exact ⟨.error .malformed, fun rest _ => rfl⟩
      | succ depth =>
        cases members with
        | nil =>
          exact ⟨.error .malformed, fun rest _ => variant_object_nil table depth inner rest⟩
        | cons m members =>
          obtain ⟨o, body⟩ := variant_object_cons table depth inner m members
          exact ⟨o, fun rest _ => body rest⟩

end Decoder

end ClaimQueue.Json
