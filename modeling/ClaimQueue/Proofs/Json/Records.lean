import ClaimQueue.Json.Record
import ClaimQueue.Proofs.Json.Plain

/-! Written values, read by a decoder straight from the text in which they stand, whatever the
layout. A record is read back when each of its members is, whatever comes after it. -/

namespace ClaimQueue.Json

open Scan

variable {α β : Type}

/-- Where it stands in a text, in any layout, the written value is read as `a`, and nothing after
it. -/
def Reads (d : Decoder α) (depth : Nat) (j : Json) (a : α) : Prop :=
  ∀ (l : Layout) (level : Nat) {gap rest : Source}, Blank gap → Ends rest →
    d.read depth (gap ++ (source (l.chars level j) ++ rest)) = .ok (a, rest)

theorem Reads.map {d : Decoder α} {depth : Nat} {j : Json} {a : α} (h : Reads d depth j a)
    (f : α → β) : Reads (d.map f) depth j (f a) := by
  intro l level gap rest blank ends
  simp only [Decoder.map, h l level blank ends]
  rfl

theorem blank_nil : Blank [] := fun _ mem => nomatch mem

/-- Alone in a text, too. -/
theorem Reads.ofText_chars {d : Decoder α} {j : Json} {a : α} (h : Reads d maxNesting j a)
    (l : Layout) : d.ofText (String.ofList (l.chars 0 j)) = .ok a := by
  have read := h l 0 blank_nil .text
  rw [List.append_nil, List.nil_append] at read
  rw [Decoder.ofText, Decoder.ofSource, sourceOf_ofList, whole, read]
  rfl

theorem Reads.ofText {d : Decoder α} {j : Json} {a : α} (h : Reads d maxNesting j a) :
    d.ofText j.compact = .ok a := by
  rw [compact, ← Layout.chars_tight j 0]
  exact h.ofText_chars .tight

theorem Reads.ofText_pretty {d : Decoder α} {j : Json} {a : α} (h : Reads d maxNesting j a) :
    d.ofText j.pretty = .ok a := by
  rw [pretty, ← Layout.chars_indented j 0]
  exact h.ofText_chars .indented

/-! Strings, numbers and lists. -/

theorem skipGap_string (l : Layout) (level : Nat) (s : String) {gap : Source} (blank : Blank gap)
    (rest : Source) :
    skipGap (gap ++ (source (l.chars level (.string s)) ++ rest)) =
      some '"' :: (source (s.toList.flatMap escapedChar) ++ some '"' :: rest) := by
  rw [skipGap_append blank, Layout.chars, chars, source_stringChars]
  exact skipGap_cons rfl _

theorem reads_parsed {expected : String} {parse : String → Except Fault α} {s : String} {a : α}
    (h : parse s = .ok a) (depth : Nat) : Reads (.parsed expected parse) depth (.string s) a := by
  intro l level gap rest blank _
  simp only [Decoder.parsed, skipGap_string l level s blank, bind, Except.bind, string_written, h]
  rfl

theorem reads_text (s : String) (depth : Nat) : Reads .text depth (.string s) s :=
  reads_parsed rfl depth

theorem reads_variant {table : List (String × α)} {name : String} {a : α}
    (h : Decoder.lookUp table name = .ok a) (depth : Nat) :
    Reads (.variant table) depth (.string name) a := by
  intro l level gap rest blank _
  simp only [Decoder.variant, skipGap_string l level name blank, bind, Except.bind, string_written,
    h]
  rfl

theorem Reads.optional {d : Decoder α} {depth : Nat} {s : String} {a : α}
    (h : Reads d depth (.string s) a) : Reads d.optional depth (.string s) (some a) := by
  intro l level gap rest blank ends
  have read := h l level blank_nil ends
  rw [List.nil_append, Layout.chars, chars, source_stringChars] at read
  simp only [Decoder.optional, skipGap_string l level s blank]
  show (d.read depth (some '"' :: _) >>= fun r => Except.ok (some r.1, r.2)) = _
  rw [read]
  rfl

theorem intChars_natCast (n : Nat) : intChars n = Nat.toDigits 10 n := by
  rw [intChars_eq, if_pos (Int.natCast_nonneg n), Int.toNat_natCast]

theorem reads_natural {bound n : Nat} (inside : n ≤ bound) (fits : n < 2 ^ 64) (expected : String)
    (depth : Nat) : Reads (.natural bound expected) depth (.int n) n := by
  intro l level gap rest blank ends
  obtain ⟨c, cs, first, digit⟩ := Numeral.digit (numeral_toDigits n)
  have read : number false (source (Nat.toDigits 10 n) ++ rest) = .ok (.int n, rest) := by
    rw [number_toDigits false fits ends]
    rfl
  have value : Decoder.naturalOf bound expected (.int n) = .ok n := by
    rw [Decoder.naturalOf, if_pos (by omega : (0 : Int) ≤ n ∧ (n : Int) ≤ bound)]
    rfl
  have noGap : isGap (some c) = false := by
    obtain ⟨d, small, rfl⟩ := digitChar_of_isDigit digit
    interval_cases d <;> rfl
  have positive : ¬ c = '-' := by
    rintro rfl
    exact absurd digit (by decide)
  rw [Layout.chars, chars, intChars_natCast]
  rw [first, source_cons, List.cons_append] at read ⊢
  simp only [Decoder.natural, skipGap_append blank, skipGap_cons noGap]
  split
  · rename_i minus
    cases minus
    exact absurd rfl positive
  · rename_i same
    cases same
    simp only [digit?_of_isDigit digit, Option.isSome_some, if_true, bind, Except.bind, read, value]
    rfl
  · rename_i none
    cases none

theorem reads_word (n : UInt32) (depth : Nat) : Reads .word depth (.int n.toNat) n := by
  have small := n.toNat_lt
  have read := (reads_natural (by omega : n.toNat ≤ 2 ^ 32 - 1) (by omega) "u32" depth).map
    UInt32.ofNat
  rwa [UInt32.ofNat_toNat] at read

theorem items_texts (l : Layout) (texts : List String) (depth level fuel : Nat) (first : Bool)
    {gap : Source} (blank : Blank gap) (rest : Source) (enough : texts.length < fuel) :
    Scan.items (Decoder.text.read depth) fuel first
      (source (joined first (l.itemChars level (texts.map .string))) ++ (gap ++ some ']' :: rest)) =
      .ok (texts, rest) := by
  induction texts generalizing fuel first with
  | nil =>
    obtain ⟨fuel, rfl⟩ := Nat.exists_eq_succ_of_ne_zero (Nat.ne_of_gt enough)
    exact items_nil _ fuel first blank rest
  | cons s texts ih =>
    obtain ⟨fuel, rfl⟩ := Nat.exists_eq_succ_of_ne_zero (Nat.ne_of_gt (Nat.zero_lt_of_lt enough))
    have ends := joined_ends (l.itemChars level (texts.map .string))
      (.after_gap blank (.bracket rest))
    have head := reads_text s depth l level blank_nil ends
    have tail := ih fuel false (Nat.lt_of_succ_lt_succ enough)
    have next := nextItem_lead first (l.blank_line level) (l.opens level (.string s))
      (source (joined false (l.itemChars level (texts.map .string))) ++ (gap ++ some ']' :: rest))
    have read := items_cons (Decoder.text.read depth) fuel next
    rw [List.nil_append] at head
    simp only [head, Except.toOption, Option.bind_some, tail] at read
    rw [List.map_cons, l.source_item]
    exact toOption_eq_some.mp read

theorem reads_texts (texts : List String) (depth : Nat) :
    Reads Decoder.text.list (depth + 1) (.array (texts.map .string)) texts := by
  intro l level gap rest blank _
  have enough := l.length_lt_items (level + 1) (texts.map .string)
    (source (l.ending level (l.itemChars (level + 1) (texts.map .string)))) (some ']') rest
  rw [List.length_map] at enough
  rw [l.source_array]
  simp only [Decoder.list, skipGap_append blank,
    skipGap_cons (show isGap (some '[') = false from rfl)]
  exact items_texts l texts depth (level + 1) _ true (l.blank_ending level _) rest enough

/-- What becomes of a payload. -/
theorem reads_payload {p q : Payload} {depth : Nat}
    (h : reread (.object p) depth = some (.object q)) : Reads .payload depth (.object p) q := by
  intro l level gap rest blank _
  cases depth with
  | zero => cases h
  | succ depth =>
    obtain ⟨ms, inside, same⟩ := Option.map_eq_some_iff.mp h
    have closing := l.blank_ending level (l.memberChars (level + 1) p)
    have enough := l.length_lt_members (level + 1) p
      (source (l.ending level (l.memberChars (level + 1) p))) (some '\x7d') rest
    have read := (members_written l p depth (level + 1) _ true closing rest enough).trans
      (congrArg (Option.map (·, rest)) inside)
    rw [l.source_object]
    simp only [Decoder.payload, skipGap_append blank,
      skipGap_cons (show isGap (some '\x7b') = false from rfl), bind, Except.bind,
      toOption_eq_some.mp read, Json.object.inj same]
    rfl

/-! Records. -/

namespace Record

variable {Draft : Type} (r : Record Draft α)

/-- What a draft becomes as members of an object are read; `seen` are the keys before them. -/
inductive Collects (depth : Nat) :
    (seen : List String) → Draft → List (String × Json) → Draft → Prop
  | nil (seen : List String) (draft : Draft) : Collects depth seen draft [] draft
  | cons {seen : List String} {draft last : Draft} {key : String} {j : Json} {f : Field Draft}
      {set : Draft → Draft} {members : List (String × Json)} (found : r.find? key = some f)
      (new : key ∉ seen) (reads : Reads f.set depth j set)
      (more : Collects depth (key :: seen) (set draft) members last) :
      Collects depth seen draft ((key, j) :: members) last

variable {r}

theorem readMembers_cons {depth : Nat} (fuel : Nat) (seen : List String) (draft : Draft)
    {key : String} {f : Field Draft} {set : Draft → Draft} {s t more : Source}
    (next : nextKey seen.isEmpty s =
      .ok (some (source (key.toList.flatMap escapedChar) ++ some '"' :: some ':' :: t)))
    (found : r.find? key = some f) (new : key ∉ seen) (read : f.set.read depth t = .ok (set, more)) :
    r.readMembers depth (fuel + 1) seen draft s =
      r.readMembers depth fuel (key :: seen) (set draft) more := by
  have passed : colon (some ':' :: t) = .ok t := rfl
  have fresh : ¬ seen.contains key = true := by simpa using new
  rw [readMembers, next]
  simp only [bind, Except.bind, string_written, found, if_neg fresh, passed, read]

theorem readMembers_nil {depth : Nat} (fuel : Nat) (seen : List String) (draft : Draft)
    {gap : Source} (blank : Blank gap) (rest : Source) :
    r.readMembers depth (fuel + 1) seen draft (gap ++ some '\x7d' :: rest) =
      .ok (draft, gap ++ some '\x7d' :: rest) := by
  rw [readMembers, nextKey_last blank]
  rfl

theorem readMembers_written {depth fuel : Nat} {seen : List String} {draft last : Draft}
    {members : List (String × Json)} (h : r.Collects depth seen draft members last)
    (enough : members.length < fuel) (l : Layout) (level : Nat) {gap : Source} (blank : Blank gap)
    (rest : Source) :
    r.readMembers depth fuel seen draft
      (source (joined seen.isEmpty (l.memberChars level members)) ++
        (gap ++ some '\x7d' :: rest)) = .ok (last, gap ++ some '\x7d' :: rest) := by
  induction h generalizing fuel with
  | nil seen draft =>
    obtain ⟨fuel, rfl⟩ := Nat.exists_eq_succ_of_ne_zero (Nat.ne_of_gt enough)
    exact readMembers_nil fuel seen draft blank rest
  | @cons seen draft last key j f set members found new reads more ih =>
    obtain ⟨fuel, rfl⟩ := Nat.exists_eq_succ_of_ne_zero (Nat.ne_of_gt (Nat.zero_lt_of_lt enough))
    have ends := joined_ends (l.memberChars level members) (.after_gap blank (.brace rest))
    rw [l.source_member, readMembers_cons fuel _ draft (nextKey_lead _ (l.blank_line level) _) found
      new (reads l level l.blank_space ends)]
    exact ih (Nat.lt_of_succ_lt_succ enough)

/-- A record reads back what it would build from its members. -/
theorem reads {depth : Nat} (last : Draft) {members : List (String × Json)} {a : α}
    (h : r.Collects depth [] r.empty members last) (built : r.build last = .ok a) :
    Reads r.decoder (depth + 1) (.object members) a := by
  intro l level gap rest blank _
  have closing := l.blank_ending level (l.memberChars (level + 1) members)
  have enough := l.length_lt_members (level + 1) members
    (source (l.ending level (l.memberChars (level + 1) members))) (some '\x7d') rest
  have read := readMembers_written h enough l (level + 1) closing rest
  rw [List.isEmpty_nil] at read
  rw [l.source_object, decoder]
  simp only [Record.read, skipGap_append blank,
    skipGap_cons (show isGap (some '\x7b') = false from rfl), bind, Except.bind, read, ofDraft,
    built, closeObject_append closing]
  rfl

end Record

end ClaimQueue.Json
