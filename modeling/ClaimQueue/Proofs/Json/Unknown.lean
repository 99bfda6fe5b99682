import ClaimQueue.Proofs.Index
import ClaimQueue.Proofs.Json.Decoding
import ClaimQueue.Proofs.Json.Records

/-! Members that a record does not know. A record that is read from the text makes its draft from the
members as they come, and passes over the unknown ones; a record made from a value sees each key
once, and skips the unknown ones. -/

namespace ClaimQueue.Json

open Scan

/-- An object on a page, with blanks around it and inside. -/
structure Page where
  before : Gap
  inner : Gap
  after : Gap

def Page.chars (p : Page) (members : List (Member Form)) : List Char :=
  p.before.chars ++ ((Form.object p.inner members).chars ++ p.after.chars)

theorem Gap.ends (gap : Gap) : Ends (source gap.chars) := by
  have ends : Ends (source gap.chars ++ []) := .after_gap gap.blank .text
  rwa [List.append_nil] at ends

theorem Gap.skipGap_chars (gap : Gap) : skipGap (source gap.chars) = [] := by
  have skipped := skipGap_append gap.blank []
  rwa [List.append_nil] at skipped

theorem whole_settled {α : Type} {scan : Source → Except Fault (Scanned α)} {s : Source} (gap : Gap)
    {o : Except Fault α} (read : scan s = settled o (source gap.chars)) : whole scan s = o := by
  show (scan s).bind _ = o
  rw [read]
  cases o with
  | error => rfl
  | ok a =>
    show (if (skipGap (source gap.chars)).isEmpty then _ else _) = _
    rw [gap.skipGap_chars]
    rfl

namespace Record

variable {Draft α : Type} (r : Record Draft α)

theorem find?_eq_none {name : String} (unknown : name ∉ r.fields.map (·.name)) :
    r.find? name = none := by
  rw [find?, List.find?_eq_none]
  intro f mem same
  exact unknown (List.mem_map.mpr ⟨f, mem, beq_iff_eq.mp same⟩)

/-- What the members of an object make of a draft, one after the other. -/
def gather (depth : Nat) : (seen : List String) → Draft → List (Member Form) → Except Fault Draft
  | _, draft, [] => .ok draft
  | seen, draft, m :: rest =>
    (legible m.name?).bind fun name =>
      match r.find? name with
      | none => gather depth (name :: seen) draft rest
      | some f =>
        if seen.contains name then .error (.duplicateField name)
        else (f.set.meaning depth m.content).bind fun set =>
          gather depth (name :: seen) (set draft) rest

/-- Of the keys that were seen, only the known ones matter. -/
theorem gather_seen (depth : Nat) {seen seen' : List String}
    (same : ∀ name f, r.find? name = some f → (name ∈ seen ↔ name ∈ seen')) (draft : Draft)
    (members : List (Member Form)) :
    r.gather depth seen draft members = r.gather depth seen' draft members := by
  induction members generalizing seen seen' draft with
  | nil => rfl
  | cons m members ih =>
    have more (name : String) : ∀ key f, r.find? key = some f →
        (key ∈ name :: seen ↔ key ∈ name :: seen') := by
      intro key f known
      rw [List.mem_cons, List.mem_cons, same key f known]
    rw [gather, gather]
    cases m.name? with
    | none => rfl
    | some name =>
      simp only [legible, Except.bind]
      cases known : r.find? name with
      | none => exact ih (more name) draft
      | some f =>
        have contains : seen.contains name = seen'.contains name := by
          simp only [List.contains_eq_mem, same name f known]
        simp only [contains, ih (more name)]

/-- A member with an unknown key changes nothing. -/
theorem gather_insert (depth : Nat) {m : Member Form} {name : String} (named : m.name? = some name)
    (unknown : r.find? name = none) (seen : List String) (draft : Draft)
    (front back : List (Member Form)) :
    r.gather depth seen draft (front ++ m :: back) = r.gather depth seen draft (front ++ back) := by
  induction front generalizing seen draft with
  | nil =>
    rw [List.nil_append, List.nil_append, gather, named]
    simp only [legible, Except.bind, unknown]
    refine r.gather_seen depth (fun key f known => ?_) draft back
    have other : key ≠ name := fun same => by
      rw [same, unknown] at known
      cases known
    simp only [List.mem_cons, other, false_or]
  | cons n front ih => simp only [List.cons_append, gather, ih]

theorem readMembers_member (depth fuel : Nat) (seen : List String) (draft : Draft) {s t : Source}
    (m : Member Form) (next : nextKey seen.isEmpty s = .ok (some (Form.memberSource m t))) :
    r.readMembers depth (fuel + 1) seen draft s = (legible m.name?).bind fun name =>
      match r.find? name with
      | none => (pass (source m.ahead.chars ++ (source m.content.chars ++
          (source m.after.chars ++ t)))).bind (r.readMembers depth fuel (name :: seen) draft)
      | some f =>
        if seen.contains name then .error (.duplicateField name)
        else (f.set.read depth (source m.ahead.chars ++ (source m.content.chars ++
          (source m.after.chars ++ t)))).bind fun read =>
            r.readMembers depth fuel (name :: seen) (read.1 draft) read.2 := by
  rw [readMembers, next]
  show (Scan.string _).bind _ = _
  rw [Form.memberSource, string_glyphs, Member.name?]
  cases Glyph.decode? m.key with
  | none => rfl
  | some cs =>
    simp only [Option.map_some, legible, settled, Except.map, Except.bind]
    cases r.find? (String.ofList cs) with
    | none =>
      show (colon _).bind _ = _
      rw [colon_append m.behind.blank]
      rfl
    | some f =>
      simp only []
      split
      · rfl
      · show (colon _).bind _ = _
        rw [colon_append m.behind.blank]
        rfl

/-- The members of an object up to the closing brace. -/
theorem readMembers_chars (steady : ∀ f ∈ r.fields, f.set.Steady) (depth : Nat)
    (members : List (Member Form)) (fuel : Nat) (seen : List String) (draft : Draft) (gap : Gap)
    (rest : Source) (enough : members.length < fuel) :
    ∃ left : Gap, r.readMembers depth fuel seen draft (source gap.chars ++
        (source (joined seen.isEmpty (Form.memberChars members)) ++ some '\x7d' :: rest)) =
      settled (r.gather depth seen draft members) (source left.chars ++ some '\x7d' :: rest) := by
  induction members generalizing fuel seen draft gap with
  | nil =>
    obtain ⟨fuel, rfl⟩ := Nat.exists_eq_succ_of_ne_zero (Nat.ne_of_gt enough)
    exact ⟨gap, readMembers_nil fuel seen draft gap.blank rest⟩
  | cons m members ih =>
    obtain ⟨fuel, rfl⟩ := Nat.exists_eq_succ_of_ne_zero (Nat.ne_of_gt (Nat.zero_lt_of_lt enough))
    have ih := fun seen draft => ih fuel seen draft m.after (Nat.lt_of_succ_lt_succ enough)
    have ends := Form.ends_after m.after (Form.memberChars members) (.brace rest)
    rw [r.readMembers_member depth fuel seen draft m (Form.nextKey_member m members _ gap.blank _),
      gather]
    cases m.name? with
    | none => exact ⟨m.after, rfl⟩
    | some name =>
      simp only [legible, Except.bind]
      cases known : r.find? name with
      | none =>
        simp only [Form.pass_form m.ahead m.content ends]
        exact ih (name :: seen) draft
      | some f =>
        simp only []
        split
        · exact ⟨m.after, rfl⟩
        · rw [(steady f (List.mem_of_find?_eq_some known)).read depth m.ahead m.content ends]
          cases f.set.meaning depth m.content with
          | error fault => exact ⟨m.after, rfl⟩
          | ok set => exact ih (name :: seen) (set draft)

/-- An object as a record. -/
theorem read_object (steady : ∀ f ∈ r.fields, f.set.Steady) (depth : Nat) (before inner : Gap)
    (members : List (Member Form)) (rest : Source) :
    r.read (depth + 1) (source before.chars ++
        (source (Form.object inner members).chars ++ rest)) =
      settled ((r.gather depth [] r.empty members).bind (r.ofDraft .missingField)) rest := by
  obtain ⟨left, read⟩ := r.readMembers_chars steady depth members
    ((source inner.chars ++ (source (joined true (Form.memberChars members)) ++
      some '\x7d' :: rest)).length + 1) [] r.empty inner rest
    (Form.length_memberChars members ▸ Form.length_lt_fuel _ _ _ _)
  rw [Record.read]
  simp only [skipGap_append before.blank, skipGap_form]
  rw [Form.source_object]
  show (r.readMembers _ _ _ _ _).bind _ = _
  rw [List.isEmpty_nil] at read
  rw [read]
  cases r.gather depth [] r.empty members with
  | error => rfl
  | ok draft =>
    show (r.ofDraft .missingField draft).bind _ = settled (r.ofDraft .missingField draft) rest
    cases r.ofDraft .missingField draft with
    | error => rfl
    | ok a =>
      show (closeObject _).bind _ = _
      rw [closeObject_append left.blank]
      rfl

/-- Whatever stands under an unknown key, a record that is read from the text is the same. -/
theorem ofSource_insert (steady : ∀ f ∈ r.fields, f.set.Steady) (p : Page)
    (front back : List (Member Form)) {m : Member Form} {name : String}
    (named : m.name? = some name) (unknown : r.find? name = none) :
    r.decoder.ofSource (source (p.chars (front ++ m :: back))) =
      r.decoder.ofSource (source (p.chars (front ++ back))) := by
  have gathered (members : List (Member Form)) : r.decoder.ofSource (source (p.chars members)) =
      (r.gather 126 [] r.empty members).bind (r.ofDraft .missingField) := by
    refine whole_settled p.after ?_
    rw [Page.chars, source_append, source_append]
    exact r.read_object steady 126 p.before p.inner members _
  rw [gathered, gathered, r.gather_insert 126 named unknown]

/-! Records out of a value. -/

theorem draftOfMembers_erase {name : String} (unknown : r.find? name = none) (draft : Draft)
    (entries : List (String × Json)) :
    r.draftOfMembers draft (Index.erase name entries) = r.draftOfMembers draft entries := by
  induction entries generalizing draft with
  | nil => rfl
  | cons e entries ih =>
    obtain ⟨key, j⟩ := e
    rw [Index.erase]
    split
    · next same => simp only [draftOfMembers, same, unknown]
    · rw [draftOfMembers, draftOfMembers]
      cases r.find? key with
      | none => exact ih draft
      | some f => simp only [ih]

theorem ofValue_insert {name : String} (unknown : r.find? name = none) (j : Json)
    (front back : List (String × Json)) :
    r.ofValue (.object (Index.ofList (front ++ (name, j) :: back))) =
      r.ofValue (.object (Index.ofList (front ++ back))) := by
  have drafts : r.draftOfMembers r.empty (Index.ofList (front ++ (name, j) :: back)) =
      r.draftOfMembers r.empty (Index.ofList (front ++ back)) := by
    rw [← r.draftOfMembers_erase unknown, Index.erase_ofList_insert, r.draftOfMembers_erase unknown]
  simp only [ofValue, drafts]

end Record

theorem ofSource_page (p : Page) (members : List (Member Form)) :
    ofSource (source (p.chars members)) =
      legible ((Form.entries? members 126).map fun entries => .object (Index.ofList entries)) := by
  refine whole_settled p.after ?_
  rw [Page.chars, source_append, source_append, value_append p.before.blank]
  exact Form.value_chars (.object p.inner members) 127 p.after.ends

namespace Form

theorem entries?_cons (m : Member Form) (rest : List (Member Form)) (depth : Nat) :
    entries? (m :: rest) depth = m.name?.bind fun name =>
      (m.content.value? depth).bind fun a => (entries? rest depth).map ((name, a) :: ·) :=
  rfl

theorem entries?_append (front back : List (Member Form)) (depth : Nat) :
    entries? (front ++ back) depth = (entries? front depth).bind fun before =>
      (entries? back depth).map (before ++ ·) := by
  induction front with
  | nil =>
    rw [List.nil_append]
    cases entries? back depth <;> rfl
  | cons m front ih =>
    rw [List.cons_append, entries?_cons, entries?_cons, ih]
    cases m.name? with
    | none => rfl
    | some name =>
      cases m.content.value? depth with
      | none => rfl
      | some a =>
        cases entries? front depth with
        | none => rfl
        | some entries => cases entries? back depth <;> rfl

end Form

end ClaimQueue.Json
