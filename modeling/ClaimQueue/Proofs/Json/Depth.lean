import ClaimQueue.Proofs.Json.Records

/-! The depth to which a reader goes. A reader that goes less deep comes to the same or finds the
text malformed. So a written value that nests deeper than the reader goes is malformed, and with it
every record in which it stands. -/

namespace ClaimQueue.Json

open Scan

variable {α β : Type}

/-- The same outcome, or a malformed text. -/
def Shallower (x y : Except Fault α) : Prop := x = y ∨ x = .error .malformed

namespace Shallower

theorem same (x : Except Fault α) : Shallower x x := .inl rfl

theorem bind {x y : Except Fault α} {f g : α → Except Fault β} (h : Shallower x y)
    (more : ∀ a, Shallower (f a) (g a)) : Shallower (x >>= f) (y >>= g) := by
  rcases h with rfl | rfl
  · cases x with
    | error e => exact .same _
    | ok a => exact more a
  · exact .inr rfl

/-- Where the deeper reader succeeds, the other does too, or finds the text malformed. -/
theorem malformed {x : Except Fault α} {a : α} (h : Shallower x (.ok a)) (none : x.toOption = none) :
    x = .error .malformed := by
  rcases h with rfl | h
  · cases none
  · exact h

end Shallower

theorem items_shallower {item deeper : Source → Except Fault (Scanned α)}
    (h : ∀ s, Shallower (item s) (deeper s)) (fuel : Nat) (first : Bool) (s : Source) :
    Shallower (items item fuel first s) (items deeper fuel first s) := by
  induction fuel generalizing first s with
  | zero => exact .same _
  | succ fuel ih =>
    rw [items, items]
    refine (Shallower.same _).bind fun next => ?_
    cases next with
    | none => exact .same _
    | some s => exact (h s).bind fun a => (ih false a.2).bind fun as => .same _

theorem members_shallower {item deeper : Source → Except Fault (Scanned α)}
    (h : ∀ s, Shallower (item s) (deeper s)) (fuel : Nat) (first : Bool) (s : Source) :
    Shallower (members item fuel first s) (members deeper fuel first s) := by
  induction fuel generalizing first s with
  | zero => exact .same _
  | succ fuel ih =>
    rw [members, members]
    refine (Shallower.same _).bind fun next => ?_
    cases next with
    | none => exact .same _
    | some s =>
      refine (Shallower.same _).bind fun key => (Shallower.same _).bind fun s => ?_
      exact (h s).bind fun a => (ih false a.2).bind fun as => .same _

theorem value_shallower {depth deep : Nat} (le : depth ≤ deep) (s : Source) :
    Shallower (value depth s) (value deep s) := by
  induction depth generalizing deep s with
  | zero =>
    rw [value, value]
    generalize skipGap s = t
    split
    all_goals first | exact .same _ | exact .inr rfl
  | succ depth ih =>
    obtain ⟨deep, rfl⟩ : ∃ n, deep = n + 1 := ⟨deep - 1, by omega⟩
    have inside := fun s => ih (Nat.le_of_succ_le_succ le) s
    rw [value, value]
    generalize skipGap s = t
    split
    case h_7 s => exact (items_shallower inside _ _ _).bind fun as => .same _
    case h_8 s => exact (members_shallower inside _ _ _).bind fun ms => .same _
    all_goals exact .same _

mutual

/-- What was read nests no deeper than the reader goes. -/
theorem nesting_le_of_reread : (j : Json) → {depth : Nat} → {k : Json} →
    reread j depth = some k → j.nesting ≤ depth
  | .null, _, _, _ | .bool _, _, _, _ | .int _, _, _, _ | .double _, _, _, _ | .string _, _, _, _ =>
    Nat.zero_le _
  | .array _, 0, _, read | .object _, 0, _, read => nomatch read
  | .array items, depth + 1, _, read => by
    obtain ⟨as, inside, -⟩ := Option.map_eq_some_iff.mp read
    exact Nat.succ_le_succ (nestingItems_le_of_reread items inside)
  | .object members, depth + 1, _, read => by
    obtain ⟨ms, inside, -⟩ := Option.map_eq_some_iff.mp read
    exact Nat.succ_le_succ (nestingMembers_le_of_reread members inside)

theorem nestingItems_le_of_reread : (items : List Json) → {depth : Nat} → {as : List Json} →
    rereadItems items depth = some as → nestingItems items ≤ depth
  | [], _, _, _ => Nat.zero_le _
  | item :: items, _, _, read => by
    obtain ⟨a, first, more⟩ := Option.bind_eq_some_iff.mp read
    obtain ⟨as, rest, -⟩ := Option.map_eq_some_iff.mp more
    exact Nat.max_le.mpr ⟨nesting_le_of_reread item first, nestingItems_le_of_reread items rest⟩

theorem nestingMembers_le_of_reread : (members : List (String × Json)) → {depth : Nat} →
    {ms : List (String × Json)} → rereadMembers members depth = some ms →
    nestingMembers members ≤ depth
  | [], _, _, _ => Nat.zero_le _
  | (_, item) :: members, _, _, read => by
    obtain ⟨a, first, more⟩ := Option.bind_eq_some_iff.mp read
    obtain ⟨ms, rest, -⟩ := Option.map_eq_some_iff.mp more
    exact Nat.max_le.mpr ⟨nesting_le_of_reread item first, nestingMembers_le_of_reread members rest⟩

end

theorem reread_of_deep {j : Json} {depth : Nat} (deep : depth < j.nesting) :
    reread j depth = none := by
  cases read : reread j depth with
  | none => rfl
  | some k => exact absurd (nesting_le_of_reread j read) (Nat.not_le.mpr deep)

/-- A written value that a reader could read, if it went deep enough. -/
theorem value_of_deep (l : Layout) {j k : Json} {enough depth : Nat}
    (read : reread j enough = some k) (deep : depth < j.nesting) (level : Nat) {rest : Source}
    (ends : Ends rest) :
    value depth (source (l.chars level j) ++ rest) = .error .malformed := by
  have more := value_chars l j enough level ends
  have less := value_chars l j depth level ends
  rw [read] at more
  rw [reread_of_deep deep] at less
  have le : depth ≤ enough := Nat.le_trans (Nat.le_of_lt deep) (nesting_le_of_reread j read)
  have shallower := value_shallower le (source (l.chars level j) ++ rest)
  rw [toOption_eq_some.mp more] at shallower
  exact shallower.malformed less

theorem ofText_of_deep {j k : Json} {enough : Nat} (read : reread j enough = some k)
    (deep : maxNesting < j.nesting) : ofText j.compact = .error .malformed := by
  have broken := value_of_deep .tight read deep 0 .text
  rw [List.append_nil] at broken
  rw [ofText, ofSource, Layout.sourceOf_compact, whole, broken]
  rfl

/-- Where it stands in a text, in any layout, the written value is malformed. -/
def Breaks (d : Decoder α) (depth : Nat) (j : Json) : Prop :=
  ∀ (l : Layout) (level : Nat) {gap rest : Source}, Blank gap → Ends rest →
    d.read depth (gap ++ (source (l.chars level j) ++ rest)) = .error .malformed

theorem Breaks.map {d : Decoder α} {depth : Nat} {j : Json} (h : Breaks d depth j) (f : α → β) :
    Breaks (d.map f) depth j := by
  intro l level gap rest blank ends
  simp only [Decoder.map, h l level blank ends]
  rfl

theorem Breaks.ofText {d : Decoder α} {j : Json} (h : Breaks d maxNesting j) :
    d.ofText j.compact = .error .malformed := by
  have read := h .tight 0 blank_nil .text
  rw [List.append_nil, List.nil_append] at read
  rw [Decoder.ofText, Decoder.ofSource, Layout.sourceOf_compact, whole, read]
  rfl

theorem breaks_payload {p : Payload} {k : Json} {enough depth : Nat}
    (read : reread (.object p) enough = some k) (deep : depth < (Json.object p).nesting) :
    Breaks .payload depth (.object p) := by
  intro l level gap rest blank ends
  have broken := value_of_deep l read deep level ends
  rw [l.source_object] at broken ⊢
  simp only [Decoder.payload, skipGap_append blank,
    skipGap_cons (show isGap (some '\x7b') = false from rfl)]
  cases depth with
  | zero => rfl
  | succ depth =>
    rw [value, skipGap_cons rfl] at broken
    simp only [bind, Except.bind] at broken ⊢
    generalize Scan.members (value depth) _ true _ = read at broken ⊢
    cases read with
    | error e => exact congrArg Except.error (Except.error.inj broken)
    | ok r => cases broken

namespace Record

variable {Draft : Type} (r : Record Draft α)

/-- Members of an object that are read up to one that is malformed. -/
inductive Stops (depth : Nat) : (seen : List String) → List (String × Json) → Prop
  | here {seen : List String} {key : String} {j : Json} {f : Field Draft}
      {members : List (String × Json)} (found : r.find? key = some f) (new : key ∉ seen)
      (breaks : Breaks f.set depth j) : Stops depth seen ((key, j) :: members)
  | later {seen : List String} {key : String} {j : Json} {f : Field Draft} {set : Draft → Draft}
      {members : List (String × Json)} (found : r.find? key = some f) (new : key ∉ seen)
      (reads : Reads f.set depth j set) (more : Stops depth (key :: seen) members) :
      Stops depth seen ((key, j) :: members)

variable {r}

theorem readMembers_broken {depth : Nat} (fuel : Nat) (seen : List String) (draft : Draft)
    {key : String} {f : Field Draft} {s t : Source}
    (next : nextKey seen.isEmpty s =
      .ok (some (source (key.toList.flatMap escapedChar) ++ some '"' :: some ':' :: t)))
    (found : r.find? key = some f) (new : key ∉ seen)
    (broken : f.set.read depth t = .error .malformed) :
    r.readMembers depth (fuel + 1) seen draft s = .error .malformed := by
  have passed : colon (some ':' :: t) = .ok t := rfl
  have fresh : ¬ seen.contains key = true := by simpa using new
  rw [readMembers, next]
  simp only [bind, Except.bind, string_written, found, if_neg fresh, passed, broken]

theorem readMembers_written_broken {depth fuel : Nat} {seen : List String} (draft : Draft)
    {members : List (String × Json)} (h : r.Stops depth seen members)
    (enough : members.length < fuel) (l : Layout) (level : Nat) {gap : Source} (blank : Blank gap)
    (rest : Source) :
    r.readMembers depth fuel seen draft
      (source (joined seen.isEmpty (l.memberChars level members)) ++
        (gap ++ some '\x7d' :: rest)) = .error .malformed := by
  induction h generalizing fuel draft with
  | @here seen key j f members found new breaks =>
    obtain ⟨fuel, rfl⟩ := Nat.exists_eq_succ_of_ne_zero (Nat.ne_of_gt (Nat.zero_lt_of_lt enough))
    have ends := joined_ends (l.memberChars level members) (.after_gap blank (.brace rest))
    rw [l.source_member]
    exact readMembers_broken fuel _ draft (nextKey_lead _ (l.blank_line level) _) found new
      (breaks l level l.blank_space ends)
  | @later seen key j f set members found new reads more ih =>
    obtain ⟨fuel, rfl⟩ := Nat.exists_eq_succ_of_ne_zero (Nat.ne_of_gt (Nat.zero_lt_of_lt enough))
    have ends := joined_ends (l.memberChars level members) (.after_gap blank (.brace rest))
    rw [l.source_member, readMembers_cons fuel _ draft (nextKey_lead _ (l.blank_line level) _) found
      new (reads l level l.blank_space ends)]
    exact ih (set draft) (Nat.lt_of_succ_lt_succ enough)

/-- A record is malformed when one of its members is, after members that can be read. -/
theorem breaks {depth : Nat} {members : List (String × Json)} (h : r.Stops depth [] members) :
    Breaks r.decoder (depth + 1) (.object members) := by
  intro l level gap rest blank _
  have closing := l.blank_ending level (l.memberChars (level + 1) members)
  have enough := l.length_lt_members (level + 1) members
    (source (l.ending level (l.memberChars (level + 1) members))) (some '\x7d') rest
  have read := readMembers_written_broken r.empty h enough l (level + 1) closing rest
  rw [List.isEmpty_nil] at read
  rw [l.source_object, decoder]
  simp only [Record.read, skipGap_append blank,
    skipGap_cons (show isGap (some '\x7b') = false from rfl), bind, Except.bind, read]

end Record

/-- Brackets within brackets. -/
def brackets : (depth : Nat) → Json
  | 0 => .null
  | depth + 1 => .array [brackets depth]

@[simp] theorem nesting_brackets (depth : Nat) : (brackets depth).nesting = depth := by
  induction depth with
  | zero => rfl
  | succ depth ih => simp [brackets, nesting, nestingItems, ih]

@[simp] theorem plain_brackets (depth : Nat) : (brackets depth).Plain := by
  induction depth with
  | zero => trivial
  | succ depth ih => exact ⟨ih, trivial⟩

end ClaimQueue.Json
