import ClaimQueue.Proofs.Json.Strings

/-! The two printers put the same tokens in the same order; all they differ in is the blanks between
them. A layout says where blanks stand. The compact text of a value is its text in one layout, and
the text over several lines is its text in another. -/

namespace ClaimQueue.Json

/-- Nothing but characters that a reader skips. -/
def Blank (gap : Source) : Prop := ∀ c ∈ gap, Scan.isGap c = true

/-- The blanks at the start of a line, and between a key's colon and its value. -/
structure Layout where
  line : (level : Nat) → List Char
  space : List Char
  blank_line : ∀ level, Blank (source (line level))
  blank_space : Blank (source space)

/-- What stands before a piece: a comma, unless it is the first. -/
def lead (first : Bool) : List Char := if first then [] else [',']

/-- Pieces with their commas, from the first of all on or from a later one. -/
def joined (first : Bool) : List (List Char) → List Char
  | [] => []
  | piece :: pieces => lead first ++ (piece ++ joined false pieces)

theorem separated_eq (pieces : List (List Char)) : separated pieces = joined true pieces := by
  induction pieces with
  | nil => rfl
  | cons a pieces ih =>
    cases pieces with
    | nil => exact (List.append_nil a).symm
    | cons b pieces =>
      rw [separated, ih]
      · rfl
      · exact List.cons_ne_nil _ _

theorem length_le_joined (first : Bool) (pieces : List (List Char)) :
    pieces.length ≤ (joined first pieces).length + 1 := by
  have later (pieces : List (List Char)) : pieces.length ≤ (joined false pieces).length := by
    induction pieces with
    | nil => exact Nat.le_refl 0
    | cons a pieces ih =>
      simp only [joined, lead, Bool.false_eq_true, if_false, List.length_append, List.length_cons]
      omega
  cases pieces with
  | nil => exact Nat.zero_le _
  | cons a pieces =>
    have more := later pieces
    simp only [joined, List.length_append, List.length_cons]
    omega

namespace Layout

/-- What stands before a closing bracket: the start of a line, if something stands inside. -/
def ending (l : Layout) (level : Nat) (pieces : List (List Char)) : List Char :=
  if pieces.isEmpty then [] else l.line level

theorem blank_ending (l : Layout) (level : Nat) (pieces : List (List Char)) :
    Blank (source (l.ending level pieces)) := by
  unfold ending
  split
  · exact fun _ mem => nomatch mem
  · exact l.blank_line level

mutual

/-- The text of a value. Each piece inside brackets begins with the start of its line. -/
def chars (l : Layout) (level : Nat) : Json → List Char
  | .null => Json.null.chars
  | .bool b => (Json.bool b).chars
  | .int i => (Json.int i).chars
  | .double x => (Json.double x).chars
  | .string s => (Json.string s).chars
  | .array items =>
    '[' :: separated (itemChars l (level + 1) items) ++
      (l.ending level (itemChars l (level + 1) items) ++ [']'])
  | .object members =>
    '\x7b' :: separated (memberChars l (level + 1) members) ++
      (l.ending level (memberChars l (level + 1) members) ++ ['\x7d'])

def itemChars (l : Layout) (level : Nat) : List Json → List (List Char)
  | [] => []
  | item :: rest => (l.line level ++ chars l level item) :: itemChars l level rest

def memberChars (l : Layout) (level : Nat) : List (String × Json) → List (List Char)
  | [] => []
  | (key, item) :: rest =>
    (l.line level ++ (stringChars key ++ ':' :: (l.space ++ chars l level item))) ::
      memberChars l level rest

end

theorem length_itemChars (l : Layout) (level : Nat) (items : List Json) :
    (l.itemChars level items).length = items.length := by
  induction items with
  | nil => rfl
  | cons item items ih => simp [itemChars, ih]

theorem length_memberChars (l : Layout) (level : Nat) (members : List (String × Json)) :
    (l.memberChars level members).length = members.length := by
  induction members with
  | nil => rfl
  | cons member members ih => simp [memberChars, ih]

theorem source_array (l : Layout) (level : Nat) (items : List Json) (rest : Source) :
    source (l.chars level (.array items)) ++ rest =
      some '[' :: (source (joined true (l.itemChars (level + 1) items)) ++
        (source (l.ending level (l.itemChars (level + 1) items)) ++ some ']' :: rest)) := by
  simp [chars, separated_eq]

theorem source_object (l : Layout) (level : Nat) (members : List (String × Json)) (rest : Source) :
    source (l.chars level (.object members)) ++ rest =
      some '\x7b' :: (source (joined true (l.memberChars (level + 1) members)) ++
        (source (l.ending level (l.memberChars (level + 1) members)) ++ some '\x7d' :: rest)) := by
  simp [chars, separated_eq]

/-- A text is long enough for its items. -/
theorem length_lt_items (l : Layout) (level : Nat) (items : List Json) (gap : Source)
    (c : Option Char) (rest : Source) : items.length <
      (source (joined true (l.itemChars level items)) ++ (gap ++ c :: rest)).length + 1 := by
  have pieces := length_le_joined true (l.itemChars level items)
  rw [l.length_itemChars level items] at pieces
  simp only [source, List.length_append, List.length_map, List.length_cons]
  omega

theorem length_lt_members (l : Layout) (level : Nat) (members : List (String × Json)) (gap : Source)
    (c : Option Char) (rest : Source) : members.length <
      (source (joined true (l.memberChars level members)) ++ (gap ++ c :: rest)).length + 1 := by
  have pieces := length_le_joined true (l.memberChars level members)
  rw [l.length_memberChars level members] at pieces
  simp only [source, List.length_append, List.length_map, List.length_cons]
  omega

/-- Up to the end of an item. -/
theorem source_item (l : Layout) (level : Nat) (first : Bool) (item : Json) (items : List Json)
    (rest : Source) :
    source (joined first (l.itemChars level (item :: items))) ++ rest =
      source (lead first) ++ (source (l.line level) ++ (source (l.chars level item) ++
        (source (joined false (l.itemChars level items)) ++ rest))) := by
  simp [itemChars, joined]

/-- Up to the end of a member. -/
theorem source_member (l : Layout) (level : Nat) (first : Bool) (key : String) (item : Json)
    (members : List (String × Json)) (rest : Source) :
    source (joined first (l.memberChars level ((key, item) :: members))) ++ rest =
      source (lead first) ++ (source (l.line level) ++ some '"' ::
        (source (key.toList.flatMap escapedChar) ++ some '"' :: some ':' ::
          (source l.space ++ (source (l.chars level item) ++
            (source (joined false (l.memberChars level members)) ++ rest))))) := by
  simp [memberChars, joined, stringChars]

/-! No blanks at all. -/

def tight : Layout where
  line _ := []
  space := []
  blank_line _ := fun _ mem => nomatch mem
  blank_space := fun _ mem => nomatch mem

theorem ending_tight (level : Nat) (pieces : List (List Char)) : tight.ending level pieces = [] := by
  unfold ending
  split <;> rfl

mutual

theorem chars_tight : (j : Json) → (level : Nat) → tight.chars level j = j.chars
  | .null, _ | .bool _, _ | .int _, _ | .double _, _ | .string _, _ => by simp only [chars]
  | .array items, level => by
    simp only [chars, ending_tight, itemChars_tight items, Json.chars]
    rfl
  | .object members, level => by
    simp only [chars, ending_tight, memberChars_tight members, Json.chars]
    rfl

theorem itemChars_tight : (items : List Json) → (level : Nat) →
    tight.itemChars level items = Json.itemChars items
  | [], _ => rfl
  | item :: items, level => by
    simp only [itemChars, chars_tight item, itemChars_tight items, Json.itemChars]
    rfl

theorem memberChars_tight : (members : List (String × Json)) → (level : Nat) →
    tight.memberChars level members = Json.memberChars members
  | [], _ => rfl
  | (key, item) :: members, level => by
    simp only [memberChars, chars_tight item, memberChars_tight members, Json.memberChars]
    rfl

end

theorem sourceOf_compact (j : Json) : sourceOf j.compact = source (tight.chars 0 j) := by
  rw [compact, sourceOf_ofList, chars_tight]

/-! A line for each piece, and a blank after each colon. -/

def indented : Layout where
  line := newLine
  space := [' ']
  blank_line level := by
    intro c mem
    rcases List.mem_cons.mp mem with rfl | mem
    · rfl
    · obtain ⟨blank, listed, rfl⟩ := List.mem_map.mp mem
      rw [List.eq_of_mem_replicate listed]
      rfl
  blank_space := by
    intro c mem
    simp only [source_cons, source_nil, List.mem_singleton] at mem
    rw [mem]
    rfl

theorem lines_eq (level : Nat) (pieces : List (List Char)) :
    lines level pieces = separated (pieces.map (newLine level ++ ·)) := by
  induction pieces with
  | nil => rfl
  | cons a pieces ih =>
    cases pieces with
    | nil => rfl
    | cons b pieces =>
      show newLine level ++ a ++ ',' :: lines level (b :: pieces) = _
      rw [ih]
      rfl

mutual

theorem chars_indented : (j : Json) → (level : Nat) → indented.chars level j = prettyChars level j
  | .null, _ | .bool true, _ | .bool false, _ | .int _, _ | .double _, _ | .string _, _ => by
    simp only [chars, Json.chars, prettyChars]
  | .array [], _ => rfl
  | .array (item :: items), level => by
    simp only [chars, prettyChars, itemChars_indented (item :: items), lines_eq, prettyItems,
      List.map_cons, ending, List.isEmpty_cons, Bool.false_eq_true, if_false]
    simp [indented]
  | .object [], _ => rfl
  | .object (member :: members), level => by
    obtain ⟨key, item⟩ := member
    simp only [chars, prettyChars, memberChars_indented ((key, item) :: members), lines_eq,
      prettyMembers, List.map_cons, ending, List.isEmpty_cons, Bool.false_eq_true, if_false]
    simp [indented]

theorem itemChars_indented : (items : List Json) → (level : Nat) →
    indented.itemChars level items = (prettyItems level items).map (newLine level ++ ·)
  | [], _ => rfl
  | item :: items, level => by
    simp only [itemChars, prettyItems, chars_indented item, itemChars_indented items, List.map_cons]
    rfl

theorem memberChars_indented : (members : List (String × Json)) → (level : Nat) →
    indented.memberChars level members = (prettyMembers level members).map (newLine level ++ ·)
  | [], _ => rfl
  | (key, item) :: members, level => by
    simp only [memberChars, prettyMembers, chars_indented item, memberChars_indented members,
      List.map_cons]
    rfl

end

end Layout

end ClaimQueue.Json
