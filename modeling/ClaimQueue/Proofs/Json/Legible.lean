import ClaimQueue.Proofs.Index
import ClaimQueue.Proofs.Json.Decimals
import ClaimQueue.Proofs.Json.Depth

/-! Whatever has been read is legible once written: it can be read again, by a reader that goes as
deep as the first one. Numbers may change on the way, but nothing becomes too large or too deep. -/

namespace ClaimQueue

namespace Json

open Scan

variable {α β : Type}

/-- Once written, it can be read by a reader that goes so deep. -/
def Legible (depth : Nat) (j : Json) : Prop := (reread j depth).isSome

theorem rereadItems_isSome {items : List Json} {depth : Nat} :
    (rereadItems items depth).isSome ↔ ∀ item ∈ items, Legible depth item := by
  induction items with
  | nil => simp [rereadItems]
  | cons item items ih =>
    rw [List.forall_mem_cons, ← ih, rereadItems, Legible]
    cases reread item depth with
    | none => simp
    | some a => cases rereadItems items depth <;> simp

theorem rereadMembers_isSome {members : List (String × Json)} {depth : Nat} :
    (rereadMembers members depth).isSome ↔ ∀ m ∈ members, Legible depth m.2 := by
  induction members with
  | nil => simp [rereadMembers]
  | cons m members ih =>
    obtain ⟨key, item⟩ := m
    rw [List.forall_mem_cons, ← ih, rereadMembers, Legible]
    cases reread item depth with
    | none => simp
    | some a => cases rereadMembers members depth <;> simp

theorem legible_array {items : List Json} {depth : Nat} :
    Legible (depth + 1) (.array items) ↔ ∀ item ∈ items, Legible depth item := by
  rw [Legible, reread, Option.isSome_map, rereadItems_isSome]

theorem legible_object {members : List (String × Json)} {depth : Nat} :
    Legible (depth + 1) (.object members) ↔ ∀ m ∈ members, Legible depth m.2 := by
  rw [Legible, reread, Option.isSome_map, rereadMembers_isSome]

namespace Legible

theorem nesting_le {depth : Nat} {j : Json} (h : Legible depth j) : j.nesting ≤ depth := by
  obtain ⟨k, read⟩ := Option.isSome_iff_exists.mp h
  exact nesting_le_of_reread j read

/-- An object is read as an object. -/
theorem object {depth : Nat} {p : Payload} (h : Legible depth (.object p)) :
    ∃ q, reread (.object p) depth = some (.object q) := by
  cases depth with
  | zero => cases h
  | succ depth =>
    obtain ⟨k, read⟩ := Option.isSome_iff_exists.mp h
    obtain ⟨ms, -, rfl⟩ := Option.map_eq_some_iff.mp read
    exact ⟨_, read⟩

end Legible

mutual

/-- Only the depth of its brackets stands in the way of what some reader can read. -/
theorem legible_of_nesting : (j : Json) → {enough depth : Nat} → Legible enough j →
    j.nesting ≤ depth → Legible depth j
  | .null, _, _, _, _ | .bool _, _, _, _, _ | .string _, _, _, _, _ => rfl
  | .int _, _, _, legible, _ | .double _, _, _, legible, _ => legible
  | .array _, 0, _, legible, _ | .object _, 0, _, legible, _ => nomatch legible
  | .array items, _, 0, _, deep => absurd deep (by simp [nesting])
  | .object members, _, 0, _, deep => absurd deep (by simp [nesting])
  | .array items, enough + 1, depth + 1, legible, deep =>
    legible_array.mpr
      (items_legible_of_nesting items (legible_array.mp legible) (by simpa [nesting] using deep))
  | .object members, enough + 1, depth + 1, legible, deep =>
    legible_object.mpr
      (members_legible_of_nesting members (legible_object.mp legible)
        (by simpa [nesting] using deep))

theorem items_legible_of_nesting : (items : List Json) → {enough depth : Nat} →
    (∀ item ∈ items, Legible enough item) → nestingItems items ≤ depth →
    ∀ item ∈ items, Legible depth item
  | [], _, _, _, _ => List.forall_mem_nil _
  | item :: items, _, _, legible, deep => by
    have inside := Nat.max_le.mp deep
    rw [List.forall_mem_cons] at legible ⊢
    exact ⟨legible_of_nesting item legible.1 inside.1,
      items_legible_of_nesting items legible.2 inside.2⟩

theorem members_legible_of_nesting : (members : List (String × Json)) → {enough depth : Nat} →
    (∀ m ∈ members, Legible enough m.2) → nestingMembers members ≤ depth →
    ∀ m ∈ members, Legible depth m.2
  | [], _, _, _, _ => List.forall_mem_nil _
  | (key, item) :: members, _, _, legible, deep => by
    have inside := Nat.max_le.mp deep
    rw [List.forall_mem_cons] at legible ⊢
    exact ⟨legible_of_nesting item legible.1 inside.1,
      members_legible_of_nesting members legible.2 inside.2⟩

end

theorem Legible.iff_nesting {enough depth : Nat} {j : Json} (h : Legible enough j) :
    Legible depth j ↔ j.nesting ≤ depth :=
  ⟨Legible.nesting_le, legible_of_nesting j h⟩

/-! Numbers. A reader makes integers of 64 bits and rounded numbers, and both can be written. -/

theorem legible_double {x : Number.Binary64} (hx : x.Canonical) (depth : Nat) :
    Legible depth (.double x) := rereadNumber_double_isSome hx

theorem legible_int {i : Int} (wide : Wide i) (depth : Nat) : Legible depth (.int i) := by
  rw [Legible, reread_int wide]
  rfl

mutual

/-- Each number is one of those that readers make. -/
def Sized : Json → Prop
  | .null | .bool _ | .string _ => True
  | .int i => Wide i
  | .double x => x.Canonical
  | .array items => SizedItems items
  | .object members => SizedMembers members

def SizedItems : List Json → Prop
  | [] => True
  | item :: rest => Sized item ∧ SizedItems rest

def SizedMembers : List (String × Json) → Prop
  | [] => True
  | (_, item) :: rest => Sized item ∧ SizedMembers rest

end

mutual

theorem legible_of_sized : (j : Json) → {depth : Nat} → Sized j → j.nesting ≤ depth →
    Legible depth j
  | .null, _, _, _ | .bool _, _, _, _ | .string _, _, _, _ => rfl
  | .int _, depth, sized, _ => legible_int sized depth
  | .double _, depth, sized, _ => legible_double sized depth
  | .array items, 0, _, deep => absurd deep (by simp [nesting])
  | .object members, 0, _, deep => absurd deep (by simp [nesting])
  | .array items, depth + 1, sized, deep =>
    legible_array.mpr (items_legible_of_sized items sized (by simpa [nesting] using deep))
  | .object members, depth + 1, sized, deep =>
    legible_object.mpr (members_legible_of_sized members sized (by simpa [nesting] using deep))

theorem items_legible_of_sized : (items : List Json) → {depth : Nat} → SizedItems items →
    nestingItems items ≤ depth → ∀ item ∈ items, Legible depth item
  | [], _, _, _ => List.forall_mem_nil _
  | item :: items, _, sized, deep => by
    have inside := Nat.max_le.mp deep
    rw [List.forall_mem_cons]
    exact ⟨legible_of_sized item sized.1 inside.1, items_legible_of_sized items sized.2 inside.2⟩

theorem members_legible_of_sized : (members : List (String × Json)) → {depth : Nat} →
    SizedMembers members → nestingMembers members ≤ depth → ∀ m ∈ members, Legible depth m.2
  | [], _, _, _ => List.forall_mem_nil _
  | (key, item) :: members, _, sized, deep => by
    have inside := Nat.max_le.mp deep
    rw [List.forall_mem_cons]
    exact ⟨legible_of_sized item sized.1 inside.1,
      members_legible_of_sized members sized.2 inside.2⟩

end

/-- The numbers that readers make. -/
inductive Numeric : Json → Prop
  | int {i : Int} (wide : Wide i) : Numeric (.int i)
  | double {x : Number.Binary64} (canonical : x.Canonical) : Numeric (.double x)

theorem Numeric.legible {j : Json} (h : Numeric j) (depth : Nat) : Legible depth j := by
  cases h with
  | int wide => exact legible_int wide depth
  | double canonical => exact legible_double canonical depth

section Numbers

variable {negative : Bool} {n : Nat} {s rest : Source} {j : Json}

theorem doubleOf_numeric {e : Int} (h : doubleOf negative n e s = .ok (j, rest)) : Numeric j := by
  unfold doubleOf at h
  split at h
  · rename_i x rounded
    cases h
    exact .double (Number.Binary64.ofDecimal?_canonical rounded)
  · cases h

theorem exponentPart_numeric {e : Int} (h : exponentPart negative n e s = .ok (j, rest)) :
    Numeric j := by
  unfold exponentPart at h
  simp only at h
  split at h
  · cases h
  · cases h
  · exact doubleOf_numeric h

theorem fractionPart_numeric {e : Int} (h : fractionPart negative n e s = .ok (j, rest)) :
    Numeric j := by
  unfold fractionPart at h
  split at h
  · cases h
  · cases h
  · simp only at h
    split at h
    · split at h
      · exact exponentPart_numeric h
      · exact doubleOf_numeric h
    · exact doubleOf_numeric h

theorem wholeOf_numeric (small : n < 2 ^ 64) (h : wholeOf negative n s = .ok (j, rest)) :
    Numeric j := by
  unfold wholeOf at h
  split at h
  · split at h
    · exact doubleOf_numeric h
    · cases h
      exact .int ⟨by omega, by omega⟩
  · cases h
    exact .int ⟨by omega, by omega⟩

theorem afterWhole_numeric {dropped : Nat} (small : n < 2 ^ 64)
    (h : afterWhole negative n dropped s = .ok (j, rest)) : Numeric j := by
  unfold afterWhole at h
  split at h
  · exact fractionPart_numeric h
  · split at h
    · exact exponentPart_numeric h
    · split at h
      · exact wholeOf_numeric small h
      · exact doubleOf_numeric h
  · split at h
    · exact wholeOf_numeric small h
    · exact doubleOf_numeric h

theorem number_numeric (h : number negative s = .ok (j, rest)) : Numeric j := by
  unfold number at h
  split at h
  · cases h
  · cases h
  · cases h
  · exact afterWhole_numeric (absorb_lt (by decide) _) h

end Numbers

/-! Values. -/

/-- What holds of every item that is read holds of all of them. -/
theorem forall_mem_items {P : α → Prop} {item : Source → Except Fault (Scanned α)}
    (h : ∀ {s a rest}, item s = .ok (a, rest) → P a) {fuel : Nat} {first : Bool} {s rest : Source}
    {as : List α} (read : items item fuel first s = .ok (as, rest)) : ∀ a ∈ as, P a := by
  induction fuel generalizing first s as rest with
  | zero => cases read
  | succ fuel ih =>
    rw [items] at read
    obtain ⟨next, -, read⟩ := bind_eq_ok.mp read
    cases next with
    | none =>
      obtain ⟨t, -, read⟩ := bind_eq_ok.mp read
      cases read
      exact List.forall_mem_nil _
    | some t =>
      obtain ⟨⟨a, more⟩, head, read⟩ := bind_eq_ok.mp read
      obtain ⟨⟨as, last⟩, tail, read⟩ := bind_eq_ok.mp read
      cases read
      exact List.forall_mem_cons.mpr ⟨h head, ih tail⟩

theorem forall_mem_members {P : α → Prop} {item : Source → Except Fault (Scanned α)}
    (h : ∀ {s a rest}, item s = .ok (a, rest) → P a) {fuel : Nat} {first : Bool} {s rest : Source}
    {ms : List (String × α)} (read : members item fuel first s = .ok (ms, rest)) :
    ∀ m ∈ ms, P m.2 := by
  induction fuel generalizing first s ms rest with
  | zero => cases read
  | succ fuel ih =>
    rw [members] at read
    obtain ⟨next, -, read⟩ := bind_eq_ok.mp read
    cases next with
    | none =>
      obtain ⟨t, -, read⟩ := bind_eq_ok.mp read
      cases read
      exact List.forall_mem_nil _
    | some t =>
      obtain ⟨⟨key, t⟩, -, read⟩ := bind_eq_ok.mp read
      obtain ⟨t, -, read⟩ := bind_eq_ok.mp read
      obtain ⟨⟨a, more⟩, head, read⟩ := bind_eq_ok.mp read
      obtain ⟨⟨ms, last⟩, tail, read⟩ := bind_eq_ok.mp read
      cases read
      exact List.forall_mem_cons.mpr ⟨h head, ih tail⟩

theorem legible_ofList {depth : Nat} {ms : List (String × Json)}
    (h : ∀ m ∈ ms, Legible depth m.2) : Legible (depth + 1) (.object (Index.ofList ms)) :=
  legible_object.mpr fun m mem => h m (Index.mem_of_mem_ofList mem)

/-- A reader of values makes nothing that is not legible. -/
theorem value_legible {depth : Nat} {s rest : Source} {j : Json}
    (h : value depth s = .ok (j, rest)) : Legible depth j := by
  induction depth using Nat.strongRecOn generalizing s j rest with
  | ind depth ih =>
    rw [value] at h
    generalize skipGap s = t at h
    split at h
    case h_1 => cases h
    case h_2 | h_3 | h_4 =>
      obtain ⟨t, -, h⟩ := bind_eq_ok.mp h
      cases h
      rfl
    case h_5 => exact (number_numeric h).legible depth
    case h_6 =>
      obtain ⟨⟨text, t⟩, -, h⟩ := bind_eq_ok.mp h
      cases h
      rfl
    case h_7 =>
      cases depth with
      | zero => cases h
      | succ depth =>
        obtain ⟨⟨as, t⟩, read, h⟩ := bind_eq_ok.mp h
        cases h
        exact legible_array.mpr (forall_mem_items (ih depth (Nat.lt_succ_self _)) read)
    case h_8 =>
      cases depth with
      | zero => cases h
      | succ depth =>
        obtain ⟨⟨ms, t⟩, read, h⟩ := bind_eq_ok.mp h
        cases h
        exact legible_ofList (forall_mem_members (ih depth (Nat.lt_succ_self _)) read)
    case h_9 =>
      split at h
      · exact (number_numeric h).legible depth
      · cases h

/-- An object has its members in key order. -/
def Orderly : Json → Prop
  | .object members => Index.Ascending members
  | _ => True

theorem Legible.orderly {j : Json} (h : Legible 0 j) : j.Orderly := by
  cases j with
  | object members => cases h
  | _ => trivial

theorem value_orderly {depth : Nat} {s rest : Source} {j : Json}
    (h : value depth s = .ok (j, rest)) : j.Orderly := by
  rw [value] at h
  generalize skipGap s = t at h
  split at h
  case h_1 => cases h
  case h_2 | h_3 | h_4 | h_6 =>
    obtain ⟨t, -, h⟩ := bind_eq_ok.mp h
    cases h
    trivial
  case h_5 => exact ((number_numeric h).legible 0).orderly
  case h_7 =>
    cases depth with
    | zero => cases h
    | succ depth =>
      obtain ⟨t, -, h⟩ := bind_eq_ok.mp h
      cases h
      trivial
  case h_8 =>
    cases depth with
    | zero => cases h
    | succ depth =>
      obtain ⟨⟨ms, t⟩, -, h⟩ := bind_eq_ok.mp h
      cases h
      exact Index.ofList_ascending ms
  case h_9 =>
    split at h
    · exact ((number_numeric h).legible 0).orderly
    · cases h

theorem payload_legible {depth : Nat} {s rest : Source} {p : Payload}
    (h : Decoder.payload.read depth s = .ok (p, rest)) : Legible depth (.object p) := by
  simp only [Decoder.payload] at h
  split at h
  · cases depth with
    | zero => cases h
    | succ depth =>
      obtain ⟨⟨ms, t⟩, read, h⟩ := bind_eq_ok.mp h
      cases h
      exact legible_ofList (forall_mem_members value_legible read)
  · cases h

/-! Documents. -/

theorem whole_eq_ok {scan : Source → Except Fault (Scanned α)} {s : Source} {a : α}
    (h : whole scan s = .ok a) : ∃ rest, scan s = .ok (a, rest) ∧ skipGap rest = [] := by
  obtain ⟨⟨b, rest⟩, read, h⟩ := bind_eq_ok.mp h
  simp only at h
  split at h
  · next ended =>
    cases h
    exact ⟨rest, read, List.isEmpty_iff.mp ended⟩
  · cases h

theorem ofSource_legible {s : Source} {j : Json} (h : ofSource s = .ok j) : Legible maxNesting j :=
  let ⟨_, read, _⟩ := whole_eq_ok h
  value_legible read

theorem ofSource_orderly {s : Source} {j : Json} (h : ofSource s = .ok j) : j.Orderly :=
  let ⟨_, read, _⟩ := whole_eq_ok h
  value_orderly read

theorem payload_ofText_legible {s : String} {p : Payload} (h : Decoder.payload.ofText s = .ok p) :
    Legible maxNesting (.object p) :=
  let ⟨_, read, _⟩ := whole_eq_ok h
  payload_legible read

/-- The values directly inside. -/
def parts : Json → List Json
  | .array items => items
  | .object members => members.map Prod.snd
  | _ => []

theorem Legible.part {depth : Nat} {j part : Json} (h : Legible (depth + 1) j)
    (mem : part ∈ j.parts) : Legible depth part := by
  match j with
  | .null | .bool _ | .int _ | .double _ | .string _ => cases mem
  | .array items => exact legible_array.mp h part mem
  | .object members =>
    obtain ⟨m, among, rfl⟩ := List.mem_map.mp mem
    exact legible_object.mp h m among

theorem Decoder.map_ofValue_eq_ok {d : Decoder α} {f : α → β} {j : Json} {b : β} :
    (d.map f).ofValue j = .ok b ↔ ∃ a, d.ofValue j = .ok a ∧ f a = b := by
  show (d.ofValue j).map f = .ok b ↔ _
  cases d.ofValue j <;> simp [Except.map]

theorem Decoder.payload_ofValue_eq_ok {j : Json} {p : Payload} :
    Decoder.payload.ofValue j = .ok p ↔ j = .object p := by
  cases j <;> simp [payload]

namespace Record

variable {Draft : Type} {r : Record Draft α}

theorem draftOfMembers_keeps {P : Draft → Prop} {members : List (String × Json)}
    (keep : ∀ f ∈ r.fields, ∀ m ∈ members, ∀ set, f.set.ofValue m.2 = .ok set →
      ∀ draft, P draft → P (set draft))
    {draft last : Draft} (holds : P draft) (h : r.draftOfMembers draft members = .ok last) :
    P last := by
  induction members generalizing draft with
  | nil =>
    cases h
    exact holds
  | cons m members ih =>
    obtain ⟨key, part⟩ := m
    have later := fun f known m mem => keep f known m (List.mem_cons_of_mem _ mem)
    simp only [draftOfMembers] at h
    split at h
    · exact ih later holds h
    · rename_i f found
      obtain ⟨set, read, h⟩ := bind_eq_ok.mp h
      exact ih later
        (keep f (List.mem_of_find?_eq_some found) _ List.mem_cons_self set read draft holds) h

theorem draftOfItems_keeps {P : Draft → Prop} {fields : List (Field Draft)} {items : List Json}
    (keep : ∀ f ∈ fields, ∀ part ∈ items, ∀ set, f.set.ofValue part = .ok set →
      ∀ draft, P draft → P (set draft))
    {draft last : Draft} (holds : P draft) (h : draftOfItems draft fields items = .ok last) :
    P last := by
  induction fields generalizing draft items with
  | nil =>
    cases h
    exact holds
  | cons f fields ih =>
    cases items with
    | nil =>
      cases h
      exact holds
    | cons part items =>
      rw [draftOfItems] at h
      obtain ⟨set, read, h⟩ := bind_eq_ok.mp h
      exact ih (fun f known part mem => keep f (List.mem_cons_of_mem _ known) part
          (List.mem_cons_of_mem _ mem))
        (keep f List.mem_cons_self part List.mem_cons_self set read draft holds) h

theorem ofDraft_eq_ok {fault : String → Fault} {draft : Draft} {a : α} :
    r.ofDraft fault draft = .ok a ↔ r.build draft = .ok a := by
  unfold ofDraft
  cases r.build draft <;> simp

/-- What holds of an empty draft, and what each field keeps whatever part of the document it is
given, holds of the draft that the record is built from. -/
theorem exists_draft {P : Draft → Prop} {j : Json} {a : α} (empty : P r.empty)
    (keep : ∀ f ∈ r.fields, ∀ part ∈ j.parts, ∀ set, f.set.ofValue part = .ok set →
      ∀ draft, P draft → P (set draft))
    (h : r.ofValue j = .ok a) : ∃ draft, P draft ∧ r.build draft = .ok a := by
  match j with
  | .null | .bool _ | .int _ | .double _ | .string _ => cases h
  | .object members =>
    obtain ⟨draft, read, h⟩ := bind_eq_ok.mp h
    have kept := draftOfMembers_keeps
      (fun f known m mem => keep f known m.2 (List.mem_map_of_mem mem)) empty read
    exact ⟨draft, kept, ofDraft_eq_ok.mp h⟩
  | .array items =>
    obtain ⟨draft, read, h⟩ := bind_eq_ok.mp h
    obtain ⟨b, built, h⟩ := bind_eq_ok.mp h
    have kept := draftOfItems_keeps keep empty read
    split at h
    · cases h
    · cases h
      exact ⟨draft, kept, ofDraft_eq_ok.mp built⟩

end Record

end Json

end ClaimQueue
