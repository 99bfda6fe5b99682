import ClaimQueue.Proofs.Json.Legible

/-! What has been read and has integers for its only numbers is plain: its integers have 64 bits, for
a reader makes a rounded number of any other, and its objects are in key order. -/

namespace ClaimQueue

namespace Json

open Scan

variable {α β : Type}

mutual

/-- Integers are the only numbers. -/
def Integral : Json → Prop
  | .null | .bool _ | .int _ | .string _ => True
  | .double _ => False
  | .array items => IntegralItems items
  | .object members => IntegralMembers members

def IntegralItems : List Json → Prop
  | [] => True
  | item :: rest => Integral item ∧ IntegralItems rest

def IntegralMembers : List (String × Json) → Prop
  | [] => True
  | (_, item) :: rest => Integral item ∧ IntegralMembers rest

end

theorem plainItems_of_integral {items : List Json}
    (each : ∀ item ∈ items, Integral item → Plain item) (integral : IntegralItems items) :
    PlainItems items := by
  induction items with
  | nil => trivial
  | cons item rest ih =>
    rw [List.forall_mem_cons] at each
    exact ⟨each.1 integral.1, ih each.2 integral.2⟩

theorem plainMembers_of_integral {members : List (String × Json)}
    (each : ∀ m ∈ members, Integral m.2 → Plain m.2) (integral : IntegralMembers members) :
    PlainMembers members := by
  induction members with
  | nil => trivial
  | cons m rest ih =>
    rw [List.forall_mem_cons] at each
    exact ⟨each.1 integral.1, ih each.2 integral.2⟩

theorem plain_ofList {ms : List (String × Json)} (each : ∀ m ∈ ms, Integral m.2 → Plain m.2)
    (integral : Integral (.object (Index.ofList ms))) : Plain (.object (Index.ofList ms)) :=
  ⟨Index.ofList_ascending ms,
    plainMembers_of_integral (fun m mem => each m (Index.mem_of_mem_ofList mem)) integral⟩

theorem Numeric.plain {j : Json} (h : Numeric j) (integral : Integral j) : Plain j := by
  cases h with
  | int wide => exact wide
  | double => exact integral.elim

theorem value_plain {depth : Nat} {s rest : Source} {j : Json}
    (h : value depth s = .ok (j, rest)) (integral : Integral j) : Plain j := by
  induction depth using Nat.strongRecOn generalizing s j rest with
  | ind depth ih =>
    rw [value] at h
    generalize skipGap s = t at h
    split at h
    case h_1 => cases h
    case h_2 | h_3 | h_4 | h_6 =>
      obtain ⟨t, -, h⟩ := bind_eq_ok.mp h
      cases h
      trivial
    case h_5 => exact (number_numeric h).plain integral
    case h_7 =>
      cases depth with
      | zero => cases h
      | succ depth =>
        obtain ⟨⟨as, t⟩, read, h⟩ := bind_eq_ok.mp h
        cases h
        exact plainItems_of_integral (forall_mem_items (ih depth (Nat.lt_succ_self _)) read) integral
    case h_8 =>
      cases depth with
      | zero => cases h
      | succ depth =>
        obtain ⟨⟨ms, t⟩, read, h⟩ := bind_eq_ok.mp h
        cases h
        exact plain_ofList (forall_mem_members (ih depth (Nat.lt_succ_self _)) read) integral
    case h_9 =>
      split at h
      · exact (number_numeric h).plain integral
      · cases h

theorem payload_plain {depth : Nat} {s rest : Source} {p : Payload}
    (h : Decoder.payload.read depth s = .ok (p, rest)) (integral : Integral (.object p)) :
    Plain (.object p) := by
  simp only [Decoder.payload] at h
  split at h
  · cases depth with
    | zero => cases h
    | succ depth =>
      obtain ⟨⟨ms, t⟩, read, h⟩ := bind_eq_ok.mp h
      cases h
      exact plain_ofList (forall_mem_members value_plain read) integral
  · cases h

/-! Records that are read from their text. -/

theorem Decoder.map_read_eq_ok {d : Decoder α} {f : α → β} {depth : Nat} {s rest : Source} {b : β} :
    (d.map f).read depth s = .ok (b, rest) ↔ ∃ a, d.read depth s = .ok (a, rest) ∧ f a = b := by
  show (d.read depth s).map (fun r => (f r.1, r.2)) = .ok (b, rest) ↔ _
  rcases d.read depth s with e | ⟨a, more⟩
  · simp [Except.map]
  · simp only [Except.map, Except.ok.injEq, Prod.mk.injEq]
    constructor
    · rintro ⟨rfl, rfl⟩
      exact ⟨a, ⟨rfl, rfl⟩, rfl⟩
    · rintro ⟨a, ⟨rfl, rfl⟩, rfl⟩
      exact ⟨rfl, rfl⟩

namespace Record

variable {Draft : Type} {r : Record Draft α} {P : Draft → Prop} {depth : Nat}

/-- What these fields read does no harm to `P`. -/
def Harmless (P : Draft → Prop) (depth : Nat) (fields : List (Field Draft)) : Prop :=
  ∀ f ∈ fields, ∀ s set rest, f.set.read depth s = .ok (set, rest) →
    ∀ draft, P draft → P (set draft)

theorem readMembers_keeps (keep : Harmless P depth r.fields) {fuel : Nat} {seen : List String}
    {draft last : Draft} {s rest : Source} (holds : P draft)
    (h : r.readMembers depth fuel seen draft s = .ok (last, rest)) : P last := by
  induction fuel generalizing seen draft s with
  | zero => cases h
  | succ fuel ih =>
    rw [readMembers] at h
    obtain ⟨next, -, h⟩ := bind_eq_ok.mp h
    cases next with
    | none =>
      cases h
      exact holds
    | some t =>
      obtain ⟨⟨key, t⟩, -, h⟩ := bind_eq_ok.mp h
      simp only at h
      split at h
      · obtain ⟨t, -, h⟩ := bind_eq_ok.mp h
        obtain ⟨t, -, h⟩ := bind_eq_ok.mp h
        exact ih holds h
      · rename_i f found
        split at h
        · cases h
        · obtain ⟨t, -, h⟩ := bind_eq_ok.mp h
          obtain ⟨⟨set, more⟩, read, h⟩ := bind_eq_ok.mp h
          exact ih (keep f (List.mem_of_find?_eq_some found) _ set more read draft holds) h

theorem readItems_keeps {fields : List (Field Draft)} (keep : Harmless P depth fields) {first : Bool}
    {draft last : Draft} {s rest : Source} (holds : P draft)
    (h : readItems depth fields first draft s = .ok (last, rest)) : P last := by
  induction fields generalizing first draft s with
  | nil =>
    cases h
    exact holds
  | cons f fields ih =>
    rw [readItems] at h
    obtain ⟨next, -, h⟩ := bind_eq_ok.mp h
    cases next with
    | none =>
      cases h
      exact holds
    | some t =>
      obtain ⟨⟨set, more⟩, read, h⟩ := bind_eq_ok.mp h
      exact ih (fun f known => keep f (List.mem_cons_of_mem _ known))
        (keep f List.mem_cons_self _ set more read draft holds) h

/-- What holds of an empty draft and what the fields do no harm to holds of the draft that the record
is built from. -/
theorem exists_draft_of_read (empty : P r.empty) (keep : Harmless P depth r.fields) {s rest : Source}
    {a : α} (h : r.read (depth + 1) s = .ok (a, rest)) : ∃ draft, P draft ∧ r.build draft = .ok a := by
  rw [read] at h
  split at h
  · obtain ⟨⟨draft, t⟩, members, h⟩ := bind_eq_ok.mp h
    obtain ⟨b, built, h⟩ := bind_eq_ok.mp h
    obtain ⟨t, -, h⟩ := bind_eq_ok.mp h
    cases h
    exact ⟨draft, readMembers_keeps keep empty members, ofDraft_eq_ok.mp built⟩
  · obtain ⟨⟨draft, t⟩, items, h⟩ := bind_eq_ok.mp h
    obtain ⟨b, built, h⟩ := bind_eq_ok.mp h
    obtain ⟨t, -, h⟩ := bind_eq_ok.mp h
    cases h
    exact ⟨draft, readItems_keeps keep empty items, ofDraft_eq_ok.mp built⟩
  · cases h

end Record

end Json

end ClaimQueue
