import ClaimQueue.Proofs.Index
import ClaimQueue.Proofs.Json.Reread

/-! Values that come back as they are: with integers for numbers, and with every object in key
order. All that stands in the way of them is the depth of their brackets. -/

namespace ClaimQueue.Json

mutual

/-- Integers of 64 bits are the only numbers, and each object has its members in key order. -/
def Plain : Json → Prop
  | .null | .bool _ | .string _ => True
  | .int i => Wide i
  | .double _ => False
  | .array items => PlainItems items
  | .object members => Index.Ascending members ∧ PlainMembers members

def PlainItems : List Json → Prop
  | [] => True
  | item :: rest => Plain item ∧ PlainItems rest

def PlainMembers : List (String × Json) → Prop
  | [] => True
  | (_, item) :: rest => Plain item ∧ PlainMembers rest

end

mutual

theorem reread_of_plain : (j : Json) → {depth : Nat} → Plain j → j.nesting ≤ depth →
    reread j depth = some j
  | .null, _, _, _ | .bool _, _, _, _ | .string _, _, _, _ => rfl
  | .int _, depth, plain, _ => reread_int plain depth
  | .double _, _, plain, _ => plain.elim
  | .array items, 0, _, deep => absurd deep (by simp [nesting])
  | .object members, 0, _, deep => absurd deep (by simp [nesting])
  | .array items, depth + 1, plain, deep => by
    have inside : nestingItems items ≤ depth := by simpa [nesting] using deep
    rw [reread, rereadItems_of_plain items plain inside]
    rfl
  | .object members, depth + 1, plain, deep => by
    have inside : nestingMembers members ≤ depth := by simpa [nesting] using deep
    rw [reread, rereadMembers_of_plain members plain.2 inside, Option.map_some,
      Index.ofList_of_ascending plain.1]

theorem rereadItems_of_plain : (items : List Json) → {depth : Nat} → PlainItems items →
    nestingItems items ≤ depth → rereadItems items depth = some items
  | [], _, _, _ => rfl
  | item :: items, depth, plain, deep => by
    have inside := Nat.max_le.mp deep
    rw [rereadItems, reread_of_plain item plain.1 inside.1,
      rereadItems_of_plain items plain.2 inside.2]
    rfl

theorem rereadMembers_of_plain : (members : List (String × Json)) → {depth : Nat} →
    PlainMembers members → nestingMembers members ≤ depth →
    rereadMembers members depth = some members
  | [], _, _, _ => rfl
  | (key, item) :: members, depth, plain, deep => by
    have inside := Nat.max_le.mp deep
    rw [rereadMembers, reread_of_plain item plain.1 inside.1,
      rereadMembers_of_plain members plain.2 inside.2]
    rfl

end

end ClaimQueue.Json
