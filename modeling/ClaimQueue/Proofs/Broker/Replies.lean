import ClaimQueue.Broker.Server
import ClaimQueue.Proofs.Json.Numbers
import ClaimQueue.Proofs.Text.Utf8

/-! What clients read out of the replies of the broker: entries and claims come across as they are.
-/

namespace ClaimQueue

namespace Broker

open Text.Utf8

/-! Names of entries, and claims. -/

theorem toList_entryId (n : Nat) : (Server.entryId n).toList = Nat.toDigits 10 n ++ ['-', '0'] := by
  rw [Server.entryId, String.toList_append, Nat.toString_eq_repr, Nat.toList_repr]
  rfl

theorem entryId_injective {m n : Nat} (same : Server.entryId m = Server.entryId n) : m = n := by
  have text := congrArg String.toList same
  rw [toList_entryId, toList_entryId] at text
  have digits := congrArg (fun cs => Nat.ofDigitChars 10 cs 0) (List.append_cancel_right text)
  simpa only [Nat.ofDigitChars_ten_toDigits] using digits

@[simp] theorem entryId_inj {m n : Nat} : Server.entryId m = Server.entryId n ↔ m = n :=
  ⟨entryId_injective, congrArg _⟩

theorem entryId_noBlank (n : Nat) : ∀ c ∈ (Server.entryId n).toList, c ≠ ' ' := by
  intro c mem
  rw [toList_entryId, List.mem_append] at mem
  rcases mem with mem | mem
  · rintro rfl
    exact absurd (Json.Scan.isDigit_toDigits n _ mem) (by decide)
  · rintro rfl
    simp at mem

theorem takeWhile_blank {cs ds : List Char} (h : ∀ c ∈ cs, c ≠ ' ') :
    (cs ++ ' ' :: ds).takeWhile (· ≠ ' ') = cs := by
  rw [List.takeWhile_append_of_pos (by simpa using h), List.takeWhile_cons_of_neg (by simp),
    List.append_nil]

theorem dropWhile_blank {cs ds : List Char} (h : ∀ c ∈ cs, c ≠ ' ') :
    (cs ++ ' ' :: ds).dropWhile (· ≠ ' ') = ' ' :: ds := by
  rw [List.dropWhile_append_of_pos (by simpa using h), List.dropWhile_cons_of_neg (by simp)]

theorem toList_claimValue (n : Nat) (owner : String) :
    (claimValue (Server.entryId n) owner).toList =
      (Server.entryId n).toList ++ ' ' :: owner.toList := by
  simp [claimValue]

/-- A claim reads as what it was made of, unless its owner has no name. -/
theorem claimParts?_claimValue {n : Nat} {owner entry name : String}
    (read : claimParts? (claimValue (Server.entryId n) owner) = some (entry, name)) :
    entry = Server.entryId n ∧ name = owner := by
  simp only [claimParts?, toList_claimValue, takeWhile_blank (entryId_noBlank n),
    dropWhile_blank (entryId_noBlank n)] at read
  split at read
  · cases read
  · cases read
    exact ⟨String.ofList_toList, String.ofList_toList⟩

theorem claimParts?_of_named {n : Nat} {owner : String} (named : owner ≠ "") :
    claimParts? (claimValue (Server.entryId n) owner) = some (Server.entryId n, owner) := by
  have nonempty : (Server.entryId n).toList.isEmpty = false := by
    rw [toList_entryId]
    simp
  have owned : owner.toList.isEmpty = false := by
    rw [List.isEmpty_eq_false_iff]
    exact fun nil => named (String.toList_eq_nil_iff.mp nil)
  simp only [claimParts?, toList_claimValue, takeWhile_blank (entryId_noBlank n),
    dropWhile_blank (entryId_noBlank n), nonempty, owned]
  simp

theorem claimValue_injective {m n : Nat} {c d : String}
    (same : claimValue (Server.entryId m) c = claimValue (Server.entryId n) d) : m = n ∧ c = d := by
  have text := congrArg String.toList same
  rw [toList_claimValue, toList_claimValue] at text
  have first := congrArg (List.takeWhile (· ≠ ' ')) text
  have last := congrArg (List.dropWhile (· ≠ ' ')) text
  rw [takeWhile_blank (entryId_noBlank m), takeWhile_blank (entryId_noBlank n)] at first
  rw [dropWhile_blank (entryId_noBlank m), dropWhile_blank (entryId_noBlank n)] at last
  exact ⟨entryId_injective (String.toList_inj.mp first),
    String.toList_inj.mp (List.cons.inj last).2⟩

/-! Entries. -/

/-- An entry of the stream as a client sees it. -/
def seen (e : Nat × Option (List UInt8)) : Entry := ⟨Server.entryId e.1, e.2⟩

theorem plainText?_bulk (s : String) : (Server.bulk s).plainText? = some s := text?_bytes s

theorem optional?_bulk (s : String) :
    Reply.optional? Reply.text? (Server.bulk s) = some (some s) := by
  simp only [Server.bulk, Reply.optional?, Reply.text?, Reply.plainText?, text?_bytes]
  rfl

theorem ofReply_entryReply (e : Nat × Option (List UInt8)) :
    Entry.ofReply (Server.entryReply e) = .ok (some (seen e)) := by
  obtain ⟨n, body⟩ := e
  have name := plainText?_bulk (Server.entryId n)
  cases body with
  | none =>
    simp only [Server.entryReply, Entry.ofReply, name]
    rfl
  | some body =>
    have field : taskBody [Server.bulk taskField, .bulk body] = some body := if_pos rfl
    simp only [Server.entryReply, Entry.ofReply, name, field]
    rfl

theorem mapM_entryReply (es : List (Nat × Option (List UInt8))) :
    (es.map Server.entryReply).mapM Entry.ofReply = .ok (es.map fun e => some (seen e)) := by
  induction es with
  | nil => rfl
  | cons e es ih =>
    rw [List.map_cons, List.mapM_cons, ofReply_entryReply, ih]
    rfl

theorem entriesOf_entryReply (es : List (Nat × Option (List UInt8))) :
    entriesOf (.list (es.map Server.entryReply)) = .ok (es.map seen) := by
  have all : (es.map fun e => some (seen e)).filterMap id = es.map seen := by
    rw [List.filterMap_map]
    simp
  rw [entriesOf, mapM_entryReply]
  exact congrArg Except.ok all

end Broker

end ClaimQueue
