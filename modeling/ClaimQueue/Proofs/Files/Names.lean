import ClaimQueue.Files.Name
import ClaimQueue.Proofs.Text.Utf8
import Mathlib.Logic.Function.Basic

/-! The names of result files. No two ids have one name, and the only name that is not listed is that
of the empty id, which begins with the dot of its suffix. -/

namespace ClaimQueue

namespace Files

theorem hexDigit_injective {m n : Nat} (hm : m < 16) (hn : n < 16)
    (same : hexDigit m = hexDigit n) : m = n := by
  have all : ∀ m < 16, ∀ n < 16, hexDigit m = hexDigit n → m = n := by decide
  exact all m hm n hn same

/-- The text of one byte, from which the byte can be told. -/
inductive Escaped (b : UInt8) : List Char → Prop
  | plain {c : Char} (value : c.toNat = b.toNat) (percent : c ≠ '%') (dot : c ≠ '.') : Escaped b [c]
  | digits : Escaped b ['%', hexDigit (b.toNat / 16), hexDigit (b.toNat % 16)]

theorem escaped (b : UInt8) : Escaped b (escapedByte b) := by
  rw [escapedByte]
  split
  · rename_i plain
    simp only [Bool.and_eq_true, decide_eq_true_eq] at plain
    have small : b.toNat < 128 := UInt8.lt_iff_toNat_lt.mp plain.1
    have valid : b.toNat.isValidChar := .inl (by omega)
    refine .plain ?_ ?_ ?_
    · rw [Char.ofNat, dif_pos valid]
      rfl
    all_goals
      intro same
      have := plain.2
      simp only [isPlain, same] at this
      revert this
      decide
  · exact .digits

theorem Escaped.head {b : UInt8} {cs : List Char} (h : Escaped b cs) (rest : List Char) :
    (cs ++ rest).head? ≠ some '.' := by
  cases h with
  | plain _ _ dot => simpa using dot
  | digits => simp

theorem Escaped.ne_nil {b : UInt8} {cs : List Char} (h : Escaped b cs) : cs ≠ [] := by
  cases h <;> exact List.cons_ne_nil _ _

theorem Escaped.injective {b c : UInt8} {cs ds : List Char} (hb : Escaped b cs) (hc : Escaped c ds)
    {rest others : List Char} (same : cs ++ rest = ds ++ others) : b = c ∧ rest = others := by
  cases hb with
  | plain value percent _ =>
    cases hc with
    | plain value' _ _ =>
      obtain ⟨rfl, rest⟩ := List.cons.inj same
      exact ⟨UInt8.toNat_inj.mp (value.symm.trans value'), rest⟩
    | digits => exact absurd (List.cons.inj same).1 percent
  | digits =>
    cases hc with
    | plain _ percent _ => exact absurd (List.cons.inj same).1.symm percent
    | digits =>
      simp only [List.cons_append, List.nil_append, List.cons.injEq, true_and] at same
      obtain ⟨high, low, rest⟩ := same
      have byte := b.toNat_lt
      have byte' := c.toNat_lt
      have high := hexDigit_injective (by omega) (by omega) high
      have low := hexDigit_injective (by omega) (by omega) low
      exact ⟨UInt8.toNat_inj.mp (by omega), rest⟩

theorem flatMap_escapedByte_ne_nil (b : UInt8) (bs : List UInt8) :
    (b :: bs).flatMap escapedByte ≠ [] := by
  rw [List.flatMap_cons]
  exact List.append_ne_nil_of_left_ne_nil (escaped b).ne_nil _

theorem escapedBytes_injective {bs cs : List UInt8}
    (same : bs.flatMap escapedByte = cs.flatMap escapedByte) : bs = cs := by
  induction bs generalizing cs with
  | nil =>
    cases cs with
    | nil => rfl
    | cons c cs => exact absurd same.symm (flatMap_escapedByte_ne_nil c cs)
  | cons b bs ih =>
    cases cs with
    | nil => exact absurd same (flatMap_escapedByte_ne_nil b bs)
    | cons c cs =>
      rw [List.flatMap_cons, List.flatMap_cons] at same
      obtain ⟨rfl, rest⟩ := (escaped b).injective (escaped c) same
      rw [ih rest]

theorem nameOf_injective : Function.Injective nameOf := by
  intro id other same
  have chars : stem id ++ suffix = stem other ++ suffix := String.ofList_injective same
  exact Text.Utf8.bytes_injective (escapedBytes_injective (List.append_cancel_right chars))

theorem isResultName_nameOf (id : String) : isResultName (nameOf id) = true ↔ id ≠ "" := by
  rw [isResultName, nameOf, String.toList_ofList]
  have ends : suffix.isSuffixOf (stem id ++ suffix) = true :=
    List.isSuffixOf_iff_suffix.mpr (List.suffix_append _ _)
  cases bytes : Text.Utf8.bytes id with
  | nil =>
    have empty : id = "" := Text.Utf8.bytes_injective bytes
    simp [empty, stem, suffix, Text.Utf8.bytes, Text.Utf8.encode]
  | cons b bs =>
    have first : (stem id ++ suffix).head? ≠ some '.' := by
      rw [stem, bytes, List.flatMap_cons, List.append_assoc]
      exact (escaped b).head _
    have named : id ≠ "" := by
      rintro rfl
      cases bytes
    simp only [ends, Bool.and_true, bne_iff_ne, ne_eq, first, named, not_false_eq_true]

end Files

end ClaimQueue
