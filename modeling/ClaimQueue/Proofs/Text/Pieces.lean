import ClaimQueue.Text.Pieces
import Mathlib.Data.List.DropRight

/-! Texts cut at a separator, and texts without blanks at their ends. The pieces of two texts with a
separator between them are the pieces of both, and pieces joined by the separator are cut where they
were joined. -/

namespace ClaimQueue.Text

theorem pieces_eq_splitOn (separator : Char) (cs : List Char) :
    pieces separator cs = cs.splitOn separator := by
  induction cs with
  | nil => rfl
  | cons c cs ih =>
    rw [List.splitOn_cons_eq_if_modifyHead, pieces, ih]
    by_cases cut : c = separator
    · rw [if_pos cut, if_pos (beq_iff_eq.mpr cut)]
    · rw [if_neg cut, if_neg (mt beq_iff_eq.mp cut)]
      cases more : cs.splitOn separator with
      | nil => exact (List.splitOn_ne_nil separator cs more).elim
      | cons piece pieces => rfl

theorem pieces_append (separator : Char) (cs ds : List Char) :
    pieces separator (cs ++ separator :: ds) = pieces separator cs ++ pieces separator ds := by
  simp only [pieces_eq_splitOn, List.splitOn_append_cons_self]

theorem pieces_intercalate {separator : Char} {parts : List (List Char)}
    (whole : ∀ part ∈ parts, separator ∉ part) (some : parts ≠ []) :
    pieces separator ([separator].intercalate parts) = parts := by
  rw [pieces_eq_splitOn]
  exact List.splitOn_intercalate separator whole some

theorem notMem_of_mem_pieces {separator : Char} {cs piece : List Char}
    (mem : piece ∈ pieces separator cs) : separator ∉ piece := by
  induction cs generalizing piece with
  | nil =>
    obtain rfl := List.mem_singleton.mp mem
    exact List.not_mem_nil
  | cons c cs ih =>
    rw [pieces] at mem
    split at mem
    · rcases List.mem_cons.mp mem with rfl | mem
      · exact List.not_mem_nil
      · exact ih mem
    · next other =>
      split at mem
      · next none => exact (pieces_ne_nil separator cs none).elim
      · next first more cut =>
        rw [cut] at ih
        rcases List.mem_cons.mp mem with rfl | mem
        · rw [List.mem_cons, not_or]
          exact ⟨Ne.symm other, ih List.mem_cons_self⟩
        · exact ih (List.mem_cons_of_mem _ mem)

/-! Trimming. -/

/-- No blank at either end. -/
structure Tight (cs : List Char) : Prop where
  first : ∀ c rest, cs = c :: rest → isBlank c = false
  last : ∀ front c, cs = front ++ [c] → isBlank c = false

theorem trim_eq (cs : List Char) : trim cs = (cs.dropWhile isBlank).rdropWhile isBlank := rfl

theorem isInfix_trim (cs : List Char) : trim cs <:+: cs :=
  (List.rdropWhile_prefix isBlank _).isInfix.trans (List.dropWhile_suffix isBlank).isInfix

theorem tight_trim (cs : List Char) : Tight (trim cs) where
  first c rest same := by
    obtain ⟨more, whole⟩ := List.rdropWhile_prefix isBlank (cs.dropWhile isBlank)
    have stop := List.head?_dropWhile_not isBlank cs
    rw [← whole, ← trim_eq, same] at stop
    exact stop
  last front c same := by
    have some : trim cs ≠ [] := same ▸ List.append_ne_nil_of_right_ne_nil front (List.cons_ne_nil c [])
    have stop : ¬ isBlank ((trim cs).getLast some) = true :=
      List.rdropWhile_last_not isBlank (cs.dropWhile isBlank) some
    simp only [same, List.getLast_concat] at stop
    exact Bool.eq_false_iff.mpr stop

theorem trim_of_tight {cs : List Char} (tight : Tight cs) : trim cs = cs := by
  have front : cs.dropWhile isBlank = cs := by
    cases cs with
    | nil => rfl
    | cons c rest => exact List.dropWhile_cons_of_neg (Bool.eq_false_iff.mp (tight.first c rest rfl))
  rw [trim_eq, front]
  induction cs using List.reverseRecOn with
  | nil => rfl
  | append_singleton cs c _ =>
    exact List.rdropWhile_concat_neg isBlank cs c (Bool.eq_false_iff.mp (tight.last cs c rfl))

/-! The pieces of a list that count. -/

theorem mem_trimmedPieces {separator : Char} {s tag : String} :
    tag ∈ trimmedPieces separator s ↔
      tag ≠ "" ∧ ∃ piece ∈ pieces separator s.toList, trim piece = tag.toList := by
  simp only [trimmedPieces, List.mem_map, List.mem_filter, Bool.not_eq_true', List.isEmpty_eq_false_iff]
  constructor
  · rintro ⟨cs, ⟨⟨piece, mem, rfl⟩, some⟩, rfl⟩
    refine ⟨fun none => some ?_, piece, mem, String.toList_ofList.symm⟩
    rw [← String.toList_ofList (l := trim piece), none]
    rfl
  · rintro ⟨some, piece, mem, same⟩
    refine ⟨tag.toList, ⟨⟨piece, mem, same⟩, fun none => some ?_⟩, String.ofList_toList⟩
    exact String.toList_inj.mp none

theorem mem_trimmedPieces_append {separator : Char} {s t tag : String} :
    tag ∈ trimmedPieces separator (s ++ String.singleton separator ++ t) ↔
      tag ∈ trimmedPieces separator s ∨ tag ∈ trimmedPieces separator t := by
  have cut : (s ++ String.singleton separator ++ t).toList = s.toList ++ separator :: t.toList := by
    simp
  rw [mem_trimmedPieces, mem_trimmedPieces, mem_trimmedPieces, cut, pieces_append, ← and_or_left]
  simp only [List.mem_append, or_and_right, exists_or]

/-- What is left of a piece has no separator in it and no blank at its ends. -/
theorem clean_of_mem_trimmedPieces {separator : Char} {s tag : String}
    (mem : tag ∈ trimmedPieces separator s) : separator ∉ tag.toList ∧ Tight tag.toList := by
  obtain ⟨-, piece, among, same⟩ := mem_trimmedPieces.mp mem
  rw [← same]
  exact ⟨fun inside => notMem_of_mem_pieces among ((isInfix_trim piece).subset inside), tight_trim piece⟩

end ClaimQueue.Text
