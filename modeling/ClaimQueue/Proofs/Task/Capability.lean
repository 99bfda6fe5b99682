import ClaimQueue.Proofs.Task.Exact
import ClaimQueue.Proofs.Text.Order
import ClaimQueue.Proofs.Text.Pieces

/-! Lists of capabilities, as people write them. What is read from a list is the set of its pieces,
and the text of a set is the one list of it that is in order. -/

namespace ClaimQueue.CapabilitySet

theorem eq_of_mem_iff {a b : CapabilitySet} (same : ∀ tag, tag ∈ a.tags ↔ tag ∈ b.tags) : a = b := by
  obtain ⟨as, ascending⟩ := a
  obtain ⟨bs, ascending'⟩ := b
  have perm : as.Perm bs := (List.perm_ext_iff_of_nodup (ascending.imp String.ne_of_lt)
    (ascending'.imp String.ne_of_lt)).mpr same
  obtain rfl : as = bs := perm.eq_of_pairwise
    (fun s t _ _ below above => (String.lt_irrefl s (String.lt_trans below above)).elim)
    ascending ascending'
  rfl

theorem mem_ofList {tag : String} {tags : List String} : tag ∈ (ofList tags).tags ↔ tag ∈ tags := by
  have among (set : CapabilitySet) : tag ∈ (tags.foldl (fun set tag => set.insert tag) set).tags ↔
      tag ∈ set.tags ∨ tag ∈ tags := by
    induction tags generalizing set with
    | nil => simp
    | cons first tags ih =>
      rw [List.foldl_cons, ih, insert, mem_insertTag, List.mem_cons, or_comm (a := tag = first),
        or_assoc]
  rw [ofList, among]
  simp [empty]

theorem mem_ofText {tag s : String} : tag ∈ (ofText s).tags ↔ tag ∈ Text.trimmedPieces ',' s :=
  mem_ofList

/-- Each tag can stand between commas: it is not empty, has no comma in it and no blank at its ends. -/
def Clean (set : CapabilitySet) : Prop :=
  ∀ tag ∈ set.tags, tag ≠ "" ∧ ',' ∉ tag.toList ∧ Text.Tight tag.toList

theorem clean_ofText (s : String) : (ofText s).Clean := by
  intro tag mem
  have mem := mem_ofText.mp mem
  exact ⟨(Text.mem_trimmedPieces.mp mem).1, Text.clean_of_mem_trimmedPieces mem⟩

theorem toList_text (set : CapabilitySet) :
    set.text.toList = [','].intercalate (set.tags.map String.toList) :=
  String.toList_intercalate

theorem trimmedPieces_text {set : CapabilitySet} (clean : set.Clean) :
    Text.trimmedPieces ',' set.text = set.tags := by
  have trimmed : (set.tags.map String.toList).map Text.trim = set.tags.map String.toList := by
    rw [List.map_map]
    exact List.map_congr_left fun tag mem => Text.trim_of_tight (clean tag mem).2.2
  have kept : (set.tags.map String.toList).filter (!·.isEmpty) = set.tags.map String.toList := by
    refine List.filter_eq_self.mpr fun cs mem => ?_
    obtain ⟨tag, among, rfl⟩ := List.mem_map.mp mem
    simpa using (clean tag among).1
  have back : (set.tags.map String.toList).map String.ofList = set.tags := by
    simp [List.map_map, Function.comp_def]
  rw [Text.trimmedPieces, toList_text]
  by_cases none : set.tags = []
  · rw [none]
    rfl
  · have whole : ∀ part ∈ set.tags.map String.toList, ',' ∉ part := by
      intro part mem
      obtain ⟨tag, among, rfl⟩ := List.mem_map.mp mem
      exact (clean tag among).2.1
    have some : set.tags.map String.toList ≠ [] := by simpa using none
    rw [Text.pieces_intercalate whole some, trimmed, kept, back]

theorem ofText_text {set : CapabilitySet} (clean : set.Clean) : ofText set.text = set := by
  rw [ofText, trimmedPieces_text clean, ofList_tags]

/-- Lists joined by a comma give the tags of both. What is read from a list is clean and comes back
from its own text, whose tags ascend by their bytes. So nothing counts but which pieces there are,
without the blanks at their ends. -/
theorem ofText_canonical (a b : String) :
    (∀ tag, tag ∈ (ofText (a ++ "," ++ b)).tags ↔ tag ∈ (ofText a).tags ∨ tag ∈ (ofText b).tags) ∧
    (∀ tag ∈ (ofText a).tags, tag ≠ "" ∧ ',' ∉ tag.toList ∧ Text.Tight tag.toList) ∧
    ofText (ofText a).text = ofText a ∧
    ((ofText a).tags.map Text.Utf8.bytes).Pairwise (· < ·) ∧
    (ofText a).text.toList = [','].intercalate ((ofText a).tags.map String.toList) ∧
    (ofText a = ofText b ↔
      ∀ tag, tag ∈ Text.trimmedPieces ',' a ↔ tag ∈ Text.trimmedPieces ',' b) := by
  refine ⟨fun tag => ?_, clean_ofText a, ofText_text (clean_ofText a), ?_, toList_text _,
    fun same tag => ?_, fun same => eq_of_mem_iff fun tag => ?_⟩
  · simp only [mem_ofText]
    exact Text.mem_trimmedPieces_append
  · exact List.Pairwise.map _ (fun _ _ => Text.Utf8.bytes_lt) (ofText a).ascending
  · rw [← mem_ofText, same, mem_ofText]
  · rw [mem_ofText, same, mem_ofText]

/-- With blanks of several kinds, an empty piece and a tag that comes twice. -/
private def untidy : String := "\u00a0gpu ,\u2003cuda11,,\tgpu"

private theorem tags_untidy : (ofText untidy).tags = ["cuda11", "gpu"] := by decide +kernel

theorem ofText_untidy :
    (ofText untidy).tags = ["cuda11", "gpu"] ∧
    ("gpu" ≠ "" ∧ ',' ∉ "gpu".toList ∧ Text.Tight "gpu".toList) ∧
    "docker" ∈ (ofText (untidy ++ "," ++ " docker")).tags ∧
    ofText (ofText untidy).text = ofText untidy ∧
    ofText untidy = ofText "gpu,cuda11" := by
  obtain ⟨both, clean, again, -⟩ := ofText_canonical untidy " docker"
  obtain ⟨-, -, -, -, -, same⟩ := ofText_canonical untidy "gpu,cuda11"
  have pieces : Text.trimmedPieces ',' untidy = ["gpu", "cuda11", "gpu"] := by decide +kernel
  have tidy : Text.trimmedPieces ',' "gpu,cuda11" = ["gpu", "cuda11"] := by decide +kernel
  have docker : "docker" ∈ (ofText " docker").tags := by decide +kernel
  refine ⟨tags_untidy, clean "gpu" ?_, (both "docker").mpr (.inr docker), again,
    same.mpr fun tag => ?_⟩
  · rw [tags_untidy]
    exact List.mem_cons_of_mem _ List.mem_cons_self
  · rw [pieces, tidy]
    simp only [List.mem_cons, List.not_mem_nil, or_false]
    exact ⟨fun among => among.elim .inl fun among => among.symm, fun among => among.imp_right .inl⟩

end ClaimQueue.CapabilitySet
