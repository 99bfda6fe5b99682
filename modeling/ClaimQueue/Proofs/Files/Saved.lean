import ClaimQueue.Proofs.Files.Listing

/-! Results in a directory are found by their ids. Whatever an id holds, it has a file of its own, and
that file lies in the directory itself. -/

namespace ClaimQueue

namespace TaskResult

/-- The last of these results for the task with this id. -/
def last? (id : String) (rs : List TaskResult) : Option TaskResult :=
  rs.reverse.find? (·.taskId == id)

variable {id : String} {rs : List TaskResult} {r : TaskResult}

theorem last?_eq_some_iff : last? id rs = some r ↔ r.taskId = id ∧ Latest rs r := by
  simp only [last?, List.find?_eq_some_iff_append, beq_iff_eq, Bool.not_eq_true',
    beq_eq_false_iff_ne, ne_eq, Latest]
  refine and_congr_right fun own => ⟨?_, ?_⟩
  · rintro ⟨later, earlier, reversed, none⟩
    refine ⟨earlier.reverse, later.reverse, ?_, fun x mem => ?_⟩
    · rw [← List.reverse_reverse rs, reversed]
      simp
    · rw [own]
      exact none x (List.mem_reverse.mp mem)
  · rintro ⟨earlier, later, rfl, none⟩
    refine ⟨later.reverse, earlier.reverse, by simp, fun x mem => ?_⟩
    rw [← own]
    exact none x (List.mem_reverse.mp mem)

theorem last?_cons (id : String) (r : TaskResult) (rs : List TaskResult) :
    last? id (r :: rs) = (last? id rs).or (if r.taskId = id then some r else none) := by
  rw [last?, List.reverse_cons, List.find?_append]
  by_cases own : r.taskId = id <;> simp [last?, own]

theorem last?_eq_none_iff : last? id rs = none ↔ ∀ r ∈ rs, r.taskId ≠ id := by
  simp [last?]

end TaskResult

namespace Files

open Memory

/-! Names of files in the directory. -/

/-- A name of something in a directory, and of nothing elsewhere. -/
structure EntryName (name : String) : Prop where
  plain : ∀ c ∈ name.toList, c ≠ '/' ∧ c ≠ '\x00'
  nonempty : name ≠ ""
  notSelf : name ≠ "."
  notParent : name ≠ ".."

/-- The characters of file names: letters, digits and a few signs. -/
def isNameChar (c : Char) : Bool := c.isAlphanum || ['-', '_', '%', '.'].contains c

theorem isNameChar_hexDigit {n : Nat} (small : n < 16) : isNameChar (hexDigit n) = true := by
  have all : ∀ n < 16, isNameChar (hexDigit n) = true := by decide
  exact all n small

theorem isNameChar_escapedByte (b : UInt8) : ∀ c ∈ escapedByte b, isNameChar c = true := by
  have byte := b.toNat_lt
  intro c mem
  rw [escapedByte] at mem
  split at mem
  · rename_i plain
    obtain rfl := List.mem_singleton.mp mem
    have plain := (Bool.and_eq_true _ _ ▸ plain).2
    simp only [isPlain, Bool.or_eq_true, beq_iff_eq] at plain
    simp only [isNameChar, Bool.or_eq_true]
    rcases plain with (letter | same) | same
    · exact .inl letter
    · exact .inr (by rw [same]; rfl)
    · exact .inr (by rw [same]; rfl)
  · simp only [List.mem_cons, List.not_mem_nil, or_false] at mem
    rcases mem with rfl | rfl | rfl
    · rfl
    · exact isNameChar_hexDigit (by omega)
    · exact isNameChar_hexDigit (by omega)

/-- More than two such characters make the name of an entry. -/
theorem entryName_of_chars {name : String} (chars : ∀ c ∈ name.toList, isNameChar c = true)
    (long : 2 < name.toList.length) : EntryName name where
  plain c mem := by
    have fits := chars c mem
    refine ⟨?_, ?_⟩
    · rintro rfl
      exact absurd fits (by decide)
    · rintro rfl
      exact absurd fits (by decide)
  nonempty := by
    rintro rfl
    exact absurd long (by decide)
  notSelf := by
    rintro rfl
    exact absurd long (by decide)
  notParent := by
    rintro rfl
    exact absurd long (by decide)

theorem entryName_nameOf (id : String) : EntryName (nameOf id) := by
  have whole : (nameOf id).toList = stem id ++ suffix := String.toList_ofList
  refine entryName_of_chars (fun c mem => ?_) ?_
  · rw [whole, List.mem_append] at mem
    rcases mem with mem | mem
    · obtain ⟨b, -, mem⟩ := List.mem_flatMap.mp mem
      exact isNameChar_escapedByte b c mem
    · have all : suffix.all isNameChar = true := rfl
      exact List.all_eq_true.mp all c mem
  · rw [whole, List.length_append]
    have five : suffix.length = 5 := rfl
    omega

theorem entryName_temporaryName (i : Nat) : EntryName (temporaryName i) := by
  have whole : (temporaryName i).toList = ".result-".toList ++ Nat.toDigits 10 i ++ ".tmp".toList := by
    simp [temporaryName]
  refine entryName_of_chars (fun c mem => ?_) ?_
  · rw [whole, List.mem_append, List.mem_append] at mem
    rcases mem with (mem | mem) | mem
    · have all : ".result-".toList.all isNameChar = true := rfl
      exact List.all_eq_true.mp all c mem
    · have digit := Json.Scan.isDigit_toDigits i c mem
      simp [isNameChar, Char.isAlphanum, digit]
    · have all : ".tmp".toList.all isNameChar = true := rfl
      exact List.all_eq_true.mp all c mem
  · rw [whole]
    simp

theorem stem_injective : Function.Injective stem := fun _ _ same =>
  Text.Utf8.bytes_injective (escapedBytes_injective same)

/-! What a save asks. -/

/-- The files that a question is about. -/
def Ask.named : Ask → List String
  | .read name | .write name _ | .sync name | .remove name => [name]
  | .rename old new => [old, new]
  | .create | .names | .openTemporary => []

/-- Only the file of the result is asked for, and the temporary file that was opened for it. -/
def Stays (target : String) (past : List (Exchange asks)) (q : Ask) : Prop :=
  ∀ name ∈ q.named, name = target ∨ ⟨.openTemporary, .ok name⟩ ∈ past

theorem save_stays (r : TaskResult) :
    (save r).run.Keeps (Stays (nameOf r.taskId)) (fun _ _ => True) [] := by
  refine ⟨nofun, fun opened => ?_⟩
  cases opened with
  | error detail => trivial
  | ok temporary =>
    refine ⟨by simp [Stays, Ask.named], fun written => ?_⟩
    cases written with
    | error detail => exact ⟨by simp [Stays, Ask.named], fun _ => trivial⟩
    | ok written =>
      refine ⟨by simp [Stays, Ask.named], fun synced => ?_⟩
      cases synced with
      | error detail => exact ⟨by simp [Stays, Ask.named], fun _ => trivial⟩
      | ok synced =>
        refine ⟨by simp [Stays, Ask.named], fun renamed => ?_⟩
        cases renamed with
        | error detail => exact ⟨by simp [Stays, Ask.named], fun _ => trivial⟩
        | ok renamed => trivial

/-! What is found. -/

variable {m : Memory} {id : String} {r : TaskResult} {rs : List TaskResult}

theorem keeps_get (plain : r.Plain Json.maxNesting)
    (found : m.find? (nameOf r.taskId) = some (.file (document r))) :
    Keeps m (get r.taskId) (some r) m := by
  have read : m.readAny (nameOf r.taskId) = .ok (some (document r)) := by rw [readAny, found]
  have told : m.answerAny (.read (nameOf r.taskId)) = (.ok (some (document r)), m) :=
    congrArg (·, m) read
  refine (run_get told).trans ?_
  rw [understood_of_ok (TaskResult.ofBytes_document plain)]

theorem keeps_get_none (there : m.place ≠ .occupied) (absent : m.find? (nameOf id) = none) :
    Keeps m (get id) none m := by
  have read : m.readAny (nameOf id) = .ok none := by
    rw [readAny, absent]
    exact if_neg there
  have told : m.answerAny (.read (nameOf id)) = (.ok none, m) := congrArg (·, m) read
  exact run_get told

section Kept

variable {fault : String} {opened : Nat}

theorem find?_shelf_ne_none {name : String} :
    (shelf fault opened rs).find? name ≠ none ↔ ∃ r ∈ rs, name = nameOf r.taskId := by
  rw [Option.ne_none_iff_exists']
  constructor
  · rintro ⟨node, found⟩
    obtain ⟨r, last, named, -⟩ := find?_shelf.mp found
    exact ⟨r, last.mem, named⟩
  · rintro ⟨r, mem, named⟩
    cases last : TaskResult.last? r.taskId rs with
    | none => exact absurd rfl (TaskResult.last?_eq_none_iff.mp last r mem)
    | some l =>
      obtain ⟨own, latest⟩ := TaskResult.last?_eq_some_iff.mp last
      exact ⟨_, find?_shelf.mpr ⟨l, latest, own ▸ named, rfl⟩⟩

theorem keeps_get_shelf (plain : ∀ r ∈ rs, r.Plain Json.maxNesting) (id : String) :
    Keeps (shelf fault opened rs) (get id) (TaskResult.last? id rs) (shelf fault opened rs) := by
  cases last : TaskResult.last? id rs with
  | none =>
    refine keeps_get_none (fun same => by cases same) ?_
    by_contra there
    obtain ⟨r, mem, named⟩ := find?_shelf_ne_none.mp there
    exact TaskResult.last?_eq_none_iff.mp last r mem (nameOf_injective named).symm
  | some r =>
    obtain ⟨rfl, latest⟩ := TaskResult.last?_eq_some_iff.mp last
    exact keeps_get (plain r latest.mem) (find?_shelf.mpr ⟨r, latest, rfl, rfl⟩)

end Kept

/-- After any results were saved in a new directory, each id finds the last one that was saved for
it, and for other ids there is nothing. No two ids have one file, each file lies in the directory
itself, and a save asks for no other but for the temporary file that was opened for it. -/
theorem saved_results_are_found (plain : ∀ r ∈ rs, r.Plain Json.maxNesting)
    (vacant : m.place = .vacant) :
    (∃ n, Keeps m (do prepare; rs.forM save) () n ∧
      (∀ id, Keeps n (get id) (TaskResult.last? id rs) n) ∧
      ∀ name, n.find? name ≠ none ↔ ∃ r ∈ rs, name = nameOf r.taskId) ∧
    Function.Injective stem ∧ (∀ id, EntryName (nameOf id)) ∧ (∀ i, EntryName (temporaryName i)) ∧
    ∀ r, (save r).run.Keeps (Stays (nameOf r.taskId)) (fun _ _ => True) [] := by
  refine ⟨?_, stem_injective, entryName_nameOf, entryName_temporaryName, save_stays⟩
  obtain ⟨fault, opened, saved⟩ := keeps_saves_shelf rs vacant
  exact ⟨_, saved, keeps_get_shelf plain, fun name => find?_shelf_ne_none⟩

private def note (id : String) (n : Int) : TaskResult where
  taskId := id
  kind := none
  status := .ok
  data := [("n", .int n)]
  createdAt := .epoch
  attemptsUsed := 0

private theorem plain_note (id : String) {n : Int} (wide : Json.Wide n) :
    (note id n).Plain Json.maxNesting := by
  refine ⟨⟨List.pairwise_singleton _ _, wide, trivial⟩, ?_⟩
  rw [TaskResult.nesting_toJson]
  simp [note, Json.nesting, Json.nestingMembers, Json.maxNesting]

/-- Ids that look like paths, like escapes and like each other. -/
private def notes : List TaskResult :=
  [note ".." 1, note "a/b" 2, note "a%2Fb" 3, note "A/b" 4, note "" 5, note "a/b" 6]

theorem finds_notes : (∀ r ∈ notes, r.Plain Json.maxNesting) ∧
    ∃ n, Keeps {} (do prepare; notes.forM save) () n ∧
      Keeps n (get "a/b") (some (note "a/b" 6)) n ∧ Keeps n (get "a%2Fb") (some (note "a%2Fb" 3)) n ∧
      Keeps n (get "..") (some (note ".." 1)) n ∧ Keeps n (get "a%2fb") none n := by
  have plain : ∀ r ∈ notes, r.Plain Json.maxNesting := by
    simp only [notes, List.forall_mem_cons, List.not_mem_nil, false_imp_iff, implies_true, and_true]
    exact ⟨plain_note _ (by decide), plain_note _ (by decide), plain_note _ (by decide),
      plain_note _ (by decide), plain_note _ (by decide), plain_note _ (by decide)⟩
  obtain ⟨⟨n, saved, finds, -⟩, -⟩ := @saved_results_are_found {} notes plain rfl
  exact ⟨plain, n, saved, finds "a/b", finds "a%2Fb", finds "..", finds "a%2fb"⟩

end Files

end ClaimQueue
