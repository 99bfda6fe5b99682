import ClaimQueue.Proofs.Files.Crashes

/-! Results copied one after the other into a directory of which any step may fail. If all goes well
to the end, each is found there, and what was there under other ids is as it was. -/

namespace ClaimQueue

namespace Files

open Memory TaskResult

variable {α β D : Type} {m : Memory} {r : TaskResult} {rs : List TaskResult}

/-- Makes the directory and saves these results in it. -/
def copy (rs : List TaskResult) : Job Unit := do
  prepare
  rs.forM save

/-! However its steps fare, a copy comes to its end. -/

theorem within_bind {j : Job α} {f : α → Job β} {most more : Nat} (first : j.run.Within most)
    (after : ∀ a, (f a).run.Within more) : (j >>= f).run.Within (most + more) :=
  first.bind fun
    | .ok a => after a
    | .error _ => trivial

theorem within_prepare : prepare.run.Within 1 :=
  ⟨0, by decide, fun made => by cases made <;> trivial⟩

theorem within_save (r : TaskResult) : (save r).run.Within 5 := by
  refine ⟨4, by decide, fun opened => ?_⟩
  cases opened with
  | error detail => trivial
  | ok temporary =>
    refine ⟨3, by decide, fun written => ?_⟩
    cases written with
    | error detail => exact ⟨0, by decide, fun _ => trivial⟩
    | ok written =>
      refine ⟨2, by decide, fun synced => ?_⟩
      cases synced with
      | error detail => exact ⟨0, by decide, fun _ => trivial⟩
      | ok synced =>
        refine ⟨1, by decide, fun renamed => ?_⟩
        cases renamed with
        | error detail => exact ⟨0, by decide, fun _ => trivial⟩
        | ok renamed => trivial

theorem within_saves (rs : List TaskResult) : (rs.forM save).run.Within (5 * rs.length) := by
  induction rs with
  | nil => trivial
  | cons r rs ih =>
    refine (within_bind (within_save r) fun _ => ih).mono ?_
    rw [List.length_cons]
    omega

theorem within_copy (rs : List TaskResult) : (copy rs).run.Within (1 + 5 * rs.length) :=
  within_bind within_prepare fun _ => within_saves rs

/-! Directories whose steps may fail. -/

/-- Answers what is asked of a directory, as well as it may fare. `view` is what lies in it. -/
structure Disk (D : Type) where
  answer : (q : Ask) → D → q.Answer × D
  view : D → Memory
  fares : ∀ q d, Fares (view d) q (answer q d).1 (view (answer q d).2)

section

variable (disk : Disk D) {d e : D}

theorem Disk.course {p rest : Program asks α} {a : α} (course : Course m p (disk.view d) rest)
    (run : rest.run disk.answer d = (some a, e)) : Course m p (disk.view e) (.done a) := by
  induction rest generalizing d with
  | done b =>
    cases run
    exact course
  | ask q next ih => exact ih _ (course.step (disk.fares q d)) run
  | spent => cases run

theorem Disk.replaced (run : (save r).run.run disk.answer d = (some (.ok ()), e)) :
    Replaced r (disk.view d) (disk.view e) :=
  (save_safe _ r).of_end (disk.course .start run)

end

/-- Making a directory that is missing shows nothing that was not shown before. -/
theorem prepare_safe (m : Memory) : Safe (fun _ => True)
    (fun _ n => ∀ id, outcome (get id) n = outcome (get id) m) prepare.run m := by
  refine ⟨trivial, nofun, fun made n fares => ?_⟩
  have alike (id : String) : outcome (get id) n = outcome (get id) m := by
    rw [outcome_get, outcome_get]
    cases fares with
    | failed => rfl
    | done =>
      obtain ⟨place, fault, opened⟩ := m
      cases place <;> rfl
  cases made <;> exact ⟨trivial, alike⟩

variable {disk : Disk D} {d e : D}

theorem Disk.saves_found (run : (rs.forM save).run.run disk.answer d = (some (.ok ()), e))
    (id : String) : outcome (get id) (disk.view e) = match last? id rs with
      | some r => some (saved r)
      | none => outcome (get id) (disk.view d) := by
  induction rs generalizing d with
  | nil =>
    cases run
    rfl
  | cons r rs ih =>
    obtain ⟨⟨⟩, u, first, rest⟩ := Program.run_bind_eq_ok run
    have replaced := disk.replaced first
    -- the later copies decide, and this one counts only where there is none for its id
    rw [ih rest, last?_cons]
    cases last? id rs with
    | some later => rfl
    | none =>
      by_cases own : r.taskId = id
      · subst own
        rw [if_pos rfl]
        exact replaced.get
      · rw [if_neg own]
        exact replaced.alike.get id (by simpa using Ne.symm own)

/-- After a copy that did not fail, each id finds the last result that was copied for it, or else what
it found before. -/
theorem Disk.copy_found (run : (copy rs).run.run disk.answer d = (some (.ok ()), e)) (id : String) :
    outcome (get id) (disk.view e) = match last? id rs with
      | some r => some (saved r)
      | none => outcome (get id) (disk.view d) := by
  obtain ⟨⟨⟩, u, made, saves⟩ := Program.run_bind_eq_ok run
  have same := (prepare_safe _).of_end (disk.course .start made) id
  rw [disk.saves_found saves, same]

/-! A directory in memory, with one temporary file at a time. -/

def Memory.answerOnce (q : Ask) (m : Memory) : q.Answer × Memory :=
  match q with
  | .openTemporary =>
    if m.nodes?.isSome ∧ m.find? (temporary "") = none then
      (.ok (temporary ""), m.put (temporary "") (.file []))
    else (.error m.fault, m)
  | q => m.answer q

def Disk.memory : Disk Memory where
  answer := Memory.answerOnce
  view := id
  fares q m := by
    cases q with
    | openTemporary =>
      simp only [Memory.answerOnce]
      split
      · rename_i free
        exact .opened free.1 free.2
      · exact .failed .openTemporary m.fault
    | _ => exact .done nofun

/-- No temporary file is left over, and all these results can be put into the directory. -/
structure Roomy (m : Memory) (rs : List TaskResult) : Prop where
  there : m.nodes?.isSome
  new : m.find? (temporary "") = none
  short : ∀ r ∈ rs, (nameOf r.taskId).utf8ByteSize ≤ nameLimit
  free : ∀ r ∈ rs, m.find? (nameOf r.taskId) ≠ some .folder

theorem run_save_memory (roomy : Roomy m (r :: rs)) : (save r).run.run Memory.answerOnce m =
    (some (.ok ()), m.put (nameOf r.taskId) (.file (document r))) := by
  let opened := m.put (temporary "") (.file [])
  let written := m.put (temporary "") (.file (document r))
  have begun : m.answerOnce .openTemporary = (.ok (temporary ""), opened) :=
    if_pos ⟨roomy.there, roomy.new⟩
  have write : opened.answerOnce (.write (temporary "") (document r)) = (.ok (), written) :=
    congrArg (Except.ok (), ·) (put_put _ _ _)
  have sync : written.answerOnce (.sync (temporary "")) = (.ok (), written) := rfl
  have rename : written.answerOnce (.rename (temporary "") (nameOf r.taskId)) =
      (.ok (), m.put (nameOf r.taskId) (.file (document r))) := by
    have found : written.find? (temporary "") = some (.file (document r)) := by
      rw [find?_put roomy.there, if_pos rfl]
    have free : written.find? (nameOf r.taskId) ≠ some .folder := by
      rw [find?_put roomy.there, if_neg (temporary_ne_nameOf "" r.taskId)]
      exact roomy.free r List.mem_cons_self
    have short := Nat.not_lt.mpr (roomy.short r List.mem_cons_self)
    show written.rename _ _ = _
    simp only [Memory.rename, found, free, short, or_self, if_false]
    rw [erase_put_of_new roomy.new]
  have filled : (fill (temporary "") (nameOf r.taskId) (document r)).run.run Memory.answerOnce opened =
      (some (.ok ()), m.put (nameOf r.taskId) (.file (document r))) := by
    refine (Program.run_bind_of_ok (run_must (run_ask_of_eq write))).trans ?_
    refine (Program.run_bind_of_ok (run_must (run_ask_of_eq sync))).trans ?_
    exact run_must (run_ask_of_eq rename)
  refine (Program.run_bind_of_ok (run_must (run_ask_of_eq begun))).trans ?_
  exact Program.run_lift_bind filled

theorem Roomy.rest (roomy : Roomy m (r :: rs)) :
    Roomy (m.put (nameOf r.taskId) (.file (document r))) rs where
  there := (isSome_nodes?_put _ _).trans roomy.there
  new := by
    rw [find?_put roomy.there, if_neg (temporary_ne_nameOf "" r.taskId).symm]
    exact roomy.new
  short x mem := roomy.short x (List.mem_cons_of_mem _ mem)
  free x mem := by
    rw [find?_put roomy.there]
    split
    · exact nofun
    · exact roomy.free x (List.mem_cons_of_mem _ mem)

theorem run_saves_memory (roomy : Roomy m rs) :
    ∃ n, (rs.forM save).run.run Memory.answerOnce m = (some (.ok ()), n) := by
  induction rs generalizing m with
  | nil => exact ⟨m, rfl⟩
  | cons r rs ih =>
    obtain ⟨n, rest⟩ := ih roomy.rest
    exact ⟨n, (Program.run_bind_of_ok (run_save_memory roomy)).trans rest⟩

/-- Where nothing stands in the way of a copy, it does not fail. -/
theorem Disk.run_copy_memory (roomy : Roomy m.create.2 rs) :
    ∃ n, (copy rs).run.run Disk.memory.answer m = (some (.ok ()), n) := by
  obtain ⟨n, saves⟩ := run_saves_memory roomy
  have made : m.answerOnce .create = (.ok (), m.create.2) := by
    have there := roomy.there
    obtain ⟨place, fault, opened⟩ := m
    cases place with
    | vacant | directory => rfl
    | occupied => cases there
  exact ⟨n, (Program.run_bind_of_ok (run_must (run_ask_of_eq made))).trans saves⟩

end Files

end ClaimQueue
