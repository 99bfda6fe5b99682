import ClaimQueue.Proofs.Files.Names
import ClaimQueue.Proofs.Files.Reading
import ClaimQueue.Proofs.Files.Results
import ClaimQueue.Proofs.Task.Latest

/-! The results that a directory lists, after any number of them were saved in it. Its files may have
names of any length. -/

namespace ClaimQueue

namespace Files

open TaskResult

variable {α β : Type} {m n k : Memory} {rs : List TaskResult} {nodes : Index Node}
  {fault : String} {opened : Nat} {kind : Option TaskKind}

/-! A directory that keeps every name. -/

namespace Memory

def readAny (name : String) (m : Memory) : Except String (Option (List UInt8)) :=
  match m.find? name with
  | some (.file bytes) => .ok (some bytes)
  | some .folder => .error m.fault
  | none => if m.place = .occupied then .error m.fault else .ok none

def renameAny (old new : String) (m : Memory) : Except String Unit × Memory :=
  match m.find? old with
  | none => (.error m.fault, m)
  | some node =>
    if m.find? new = some .folder then (.error m.fault, m) else (.ok (), (m.erase old).put new node)

def answerAny (q : Ask) (m : Memory) : q.Answer × Memory :=
  match q with
  | .read name => (m.readAny name, m)
  | .rename old new => m.renameAny old new
  | q => m.answer q

end Memory

open Memory

/-- The name that may be too long. -/
def Ask.limited? : Ask → Option String
  | .read name | .rename _ name => some name
  | _ => none

/-- Only long names are treated otherwise. -/
theorem answerAny_eq {q : Ask}
    (short : ∀ name, q.limited? = some name → name.utf8ByteSize ≤ nameLimit) :
    m.answerAny q = m.answer q := by
  cases q with
  | read name =>
    show (m.readAny name, m) = (m.read name, m)
    rw [Memory.read, if_neg (Nat.not_lt.mpr (short name rfl))]
    rfl
  | rename old new =>
    have small := Nat.not_lt.mpr (short new rfl)
    show m.renameAny old new = m.rename old new
    cases found : m.find? old <;> simp only [renameAny, Memory.rename, found, small, or_false]
  | _ => rfl

/-- Carried out in the directory `m`, the job succeeds with `a` and leaves `n`. -/
def Keeps (m : Memory) (j : Job α) (a : α) (n : Memory) : Prop :=
  j.run.run answerAny m = (some (.ok a), n)

theorem keeps_pure (a : α) : Keeps m (pure a : Job α) a m := rfl

theorem Keeps.bind {j : Job α} {f : α → Job β} {a : α} {b : β} (h : Keeps m j a n)
    (more : Keeps n (f a) b k) : Keeps m (j >>= f) b k :=
  (Program.run_bind_of_some h).trans more

theorem keeps_must {p : Program asks (Except String α)} {a : α}
    (h : p.run answerAny m = (some (.ok a), n)) : Keeps m (must p) a n :=
  Program.run_bind_of_some h

theorem keeps_lift {j : Job α} {a : α} (h : Keeps m j a n) :
    Keeps m (ExceptT.lift j.run) (.ok a) n :=
  Program.run_bind_of_some h

/-! Saving. -/

/-- A directory with nothing in it but these files. -/
def folder (fault : String) (opened : Nat) (nodes : Index Node) : Memory :=
  ⟨.directory nodes, fault, opened⟩

theorem keeps_fill {temporary target : String} (fault : String) (opened : Nat)
    (bytes before : List UInt8) (new : temporary ∉ nodes.map Prod.fst) (different : temporary ≠ target)
    (free : Index.find? target nodes ≠ some .folder) :
    Keeps (folder fault opened (Index.put temporary (.file before) nodes))
      (fill temporary target bytes) ()
      (folder fault opened (Index.put target (.file bytes) nodes)) := by
  let written := folder fault opened (Index.put temporary (.file bytes) nodes)
  have write : Keeps (folder fault opened (Index.put temporary (.file before) nodes))
      (must (ask (.write temporary bytes))) () written := by
    refine keeps_must (Prod.ext rfl ?_)
    exact congrArg (folder fault opened) (Index.put_put temporary _ _ nodes)
  have found : written.find? temporary = some (.file bytes) :=
    (Index.find?_put _ _ _ nodes).trans (if_pos rfl)
  have free : written.find? target ≠ some .folder := by
    refine ne_of_eq_of_ne ?_ free
    exact (Index.find?_put _ _ _ nodes).trans (if_neg different)
  have rename : Keeps written (must (ask (.rename temporary target))) ()
      (folder fault opened (Index.put target (.file bytes) nodes)) := by
    refine keeps_must ?_
    show (some (written.renameAny temporary target).1, (written.renameAny temporary target).2) = _
    rw [renameAny, found]
    simp only [free, if_false]
    refine Prod.ext rfl ?_
    exact congrArg (fun nodes => folder fault opened (Index.put target (.file bytes) nodes))
      (Index.erase_put_of_new _ new)
  exact write.bind ((keeps_must rfl).bind rename)

theorem keeps_save (r : TaskResult) (new : ∀ i, temporaryName i ∉ nodes.map Prod.fst)
    (free : Index.find? (nameOf r.taskId) nodes ≠ some .folder) :
    Keeps (folder fault opened nodes) (save r) ()
      (folder fault (opened + 1) (Index.put (nameOf r.taskId) (.file (document r)) nodes)) := by
  have openTemporary : Keeps (folder fault opened nodes) (must (ask .openTemporary))
      (temporaryName opened)
      (folder fault (opened + 1) (Index.put (temporaryName opened) (.file []) nodes)) :=
    keeps_must rfl
  have fill := keeps_fill fault (opened + 1) (document r) [] (new opened)
    (temporaryName_ne_nameOf opened r.taskId) free
  exact openTemporary.bind ((keeps_lift fill).bind (keeps_pure ()))

/-- Nothing but results, each in its own file. -/
def OnlyResults (nodes : Index Node) : Prop := ∀ e ∈ nodes, ∃ id bytes, e = (nameOf id, .file bytes)

theorem OnlyResults.put (h : OnlyResults nodes) (r : TaskResult) :
    OnlyResults (Index.put (nameOf r.taskId) (.file (document r)) nodes) := fun e mem =>
  (Index.mem_put mem).elim (fun same => ⟨r.taskId, document r, same⟩) (h e)

theorem OnlyResults.no_temporary (h : OnlyResults nodes) (i : Nat) :
    temporaryName i ∉ nodes.map Prod.fst := by
  intro mem
  obtain ⟨e, mem, same⟩ := List.mem_map.mp mem
  obtain ⟨id, bytes, rfl⟩ := h e mem
  exact temporaryName_ne_nameOf i id same.symm

theorem OnlyResults.no_folder (h : OnlyResults nodes) (name : String) :
    Index.find? name nodes ≠ some .folder := by
  intro found
  obtain ⟨id, bytes, same⟩ := h _ (Index.mem_of_find? found)
  cases same

theorem keeps_saves (rs : List TaskResult) (fault : String) (opened : Nat) (only : OnlyResults nodes) :
    ∃ opened', Keeps (folder fault opened nodes) (rs.forM save) () (folder fault opened' (rs.foldl
      (fun nodes r => Index.put (nameOf r.taskId) (.file (document r)) nodes) nodes)) := by
  induction rs generalizing opened nodes with
  | nil => exact ⟨opened, rfl⟩
  | cons r rs ih =>
    obtain ⟨opened', saved⟩ := ih (opened + 1) (only.put r)
    exact ⟨opened', (keeps_save r only.no_temporary (only.no_folder _)).bind saved⟩

/-- A directory with the last of these results for each task, and with nothing else. -/
def shelf (fault : String) (opened : Nat) (rs : List TaskResult) : Memory :=
  folder fault opened (TaskResult.kept nameOf (fun r => .file (document r)) rs)

theorem find?_shelf {name : String} {node : Node} : (shelf fault opened rs).find? name = some node ↔
    ∃ r, TaskResult.Latest rs r ∧ name = nameOf r.taskId ∧ node = .file (document r) := by
  refine (Index.mem_iff_find? TaskResult.kept_ascending).symm.trans ?_
  simp only [TaskResult.mem_kept nameOf_injective, Prod.mk.injEq]

theorem keeps_saves_shelf (rs : List TaskResult) (vacant : m.place = .vacant) :
    ∃ fault opened, Keeps m (do prepare; rs.forM save) () (shelf fault opened rs) := by
  obtain ⟨place, fault, opened⟩ := m
  cases vacant
  have prepared : Keeps ⟨.vacant, fault, opened⟩ prepare () (folder fault opened []) :=
    keeps_must rfl
  have empty : OnlyResults [] := fun e mem => absurd mem List.not_mem_nil
  obtain ⟨opened', saved⟩ := keeps_saves rs fault opened empty
  rw [TaskResult.foldl_put] at saved
  exact ⟨fault, opened', prepared.bind saved⟩

/-! Listing. -/

/-- The file of a result shows it, if it is of the kind asked for. -/
theorem shows_of_file {r : TaskResult} {name : String} (plain : r.Plain Json.maxNesting)
    (file : m.find? name = some (.file (document r))) :
    shows kind m.readAny name = if r.matchesKind kind then some (.ok r) else none := by
  simp only [shows, readAny, file, understood_of_ok (TaskResult.ofBytes_document plain), itemOf]

/-- All is listed but the result of the empty id, whose file is hidden. -/
theorem lists_latest (plain : ∀ r ∈ rs, r.Plain Json.maxNesting) (kind : Option TaskKind)
    (vacant : m.place = .vacant) : ∃ n listed found,
      Keeps m (do prepare; rs.forM save) () n ∧ Keeps n names listed n ∧
      (items kind listed).run answerAny n = (some found, n) ∧
      found.Perm
        (((latest rs).filter fun r => r.matchesKind kind && r.taskId != "").map .ok) := by
  obtain ⟨fault, opened, saved⟩ := keeps_saves_shelf rs vacant
  let nodes := kept nameOf (fun r => Node.file (document r)) rs
  let n := shelf fault opened rs
  have told : n.answerAny .names = (.ok nodes.keys, n) := rfl
  refine ⟨n, _, _, saved, run_names told, run_items kind fun _ _ => rfl, ?_⟩
  have keys : nodes.keys.Perm ((latest rs).map fun r => nameOf r.taskId) := by
    have perm := (kept_perm (fun r => Node.file (document r)) rs nameOf_injective).map Prod.fst
    rwa [List.map_map] at perm
  have each : ∀ r ∈ latest rs, shows kind n.readAny (nameOf r.taskId) =
      if r.matchesKind kind then some (.ok r) else none := by
    intro r mem
    have last := mem_latest.mp mem
    exact shows_of_file (plain r last.mem) (find?_shelf.mpr ⟨r, last, rfl, rfl⟩)
  refine (((List.mergeSort_perm _ _).trans (keys.filter _)).filterMap _).trans (.of_eq ?_)
  rw [List.filter_map, List.filterMap_map, List.filterMap_filter, ← List.filterMap_eq_map,
    List.filterMap_filter]
  refine List.filterMap_congr fun r mem => ?_
  simp only [Function.comp_apply, isResultName_nameOf, each r mem]
  by_cases empty : r.taskId = "" <;> simp [empty]

end Files

end ClaimQueue
