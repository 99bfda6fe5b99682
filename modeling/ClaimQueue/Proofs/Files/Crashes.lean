import ClaimQueue.Proofs.Files.Saved

/-! A save that fails, or that is cut off at any of its steps. Readers never see a part of it: until
the rename they find what they found before, and from then on the new result. What is left of a
temporary file shows up nowhere. -/

namespace ClaimQueue

namespace Files

open Memory

/-! Steps that may fail. -/

def Ask.refusal : (q : Ask) → (detail : String) → q.Answer
  | .create, detail | .names, detail | .read _, detail | .openTemporary, detail
  | .write _ _, detail | .sync _, detail | .rename _ _, detail | .remove _, detail => .error detail

/-- How a question may fare: it is answered, or it fails and nothing is done, but a write that fails
may have written the first of its bytes. The name of a temporary file is any that is free. -/
inductive Fares (m : Memory) : (q : Ask) → q.Answer → Memory → Prop
  | opened {random : String} (there : m.nodes?.isSome) (new : m.find? (temporary random) = none) :
      Fares m .openTemporary (.ok (temporary random)) (m.put (temporary random) (.file []))
  | done {q : Ask} (other : q ≠ .openTemporary) : Fares m q (m.answer q).1 (m.answer q).2
  | failed (q : Ask) (detail : String) : Fares m q (q.refusal detail) m
  | cut {name : String} {bytes written : List UInt8} (part : written <+: bytes) (detail : String) :
      Fares m (.write name bytes) (.error detail) (m.put name (.file written))

section

variable {α : Type} (m : Memory) (p : Program asks α)

/-- Where a program may have come to, and what is left of it. -/
inductive Course : Memory → Program asks α → Prop
  | start : Course m p
  | step {n k : Memory} {q : Ask} {next : q.Answer → Program asks α} {a : q.Answer}
      (before : Course n (.ask q next)) (fares : Fares n q a k) : Course k (next a)

/-- What is left when the program is stopped, between two steps or in the midst of a write. -/
inductive Stops : Memory → Prop
  | between {n : Memory} {rest : Program asks α} (course : Course m p n rest) : Stops n
  | writing {n : Memory} {name : String} {bytes written : List UInt8}
      {next : Except String Unit → Program asks α}
      (course : Course m p n (.ask (.write name bytes) next)) (part : written <+: bytes) :
      Stops (n.put name (.file written))

end

variable {α : Type} {m n k : Memory} {kind : Option TaskKind} {but : List String}

/-- Whenever the program is stopped `inv` holds, and if it comes to its end `ends` does. -/
def Safe (inv : Memory → Prop) (ends : α → Memory → Prop) : Program asks α → Memory → Prop
  | .done a, m => inv m ∧ ends a m
  | .spent, m => inv m
  | .ask q next, m => inv m ∧
    (∀ name bytes written, q = .write name bytes → written <+: bytes →
      inv (m.put name (.file written))) ∧
    ∀ a n, Fares m q a n → Safe inv ends (next a) n

namespace Safe

variable {inv : Memory → Prop} {ends : α → Memory → Prop} {p rest : Program asks α}

theorem here (h : Safe inv ends p m) : inv m := by
  cases p with
  | done | ask => exact h.1
  | spent => exact h

theorem of_course (h : Safe inv ends p m) (course : Course m p n rest) : Safe inv ends rest n := by
  induction course with
  | start => exact h
  | step _ fares ih => exact ih.2.2 _ _ fares

theorem of_stops (h : Safe inv ends p m) (stops : Stops m p n) : inv n := by
  cases stops with
  | between course => exact (h.of_course course).here
  | writing course part => exact (h.of_course course).2.1 _ _ _ rfl part

theorem of_end {a : α} (h : Safe inv ends p m) (course : Course m p n (.done a)) : ends a n :=
  (h.of_course course).2

end Safe

/-! What a save may leave. -/

/-- At most an unfinished file is left. -/
def Littered (m n : Memory) : Prop :=
  n = m ∨ ∃ random bytes, m.nodes?.isSome ∧ n = m.put (temporary random) (.file bytes)

/-- The result has its file, and all else is as it was. -/
structure Replaced (r : TaskResult) (m n : Memory) : Prop where
  there : m.nodes?.isSome
  short : (nameOf r.taskId).utf8ByteSize ≤ nameLimit
  now : n = m.put (nameOf r.taskId) (.file (document r))

def Sparing (r : TaskResult) (m n : Memory) : Prop := Littered m n ∨ Replaced r m n

def Settled (r : TaskResult) (m : Memory) : Except StoreError Unit → Memory → Prop
  | .ok (), n => Replaced r m n
  | .error _, n => Littered m n

theorem put_put (name : String) (before node : Node) :
    (m.put name before).put name node = m.put name node := by
  obtain ⟨place, fault, opened⟩ := m
  cases place with
  | vacant | occupied => rfl
  | directory nodes => exact congrArg (folder fault opened) (Index.put_put name before node nodes)

theorem erase_put_of_new {name : String} (new : m.find? name = none) (node : Node) :
    (m.put name node).erase name = m := by
  obtain ⟨place, fault, opened⟩ := m
  cases place with
  | vacant | occupied => rfl
  | directory nodes =>
    exact congrArg (folder fault opened) (Index.erase_put_of_new node (Index.find?_eq_none.mp new))

section Save

variable {r : TaskResult} {random : String} {bytes : List UInt8} (there : m.nodes?.isSome)
  (new : m.find? (temporary random) = none)
include there new

omit new in
theorem littered_put : Littered m (m.put (temporary random) (.file bytes)) :=
  .inr ⟨random, bytes, there, rfl⟩

/-- The temporary file is removed, if that can be done. -/
theorem remove_safe (e : StoreError) : Safe (Sparing r m) (Settled r m)
    (.ask (.remove (temporary random)) fun _ => .done (.error e))
    (m.put (temporary random) (.file bytes)) := by
  refine ⟨.inl (littered_put there), nofun, fun a n fares => ?_⟩
  have left : Littered m n := by
    cases fares with
    | done => exact .inl (erase_put_of_new new _)
    | failed => exact littered_put there
  exact ⟨.inl left, left⟩

/-- Only a rename that is done puts the result in place. -/
theorem rename_fares {a : Except String Unit}
    (fares : Fares (m.put (temporary random) (.file (document r)))
      (.rename (temporary random) (nameOf r.taskId)) a n) :
    (a = .ok () ∧ Replaced r m n) ∨
      ((∃ detail, a = .error detail) ∧ n = m.put (temporary random) (.file (document r))) := by
  have found : (m.put (temporary random) (.file (document r))).find? (temporary random) =
      some (.file (document r)) := by
    rw [find?_put there, if_pos rfl]
  cases fares with
  | failed => exact .inr ⟨⟨_, rfl⟩, rfl⟩
  | done =>
    simp only [answer, Memory.rename, found]
    split
    · exact .inr ⟨⟨_, rfl⟩, rfl⟩
    · rename_i free
      refine .inl ⟨rfl, there, Nat.not_lt.mp fun long => free (.inr long), ?_⟩
      rw [erase_put_of_new new]

end Save

/-- Before the rename at most the temporary file is new, and after it only the result is. -/
theorem save_safe (m : Memory) (r : TaskResult) :
    Safe (Sparing r m) (Settled r m) (save r).run m := by
  refine ⟨.inl (.inl rfl), nofun, fun opened n fares => ?_⟩
  cases fares with
  | done other => exact absurd rfl other
  | failed => exact ⟨.inl (.inl rfl), .inl rfl⟩
  | @opened random there new =>
    have litter (bytes : List UInt8) : Sparing r m (m.put (temporary random) (.file bytes)) :=
      .inl (littered_put there)
    have removes (e : StoreError) {bytes : List UInt8} := @remove_safe m r random bytes there new e
    refine ⟨litter [], fun name bytes written same part => ?_, fun wrote n fares => ?_⟩
    · cases same
      rw [put_put]
      exact litter written
    · cases fares with
      | failed => exact removes _
      | cut =>
        rw [put_put]
        exact removes _
      | done =>
        show Safe _ _ _ (Memory.put _ _ (Memory.put _ _ m))
        rw [put_put]
        refine ⟨litter _, nofun, fun synced n fares => ?_⟩
        cases fares with
        | failed => exact removes _
        | done =>
          refine ⟨litter _, nofun, fun renamed n fares => ?_⟩
          rcases rename_fares there new fares with ⟨rfl, replaced⟩ | ⟨⟨detail, rfl⟩, rfl⟩
          · exact ⟨.inr replaced, replaced⟩
          · exact removes _

/-! What is read. -/

/-- What a job comes to, in a directory where nothing else is done. -/
def outcome (j : Job α) (m : Memory) : Option (Except StoreError α) := (j.run.run answer m).1

/-- What is listed, but for the results of these tasks. -/
def listing (but : List String) (kind : Option TaskKind) :
    Job (List (Except StoreError TaskResult)) := do
  let all ← names
  ExceptT.lift (items kind (all.filter fun name => !(but.map nameOf).contains name))

/-- Nothing that is read of other tasks than these is new. -/
structure Alike (but : List String) (m n : Memory) : Prop where
  get : ∀ id, id ∉ but → outcome (get id) n = outcome (get id) m
  listing : ∀ kind, outcome (listing but kind) n = outcome (listing but kind) m

theorem alike_refl (but : List String) (m : Memory) : Alike but m m := ⟨fun _ _ => rfl, fun _ => rfl⟩

theorem outcome_get (m : Memory) (id : String) :
    outcome (get id) m = some (understood (m.read (nameOf id))) :=
  congrArg Prod.fst (run_get rfl)

theorem read_put {name other : String} {node : Node} (there : m.nodes?.isSome)
    (different : name ≠ other) : (m.put name node).read other = m.read other := by
  have found : (m.put name node).find? other = m.find? other := by
    rw [find?_put there, if_neg different]
  obtain ⟨place, fault, opened⟩ := m
  cases place with
  | vacant | occupied => cases there
  | directory nodes =>
    simp only [Memory.read, found]
    rfl

/-- Sorting does not mind what is left out. -/
theorem filter_mergeSort (p : String → Bool) (names : List String) :
    (names.mergeSort fun a b => decide (a ≤ b)).filter p =
      (names.filter p).mergeSort fun a b => decide (a ≤ b) := by
  have sorted (names : List String) :
      (names.mergeSort fun a b => decide (a ≤ b)).Pairwise fun a b => decide (a ≤ b) = true :=
    List.pairwise_mergeSort (by simpa using fun a b c => String.le_trans)
      (by simpa using String.le_total) _
  have perm := ((List.mergeSort_perm names fun a b => decide (a ≤ b)).filter p).trans
    (List.mergeSort_perm (names.filter p) fun a b => decide (a ≤ b)).symm
  refine perm.eq_of_pairwise (fun a b _ _ first second => ?_)
    ((sorted names).sublist List.filter_sublist) (sorted _)
  exact String.le_antisymm (of_decide_eq_true first) (of_decide_eq_true second)

/-- A name that is left out makes no difference. -/
theorem filter_keys_put {p : String → Bool} {name : String} (out : p name = false) (node : Node)
    (nodes : Index Node) : (Index.put name node nodes).keys.filter p = nodes.keys.filter p := by
  induction nodes with
  | nil => simp [Index.put, Index.keys, out]
  | cons e rest ih =>
    obtain ⟨key, v⟩ := e
    simp only [Index.keys] at ih
    simp only [Index.put]
    split
    · simp [Index.keys, List.filter_cons, ih]
    · split
      · rename_i same
        simp [Index.keys, same]
      · simp [Index.keys, List.filter_cons, out]

/-- A file that is listed, and not for one of these tasks. -/
def isListed (but : List String) (name : String) : Bool :=
  !(but.map nameOf).contains name && isResultName name

theorem outcome_listing {nodes : Index Node} (found : m.nodes? = some nodes) :
    outcome (listing but kind) m = some (.ok
      (((nodes.keys.filter (isListed but)).mergeSort fun a b => decide (a ≤ b)).filterMap
        (shows kind m.read))) := by
  have told : m.answer .names = (.ok nodes.keys, m) := by simp only [answer, found]
  have listed (all : List String) :
      Gives m (ExceptT.lift (items kind all)) (all.filterMap (shows kind m.read)) m :=
    Program.run_bind_of_some (run_items kind fun _ _ => rfl)
  have whole : Gives m (listing but kind) _ m := Gives.bind (run_names told) (listed _)
  rw [filter_mergeSort, List.filter_filter] at whole
  exact congrArg Prod.fst whole

/-- A file that is hidden, or that belongs to one of these tasks, makes no difference to the rest. -/
theorem alike_put {name : String} (there : m.nodes?.isSome) (node : Node)
    (out : isListed but name = false) (other : ∀ id, id ∉ but → name ≠ nameOf id) :
    Alike but m (m.put name node) where
  get id mem := by
    rw [outcome_get, outcome_get, read_put there (other id mem)]
  listing kind := by
    obtain ⟨nodes, found⟩ := Option.isSome_iff_exists.mp there
    have found' : (m.put name node).nodes? = some (Index.put name node nodes) := by
      obtain ⟨place, fault, opened⟩ := m
      cases place with
      | vacant | occupied => cases found
      | directory => cases found; rfl
    rw [outcome_listing found, outcome_listing found', filter_keys_put out]
    refine congrArg (fun items => some (Except.ok items)) (List.filterMap_congr fun listed mem => ?_)
    have shown := (List.mem_filter.mp (List.mem_mergeSort.mp mem)).2
    have different : name ≠ listed := by
      rintro rfl
      exact nomatch out.symm.trans shown
    rw [shows, shows, read_put there different]

theorem isResultName_temporary (random : String) : isResultName (temporary random) = false := by
  simp [isResultName, temporary]

/-- What is left of a temporary file shows up nowhere. -/
theorem Littered.alike (h : Littered m n) (but : List String) : Alike but m n := by
  rcases h with rfl | ⟨random, bytes, there, rfl⟩
  · exact alike_refl but n
  · refine alike_put there _ ?_ fun id _ => temporary_ne_nameOf random id
    rw [isListed, isResultName_temporary, Bool.and_false]

section Replaced

variable {r : TaskResult}

theorem Replaced.alike (h : Replaced r m n) : Alike [r.taskId] m n := by
  obtain ⟨there, -, rfl⟩ := h
  refine alike_put there _ ?_ fun id mem same => ?_
  · simp [isListed]
  · exact mem (List.mem_singleton.mpr (nameOf_injective same).symm)

/-- What a result is read as, once it is saved. -/
def saved (r : TaskResult) : Except StoreError (Option TaskResult) :=
  understood (.ok (some (document r)))

theorem Replaced.get (h : Replaced r m n) : outcome (get r.taskId) n = some (saved r) := by
  obtain ⟨there, short, rfl⟩ := h
  rw [outcome_get, Memory.read, if_neg (Nat.not_lt.mpr short), find?_put there, if_pos rfl]
  rfl

end Replaced

/-- Only files of results are listed. -/
theorem isResultName_of_names {listed : List String} (lists : Gives m names listed n) {name : String}
    (mem : name ∈ listed) : isResultName name = true := by
  cases found : m.nodes? with
  | none =>
    have told : m.answer .names = (.error m.fault, m) := by simp only [answer, found]
    cases lists.symm.trans (run_names told)
  | some nodes =>
    have told : m.answer .names = (.ok nodes.keys, m) := by simp only [answer, found]
    cases lists.symm.trans (run_names told)
    exact (List.mem_filter.mp (List.mem_mergeSort.mp mem)).2

/-- An id leads to no file but its own. -/
theorem get_spares {id name : String} (other : name ≠ nameOf id) :
    (get id).run.Keeps (fun _ (q : Ask) => name ∉ q.named) (fun _ _ => True) [] := by
  refine ⟨by simpa [Ask.named] using other, fun found => ?_⟩
  rcases found with detail | _ | bytes
  · trivial
  · trivial
  · simp only [Program.bind, Program.pure_eq, ExceptT.bindCont]
    cases TaskResult.decoder.ofBytes bytes <;> trivial

/-- Wherever a save is stopped, whether a step of it fails or the program ends there: for its task
one finds what was found before or what was to be saved, and all other results and the rest of the
listing are as they were. After a failure all is as it was. Temporary files are not listed, and no
id leads to one. -/
theorem save_is_atomic (m : Memory) (r : TaskResult) :
    (∀ n, Stops m (save r).run n → Alike [r.taskId] m n ∧
      (outcome (get r.taskId) n = outcome (get r.taskId) m ∨
        outcome (get r.taskId) n = some (saved r))) ∧
    (∀ n e, Course m (save r).run n (.done (.error e)) → Alike [] m n) ∧
    (∀ n, Course m (save r).run n (.done (.ok ())) → outcome (get r.taskId) n = some (saved r)) ∧
    (r.Plain Json.maxNesting → saved r = .ok (some r)) ∧
    ∀ random, (∀ n listed, Gives n names listed n → temporary random ∉ listed) ∧
      ∀ id, (get id).run.Keeps (fun _ (q : Ask) => temporary random ∉ q.named) (fun _ _ => True) [] := by
  have safe := save_safe m r
  refine ⟨fun n stops => ?_, fun n e course => (safe.of_end course).alike [],
    fun n course => (safe.of_end course).get,
    fun plain => understood_of_ok (TaskResult.ofBytes_document plain), fun random => ⟨?_, ?_⟩⟩
  · rcases safe.of_stops stops with littered | replaced
    · exact ⟨littered.alike _, .inl ((littered.alike []).get _ List.not_mem_nil)⟩
    · exact ⟨replaced.alike, .inr replaced.get⟩
  · exact fun n listed lists mem =>
      nomatch (isResultName_temporary random).symm.trans (isResultName_of_names lists mem)
  · exact fun id => get_spares (temporary_ne_nameOf random id)

private def oak (rings : Int) : TaskResult where
  taskId := "oak"
  kind := none
  status := .ok
  data := [("rings", .int rings)]
  createdAt := .epoch
  attemptsUsed := 0

/-- Holds the first result already. -/
private def grove : Memory := { place := .directory [(nameOf "oak", .file (document (oak 1)))] }

private theorem plain_oak : (oak 2).Plain Json.maxNesting := by
  have wide : Json.Wide 2 := by decide
  refine ⟨⟨List.pairwise_singleton _ _, wide, trivial⟩, ?_⟩
  rw [TaskResult.nesting_toJson]
  simp [oak, Json.nesting, Json.nestingMembers, Json.maxNesting]

/-- The disk may be full when the document is written, or the program may end after nine bytes. -/
theorem oak_is_whole :
    (∃ n, Stops grove (save (oak 2)).run n ∧
      n.find? (temporary "sap") = some (.file ((document (oak 2)).take 9)) ∧
      Alike ["oak"] grove n) ∧
    (∃ n, Course grove (save (oak 2)).run n (.done (.error (.io "full"))) ∧
      outcome (get "oak") n = outcome (get "oak") grove) ∧
    ∃ n, Course grove (save (oak 2)).run n (.done (.ok ())) ∧
      outcome (get "oak") n = some (.ok (some (oak 2))) := by
  obtain ⟨stopped, failed, done, plain, -⟩ := save_is_atomic grove (oak 2)
  have opened : Fares grove .openTemporary (.ok (temporary "sap")) _ := .opened rfl rfl
  have begun : Course grove (save (oak 2)).run _
      (.ask (.write (temporary "sap") (document (oak 2))) _) := .step .start opened
  have cut : Stops grove (save (oak 2)).run _ := .writing begun (List.take_prefix 9 _)
  have unwritten := Course.step begun (.failed _ "full")
  have full : Course grove (save (oak 2)).run _ (.done (.error (.io "full"))) :=
    Course.step unwritten (.done nofun)
  have whole : Course grove (save (oak 2)).run _ (.done (.ok ())) :=
    .step (.step (.step begun (.done nofun)) (.done nofun)) (.done nofun)
  refine ⟨⟨_, cut, ?_, (stopped _ cut).1⟩, ⟨_, full, (failed _ _ full).get _ List.not_mem_nil⟩,
    ⟨_, whole, (done _ whole).trans (congrArg some (plain plain_oak))⟩⟩
  rw [find?_put rfl, if_pos rfl]

end Files

end ClaimQueue
