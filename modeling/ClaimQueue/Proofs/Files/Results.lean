import ClaimQueue.Files.Results
import ClaimQueue.Proofs.Broker.Answers
import ClaimQueue.Proofs.Json.Depth

/-! A result in a directory. What was saved is found again, and it is the result that a broker gives
out: the broker holds its compact text and the directory the text over several lines, and both read
back as the result that was written. -/

namespace ClaimQueue

open Json

namespace TaskResult

/-- The text over several lines. -/
theorem ofBytes_document {r : TaskResult} (h : r.Plain maxNesting) :
    decoder.ofBytes (Files.document r) = .ok r :=
  (decoder.ofBytes_bytes _).trans h.reads.ofText_pretty

end TaskResult

namespace Files

open Memory

variable {α β : Type} {m n k : Memory}

/-- Carried out in the directory `m`, the job succeeds with `a` and leaves `n`. -/
def Gives (m : Memory) (j : Job α) (a : α) (n : Memory) : Prop :=
  j.run.run answer m = (some (.ok a), n)

theorem gives_pure (a : α) : Gives m (pure a : Job α) a m := rfl

theorem Gives.bind {j : Job α} {f : α → Job β} {a : α} {b : β} (h : Gives m j a n)
    (more : Gives n (f a) b k) : Gives m (j >>= f) b k :=
  (Program.run_bind_of_some h).trans more

theorem gives_must {p : Program asks (Except String α)} {a : α}
    (h : p.run answer m = (some (.ok a), n)) : Gives m (must p) a n :=
  Program.run_bind_of_some h

theorem run_ask (q : Ask) (m : Memory) :
    (ask q).run answer m = (some (m.answer q).1, (m.answer q).2) :=
  rfl

/-- A job of which only the outcome counts. -/
theorem gives_lift {j : Job α} {a : α} (h : Gives m j a n) :
    Gives m (ExceptT.lift j.run) (.ok a) n :=
  Program.run_bind_of_some h

theorem find?_put {name other : String} {node : Node} (there : m.nodes?.isSome) :
    (m.put name node).find? other = if name = other then some node else m.find? other := by
  obtain ⟨place, fault, opened⟩ := m
  cases place with
  | vacant | occupied => cases there
  | directory nodes => exact Index.find?_put other name node nodes

theorem isSome_nodes?_put (name : String) (node : Node) :
    (m.put name node).nodes?.isSome = m.nodes?.isSome := by
  obtain ⟨place, fault, opened⟩ := m
  cases place <;> rfl

theorem isSome_nodes?_erase (name : String) : (m.erase name).nodes?.isSome = m.nodes?.isSome := by
  obtain ⟨place, fault, opened⟩ := m
  cases place <;> rfl

/-- The name of a temporary file, whatever makes it new. -/
def temporary (random : String) : String := ".result-" ++ random ++ ".tmp"

/-- A temporary file is no result. -/
theorem temporary_ne_nameOf (random id : String) : temporary random ≠ nameOf id := by
  intro same
  have last := congrArg (fun s => s.toList.reverse.head?) same
  simp [temporary, nameOf, suffix] at last

theorem temporaryName_ne_nameOf (i : Nat) (id : String) : temporaryName i ≠ nameOf id :=
  temporary_ne_nameOf (toString i) id

/-- The directory is there, and the result of a task can be put into it. -/
structure Takes (m : Memory) (id : String) : Prop where
  there : m.nodes?.isSome
  short : (nameOf id).utf8ByteSize ≤ nameLimit
  free : m.find? (nameOf id) ≠ some .folder

/-- A temporary file leaves all others as they are. -/
theorem gives_openTemporary (there : m.nodes?.isSome) :
    ∃ n, Gives m (must (ask .openTemporary)) (temporaryName m.opened) n ∧ n.nodes?.isSome ∧
      ∀ name, temporaryName m.opened ≠ name → n.find? name = m.find? name := by
  obtain ⟨place, fault, opened⟩ := m
  cases place with
  | vacant | occupied => cases there
  | directory nodes =>
    refine ⟨_, gives_must rfl, rfl, fun name different => ?_⟩
    exact (Index.find?_put name _ _ nodes).trans (if_neg different)

/-- Written, and put in the place of the result before. -/
theorem gives_fill {temporary target : String} (bytes : List UInt8) (there : m.nodes?.isSome)
    (different : temporary ≠ target) (free : m.find? target ≠ some .folder)
    (short : target.utf8ByteSize ≤ nameLimit) :
    ∃ n, Gives m (fill temporary target bytes) () n ∧ n.find? target = some (.file bytes) := by
  let written := m.put temporary (.file bytes)
  let renamed := (written.erase temporary).put target (.file bytes)
  have found : written.find? temporary = some (.file bytes) := by
    rw [find?_put there, if_pos rfl]
  have free : written.find? target ≠ some .folder := by
    rwa [find?_put there, if_neg different]
  have rename : Gives written (must (ask (.rename temporary target))) () renamed := by
    refine gives_must ((run_ask _ _).trans ?_)
    rw [answer, Memory.rename, found]
    simp only [free, Nat.not_lt.mpr short, or_self, if_false, renamed]
  refine ⟨renamed, (gives_must rfl).bind ((gives_must rfl).bind rename), ?_⟩
  have there : (written.erase temporary).nodes?.isSome :=
    (isSome_nodes?_erase _).trans ((isSome_nodes?_put _ _).trans there)
  rw [find?_put there, if_pos rfl]

theorem gives_save {r : TaskResult} (h : Takes m r.taskId) :
    ∃ n, Gives m (save r) () n ∧ n.find? (nameOf r.taskId) = some (.file (document r)) := by
  obtain ⟨opened, openTemporary, there, others⟩ := gives_openTemporary h.there
  have different := temporaryName_ne_nameOf m.opened r.taskId
  have free : opened.find? (nameOf r.taskId) ≠ some .folder := by
    rw [others _ different]
    exact h.free
  obtain ⟨filled, fill, found⟩ := gives_fill (document r) there different free h.short
  exact ⟨filled, openTemporary.bind ((gives_lift fill).bind (gives_pure ())), found⟩

theorem gives_get {r : TaskResult} (h : r.Plain maxNesting)
    (short : (nameOf r.taskId).utf8ByteSize ≤ nameLimit)
    (found : m.find? (nameOf r.taskId) = some (.file (document r))) :
    Gives m (get r.taskId) (some r) m := by
  have bytes : Gives m (must (ask (.read (nameOf r.taskId)))) (some (document r)) m := by
    refine gives_must ((run_ask _ _).trans ?_)
    rw [answer, Memory.read, if_neg (Nat.not_lt.mpr short), found]
  refine bytes.bind ?_
  simp only [TaskResult.ofBytes_document h]
  exact gives_pure _

/-- The two texts of a result mean the same. What a broker stored it gives out as it was written,
and what was exported into a directory is found there as the same result, with its error message and
its wish for another attempt. -/
theorem exported_result_reads_alike {r : TaskResult} (plain : r.Plain maxNesting) :
    TaskResult.ofBytes (Text.Utf8.bytes r.encoded) = .ok r ∧
    TaskResult.decoder.ofBytes (document r) = .ok r ∧
    ∀ (s : Broker.Settings) (w : Broker.Server) (m : Memory), Takes m r.taskId →
      ∃ v n, Broker.Job.Gives s w (Broker.Results.save r) () v ∧
        Broker.Job.Gives s v (Broker.Results.get r.taskId) (some r) v ∧
        Gives m (save r) () n ∧ Gives n (get r.taskId) (some r) n := by
  refine ⟨TaskResult.ofBytes_encoded plain, TaskResult.ofBytes_document plain, fun s w m takes => ?_⟩
  let v : Broker.Server :=
    { w with results := Index.put r.taskId (Text.Utf8.bytes r.encoded) w.results }
  have stored : Index.find? r.taskId v.results = some (Text.Utf8.bytes r.encoded) := by
    rw [Index.find?_put, if_pos rfl]
  obtain ⟨n, saved, found⟩ := gives_save takes
  exact ⟨v, n, rfl, Broker.gives_get plain stored, saved, gives_get plain takes.short found⟩

/-- A result of unknown kind that asks for another attempt, at the full depth. -/
private def beacon : TaskResult where
  taskId := "beacon/\x00\u2028"
  kind := none
  status := .error
  data := [("error", .string "\x1b[0m\n"), ("n", .array [.int (-(2 ^ 63)), .int (2 ^ 64 - 1)]),
    ("retryable", .bool true), ("tail", brackets 125)]
  createdAt := .epoch
  attemptsUsed := 7

private theorem plain_beacon : beacon.Plain maxNesting := by
  have ascending : ["error", "n", "retryable", "tail"].Pairwise (· < ·) := by decide
  have least : Wide (-(2 ^ 63)) := by decide
  have most : Wide (2 ^ 64 - 1) := by decide
  refine ⟨⟨ascending, trivial, ⟨least, most, trivial⟩, trivial, plain_brackets 125, trivial⟩, ?_⟩
  rw [TaskResult.nesting_toJson]
  simp [beacon, nesting, nestingMembers, nestingItems, maxNesting]

theorem exported_beacon : beacon.Plain maxNesting ∧
    TaskResult.ofBytes (Text.Utf8.bytes beacon.encoded) = .ok beacon ∧
    TaskResult.decoder.ofBytes (document beacon) = .ok beacon ∧
    ∃ v n, Broker.Job.Gives ⟨"", "", "", "reader", {}, ⟨0⟩⟩ { clock := .epoch }
        (Broker.Results.save beacon) () v ∧
      Broker.Job.Gives ⟨"", "", "", "reader", {}, ⟨0⟩⟩ v (Broker.Results.get beacon.taskId)
        (some beacon) v ∧
      Gives { place := .directory [] } (save beacon) () n ∧
      Gives n (get beacon.taskId) (some beacon) n :=
  have whole := exported_result_reads_alike plain_beacon
  have takes : Takes { place := .directory [] } beacon.taskId := ⟨rfl, by decide, by decide⟩
  ⟨plain_beacon, whole.1, whole.2.1, whole.2.2 _ _ _ takes⟩

end Files

end ClaimQueue
