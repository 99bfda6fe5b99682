import ClaimQueue.Proofs.Broker.Listing
import ClaimQueue.Proofs.Files.Listing
import ClaimQueue.Proofs.Local.Listing

/-! What the three stores list of results that were saved one after the other. -/

namespace ClaimQueue

namespace Agreement

open TaskResult

variable {rs : List TaskResult} {kind : Option TaskKind}
  {items : List (Except StoreError TaskResult)}

theorem listed_wanted (perm : items.Perm (((latest rs).filter (·.matchesKind kind)).map .ok)) :
    Listed (Wanted rs kind) items := by
  have same : (fun r => Latest rs r ∧ r.matchesKind kind = true) = Wanted rs kind :=
    funext fun r => by rw [Wanted, matchesKind_iff]
  exact same ▸ listed_of_perm perm

theorem listed_named
    (perm : items.Perm
      (((latest rs).filter fun r => r.matchesKind kind && r.taskId != "").map .ok)) :
    Listed (fun r => Wanted rs kind r ∧ r.taskId ≠ "") items := by
  have listed := listed_of_perm perm
  simpa only [Wanted, Bool.and_eq_true, matchesKind_iff, bne_iff_ne, ← and_assoc] using listed

/-- Results are listed once for each task, as they were saved last, in memory and by a broker whose
scan reports every field. A directory lists all but the one of the empty id, so it lists all exactly
if there is none. -/
theorem stores_list_latest (rs : List TaskResult) (plain : ∀ r ∈ rs, r.Plain Json.maxNesting)
    (kind : Option TaskKind) :
    (∀ policy now around rounds (q : LocalQueue), q.results = [] → ∃ r found,
      (rs.forM LocalQueue.Calls.save).run (surroundings policy now around) q = (some (), r) ∧
      ((LocalQueue.Undertaking.list kind).work rounds).run (surroundings policy now around) r =
        (some found, r) ∧
      Listed (Wanted rs kind) (found.map .ok)) ∧
    (∀ s (w : Broker.Server), w.results = [] → ∃ v,
      Broker.Job.Gives s w (rs.forM Broker.Results.save) () v ∧
      ∀ rounds script fields, Broker.Reports script fields none →
        (∀ f, f ∈ fields ↔ f ∈ v.results) → script.length + fields.length < rounds → ∃ found,
        (Broker.Results.list rounds kind).run (Broker.Server.scripted s) (v, script) =
          (some found, (v, [])) ∧
        Listed (Wanted rs kind) found) ∧
    ∀ m : Files.Memory, m.place = .vacant → ∃ n listed found,
      Files.Keeps m (do Files.prepare; rs.forM Files.save) () n ∧
      Files.Keeps n Files.names listed n ∧
      (Files.items kind listed).run Files.Memory.answerAny n = (some found, n) ∧
      Listed (fun r => Wanted rs kind r ∧ r.taskId ≠ "") found ∧
      (Listed (Wanted rs kind) found ↔ ∀ r, Wanted rs kind r → r.taskId ≠ "") := by
  refine ⟨fun policy now around rounds q empty => ?_, fun s w empty => ?_, fun m vacant => ?_⟩
  · obtain ⟨r, saved, listed⟩ := LocalQueue.lists_latest rs kind empty
    exact ⟨r, _, saved, listed rounds, listed_wanted (.refl _)⟩
  · obtain ⟨v, saved, listed⟩ := Broker.Results.lists_latest s plain kind empty
    refine ⟨v, saved, fun rounds script fields reports all enough => ?_⟩
    obtain ⟨found, run, perm⟩ := listed rounds script fields reports all enough
    exact ⟨found, run, listed_wanted perm⟩
  · obtain ⟨n, listed, found, saved, named, run, perm⟩ := Files.lists_latest plain kind vacant
    have named' := listed_named perm
    refine ⟨n, listed, found, saved, named, run, named', fun all r wanted => ?_, fun all => ?_⟩
    · obtain ⟨x, may, same⟩ := (named'.whole _).mp ((all.whole (.ok r)).mpr ⟨r, wanted, rfl⟩)
      cases same
      exact may.2
    · refine ⟨named'.once, fun i => (named'.whole i).trans ?_⟩
      refine exists_congr fun r => and_congr_left fun _ => ?_
      exact ⟨And.left, fun wanted => ⟨wanted, all r wanted⟩⟩

/-- Two results for one task, of different kinds, and one without an id. -/
private def purse : List TaskResult := [
  ⟨"tuppence", some .execute, .error, [], .epoch, 1⟩, ⟨"", some .mutate, .ok, [], .epoch, 1⟩,
  ⟨"tuppence", some .mutate, .ok, [], .epoch, 2⟩]

private theorem plain_purse : ∀ r ∈ purse, r.Plain Json.maxNesting := by
  have flat (r : TaskResult) (empty : r.data = []) : r.Plain Json.maxNesting := by
    refine ⟨?_, ?_⟩
    · rw [empty]
      exact ⟨.nil, trivial⟩
    · rw [nesting_toJson, empty]
      decide
  intro r mem
  refine flat r ?_
  simp only [purse, List.mem_cons, List.not_mem_nil, or_false] at mem
  rcases mem with rfl | rfl | rfl <;> rfl

private theorem nameless_wanted : Wanted purse none ⟨"", some .mutate, .ok, [], .epoch, 1⟩ := by
  refine ⟨⟨[_], [_], rfl, fun x mem => ?_⟩, nofun⟩
  rw [List.mem_singleton.mp mem]
  decide

private def soundless : LocalQueue.Surroundings
  | .access a => (a.perform {} .epoch {}).1
  | .clock => .epoch
  | .elapsed => ⟨0⟩
  | .ring | .announce => ()
  | .announced => (0 : Nat)
  | .attend _ | .attendResult _ _ => false

private def teller : Broker.Settings := { consumer := "a" }

theorem stores_list_purse :
    (∃ r found, (purse.forM LocalQueue.Calls.save).run (surroundings {} .epoch soundless) {} =
        (some (), r) ∧
      ((LocalQueue.Undertaking.list none).work 0).run (surroundings {} .epoch soundless) r =
        (some found, r) ∧
      Listed (Wanted purse none) (found.map .ok)) ∧
    (∃ v rounds script found,
      Broker.Job.Gives teller { clock := .epoch } (purse.forM Broker.Results.save) () v ∧
      (Broker.Results.list rounds none).run (Broker.Server.scripted teller) (v, script) =
        (some found, (v, [])) ∧
      Listed (Wanted purse none) found) ∧
    ∃ n listed found, Files.Keeps {} (do Files.prepare; purse.forM Files.save) () n ∧
      Files.Keeps n Files.names listed n ∧
      (Files.items none listed).run Files.Memory.answerAny n = (some found, n) ∧
      Listed (fun r => Wanted purse none r ∧ r.taskId ≠ "") found ∧
      ¬ Listed (Wanted purse none) found := by
  obtain ⟨memory, broker, directory⟩ := stores_list_latest purse plain_purse none
  refine ⟨memory {} .epoch soundless 0 {} rfl, ?_, ?_⟩
  · obtain ⟨v, saved, listed⟩ := broker teller { clock := .epoch } rfl
    obtain ⟨reply, -, reports⟩ := Broker.scan_reports_all teller v 0
    obtain ⟨found, run, all⟩ := listed _ _ _ reports (fun _ => .rfl) (Nat.lt_succ_self _)
    exact ⟨v, _, _, found, saved, run, all⟩
  · obtain ⟨n, listed, found, saved, named, run, some, all⟩ := directory {} rfl
    exact ⟨n, listed, found, saved, named, run, some, fun whole =>
      all.mp whole _ nameless_wanted rfl⟩

/-- The file of the empty id is there, but it is not listed. -/
theorem directory_hides_nameless :
    ¬ ∀ rs : List TaskResult, (∀ r ∈ rs, r.Plain Json.maxNesting) → ∀ (kind : Option TaskKind)
      (m n : Files.Memory) (listed : List String) (found : List (Except StoreError TaskResult)),
      m.place = .vacant → Files.Keeps m (do Files.prepare; rs.forM Files.save) () n →
      Files.Keeps n Files.names listed n →
      (Files.items kind listed).run Files.Memory.answerAny n = (some found, n) →
      Listed (Wanted rs kind) found := by
  intro claim
  obtain ⟨n, listed, found, saved, named, run, perm⟩ :=
    Files.lists_latest (m := {}) plain_purse none rfl
  have whole := claim purse plain_purse none {} n listed found rfl saved named run
  have there := (whole.whole _).mpr ⟨_, nameless_wanted, rfl⟩
  obtain ⟨r, hidden, same⟩ := ((listed_named perm).whole _).mp there
  cases same
  exact hidden.2 rfl

end Agreement

end ClaimQueue
