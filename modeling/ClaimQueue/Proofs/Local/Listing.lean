import ClaimQueue.Proofs.Agreement.Calls
import ClaimQueue.Proofs.Task.Latest

/-! The results that a queue in memory lists. The ids are those it held at the beginning, each is
looked up when its turn comes, and results of other kinds are passed over. -/

namespace ClaimQueue

namespace LocalQueue

open Agreement TaskResult

variable {policy : RetryPolicy} {around : Surroundings} {now : Instant} {kind : Option TaskKind}
  {q : LocalQueue} {id : String} {ids : List String} {rs : List TaskResult}

/-- What is found under these ids, of the kind asked for. -/
def chosen (kind : Option TaskKind) (q : LocalQueue) (ids : List String) : List TaskResult :=
  ids.filterMap fun id => (q.result? id).filter (·.matchesKind kind)

theorem chosen_of_passed (nothing : (q.result? id).filter (·.matchesKind kind) = none) :
    chosen kind q (id :: ids) = chosen kind q ids := by
  simp [chosen, nothing]

/-- What is left of a listing in a queue that stays as it is. -/
def Left (kind : Option TaskKind) (q : LocalQueue) (ids : List String) (r : LocalQueue)
    (found : List TaskResult) : Prop :=
  r = q ∧ found = chosen kind q ids

theorem run_nextResult (policy : RetryPolicy) (around : Surroundings) (now : Instant)
    (kind : Option TaskKind) (q : LocalQueue) (ids : List String) : ∃ next,
    (Calls.nextResult kind ids).run (surroundings policy now around) q = (some next, q) ∧
      Program.Draws (Left kind q) q (chosen kind q ids) next q := by
  induction ids with
  | nil => exact ⟨none, rfl, .nothing⟩
  | cons id ids ih =>
    rw [Calls.nextResult, run_access_bind]
    simp only [Access.perform]
    cases found : q.result? id with
    | none =>
      rw [chosen_of_passed (by rw [found]; rfl)]
      exact ih
    | some r =>
      by_cases matching : r.matchesKind kind = true
      · have picked : (q.result? id).filter (·.matchesKind kind) = some r := by simp [found, matching]
        have first : chosen kind q (id :: ids) = r :: chosen kind q ids :=
          List.filterMap_cons_some picked
        simp only [matching, if_true]
        rw [first]
        exact ⟨some (r, ids), rfl, .item ⟨rfl, rfl⟩⟩
      · simp only [matching]
        rw [chosen_of_passed (by simp [found, matching])]
        exact ih

/-- Nothing that is found is left out. -/
theorem results_eq (kind : Option TaskKind) (ids : List String) : Calls.results kind ids =
    Program.loop (Program.gatherRound (Calls.nextResult kind) fun _ => true) (ids.length + 1)
      (ids, []) := by
  refine congrArg (fun round => Program.loop round (ids.length + 1) (ids, [])) (funext fun x => ?_)
  refine congrArg (Program.bind (Calls.nextResult kind x.1)) (funext fun next => ?_)
  cases next <;> rfl

theorem run_results (kind : Option TaskKind) (q : LocalQueue) (ids : List String) :
    (Calls.results kind ids).run (surroundings policy now around) q =
      (some (chosen kind q ids), q) := by
  have draw : ∀ left r found, Left kind q left r found → ∃ next after,
      (Calls.nextResult kind left).run (surroundings policy now around) r = (some next, after) ∧
        Program.Draws (Left kind q) q found next after := by
    rintro left r found ⟨rfl, rfl⟩
    obtain ⟨next, run, drawn⟩ := run_nextResult policy around now kind r left
    exact ⟨next, r, run, drawn⟩
  have few : (chosen kind q ids).length < ids.length + 1 :=
    Nat.lt_succ_of_le (List.length_filterMap_le _ _)
  have all : (chosen kind q ids).filter (fun _ => true) = chosen kind q ids :=
    List.filter_eq_self.mpr fun _ _ => rfl
  have gathered := Program.run_gather draw (fun _ => true) ⟨rfl, rfl⟩ few []
  rw [all] at gathered
  rw [results_eq]
  exact gathered

theorem run_saves (rs : List TaskResult) (q : LocalQueue) :
    (rs.forM Calls.save).run (surroundings policy now around) q =
      (some (), { q with
        results := rs.foldl (fun index r => Index.put r.taskId r index) q.results }) := by
  induction rs generalizing q with
  | nil => rfl
  | cons r rs ih => exact ih (q.save r)

/-- Every id is found again, in the index the ids were taken from. -/
theorem chosen_keys (kind : Option TaskKind) (q : LocalQueue) (ascending : q.results.Ascending) :
    chosen kind q q.results.keys = (q.results.map Prod.snd).filter (·.matchesKind kind) := by
  rw [chosen, Index.keys, List.filterMap_map, ← List.filterMap_eq_filter, List.filterMap_map]
  refine List.filterMap_congr fun e mem => ?_
  have found : q.result? e.1 = some e.2 := (Index.mem_iff_find? ascending).mp mem
  simp [found, Option.filter, Option.guard]

theorem lists_latest (rs : List TaskResult) (kind : Option TaskKind) (empty : q.results = []) :
    ∃ r, (rs.forM Calls.save).run (surroundings policy now around) q = (some (), r) ∧
      ∀ rounds, ((Undertaking.list kind).work rounds).run (surroundings policy now around) r =
        (some ((latest rs).filter (·.matchesKind kind)), r) := by
  refine ⟨_, run_saves rs q, fun rounds => ?_⟩
  have results : rs.foldl (fun index r => Index.put r.taskId r index) q.results = kept id id rs := by
    rw [empty, ← foldl_put]
    rfl
  rw [results]
  refine (run_results kind _ _).trans ?_
  have chosen := chosen_keys kind { q with results := kept id id rs } kept_ascending
  exact congrArg (fun found => (some found, _)) chosen

end LocalQueue

end ClaimQueue
