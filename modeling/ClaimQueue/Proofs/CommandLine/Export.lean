import ClaimQueue.CommandLine.Errand
import ClaimQueue.Proofs.Broker.Listing
import ClaimQueue.Proofs.Files.Copies
import ClaimQueue.Proofs.Task.Legible

/-! Exports. What is copied into the directory are the results that the broker reported, and the exit
status tells how that went. Whether the broker had more to report when the scan broke off makes no
difference to either. -/

namespace ClaimQueue

namespace CommandLine

open Broker Files
open Broker.Results (Scan Item)

variable {D α : Type} {s : Settings} {disk : Disk D} {directory : String}
  {rest : (q : Ask) → q.Answer} {b : Server × Script} {w : Server} {script : Script}
  {fields : Fields} {fault : Option StoreError} {kind : Option TaskKind} {rounds : Nat} {d e : D}

/-- Surroundings with a broker that follows a script when its results are scanned, and with one
directory. Whatever else is asked gets some answer. -/
def station (s : Settings) (disk : Disk D) (directory : String) (rest : (q : Ask) → q.Answer)
    (q : Ask) (x : (Server × Script) × D) : q.Answer × ((Server × Script) × D) :=
  match q with
  | .broker q => ((Server.scripted s q x.1).1, ((Server.scripted s q x.1).2, x.2))
  | .files name q =>
    if name = directory then ((disk.answer q x.2).1, (x.1, (disk.answer q x.2).2))
    else (rest (.files name q), x)
  | q => (rest q, x)

/-! The parts of the surroundings. -/

theorem run_onBroker {p : Program Broker.asks α} {a : α} {b' : Server × Script}
    (ran : p.run (Server.scripted s) b = (some a, b')) :
    (onBroker p).run (station s disk directory rest) (b, d) = (some a, (b', d)) := by
  have each (q : Broker.Ask) (b : Server × Script) :
      (ask (.broker q)).run (station s disk directory rest) (b, d) =
        (some (Server.scripted s q b).1, ((Server.scripted s q b).2, d)) := rfl
  have lowered := Program.run_lower each p b
  rw [ran] at lowered
  exact lowered

theorem run_inDirectory {j : Files.Job α} {a : Except StoreError α}
    (ran : j.run.run disk.answer d = (some a, e)) :
    (inDirectory directory j).run.run (station s disk directory rest) (b, d) =
      (some (a.mapError .store), (b, e)) := by
  have each (q : Files.Ask) (d : D) : (ask (.files directory q)).run
      (station s disk directory rest) (b, d) = (some (disk.answer q d).1, (b, (disk.answer q d).2)) := by
    show (some (station s disk directory rest (.files directory q) (b, d)).1, _) = _
    simp [station]
  have lowered := Program.run_lower each j.run d
  rw [ran] at lowered
  refine (Program.run_bind_of_some lowered).trans ?_
  cases a <;> rfl

theorem run_connect (o : BrokerOptions) : ∃ used,
    (Errand.connect o none).run.run (station s disk directory rest) ((w, script), d) =
      (some (.ok used), ((w.createGroup.2, script), d)) := by
  let used := Errand.settings o (rest .processName)
  have connected : (Calls.connect used).run.run (Server.scripted s) (w, script) =
      (some (.ok ()), (w.createGroup.2, script)) := by
    obtain ⟨grouped⟩ := w
    cases grouped <;> rfl
  exact ⟨used, Program.run_lift_bind (run_onBroker connected)⟩

/-! The loop. -/

/-- What an export copies of the items of a listing: what can be read and is of the kind asked for. -/
def copied (kind : Option TaskKind) : Item → Option TaskResult
  | .ok r => if r.matchesKind kind then some r else none
  | .error _ => none

theorem copied_eq_some {i : Item} {r : TaskResult} :
    copied kind i = some r ↔ i = .ok r ∧ r.matchesKind kind = true := by
  cases i with
  | error e => simp [copied]
  | ok x =>
    simp only [copied, Option.ite_none_right_eq_some, Option.some.injEq, Except.ok.injEq]
    constructor
    · rintro ⟨wanted, rfl⟩
      exact ⟨rfl, wanted⟩
    · rintro ⟨rfl, wanted⟩
      exact ⟨wanted, rfl⟩

/-- The results that an export copies, of the fields that were reported and in their order. -/
def reported (kind : Option TaskKind) (fields : Fields) : List TaskResult :=
  (firsts [] fields).filterMap fun f => copied kind (storedResult f.2)

/-- How the scan ended makes no difference. -/
theorem copied_listedOf (kind : Option TaskKind) (fields : Fields) (fault : Option StoreError) :
    (Broker.listedOf fields fault).filterMap (copied kind) = reported kind fields := by
  rw [Broker.listedOf, List.filterMap_append, List.filterMap_map]
  cases fault <;> simp [reported, copied, Function.comp_def]

section

variable {scan next : Scan} {b' : Server × Script} {item : Item}

theorem run_exportRound_of_end
    (ended : (scan.next rounds).run (Server.scripted s) b = (some none, b')) :
    (Errand.exportRound rounds directory kind scan).run.run (station s disk directory rest) (b, d) =
      (some (.ok (.inr ())), (b', d)) :=
  Program.run_lift_bind (run_onBroker ended)

/-- An item of which there is nothing to copy. -/
theorem run_exportRound_of_none (nothing : copied kind item = none)
    (found : (scan.next rounds).run (Server.scripted s) b = (some (some (item, next)), b')) :
    (Errand.exportRound rounds directory kind scan).run.run (station s disk directory rest) (b, d) =
      (some (.ok (.inl next)), (b', d)) := by
  refine (Program.run_lift_bind (run_onBroker found)).trans ?_
  cases item with
  | error e => rfl
  | ok r =>
    have other : r.matchesKind kind = false := by simpa [copied] using nothing
    simp only [other]
    rfl

theorem run_exportRound_of_some {r : TaskResult} {a : Except StoreError Unit}
    (wanted : copied kind item = some r)
    (found : (scan.next rounds).run (Server.scripted s) b = (some (some (item, next)), b'))
    (ran : (save r).run.run disk.answer d = (some a, e)) :
    (Errand.exportRound rounds directory kind scan).run.run (station s disk directory rest) (b, d) =
      (some ((a.mapError .store).map fun _ => .inl next), (b', e)) := by
  refine (Program.run_lift_bind (run_onBroker found)).trans ?_
  obtain ⟨rfl, same⟩ := copied_eq_some.mp wanted
  simp only [same]
  cases a with
  | error fault => exact Program.run_bind_of_error (run_inDirectory ran)
  | ok => exact Program.run_bind_of_ok (run_inDirectory ran)

/-- The rounds copy what is left of the listing, until a copy fails. -/
theorem run_rounds {most n : Nat} {items : List Item} {a : Except StoreError Unit}
    (left : Scan.Left w most scan b items) (enough : items.length < n) (short : most < rounds)
    (ran : ((items.filterMap (copied kind)).forM save).run.run disk.answer d = (some a, e)) : ∃ v,
    (Program.tryLoop (Errand.exportRound rounds directory kind) n scan).run.run
      (station s disk directory rest) (b, d) = (some (a.mapError Error.store), (v, e)) := by
  induction n generalizing scan b items d with
  | zero => exact absurd enough (Nat.not_lt_zero _)
  | succ n ih =>
    obtain ⟨ahead, few⟩ := left
    -- the scan changes the broker only, and the copy of its item the directory only
    obtain ⟨given, b', run, drawn⟩ := run_next s w ahead few (Nat.lt_of_le_of_lt few short)
    generalize Scan.items scan _ _ = items at drawn enough ran
    cases drawn with
    | nothing =>
      cases ran
      exact ⟨_, Program.run_tryLoop_of_end (run_exportRound_of_end run)⟩
    | @item i next _ items left =>
      have fewer := Nat.lt_of_succ_lt_succ enough
      cases found : copied kind i with
      | none =>
        rw [List.filterMap_cons_none found] at ran
        obtain ⟨v, rounds⟩ := ih left fewer ran
        exact ⟨v, (Program.run_tryLoop_of_next (run_exportRound_of_none found run)).trans rounds⟩
      | some r =>
        rw [List.filterMap_cons_some found] at ran
        obtain ⟨first, u, saved⟩ := (within_save r).run disk.answer d
        cases first with
        | error fault =>
          cases (Program.run_bind_of_error saved).symm.trans ran
          exact ⟨_, Program.run_tryLoop_of_error (run_exportRound_of_some found run saved)⟩
        | ok =>
          obtain ⟨v, rounds⟩ := ih left fewer ((Program.run_bind_of_ok saved).symm.trans ran)
          refine ⟨v, Eq.trans ?_ rounds⟩
          exact Program.run_tryLoop_of_next (run_exportRound_of_some found run saved)

end

/-- An export once it knows its kind. -/
theorem exportAll_eq (rounds : Nat) (broker : BrokerOptions) {o : ExportOptions}
    (named : o.kind.map TaskKind.ofText? = kind.map some) :
    Errand.exportAll rounds broker o = (do
      inDirectory o.directory prepare
      let _ ← Errand.connect broker none
      Program.tryLoop (Errand.exportRound rounds o.directory kind) rounds {}
      return 0) := by
  obtain ⟨directory, text⟩ := o
  cases text with
  | none =>
    cases kind with
    | none => rfl
    | some k => cases named
  | some text =>
    cases kind with
    | none => cases named
    | some k =>
      have known : TaskKind.ofText? text = some k := Option.some.inj named
      simp only [Errand.exportAll, Errand.kindOf, known]
      rfl

/-- An export ends as a copy of the reported results into the directory does. -/
theorem run_exportAll (s : Settings) (rest : (q : Ask) → q.Answer) (w : Server)
    (broker : BrokerOptions) {o : ExportOptions} {a : Except StoreError Unit}
    (named : o.kind.map TaskKind.ofText? = kind.map some) (reports : Reports script fields fault)
    (enough : script.length + fields.length < rounds)
    (ran : (copy (reported kind fields)).run.run disk.answer d = (some a, e)) : ∃ v,
    (Errand.exportAll rounds broker o).run.run (station s disk o.directory rest) ((w, script), d) =
      (some ((a.mapError Error.store).map fun _ => 0), (v, e)) := by
  rw [exportAll_eq rounds broker named]
  obtain ⟨made, u, prepared⟩ := within_prepare.run disk.answer d
  cases made with
  | error fault =>
    cases (Program.run_bind_of_error prepared).symm.trans ran
    exact ⟨_, Program.run_bind_of_error (run_inDirectory prepared)⟩
  | ok =>
    have saves := (Program.run_bind_of_ok prepared).symm.trans ran
    rw [← copied_listedOf kind fields fault] at saves
    obtain ⟨used, connected⟩ : ∃ used, (Errand.connect broker none).run.run
        (station s disk o.directory rest) ((w, script), u) =
        (some (.ok used), ((w.createGroup.2, script), u)) := run_connect broker
    have left := Scan.left_start w.createGroup.2 reports
    have short : script.length < rounds := by omega
    obtain ⟨v, looped⟩ := run_rounds left (length_listedOf_lt reports enough) short saves
    refine ⟨v, (Program.run_bind_of_ok (run_inDirectory prepared)).trans ?_⟩
    refine (Program.run_bind_of_ok connected).trans ?_
    cases a with
    | error fault => exact Program.run_bind_of_error looped
    | ok => exact Program.run_bind_of_ok looped

/-! What is found. -/

/-- The fields of these results are the ids of their documents, and their numbers are integers. -/
structure Consistent (results : Index (List UInt8)) : Prop where
  ascending : results.Ascending
  own : ∀ f ∈ results, ∀ r, storedResult f.2 = .ok r → r.taskId = f.1
  integral : ∀ f ∈ results, ∀ r, storedResult f.2 = .ok r → Json.Integral (.object r.data)

section

variable {results : Index (List UInt8)} {r : TaskResult} {f : String × List UInt8}

variable (consistent : Consistent results) (known : ∀ f ∈ fields, f ∈ results)
include consistent known

theorem mem_reported : r ∈ reported kind fields ↔
    ∃ f ∈ fields, storedResult f.2 = .ok r ∧ r.matchesKind kind = true := by
  have one : ∀ f ∈ fields, ∀ g ∈ fields, f.1 = g.1 → f = g := fun f mem g also =>
    consistent.ascending.eq_of_key (known f mem) (known g also)
  simp [reported, mem_firsts one, copied_eq_some]

/-- The last result that is copied under an id is the one that the broker has under it. -/
theorem last?_reported (mem : f ∈ results) :
    TaskResult.last? f.1 (reported kind fields) = some r ↔
      f ∈ fields ∧ storedResult f.2 = .ok r ∧ r.matchesKind kind = true := by
  have whose {x : TaskResult} (own : x.taskId = f.1) (copied : x ∈ reported kind fields) :
      f ∈ fields ∧ storedResult f.2 = .ok x ∧ x.matchesKind kind = true := by
    obtain ⟨g, inside, read, wanted⟩ := (mem_reported consistent known).mp copied
    have key : g.1 = f.1 := (consistent.own g (known g inside) x read).symm.trans own
    obtain rfl := consistent.ascending.eq_of_key (known g inside) mem key
    exact ⟨inside, read, wanted⟩
  constructor
  · intro last
    obtain ⟨own, latest⟩ := TaskResult.last?_eq_some_iff.mp last
    exact whose own latest.mem
  · rintro ⟨inside, read, wanted⟩
    have own := consistent.own f mem r read
    have copied := (mem_reported consistent known).mpr ⟨f, inside, read, wanted⟩
    cases last : TaskResult.last? f.1 (reported kind fields) with
    | none => exact absurd own (TaskResult.last?_eq_none_iff.mp last r copied)
    | some x =>
      obtain ⟨own', latest⟩ := TaskResult.last?_eq_some_iff.mp last
      have read' := (whose own' latest.mem).2.1
      rw [read] at read'
      cases read'
      rfl

end

/-- An export ends in the same way, whether the broker could report all of its results or the scan
broke off: it depends on the reported fields only. If it succeeds, then exactly those of the results
that can be read and are wanted are found that were reported, or were found before. -/
theorem export_finds_what_was_reported (s : Settings) (disk : Disk D) (rest : (q : Ask) → q.Answer)
    (d : D) (broker : BrokerOptions) (o : ExportOptions) (kind : Option TaskKind)
    (named : o.kind.map TaskKind.ofText? = kind.map some) (consistent : Consistent w.results)
    (known : ∀ f ∈ fields, f ∈ w.results) : ∃ exit e,
    (∀ rounds script fault, Reports script fields fault → script.length + fields.length < rounds →
      ∃ v, (Errand.exportAll rounds broker o).run.run (station s disk o.directory rest)
        ((w, script), d) = (some exit, (v, e))) ∧
    (exit = .ok 0 ↔ ((copy (reported kind fields)).run.run disk.answer d).1 = some (.ok ())) ∧
    (exit = .ok 0 → ∀ f ∈ w.results, ∀ r, storedResult f.2 = .ok r → r.matchesKind kind = true →
      (outcome (get f.1) (disk.view e) = some (.ok (some r)) ↔
        f ∈ fields ∨ outcome (get f.1) (disk.view d) = some (.ok (some r)))) := by
  obtain ⟨a, e, ran⟩ := (within_copy (reported kind fields)).run disk.answer d
  refine ⟨(a.mapError Error.store).map fun _ => 0, e, fun rounds script fault reports enough =>
    run_exportAll s rest w broker named reports enough ran, ?_, ?_⟩
  · cases a <;> simp [ran, Except.mapError, Except.map]
  · intro succeeds f mem r read wanted
    cases a with
    | error fault => cases succeeds
    | ok =>
      have found := disk.copy_found ran f.1
      cases last : TaskResult.last? f.1 (reported kind fields) with
      | none =>
        rw [last] at found
        have missing : f ∉ fields := fun inside =>
          nomatch last.symm.trans ((last?_reported consistent known mem).mpr ⟨inside, read, wanted⟩)
        simp [found, missing]
      | some x =>
        rw [last] at found
        obtain ⟨inside, read', -⟩ := (last?_reported consistent known mem).mp last
        rw [read] at read'
        cases read'
        have plain := TaskResult.plain_of_ofBytes (ofBytes_of_storedResult read)
          (consistent.integral f mem r read)
        have whole := understood_of_ok (TaskResult.ofBytes_document plain)
        simp [found, inside, saved, whole]

/-! A scan that breaks off after its first page. -/

private def fruit (id : String) : TaskResult where
  taskId := id
  kind := some .render
  status := .ok
  data := [("grams", .int 40)]
  createdAt := .epoch
  attemptsUsed := 1

private theorem plain_fruit (id : String) : (fruit id).Plain Json.maxNesting := by
  have wide : Json.Wide 40 := by decide
  refine ⟨⟨List.pairwise_singleton _ _, wide, trivial⟩, ?_⟩
  rw [TaskResult.nesting_toJson]
  simp [fruit, Json.nesting, Json.nestingMembers, Json.maxNesting]

private def basket (id : String) : String × List UInt8 := (id, Text.Utf8.bytes (fruit id).encoded)

private theorem storedResult_basket (id : String) : storedResult (basket id).2 = .ok (fruit id) := by
  rw [basket, storedResult_encoded (plain_fruit id)]

private def orchard : Server := { clock := .epoch, results := [basket "fig", basket "plum"] }

private theorem consistent_orchard : Consistent orchard.results where
  ascending := by
    have keys : ["fig", "plum"].Pairwise (· < ·) := by decide
    exact keys
  own f mem r read := by
    simp only [orchard, List.mem_cons, List.not_mem_nil, or_false] at mem
    rcases mem with rfl | rfl <;> cases (storedResult_basket _).symm.trans read <;> rfl
  integral f mem r read := by
    simp only [orchard, List.mem_cons, List.not_mem_nil, or_false] at mem
    rcases mem with rfl | rfl <;> cases (storedResult_basket _).symm.trans read <;>
      exact ⟨trivial, trivial⟩

private def page (cursor : String) (fields : Fields) : Except LinkFault Reply :=
  .ok (.list [Server.bulk cursor, .list (Server.fieldReplies fields)])

private def broken : Script := [page "7" [basket "fig"], .error (.lost "connection reset")]

private theorem reports_broken :
    Reports broken [basket "fig"] (some (.backend "connection reset")) :=
  .more (pageOf?_fieldReplies (n := 7) (by decide) _) (by decide) (.failed (.lost "connection reset"))

private def finished : Script := [page "7" [basket "fig"], page "0" [basket "fig", basket "plum"]]

private theorem reports_finished :
    Reports finished [basket "fig", basket "fig", basket "plum"] none :=
  .more (pageOf?_fieldReplies (n := 7) (by decide) _) (by decide) (.last (pageOf?_fieldReplies (by decide) _))

/-- An empty place takes whatever an orchard bears. -/
private theorem roomy_orchard (kind : Option TaskKind) (known : ∀ f ∈ fields, f ∈ orchard.results) :
    Roomy (Memory.create {}).2 (reported kind fields) where
  there := rfl
  new := rfl
  short r mem := by
    obtain ⟨f, inside, read, -⟩ := (mem_reported consistent_orchard known).mp mem
    have own := consistent_orchard.own f (known f inside) r read
    have kinds := known f inside
    simp only [orchard, List.mem_cons, List.not_mem_nil, or_false] at kinds
    rcases kinds with rfl | rfl <;> rw [own] <;> decide
  free r mem := nofun

/-- The connection breaks after the first page: the export succeeds, and a result is missing. -/
theorem export_loses_plum :
    Reports broken [basket "fig"] (some (.backend "connection reset")) ∧
    basket "plum" ∈ orchard.results ∧ storedResult (basket "plum").2 = .ok (fruit "plum") ∧
    ∀ (s : Settings) (broker : BrokerOptions) (rest : (q : Ask) → q.Answer), ∃ v e,
      (Errand.exportAll 4 broker ⟨"out", none⟩).run.run (station s Disk.memory "out" rest)
        ((orchard, broken), {}) = (some (.ok 0), (v, e)) ∧
      outcome (get "plum") e = some (.ok none) := by
  have known : ∀ f ∈ [basket "fig"], f ∈ orchard.results := by simp [orchard]
  have mem : basket "plum" ∈ orchard.results := by simp [orchard]
  have missing : TaskResult.last? "plum" (reported none [basket "fig"]) = none := by
    refine TaskResult.last?_eq_none_iff.mpr fun r copied own => ?_
    obtain ⟨f, inside, read, -⟩ := (mem_reported consistent_orchard known).mp copied
    rw [List.mem_singleton.mp inside, storedResult_basket] at read
    cases read
    exact absurd own (by decide)
  obtain ⟨e, ran⟩ := Disk.run_copy_memory (roomy_orchard none known)
  refine ⟨reports_broken, mem, storedResult_basket "plum", fun s broker rest => ?_⟩
  have enough : broken.length + [basket "fig"].length < 4 := by decide
  have named : (none : Option String).map TaskKind.ofText? = (none : Option TaskKind).map some := rfl
  obtain ⟨v, exported⟩ := run_exportAll s rest orchard broker (o := ⟨"out", none⟩) named
    reports_broken enough ran
  refine ⟨v, e, exported, ?_⟩
  have found := Disk.memory.copy_found ran "plum"
  rw [missing] at found
  exact found.trans rfl

/-- All pages are reported, and one field twice. -/
theorem export_finds_fig_and_plum : Consistent orchard.results ∧
    Reports finished [basket "fig", basket "fig", basket "plum"] none ∧
    ∀ (s : Settings) (broker : BrokerOptions) (rest : (q : Ask) → q.Answer), ∃ v e,
      (Errand.exportAll 6 broker ⟨"out", none⟩).run.run (station s Disk.memory "out" rest)
        ((orchard, finished), {}) = (some (.ok 0), (v, e)) ∧
      outcome (get "fig") e = some (.ok (some (fruit "fig"))) ∧
      outcome (get "plum") e = some (.ok (some (fruit "plum"))) := by
  have known : ∀ f ∈ [basket "fig", basket "fig", basket "plum"], f ∈ orchard.results := by
    simp [orchard]
  refine ⟨consistent_orchard, reports_finished, fun s broker rest => ?_⟩
  obtain ⟨exit, e, exports, succeeds, finds⟩ := export_finds_what_was_reported s Disk.memory rest {}
    broker ⟨"out", none⟩ none rfl consistent_orchard known
  obtain ⟨n, ran⟩ := Disk.run_copy_memory (roomy_orchard none known)
  have exit_zero : exit = .ok 0 := succeeds.mpr (congrArg Prod.fst ran)
  obtain ⟨v, exported⟩ := exports 6 finished none reports_finished (by decide)
  rw [exit_zero] at exported
  have found (id : String) (inside : basket id ∈ [basket "fig", basket "fig", basket "plum"]) :
      outcome (get id) e = some (.ok (some (fruit id))) :=
    (finds exit_zero _ (known _ inside) _ (storedResult_basket id) rfl).mpr (.inl inside)
  exact ⟨v, e, exported, found "fig" (by simp), found "plum" (by simp)⟩

end CommandLine

end ClaimQueue
