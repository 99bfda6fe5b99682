import ClaimQueue.Proofs.Broker.TakingBack
import ClaimQueue.Proofs.Handler.Registry
import ClaimQueue.Worker.Run

/-! Which handler a worker runs for a task, and what becomes of a task that it cannot run. The look
at the worker's own capabilities comes first, but it turns away nothing that could be run: what a
suitable handler provides lies between the task's requirements and the worker's capabilities. -/

namespace ClaimQueue

/-! A task that was claimed and is handed back. -/

/-- Whoever claims the task and releases it leaves it last in line, as it was. No result is stored. -/
structure ReturnsAsItWas (t : Task) : Prop where
  memory : ∀ (q r : LocalQueue) now, q.take? now = some (t, r) → ∃ v, r.release? t.id = some v ∧
    v.pending = q.pending.tail ++ [t] ∧ v.results = q.results ∧ v.dead = q.dead
  broker : ∀ (s : Broker.Settings) (w : Broker.Server) n body rounds block timeout,
    s.consumer ≠ "" → w.Ordered → w.waiting.head? = some (n, some body) →
    Task.ofBytes body = .ok t → (block = true → timeout.nanos ≠ 0) →
    ∃ u v, Broker.Job.Gives s w (Broker.Calls.pop (rounds + 1) s block timeout) (some t) u ∧
      Broker.Job.Gives s u (Broker.Calls.release s t.id) () v ∧
      v.entries = (w.entries.filter fun e => e.1 != n) ++ [(w.newest + 1, some body)] ∧
      v.results = w.results ∧ v.dead = w.dead ∧ v.parked = w.parked

namespace LocalQueue

theorem release?_of_take? {q r : LocalQueue} {t : Task} {now : Instant}
    (taken : q.take? now = some (t, r)) : ∃ v, r.release? t.id = some v ∧
      v.pending = q.pending.tail ++ [t] ∧ v.results = q.results ∧ v.dead = q.dead := by
  unfold take? at taken
  split at taken
  · cases taken
  · rename_i rest pending
    cases taken
    have found : Index.find? t.id (q.inFlight.put t.id ⟨t, now⟩) = some ⟨t, now⟩ := by
      rw [Index.find?_put, if_pos rfl]
    refine ⟨_, congrArg (Option.map _) found, ?_, rfl, rfl⟩
    rw [pending]
    rfl

end LocalQueue

namespace Broker

open Server Job

variable {s : Settings} {w : Server} {n : Nat} {body : List UInt8} {t : Task}

theorem lookUp_of_mem (ordered : w.Ordered) (mem : (n, some body) ∈ w.entries) :
    (w.entries.filter fun e => entryId e.1 == entryId n).head? = some (n, some body) := by
  rw [List.head?_filter]
  obtain ⟨e, found⟩ : ∃ e, w.entries.find? (fun e => entryId e.1 == entryId n) = some e := by
    rw [← Option.isSome_iff_exists, List.find?_isSome]
    exact ⟨_, mem, beq_self_eq_true _⟩
  have number : e.1 = n := by simpa using List.find?_some found
  rw [found, eq_of_number ordered.ascending (List.mem_of_find?_eq_some found) mem number]

theorem gives_release_claimed (named : s.consumer ≠ "") (ordered : w.Ordered)
    (first : w.waiting.head? = some (n, some body)) :
    Gives s (w.claimed s n t) (Calls.release s t.id) ()
      ((((w.claimed s n t).append (some body)).without (entryId n)).unclaimed (some t.id)) := by
  have mem := (mem_waiting.mp (List.mem_of_head? first)).1
  have found : Index.find? t.id (w.claimed s n t).claims =
      some (claimValue (entryId n) s.consumer) := by
    rw [claimed, Index.find?_put, if_pos rfl]
  exact gives_release named found (lookUp_of_mem (w := w) ordered mem)

theorem entries_released (ordered : w.Ordered) (first : w.waiting.head? = some (n, some body)) :
    ((((w.claimed s n t).append (some body)).without (entryId n)).unclaimed (some t.id)).entries =
      (w.entries.filter fun e => e.1 != n) ++ [(w.newest + 1, some body)] := by
  have old : n ≤ w.newest :=
    ordered.numbered _ (mem_waiting.mp (List.mem_of_head? first)).1
  have kept : w.newest + 1 ≠ n := by omega
  rw [unclaimed_entries, without_entries]
  show (w.entries ++ [(w.newest + 1, some body)]).filter _ = _
  simp [kept]

end Broker

theorem Task.returnsAsItWas (t : Task) : ReturnsAsItWas t where
  memory _ _ _ := LocalQueue.release?_of_take?
  broker _ _ _ _ rounds _ _ named ordered first read patient :=
    ⟨_, _, Broker.gives_pop patient read first rounds,
      Broker.gives_release_claimed named ordered first, Broker.entries_released ordered first,
      rfl, rfl, rfl⟩

namespace Worker

open Registry

variable {w : Template} {c : Config} {hs : List Handler} {t : Task} {g h : Handler}

/-- The worker has the handler, and lets it work on the task. -/
def Runs (w : Template) (t : Task) (h : Handler) : Prop :=
  h ∈ w.registry.handlers ∧ process w t = execute h t

/-- The worker asks for the release of the task and for nothing else. -/
def HandsBack (w : Template) (t : Task) : Prop :=
  (process w t).run = .ask (.release t.id) fun answer => .done (match answer with
    | .ok () => .ok .rejected
    | .error e => .error (.queue e))

theorem checkSchema_eq_ok : t.checkSchema = .ok () ↔ t.schemaVersion ≤ Task.supportedSchema := by
  unfold Task.checkSchema
  split
  · rename_i newer
    simpa using newer
  · rename_i known
    simpa using UInt32.not_lt.mp known

/-- Surroundings in which every handler breaks down, and all else goes well. -/
private def breakdown : (q : Ask) → Unit → q.Answer × Unit
  | .stopSeen, _ => (false, ())
  | .elapsed, _ => (⟨0⟩, ())
  | .clock, _ => (.epoch, ())
  | .pop _, _ => (none, ())
  | .release _, _ | .ack _, _ | .publish _, _ => (.ok (), ())
  | .labour _, _ => (.fault "", ())
  | .pause _, _ => ((), ())

/-- A breakdown tells which handler was at work. -/
private theorem run_of_eq_execute {j : Job Disposition} (same : j = execute h t) :
    j.run.run breakdown () = (some (.error (.handlerFault h.name t.id "")), ()) := by
  rw [same]
  rfl

theorem name_of_execute (same : execute g t = execute h t) : g.name = h.name := by
  have told := (run_of_eq_execute rfl).symm.trans (run_of_eq_execute same)
  simp only [Prod.mk.injEq, Option.some.injEq, Except.error.injEq, Error.handlerFault.injEq] at told
  exact told.1.1

theorem handBack_ne_execute (id : String) : handBack id ≠ execute h t := by
  intro same
  cases run_of_eq_execute same

theorem refuse_ne_execute (e : WireError) : refuse t e ≠ execute h t := by
  intro same
  cases run_of_eq_execute same

theorem handsBack_of_eq (same : process w t = handBack t.id) : HandsBack w t := by
  rw [HandsBack, same]
  show Program.ask _ _ = Program.ask _ _
  congr 1
  funext answer
  cases answer <;> rfl

theorem process_of_select (within : t.requires.within c.caps = true)
    (known : t.schemaVersion ≤ Task.supportedSchema)
    (chosen : (ofHistory hs).select? t.kind t.requires c.caps c.allow = some h) :
    process ⟨ofHistory hs, c⟩ t = execute h t := by
  simp only [process, within, if_true, checkSchema_eq_ok.mpr known, chosen]

theorem process_of_none (known : t.schemaVersion ≤ Task.supportedSchema)
    (none : (ofHistory hs).select? t.kind t.requires c.caps c.allow = none) :
    process ⟨ofHistory hs, c⟩ t = handBack t.id := by
  simp only [process, checkSchema_eq_ok.mpr known, none, ite_self]

theorem select_of_runs (runs : Runs ⟨ofHistory hs, c⟩ t h) :
    t.requires.within c.caps = true ∧ t.schemaVersion ≤ Task.supportedSchema ∧
      (ofHistory hs).select? t.kind t.requires c.caps c.allow = some h := by
  obtain ⟨mem, same⟩ := runs
  simp only [process] at same
  split at same
  · rename_i within
    split at same
    · exact (refuse_ne_execute _ same).elim
    · rename_i known
      split at same
      · exact (handBack_ne_execute _ same).elim
      · rename_i g chosen
        have one : g = h :=
          eq_of_name (List.mem_of_find?_eq_some chosen) mem (name_of_execute same)
        exact ⟨within, checkSchema_eq_ok.mp known, one ▸ chosen⟩
  · exact (handBack_ne_execute _ same).elim

theorem within_of_select (chosen : (ofHistory hs).select? t.kind t.requires c.caps c.allow = some h) :
    t.requires.within c.caps = true := by
  obtain ⟨earlier, accepted, suits, -⟩ := select?_eq_some_iff.mp chosen
  exact CapabilitySet.within_iff.mpr (List.Subset.trans suits.provides suits.present)

theorem runs_of_select (known : t.schemaVersion ≤ Task.supportedSchema)
    (chosen : (ofHistory hs).select? t.kind t.requires c.caps c.allow = some h) :
    Runs ⟨ofHistory hs, c⟩ t h :=
  ⟨List.mem_of_find?_eq_some chosen, process_of_select (within_of_select chosen) known chosen⟩

/-- After any registrations, a worker runs just the first handler that was accepted and suits the
task, and hands the task back if there is none. Refused registrations have no part in this, and
later ones take no task from a handler that has it. -/
theorem routes_to_first_suitable (hs : List Handler) (c : Config) (t : Task) :
    (∀ h, Runs ⟨ofHistory hs, c⟩ t h ↔ t.requires.tags ⊆ c.caps.tags ∧
      t.schemaVersion ≤ Task.supportedSchema ∧
      First (Suits t.kind t.requires c.caps c.allow) hs h) ∧
    (t.schemaVersion ≤ Task.supportedSchema →
      (∀ earlier g, Accepted hs earlier g → ¬ Suits t.kind t.requires c.caps c.allow g) →
      HandsBack ⟨ofHistory hs, c⟩ t ∧ ReturnsAsItWas t) ∧
    (∀ h, t.schemaVersion ≤ Task.supportedSchema →
      (ofHistory hs).select? t.kind t.requires c.caps c.allow = some h →
      Runs ⟨ofHistory hs, c⟩ t h) ∧
    (∀ before h after, hs = before ++ h :: after →
      ((ofHistory before).register? h = none ↔ h.name ∈ before.map (·.name)) ∧
      ((ofHistory before).register? h = none → ofHistory hs = ofHistory (before ++ after))) ∧
    ∀ more h, (ofHistory hs).select? t.kind t.requires c.caps c.allow = some h →
      (ofHistory (hs ++ more)).select? t.kind t.requires c.caps c.allow = some h := by
  refine ⟨fun h => ⟨fun runs => ?_, ?_⟩, fun known none => ?_, fun h => runs_of_select, ?_,
    fun more h => select?_append more⟩
  · obtain ⟨within, known, chosen⟩ := select_of_runs runs
    exact ⟨CapabilitySet.within_iff.mp within, known, select?_eq_some_iff.mp chosen⟩
  · rintro ⟨-, known, first⟩
    exact runs_of_select known (select?_eq_some_iff.mpr first)
  · exact ⟨handsBack_of_eq (process_of_none known (select?_eq_none_iff.mpr none)), t.returnsAsItWas⟩
  · rintro before h after rfl
    exact ⟨register?_ofHistory_eq_none_iff,
      fun refused => ofHistory_of_taken (register?_ofHistory_eq_none_iff.mp refused)⟩

private def graphics : CapabilitySet := ⟨["gpu"], List.pairwise_singleton _ _⟩

private def tool (name : String) (provides : CapabilitySet) : Handler where
  name := name
  kind := .execute
  provides := provides
  run _ := ⟨⟨0⟩, .skip "busy"⟩

/-- The second one comes under a name that is taken. -/
private def tools : List Handler := [tool "saw" .empty, tool "saw" graphics, tool "lathe" graphics]

private def chore (requires : CapabilitySet) : Task where
  kind := .execute
  id := "kite"
  payload := []
  requires := requires
  attempts := 0
  createdAt := .epoch
  schemaVersion := 1

private def workshop : Config := { caps := graphics }

private theorem select_lathe :
    (ofHistory tools).select? .execute graphics graphics none = some (tool "lathe" graphics) := rfl

theorem routes_past_refused :
    Runs ⟨ofHistory tools, workshop⟩ (chore graphics) (tool "lathe" graphics) ∧
    ¬ Runs ⟨ofHistory tools, workshop⟩ (chore graphics) (tool "saw" graphics) ∧
    (HandsBack ⟨ofHistory tools, { workshop with allow := some [] }⟩ (chore graphics) ∧
      ReturnsAsItWas (chore graphics)) ∧
    ofHistory tools = ofHistory [tool "saw" .empty, tool "lathe" graphics] ∧
    (ofHistory (tools ++ [tool "plane" graphics])).select? .execute graphics graphics none =
      some (tool "lathe" graphics) := by
  obtain ⟨routes, -, selected, registered, later⟩ :=
    routes_to_first_suitable tools workshop (chore graphics)
  have none : (ofHistory tools).select? .execute graphics graphics (some []) = none := rfl
  obtain ⟨-, unsuited, -⟩ :=
    routes_to_first_suitable tools { workshop with allow := some [] } (chore graphics)
  refine ⟨selected _ (by decide) select_lathe, fun runs => ?_,
    unsuited (by decide) (select?_eq_none_iff.mp none), ?_, later _ _ select_lathe⟩
  · have chosen := select?_eq_some_iff.mpr ((routes _).mp runs).2.2
    have names := congrArg (Option.map Handler.name) (select_lathe.symm.trans chosen)
    exact absurd names (by decide)
  · exact (registered [tool "saw" .empty] _ _ rfl).2 rfl

end Worker

end ClaimQueue
