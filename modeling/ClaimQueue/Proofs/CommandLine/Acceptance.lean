import ClaimQueue.CommandLine.Errand
import ClaimQueue.Proofs.Broker.Answers
import ClaimQueue.Proofs.Task.Legible

/-! What users and candidates hand in, and whether it can be read later. A payload is accepted alone,
but it travels in a document that nests one level deeper and is read to the same depth: what was
accepted just so is lost on the way. -/

namespace ClaimQueue

open Json

namespace Broker

open Server Job

/-- A task whose document can be read: a worker that comes to its entry is given the task. The
payload may have changed. -/
structure Arrives (t : Task) : Prop where
  read : ∃ q, Task.ofBytes (Text.Utf8.bytes t.encoded) = .ok { t with payload := q }
  popped : ∀ s (w : Server) n rounds block timeout,
    w.waiting.head? = some (n, some (Text.Utf8.bytes t.encoded)) →
    (block = true → timeout.nanos ≠ 0) →
    ∃ q v, Gives s w (Calls.pop (rounds + 1) s block timeout) (some { t with payload := q }) v

/-- A task whose document cannot be read: no worker is given it, its entry is taken off the stream
and kept aside, and the call goes on with the entries after it. -/
structure PutAside (t : Task) : Prop where
  unread : Task.ofBytes (Text.Utf8.bytes t.encoded) = .error (.malformed .malformed)
  parked : ∀ s (w : Server) n rounds block timeout,
    w.waiting.head? = some (n, some (Text.Utf8.bytes t.encoded)) →
    (block = true → timeout.nanos ≠ 0) →
    ∃ v : Server, v.parked = Text.Utf8.bytes t.encoded :: w.parked ∧
      (∀ e ∈ v.entries, e.1 ≠ n) ∧
      (Calls.pop (rounds + 1) s block timeout).run.run (Server.answer s) w =
        (Calls.pop rounds s block timeout).run.run (Server.answer s) v

/-- A result that, once published, is there for whoever waits for it. -/
structure Retrieved (r : TaskResult) : Prop where
  read : ∃ q, TaskResult.ofBytes (Text.Utf8.bytes r.encoded) = .ok { r with data := q }
  awaited : ∀ s (w v : Server), Gives s w (Calls.publish r) () v → ∀ s' rounds timeout,
    ∃ q, Gives s' v (Calls.awaitResult (rounds + 1) s' r.taskId timeout)
      (some { r with data := q }) v

/-- A result that can be published, but makes whoever waits for it fail. -/
structure Corrupt (r : TaskResult) : Prop where
  unread : TaskResult.ofBytes (Text.Utf8.bytes r.encoded) = .error (.malformed .malformed)
  awaited : ∀ s (w v : Server), Gives s w (Calls.publish r) () v → ∀ s' rounds timeout,
    Fails s' v (Calls.awaitResult (rounds + 1) s' r.taskId timeout)
      (.resultPersist (.corrupt .malformed)) v

variable {t : Task} {r : TaskResult} {q : Payload}

theorem arrives_of_ok
    (read : Task.ofBytes (Text.Utf8.bytes t.encoded) = .ok { t with payload := q }) :
    Arrives t where
  read := ⟨q, read⟩
  popped _ _ _ rounds _ _ first patient := ⟨q, _, gives_pop patient read first rounds⟩

theorem putAside_of_error
    (unread : Task.ofBytes (Text.Utf8.bytes t.encoded) = .error (.malformed .malformed)) :
    PutAside t where
  unread := unread
  parked s w n rounds block timeout first patient := by
    refine ⟨w.aside s n (Text.Utf8.bytes t.encoded), rfl, fun e mem => ?_,
      run_pop_aside patient unread first rounds⟩
    have kept : (entryId e.1 != entryId n) = true := (List.mem_filter.mp mem).2
    exact fun same => bne_iff_ne.mp kept (congrArg entryId same)

theorem find?_of_published {s : Settings} {w v : Server}
    (published : Gives s w (Calls.publish r) () v) :
    Index.find? r.taskId v.results = some (Text.Utf8.bytes r.encoded) := by
  have same := published.symm.trans (gives_publish r)
  rw [(Prod.mk.inj same).2, Index.find?_put, if_pos rfl]

theorem retrieved_of_ok
    (read : TaskResult.ofBytes (Text.Utf8.bytes r.encoded) = .ok { r with data := q }) :
    Retrieved r where
  read := ⟨q, read⟩
  awaited _ _ _ published _ rounds timeout :=
    ⟨q, gives_awaitResult read (find?_of_published published) rounds timeout⟩

theorem corrupt_of_error
    (unread : TaskResult.ofBytes (Text.Utf8.bytes r.encoded) = .error (.malformed .malformed)) :
    Corrupt r where
  unread := unread
  awaited _ _ _ published _ rounds timeout :=
    fails_awaitResult unread (find?_of_published published) rounds timeout

end Broker

namespace CommandLine

open Broker

/-! What is accepted. -/

theorem Errand.payloadOf_legible {text : Option String} {p : Payload}
    (accepted : payloadOf text = .ok p) : Legible maxNesting (.object p) := by
  unfold payloadOf at accepted
  split at accepted
  · cases accepted
    rfl
  · split at accepted
    · rename_i read
      cases accepted
      exact payload_ofText_legible read
    · cases accepted

theorem metrics_legible {output : List Char} {data : Payload}
    (measured : Child.metrics output = .ok data) : Legible maxNesting (.object data) := by
  unfold Child.metrics at measured
  split at measured
  · cases measured
  · split at measured
    · rename_i read
      cases measured
      exact payload_ofText_legible read
    · cases measured

/-- Whatever text was accepted as a payload, and whatever output for metrics: the task and the result
made of them can be read exactly if what was accepted nests less deep than readers go. -/
theorem accepted_is_read_iff {text : Option String} {p : Payload}
    (accepted : Errand.payloadOf text = .ok p) {output : List Char} {data : Payload}
    (measured : Child.metrics output = .ok data) (kind : TaskKind) (id requires : String)
    (created : Instant) (t : Task) (now : Instant) :
    (if (Json.object p).nesting < maxNesting then Arrives (Errand.taskOf kind id p requires created)
      else PutAside (Errand.taskOf kind id p requires created)) ∧
    (if (Json.object data).nesting < maxNesting then Retrieved (.ok t data now)
      else Corrupt (.ok t data now)) := by
  have payload := Errand.payloadOf_legible accepted
  have metrics := metrics_legible measured
  have task : (Errand.taskOf kind id p requires created).toJson.nesting =
      (Json.object p).nesting + 1 := Task.nesting_toJson _
  have result : (TaskResult.ok t data now).toJson.nesting = (Json.object data).nesting + 1 :=
    TaskResult.nesting_toJson _
  constructor
  · split
    · rename_i shallow
      obtain ⟨q, read⟩ := Task.ofBytes_of_legible (t := Errand.taskOf kind id p requires created)
        payload UInt32.le_rfl (task.trans_le shallow)
      exact arrives_of_ok read
    · rename_i deep
      obtain ⟨q, read⟩ := payload.object
      exact putAside_of_error
        (Task.ofBytes_of_deep read (task ▸ Nat.lt_succ_of_le (Nat.not_lt.mp deep)))
  · split
    · rename_i shallow
      obtain ⟨q, read⟩ := TaskResult.ofBytes_of_legible (r := .ok t data now) metrics
        (result.trans_le shallow)
      exact retrieved_of_ok read
    · rename_i deep
      exact corrupt_of_error
        (TaskResult.ofBytes_of_deep metrics (result ▸ Nat.lt_succ_of_le (Nat.not_lt.mp deep)))

/-! A payload that is accepted, and one as deep as any that is. -/

private def ember (depth : Nat) : Payload := [("x", brackets depth)]

private def emberTask (depth : Nat) : Task :=
  Errand.taskOf .execute "ember" (ember depth) "gpu" .epoch

private def emberResult (depth : Nat) : TaskResult := .ok (emberTask depth) (ember depth) .epoch

private theorem nesting_ember (depth : Nat) : (Json.object (ember depth)).nesting = depth + 1 := by
  simp [ember, Json.nesting, nestingMembers]

private theorem ofText_ember {depth : Nat} (deep : depth ≤ 126) :
    Decoder.payload.ofText (Json.object (ember depth)).compact = .ok (ember depth) := by
  have ascending : ["x"].Pairwise (· < ·) := by decide
  have read : reread (.object (ember depth)) maxNesting = some (.object (ember depth)) :=
    reread_of_plain _ ⟨ascending, plain_brackets depth, trivial⟩
      (by rw [nesting_ember]; exact Nat.succ_le_succ deep)
  exact (reads_payload read).ofText

private theorem payloadOf_ember {depth : Nat} (deep : depth ≤ 126) :
    Errand.payloadOf (some (Json.object (ember depth)).compact) = .ok (ember depth) := by
  rw [Errand.payloadOf, ofText_ember deep]

private theorem metrics_ember {depth : Nat} (deep : depth ≤ 126)
    (last : Child.lastLine? (Json.object (ember depth)).chars =
      some (Json.object (ember depth)).chars) :
    Child.metrics (Json.object (ember depth)).chars = .ok (ember depth) := by
  have read := ofText_ember deep
  rw [compact] at read
  simp only [Child.metrics, last, read]

private theorem lastLine?_shallow : Child.lastLine? (Json.object (ember 125)).chars =
    some (Json.object (ember 125)).chars := by decide +kernel

private theorem lastLine?_deep : Child.lastLine? (Json.object (ember 126)).chars =
    some (Json.object (ember 126)).chars := by decide +kernel

private theorem unread_ember {depth : Nat} (deep : 126 ≤ depth) :
    Task.ofBytes (Text.Utf8.bytes (emberTask depth).encoded) = .error (.malformed .malformed) ∧
    TaskResult.ofBytes (Text.Utf8.bytes (emberResult depth).encoded) =
      .error (.malformed .malformed) := by
  have ascending : ["x"].Pairwise (· < ·) := by decide
  have read : reread (.object (ember depth)) (depth + 1) = some (.object (ember depth)) :=
    reread_of_plain _ ⟨ascending, plain_brackets depth, trivial⟩ (nesting_ember depth).le
  have task : maxNesting < (emberTask depth).toJson.nesting := by
    rw [Task.nesting_toJson, emberTask, Errand.taskOf, nesting_ember]
    exact Nat.add_le_add_right deep 2
  have result : maxNesting < (emberResult depth).toJson.nesting := by
    rw [TaskResult.nesting_toJson, emberResult, TaskResult.ok, TaskResult.forTask, nesting_ember]
    exact Nat.add_le_add_right deep 2
  have legible : Legible (depth + 1) (.object (ember depth)) := Option.isSome_of_eq_some read
  exact ⟨Task.ofBytes_of_deep (t := emberTask depth) read task,
    TaskResult.ofBytes_of_deep (r := emberResult depth) legible result⟩

/-- What is accepted as payload or as metrics, and cannot be read again. -/
theorem accepted_is_lost :
    Errand.payloadOf (some (Json.object (ember 126)).compact) = .ok (ember 126) ∧
    (¬ ∃ t, Task.ofBytes (Text.Utf8.bytes (emberTask 126).encoded) = .ok t) ∧
    Child.metrics (Json.object (ember 126)).chars = .ok (ember 126) ∧
    ¬ ∃ r, TaskResult.ofBytes (Text.Utf8.bytes (emberResult 126).encoded) = .ok r := by
  obtain ⟨task, result⟩ := unread_ember (Nat.le_refl 126)
  refine ⟨payloadOf_ember (Nat.le_refl 126), ?_, metrics_ember (Nat.le_refl 126) lastLine?_deep, ?_⟩
  · rintro ⟨t, read⟩
    rw [task] at read
    cases read
  · rintro ⟨r, read⟩
    rw [result] at read
    cases read

theorem accepted_embers :
    Errand.payloadOf (some (Json.object (ember 125)).compact) = .ok (ember 125) ∧
    Child.metrics (Json.object (ember 125)).chars = .ok (ember 125) ∧
    Arrives (emberTask 125) ∧ Retrieved (emberResult 125) ∧
    Errand.payloadOf (some (Json.object (ember 126)).compact) = .ok (ember 126) ∧
    Child.metrics (Json.object (ember 126)).chars = .ok (ember 126) ∧
    PutAside (emberTask 126) ∧ Corrupt (emberResult 126) := by
  have shallow := payloadOf_ember (by decide : 125 ≤ 126)
  have deep := payloadOf_ember (Nat.le_refl 126)
  have shallow' := metrics_ember (by decide : 125 ≤ 126) lastLine?_shallow
  have deep' := metrics_ember (Nat.le_refl 126) lastLine?_deep
  have read := accepted_is_read_iff shallow shallow' .execute "ember" "gpu" .epoch (emberTask 125)
    .epoch
  have lost := accepted_is_read_iff deep deep' .execute "ember" "gpu" .epoch (emberTask 126) .epoch
  rw [nesting_ember, if_pos (by decide), if_pos (by decide)] at read
  rw [nesting_ember, if_neg (by decide), if_neg (by decide)] at lost
  exact ⟨shallow, shallow', read.1, read.2, deep, deep', lost.1, lost.2⟩

end CommandLine

end ClaimQueue
