import ClaimQueue.Handler.Child
import ClaimQueue.Proofs.Text.Order
import ClaimQueue.Proofs.Text.Pieces

/-! What is told of a failing candidate. A report is cut by bytes, and the cut holds only where a
character ends; elsewhere the whole report is told, and no bound holds for it. -/

namespace ClaimQueue.Child

open Text.Utf8

theorem byteCount_append (front back : List Char) :
    byteCount (front ++ back) = byteCount front + byteCount back := by
  rw [byteCount, encode, List.flatMap_append, List.length_append]
  rfl

theorem byteCount_cons (c : Char) (rest : List Char) :
    byteCount (c :: rest) = (encodeChar c).length + byteCount rest := by
  rw [byteCount, encode, List.flatMap_cons, List.length_append]
  rfl

theorem byteCount_eq_zero {cs : List Char} : byteCount cs = 0 ↔ cs = [] := by
  refine ⟨fun none => ?_, fun none => none ▸ rfl⟩
  cases cs with
  | nil => rfl
  | cons c rest =>
    have some := List.length_pos_iff.mpr (encodeChar_ne_nil c)
    rw [byteCount_cons] at none
    omega

theorem byteCount_replicate (n : Nat) (c : Char) :
    byteCount (List.replicate n c) = n * (encodeChar c).length := by
  induction n with
  | zero => rw [Nat.zero_mul]; rfl
  | succ n ih => rw [List.replicate_succ, byteCount_cons, ih, Nat.succ_mul, Nat.add_comm]

/-- A text is cut after so many bytes just if characters of so many bytes stand in front. -/
theorem afterBytes?_eq_some_iff {count : Nat} {cs back : List Char} :
    afterBytes? count cs = some back ↔ ∃ front, cs = front ++ back ∧ byteCount front = count := by
  induction cs generalizing count with
  | nil =>
    cases count with
    | zero =>
      refine ⟨fun same => ⟨[], Option.some_inj.mp same, rfl⟩, fun ⟨front, same, empty⟩ => ?_⟩
      rw [byteCount_eq_zero.mp empty] at same
      exact congrArg some same
    | succ count =>
      refine ⟨fun cut => (nomatch cut), fun ⟨front, same, size⟩ => ?_⟩
      rw [(List.nil_eq_append_iff.mp same).1] at size
      cases size
  | cons c rest ih =>
    cases count with
    | zero =>
      refine ⟨fun same => ⟨[], Option.some_inj.mp same, rfl⟩, fun ⟨front, same, empty⟩ => ?_⟩
      rw [byteCount_eq_zero.mp empty] at same
      exact congrArg some same
    | succ count =>
      rw [afterBytes?]
      constructor
      · intro cut
        split at cut
        · obtain ⟨front, same, size⟩ := ih.mp cut
          refine ⟨c :: front, by rw [same, List.cons_append], ?_⟩
          rw [byteCount_cons, size]
          omega
        · cases cut
      · rintro ⟨front, same, size⟩
        rcases List.cons_eq_append_iff.mp same with ⟨rfl, -⟩ | ⟨front, rfl, more⟩
        · cases size
        · rw [byteCount_cons] at size
          rw [if_pos (by omega)]
          exact ih.mpr ⟨front, more, by omega⟩

/-- A character begins where the last `limit` bytes do. -/
def CutsAt (limit : Nat) (cs : List Char) : Prop :=
  ∃ front back, cs = front ++ back ∧ byteCount back = min limit (byteCount cs)

theorem cutsAt_of_le {limit : Nat} {cs : List Char} (short : byteCount cs ≤ limit) :
    CutsAt limit cs :=
  ⟨[], cs, rfl, (Nat.min_eq_right short).symm⟩

theorem tail_of_cutsAt {limit : Nat} {cs : List Char} (cuts : CutsAt limit cs) :
    tail limit cs <:+ cs ∧ byteCount (tail limit cs) = min limit (byteCount cs) := by
  obtain ⟨front, back, rfl, size⟩ := cuts
  have skipped : byteCount front = byteCount (front ++ back) - limit := by
    rw [byteCount_append] at size ⊢
    omega
  rw [tail, afterBytes?_eq_some_iff.mpr ⟨front, rfl, skipped⟩]
  exact ⟨List.suffix_append front back, size⟩

theorem tail_of_not_cutsAt {limit : Nat} {cs : List Char} (whole : ¬ CutsAt limit cs) :
    tail limit cs = cs := by
  rw [tail]
  cases cut : afterBytes? (byteCount cs - limit) cs with
  | none => rfl
  | some back =>
    obtain ⟨front, same, size⟩ := afterBytes?_eq_some_iff.mp cut
    refine (whole ⟨front, back, same, ?_⟩).elim
    rw [same, byteCount_append] at size ⊢
    omega

theorem tail_suffix (limit : Nat) (cs : List Char) : tail limit cs <:+ cs := by
  by_cases cuts : CutsAt limit cs
  · exact (tail_of_cutsAt cuts).1
  · exact (tail_of_not_cutsAt cuts).symm ▸ List.suffix_rfl

theorem byteCount_tail_le_iff {limit : Nat} {cs : List Char} :
    byteCount (tail limit cs) ≤ limit ↔ CutsAt limit cs := by
  constructor
  · intro bounded
    by_contra whole
    rw [tail_of_not_cutsAt whole] at bounded
    exact whole (cutsAt_of_le bounded)
  · intro cuts
    rw [(tail_of_cutsAt cuts).2]
    exact Nat.min_le_left _ _

/-! Reports in ASCII. -/

theorem encodeChar_of_ascii {b : UInt8} (ascii : b < 0x80) : encodeChar (Char.ofNat b.toNat) = [b] := by
  have small : b.toNat < 0x80 := UInt8.lt_iff_toNat_lt.mp ascii
  rw [encodeChar_eq, toNat_ofNat (.inl (by omega)), if_pos small, UInt8.ofNat_toNat]

/-- A report in ASCII can be cut anywhere. -/
theorem cutsAt_of_ascii (limit : Nat) {report : List UInt8} (ascii : ∀ b ∈ report, b < 0x80) :
    CutsAt limit (lossy report) := by
  let read (bytes : List UInt8) : List Char := bytes.map fun b => Char.ofNat b.toNat
  have written (bytes : List UInt8) (ascii : ∀ b ∈ bytes, b < 0x80) : encode (read bytes) = bytes := by
    rw [encode, List.flatMap_map, List.flatMap_congr fun b mem => encodeChar_of_ascii (ascii b mem),
      List.flatMap_singleton']
  have size (bytes : List UInt8) (ascii : ∀ b ∈ bytes, b < 0x80) :
      byteCount (read bytes) = bytes.length := by
    rw [byteCount, written bytes ascii]
  have same : lossy report = read report := by
    conv_lhs => rw [← written report ascii]
    exact lossy_encode _
  let skipped := report.length - limit
  refine ⟨read (report.take skipped), read (report.drop skipped), ?_, ?_⟩
  · rw [same, ← List.map_append, List.take_append_drop]
  · rw [same, size report ascii, size _ fun b mem => ascii b (List.mem_of_mem_drop mem),
      List.length_drop]
    omega

/-! Reports of two bytes a letter, with one byte at the end. -/

/-- `letters` times the letter é, and an x. -/
def accented (letters : Nat) : List Char := List.replicate letters 'é' ++ ['x']

theorem byteCount_accented (letters : Nat) : byteCount (accented letters) = 2 * letters + 1 := by
  rw [accented, byteCount_append, byteCount_replicate, Nat.mul_comm]
  rfl

/-- The last bytes of an even number begin within a letter. -/
theorem not_cutsAt_accented {letters : Nat} (half : Nat) (long : half ≤ letters) (some : 0 < half) :
    ¬ CutsAt (2 * half) (accented letters) := by
  rintro ⟨front, back, same, size⟩
  rw [byteCount_accented, Nat.min_eq_left (by omega)] at size
  rcases List.eq_nil_or_concat back with rfl | ⟨more, last, rfl⟩
  · have none : byteCount [] = 0 := rfl
    omega
  · rw [accented, List.concat_eq_append, ← List.append_assoc] at same
    obtain ⟨letters', end'⟩ := List.append_inj' same rfl
    obtain ⟨-, -, more'⟩ := List.replicate_eq_append_iff.mp letters'
    have one : byteCount ['x'] = 1 := by decide
    have two : (encodeChar 'é').length = 2 := by decide
    rw [List.concat_eq_append, byteCount_append, more', byteCount_replicate, ← end', one, two] at size
    omega

theorem tight_accented (letters : Nat) : Text.Tight (accented letters) where
  first c rest same := by
    cases letters with
    | zero =>
      cases same
      decide
    | succ letters =>
      rw [accented, List.replicate_succ, List.cons_append] at same
      cases same
      decide
  last front c same := by
    obtain rfl : 'x' = c := List.singleton_inj.mp (List.append_inj' same rfl).2
    decide

theorem failureText_accented (status : Status) {letters : Nat} (long : 1000 ≤ letters) :
    failureText status (encode (accented letters)) =
      status.text ++ ": " ++ String.ofList (accented letters) := by
  have whole : tail reportTail (accented letters) = accented letters :=
    tail_of_not_cutsAt (not_cutsAt_accented 1000 long (by decide))
  rw [failureText, lossy_encode, whole, Text.trim_of_tight (tight_accented letters)]

/-- No bound holds for what is told. -/
theorem failureText_unbounded (status : Status) (limit : Nat) :
    ∃ report, limit < (failureText status report).length := by
  refine ⟨encode (accented (1000 + limit)), ?_⟩
  rw [failureText_accented status (Nat.le_add_right _ _)]
  simp only [String.length_append, String.length_ofList, accented, List.length_append,
    List.length_replicate, List.length_singleton]
  omega

theorem outcome_handler (s : Sandbox) (inputName name : String) (provides : CapabilitySet) {t : Task}
    {request : SandboxRequest} (read : SandboxRequest.decoder.ofValue (.object t.payload) = .ok request) :
    ((s.handler inputName name provides).run t).outcome =
      match s.run request with
      | .ok metrics => .done metrics
      | .error e => .failed (.failed e.message e.isRetryable) := by
  cases answered : s.run request <;> simp only [Sandbox.handler, Handler.typed, read, answered]

/-- Of a candidate that failed, a text from the end of the report is told. It keeps the bound just
if a character begins where the last bytes do, as in ASCII; else it is the whole report. -/
theorem failure_bounded_iff (r : Runner) (ending : SandboxRequest → Ending) (request : SandboxRequest)
    {status : Status} {output report : List UInt8}
    (finished : ending request = .finished status output report)
    (failed : status.isSuccess = false) :
    ∃ told, (r.sandbox ending).run request =
        .error (.program (status.text ++ ": " ++ String.ofList (Text.trim told))) ∧
      (∀ inputName name provides (t : Task),
        SandboxRequest.decoder.ofValue (.object t.payload) = .ok request →
        (((r.sandbox ending).handler inputName name provides).run t).outcome =
          .failed (.failed ("program failed: " ++
            (status.text ++ ": " ++ String.ofList (Text.trim told))) false)) ∧
      told <:+ lossy report ∧
      (byteCount told ≤ reportTail ↔ CutsAt reportTail (lossy report)) ∧
      (CutsAt reportTail (lossy report) →
        byteCount told = min reportTail (byteCount (lossy report))) ∧
      (¬ CutsAt reportTail (lossy report) → told = lossy report) ∧
      ((∀ b ∈ report, b < 0x80) → byteCount told ≤ reportTail) := by
  have answered : (r.sandbox ending).run request = .error (.program (status.text ++ ": " ++
      String.ofList (Text.trim (tail reportTail (lossy report))))) := by
    simp only [Runner.sandbox, finished, answer, failed, Bool.false_eq_true, if_false, failureText]
  refine ⟨tail reportTail (lossy report), answered, ?_, ?_, ?_, ?_, ?_, ?_⟩
  · intro inputName name provides t read
    rw [outcome_handler (r.sandbox ending) inputName name provides read, answered]
    rfl
  · exact tail_suffix reportTail _
  · exact byteCount_tail_le_iff
  · exact fun cuts => (tail_of_cutsAt cuts).2
  · exact tail_of_not_cutsAt
  · exact fun ascii => byteCount_tail_le_iff.mpr (cutsAt_of_ascii reportTail ascii)

/-- A candidate of a shell that fails with status 3. -/
private def shell : Runner := { program := "sh", allowed := .ofSeconds 20 }

private def grumble (report : List UInt8) : SandboxRequest → Ending :=
  fun _ => .finished (.exited 3) [] report

private theorem grumble_finished (report : List UInt8) (request : SandboxRequest) :
    grumble report request = .finished (.exited 3) [] report := rfl

private def boom : List UInt8 := bytes "boom\n"

private def candidate : SandboxRequest := ⟨"echo boom >&2\nexit 3\n", "main", none⟩

private def trial : Task where
  kind := .execute
  id := "t-1"
  payload := [("entry_point", .string "main"), ("source", .string "echo boom >&2\nexit 3\n")]
  requires := .empty
  attempts := 1
  createdAt := .epoch
  schemaVersion := 1

theorem failure_bounded_boom :
    (Status.exited 3).isSuccess = false ∧
    SandboxRequest.decoder.ofValue (.object trial.payload) = .ok candidate ∧
    (∃ told, (shell.sandbox (grumble boom)).run candidate =
        .error (.program ("exit status: 3: " ++ String.ofList (Text.trim told))) ∧
      (((shell.sandbox (grumble boom)).handler "" "execute" .empty).run trial).outcome =
        .failed (.failed ("program failed: " ++
          ("exit status: 3: " ++ String.ofList (Text.trim told))) false) ∧
      byteCount told ≤ reportTail) ∧
    ∃ told, (shell.sandbox (grumble (encode (accented 1000)))).run candidate =
        .error (.program ("exit status: 3: " ++ String.ofList (Text.trim told))) ∧
      told = accented 1000 := by
  have status : (Status.exited 3).text ++ ": " = "exit status: 3: " := by decide
  have read : SandboxRequest.decoder.ofValue (.object trial.payload) = .ok candidate := by
    decide +kernel
  refine ⟨rfl, read, ?_, ?_⟩
  · obtain ⟨told, answered, stored, -, -, -, -, ascii⟩ := failure_bounded_iff shell (grumble boom)
      candidate (grumble_finished boom candidate) rfl
    have stored := stored "" "execute" .empty trial read
    rw [status] at answered stored
    exact ⟨told, answered, stored, ascii (by decide +kernel)⟩
  · obtain ⟨told, answered, -, -, -, -, whole, -⟩ := failure_bounded_iff shell
      (grumble (encode (accented 1000))) candidate (grumble_finished _ candidate) rfl
    rw [status] at answered
    rw [lossy_encode] at whole
    exact ⟨told, answered, whole (not_cutsAt_accented 1000 (Nat.le_refl 1000) (by decide))⟩

/-- A report of 2001 bytes, the last 2000 of which begin within a letter, is told whole. -/
theorem failure_exceeds_bound :
    ¬ ∃ told, (shell.sandbox (grumble (encode (accented 1000)))).run candidate =
        .error (.program ("exit status: 3: " ++ String.ofList (Text.trim told))) ∧
      told <:+ lossy (encode (accented 1000)) ∧ byteCount told ≤ reportTail := by
  rintro ⟨told, answered, suffix, bounded⟩
  have whole : failureText (.exited 3) (encode (accented 1000)) =
      "exit status: 3: " ++ String.ofList (accented 1000) :=
    failureText_accented (.exited 3) (Nat.le_refl 1000)
  have same : String.ofList (Text.trim told) = String.ofList (accented 1000) := by
    have texts := whole.symm.trans (SandboxError.program.inj (Except.error.inj answered))
    exact (String.append_right_inj _).mp texts.symm
  rw [lossy_encode] at suffix
  have inside := (Text.isInfix_trim told).length_le
  rw [String.ofList_injective same] at inside
  rw [suffix.eq_of_length_le inside, byteCount_accented] at bounded
  exact absurd bounded (by decide)

end ClaimQueue.Child
