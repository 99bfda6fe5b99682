import ClaimQueue.Proofs.Agreement.Reclaim

/-! Taking back overdue claims, in whatever state the queue is and whatever the clock says. The
claims taken are the earliest of those overdue, as many as a batch may hold. All other claims stay,
and what was pending or dead stays in front of what joins it. -/

namespace ClaimQueue

namespace LocalQueue

open Agreement

variable {policy : RetryPolicy} {around : Surroundings} {rounds batch : Nat} {now : Instant}
  {idle : Span} {q : LocalQueue} {line : List (String × Claim)}

/-- Claimed longer ago than `idle`, however long that is. A claim of the clock's future is not. -/
def IsOverdue (now : Instant) (idle : Span) (c : Claim) : Prop :=
  (idle.nanos : Int) < now.since c.claimedAt

instance (now : Instant) (idle : Span) (c : Claim) : Decidable (IsOverdue now idle c) :=
  inferInstanceAs (Decidable (_ < _))

def overdue (now : Instant) (idle : Span) (q : LocalQueue) : List (String × Claim) :=
  q.inFlight.filter fun e => IsOverdue now idle e.2

/-- Claimed before, or at the same time under a lesser id. -/
def Earlier (a b : String × Claim) : Prop :=
  a.2.claimedAt.order b.2.claimedAt = .lt ∨
    a.2.claimedAt.order b.2.claimedAt = .eq ∧ a.1 < b.1

/-- From `q` to `r` these claims are taken back in this order, and `n` of their tasks are pending
again. -/
structure TakesBack (policy : RetryPolicy) (now : Instant) (taken : List (String × Claim))
    (q r : LocalQueue) (n : Nat) : Prop where
  counted : ∀ e ∈ taken, e.2.task.SameWork e.2.task.bumped ∧
    e.2.task.bumped.attempts.toNat = min (e.2.task.attempts.toNat + 1) (2 ^ 32 - 1)
  inFlight : r.inFlight = q.inFlight.filter fun e => e ∉ taken
  pending : ∃ again, again = (taken.map (·.2.task.bumped)).filter (·.attempts ≤ policy.maxRetry) ∧
    r.pending = q.pending ++ again ∧ n = again.length
  dead : ∃ spent, spent = (taken.map (·.2.task.bumped)).filter (policy.maxRetry < ·.attempts) ∧
    r.dead = q.dead ++ spent.map fun t => ⟨t, policy.reason t.attempts, now⟩
  results : r.results = q.results

/-- So many scans, one right after the other. -/
def scanned (rounds : Nat) (policy : RetryPolicy) (around : Surroundings) (now : Instant)
    (idle : Span) (batch : Nat) : Nat → LocalQueue → LocalQueue
  | 0, q => q
  | scans + 1, q => scanned rounds policy around now idle batch scans
    ((answer rounds (.reclaim idle batch)).run (surroundings policy now around) q).2

/-! Which claims are taken. -/

/-- No claim is so old that the limit on ages would matter. -/
theorem isStale_eq (now : Instant) (idle : Span) (c : Claim) :
    isStale now idle c = decide (IsOverdue now idle c) := by
  have short := now.since_lt_longestAge c.claimedAt
  simp only [isStale, IsOverdue, Instant.ageLimit]
  refine decide_eq_decide.mpr ?_
  omega

theorem overdue_eq (now : Instant) (idle : Span) (q : LocalQueue) :
    q.overdue now idle = q.inFlight.filter fun e => isStale now idle e.2 := by
  simp only [overdue, isStale_eq]

theorem Earlier.claimedFirst {a b : String × Claim} (h : Earlier a b) :
    LocalQueue.claimedFirst a b = true := by
  refine claimedFirst_iff.mpr (h.imp_right fun ⟨same, less⟩ => ⟨same, ?_⟩)
  exact String.not_lt.mp fun greater => String.lt_irrefl _ (String.lt_trans less greater)

/-- The overdue claims in the order in which they are taken. -/
structure InLine (now : Instant) (idle : Span) (q : LocalQueue) (line : List (String × Claim)) :
    Prop where
  perm : line.Perm (q.overdue now idle)
  sorted : line.Pairwise Earlier

theorem exists_inLine (now : Instant) (idle : Span) (distinct : (q.inFlight.map Prod.fst).Nodup) :
    ∃ line, InLine now idle q line := by
  let line := (q.overdue now idle).mergeSort claimedFirst
  have perm : line.Perm (q.overdue now idle) := List.mergeSort_perm _ _
  have keys : (line.map Prod.fst).Nodup :=
    (perm.map _).nodup_iff.mpr (distinct.sublist (List.filter_sublist.map _))
  have sorted : line.Pairwise fun a b => claimedFirst a b = true :=
    List.pairwise_mergeSort claimedFirst_trans claimedFirst_total _
  refine ⟨line, perm, (sorted.and (List.pairwise_map.mp keys)).imp ?_⟩
  rintro a b ⟨first, different⟩
  refine (claimedFirst_iff.mp first).imp_right fun same => ⟨same.1, ?_⟩
  exact String.not_le.mp fun ge => different (String.le_antisymm same.2 ge)

theorem InLine.stale_eq (h : InLine now idle q line)
    (distinct : (q.inFlight.map Prod.fst).Nodup) (batch : Nat) :
    q.stale now idle batch = line.take batch := by
  refine LocalQueue.stale_eq distinct ?_ (h.sorted.imp Earlier.claimedFirst) batch
  rw [← overdue_eq]
  exact h.perm.symm

theorem InLine.subset (h : InLine now idle q line) {e : String × Claim} (mem : e ∈ line) :
    e ∈ q.inFlight := (List.mem_filter.mp (h.perm.mem_iff.mp mem)).1

/-! What taking them does. -/

theorem InLine.takesBack (h : InLine now idle q line)
    (distinct : (q.inFlight.map Prod.fst).Nodup) (policy : RetryPolicy) (batch : Nat) :
    TakesBack policy now (line.take batch) q (q.reclaim policy now idle batch).2
      (q.reclaim policy now idle batch).1 := by
  have stale := h.stale_eq distinct batch
  have retry (t : Task) :
      (policy.decide t.attempts == .retry) = decide (t.attempts ≤ policy.maxRetry) := by
    simp [Bool.beq_eq_decide_eq, RetryPolicy.decide_eq_retry]
  have bury (t : Task) :
      (policy.decide t.attempts == .deadLetter) = decide (policy.maxRetry < t.attempts) := by
    simp [Bool.beq_eq_decide_eq, RetryPolicy.decide_eq_deadLetter]
  constructor
  case counted => exact fun e _ => ⟨e.2.task.sameWork_bumped, countUp_toNat _⟩
  case inFlight =>
    simp only [reclaim, stale]
    refine List.filter_congr fun e mem => ?_
    have among : ∀ f ∈ line.take batch, f ∈ q.inFlight :=
      fun f taken => h.subset (List.mem_of_mem_take taken)
    rw [Bool.eq_iff_iff, Bool.not_eq_true', ← Bool.not_eq_true, any_key_iff distinct among mem,
      decide_eq_true_iff]
  case pending =>
    refine ⟨_, rfl, ?_, ?_⟩ <;> simp only [reclaim, stale, retry]
  case dead =>
    refine ⟨_, rfl, ?_⟩
    simp only [reclaim, stale, bury]
    rfl
  case results => rfl

theorem keys_nodup_reclaim (policy : RetryPolicy) (now : Instant) (idle : Span) (batch : Nat)
    (distinct : (q.inFlight.map Prod.fst).Nodup) :
    ((q.reclaim policy now idle batch).2.inFlight.map Prod.fst).Nodup :=
  distinct.sublist (List.filter_sublist.map _)

theorem filter_notMem_take {α : Type} [BEq α] [LawfulBEq α] {xs : List α} (once : xs.Nodup) (n : Nat) :
    xs.filter (fun x => x ∉ xs.take n) = xs.drop n := by
  have parts := List.take_append_drop n xs
  generalize xs.take n = front at parts
  generalize xs.drop n = back at parts
  subst parts
  rw [List.nodup_append] at once
  have none : front.filter (fun x => x ∉ front) = [] := by simp
  have all : back.filter (fun x => x ∉ front) = back := by
    simpa using fun x mem among => once.2.2 x among x mem rfl
  rw [List.filter_append, none, all, List.nil_append]

/-- Those behind the first `batch` are the ones still overdue. -/
theorem InLine.drop (h : InLine now idle q line) (distinct : (q.inFlight.map Prod.fst).Nodup)
    (policy : RetryPolicy) (batch : Nat) :
    InLine now idle (q.reclaim policy now idle batch).2 (line.drop batch) where
  perm := by
    have once : line.Nodup := h.perm.nodup_iff.mpr (List.Nodup.filter _ (distinct.of_map _))
    rw [overdue, (h.takesBack distinct policy batch).inFlight, List.filter_comm,
      ← filter_notMem_take once batch]
    exact h.perm.filter _
  sorted := h.sorted.sublist (List.drop_sublist batch line)

theorem InLine.scanned (h : InLine now idle q line) (distinct : (q.inFlight.map Prod.fst).Nodup)
    (rounds : Nat) (policy : RetryPolicy) (around : Surroundings) (batch scans : Nat) :
    InLine now idle (scanned rounds policy around now idle batch scans q)
      (line.drop (scans * batch)) := by
  induction scans generalizing q line with
  | zero => simpa [LocalQueue.scanned] using h
  | succ scans ih =>
    have later := ih (h.drop distinct policy batch) (keys_nodup_reclaim policy now idle batch distinct)
    have scan : (answer rounds (.reclaim idle batch)).run (surroundings policy now around) q = _ :=
      run_reclaim rounds now idle batch q
    rw [List.drop_drop, Nat.add_comm, ← Nat.succ_mul] at later
    rw [LocalQueue.scanned, scan]
    exact later

/-- A scan takes the first of the overdue claims in their line, as many as the batch allows, sends
their tasks where the policy has them, and touches nothing else. Scan by scan the line gets shorter
by a batch until no overdue claim is left. -/
theorem reclaim_takes_earliest_overdue (policy : RetryPolicy) (rounds : Nat) (around : Surroundings)
    (now : Instant) (idle : Span) (batch : Nat) (distinct : (q.inFlight.map Prod.fst).Nodup) :
    ∃ line : List (String × Claim), line.Perm (q.overdue now idle) ∧ line.Pairwise Earlier ∧
      (∃ n r, (answer rounds (.reclaim idle batch)).run (surroundings policy now around) q =
          (some (.ok n), r) ∧ TakesBack policy now (line.take batch) q r n) ∧
      (∀ scans, ((scanned rounds policy around now idle batch scans q).overdue now idle).Perm
        (line.drop (scans * batch))) ∧
      (1 ≤ batch → ∀ scans, scans = (line.length + batch - 1) / batch →
        (scanned rounds policy around now idle batch scans q).overdue now idle = []) := by
  obtain ⟨line, inLine⟩ := exists_inLine now idle distinct
  have left (scans : Nat) := (inLine.scanned distinct rounds policy around batch scans).perm.symm
  refine ⟨line, inLine.perm, inLine.sorted, ?_, left, fun positive scans enough => ?_⟩
  · exact ⟨_, _, run_reclaim rounds now idle batch q, inLine.takesBack distinct policy batch⟩
  · have all : line.length ≤ scans * batch := by
      have := Nat.div_add_mod (line.length + batch - 1) batch
      have := Nat.mod_lt (line.length + batch - 1) positive
      rw [enough, Nat.mul_comm]
      omega
    have none := left scans
    rwa [List.drop_eq_nil_of_le all, List.perm_nil] at none

private def florin (id : String) (attempts : UInt32) : Task :=
  ⟨.execute, id, [], .empty, attempts, .epoch, 1⟩

private def afterHours (hours : Nat) (early : hours * 3600 < 86400) : Instant :=
  ⟨Instant.epoch.date, hours * 3600, 0, early, Nat.succ_pos _,
    fun leap => absurd leap (Nat.not_succ_le_zero _)⟩

/-- Two claims of one time, a younger one, and one that lies ahead. -/
private def till : LocalQueue where
  pending := [florin "a" 0]
  inFlight := [("b", ⟨florin "b" 4294967295, afterHours 1 (by decide)⟩),
    ("c", ⟨florin "c" 0, afterHours 1 (by decide)⟩),
    ("d", ⟨florin "d" 0, afterHours 2 (by decide)⟩),
    ("e", ⟨florin "e" 0, afterHours 9 (by decide)⟩)]

private def unheard : Surroundings
  | .access a => (a.perform {} .epoch {}).1
  | .clock => .epoch
  | .elapsed => ⟨0⟩
  | .ring | .announce => ()
  | .announced => (0 : Nat)
  | .attend _ | .attendResult _ _ => false

/-- After three hours, with a limit of one hour. -/
theorem reclaim_takes_florins :
    (till.inFlight.map Prod.fst).Nodup ∧ ∃ line : List (String × Claim),
      line.Perm (till.overdue (afterHours 3 (by decide)) (.ofSeconds 3600)) ∧
      line.Pairwise Earlier ∧ line.length = 2 ∧
      (∃ n r, (answer 0 (.reclaim (.ofSeconds 3600) 1)).run
          (surroundings {} (afterHours 3 (by decide)) unheard) till = (some (.ok n), r) ∧
        TakesBack {} (afterHours 3 (by decide)) (line.take 1) till r n) ∧
      (scanned 0 {} unheard (afterHours 3 (by decide)) (.ofSeconds 3600) 1 2 till).overdue
        (afterHours 3 (by decide)) (.ofSeconds 3600) = [] := by
  have distinct : (till.inFlight.map Prod.fst).Nodup := by decide
  obtain ⟨line, perm, sorted, scan, -, all⟩ := reclaim_takes_earliest_overdue {} 0 unheard
    (afterHours 3 (by decide)) (.ofSeconds 3600) 1 distinct
  have two : line.length = 2 := perm.length_eq.trans (by decide)
  exact ⟨distinct, line, perm, sorted, two, scan, all (Nat.le_refl 1) 2 (by rw [two])⟩

end LocalQueue

end ClaimQueue
