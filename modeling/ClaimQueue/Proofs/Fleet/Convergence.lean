import ClaimQueue.Fleet.Spawner
import ClaimQueue.Proofs.Program

/-! A spawner's rounds over a queue whose depth does not change, with a launcher whose workers stay
and take nothing. A worker that holds a claim is told from an idle one by counting alone, so with
more claims than workers every worker passes for a busy one. Main statement: the workers still become
as many as are needed, and not more. -/

namespace ClaimQueue

namespace Spawner

/-- The queue always shows the same depth, and every launch adds a worker, which stays. -/
def steady (depth : QueueCounts) (queue : (c : QueueCall) → Except QueueError c.Value)
    (name : Nat → String) : (q : Ask) → Nat → q.Answer × Nat
  | .queue .counts, live => (.ok depth, live)
  | .queue c, live => (queue c, live)
  | .launcher .live, live => (live, live)
  | .launcher .launch, live => (.ok (name live), live + 1)

def rounds (c : Config) : Nat → Program asks (List (Except QueueError Report))
  | 0 => pure []
  | n + 1 => do
    let r ← (tick c).run
    return r :: (← rounds c n)

/-- A worker for each claim and for each task, and the spare ones. -/
def demand (c : Config) (depth : QueueCounts) : Nat :=
  depth.inFlight + depth.pending + c.desiredIdle

/-- What a round starts while `live` workers are alive. -/
def starts (c : Config) (depth : QueueCounts) (live : Nat) : Nat :=
  planLaunches depth.pending (live - depth.inFlight) c.desiredIdle c.maxParallel

def report (c : Config) (depth : QueueCounts) (live : Nat) : Report where
  pending := depth.pending
  inFlight := depth.inFlight
  live := live
  idle := live - depth.inFlight
  launched := starts c depth live

variable {c : Config} {depth : QueueCounts} {queue : (c : QueueCall) → Except QueueError c.Value}
  {name : Nat → String}

theorem run_launch (wanted live : Nat) (r : Report) :
    (launch wanted r).run (steady depth queue name) live =
      (some { r with launched := r.launched + wanted }, live + wanted) := by
  induction wanted generalizing live r with
  | zero => rfl
  | succ wanted ih =>
    have next := ih (live + 1) { r with launched := r.launched + 1 }
    rw [Nat.add_assoc, Nat.add_assoc, Nat.add_comm 1 wanted] at next
    exact next

theorem run_tick (off : c.reclaim = none) (live : Nat) :
    (tick c).run.run (steady depth queue name) live =
      (some (.ok (report c depth live)), live + starts c depth live) := by
  let start : Report := ⟨depth.pending, depth.inFlight, live, live - depth.inFlight, 0, 0, 0, 0⟩
  have counted : { start with launched := start.launched + starts c depth live } =
      report c depth live := by
    simp [start, report]
  have launched : (launch (starts c depth live) start).run (steady depth queue name) live =
      (some (report c depth live), live + starts c depth live) :=
    counted ▸ run_launch (starts c depth live) live start
  have lifted : (liftM (launch (starts c depth live) start) : Job Report).run.run
      (steady depth queue name) live =
      (some (.ok (report c depth live)), live + starts c depth live) :=
    Program.run_bind_of_some launched
  unfold tick
  rw [off]
  exact Program.run_bind_of_some lifted

/-! One round. -/

/-- What the pool comes to. -/
def goal (c : Config) (depth : QueueCounts) (live : Nat) : Nat := max live (demand c depth)

theorem starts_le (c : Config) (depth : QueueCounts) (live : Nat) :
    starts c depth live ≤ c.maxParallel := Nat.min_le_right _ _

/-- With fewer workers than claims none counts as idle, and what is started makes good for less than
all that lack. -/
theorem live_add_starts_le (c : Config) (depth : QueueCounts) (live : Nat) :
    live + starts c depth live ≤ goal c depth live := by
  unfold starts planLaunches goal demand
  omega

theorem starts_of_enough {live : Nat} (enough : demand c depth ≤ live) :
    starts c depth live = 0 := by
  unfold demand at enough
  unfold starts planLaunches
  omega

theorem starts_pos {live : Nat} (capacity : 0 < c.maxParallel) (fits : demand c depth ≤ ceiling)
    (wanted : 0 < depth.pending + c.desiredIdle) (few : live < demand c depth) :
    0 < starts c depth live := by
  unfold demand at fits few
  unfold starts planLaunches
  omega

theorem starts_of_nothing {live : Nat} (nothing : depth.pending + c.desiredIdle = 0) :
    starts c depth live = 0 := by
  unfold starts planLaunches
  omega

/-- A round does not change the goal. -/
theorem goal_starts (c : Config) (depth : QueueCounts) (live : Nat) :
    goal c depth (live + starts c depth live) = goal c depth live := by
  have bound := live_add_starts_le c depth live
  unfold goal at bound ⊢
  omega

/-! Any number of rounds. -/

/-- The reports of `n` rounds. -/
def reports (c : Config) (depth : QueueCounts) : Nat → Nat → List Report
  | 0, _ => []
  | n + 1, live => report c depth live :: reports c depth n (live + starts c depth live)

/-- How many workers were started in some rounds. -/
def launches : List Report → Nat
  | [] => 0
  | r :: rs => r.launched + launches rs

theorem run_rounds (off : c.reclaim = none) (n live : Nat) :
    (rounds c n).run (steady depth queue name) live =
      (some ((reports c depth n live).map .ok), live + launches (reports c depth n live)) := by
  induction n generalizing live with
  | zero => rfl
  | succ n ih =>
    have rest := ih (live + starts c depth live)
    rw [Nat.add_assoc] at rest
    exact (Program.run_bind_of_some (run_tick off live)).trans (Program.run_bind_of_some rest)

theorem length_reports (c : Config) (depth : QueueCounts) (n live : Nat) :
    (reports c depth n live).length = n := by
  induction n generalizing live with
  | zero => rfl
  | succ n ih => rw [reports, List.length_cons, ih]

/-- A round finds alive what was there at first and what the rounds before it have started. -/
theorem getElem?_reports {n k live : Nat} {r : Report}
    (found : (reports c depth n live)[k]? = some r) :
    r = report c depth (live + launches ((reports c depth n live).take k)) := by
  induction n generalizing k live with
  | zero => cases found
  | succ n ih =>
    cases k with
    | zero =>
      cases found
      rfl
    | succ k =>
      have rest := ih found
      rw [Nat.add_assoc] at rest
      exact rest

theorem live_add_launches_le (c : Config) (depth : QueueCounts) (n live : Nat) :
    live + launches (reports c depth n live) ≤ goal c depth live := by
  induction n generalizing live with
  | zero => exact Nat.le_max_left _ _
  | succ n ih =>
    have rest := ih (live + starts c depth live)
    rw [goal_starts, Nat.add_assoc] at rest
    exact rest

theorem take_reports (c : Config) (depth : QueueCounts) {k n : Nat} (le : k ≤ n) (live : Nat) :
    (reports c depth n live).take k = reports c depth k live := by
  induction k generalizing n live with
  | zero => rfl
  | succ k ih =>
    cases n with
    | zero => exact absurd le (Nat.not_succ_le_zero k)
    | succ n => rw [reports, List.take_succ_cons, ih (Nat.le_of_succ_le_succ le), reports]

/-- Each round brings the goal nearer by one at least. -/
theorem goal_le_of_rounds (capacity : 0 < c.maxParallel) (fits : demand c depth ≤ ceiling)
    (wanted : 0 < depth.pending + c.desiredIdle) {n live : Nat} (many : goal c depth live ≤ live + n) :
    goal c depth live ≤ live + launches (reports c depth n live) := by
  induction n generalizing live with
  | zero => exact many
  | succ n ih =>
    have nearer : goal c depth live ≤ live + starts c depth live + n := by
      by_cases enough : demand c depth ≤ live
      · have reached : goal c depth live = live := Nat.max_eq_left enough
        omega
      · have first := starts_pos capacity fits wanted (Nat.lt_of_not_le enough)
        omega
    have rest := @ih (live + starts c depth live)
    rw [goal_starts] at rest
    exact Nat.le_trans (rest nearer) (Nat.le_of_eq (Nat.add_assoc _ _ _))

/-- Rounds over a queue that shows `depth` all along, with `live` workers at first. Every round goes
well and finds alive those that were there and those that were started, so the pool never shrinks. It
stays within the goal, which is what was there or what is needed, whichever is more. With no task and
no wish for spares nothing is started; otherwise each round starts one worker at least and no more
than allowed, until the goal is reached, and none after that. -/
theorem rounds_converge (c : Config) (depth : QueueCounts)
    (queue : (c : QueueCall) → Except QueueError c.Value) (name : Nat → String)
    (off : c.reclaim = none) (capacity : 1 ≤ c.maxParallel)
    (fits : depth.inFlight + depth.pending + c.desiredIdle ≤ ceiling) (n live : Nat) :
    ∃ rs : List Report,
      (rounds c n).run (steady depth queue name) live =
        (some (rs.map .ok), live + launches rs) ∧
      rs.length = n ∧
      live + launches rs ≤
        max live (depth.inFlight + depth.pending + c.desiredIdle) ∧
      (∀ k r, rs[k]? = some r →
        r.live = live + launches (rs.take k) ∧
        r.live ≤ max live (depth.inFlight + depth.pending + c.desiredIdle) ∧
        r.launchFailures = 0 ∧
        (depth.pending + c.desiredIdle = 0 → r.launched = 0) ∧
        (1 ≤ depth.pending + c.desiredIdle →
          (r.live ≠ max live (depth.inFlight + depth.pending + c.desiredIdle) →
            1 ≤ r.launched ∧ r.launched ≤ c.maxParallel) ∧
          (r.live = max live (depth.inFlight + depth.pending + c.desiredIdle) →
            r.launched = 0))) ∧
      (1 ≤ depth.pending + c.desiredIdle →
        max live (depth.inFlight + depth.pending + c.desiredIdle) - live ≤ n →
        live + launches rs =
          max live (depth.inFlight + depth.pending + c.desiredIdle)) := by
  have within := live_add_launches_le c depth n live
  refine ⟨reports c depth n live, run_rounds off n live, length_reports c depth n live, within, ?_, ?_⟩
  · intro k r found
    obtain rfl := getElem?_reports found
    have le : k ≤ n := by
      have bound := (List.getElem?_eq_some_iff.mp found).1
      rw [length_reports] at bound
      exact Nat.le_of_lt bound
    have below := live_add_launches_le c depth k live
    rw [take_reports c depth le] at found ⊢
    refine ⟨rfl, below, rfl, starts_of_nothing, fun wanted => ⟨fun less => ?_, fun reached => ?_⟩⟩
    · have few : live + launches (reports c depth k live) < demand c depth := by
        have short : live + launches (reports c depth k live) < goal c depth live :=
          Nat.lt_of_le_of_ne below less
        unfold goal at short
        omega
      exact ⟨starts_pos capacity fits wanted few, starts_le c depth _⟩
    · exact starts_of_enough (Nat.le_trans (Nat.le_max_right live _) (Nat.le_of_eq reached.symm))
  · intro wanted many
    have enough : goal c depth live ≤ live + n := by
      unfold goal demand
      omega
    exact Nat.le_antisymm within (goal_le_of_rounds capacity fits wanted enough)

/-- Two workers at first, five claims, two tasks and a wish for one spare worker. -/
theorem rounds_converge_to_eight :
    ∃ rs : List Report,
      (rounds { desiredIdle := 1, maxParallel := 2, reclaim := none } 6).run
          (steady ⟨2, 5, 0, none⟩ (fun _ => .error (.transport "")) fun _ => "w") 2 =
        (some (rs.map .ok), 8) ∧
      rs.length = 6 := by
  obtain ⟨rs, ran, all, -, -, last⟩ :=
    rounds_converge { desiredIdle := 1, maxParallel := 2, reclaim := none } ⟨2, 5, 0, none⟩
      (fun _ => .error (.transport "")) (fun _ => "w") rfl (by decide) (by decide) 6 2
  have reached : 2 + launches rs = 8 := last (by decide) (by decide)
  rw [reached] at ran
  exact ⟨rs, ran, all⟩

end Spawner

end ClaimQueue
