import ClaimQueue.Proofs.Agreement.Reclaim

/-! Any number of calls, one after the other. A broker and a queue in memory that begin empty
correspond after each call, so they give the same all along. -/

namespace ClaimQueue

namespace Agreement

open Broker

variable {rounds : Nat} {policy : RetryPolicy} {around : LocalQueue.Surroundings}
  {taken : List Taken} {line : List (Nat × Task)} {l : Ledger} {w : Server}

/-- One call. The first round is all that a pop needs. -/
theorem agrees {t : Turn} (h : Mirrors taken line l w) (proper : l.Proper policy t) :
    Agrees (rounds + 1) policy around l w t := by
  obtain ⟨s, clock, request⟩ := t
  cases request with
  | result id => exact agrees_result h proper
  | call c =>
    cases c with
    | enqueue task => exact agrees_enqueue h proper
    | pop block timeout => exact agrees_pop h proper
    | ack id => exact agrees_ack h proper
    | release id => exact agrees_release h proper
    | publish r => exact agrees_publish h proper
    | reclaim idle batch => exact agrees_reclaim h proper
    | counts => exact agrees_counts h proper
    | deadLetters limit => exact agrees_deadLetters h proper
    | replay id => exact agrees_replay h proper
    | discard id => exact agrees_discard h proper
    | awaitResult id timeout => exact proper.admits.elim
    | prune idle => exact proper.admits.elim

/-- From `w` and `q` on, the broker gives what the queue in memory gives, turn by turn, and comes to
hold the same. -/
structure Refines (rounds : Nat) (policy : RetryPolicy) (around : LocalQueue.Surroundings)
    (turns : List Turn) (w : Server) (q : LocalQueue) : Prop where
  answers : (runOnBroker rounds turns w).1 =
    (runInMemory rounds policy around turns q).1.map Answered.withoutAge
  succeeded : ∀ a ∈ (runOnBroker rounds turns w).1, a.Succeeded
  decodes : Decodes (runOnBroker rounds turns w).2 (runInMemory rounds policy around turns q).2

theorem refines_of_mirrors {turns : List Turn} (h : Mirrors taken line l w)
    (orderly : Ledger.Orderly (rounds + 1) policy around l turns) :
    Refines (rounds + 1) policy around turns w l.queue := by
  induction turns generalizing taken line l w with
  | nil =>
    exact ⟨rfl, fun _ none => (List.not_mem_nil none).elim, decodes_of h.laid h.same h.fine⟩
  | cons t turns ih =>
    obtain ⟨proper, orderly⟩ := orderly
    obtain ⟨⟨v, v', memory, broker, value⟩, taken, line, mirrors⟩ := agrees h proper
    have rest := ih mirrors orderly
    have same : (⟨t.request, (t.onBroker (rounds + 1) w).1⟩ : Answered) =
        Answered.withoutAge ⟨t.request, (t.inMemory (rounds + 1) policy around l.queue).1⟩ := by
      rw [broker, memory, value]
    exact ⟨List.cons_eq_cons.mpr ⟨same, rest.answers⟩,
      List.forall_mem_cons.mpr ⟨⟨v', broker⟩, rest.succeeded⟩, rest.decodes⟩

/-- For calls that do not overlap, a broker is as good as a queue in memory. -/
theorem broker_refines_memory {rounds : Nat} {policy : RetryPolicy}
    {around : LocalQueue.Surroundings} (clock : Instant) {turns : List Turn}
    (orderly : Ledger.Orderly (rounds + 1) policy around {} turns) :
    Refines (rounds + 1) policy around turns { grouped := true, clock } {} :=
  refines_of_mirrors (mirrors_empty clock) orderly

private def sixpence : Task := ⟨.evaluate, "sixpence", [], .empty, 0, .epoch, 1⟩

private def paid : TaskResult := .ok sixpence [] .epoch

/-- Whose task is once given up is dead. -/
private def strict : RetryPolicy := { maxRetry := 0 }

private def client (name : String) : Settings := { consumer := name, retry := strict }

private def atSecond (n : Fin 86400) : Instant :=
  { Instant.epoch with second := n, second_range := n.2, leap := fun h => absurd h (by decide) }

/-- Client `a` goes silent with a task, and `b` brings it to an end. -/
private def handedOver : List Turn := [
  ⟨client "a", atSecond 0, .call (.enqueue sixpence)⟩,
  ⟨client "a", atSecond 0, .call (.pop false ⟨0⟩)⟩,
  ⟨client "b", atSecond 60, .call (.reclaim (.ofSeconds 30) 100)⟩,
  ⟨client "b", atSecond 60, .call (.replay "sixpence")⟩,
  ⟨client "b", atSecond 60, .call (.pop false ⟨0⟩)⟩,
  ⟨client "b", atSecond 60, .call (.publish paid)⟩,
  ⟨client "b", atSecond 60, .call (.ack "sixpence")⟩,
  ⟨client "a", atSecond 60, .result "sixpence"⟩]

private def quiet : LocalQueue.Surroundings
  | .access (.enqueue _) | .access (.release _) => false
  | .access (.replay _) | .access (.discard _) => false
  | .access .take => none
  | .access (.ack _) | .access (.save _) => ()
  | .access (.reclaim _ _ _) => (0 : Nat)
  | .access (.counts _) => ⟨0, 0, 0, none⟩
  | .access (.deadLetters _) => []
  | .access (.result _) => none
  | .access .resultIds => []
  | .clock => .epoch
  | .elapsed => ⟨0⟩
  | .ring | .announce => ()
  | .announced => (0 : Nat)
  | .attend _ | .attendResult _ _ => false

private theorem proper_next {l : Ledger} {name : String} {n : Fin 86400} {r : Request}
    (named : name ≠ "") {last : Instant} (clock : l.clock = some last)
    (forward : 0 ≤ (atSecond n).since last) (admits : l.Admits ⟨client name, atSecond n, r⟩ r) :
    l.Proper strict ⟨client name, atSecond n, r⟩ where
  named := named
  retry := rfl
  clock := ⟨(by decide : 0 < 1000000000), rfl⟩
  forward c now := by
    cases clock.symm.trans now
    exact forward
  admits := admits

private theorem handedOver_orderly : Ledger.Orderly 1 strict quiet {} handedOver := by
  have first : Ledger.Proper strict {} ⟨client "a", atSecond 0, .call (.enqueue sixpence)⟩ :=
    ⟨by decide, rfl, ⟨by decide, by decide⟩, fun _ none => absurd none (by simp),
      by decide, by decide, ⟨.nil, trivial⟩, by decide +kernel⟩
  refine ⟨first, proper_next (by decide) rfl (by decide) ⟨rfl, fun _ none => absurd none (by simp [Ledger.after, Request.isPop])⟩,
    proper_next (by decide) rfl (by decide) ⟨by decide, by decide +kernel⟩,
    proper_next (by decide) rfl (by decide) trivial,
    proper_next (by decide) rfl (by decide) ⟨rfl, fun _ last => ?_⟩,
    proper_next (by decide) rfl (by decide) ⟨⟨.nil, trivial⟩, by decide +kernel⟩,
    proper_next (by decide) rfl (by decide) (.inr (by decide +kernel)),
    proper_next (by decide) rfl (by decide) trivial, trivial⟩
  cases last
  decide

/-- The two agree where a task changes hands. -/
theorem broker_refines_memory_handedOver : Ledger.Orderly 1 strict quiet {} handedOver ∧
    Refines 1 strict quiet handedOver { grouped := true, clock := .epoch } {} :=
  ⟨handedOver_orderly, broker_refines_memory .epoch handedOver_orderly⟩

end Agreement

end ClaimQueue
