import ClaimQueue.Local.Crowd
import ClaimQueue.Proofs.Local.Runs
import ClaimQueue.Proofs.Local.Waits
import Mathlib.Data.List.Nodup

/-! Wake-ups and tasks, counted against each other. While anyone sleeps, no more tasks are pending
than are made up for by those who were woken, those back from the bell who are about to look, and
the rings that are still owed. Here is the count, and what one caller's step must do to keep it. -/

namespace ClaimQueue

namespace LocalQueue

/-- What a caller is in the midst of. -/
inductive Sane : Underway → Prop
  | pops {timeout : Span} {p : PopSteps} (h : Popping p) : Sane ⟨.call (.pop true timeout), p⟩
  | works {u : Undertaking} {p : Steps u.Outcome} (rings : Rings p)
      (other : ∀ timeout, u ≠ .call (.pop true timeout)) : Sane ⟨u, p⟩

/-- A caller's pop, and what is left of it. -/
def PopsAt (callers : List Caller) (i : Nat) (p : PopSteps) : Prop :=
  ∃ c timeout, callers[i]? = some c ∧ c.current = some ⟨.call (.pop true timeout), p⟩

def owes (c : Caller) : Nat :=
  match c.current with
  | some u => owed u.rest
  | none => 0

def owing : List Caller → Nat
  | [] => 0
  | c :: rest => owes c + owing rest

theorem owing_set {callers : List Caller} {i : Nat} {c : Caller} (found : callers[i]? = some c)
    (c' : Caller) : owing (callers.set i c') + owes c = owing callers + owes c' := by
  induction callers generalizing i with
  | nil => cases found
  | cons d rest ih =>
    cases i with
    | zero =>
      cases found
      simp only [List.set_cons_zero, owing]
      omega
    | succ i =>
      have tail := ih found
      simp only [List.set_cons_succ, owing]
      omega

theorem owing_eq_zero {callers : List Caller} (none : ∀ c ∈ callers, owes c = 0) :
    owing callers = 0 := by
  induction callers with
  | nil => rfl
  | cons c rest ih =>
    rw [List.forall_mem_cons] at none
    rw [owing, none.1, ih none.2]

theorem owes_settle (c : Caller) : owes c.settle = owes c := by
  rcases settle_cases c with ⟨u, o, current, settled⟩ | settled
  · rw [settled, owes, owes, current]
    rfl
  · rw [settled]

theorem current_of_settle {c : Caller} {u : Underway} (h : c.settle.current = some u) :
    c.current = some u := by
  rcases settle_cases c with ⟨v, o, current, settled⟩ | settled
  · rw [settled] at h
    cases h
  · rwa [settled] at h

theorem owing_go {callers : List Caller} {i : Nat} {c : Caller} {u : Undertaking}
    {p q : Steps u.Outcome} (found : callers[i]? = some c) (current : c.current = some ⟨u, p⟩) :
    owing (callers.set i ({ c with current := some ⟨u, q⟩ } : Caller).settle) + owed p =
      owing callers + owed q := by
  have paid := owing_set found ({ c with current := some ⟨u, q⟩ } : Caller).settle
  have before : owes c = owed p := by
    rw [owes, current]
  rwa [owes_settle, before] at paid

/-! The count. -/

variable {callers callers' : List Caller} {pending pending' : List Task} {bell bell' : Bell}
  {roused roused' : List Nat} {i : Nat} {c c' : Caller}

structure Watched (callers : List Caller) (pending : List Task) (bell : Bell)
    (roused : List Nat) : Prop where
  sane : ∀ (i : Nat) (c : Caller) (u : Underway), callers[i]? = some c → c.current = some u →
    Sane u
  registered : ∀ i ∈ bell.registered,
    ∃ rounds deadline, PopsAt callers i (attending rounds deadline)
  once : bell.registered.Nodup
  looks : ∀ i ∈ roused, ∃ rounds deadline, PopsAt callers i (looking rounds deadline)
  rousedOnce : roused.Nodup
  between : ∀ i rounds deadline, PopsAt callers i (attending rounds deadline) →
    i ∈ bell.registered ∨ pending = []
  kept : bell.waiting ≠ [] → bell.kept = false
  enough : bell.waiting ≠ [] → pending.length ≤ bell.woken.length + owing callers + roused.length

/-- What one caller's step has to keep. -/
theorem Watched.change (h : Watched callers pending bell roused)
    (others : ∀ j, j ≠ i → callers'[j]? = callers[j]?) (own : callers'[i]? = some c')
    (sane : ∀ u, c'.current = some u → Sane u)
    (registered : ∀ j, j ≠ i → (j ∈ bell'.registered ↔ j ∈ bell.registered))
    (ownRegistered : i ∈ bell'.registered → ∃ timeout rounds deadline,
      c'.current = some ⟨.call (.pop true timeout), attending rounds deadline⟩)
    (once : bell'.registered.Nodup)
    (stillRoused : ∀ j, j ≠ i → j ∈ roused' → j ∈ roused)
    (ownRoused : i ∈ roused' → ∃ timeout rounds deadline,
      c'.current = some ⟨.call (.pop true timeout), looking rounds deadline⟩)
    (rousedOnce : roused'.Nodup)
    (between : ∀ j rounds deadline, j ≠ i → PopsAt callers j (attending rounds deadline) →
      j ∈ bell.registered ∨ pending' = [])
    (ownBetween : ∀ timeout rounds deadline,
      c'.current = some ⟨.call (.pop true timeout), attending rounds deadline⟩ →
      i ∈ bell'.registered ∨ pending' = [])
    (kept : bell'.waiting ≠ [] → bell'.kept = false)
    (enough : bell'.waiting ≠ [] →
      pending'.length ≤ bell'.woken.length + owing callers' + roused'.length) :
    Watched callers' pending' bell' roused' := by
  have popsAt {j : Nat} (other : j ≠ i) (p : PopSteps) :
      PopsAt callers' j p ↔ PopsAt callers j p := by
    simp only [PopsAt, others j other]
  have popsNow (p : PopSteps) : PopsAt callers' i p ↔
      ∃ timeout, c'.current = some ⟨.call (.pop true timeout), p⟩ := by
    simp [PopsAt, own]
  refine ⟨fun j d u found current => ?_, fun j mem => ?_, once, fun j mem => ?_, rousedOnce,
    fun j rounds deadline pops => ?_, kept, enough⟩
  · by_cases same : j = i
    · subst same
      cases own.symm.trans found
      exact sane u current
    · exact h.sane j d u ((others j same).symm.trans found) current
  · by_cases same : j = i
    · subst same
      obtain ⟨timeout, rounds, deadline, current⟩ := ownRegistered mem
      exact ⟨rounds, deadline, (popsNow _).mpr ⟨timeout, current⟩⟩
    · obtain ⟨rounds, deadline, pops⟩ := h.registered j ((registered j same).mp mem)
      exact ⟨rounds, deadline, (popsAt same _).mpr pops⟩
  · by_cases same : j = i
    · subst same
      obtain ⟨timeout, rounds, deadline, current⟩ := ownRoused mem
      exact ⟨rounds, deadline, (popsNow _).mpr ⟨timeout, current⟩⟩
    · obtain ⟨rounds, deadline, pops⟩ := h.looks j (stillRoused j same mem)
      exact ⟨rounds, deadline, (popsAt same _).mpr pops⟩
  · by_cases same : j = i
    · subst same
      obtain ⟨timeout, current⟩ := (popsNow _).mp pops
      exact ownBetween timeout rounds deadline current
    · exact (between j rounds deadline same ((popsAt same _).mp pops)).imp_left
        (registered j same).mpr

theorem popsAt_inj {p q : PopSteps} (first : PopsAt callers i p) (second : PopsAt callers i q) :
    p = q := by
  obtain ⟨c, timeout, found, current⟩ := first
  obtain ⟨c', timeout', found', current'⟩ := second
  cases found.symm.trans found'
  cases current.symm.trans current'
  rfl

/-- One who is in the midst of other things is not registered. -/
theorem Watched.not_registered (h : Watched callers pending bell roused)
    (found : callers[i]? = some c) (other : ∀ timeout rounds deadline,
      c.current ≠ some ⟨.call (.pop true timeout), attending rounds deadline⟩) :
    i ∉ bell.registered := by
  intro mem
  obtain ⟨rounds, deadline, c', timeout, found', current⟩ := h.registered i mem
  cases found.symm.trans found'
  exact other timeout rounds deadline current

theorem Watched.not_roused (h : Watched callers pending bell roused) (found : callers[i]? = some c)
    (other : ∀ timeout rounds deadline,
      c.current ≠ some ⟨.call (.pop true timeout), looking rounds deadline⟩) : i ∉ roused := by
  intro mem
  obtain ⟨rounds, deadline, c', timeout, found', current⟩ := h.looks i mem
  cases found.symm.trans found'
  exact other timeout rounds deadline current

/-! Single steps of a caller. -/

theorem go_access {y : System} {u : Undertaking} {a : Access} {next : a.Answer → Steps u.Outcome}
    (found : y.callers[i]? = some c) (current : c.current = some ⟨u, .ask (.access a) next⟩)
    (around : Surroundings) :
    (y.go i around).queue = (a.perform y.policy (around .clock) y.queue).2 ∧
      (y.go i around).callers = y.callers.set i { c with
        current := some ⟨u, next (a.perform y.policy (around .clock) y.queue).1⟩ }.settle := by
  simp only [System.go, found, current]
  exact ⟨rfl, rfl⟩

theorem go_other {y : System} {u : Undertaking} {s : Step} {next : s.Answer → Steps u.Outcome}
    (found : y.callers[i]? = some c) (current : c.current = some ⟨u, .ask s next⟩)
    (other : ∀ a, s ≠ .access a) (around : Surroundings) :
    (y.go i around).queue = y.queue ∧ (y.go i around).callers =
      y.callers.set i { c with current := some ⟨u, next (around s)⟩ }.settle := by
  cases s with
  | access a => exact (other a rfl).elim
  | _ => simp [System.go, found, current]

theorem asked?_eq {y : System} {u : Undertaking} {s : Step} {next : s.Answer → Steps u.Outcome}
    (found : y.callers[i]? = some c) (current : c.current = some ⟨u, .ask s next⟩) :
    y.asked? i = some s := by
  obtain ⟨now, history⟩ := c
  cases current
  simp only [System.asked?, found]

theorem Watched.set (h : Watched callers pending bell roused) (found : callers[i]? = some c)
    (sane : ∀ u, c'.current = some u → Sane u)
    (registered : ∀ j, j ≠ i → (j ∈ bell'.registered ↔ j ∈ bell.registered))
    (off : i ∉ bell'.registered) (once : bell'.registered.Nodup)
    (stillRoused : ∀ j, j ≠ i → j ∈ roused' → j ∈ roused)
    (ownRoused : i ∈ roused' → ∃ timeout rounds deadline,
      c'.current = some ⟨.call (.pop true timeout), looking rounds deadline⟩)
    (rousedOnce : roused'.Nodup)
    (between : ∀ j rounds deadline, j ≠ i → PopsAt callers j (attending rounds deadline) →
      j ∈ bell.registered ∨ pending' = [])
    (ownBetween : ∀ timeout rounds deadline,
      c'.current = some ⟨.call (.pop true timeout), attending rounds deadline⟩ → pending' = [])
    (kept : bell'.waiting ≠ [] → bell'.kept = false)
    (enough : bell'.waiting ≠ [] →
      pending'.length ≤ bell'.woken.length + owing (callers.set i c') + roused'.length) :
    Watched (callers.set i c') pending' bell' roused' :=
  h.change (fun _ other => List.getElem?_set_ne other.symm)
    (List.getElem?_set_self (List.getElem?_eq_some_iff.mp found).1) sane registered
    (fun mem => (off mem).elim) once stillRoused ownRoused rousedOnce between
    (fun timeout rounds deadline current => .inr (ownBetween timeout rounds deadline current)) kept
    enough

/-- One who is not asking for a task with leave to wait goes on, or begins. -/
theorem Watched.work (h : Watched callers pending bell roused) (found : callers[i]? = some c)
    (before : ∀ timeout p, c.current ≠ some ⟨.call (.pop true timeout), p⟩)
    (after : ∀ timeout p, c'.current ≠ some ⟨.call (.pop true timeout), p⟩)
    (sane : ∀ u, c'.current = some u → Sane u)
    (registered : bell'.registered.Perm bell.registered)
    (between : ∀ j rounds deadline, PopsAt callers j (attending rounds deadline) →
      j ∈ bell.registered ∨ pending' = [])
    (kept : bell'.waiting ≠ [] → bell'.kept = false)
    (enough : bell'.waiting ≠ [] →
      pending'.length ≤ bell'.woken.length + owing (callers.set i c') + roused.length) :
    Watched (callers.set i c') pending' bell' roused := by
  have free := h.not_registered found fun timeout _ _ => before timeout _
  have calm := h.not_roused found fun timeout _ _ => before timeout _
  exact h.set found sane (fun j _ => registered.mem_iff)
    (fun mem => free (registered.mem_iff.mp mem)) (registered.nodup_iff.mpr h.once)
    (fun _ _ mem => mem) (fun mem => (calm mem).elim) h.rousedOnce
    (fun j rounds deadline _ => between j rounds deadline)
    (fun timeout _ _ current => (after timeout _ current).elim) kept enough

end LocalQueue

end ClaimQueue
