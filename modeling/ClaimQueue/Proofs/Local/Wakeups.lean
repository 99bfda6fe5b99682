import ClaimQueue.Proofs.Local.Watch

/-! Nobody sleeps beside a task for good, as long as nothing comes to pending between a vain look
and the registration after it, and nobody is dropped between his wake-up and his look. Without these
two a pop can. -/

namespace ClaimQueue

namespace LocalQueue

variable {callers : List Caller} {pending' : List Task} {bell' : Bell} {i : Nat} {c c' : Caller}

namespace Crowd

variable {y : Crowd} {u : Undertaking}

def Held (y : Crowd) : Prop := Watched y.callers y.queue.pending y.bell y.roused

/-- Nothing comes to pending while one who has looked in vain is not registered. -/
def Calm (y : Crowd) (after : Crowd) : Prop :=
  y.queue.pending.length < after.queue.pending.length →
    ∀ i deadline, y.asked? i = some (.attend deadline) → i ∈ y.bell.registered

theorem Held.between_of_calm (h : y.Held) {after : Crowd} (calm : y.Calm after) {j rounds : Nat}
    {deadline : Span} (pops : PopsAt y.callers j (attending rounds deadline)) :
    j ∈ y.bell.registered ∨ after.queue.pending = [] := by
  by_cases grew : y.queue.pending.length < after.queue.pending.length
  · obtain ⟨c, timeout, found, current⟩ := pops
    exact .inl (calm grew j deadline (asked?_eq found current))
  · refine (h.between j rounds deadline pops).imp_right fun none => ?_
    rw [none] at grew
    exact List.length_eq_zero_iff.mp (Nat.le_zero.mp (Nat.le_of_not_lt grew))

theorem go_eq {s : Step} (asked : y.asked? i = some s) (off : ∀ deadline, s ≠ .attend deadline)
    (silent : s ≠ .ring) (around : Surroundings) : y.go i around =
      { y with toSystem := y.toSystem.go i around, roused := y.roused.erase i } := by
  cases s with
  | attend deadline => exact (off deadline rfl).elim
  | ring => exact (silent rfl).elim
  | _ => simp only [Crowd.go, asked]

/-- One step of work, with the tasks that it brings and the rings that are owed after it. -/
theorem Held.onward {p q : Steps u.Outcome} (h : y.Held) (found : y.callers[i]? = some c)
    (current : c.current = some ⟨u, p⟩) (other : ∀ timeout, u ≠ .call (.pop true timeout))
    (rings : Rings q) (registered : bell'.registered.Perm y.bell.registered)
    (between : ∀ j rounds deadline, PopsAt y.callers j (attending rounds deadline) →
      j ∈ y.bell.registered ∨ pending' = [])
    (count : bell'.waiting ≠ [] → y.bell.waiting ≠ [] ∧ bell'.kept = y.bell.kept ∧
      pending'.length + owed p + y.bell.woken.length ≤
        y.queue.pending.length + owed q + bell'.woken.length) :
    Watched (y.callers.set i ({ c with current := some ⟨u, q⟩ } : Caller).settle) pending' bell'
      y.roused := by
  refine Watched.work h found (fun timeout p' same => ?_) (fun timeout p' same => ?_)
    (fun v same => ?_) registered between (fun asleep => ?_) fun asleep => ?_
  · cases current.symm.trans same
    exact other timeout rfl
  · cases current_of_settle same
    exact other timeout rfl
  · cases current_of_settle same
    exact .works rings other
  · obtain ⟨waiting, kept, -⟩ := count asleep
    exact kept.trans (h.kept waiting)
  · obtain ⟨waiting, -, brought⟩ := count asleep
    have paid := owing_go (q := q) found current
    have enough := h.enough waiting
    omega

theorem Held.work {s : Step} {next : s.Answer → Steps u.Outcome} (h : y.Held)
    (found : y.callers[i]? = some c) (current : c.current = some ⟨u, .ask s next⟩)
    (rings : Rings (.ask s next)) (other : ∀ timeout, u ≠ .call (.pop true timeout))
    (around : Surroundings) (calm : y.Calm (y.go i around)) : (y.go i around).Held := by
  have asked := asked?_eq found current
  have between (j rounds : Nat) (deadline : Span)
      (pops : PopsAt y.callers j (attending rounds deadline)) := h.between_of_calm calm pops
  have off (deadline : Span) : s ≠ .attend deadline := by
    rintro rfl
    exact rings.elim
  have unroused : i ∉ y.roused := h.not_roused found fun timeout _ _ same =>
    other timeout (congrArg Underway.undertaking (Option.some.inj (current.symm.trans same)))
  by_cases ring : s = .ring
  · subst ring
    have stepped : y.go i around =
        { y with toSystem := y.toSystem.go i around, bell := y.bell.ring } := by
      simp only [Crowd.go, asked]
    obtain ⟨queue, callers⟩ := go_other found current (fun _ => nofun) around
    rw [stepped] at between ⊢
    show Watched (y.toSystem.go i around).callers (y.toSystem.go i around).queue.pending y.bell.ring
      y.roused
    rw [callers]
    refine h.onward found current other (rings _) y.bell.registered_ring between fun asleep => ?_
    obtain ⟨waiting, woken, kept⟩ := Bell.ring_of_waiting asleep
    refine ⟨waiting, kept, ?_⟩
    rw [queue, woken]
    show _ + (owed (next ()) + 1) + _ ≤ _ + owed (next ()) + _
    omega
  · rw [go_eq asked off ring, List.erase_of_not_mem unroused] at between ⊢
    show Watched (y.toSystem.go i around).callers (y.toSystem.go i around).queue.pending y.bell
      y.roused
    by_cases access : ∃ a, s = .access a
    · obtain ⟨a, rfl⟩ := access
      obtain ⟨queue, callers⟩ := go_access found current around
      have brought := rings.1 y.policy (around .clock) y.queue
      rw [callers]
      refine h.onward found current other (rings.2 _) (.refl _) between fun asleep =>
        ⟨asleep, rfl, ?_⟩
      rw [queue, owed_ask ring]
      omega
    · obtain ⟨queue, callers⟩ := go_other found current (fun a same => access ⟨a, same⟩) around
      rw [callers]
      refine h.onward found current other (rings.next _) (.refl _) between fun asleep =>
        ⟨asleep, rfl, ?_⟩
      rw [queue, owed_ask ring]
      omega

/-! Steps of a pop that may wait. -/

section

variable {rounds : Nat} {timeout deadline : Span}

/-- The pop of a caller, with this left of it. -/
abbrev popping (timeout : Span) (p : PopSteps) : Option Underway :=
  some ⟨.call (.pop true timeout), p⟩

theorem sane_settle {p : PopSteps} (h : Popping p) (u : Underway)
    (now : ({ c with current := popping timeout p } : Caller).settle.current = some u) :
    Sane u := by
  cases current_of_settle now
  exact .pops h

theorem settle_looking :
    ({ c with current := popping timeout (looking rounds deadline) } : Caller).settle.current =
      popping timeout (looking rounds deadline) := by
  cases rounds with
  | zero => rfl
  | succ rounds =>
    rw [looking_succ]
    rfl

theorem begins_ne_looking {more : Nat} {first later : Span} :
    popping first (LocalQueue.answer rounds (.pop true timeout)) ≠
      popping later (looking more deadline) := by
  intro same
  cases more with
  | zero => cases same
  | succ more =>
    rw [looking_succ] at same
    cases same

theorem looks_ne_attending {more : Nat} {later last : Span} :
    popping timeout (looking rounds deadline) ≠ popping later (attending more last) := by
  intro same
  cases rounds with
  | zero => cases same
  | succ rounds =>
    rw [looking_succ] at same
    cases same

theorem owing_le_pop {p q : PopSteps} (found : callers[i]? = some c)
    (current : c.current = popping timeout p) (none : owed p = 0) :
    owing callers ≤
      owing (callers.set i ({ c with current := popping timeout q } : Caller).settle) := by
  have paid := @owing_go callers i c (.call (.pop true timeout)) p q found current
  rw [none, Nat.add_zero] at paid
  exact Nat.le.intro paid.symm

theorem Held.starts {first : Span} (h : y.Held) (found : y.callers[i]? = some c)
    (current : c.current = popping first (LocalQueue.answer rounds (.pop true timeout)))
    (around : Surroundings) : (y.go i around).Held := by
  have free : i ∉ y.bell.registered := h.not_registered found fun _ _ _ same => by
    cases current.symm.trans same
  have calm : i ∉ y.roused :=
    h.not_roused found fun _ _ _ same => begins_ne_looking (current.symm.trans same)
  obtain ⟨queue, callers⟩ := go_other found current (fun _ => nofun) around
  rw [go_eq (asked?_eq found current) (fun _ => nofun) nofun]
  show Watched (y.toSystem.go i around).callers (y.toSystem.go i around).queue.pending y.bell
    (y.roused.erase i)
  rw [List.erase_of_not_mem calm, callers, queue]
  refine Watched.set h found (sane_settle (.looks rounds _)) (fun _ _ => .rfl) free h.once
    (fun _ _ mem => mem) (fun mem => (calm mem).elim) h.rousedOnce
    (fun j rounds deadline _ => h.between j rounds deadline)
    (fun _ _ _ now => (looks_ne_attending (current_of_settle now)).elim) h.kept fun asleep => ?_
  exact Nat.le_trans (h.enough asleep)
    (Nat.add_le_add_right (Nat.add_le_add_left (owing_le_pop found current rfl) _) _)

theorem Held.looks (h : y.Held) (found : y.callers[i]? = some c)
    (current : c.current = popping timeout (looking (rounds + 1) deadline))
    (around : Surroundings) : (y.go i around).Held := by
  have free : i ∉ y.bell.registered :=
    h.not_registered found fun _ _ _ same => looks_ne_attending (current.symm.trans same)
  rw [looking_succ] at current
  obtain ⟨queue, callers⟩ := go_access found current around
  rw [go_eq (asked?_eq found current) (fun _ => nofun) nofun]
  show Watched (y.toSystem.go i around).callers (y.toSystem.go i around).queue.pending y.bell
    (y.roused.erase i)
  rw [callers, queue]
  have once : (y.roused.erase i).Nodup := h.rousedOnce.erase i
  have gone : i ∉ y.roused.erase i := h.rousedOnce.not_mem_erase
  have fewer : y.roused.length ≤ (y.roused.erase i).length + 1 := by
    rw [List.length_erase]
    split <;> omega
  cases lying : y.queue.pending with
  | nil =>
    have vain : Access.perform y.policy (around .clock) y.queue .take = (none, y.queue) := by
      simp [Access.perform, take?, lying]
    rw [vain, lying]
    exact Watched.set h found (sane_settle (.attends rounds deadline)) (fun _ _ => .rfl) free h.once
      (fun _ _ mem => List.mem_of_mem_erase mem) (fun mem => (gone mem).elim) once
      (fun _ _ _ _ _ => .inr rfl) (fun _ _ _ _ => rfl) h.kept fun _ => Nat.zero_le _
  | cons t rest =>
    have taken : Access.perform y.policy (around .clock) y.queue .take = (some t, { y.queue with
        pending := rest, inFlight := y.queue.inFlight.put t.id ⟨t, around .clock⟩ }) := by
      simp [Access.perform, take?, lying]
    rw [taken]
    refine Watched.set h found (fun _ now => ?_) (fun _ _ => .rfl) free h.once
      (fun _ _ mem => List.mem_of_mem_erase mem) (fun mem => (gone mem).elim) once
      (fun j _ _ _ pops => .inl ((h.between j _ _ pops).resolve_right ?_))
      (fun _ _ _ now => ?_) h.kept fun asleep => ?_
    · cases now
    · rw [lying]
      exact List.cons_ne_nil t rest
    · cases now
    · have enough := h.enough asleep
      rw [lying, List.length_cons] at enough
      show rest.length ≤ _
      refine Nat.le_trans ?_
        (Nat.add_le_add_right (Nat.add_le_add_left (owing_le_pop found current rfl) _) _)
      omega

/-- Back from the bell, with the wake-up that is used up by it. -/
theorem Held.rouse {bell : Bell} (h : y.Held) (found : y.callers[i]? = some c)
    (current : c.current = popping timeout (attending rounds deadline)) (around : Surroundings)
    (registered : ∀ j, j ≠ i → (j ∈ bell.registered ↔ j ∈ y.bell.registered))
    (off : i ∉ bell.registered) (once : bell.registered.Nodup)
    (asleep : bell.waiting ≠ [] → y.bell.waiting ≠ [] ∧ bell.kept = y.bell.kept ∧
      y.bell.woken.length ≤ bell.woken.length + 1) : (y.rouse i around bell).Held := by
  have calm : i ∉ y.roused :=
    h.not_roused found fun _ _ _ same => looks_ne_attending (same.symm.trans current)
  obtain ⟨queue, callers⟩ := go_other found current (fun _ => nofun) (hearing true around)
  show Watched (y.toSystem.go i (hearing true around)).callers
    (y.toSystem.go i (hearing true around)).queue.pending bell (i :: y.roused)
  rw [callers, queue]
  refine Watched.set h found (sane_settle (.looks rounds deadline)) registered off once
    (fun j other mem => (List.mem_cons.mp mem).resolve_left other)
    (fun _ => ⟨timeout, rounds, deadline, settle_looking⟩)
    (List.nodup_cons.mpr ⟨calm, h.rousedOnce⟩) (fun j _ _ _ => h.between j _ _)
    (fun _ _ _ now => (looks_ne_attending (current_of_settle now)).elim) (fun some => ?_)
    fun some => ?_
  · obtain ⟨waiting, kept, -⟩ := asleep some
    exact kept.trans (h.kept waiting)
  · obtain ⟨waiting, -, woken⟩ := asleep some
    have enough := h.enough waiting
    rw [List.length_cons]
    refine Nat.le_trans ?_
      (Nat.add_le_add_right (Nat.add_le_add_left (owing_le_pop found current rfl) _) _)
    omega

theorem Held.attends (h : y.Held) (found : y.callers[i]? = some c)
    (current : c.current = popping timeout (attending rounds deadline))
    (around : Surroundings) : (y.go i around).Held := by
  have stepped : y.go i around = y.attend i around := by
    simp only [Crowd.go, show y.asked? i = some (.attend deadline) from asked?_eq found current]
  rw [stepped, Crowd.attend]
  split
  · exact h
  · rename_i awake
    have awake : i ∉ y.bell.waiting := by simpa using awake
    by_cases woken : i ∈ y.bell.woken
    · have resumed : y.bell.resume? i = some { y.bell with woken := y.bell.woken.erase i } := by
        simp [Bell.resume?, woken]
      rw [resumed]
      have apart := List.nodup_append.mp h.once
      refine h.rouse found current around (fun j other => ?_) (fun mem => ?_) ?_ fun some => ?_
      · simp only [Bell.registered, List.mem_append, List.mem_erase_of_ne other]
      · exact (List.mem_append.mp mem).elim awake apart.2.1.not_mem_erase
      · exact h.once.sublist ((List.erase_sublist).append_left _)
      · exact ⟨some, rfl, by rw [List.length_erase_of_mem woken]; omega⟩
    · have off : i ∉ y.bell.registered := fun mem => (List.mem_append.mp mem).elim awake woken
      have stays : y.bell.resume? i = none := by simp [Bell.resume?, woken]
      rw [stays]
      cases kept : y.bell.kept with
      | true =>
        have registers : y.bell.register i = (true, { y.bell with kept := false }) := by
          simp [Bell.register, kept]
        rw [registers]
        exact h.rouse found current around (fun _ _ => .rfl) off h.once fun some =>
          ⟨some, (h.kept some).symm, Nat.le_succ _⟩
      | false =>
        have registers : y.bell.register i =
            (false, { y.bell with waiting := y.bell.waiting ++ [i] }) := by
          simp [Bell.register, kept]
        have empty : y.queue.pending = [] :=
          (h.between i rounds deadline ⟨c, timeout, found, current⟩).resolve_left off
        rw [registers]
        have perm : (y.bell.waiting ++ [i] ++ y.bell.woken).Perm (i :: y.bell.registered) := by
          rw [List.append_assoc]
          exact List.perm_middle
        refine Watched.change h (fun _ _ => rfl) found (fun u now => h.sane i c u found now)
          (fun j other => ?_) (fun _ => ⟨timeout, rounds, deadline, current⟩) ?_
          (fun _ _ mem => mem) (fun mem => ?_) h.rousedOnce (fun j _ _ _ => h.between j _ _)
          (fun _ _ _ _ => .inr empty) (fun _ => kept) fun _ => ?_
        · exact perm.mem_iff.trans (by simp [other])
        · exact perm.nodup_iff.mpr (List.nodup_cons.mpr ⟨off, h.once⟩)
        · obtain ⟨more, later, c', last, found', now⟩ := Watched.looks h i mem
          cases found.symm.trans found'
          exact ⟨last, more, later, now⟩
        · rw [empty]
          exact Nat.zero_le _

/-- A pop that may wait comes to its end without a task, and hands on what it has from the bell. -/
theorem Held.gives_up {p : PopSteps} (h : y.Held) (found : y.callers[i]? = some c)
    (current : c.current = popping timeout p) (nothing : owed p = 0) (ended : c'.current = none)
    (unused : i ∉ y.roused) :
    Watched (y.callers.set i c') y.queue.pending (y.bell.leave i) y.roused := by
  have paid := owing_set found c'
  simp only [owes, current, ended, nothing] at paid
  have left : (∀ j, j ≠ i → (j ∈ (y.bell.leave i).registered ↔ j ∈ y.bell.registered)) ∧
      i ∉ (y.bell.leave i).registered ∧ (y.bell.leave i).registered.Nodup := by
    by_cases mem : i ∈ y.bell.registered
    · have perm := Bell.registered_leave mem
      have once := List.nodup_cons.mp (perm.nodup_iff.mpr h.once)
      exact ⟨fun j other => by simp [← perm.mem_iff, other], once⟩
    · rw [Bell.leave_of_not_registered mem]
      exact ⟨fun _ _ => .rfl, mem, h.once⟩
  refine Watched.set h found (fun u now => ?_) left.1 left.2.1 left.2.2 (fun _ _ mem => mem)
    (fun mem => (unused mem).elim) h.rousedOnce (fun j _ _ _ => h.between j _ _)
    (fun _ _ _ now => ?_) (fun some => ?_) fun some => ?_
  · rw [ended] at now
    cases now
  · rw [ended] at now
    cases now
  · obtain ⟨waiting, -, kept⟩ := Bell.leave_of_waiting some
    exact kept.trans (h.kept waiting)
  · obtain ⟨waiting, woken, -⟩ := Bell.leave_of_waiting some
    have enough := h.enough waiting
    rw [woken]
    omega

theorem Held.expire (h : y.Held) (i : Nat) (around : Surroundings) : (y.expire i around).Held := by
  unfold Crowd.expire
  split
  · rename_i asleep
    have asleep : i ∈ y.bell.waiting := by simpa using asleep
    obtain ⟨rounds, deadline, c, timeout, found, current⟩ :=
      h.registered i (List.mem_append_left _ asleep)
    obtain ⟨queue, callers⟩ := go_other found current (fun _ => nofun) (hearing false around)
    show Watched (y.toSystem.go i (hearing false around)).callers
      (y.toSystem.go i (hearing false around)).queue.pending (y.bell.leave i) y.roused
    rw [callers, queue]
    exact h.gives_up found current rfl rfl
      (h.not_roused found fun _ _ _ same => looks_ne_attending (same.symm.trans current))
  · exact h

theorem Held.drop (h : y.Held) (unused : i ∉ y.roused) : (y.drop i).Held := by
  unfold Crowd.drop
  split
  · rename_i timeout p history found
    have sane := h.sane i _ _ found rfl
    cases sane with
    | works _ other => exact (other timeout rfl).elim
    | pops pops =>
      show Watched (y.callers.set i { history }) y.queue.pending (y.bell.leave i) (y.roused.erase i)
      rw [List.erase_of_not_mem unused]
      exact h.gives_up found rfl pops.owed rfl unused
  · exact h

end

/-- Idle callers begin what they like. -/
theorem Held.begin (h : y.Held) (rounds i : Nat) (u : Undertaking) :
    (y.step rounds (.begin i u)).Held := by
  show Watched (y.toSystem.step rounds (.begin i u)).callers
    (y.toSystem.step rounds (.begin i u)).queue.pending y.bell y.roused
  cases found : y.callers[i]? with
  | none =>
    simp only [System.step, found]
    exact h
  | some c =>
    simp only [System.step, found, Caller.begin]
    cases current : c.current with
    | some v =>
      obtain ⟨within, same⟩ := List.getElem?_eq_some_iff.mp found
      rw [← same, List.set_getElem_self]
      exact h
    | none =>
      have idle {v : Underway} : c.current ≠ some v := by simp [current]
      have paid := owing_set found ({ c with current := some ⟨u, u.work rounds⟩ } : Caller).settle
      rw [owes_settle, show owes c = 0 by rw [owes, current], Nat.add_zero] at paid
      have enough (asleep : y.bell.waiting ≠ []) : y.queue.pending.length ≤ y.bell.woken.length +
          owing (y.callers.set i ({ c with current := some ⟨u, u.work rounds⟩ } : Caller).settle) +
          y.roused.length := by
        have enough := h.enough asleep
        omega
      by_cases pops : ∃ timeout, u = .call (.pop true timeout)
      · obtain ⟨timeout, rfl⟩ := pops
        refine Watched.set h found (sane_settle (.begins rounds timeout)) (fun _ _ => .rfl)
          (h.not_registered found fun _ _ _ => idle) h.once (fun _ _ mem => mem)
          (fun mem => (h.not_roused found (fun _ _ _ => idle) mem).elim) h.rousedOnce
          (fun j _ _ _ => h.between j _ _) (fun _ _ _ now => ?_) h.kept enough
        cases current_of_settle now
      · have other (timeout : Span) : u ≠ .call (.pop true timeout) :=
          fun same => pops ⟨timeout, same⟩
        refine Watched.work h found (fun _ _ => idle) (fun timeout p now => ?_) (fun v now => ?_)
          (.refl _) (fun j _ _ => h.between j _ _) h.kept enough
        · cases current_of_settle now
          exact other timeout rfl
        · cases current_of_settle now
          exact .works (rings_work rounds other) other

/-- Nobody there, or nothing to do. -/
theorem go_of_asked?_none (none : y.asked? i = none) (around : Surroundings) :
    y.go i around = y := by
  simp only [Crowd.go, none]

theorem Held.go (h : y.Held) (i : Nat) (around : Surroundings) (calm : y.Calm (y.go i around)) :
    (y.go i around).Held := by
  have still (none : y.asked? i = none) : (y.go i around).Held := by
    rwa [go_of_asked?_none none]
  cases found : y.callers[i]? with
  | none => exact still (by simp only [System.asked?, found])
  | some c =>
    obtain ⟨now, history⟩ := c
    cases now with
    | none => exact still (by simp only [System.asked?, found])
    | some u =>
      cases h.sane i _ u found rfl with
      | pops pops =>
        cases pops with
        | begins rounds timeout => exact h.starts found rfl around
        | attends rounds deadline => exact h.attends found rfl around
        | looks rounds deadline =>
          cases rounds with
          | zero => exact still (by simp only [System.asked?, found]; rfl)
          | succ rounds => exact Held.looks h found rfl around
      | @works u p rings other =>
        cases p with
        | done => exact still (by simp only [System.asked?, found])
        | spent => exact still (by simp only [System.asked?, found])
        | ask s next => exact h.work found rfl rings other around calm

/-- All along a run nothing comes to pending between a vain look and the registration after it, and
nobody is dropped between his wake-up and his look. -/
def Careful (rounds : Nat) : Crowd → List Event → Prop
  | _, [] => True
  | y, e :: rest =>
    (y.queue.pending.length < (y.step rounds e).queue.pending.length →
      ∀ i deadline, y.asked? i = some (.attend deadline) → i ∈ y.bell.waiting ∨ i ∈ y.bell.woken) ∧
    (∀ i, e = .drop i → i ∉ y.roused) ∧ Careful rounds (y.step rounds e) rest

theorem Held.step (h : y.Held) {rounds : Nat} {e : Event} (calm : y.Calm (y.step rounds e))
    (unused : ∀ i, e = .drop i → i ∉ y.roused) : (y.step rounds e).Held := by
  cases e with
  | begin i u => exact h.begin rounds i u
  | go i around => exact h.go i around calm
  | expire i around => exact h.expire i around
  | drop i => exact h.drop (unused i rfl)

theorem held_fresh (policy : RetryPolicy) (callers : Nat) : (fresh policy callers).Held := by
  have idle {i : Nat} {c : Caller} (found : (List.replicate callers ({} : Caller))[i]? = some c) :
      c.current = none := by
    rw [List.mem_replicate.mp (List.mem_of_getElem? found) |>.2]
  exact {
    sane := fun i c u found now => nomatch (idle found).symm.trans now
    registered := fun i mem => nomatch mem
    once := List.nodup_nil
    looks := fun i mem => nomatch mem
    rousedOnce := List.nodup_nil
    between := fun _ _ _ _ => .inr rfl
    kept := fun some => (some rfl).elim
    enough := fun some => (some rfl).elim }

theorem Held.run (h : y.Held) {rounds : Nat} {events : List Event}
    (careful : Careful rounds y events) : (y.run rounds events).Held := by
  induction events generalizing y with
  | nil => exact h
  | cons e events ih =>
    obtain ⟨calm, unused, rest⟩ := careful
    refine ih (h.step (fun grew i deadline asked => ?_) unused) rest
    exact List.mem_append.mpr (calm grew i deadline asked)

/-- Tasks lie there, and somebody sleeps, as does everyone who asks for a task and may wait; and no
wake-up is under way to any of them. -/
structure Stuck (y : Crowd) : Prop where
  pending : y.queue.pending ≠ []
  waiting : y.bell.waiting ≠ []
  asleep : ∀ i c timeout p, y.callers[i]? = some c →
    c.current = some ⟨.call (.pop true timeout), p⟩ → i ∈ y.bell.waiting
  kept : y.bell.kept = false
  rung : ∀ i, y.asked? i ≠ some .ring

theorem owes_of_asked? (found : y.callers[i]? = some c) (quiet : y.asked? i ≠ some .ring) :
    owes c = 0 := by
  obtain ⟨now, history⟩ := c
  cases now with
  | none => rfl
  | some v =>
    obtain ⟨u, p⟩ := v
    cases p with
    | done a => rfl
    | spent => rfl
    | ask s next =>
      have asked : y.asked? i = some s := asked?_eq found rfl
      cases s with
      | ring => exact (quiet asked).elim
      | _ => rfl

theorem Held.not_stuck (h : y.Held) : ¬ y.Stuck := by
  intro stuck
  have sleeps {i : Nat} {p : PopSteps} (pops : PopsAt y.callers i p) : i ∈ y.bell.waiting := by
    obtain ⟨c, timeout, found, current⟩ := pops
    exact stuck.asleep i c timeout p found current
  have woken : y.bell.woken = [] := by
    refine List.eq_nil_iff_forall_not_mem.mpr fun i mem => ?_
    obtain ⟨rounds, deadline, pops⟩ := h.registered i (List.mem_append_right _ mem)
    exact (List.nodup_append.mp h.once).2.2 i (sleeps pops) i mem rfl
  have roused : y.roused = [] := by
    refine List.eq_nil_iff_forall_not_mem.mpr fun i mem => ?_
    obtain ⟨rounds, deadline, pops⟩ := Watched.looks h i mem
    obtain ⟨more, later, waits⟩ := h.registered i (List.mem_append_left _ (sleeps pops))
    have same : popping ⟨0⟩ (looking rounds deadline) = popping ⟨0⟩ (attending more later) :=
      congrArg (popping ⟨0⟩) (popsAt_inj pops waits)
    exact looks_ne_attending same
  have owing : owing y.callers = 0 := by
    refine owing_eq_zero fun c mem => ?_
    obtain ⟨i, found⟩ := List.getElem?_of_mem mem
    exact owes_of_asked? found (stuck.rung i)
  have enough := h.enough stuck.waiting
  rw [woken, roused, owing] at enough
  exact stuck.pending (List.length_eq_zero_iff.mp (Nat.le_zero.mp enough))

/-- After any careful run, of any number of callers: nobody sleeps beside a task for good. -/
theorem run_never_stuck {rounds : Nat} {policy : RetryPolicy} {callers : Nat} {events : List Event}
    (careful : Careful rounds (fresh policy callers) events) :
    ¬ ((fresh policy callers).run rounds events).Stuck :=
  ((held_fresh policy callers).run careful).not_stuck

private def mute : Surroundings
  | .access a => (a.perform {} .epoch {}).1
  | .clock => .epoch
  | .elapsed => ⟨0⟩
  | .ring | .announce => ()
  | .announced => (0 : Nat)
  | .attend _ | .attendResult _ _ => false

private def groat (id : String) : Task := ⟨.execute, id, [], .empty, 0, .epoch, 1⟩

/-- One waits, and the task that comes wakes him. -/
private def met : List Event := [
  .begin 0 (.call (.pop true ⟨1⟩)), .go 0 mute, .go 0 mute, .go 0 mute,
  .begin 1 (.call (.enqueue (groat "a"))), .go 1 mute, .go 1 mute, .go 0 mute]

theorem run_never_stuck_met :
    Careful 2 (fresh {} 2) met ∧ ¬ ((fresh {} 2).run 2 met).Stuck := by
  have still {y : Crowd} {e : Event} (same : (y.step 2 e).queue.pending.length =
      y.queue.pending.length) : ¬ y.queue.pending.length < (y.step 2 e).queue.pending.length := by
    omega
  have careful : Careful 2 (fresh {} 2) met := by
    refine ⟨fun grew => (still rfl grew).elim, fun _ => nofun,
      fun grew => (still rfl grew).elim, fun _ => nofun,
      fun grew => (still rfl grew).elim, fun _ => nofun,
      fun grew => (still rfl grew).elim, fun _ => nofun,
      fun grew => (still rfl grew).elim, fun _ => nofun,
      fun _ i deadline asked => ?_, fun _ => nofun,
      fun grew => (still rfl grew).elim, fun _ => nofun,
      fun grew => (still rfl grew).elim, fun _ => nofun, trivial⟩
    match i with
    | 0 => exact .inl List.mem_cons_self
    | 1 => cases asked
    | i + 2 => cases asked
  exact ⟨careful, run_never_stuck careful⟩

/-- Two look in vain, two tasks come, and both rings are for nobody: the second is lost. -/
private def bothRung : List Event := [
  .begin 0 (.call (.pop true ⟨1⟩)), .go 0 mute, .go 0 mute,
  .begin 1 (.call (.pop true ⟨1⟩)), .go 1 mute, .go 1 mute,
  .begin 2 (.call (.enqueue (groat "a"))), .go 2 mute, .go 2 mute,
  .begin 2 (.call (.enqueue (groat "b"))), .go 2 mute, .go 2 mute,
  .go 0 mute, .go 1 mute, .go 0 mute]

/-- Two wait, a task comes, and he who was woken for it is dropped before he looks. -/
private def wokenAndDropped : List Event := [
  .begin 0 (.call (.pop true ⟨1⟩)), .go 0 mute, .go 0 mute, .go 0 mute,
  .begin 1 (.call (.pop true ⟨1⟩)), .go 1 mute, .go 1 mute, .go 1 mute,
  .begin 2 (.call (.enqueue (groat "a"))), .go 2 mute, .go 2 mute,
  .go 0 mute, .drop 0]

/-- Two of three callers are idle, and the second sleeps. -/
private theorem stuck_of_second {a b d : Caller} {u : Undertaking} {deadline : Span}
    {next : Bool → Steps u.Outcome} (callers : y.callers = [a, b, d]) (first : a.current = none)
    (second : b.current = some ⟨u, .ask (.attend deadline) next⟩) (third : d.current = none)
    (waiting : y.bell.waiting = [1]) (kept : y.bell.kept = false)
    (pending : y.queue.pending ≠ []) : y.Stuck := by
  have asks (i : Nat) (c : Caller) (found : y.callers[i]? = some c) : i = 1 ∨ c.current = none := by
    rw [callers] at found
    match i with
    | 0 =>
      cases found
      exact .inr first
    | 1 => exact .inl rfl
    | 2 =>
      cases found
      exact .inr third
    | i + 3 => cases found
  refine ⟨pending, by simp [waiting], fun i c timeout p found now => ?_, kept, fun i ring => ?_⟩
  · rcases asks i c found with rfl | idle
    · simp [waiting]
    · cases idle.symm.trans now
  · cases found : y.callers[i]? with
    | none => simp [System.asked?, found] at ring
    | some c =>
      rcases asks i c found with rfl | idle
      · have attends : y.asked? 1 = some (.attend deadline) :=
          asked?_eq (by rw [callers]; rfl) second
        cases attends.symm.trans ring
      · obtain ⟨now, history⟩ := c
        cases idle
        simp [System.asked?, found] at ring

/-- Neither kind of care can be spared. -/
theorem run_sleeps_beside_task :
    ((fresh {} 3).run 2 bothRung).Stuck ∧ ((fresh {} 3).run 2 wokenAndDropped).Stuck :=
  ⟨stuck_of_second rfl rfl rfl rfl rfl rfl (List.cons_ne_nil (groat "b") []),
    stuck_of_second rfl rfl rfl rfl rfl rfl (List.cons_ne_nil (groat "a") [])⟩

end Crowd

end LocalQueue

end ClaimQueue
