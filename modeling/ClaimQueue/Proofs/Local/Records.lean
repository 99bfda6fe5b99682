import ClaimQueue.Proofs.Local.Runs
import ClaimQueue.Proofs.Program

/-! What the record of a run tells of one undertaking. Its deeds are those of its caller at its
turn, and whatever it asked of the contents was answered by them, one after the other; so where it
stands, and with what it ended, is a matter of its deeds. -/

namespace ClaimQueue

namespace LocalQueue

/-- What an undertaking was told, the latest first. -/
abbrev Talk := List (ClaimQueue.Exchange steps)

variable {policy : RetryPolicy} {rounds : Nat}

/-- What was told of the contents was told by these deeds. -/
inductive Heard (policy : RetryPolicy) : Talk → List Deed → Prop
  | nothing : Heard policy [] []
  | access {past : Talk} {deeds : List Deed} {x : ClaimQueue.Exchange steps} (d : Deed)
      (told : x = ⟨.access d.access, d.answer policy⟩) (h : Heard policy past deeds) :
      Heard policy (x :: past) (d :: deeds)
  | other {past : Talk} {deeds : List Deed} {x : ClaimQueue.Exchange steps}
      (noAccess : ∀ a, x.1 ≠ .access a) (h : Heard policy past deeds) :
      Heard policy (x :: past) deeds

/-- An undertaking has come this far, by these deeds. -/
def CameTo (policy : RetryPolicy) (rounds : Nat) (deeds : List Deed) (u : Underway) : Prop :=
  ∃ past, (u.undertaking.work rounds).Reaches past u.rest ∧ Heard policy past deeds

/-- The event is a step of this caller. -/
def Event.goes (i : Nat) : Event → Bool
  | .go j _ => j == i
  | .begin _ _ => false

structure Followed (policy : RetryPolicy) (rounds : Nat) (deeds : List Deed) (i : Nat)
    (c : Caller) : Prop where
  turns : ∀ d ∈ deeds, d.caller = i → d.turn < c.history.length ∨
    d.turn = c.history.length ∧ c.current.isSome
  ended : ∀ later u o earlier, c.history = later ++ ⟨u, o⟩ :: earlier →
    CameTo policy rounds (deeds.filter (Deed.isOf i earlier.length)) ⟨u, .done o⟩
  underway : ∀ u, c.current = some u →
    CameTo policy rounds (deeds.filter (Deed.isOf i c.history.length)) u
  busy : ∀ u o, c.current ≠ some ⟨u, .done o⟩

theorem followed_fresh (i : Nat) : Followed policy rounds [] i {} where
  turns _ mem := (List.not_mem_nil mem).elim
  ended later _ _ _ eq := by simp at eq
  underway _ eq := by cases eq
  busy _ _ eq := by cases eq

/-- The deeds of others do not matter. -/
theorem Followed.of_other {deeds : List Deed} {i : Nat} {c : Caller} {d : Deed}
    (h : Followed policy rounds deeds i c) (other : d.caller ≠ i) :
    Followed policy rounds (d :: deeds) i c := by
  have same (k : Nat) : (d :: deeds).filter (Deed.isOf i k) = deeds.filter (Deed.isOf i k) :=
    List.filter_cons_of_neg (by simp [Deed.isOf, other])
  refine ⟨fun e mem own => ?_, fun later u o earlier eq => ?_, fun u eq => ?_, h.busy⟩
  · rcases List.mem_cons.mp mem with rfl | mem
    · exact absurd own other
    · exact h.turns e mem own
  · rw [same]
    exact h.ended later u o earlier eq
  · rw [same]
    exact h.underway u eq

/-- A busy caller, whose undertaking ends if nothing is left to do. -/
theorem Followed.settle {deeds : List Deed} {i : Nat} {c : Caller} {u : Underway}
    (current : c.current = some u)
    (turns : ∀ d ∈ deeds, d.caller = i → d.turn ≤ c.history.length)
    (ended : ∀ later v o earlier, c.history = later ++ ⟨v, o⟩ :: earlier →
      CameTo policy rounds (deeds.filter (Deed.isOf i earlier.length)) ⟨v, .done o⟩)
    (far : CameTo policy rounds (deeds.filter (Deed.isOf i c.history.length)) u) :
    Followed policy rounds deeds i c.settle := by
  rcases settle_cases c with ⟨v, o, done, settled⟩ | settled
  · cases current.symm.trans done
    rw [settled]
    refine ⟨fun d mem own => .inl (Nat.lt_succ_of_le (turns d mem own)), ?_,
      (fun _ eq => nomatch eq), (fun _ _ eq => nomatch eq)⟩
    intro later w o' earlier eq
    cases later with
    | cons _ later => exact ended later w o' earlier (List.cons.inj eq).2
    | nil =>
      obtain ⟨same, rfl⟩ := List.cons.inj eq
      cases same
      exact far
  · rw [settled]
    refine ⟨fun d mem own => ?_, ended, fun v eq => ?_, fun v o done => ?_⟩
    · exact (Nat.lt_or_eq_of_le (turns d mem own)).imp_right fun eq => ⟨eq, by rw [current]; rfl⟩
    · cases current.symm.trans eq
      exact far
    · simp only [Caller.settle, done] at settled
      rw [← settled] at done
      cases done

section

variable {deeds : List Deed} {i : Nat} {c : Caller} (h : Followed policy rounds deeds i c)
include h

theorem Followed.turns_le : ∀ d ∈ deeds, d.caller = i → d.turn ≤ c.history.length :=
  fun d mem own => (h.turns d mem own).elim Nat.le_of_lt fun here => Nat.le_of_eq here.1

/-- A caller that does a deed. -/
theorem Followed.deed {u : Undertaking} {a : Access} {next : a.Answer → Steps u.Outcome}
    (current : c.current = some ⟨u, .ask (.access a) next⟩) (clock : Instant) (q : LocalQueue) :
    let d : Deed := ⟨i, c.history.length, a, clock, q⟩
    Followed policy rounds (d :: deeds) i
      { c with current := some ⟨u, next (d.answer policy)⟩ : Caller }.settle := by
  intro d
  refine Followed.settle rfl (fun e mem own => ?_) (fun later v o earlier eq => ?_) ?_
  · rcases List.mem_cons.mp mem with rfl | mem
    · exact Nat.le_refl _
    · exact h.turns_le e mem own
  · have before : c.history.length ≠ earlier.length := by
      have := congrArg List.length eq
      simp only [List.length_append, List.length_cons] at this
      omega
    rw [List.filter_cons_of_neg (by simp [d, Deed.isOf, before])]
    exact h.ended later v o earlier eq
  · obtain ⟨past, reaches, heard⟩ := h.underway _ current
    rw [List.filter_cons_of_pos (by simp [d, Deed.isOf])]
    exact ⟨_, reaches.answer _, .access d rfl heard⟩

/-- A caller that does something else. -/
theorem Followed.other {u : Undertaking} {s : Step} {next : s.Answer → Steps u.Outcome}
    (current : c.current = some ⟨u, .ask s next⟩) (noAccess : ∀ a, s ≠ .access a)
    (answer : s.Answer) :
    Followed policy rounds deeds i { c with current := some ⟨u, next answer⟩ : Caller }.settle := by
  obtain ⟨past, reaches, heard⟩ := h.underway _ current
  exact Followed.settle rfl h.turns_le h.ended ⟨_, reaches.answer _, .other noAccess heard⟩

theorem Followed.begin (u : Undertaking) : Followed policy rounds deeds i (c.begin rounds u) := by
  unfold Caller.begin
  split
  · exact h
  · next idle =>
    refine Followed.settle rfl h.turns_le h.ended ⟨[], .start, ?_⟩
    have none : deeds.filter (Deed.isOf i c.history.length) = [] := by
      refine List.filter_eq_nil_iff.mpr fun d mem same => ?_
      simp only [Deed.isOf, Bool.and_eq_true, beq_iff_eq] at same
      rcases h.turns d mem same.1 with past | ⟨-, busy⟩
      · exact absurd same.2 (Nat.ne_of_lt past)
      · rw [idle] at busy
        cases busy
    show Heard policy [] (deeds.filter (Deed.isOf i c.history.length))
    rw [none]
    exact .nothing

end

namespace System

variable {y : System} {i : Nat} {c : Caller}

/-! What one step of a caller is. -/

theorem go_of_access {u : Undertaking} {a : Access} {next : a.Answer → Steps u.Outcome}
    (found : y.callers[i]? = some c) (current : c.current = some ⟨u, .ask (.access a) next⟩)
    (around : Surroundings) :
    let d : Deed := ⟨i, c.history.length, a, around .clock, y.queue⟩
    y.go i around = { y with
      queue := d.after y.policy
      callers := y.callers.set i { c with current := some ⟨u, next (d.answer y.policy)⟩ }.settle
      deeds := d :: y.deeds } := by
  simp only [System.go, found, current]

theorem go_cases (y : System) (i : Nat) (around : Surroundings) : y.go i around = y ∨
    ∃ c u, y.callers[i]? = some c ∧
      ((∃ a next, c.current = some ⟨u, .ask (.access a) next⟩) ∨
        ∃ s next, c.current = some ⟨u, .ask s next⟩ ∧ (∀ a, s ≠ .access a) ∧
          y.go i around = { y with
            callers :=
              y.callers.set i { c with current := some ⟨u, next (around s)⟩ }.settle }) := by
  unfold System.go
  split
  · exact .inl rfl
  · next c found =>
    split
    · next u a next current => exact .inr ⟨c, u, found, .inl ⟨a, next, current⟩⟩
    · next u s next other current =>
      refine .inr ⟨c, u, found, .inr ⟨s, next, current, ?_, rfl⟩⟩
      rintro a rfl
      exact other a next rfl .rfl
    · exact .inl rfl

theorem step_deeds (y : System) (rounds : Nat) (e : Event) :
    y.deeds <:+ (y.step rounds e).deeds := by
  cases e with
  | begin j u =>
    simp only [System.step]
    split <;> exact List.suffix_refl _
  | go j around =>
    show y.deeds <:+ (y.go j around).deeds
    rcases go_cases y j around with
      same | ⟨c, u, found, ⟨a, next, current⟩ | ⟨s, next, current, -, goes⟩⟩
    · exact same.symm ▸ List.suffix_refl _
    · rw [go_of_access found current]
      exact List.suffix_cons _ _
    · exact goes.symm ▸ List.suffix_refl _

/-- One of the callers is replaced; this is another, or it is the one. -/
theorem set_caller {callers : List Caller} {j : Nat} {d d' : Caller} (found : callers[i]? = some c)
    (there : callers[j]? = some d) (grew : d.history <:+ d'.history) :
    ∃ c', (callers.set j d')[i]? = some c' ∧ c.history <:+ c'.history ∧
      (c' = c ∨ j = i ∧ d = c ∧ c' = d') := by
  by_cases same : j = i
  · subst same
    cases found.symm.trans there
    refine ⟨d', ?_, grew, .inr ⟨rfl, rfl, rfl⟩⟩
    rw [List.getElem?_set_self', found]
    rfl
  · exact ⟨c, (List.getElem?_set_ne same).trans found, List.suffix_refl _, .inl rfl⟩

/-- What a caller has finished stays so, and a busy caller stays where it is until its own step. -/
theorem step_caller (rounds : Nat) (found : y.callers[i]? = some c) (e : Event) :
    ∃ c', (y.step rounds e).callers[i]? = some c' ∧ c.history <:+ c'.history ∧
      (c.current.isSome → e.goes i = false → c' = c) := by
  cases e with
  | begin j u =>
    simp only [System.step]
    split
    · exact ⟨c, found, List.suffix_refl _, fun _ _ => rfl⟩
    · next d there =>
      obtain ⟨c', now, grew, which⟩ := set_caller found there (d.history_begin rounds u)
      refine ⟨c', now, grew, fun busy _ => ?_⟩
      rcases which with same | ⟨-, same, begun⟩
      · exact same
      · obtain ⟨v, current⟩ := Option.isSome_iff_exists.mp busy
        rw [begun, same]
        simp only [Caller.begin, current]
  | go j around =>
    have replaced : (y.go j around).callers = y.callers ∨ ∃ d now, y.callers[j]? = some d ∧
        (y.go j around).callers = y.callers.set j ({ d with current := now } : Caller).settle := by
      rcases go_cases y j around with
        same | ⟨d, u, there, ⟨a, next, current⟩ | ⟨s, next, current, -, goes⟩⟩
      · exact .inl (congrArg System.callers same)
      · exact .inr ⟨d, _, there, congrArg System.callers (go_of_access there current around)⟩
      · exact .inr ⟨d, _, there, congrArg System.callers goes⟩
    show ∃ c', (y.go j around).callers[i]? = some c' ∧ _
    rcases replaced with same | ⟨d, now, there, goes⟩
    · rw [same]
      exact ⟨c, found, List.suffix_refl _, fun _ _ => rfl⟩
    · rw [goes]
      obtain ⟨c', next, grew, which⟩ :=
        set_caller found there (Caller.history_settle { d with current := now })
      refine ⟨c', next, grew, fun _ other => ?_⟩
      rcases which with same | ⟨same, -⟩
      · exact same
      · simp [Event.goes, same] at other

/-- Every undertaking is followed, whoever is in the midst of it. -/
structure Traced (policy : RetryPolicy) (rounds : Nat) (y : System) : Prop where
  policy_eq : y.policy = policy
  linked : Linked policy y.deeds y.queue
  callers : ∀ i c, y.callers[i]? = some c → Followed policy rounds y.deeds i c

theorem traced_fresh (policy : RetryPolicy) (rounds n : Nat) :
    Traced policy rounds (fresh policy n) where
  policy_eq := rfl
  linked := rfl
  callers i c found := by
    rw [List.eq_of_mem_replicate (List.mem_of_getElem? found)]
    exact followed_fresh i

/-- A new deed, if there is one, is the caller's own. -/
theorem Traced.set (h : Traced policy rounds y) {deeds : List Deed}
    (own : Followed policy rounds deeds i c)
    (others : deeds = y.deeds ∨ ∃ d, deeds = d :: y.deeds ∧ d.caller = i) :
    ∀ j c', (y.callers.set i c)[j]? = some c' → Followed policy rounds deeds j c' := by
  intro j c' found
  rw [List.getElem?_set] at found
  split at found
  · next same =>
    subst same
    split at found
    · cases found
      exact own
    · cases found
  · next other =>
    rcases others with rfl | ⟨d, rfl, rfl⟩
    · exact h.callers j c' found
    · exact (h.callers j c' found).of_other other

theorem Traced.go (h : Traced policy rounds y) (i : Nat) (around : Surroundings) :
    Traced policy rounds (y.go i around) := by
  have kept := h
  obtain ⟨rfl, linked, callers⟩ := h
  rcases go_cases y i around with
    same | ⟨c, u, found, ⟨a, next, current⟩ | ⟨s, next, current, other, goes⟩⟩
  · rwa [same]
  · rw [go_of_access found current]
    exact ⟨rfl, ⟨rfl, linked⟩,
      kept.set ((callers i c found).deed current _ _) (.inr ⟨_, rfl, rfl⟩)⟩
  · rw [goes]
    exact ⟨rfl, linked, kept.set ((callers i c found).other current other _) (.inl rfl)⟩

theorem Traced.step (h : Traced policy rounds y) (e : Event) :
    Traced policy rounds (y.step rounds e) := by
  cases e with
  | go i around => exact h.go i around
  | begin i u =>
    simp only [System.step]
    split
    · exact h
    · next c found =>
      exact ⟨h.policy_eq, h.linked, h.set ((h.callers i c found).begin u) (.inl rfl)⟩

theorem Traced.run (h : Traced policy rounds y) (events : List Event) :
    Traced policy rounds (y.run rounds events) := by
  induction events generalizing y with
  | nil => exact h
  | cons e events ih => exact ih (h.step e)

end System

end LocalQueue

end ClaimQueue
