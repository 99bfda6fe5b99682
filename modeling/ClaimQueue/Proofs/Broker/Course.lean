import ClaimQueue.Broker.Clients
import ClaimQueue.Proofs.Broker.Jobs

/-! The record of a run. Each deed of a client is the next question of its undertaking, after what
the undertaking was told by its earlier deeds; and each deed found the broker as the deed before it
had left it, but for the time that had passed. -/

namespace ClaimQueue

namespace Broker

open Program

def Deed.isOf (client turn : Nat) (d : Deed) : Bool := d.client == client && d.turn == turn

/-- What an undertaking was told when it had done these deeds. A reply may not have come back, and a
command may not have gone out. -/
inductive Heard : List Deed → Told → Prop
  | nothing : Heard [] []
  | reply (d : Deed) {deeds : List Deed} {past : Told} (h : Heard deeds past) :
      Heard (d :: deeds) (⟨d.ask, d.reply⟩ :: past)
  | cutOff (d : Deed) {fault : LinkFault} {r : d.ask.Answer} {deeds : List Deed} {past : Told}
      (lost : lostAnswer? fault d.ask = some r) (h : Heard deeds past) :
      Heard (d :: deeds) (⟨d.ask, r⟩ :: past)
  | lost {q : Ask} {fault : LinkFault} {r : q.Answer} {deeds : List Deed} {past : Told}
      (lost : lostAnswer? fault q = some r) (h : Heard deeds past) : Heard deeds (⟨q, r⟩ :: past)

/-- These deeds have led an undertaking to what is left of it. -/
def Led (rounds : Nat) (u : Undertaking) (s : Settings) (deeds : List Deed)
    (rest : Program asks u.Outcome) : Prop :=
  ∃ past, Reaches (u.work rounds s) past rest ∧ Heard deeds past ∧
    ∀ d ∈ deeds, d.undertaking = u ∧ d.settings = s

/-- The next question of an undertaking that has done some of these deeds. -/
def Deed.Follows (rounds : Nat) (earlier : List Deed) (d : Deed) : Prop :=
  ∃ next, Led rounds d.undertaking d.settings (earlier.filter (Deed.isOf d.client d.turn))
    (.ask d.ask next)

/-- What a broker goes through that had nothing in it. The deeds stand with the latest first. -/
inductive Course (rounds : Nat) (allowed : Undertaking → Prop) : List Deed → Server → Prop
  | start (clock : Instant) : Course rounds allowed [] { grouped := true, clock }
  | wait (s : Span) {deeds : List Deed} {w : Server} (h : Course rounds allowed deeds w) :
      Course rounds allowed deeds (System.wait s w)
  | deed (d : Deed) {deeds : List Deed} (h : Course rounds allowed deeds d.before)
      (may : allowed d.undertaking) (follows : d.Follows rounds deeds) :
      Course rounds allowed (d :: deeds) d.after

variable {rounds : Nat} {allowed : Undertaking → Prop}

theorem Course.earlier {later deeds : List Deed} {d : Deed} {w : Server}
    (h : Course rounds allowed (later ++ d :: deeds) w) :
    Course rounds allowed deeds d.before ∧ allowed d.undertaking ∧ d.Follows rounds deeds := by
  generalize same : later ++ d :: deeds = all at h
  induction h generalizing later with
  | start => simp at same
  | wait s _ ih => exact ih same
  | deed e h may follows ih =>
    cases later with
    | nil =>
      obtain ⟨rfl, rfl⟩ := List.cons.inj same
      exact ⟨h, may, follows⟩
    | cons _ later => exact ih (List.cons.inj same).2

/-- What was heard, an answer or not, was asked by a deed or lost. -/
theorem Heard.of_mem {deeds : List Deed} {past : Told} (h : Heard deeds past) {q : Ask}
    {r : q.Answer} (mem : ⟨q, r⟩ ∈ past) :
    (∃ d ∈ deeds, (⟨d.ask, d.reply⟩ : Exchange asks) = ⟨q, r⟩) ∨
      ∃ fault, lostAnswer? fault q = some r := by
  induction h with
  | nothing => cases mem
  | reply d h ih =>
    rcases List.mem_cons.mp mem with same | mem
    · exact .inl ⟨d, List.mem_cons_self, same.symm⟩
    · exact (ih mem).imp_left fun ⟨e, mem, same⟩ => ⟨e, List.mem_cons_of_mem _ mem, same⟩
  | cutOff d lost h ih =>
    rcases List.mem_cons.mp mem with same | mem
    · cases same
      exact .inr ⟨_, lost⟩
    · exact (ih mem).imp_left fun ⟨e, mem, same⟩ => ⟨e, List.mem_cons_of_mem _ mem, same⟩
  | lost lost h ih =>
    rcases List.mem_cons.mp mem with same | mem
    · cases same
      exact .inr ⟨_, lost⟩
    · exact ih mem

/-- An undertaking that was told nothing has done nothing. -/
theorem Heard.eq_nil {deeds : List Deed} (h : Heard deeds []) : deeds = [] := by
  cases h
  rfl

/-! Runs of clients. -/

theorem Led.ask {u : Undertaking} {s : Settings} {deeds : List Deed} {q : Ask}
    {next : q.Answer → Program asks u.Outcome} (h : Led rounds u s deeds (.ask q next))
    (d : Deed) (own : d.undertaking = u ∧ d.settings = s) (same : d.ask = q) :
    Led rounds u s (d :: deeds) (next (same ▸ d.reply)) := by
  subst same
  obtain ⟨past, reaches, heard, owns⟩ := h
  exact ⟨_, reaches.answer d.reply, heard.reply d, List.forall_mem_cons.mpr ⟨own, owns⟩⟩

theorem Led.lose {u : Undertaking} {s : Settings} {deeds : List Deed} {q : Ask}
    {next : q.Answer → Program asks u.Outcome} (h : Led rounds u s deeds (.ask q next))
    {fault : LinkFault} {r : q.Answer} (lost : lostAnswer? fault q = some r) :
    Led rounds u s deeds (next r) := by
  obtain ⟨past, reaches, heard, owns⟩ := h
  exact ⟨_, reaches.answer r, heard.lost lost, owns⟩

theorem Led.cutOff {u : Undertaking} {s : Settings} {deeds : List Deed} {d : Deed}
    {next : d.ask.Answer → Program asks u.Outcome} (h : Led rounds u s deeds (.ask d.ask next))
    (own : d.undertaking = u ∧ d.settings = s) {fault : LinkFault} {r : d.ask.Answer}
    (lost : lostAnswer? fault d.ask = some r) : Led rounds u s (d :: deeds) (next r) := by
  obtain ⟨past, reaches, heard, owns⟩ := h
  exact ⟨_, reaches.answer r, heard.cutOff d lost, List.forall_mem_cons.mpr ⟨own, owns⟩⟩

/-- What the record says of a client. -/
structure Consistent (rounds : Nat) (allowed : Undertaking → Prop) (deeds : List Deed) (i : Nat)
    (c : Client) : Prop where
  turns : ∀ d ∈ deeds, d.client = i → d.turn < c.history.length ∨
    d.turn = c.history.length ∧ c.current.isSome
  ended : ∀ later u o earlier, c.history = later ++ ⟨u, o⟩ :: earlier →
    Led rounds u c.settings (deeds.filter (Deed.isOf i earlier.length)) (.done o)
  underway : ∀ u p, c.current = some ⟨u, p⟩ →
    allowed u ∧ Led rounds u c.settings (deeds.filter (Deed.isOf i c.history.length)) p

theorem consistent_idle (i : Nat) (s : Settings) :
    Consistent rounds allowed [] i { settings := s } where
  turns _ mem := (List.not_mem_nil mem).elim
  ended later _ _ _ eq := by simp at eq
  underway _ _ eq := by simp at eq

/-- The deeds of others do not matter. -/
theorem Consistent.of_other {deeds : List Deed} {i : Nat} {c : Client} {d : Deed}
    (h : Consistent rounds allowed deeds i c) (other : d.client ≠ i) :
    Consistent rounds allowed (d :: deeds) i c := by
  have same (k : Nat) : (d :: deeds).filter (Deed.isOf i k) = deeds.filter (Deed.isOf i k) :=
    List.filter_cons_of_neg (by simp [Deed.isOf, other])
  refine ⟨fun e mem own => ?_, fun later u o earlier eq => ?_, fun u p eq => ?_⟩
  · rcases List.mem_cons.mp mem with rfl | mem
    · exact absurd own other
    · exact h.turns e mem own
  · rw [same]
    exact h.ended later u o earlier eq
  · rw [same]
    exact h.underway u p eq

theorem settle_cases (c : Client) :
    (∃ u o, c.current = some ⟨u, .done o⟩ ∧ c.settle = ⟨c.settings, none, ⟨u, o⟩ :: c.history⟩) ∨
      c.settle = c := by
  unfold Client.settle
  split
  · rename_i u o current
    exact .inl ⟨u, o, current, rfl⟩
  · exact .inr rfl

/-- A busy client, whose undertaking ends if nothing is left to do. -/
theorem Consistent.settle {deeds : List Deed} {i : Nat} {c : Client} (busy : c.current.isSome)
    (turns : ∀ d ∈ deeds, d.client = i → d.turn ≤ c.history.length)
    (ended : ∀ later u o earlier, c.history = later ++ ⟨u, o⟩ :: earlier →
      Led rounds u c.settings (deeds.filter (Deed.isOf i earlier.length)) (.done o))
    (underway : ∀ u p, c.current = some ⟨u, p⟩ →
      allowed u ∧ Led rounds u c.settings (deeds.filter (Deed.isOf i c.history.length)) p) :
    Consistent rounds allowed deeds i c.settle := by
  rcases settle_cases c with ⟨u, o, current, settled⟩ | settled
  · rw [settled]
    refine ⟨fun d mem own => .inl (Nat.lt_succ_of_le (turns d mem own)), ?_, fun _ _ eq => ?_⟩
    · intro later v r earlier eq
      cases later with
      | cons _ later =>
        obtain ⟨-, eq⟩ := List.cons.inj eq
        exact ended later v r earlier eq
      | nil =>
        obtain ⟨same, rfl⟩ := List.cons.inj eq
        cases same
        exact (underway u _ current).2
    · cases eq
  · rw [settled]
    refine ⟨fun d mem own => ?_, ended, underway⟩
    exact (Nat.lt_or_eq_of_le (turns d mem own)).imp_right fun eq => ⟨eq, busy⟩

/-- A client that is told something by a deed of its own. -/
theorem Consistent.ask {deeds : List Deed} {i : Nat} {c : Client} {w : Server}
    (h : Consistent rounds allowed deeds i c) {u : Undertaking} {q : Ask}
    {next : q.Answer → Program asks u.Outcome} (current : c.current = some ⟨u, .ask q next⟩) {r : q.Answer}
    (led : Led rounds u c.settings
      (⟨i, c.history.length, u, c.settings, q, w⟩ :: deeds.filter (Deed.isOf i c.history.length))
      (next r)) :
    Consistent rounds allowed (⟨i, c.history.length, u, c.settings, q, w⟩ :: deeds) i
      { c with current := some ⟨u, next r⟩ : Client }.settle := by
  refine Consistent.settle rfl (fun e mem own => ?_) (fun later v o earlier eq => ?_)
    fun v p eq => ?_
  · rcases List.mem_cons.mp mem with rfl | mem
    · exact Nat.le_refl _
    · exact (h.turns e mem own).elim Nat.le_of_lt fun here => Nat.le_of_eq here.1
  · have before : c.history.length ≠ earlier.length := by
      have := congrArg List.length eq
      simp only [List.length_append, List.length_cons] at this
      omega
    rw [List.filter_cons_of_neg (by simp [Deed.isOf, before])]
    exact h.ended later v o earlier eq
  · cases eq
    refine ⟨(h.underway u _ current).1, ?_⟩
    rw [List.filter_cons_of_pos (by simp [Deed.isOf])]
    exact led

/-- A client whose command did not go out. -/
theorem Consistent.lose {deeds : List Deed} {i : Nat} {c : Client}
    (h : Consistent rounds allowed deeds i c) {u : Undertaking} {q : Ask}
    {next : q.Answer → Program asks u.Outcome} (current : c.current = some ⟨u, .ask q next⟩)
    {fault : LinkFault} {r : q.Answer} (lost : lostAnswer? fault q = some r) :
    Consistent rounds allowed deeds i { c with current := some ⟨u, next r⟩ : Client }.settle := by
  refine Consistent.settle rfl (fun e mem own => ?_) h.ended fun v p eq => ?_
  · exact (h.turns e mem own).elim Nat.le_of_lt fun here => Nat.le_of_eq here.1
  · cases eq
    obtain ⟨may, led⟩ := h.underway u _ current
    exact ⟨may, led.lose lost⟩

theorem Consistent.begin {deeds : List Deed} {i : Nat} {c : Client}
    (h : Consistent rounds allowed deeds i c) {u : Undertaking} (may : allowed u) :
    Consistent rounds allowed deeds i (c.begin rounds u) := by
  unfold Client.begin
  split
  · exact h
  · rename_i idle
    have past : ∀ d ∈ deeds, d.client = i → d.turn < c.history.length := by
      intro d mem own
      refine (h.turns d mem own).resolve_right fun ⟨_, busy⟩ => ?_
      simp [idle] at busy
    have none : deeds.filter (Deed.isOf i c.history.length) = [] := by
      refine List.filter_eq_nil_iff.mpr fun d mem => ?_
      simp only [Deed.isOf, Bool.and_eq_true, beq_iff_eq, not_and]
      exact fun own => Nat.ne_of_lt (past d mem own)
    refine Consistent.settle rfl (fun d mem own => Nat.le_of_lt (past d mem own)) h.ended
      fun v p eq => ?_
    cases eq
    refine ⟨may, [], .start, ?_, fun d mem => ?_⟩
    · rw [none]
      exact .nothing
    · rw [none] at mem
      cases mem

namespace System

structure Recorded (rounds : Nat) (allowed : Undertaking → Prop) (y : System) : Prop where
  course : Course rounds allowed y.deeds y.server
  clients : ∀ i c, y.clients[i]? = some c → Consistent rounds allowed y.deeds i c

theorem recorded_fresh (clock : Instant) (clients : List Settings) :
    Recorded rounds allowed (fresh clock clients) where
  course := .start clock
  clients i c found := by
    obtain ⟨s, -, rfl⟩ := List.mem_map.mp (List.mem_of_getElem? found)
    exact consistent_idle i s

/-- A new deed, if there is one, is the client's own. -/
theorem Recorded.set {y : System} (h : Recorded rounds allowed y) {i : Nat} {c : Client}
    {deeds : List Deed} (own : Consistent rounds allowed deeds i c)
    (others : deeds = y.deeds ∨ ∃ d, deeds = d :: y.deeds ∧ d.client = i) :
    ∀ j c', (y.clients.set i c)[j]? = some c' → Consistent rounds allowed deeds j c' := by
  intro j c' found
  rw [List.getElem?_set] at found
  split at found
  · rename_i same
    subst same
    split at found
    · cases found
      exact own
    · cases found
  · rename_i other
    rcases others with rfl | ⟨d, rfl, rfl⟩
    · exact h.clients j c' found
    · exact (h.clients j c' found).of_other other

theorem Recorded.go {y : System} (h : Recorded rounds allowed y) (i : Nat) :
    Recorded rounds allowed (y.go i) := by
  unfold System.go
  split
  · exact h
  · rename_i c found
    have own := h.clients i c found
    split
    · rename_i u q next current
      obtain ⟨may, led⟩ := own.underway u _ current
      refine ⟨.deed _ h.course may ⟨next, led⟩, h.set (own.ask current ?_) (.inr ⟨_, rfl, rfl⟩)⟩
      exact led.ask ⟨i, c.history.length, u, c.settings, q, y.server⟩ ⟨rfl, rfl⟩ rfl
    · exact h

theorem Recorded.lose {y : System} (h : Recorded rounds allowed y) (i : Nat) (fault : LinkFault)
    (reached : Bool) : Recorded rounds allowed (y.lose i fault reached) := by
  unfold System.lose
  split
  · exact h
  · rename_i c found
    have own := h.clients i c found
    split
    · rename_i u q next current
      split
      · exact h
      · rename_i r lost
        obtain ⟨may, led⟩ := own.underway u _ current
        cases reached with
        | false => exact ⟨h.course, h.set (own.lose current lost) (.inl rfl)⟩
        | true =>
          refine ⟨.deed _ h.course may ⟨next, led⟩,
            h.set (own.ask current ?_) (.inr ⟨_, rfl, rfl⟩)⟩
          exact Led.cutOff (d := ⟨i, c.history.length, u, c.settings, q, y.server⟩) led
            ⟨rfl, rfl⟩ lost
    · exact h

theorem Recorded.step {y : System} (h : Recorded rounds allowed y) {e : Event}
    (may : ∀ i u, e = .begin i u → allowed u) : Recorded rounds allowed (y.step rounds e) := by
  cases e with
  | go i => exact h.go i
  | lose i fault reached => exact h.lose i fault reached
  | wait s => exact ⟨h.course.wait s, h.clients⟩
  | begin i u =>
    simp only [System.step]
    split
    · exact h
    · rename_i c found
      exact ⟨h.course, h.set ((h.clients i c found).begin (may i u rfl)) (.inl rfl)⟩

theorem Recorded.run {y : System} (h : Recorded rounds allowed y) {events : List Event}
    (may : ∀ i u, .begin i u ∈ events → allowed u) : Recorded rounds allowed (y.run rounds events) := by
  induction events generalizing y with
  | nil => exact h
  | cons e events ih =>
    have first : ∀ i u, e = .begin i u → allowed u :=
      fun i u same => may i u (same ▸ List.mem_cons_self)
    exact ih (h.step first) fun i u mem => may i u (List.mem_cons_of_mem _ mem)

/-- A step of the system is a deed, or leaves the broker as it was but for the time. -/
theorem step_cases (rounds : Nat) (y : System) (e : Event) :
    (y.step rounds e).deeds = y.deeds ∧ ((y.step rounds e).server = y.server ∨
      ∃ s, (y.step rounds e).server = wait s y.server) ∨
    ∃ d, d.before = y.server ∧ (y.step rounds e).deeds = d :: y.deeds ∧
      (y.step rounds e).server = d.after := by
  cases e with
  | begin i u =>
    simp only [System.step]
    split
    · exact .inl ⟨rfl, .inl rfl⟩
    · exact .inl ⟨rfl, .inl rfl⟩
  | wait s => exact .inl ⟨rfl, .inr ⟨s, rfl⟩⟩
  | go i =>
    simp only [System.step, System.go]
    split
    · exact .inl ⟨rfl, .inl rfl⟩
    · split
      · exact .inr ⟨_, rfl, rfl, rfl⟩
      · exact .inl ⟨rfl, .inl rfl⟩
  | lose i fault reached =>
    simp only [System.step, System.lose]
    split
    · exact .inl ⟨rfl, .inl rfl⟩
    · split
      · split
        · exact .inl ⟨rfl, .inl rfl⟩
        · cases reached with
          | false => exact .inl ⟨rfl, .inl rfl⟩
          | true => exact .inr ⟨_, rfl, rfl, rfl⟩
      · exact .inl ⟨rfl, .inl rfl⟩

theorem run_append (rounds : Nat) (y : System) (events : List Event) (e : Event) :
    y.run rounds (events ++ [e]) = (y.run rounds events).step rounds e := by
  simp [run]

end System

end Broker

end ClaimQueue
