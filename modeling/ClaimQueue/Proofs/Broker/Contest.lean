import ClaimQueue.Proofs.Broker.Offers

/-! Several clients after one dead letter. Reading the list and removing the item are two commands, so
many may have chosen the item; the one whose removal comes first has it. There is one letter, either
still in the list or in the hands of one call: this every step keeps. -/

namespace ClaimQueue

namespace Broker

open Server

/-! What is asked about. -/

/-- The outcome of a call for the letter of this task. -/
def Finished.outcome? (a : Aim) (id : String) (f : Finished) : Option (Except QueueError Bool) :=
  match a, f with
  | .replay, ⟨.call (.replay x), o⟩ => if x = id then some o else none
  | .discard, ⟨.call (.discard x), o⟩ => if x = id then some o else none
  | _, _ => none

def Client.outcomes (a : Aim) (id : String) (c : Client) : List (Except QueueError Bool) :=
  c.history.filterMap (Finished.outcome? a id)

/-- The outcomes of all such calls that are finished. -/
def System.outcomes (a : Aim) (id : String) (y : System) : List (Except QueueError Bool) :=
  y.clients.flatMap (Client.outcomes a id)

/-- Nobody is still after the letter of this task. -/
def System.Over (id : String) (y : System) : Prop :=
  ∀ c ∈ y.clients, ∀ x, c.current = some x → x.undertaking.takes id = false

/-- What a call for the letter of this task has appended. -/
def Deed.appended? (id : String) (d : Deed) : Option (List UInt8) :=
  match d.undertaking.takes id, d.ask with
  | true, .send (.append body) => some body
  | _, _ => none

/-- The first of all first. -/
def System.appended (id : String) (y : System) : List (List UInt8) :=
  (y.deeds.filterMap (Deed.appended? id)).reverse

def Deed.Buries (id : String) (d : Deed) : Prop :=
  ∃ text, .bury text ∈ d.ask.commands ∧ IsFor id text

/-- Nothing but the one item is taken out of the list, and nothing but its task appended. -/
inductive Deed.Takes (raw : String) (l : DeadLetter) (d : Deed) : Prop
  | looks (ask : d.ask = .send (.letters (-1)) ∨ d.ask = .send (.unbury raw))
      (after : d.after = d.before)
  | removes {front back : List (List UInt8)} (ask : d.ask = .send (.unbury raw))
      (before : d.before.dead = front ++ Text.Utf8.bytes raw :: back)
      (after : d.after = { d.before with dead := front ++ back })
  | appends (ask : d.ask = .send (.append (Text.Utf8.bytes l.task.encoded)))
      (after : d.after = d.before.append (some (Text.Utf8.bytes l.task.encoded)))

variable {id raw : String} {l : DeadLetter} {s : Settings} {w v : Server}

/-! Where each client stands. -/

/-- What a client is in the midst of, as far as the letter goes. -/
inductive Stands (id raw : String) (l : DeadLetter) : Underway → Prop
  | lists (a : Aim) : Stands id raw l (a.underway id (a.lists id).run)
  | removes (a : Aim) : Stands id raw l (a.underway id (a.removes raw l).run)
  | appends : Stands id raw l (Aim.replay.underway id (Aim.replay.use l).run)
  | apart {u : Undertaking} {p : Program asks u.Outcome} {past : Told} (other : u.takes id = false)
      (spares : p.Along (fun _ => Ask.Spares id) (fun _ _ => True) past) : Stands id raw l ⟨u, p⟩

theorem Stands.within {x : Underway} (h : Stands id raw l x) (takes : x.undertaking.takes id = true) :
    x.rest.Within 3 := by
  cases h with
  | lists a => cases a <;> exact Aim.within_lists _ id
  | removes a => cases a <;> exact (Aim.within_removes _ raw l).mono (by decide)
  | appends => exact (Aim.within_use .replay l).mono (by decide)
  | apart other _ => exact absurd (other.symm.trans takes) Bool.false_ne_true

namespace Client

def wins (a : Aim) (id : String) (c : Client) : Nat := (c.outcomes a id).count (.ok true)

/-- The item was removed, and its task is yet to be appended. -/
def carries (id : String) (c : Client) : Nat :=
  match c.current with
  | some ⟨.call (.replay x), .ask (.send (.append _)) _⟩ => if x = id then 1 else 0
  | _ => 0

/-- How often the client was given the letter. -/
def shares (id : String) (c : Client) : Nat :=
  c.wins .replay id + c.wins .discard id + c.carries id

end Client

theorem sum_map_set {α : Type} (f : α → Nat) {xs : List α} {i : Nat} {x : α} (found : xs[i]? = some x)
    (x' : α) : ((xs.set i x').map f).sum + f x = (xs.map f).sum + f x' := by
  induction xs generalizing i with
  | nil => cases found
  | cons z xs ih =>
    cases i with
    | zero =>
      cases found
      simp only [List.set_cons_zero, List.map_cons, List.sum_cons]
      omega
    | succ i =>
      have tail := ih found
      simp only [List.set_cons_succ, List.map_cons, List.sum_cons]
      omega

/-- What is known of a client while the broker is `w`. Nobody has come away empty-handed as long as
the letter lies there. -/
structure Racing (id raw : String) (l : DeadLetter) (w : Server) (c : Client) : Prop where
  stands : ∀ x, c.current = some x → Stands id raw l x
  settled : ∀ a, ∀ o ∈ c.outcomes a id, o = .ok true ∨ o = .ok false
  late : ∀ a, c.outcomes a id ≠ [] → Text.Utf8.bytes raw ∉ w.dead

structure Contested (id raw : String) (l : DeadLetter) (y : System) : Prop where
  read : DeadLetter.decoder.ofText raw = .ok l
  own : l.task.id = id
  offers : y.server.Offers id raw
  clients : ∀ c ∈ y.clients, Racing id raw l y.server c
  /-- The letter is in the list, or with one of the clients. -/
  once : y.server.dead.count (Text.Utf8.bytes raw) + (y.clients.map (Client.shares id)).sum = 1
  appended : y.appended id =
    .replicate (y.clients.map (Client.wins .replay id)).sum (Text.Utf8.bytes l.task.encoded)
  deeds : ∀ d ∈ y.deeds, d.undertaking.takes id = true → d.Takes raw l

variable {y : System} {i : Nat} {c c' : Client} {a : Aim} {rounds : Nat}

theorem Racing.later (h : Racing id raw l w c)
    (fewer : v.dead.count (Text.Utf8.bytes raw) ≤ w.dead.count (Text.Utf8.bytes raw)) :
    Racing id raw l v c where
  stands := h.stands
  settled := h.settled
  late a some := by
    have gone := List.count_eq_zero.mpr (h.late a some)
    exact List.count_eq_zero.mp (by omega)

/-- One client goes on, and the others stay as they are. -/
theorem Contested.turn (h : Contested id raw l y) (found : y.clients[i]? = some c) {deeds : List Deed}
    (offers : v.Offers id raw)
    (fewer : v.dead.count (Text.Utf8.bytes raw) ≤ y.server.dead.count (Text.Utf8.bytes raw))
    (own : Racing id raw l v c')
    (once : v.dead.count (Text.Utf8.bytes raw) + c'.shares id =
      y.server.dead.count (Text.Utf8.bytes raw) + c.shares id)
    {n : Nat} (wins : c'.wins .replay id = n + c.wins .replay id)
    (appended : deeds.filterMap (Deed.appended? id) =
      .replicate n (Text.Utf8.bytes l.task.encoded) ++ y.deeds.filterMap (Deed.appended? id))
    (takes : ∀ d ∈ deeds, d ∈ y.deeds ∨ (d.undertaking.takes id = true → d.Takes raw l)) :
    Contested id raw l ⟨v, y.clients.set i c', deeds⟩ where
  read := h.read
  own := h.own
  offers := offers
  clients d mem := by
    rcases List.mem_or_eq_of_mem_set mem with mem | rfl
    · exact (h.clients d mem).later fewer
    · exact own
  once := by
    have paid := sum_map_set (Client.shares id) found c'
    have before := h.once
    show v.dead.count _ + ((y.clients.set i c').map _).sum = 1
    omega
  appended := by
    have paid := sum_map_set (Client.wins .replay id) found c'
    have more : ((y.clients.set i c').map (Client.wins .replay id)).sum =
        (y.clients.map (Client.wins .replay id)).sum + n := by omega
    show (deeds.filterMap _).reverse = .replicate ((y.clients.set i c').map _).sum _
    rw [appended, List.reverse_append, List.reverse_replicate, more, List.replicate_add, ← h.appended]
    rfl
  deeds d mem taking := (takes d mem).elim (fun old => h.deeds d old taking) fun new => new taking

/-! A call for the letter goes on. -/

theorem Racing.goesOn (h : Racing id raw l w c)
    (fewer : v.dead.count (Text.Utf8.bytes raw) ≤ w.dead.count (Text.Utf8.bytes raw)) {x : Underway}
    (stands : Stands id raw l x) : Racing id raw l v { c with current := some x } where
  stands z same := by
    cases same
    exact stands
  settled := h.settled
  late := (h.later fewer).late

namespace Aim

theorem outcomes_finished (a a' : Aim) (id : String) (o : Except QueueError Bool) (c : Client) :
    Client.outcomes a' id { c with current := none, history := a.finished id o :: c.history } =
      if a' = a then o :: c.outcomes a' id else c.outcomes a' id := by
  have own : Finished.outcome? a' id (a.finished id o) = if a' = a then some o else none := by
    cases a <;> cases a' <;> simp [finished, Finished.outcome?]
  rw [Client.outcomes, List.filterMap_cons, own]
  by_cases same : a' = a
  · rw [if_pos same, if_pos same]
    rfl
  · rw [if_neg same, if_neg same]
    rfl

theorem wins_finished (a a' : Aim) (id : String) (b : Bool) (c : Client) :
    Client.wins a' id { c with current := none, history := a.finished id (.ok b) :: c.history } =
      (if a' = a ∧ b = true then 1 else 0) + c.wins a' id := by
  rw [Client.wins, outcomes_finished]
  by_cases same : a' = a
  · rw [if_pos same, List.count_cons, Client.wins]
    cases b <;> simp [same, Nat.add_comm]
  · simp [same, Client.wins]

end Aim

namespace Client

theorem carries_lists (current : c.current = some (a.underway id (a.lists id).run)) :
    c.carries id = 0 := by
  rw [carries, current]
  cases a <;> rfl

theorem carries_removes (current : c.current = some (a.underway id (a.removes raw l).run)) :
    c.carries id = 0 := by
  rw [carries, current]
  cases a <;> rfl

theorem carries_appends (current : c.current = some (Aim.replay.underway id (Aim.replay.use l).run)) :
    c.carries id = 1 := by
  rw [carries, current]
  exact if_pos rfl

theorem shares_finished (a : Aim) (id : String) (b : Bool) (c : Client) :
    shares id { c with current := none, history := a.finished id (.ok b) :: c.history } =
      c.wins .replay id + c.wins .discard id + b.toNat := by
  simp only [shares, carries, Aim.wins_finished]
  cases a <;> cases b <;> simp <;> omega

end Client

theorem Racing.ends (h : Racing id raw l w c) (gone : Text.Utf8.bytes raw ∉ v.dead) (a : Aim)
    (b : Bool) :
    Racing id raw l v { c with current := none, history := a.finished id (.ok b) :: c.history } where
  stands _ none := by cases none
  settled a' o mem := by
    rw [Aim.outcomes_finished] at mem
    split at mem
    · rcases List.mem_cons.mp mem with rfl | mem
      · cases b
        · exact .inr rfl
        · exact .inl rfl
      · exact h.settled a' o mem
    · exact h.settled a' o mem
  late _ _ := gone

/-- The client goes on to its next command, which is no append. -/
theorem Contested.goesOn (h : Contested id raw l y) (found : y.clients[i]? = some c)
    {p p' : Program asks (Except QueueError Bool)} (current : c.current = some (a.underway id p))
    {q : Ask} (moves : Moves c.settings y.server q p p')
    (settled : ({ c with current := some (a.underway id p') } : Client).settle = c')
    (other : ∀ body, q ≠ .send (.append body))
    (offers : (y.server.answer c.settings q).2.Offers id raw)
    (fewer : (y.server.answer c.settings q).2.dead.count (Text.Utf8.bytes raw) ≤
      y.server.dead.count (Text.Utf8.bytes raw))
    (own : Racing id raw l (y.server.answer c.settings q).2 c')
    (once : (y.server.answer c.settings q).2.dead.count (Text.Utf8.bytes raw) + c'.shares id =
      y.server.dead.count (Text.Utf8.bytes raw) + c.shares id)
    (wins : c'.wins .replay id = c.wins .replay id)
    (takes : Deed.Takes raw l ⟨i, c.history.length, a.undertaking id, c.settings, q, y.server⟩) :
    Contested id raw l (y.go i) := by
  rw [Aim.go_eq _ found current moves, settled]
  refine h.turn found (n := 0) offers fewer own once (wins.trans (Nat.zero_add _).symm) ?_ ?_
  · refine List.filterMap_cons_none ?_
    simp only [Deed.appended?]
    split
    · exact absurd rfl (other _)
    · rfl
  · rintro d (_ | ⟨_, mem⟩)
    · exact .inr fun _ => takes
    · exact .inl mem

theorem Contested.lists (h : Contested id raw l y) (found : y.clients[i]? = some c)
    (current : c.current = some (a.underway id (a.lists id).run)) : Contested id raw l (y.go i) := by
  obtain ⟨texts, dead⟩ := h.offers.texts
  have chosen := h.offers.letterFor?_eq h.read h.own dead
  have parsed : Reply.texts? (.list (y.server.dead.map .bulk)) = some texts :=
    dead ▸ texts?_bytes texts
  have racing := h.clients c (List.mem_of_getElem? found)
  have idle := Client.carries_lists current
  by_cases there : Text.Utf8.bytes raw ∈ y.server.dead
  · rw [if_pos there] at chosen
    have still : Client.carries id { c with current := some (a.underway id (a.removes raw l).run) } = 0 :=
      Client.carries_removes rfl
    refine h.goesOn found current (Aim.moves_lists parsed chosen a) (Aim.settle_removes a c) nofun
      h.offers (Nat.le_refl _) (racing.goesOn (Nat.le_refl _) (.removes a)) ?_ rfl (.looks (.inl rfl) rfl)
    simp only [Client.shares, idle, still]
    rfl
  · rw [if_neg there] at chosen
    refine h.goesOn found current (Aim.moves_lists_none parsed chosen a) (Aim.settle_done a id _ c) nofun
      h.offers (Nat.le_refl _) (racing.ends there a false) ?_ ?_ (.looks (.inl rfl) rfl)
    · rw [Client.shares_finished, Client.shares, idle]
      rfl
    · simp [Aim.wins_finished]

/-- There is one such item, and it is taken out. -/
theorem Contested.taken (h : Contested id raw l y) (there : Text.Utf8.bytes raw ∈ y.server.dead) :
    ∃ front back, y.server.dead = front ++ Text.Utf8.bytes raw :: back ∧
      y.server.dead.erase (Text.Utf8.bytes raw) = front ++ back ∧
      y.server.dead.count (Text.Utf8.bytes raw) = 1 ∧ Text.Utf8.bytes raw ∉ front ++ back := by
  obtain ⟨front, back, dead, unseen⟩ := List.eq_append_cons_of_mem there
  have count : y.server.dead.count (Text.Utf8.bytes raw) =
      (front ++ back).count (Text.Utf8.bytes raw) + 1 := by
    rw [dead, List.count_append, List.count_cons_self, List.count_append, Nat.add_assoc]
  have once := h.once
  refine ⟨front, back, dead, ?_, by omega, List.count_eq_zero.mp (by omega)⟩
  rw [dead, List.erase_append_right _ unseen, List.erase_cons_head]

theorem Contested.removes (h : Contested id raw l y) (found : y.clients[i]? = some c)
    (current : c.current = some (a.underway id (a.removes raw l).run)) : Contested id raw l (y.go i) := by
  have racing := h.clients c (List.mem_of_getElem? found)
  have idle := Client.carries_removes current
  let after : Server := { y.server with dead := y.server.dead.erase (Text.Utf8.bytes raw) }
  have erased : after.Offers id raw := by
    obtain ⟨texts, dead⟩ := h.offers.texts
    refine ⟨⟨texts.erase raw, ?_⟩, fun t mem => h.offers.only t (List.mem_of_mem_erase mem)⟩
    show y.server.dead.erase _ = _
    rw [dead, List.map_erase fun _ _ => Text.Utf8.bytes_injective]
  by_cases there : Text.Utf8.bytes raw ∈ y.server.dead
  · obtain ⟨front, back, dead, rest, one, gone⟩ := h.taken there
    rw [← rest] at gone
    have none : after.dead.count (Text.Utf8.bytes raw) = 0 := List.count_eq_zero.mpr gone
    have takes : Deed.Takes raw l ⟨i, c.history.length, a.undertaking id, c.settings,
        .send (.unbury raw), y.server⟩ := by
      refine .removes rfl dead ?_
      rw [← rest]
      rfl
    cases a with
    | replay =>
      refine h.goesOn found current (Aim.moves_removes there .replay) (Aim.settle_appends c) nofun
        erased (none ▸ Nat.zero_le _) (racing.goesOn (none ▸ Nat.zero_le _) .appends) ?_ rfl takes
      have holds : Client.carries id
          { c with current := some (Aim.replay.underway id (Aim.replay.use l).run) } = 1 :=
        Client.carries_appends rfl
      show after.dead.count _ + (c.wins .replay id + c.wins .discard id + Client.carries id _) = _
      rw [none, one, holds, Client.shares, idle]
      omega
    | discard =>
      refine h.goesOn found current (Aim.moves_removes there .discard)
        (Aim.settle_done .discard id (.ok true) c) nofun erased (none ▸ Nat.zero_le _)
        (racing.ends gone .discard true) ?_ (by simp [Aim.wins_finished]) takes
      show after.dead.count _ + _ = _
      rw [Client.shares_finished, none, one, Client.shares, idle]
      show 0 + (_ + 1) = _
      omega
  · have same : y.server.dead.erase (Text.Utf8.bytes raw) = y.server.dead :=
      List.erase_of_not_mem there
    have still : Text.Utf8.bytes raw ∉ after.dead := fun mem => there (List.mem_of_mem_erase mem)
    refine h.goesOn found current (Aim.moves_removes_none there a) (Aim.settle_done a id _ c) nofun
      erased (Nat.le_of_eq (congrArg _ same)) (racing.ends still a false) ?_
      (by simp [Aim.wins_finished]) (.looks (.inr rfl) ?_)
    · show after.dead.count _ + _ = _
      rw [Client.shares_finished, Client.shares, idle]
      exact congrArg (List.count _ · + _) same
    · show after = _
      simp only [after, same]

theorem Contested.appends (h : Contested id raw l y) (found : y.clients[i]? = some c)
    (current : c.current = some (Aim.replay.underway id (Aim.replay.use l).run)) :
    Contested id raw l (y.go i) := by
  have racing := h.clients c (List.mem_of_getElem? found)
  have holds := Client.carries_appends current
  have gone : Text.Utf8.bytes raw ∉ y.server.dead := by
    have once := h.once
    have without := sum_map_set (Client.shares id) found { c with current := none }
    have free : Client.shares id { c with current := none } =
        c.wins .replay id + c.wins .discard id := rfl
    rw [free, Client.shares, holds] at without
    exact List.count_eq_zero.mp (by omega)
  let after : Server := y.server.append (some (Text.Utf8.bytes l.task.encoded))
  have offers : after.Offers id raw := (h.offers.of_dead (v := after) rfl).offers
  rw [Aim.go_eq _ found current Aim.moves_appends, Aim.settle_done]
  refine h.turn found (n := 1) offers (Nat.le_refl _) (racing.ends (v := after) gone .replay true)
    ?_ ?_ ?_ ?_
  · rw [Client.shares_finished, Client.shares, holds]
    rfl
  · simp [Aim.wins_finished]
  · refine List.filterMap_cons_some ?_
    simp only [Deed.appended?, Undertaking.takes_undertaking]
  · rintro d (_ | ⟨_, mem⟩)
    · exact .inr fun _ => .appends rfl rfl
    · exact .inl mem

/-! Everything else goes on. -/

theorem outcome?_apart {u : Undertaking} (other : u.takes id = false) (a : Aim) (o : u.Outcome) :
    Finished.outcome? a id ⟨u, o⟩ = none := by
  cases u with
  | retire => cases a <;> rfl
  | call call =>
    cases call with
    | replay x =>
      cases a with
      | replay => exact if_neg (ne_of_beq_false other)
      | discard => rfl
    | discard x =>
      cases a with
      | replay => rfl
      | discard => exact if_neg (ne_of_beq_false other)
    | _ => cases a <;> rfl

namespace Client

theorem carries_apart {u : Undertaking} {p : Program asks u.Outcome} (other : u.takes id = false)
    (current : c.current = some ⟨u, p⟩) : c.carries id = 0 := by
  rw [carries, current]
  split
  · rename_i same
    cases same
    exact if_neg (ne_of_beq_false other)
  · rfl

/-- The client is at something else, or has just finished it. -/
structure Apart (u : Undertaking) (p : Program asks u.Outcome) (id : String) (c c' : Client) : Prop where
  outcomes : ∀ a, c'.outcomes a id = c.outcomes a id
  carries : c'.carries id = 0
  current : ∀ x, c'.current = some x → x = ⟨u, p⟩

theorem settle_apart {u : Undertaking} (other : u.takes id = false) (p : Program asks u.Outcome)
    (c : Client) : Apart u p id c ({ c with current := some ⟨u, p⟩ } : Client).settle := by
  rcases settle_cases { c with current := some ⟨u, p⟩ } with ⟨v, o, current, settled⟩ | settled
  · cases current
    rw [settled]
    refine ⟨fun a => ?_, rfl, fun _ none => by cases none⟩
    exact List.filterMap_cons_none (outcome?_apart other a o)
  · rw [settled]
    exact ⟨fun _ => rfl, carries_apart other rfl, fun x same => (Option.some.inj same).symm⟩

theorem Apart.wins {u : Undertaking} {p : Program asks u.Outcome} (h : Apart u p id c c') (a : Aim) :
    c'.wins a id = c.wins a id := by
  rw [Client.wins, h.outcomes, Client.wins]

theorem Apart.shares {u : Undertaking} {p : Program asks u.Outcome} (h : Apart u p id c c')
    (free : c.carries id = 0) : c'.shares id = c.shares id := by
  rw [Client.shares, h.wins, h.wins, h.carries, Client.shares, free]

end Client

theorem Racing.apart {u : Undertaking} {p : Program asks u.Outcome} {past : Told}
    (h : Racing id raw l w c) (fewer : v.dead.count (Text.Utf8.bytes raw) ≤ w.dead.count (Text.Utf8.bytes raw))
    (other : u.takes id = false) (spares : p.Along (fun _ => Ask.Spares id) (fun _ _ => True) past)
    (apart : c.Apart u p id c') : Racing id raw l v c' where
  stands x same := apart.current x same ▸ .apart other spares
  settled a := by
    rw [apart.outcomes]
    exact h.settled a
  late a := by
    rw [apart.outcomes]
    exact (h.later fewer).late a

theorem Contested.apart {u : Undertaking} {p : Program asks u.Outcome} {past : Told}
    (h : Contested id raw l y) (found : y.clients[i]? = some c) (current : c.current = some ⟨u, p⟩)
    (other : u.takes id = false) (spares : p.Along (fun _ => Ask.Spares id) (fun _ _ => True) past)
    (quiet : ∀ d ∈ (y.go i).deeds, ¬ d.Buries id) : Contested id raw l (y.go i) := by
  cases p with
  | done _ | spent =>
    have same : y.go i = y := by simp only [System.go, found, current]
    rw [same]
    exact h
  | ask q next =>
    have moves : Moves c.settings y.server q (.ask q next) (next (y.server.answer c.settings q).1) :=
      ⟨next, rfl, rfl⟩
    rw [System.go_of_moves found current moves] at quiet ⊢
    have apart := Client.settle_apart other (next (y.server.answer c.settings q).1) c
    have same := h.offers.answer (s := c.settings) ⟨l, h.read, h.own⟩ (fun text bury isFor =>
      quiet _ List.mem_cons_self ⟨text, bury, isFor⟩) spares.1
    have racing := h.clients c (List.mem_of_getElem? found)
    refine h.turn found (n := 0) same.offers (Nat.le_of_eq same.count)
      (racing.apart (Nat.le_of_eq same.count) other (spares.2 _) apart) ?_
      ((apart.wins .replay).trans (Nat.zero_add _).symm) ?_ ?_
    · rw [same.count, apart.shares (Client.carries_apart other current)]
    · refine List.filterMap_cons_none ?_
      simp only [Deed.appended?, other]
    · rintro d (_ | ⟨_, mem⟩)
      · exact .inr fun takes => absurd (other.symm.trans takes) Bool.false_ne_true
      · exact .inl mem

theorem Contested.go (h : Contested id raw l y) (i : Nat)
    (quiet : ∀ d ∈ (y.go i).deeds, ¬ d.Buries id) : Contested id raw l (y.go i) := by
  cases found : y.clients[i]? with
  | none =>
    have same : y.go i = y := by simp only [System.go, found]
    rw [same]
    exact h
  | some c =>
    cases current : c.current with
    | none =>
      have same : y.go i = y := by simp only [System.go, found, current]
      rw [same]
      exact h
    | some x =>
      cases (h.clients c (List.mem_of_getElem? found)).stands x current with
      | lists a => exact h.lists found current
      | removes a => exact h.removes found current
      | appends => exact h.appends found current
      | apart other spares => exact h.apart found current other spares quiet

theorem Contested.begin (h : Contested id raw l y) (i : Nat) (u : Undertaking) :
    Contested id raw l (y.step rounds (.begin i u)) := by
  simp only [System.step]
  split
  · exact h
  · rename_i c found
    have racing := h.clients c (List.mem_of_getElem? found)
    unfold Client.begin
    split
    · rename_i busy
      refine h.turn found (n := 0) h.offers (Nat.le_refl _) racing rfl (Nat.zero_add _).symm rfl
        fun d mem => .inl mem
    · rename_i idle
      have free : c.carries id = 0 := by
        rw [Client.carries, idle]
      by_cases takes : u.takes id = true
      · obtain ⟨a, rfl⟩ := Undertaking.takes_iff.mp takes
        rw [Aim.work_eq, Aim.settle_lists]
        have still : Client.carries id { c with current := some (a.underway id (a.lists id).run) } = 0 :=
          Client.carries_lists rfl
        refine h.turn found (n := 0) h.offers (Nat.le_refl _) (racing.goesOn (Nat.le_refl _) (.lists a))
          ?_ (Nat.zero_add _).symm rfl fun d mem => .inl mem
        rw [Client.shares, still, Client.shares, free]
        rfl
      · have other : u.takes id = false := Bool.eq_false_iff.mpr takes
        have apart := Client.settle_apart other (u.work rounds c.settings) c
        refine h.turn found (n := 0) h.offers (Nat.le_refl _)
          (racing.apart (Nat.le_refl _) other (Undertaking.spares_along other rounds c.settings) apart)
          ?_ ((apart.wins .replay).trans (Nat.zero_add _).symm) rfl fun d mem => .inl mem
        rw [apart.shares free]

theorem Contested.step (h : Contested id raw l y) {e : Event}
    (whole : ∀ i fault reached, e ≠ .lose i fault reached)
    (quiet : ∀ d ∈ (y.step rounds e).deeds, ¬ d.Buries id) : Contested id raw l (y.step rounds e) := by
  cases e with
  | begin i u => exact h.begin i u
  | go i => exact h.go i quiet
  | lose i fault reached => exact absurd rfl (whole i fault reached)
  | wait s =>
    have same := h.offers.of_dead (v := System.wait s y.server) rfl
    exact { h with
      offers := same.offers
      clients := fun c mem => (h.clients c mem).later (Nat.le_refl _) }

end Broker

end ClaimQueue
