import ClaimQueue.Proofs.Broker.Contest
import Mathlib.Data.List.Count
import Mathlib.Data.List.Induction

/-! How a contest for a dead letter ends. When nobody is after it any more, one call was given it. -/

namespace ClaimQueue

namespace Broker

open Server

variable {id raw : String} {l : DeadLetter} {w : Server} {y : System} {i : Nat} {c : Client} {rounds : Nat}

/-! Runs. -/

theorem sum_around {f : Client → Nat} (none : ∀ s, f { settings := s } = 0) {clients : List Settings} :
    ((System.around w clients).clients.map f).sum = 0 := by
  refine List.sum_eq_zero_iff_forall_eq_nat.mpr fun n mem => ?_
  obtain ⟨c, client, rfl⟩ := List.mem_map.mp mem
  obtain ⟨s, -, rfl⟩ := List.mem_map.mp client
  exact none s

/-- The item lies there once. -/
theorem contested_around {front back : List String} (read : DeadLetter.decoder.ofText raw = .ok l)
    (own : l.task.id = id) (dead : w.dead = (front ++ raw :: back).map Text.Utf8.bytes)
    (alone : ∀ text ∈ front ++ back, ¬ IsFor id text) (clients : List Settings) :
    Contested id raw l (System.around w clients) where
  read := read
  own := own
  offers := by
    refine ⟨⟨_, dead⟩, fun text mem isFor => ?_⟩
    have mem : text ∈ front ++ raw :: back := by
      rw [← List.mem_map_of_injective fun _ _ => Text.Utf8.bytes_injective, ← dead]
      exact mem
    rcases List.mem_append.mp mem with front | back
    · exact absurd isFor (alone text (List.mem_append_left _ front))
    · refine (List.mem_cons.mp back).resolve_right fun back => ?_
      exact alone text (List.mem_append_right _ back) isFor
  clients c mem := by
    obtain ⟨s, -, rfl⟩ := List.mem_map.mp mem
    refine ⟨fun _ none => (nomatch none), fun _ _ none => absurd none List.not_mem_nil, ?_⟩
    exact fun _ some => absurd rfl some
  once := by
    have unseen : raw ∉ front ++ back := fun mem => alone raw mem ⟨l, read, own⟩
    rw [List.mem_append, not_or, ← List.count_eq_zero, ← List.count_eq_zero] at unseen
    rw [sum_around fun _ => rfl]
    show w.dead.count _ + 0 = 1
    rw [dead, List.count_map_of_injective _ _ fun _ _ => Text.Utf8.bytes_injective,
      List.count_append, List.count_cons_self, unseen.1, unseen.2]
  appended := by
    rw [sum_around fun _ => rfl]
    rfl
  deeds _ mem := absurd mem List.not_mem_nil

theorem System.mem_deeds_step {d : Deed} (mem : d ∈ y.deeds) (e : Event) :
    d ∈ (y.step rounds e).deeds := by
  rcases System.step_cases rounds y e with ⟨deeds, -⟩ | ⟨_, -, deeds, -⟩
  · exact deeds ▸ mem
  · exact deeds ▸ List.mem_cons_of_mem _ mem

theorem Contested.run (h : Contested id raw l y) {events : List Event}
    (whole : ∀ i fault reached, .lose i fault reached ∉ events)
    (quiet : ∀ d ∈ (y.run rounds events).deeds, ¬ d.Buries id) :
    Contested id raw l (y.run rounds events) := by
  induction events using List.reverseRecOn with
  | nil => exact h
  | append_singleton events e ih =>
    rw [System.run_append] at quiet ⊢
    have before := ih (fun i fault reached mem => whole i fault reached (List.mem_append_left _ mem))
      fun d mem => quiet d (System.mem_deeds_step mem e)
    refine before.step (fun i fault reached same => whole i fault reached ?_) quiet
    exact List.mem_append_right _ (List.mem_singleton.mpr same.symm)

/-! Where nobody does anything else. -/

/-- All that was done since the broker was `w` was done for the letter. -/
structure Devoted (id raw : String) (front back : List String) (w : Server) (y : System) : Prop where
  clients : ∀ c ∈ y.clients, ∀ x, c.current = some x → x.undertaking.takes id = true
  dead : y.server.dead = (if Text.Utf8.bytes raw ∈ y.server.dead then front ++ raw :: back
    else front ++ back).map Text.Utf8.bytes
  entries : y.server.entries.map Prod.snd = w.entries.map Prod.snd ++ (y.appended id).map some

/-- A client's turn is a deed for what it is in the midst of. -/
theorem System.go_cases (y : System) (i : Nat) : y.go i = y ∨
    ∃ c d u p, c ∈ y.clients ∧ (∃ q, c.current = some ⟨u, q⟩) ∧ d.undertaking = u ∧ d.before = y.server ∧
      y.go i = ⟨d.after, y.clients.set i { c with current := some ⟨u, p⟩ : Client }.settle, d :: y.deeds⟩ := by
  unfold System.go
  split
  · exact .inl rfl
  · rename_i c found
    split
    · rename_i u q next current
      exact .inr ⟨c, _, u, _, List.mem_of_getElem? found, ⟨_, current⟩, rfl, rfl, rfl⟩
    · exact .inl rfl

theorem takes_of_settle {u : Undertaking} {p : Program asks u.Outcome} (takes : u.takes id = true)
    {x : Underway} (current : ({ c with current := some ⟨u, p⟩ } : Client).settle.current = some x) :
    x.undertaking.takes id = true := by
  rcases settle_cases { c with current := some ⟨u, p⟩ } with ⟨v, o, -, settled⟩ | settled
  · rw [settled] at current
    cases current
  · rw [settled] at current
    cases current
    exact takes

variable {front back : List String}

/-- What a deed for the letter leaves of list and stream. -/
theorem Deed.Takes.leaves {d : Deed} (h : d.Takes raw l) (takes : d.undertaking.takes id = true)
    (unseen : raw ∉ front ++ back)
    (before : d.before.dead = (if Text.Utf8.bytes raw ∈ d.before.dead then front ++ raw :: back
      else front ++ back).map Text.Utf8.bytes) :
    d.after.dead = (if Text.Utf8.bytes raw ∈ d.after.dead then front ++ raw :: back
      else front ++ back).map Text.Utf8.bytes ∧
    d.after.entries.map Prod.snd = d.before.entries.map Prod.snd ++ (d.appended? id).toList.map some := by
  cases h with
  | looks ask after =>
    rw [after]
    refine ⟨before, ?_⟩
    rcases ask with ask | ask <;> simp [Deed.appended?, takes, ask]
  | appends ask after =>
    rw [after]
    refine ⟨before, ?_⟩
    simp [Deed.appended?, takes, ask, Server.append]
  | @removes front' back' ask split after =>
    rw [after]
    refine ⟨?_, by simp [Deed.appended?, takes, ask]⟩
    have notMem {texts : List String} (none : raw ∉ texts) :
        Text.Utf8.bytes raw ∉ texts.map Text.Utf8.bytes := by
      rwa [List.mem_map_of_injective fun _ _ => Text.Utf8.bytes_injective]
    have rest : front' ++ back' = (front ++ back).map Text.Utf8.bytes := by
      have there : Text.Utf8.bytes raw ∈ d.before.dead :=
        split ▸ List.mem_append_right _ List.mem_cons_self
      rw [if_pos there, split, List.map_append, List.map_cons] at before
      rw [List.mem_append, not_or] at unseen
      obtain ⟨rfl, -, rfl⟩ := (List.append_cons_inj_of_notMem (notMem unseen.1)
        (notMem unseen.2)).mp before.symm
      rw [List.map_append]
    show front' ++ back' = _
    rw [if_neg (rest ▸ notMem unseen)]
    exact rest

theorem System.appended_cons (v : Server) (clients : List Client) (d : Deed) (y : System) :
    System.appended id ⟨v, clients, d :: y.deeds⟩ = y.appended id ++ (d.appended? id).toList := by
  rw [System.appended, List.filterMap_cons]
  cases d.appended? id with
  | none => exact (List.append_nil _).symm
  | some body => exact List.reverse_cons

theorem Devoted.step (h : Devoted id raw front back w y) (unseen : raw ∉ front ++ back) {e : Event}
    (may : ∀ i u, e = .begin i u → u.takes id = true)
    (whole : ∀ i fault reached, e ≠ .lose i fault reached)
    (later : Contested id raw l (y.step rounds e)) : Devoted id raw front back w (y.step rounds e) := by
  cases e with
  | wait s => exact ⟨h.clients, h.dead, h.entries⟩
  | lose i fault reached => exact absurd rfl (whole i fault reached)
  | begin i u =>
    simp only [System.step]
    split
    · exact h
    · rename_i c found
      refine ⟨fun c' mem x current => ?_, h.dead, h.entries⟩
      rcases List.mem_or_eq_of_mem_set mem with mem | rfl
      · exact h.clients c' mem x current
      · unfold Client.begin at current
        split at current
        · exact h.clients c (List.mem_of_getElem? found) x current
        · exact takes_of_settle (may i u rfl) current
  | go i =>
    rcases y.go_cases i with same | ⟨c, d, u, p, mem, ⟨q, current⟩, undertaking, before, same⟩
    · rw [System.step, same]
      exact h
    · have takes : u.takes id = true := h.clients c mem _ current
      have own : d.undertaking.takes id = true := undertaking ▸ takes
      rw [System.step, same] at later ⊢
      obtain ⟨dead, entries⟩ := (later.deeds d List.mem_cons_self own).leaves own unseen
        (before.symm ▸ h.dead)
      refine ⟨fun c' among x now => ?_, dead, ?_⟩
      · rcases List.mem_or_eq_of_mem_set among with among | rfl
        · exact h.clients c' among x now
        · exact takes_of_settle takes now
      · rw [System.appended_cons, List.map_append, ← List.append_assoc, ← h.entries, ← before]
        exact entries

theorem Devoted.run {clients : List Settings} {events : List Event} (unseen : raw ∉ front ++ back)
    (start : Contested id raw l (System.around w clients))
    (dead : w.dead = (front ++ raw :: back).map Text.Utf8.bytes)
    (may : ∀ i u, .begin i u ∈ events → u.takes id = true)
    (whole : ∀ i fault reached, .lose i fault reached ∉ events)
    (quiet : ∀ d ∈ ((System.around w clients).run rounds events).deeds, ¬ d.Buries id) :
    Devoted id raw front back w ((System.around w clients).run rounds events) := by
  induction events using List.reverseRecOn with
  | nil =>
    refine ⟨fun c mem x current => ?_, ?_, (List.append_nil _).symm⟩
    · obtain ⟨s, -, rfl⟩ := List.mem_map.mp mem
      cases current
    · have there : Text.Utf8.bytes raw ∈ w.dead := by
        rw [dead, List.mem_map_of_injective fun _ _ => Text.Utf8.bytes_injective]
        exact List.mem_append_right _ List.mem_cons_self
      exact dead.trans (congrArg _ (if_pos there).symm)
  | append_singleton events e ih =>
    have later := start.run whole quiet
    rw [System.run_append] at quiet later ⊢
    have before := ih (fun i u mem => may i u (List.mem_append_left _ mem))
      (fun i fault reached mem => whole i fault reached (List.mem_append_left _ mem))
      fun d mem => quiet d (System.mem_deeds_step mem e)
    refine before.step unseen (fun i u same => may i u ?_) (fun i fault reached same => ?_) later
    · exact List.mem_append_right _ (List.mem_singleton.mpr same.symm)
    · exact whole i fault reached (List.mem_append_right _ (List.mem_singleton.mpr same.symm))

/-! One gets it. -/

/-- Of all calls for the letter, one was given it. -/
structure TakenOnce (id raw : String) (l : DeadLetter) (y : System) : Prop where
  settled : ∀ a, ∀ o ∈ y.outcomes a id, o = .ok true ∨ o = .ok false
  once : (y.outcomes .replay id).count (.ok true) + (y.outcomes .discard id).count (.ok true) = 1
  gone : Text.Utf8.bytes raw ∉ y.server.dead
  appended : y.appended id = .replicate ((y.outcomes .replay id).count (.ok true))
    (Text.Utf8.bytes l.task.encoded)
  takes : ∀ d ∈ y.deeds, d.undertaking.takes id = true → d.Takes raw l

theorem System.count_outcomes (a : Aim) (y : System) :
    (y.outcomes a id).count (.ok true) = (y.clients.map (Client.wins a id)).sum :=
  List.count_flatMap

/-- With nobody after the letter any more, the shares are what the calls were told. -/
theorem sum_shares {clients : List Client}
    (idle : ∀ c ∈ clients, ∀ x, c.current = some x → x.undertaking.takes id = false) :
    (clients.map (Client.shares id)).sum =
      (clients.map (Client.wins .replay id)).sum + (clients.map (Client.wins .discard id)).sum := by
  induction clients with
  | nil => rfl
  | cons c clients ih =>
    rw [List.forall_mem_cons] at idle
    have free : c.carries id = 0 := by
      cases current : c.current with
      | none => rw [Client.carries, current]
      | some x => exact Client.carries_apart (idle.1 x current) current
    simp only [List.map_cons, List.sum_cons, ih idle.2, Client.shares, free]
    omega

theorem Contested.takenOnce (h : Contested id raw l y) (idle : y.Over id)
    (called : ∃ a, y.outcomes a id ≠ []) : TakenOnce id raw l y := by
  obtain ⟨a, some⟩ := called
  obtain ⟨o, mem⟩ := List.exists_mem_of_ne_nil _ some
  obtain ⟨c, client, mem⟩ := List.mem_flatMap.mp mem
  have gone := (h.clients c client).late a (List.ne_nil_of_mem mem)
  refine ⟨fun a o mem => ?_, ?_, gone, ?_, h.deeds⟩
  · obtain ⟨c, client, mem⟩ := List.mem_flatMap.mp mem
    exact (h.clients c client).settled a o mem
  · have once := h.once
    rw [List.count_eq_zero.mpr gone, sum_shares idle] at once
    rw [System.count_outcomes, System.count_outcomes]
    omega
  · rw [System.count_outcomes, h.appended]

/-- Any number of clients go after a dead letter, to replay or to discard it, while others do what
they like but bury no other letter of that task. None of them needs more than three commands, and
when all are done one was told that it has the letter, and all others that there is none. What was
appended is the task, once, if the letter was to be replayed. Each command leaves all other items as
they lie, and where nobody does anything else they are what is left. -/
theorem run_gives_letter_once (rounds : Nat) (w : Server) (clients : List Settings)
    (events : List Event) {front back : List String}
    (dead : w.dead = (front ++ raw :: back).map Text.Utf8.bytes)
    (read : DeadLetter.decoder.ofText raw = .ok l) (own : l.task.id = id)
    (alone : ∀ text ∈ front ++ back, ¬ IsFor id text)
    (whole : ∀ i fault reached, .lose i fault reached ∉ events)
    (quiet : ∀ d ∈ ((System.around w clients).run rounds events).deeds, ¬ d.Buries id) :
    (∀ c ∈ ((System.around w clients).run rounds events).clients, ∀ x, c.current = some x →
      x.undertaking.takes id = true → x.rest.Within 3) ∧
    (((System.around w clients).run rounds events).Over id →
      (∃ a, ((System.around w clients).run rounds events).outcomes a id ≠ []) →
      TakenOnce id raw l ((System.around w clients).run rounds events) ∧
      ((∀ i u, .begin i u ∈ events → u.takes id = true) →
        ((System.around w clients).run rounds events).server.dead =
          (front ++ back).map Text.Utf8.bytes ∧
        ((System.around w clients).run rounds events).server.entries.map Prod.snd =
          w.entries.map Prod.snd ++
            (((System.around w clients).run rounds events).appended id).map some)) := by
  have start := contested_around read own dead alone clients
  have contested := start.run whole quiet
  refine ⟨fun c mem x current => ((contested.clients c mem).stands x current).within, ?_⟩
  intro idle called
  have once := contested.takenOnce idle called
  refine ⟨once, fun may => ?_⟩
  have unseen : raw ∉ front ++ back := fun mem => alone raw mem ⟨l, read, own⟩
  have devoted := Devoted.run unseen start dead may whole quiet
  exact ⟨devoted.dead.trans (congrArg _ (if_neg once.gone)), devoted.entries⟩

private def guinea : DeadLetter := ⟨⟨.execute, "guinea", [], .empty, 3, .epoch, 1⟩, "", .epoch⟩

private def guineaText : String :=
  "[[\"execute\",\"guinea\",\x7b\x7d,[],3,\"1970-01-01T00:00:00Z\",1],\"\",\"1970-01-01T00:00:00Z\"]"

private theorem read_guinea : DeadLetter.decoder.ofText guineaText = .ok guinea := by
  decide +kernel

private def bidders : List Settings := [{ consumer := "a" }, { consumer := "b" }, { consumer := "c" }]

private def vault : Server where
  dead := ["?", guineaText].map Text.Utf8.bytes
  clock := .epoch

/-- All three have read the list before any of them removes the item. -/
private def bidding : List Event := [
  .begin 0 (.call (.replay "guinea")), .begin 1 (.call (.discard "guinea")),
  .begin 2 (.call (.replay "guinea")), .go 0, .go 1, .go 2, .go 2, .go 0, .go 1, .go 2]

private def bidden : System := (System.around vault bidders).run 1 bidding

private def buries : Command → Bool
  | .bury _ => true
  | _ => false

private theorem bidden_eq : (bidden.deeds.flatMap (·.ask.commands)).any buries = false ∧
    bidden.clients.all (·.current.isNone) = true ∧
    bidden.outcomes .replay "guinea" = [.ok false, .ok true] ∧
    bidden.outcomes .discard "guinea" = [.ok false] := by decide +kernel

theorem run_gives_guinea_once :
    TakenOnce "guinea" guineaText guinea ((System.around vault bidders).run 1 bidding) ∧
      ((System.around vault bidders).run 1 bidding).outcomes .replay "guinea" = [.ok false, .ok true] ∧
      ((System.around vault bidders).run 1 bidding).outcomes .discard "guinea" = [.ok false] := by
  obtain ⟨unburied, idle, replays, discards⟩ := bidden_eq
  have alone : ∀ text ∈ ["?"] ++ [], ¬ IsFor "guinea" text := by
    rintro text mem ⟨l, read, -⟩
    have unread : (DeadLetter.decoder.ofText "?").toOption = none := by decide +kernel
    rw [List.mem_singleton.mp mem] at read
    rw [read] at unread
    cases unread
  have whole : ∀ i fault reached, .lose i fault reached ∉ bidding := by simp [bidding]
  have quiet : ∀ d ∈ bidden.deeds, ¬ d.Buries "guinea" := by
    rintro d mem ⟨text, bury, -⟩
    have some : (bidden.deeds.flatMap (·.ask.commands)).any buries = true :=
      List.any_eq_true.mpr ⟨.bury text, List.mem_flatMap.mpr ⟨d, mem, bury⟩, rfl⟩
    exact absurd (unburied.symm.trans some) nofun
  have taken := run_gives_letter_once 1 vault bidders bidding rfl read_guinea rfl alone whole quiet
  refine ⟨(taken.2 (fun c mem x current => ?_) ⟨.replay, fun none => ?_⟩).1, replays, discards⟩
  · have none := List.all_eq_true.mp idle c mem
    rw [current] at none
    cases none
  · cases replays.symm.trans none

end Broker

end ClaimQueue
