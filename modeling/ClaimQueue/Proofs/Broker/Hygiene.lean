import ClaimQueue.Proofs.Broker.Holders
import Mathlib.Data.List.Nodup

/-! Forgetting consumers. A client looks first whether a consumer holds anything, and forgets it by
a second command. What the consumer was given in between is in nobody's hands after that, and the
broker gives it to nobody again. -/

namespace ClaimQueue

namespace Broker

open Job Server

/-! What the calls ask. -/

/-- The undertakings that handle tasks or forget consumers. -/
inductive Undertaking.Tends : Undertaking → Prop
  | handles {u : Undertaking} (h : u.Handles) : Tends u
  | prune (idle : Span) : Tends (.call (.prune idle))
  | retire : Tends .retire

inductive PruneAsks : Told → Ask → Prop
  | list : PruneAsks [] (.send .consumers)
  | forget {past : Told} {r : Reply} {cs : List Consumer} {c : Consumer}
      (told : ⟨.send .consumers, .ok r⟩ ∈ past) (read : consumersOf r = .ok cs) (among : c ∈ cs)
      (free : c.holds = 0) : PruneAsks past (.send (.forget c.name))

inductive RetireAsks (s : Settings) : Told → Ask → Prop
  | check : RetireAsks s [] (.send .ownClaims)
  | forget {past : Told} (told : ⟨.send .ownClaims, .ok (.list [])⟩ ∈ past) :
      RetireAsks s past (.send (.forget s.consumer))

theorem forget_along {fit : Told → Ask → Prop} {past : Told} {c : String}
    (forget : fit past (.send (.forget c))) :
    Along fit (fun now _ => ∃ x, now = x :: past) (Calls.forget c) past := by
  refine (along_read forget).bind fun now n told => ?_
  obtain ⟨r, rfl, -⟩ := told
  exact along_pure ⟨_, rfl⟩

theorem forgetAll_along {past : Told} {r : Reply} {cs : List Consumer}
    (told : ⟨.send .consumers, .ok r⟩ ∈ past) (read : consumersOf r = .ok cs) {some : List Consumer}
    (free : ∀ c ∈ some, c ∈ cs ∧ c.holds = 0) :
    Along PruneAsks (fun _ _ => True) (Calls.forgetAll some) past := by
  induction some generalizing past with
  | nil => exact along_pure trivial
  | cons c some ih =>
    obtain ⟨among, none⟩ := free c List.mem_cons_self
    refine (forget_along (.forget told read among none)).bind fun now _ later => ?_
    obtain ⟨x, rfl⟩ := later
    refine (ih (List.mem_cons_of_mem _ told) fun c mem => free c (List.mem_cons_of_mem _ mem)).andThen
      fun _ _ => along_pure trivial

theorem prune_along (s : Settings) (idle : Span) :
    Along PruneAsks (fun _ _ => True) (Calls.prune s idle) [] := by
  refine (along_send .list).bind fun now r told => ?_
  refine along_parsed fun cs read => ?_
  refine forgetAll_along (told ▸ List.mem_cons_self) read fun c mem => ?_
  obtain ⟨among, idle⟩ := List.mem_filter.mp mem
  simp only [Calls.isIdle, Bool.and_eq_true, beq_iff_eq] at idle
  exact ⟨among, idle.1.1⟩

theorem retire_along (s : Settings) :
    Along (RetireAsks s) (fun _ _ => True) (Calls.retireConsumer s) [] := by
  refine (along_send .check).bind fun now r told => ?_
  subst told
  split
  · refine Along.andThen ((forget_along (.forget List.mem_cons_self)).mono fun _ _ _ => trivial) ?_
    exact fun _ _ => along_pure trivial
  · exact along_pure trivial

/-! What the looks of these calls have found. -/

theorem ofReply_consumerReply (w : Server) (e : String × Instant) :
    Consumer.ofReply (w.consumerReply e) = .ok ⟨e.1, (w.holdings e.1).length, w.idle e.2⟩ := by
  simp only [consumerReply, Consumer.ofReply, Reply.pairs, List.foldl_cons, List.foldl_nil,
    ConsumerDraft.read, plainText?_bulk]
  rfl

theorem consumersOf_consumerReply (w : Server) (es : List (String × Instant)) :
    consumersOf (.list (es.map w.consumerReply)) =
      .ok (es.map fun e => ⟨e.1, (w.holdings e.1).length, w.idle e.2⟩) := by
  rw [consumersOf]
  induction es with
  | nil => rfl
  | cons e es ih =>
    rw [List.map_cons, List.mapM_cons, ofReply_consumerReply, ih]
    rfl

/-- A look at which the consumer held nothing. -/
def Deed.FindsFree (c : String) (l : Deed) : Prop :=
  (l.ask = .send .consumers ∨ l.ask = .send .ownClaims) ∧ l.before.holdings c = []

/-- `own` are the earlier deeds of the same call. -/
inductive Tending (own : List Deed) (d : Deed) : Prop
  | act (act : Act own d)
  | look (ask : d.ask = .send .consumers ∨ d.ask = .send .ownClaims)
  | forget {c : String} {l : Deed} (mem : l ∈ own) (free : l.FindsFree c)
      (ask : d.ask = .send (.forget c))

theorem Deed.Follows.tending {rounds : Nat} {earlier : List Deed} {d : Deed}
    (h : d.Follows rounds earlier) (tends : d.undertaking.Tends) :
    Tending (earlier.filter (Deed.isOf d.client d.turn)) d := by
  obtain ⟨next, past, reaches, heard, own⟩ := id h
  obtain ⟨client, turn, u, s, q, before⟩ := d
  cases tends with
  | handles handles => exact .act (h.act handles)
  | prune idle =>
    cases (prune_along s idle).question reaches with
    | list => exact .look (.inl rfl)
    | @forget _ r cs c told read among free =>
      obtain ⟨l, mem, ask, reply⟩ := heard.sent told
      have same : .list (l.before.consumers.map l.before.consumerReply) = r := Except.ok.inj reply
      rw [← same, consumersOf_consumerReply] at read
      cases read
      obtain ⟨e, -, rfl⟩ := List.mem_map.mp among
      exact .forget mem ⟨.inl ask, List.length_eq_zero_iff.mp free⟩ rfl
  | retire =>
    cases (retire_along s).question reaches with
    | check => exact .look (.inr rfl)
    | forget told =>
      obtain ⟨l, mem, ask, reply⟩ := heard.sent told
      have settings : l.settings = s := (own l mem).2
      have none : ((l.before.holdings l.settings.consumer).take 1).map l.before.holdingReply = [] :=
        Reply.list.inj (Except.ok.inj reply)
      rw [settings, List.map_eq_nil_iff, List.take_eq_nil_iff] at none
      exact .forget mem ⟨.inr ask, none.resolve_left Nat.one_ne_zero⟩ rfl

/-! Who is given what. -/

/-- The consumer `c` is given an entry: it is delivered, or taken over from another. -/
def Deed.Gives (c : String) (n : Nat) (g : Deed) : Prop :=
  g.settings.consumer = c ∧ ∃ body, g.Delivers (n, body) ∨ g.TakesOver (n, body)

theorem taken_of_held {w : Server} {s : Settings} {millis batch : Nat} {h : Holding}
    (mem : h ∈ (w.takeOver s millis batch).2.held) : h ∈ w.held ∨ h.consumer = s.consumer ∧
      ∃ g ∈ (w.heard s.consumer).taken millis batch, g.entry = h.entry ∧
        ∃ e, w.find? g.entry = some e := by
  obtain ⟨g, held, pass⟩ := List.mem_filterMap.mp mem
  split at pass
  · rename_i taken
    split at pass
    · cases pass
    · rename_i kept
      cases pass
      have taken := List.contains_iff_mem.mp taken
      refine .inr ⟨rfl, g, taken, rfl, Option.isSome_iff_exists.mp ?_⟩
      rw [← Option.not_isNone, Bool.not_eq_true']
      refine Bool.eq_false_iff.mpr fun none => kept ?_
      exact List.contains_iff_mem.mpr (List.mem_filter.mpr ⟨taken, none⟩)
  · cases pass
    exact .inl held

theorem given_of_act {own : List Deed} {d : Deed} (act : Act own d) {h : Holding}
    (mem : h ∈ d.after.held) : h ∈ d.before.held ∨ d.Gives h.consumer h.entry := by
  have handled {front : List Command} {entry : String} {id : Option String}
      (ask : d.ask = .transaction (handling front entry id))
      (same : (d.before.performAll d.settings front).2.held = d.before.held) :
      h ∈ d.before.held ∨ d.Gives h.consumer h.entry := by
    rw [d.after_handling ask, unclaimed_held] at mem
    exact .inl (same ▸ (List.mem_filter.mp mem).1)
  cases act with
  | look looks => exact .inl (d.after_of_looks looks ▸ mem)
  | save ask | claim _ _ _ ask | forget _ _ _ _ ask | enqueue _ _ ask =>
    rw [d.after_of ask] at mem
    exact .inl mem
  | read wait ask =>
    obtain ⟨time, after⟩ := Deed.entries_of_read ask
    rw [after, deliver_eq] at mem
    cases first : d.before.waiting.head? with
    | none =>
      rw [first] at mem
      exact .inl mem
    | some e =>
      rw [first] at mem
      refine (List.mem_append.mp mem).imp_right fun new => ?_
      obtain rfl := List.mem_singleton.mp new
      exact ⟨rfl, e.2, .inl ⟨⟨wait, ask⟩, first⟩⟩
  | takeOver millis batch ask =>
    rw [d.after_of ask] at mem
    refine (taken_of_held mem).imp_right fun ⟨mine, g, taken, same, e, found⟩ => ?_
    have number : e.1 = h.entry := (mem_of_find? found).2.trans same
    exact ⟨mine.symm, e.2, .inr ⟨millis, batch, ask, g, taken, number ▸ found⟩⟩
  | drop _ _ _ aside ask =>
    rcases aside with rfl | ⟨body, rfl⟩
    · exact handled ask rfl
    · exact handled ask rfl
  | ack _ _ _ ask | putBack _ _ _ _ ask => exact handled ask rfl
  | move _ _ _ now ask =>
    refine handled ask ?_
    unfold Calls.moved
    split <;> rfl

theorem Tending.after_of_look {d : Deed} (ask : d.ask = .send .consumers ∨ d.ask = .send .ownClaims) :
    d.after = d.before := by
  rcases ask with ask | ask
  · rw [d.after_of ask]
    rfl
  · rw [d.after_of ask]
    rfl

/-- What forgets a consumer comes after a look of its own. -/
theorem Tending.free {own : List Deed} {d : Deed} (tending : Tending own d) {c : String}
    (ask : d.ask = .send (.forget c)) : ∃ l ∈ own, l.FindsFree c := by
  cases tending with
  | forget mem free ask' =>
    cases ask.symm.trans ask'
    exact ⟨_, mem, free⟩
  | look ask' => rcases ask' with ask' | ask' <;> cases ask.symm.trans ask'
  | act act =>
    cases act with
    | look looks =>
      rw [ask] at looks
      cases looks
    | read _ ask' => rcases ask' with ask' | ask' <;> cases ask.symm.trans ask'
    | save ask' | takeOver _ _ ask' | enqueue _ _ ask' | claim _ _ _ ask' | drop _ _ _ _ ask'
    | ack _ _ _ ask' | forget _ _ _ _ ask' | putBack _ _ _ _ ask' | move _ _ _ _ ask' =>
      cases ask.symm.trans ask'

theorem Tending.given {own : List Deed} {d : Deed} (tending : Tending own d) {h : Holding}
    (mem : h ∈ d.after.held) : h ∈ d.before.held ∨ d.Gives h.consumer h.entry := by
  cases tending with
  | act act => exact given_of_act act mem
  | look ask => exact .inl (Tending.after_of_look ask ▸ mem)
  | forget _ _ ask =>
    rw [d.after_of ask] at mem
    exact .inl (List.mem_filter.mp mem).1

section

variable {rounds : Nat} {deeds since earlier : List Deed} {l d : Deed} {w : Server}

/-- What is held was held at an earlier deed, or was given by that deed or since. -/
theorem Course.given_since (h : Course rounds Undertaking.Tends (since ++ l :: earlier) w)
    {g : Holding} (mem : g ∈ w.held) :
    g ∈ l.before.held ∨ ∃ d ∈ since ++ [l], d.Gives g.consumer g.entry := by
  generalize split : since ++ l :: earlier = all at h
  induction h generalizing since with
  | start => simp at split
  | wait s _ ih => exact ih mem split
  | deed d course tends follows ih =>
    have step := (follows.tending tends).given mem
    cases since with
    | nil =>
      obtain ⟨rfl, rfl⟩ := List.cons.inj split
      exact step.imp_right fun given => ⟨l, List.mem_cons_self, given⟩
    | cons _ since =>
      obtain ⟨rfl, rest⟩ := List.cons.inj split
      rcases step with before | given
      · exact (ih before rest).imp_right
          fun ⟨p, mem, given⟩ => ⟨p, List.mem_cons_of_mem _ mem, given⟩
      · exact .inr ⟨_, List.mem_cons_self, given⟩

/-- A consumer that was found free holds what it was given since. -/
theorem Course.holds_iff_given {c : String}
    (h : Course rounds Undertaking.Tends (since ++ l :: earlier) w) (free : l.FindsFree c) :
    w.holdings c ≠ [] ↔ ∃ g ∈ w.held, g.consumer = c ∧ ∃ d ∈ since, d.Gives c g.entry := by
  constructor
  · intro some
    obtain ⟨g, mem⟩ := List.exists_mem_of_ne_nil _ some
    obtain ⟨held, own⟩ := List.mem_filter.mp mem
    obtain rfl : g.consumer = c := by simpa using own
    refine ⟨g, held, rfl, ?_⟩
    rcases h.given_since held with before | ⟨d, mem, given⟩
    · have mem : g ∈ l.before.holdings g.consumer := List.mem_filter.mpr ⟨before, own⟩
      rw [free.2] at mem
      cases mem
    · refine ⟨d, (List.mem_append.mp mem).resolve_right fun look => ?_, given⟩
      obtain rfl := List.mem_singleton.mp look
      obtain ⟨-, _, ⟨⟨_, ask⟩, -⟩ | ⟨_, _, ask, -⟩⟩ := given
      · rcases free.1 with ask' | ask' <;> rcases ask with ask | ask <;> cases ask'.symm.trans ask
      · rcases free.1 with ask' | ask' <;> cases ask'.symm.trans ask
  · rintro ⟨g, held, rfl, -⟩ none
    have mem : g ∈ w.holdings g.consumer := List.mem_filter.mpr ⟨held, by simp⟩
    rw [none] at mem
    cases mem

end

/-! Entries that nobody will be given. -/

namespace Server

/-- Each entry is in one hand at most. -/
def Lined (w : Server) : Prop := (w.held.map (·.entry)).Pairwise (· < ·)

/-- Delivered before, and in nobody's hands. -/
def Lost (n : Nat) (w : Server) : Prop := n ≤ w.delivered ∧ ∀ h ∈ w.held, h.entry ≠ n

/-- From `w` to `v` one new entry was handed out, or none. -/
inductive Handed (w v : Server) : Prop
  | fewer (held : (v.held.map (·.entry)).Sublist (w.held.map (·.entry)))
      (delivered : v.delivered = w.delivered)
  | more (n : Nat) (held : v.held.map (·.entry) = w.held.map (·.entry) ++ [n])
      (newer : w.delivered < n) (delivered : v.delivered = n)

theorem Handed.refl (w : Server) : Handed w w := .fewer (.refl _) rfl

theorem handed_takeOver (w : Server) (s : Settings) (millis batch : Nat) :
    Handed w (w.takeOver s millis batch).2 := by
  have each {pass : Holding → Option Holding}
      (same : ∀ h g, pass h = some g → g.entry = h.entry) (hs : List Holding) :
      ((hs.filterMap pass).map (·.entry)).Sublist (hs.map (·.entry)) := by
    induction hs with
    | nil => exact .slnil
    | cons h hs ih =>
      rw [List.filterMap_cons]
      cases passed : pass h with
      | none => exact ih.cons _
      | some g =>
        rw [List.map_cons, List.map_cons, same h g passed]
        exact ih.cons_cons _
  refine .fewer (each (fun h g passed => ?_) w.held) rfl
  split at passed
  · split at passed
    · cases passed
    · cases passed
      rfl
  · cases passed
    rfl

theorem Lined.handed {w v : Server} (h : Lined w) (ordered : Ordered w) (handed : Handed w v) :
    Lined v := by
  cases handed with
  | fewer held => exact h.sublist held
  | more n held newer =>
    rw [Lined, held, List.pairwise_append]
    refine ⟨h, List.pairwise_singleton _ n, fun m mem k last => ?_⟩
    obtain ⟨g, old, rfl⟩ := List.mem_map.mp mem
    obtain rfl := List.mem_singleton.mp last
    exact Nat.lt_of_le_of_lt (ordered.held g old) newer

theorem Lost.handed {w v : Server} {n : Nat} (h : Lost n w) (handed : Handed w v) : Lost n v := by
  obtain ⟨delivered, free⟩ := h
  cases handed with
  | fewer held same =>
    refine ⟨same ▸ delivered, fun g mem number => ?_⟩
    obtain ⟨f, mem, entry⟩ := List.mem_map.mp (held.subset (List.mem_map_of_mem mem))
    exact free f mem (entry.trans number)
  | more k held newer same =>
    refine ⟨by omega, fun g mem number => ?_⟩
    have mem : g.entry ∈ v.held.map (·.entry) := List.mem_map_of_mem mem
    rw [held, List.mem_append, List.mem_singleton] at mem
    rcases mem with mem | last
    · obtain ⟨f, mem, entry⟩ := List.mem_map.mp mem
      exact free f mem (entry.trans number)
    · omega

theorem Lined.eq {w : Server} (h : Lined w) {f g : Holding} (hf : f ∈ w.held) (hg : g ∈ w.held)
    (same : f.entry = g.entry) : f = g :=
  List.inj_on_of_nodup_map (h.imp Nat.ne_of_lt) hf hg same

end Server

theorem handed_of_act {own : List Deed} {d : Deed} (act : Act own d) : Handed d.before d.after := by
  have handled {front : List Command} {entry : String} {id : Option String}
      (ask : d.ask = .transaction (handling front entry id))
      (held : (d.before.performAll d.settings front).2.held = d.before.held)
      (delivered : (d.before.performAll d.settings front).2.delivered = d.before.delivered) :
      Handed d.before d.after := by
    refine .fewer ?_ ?_
    · rw [d.after_handling ask, unclaimed_held, ← held]
      exact List.filter_sublist.map _
    · rw [d.after_handling ask, unclaimed_delivered]
      exact delivered
  cases act with
  | look looks => exact d.after_of_looks looks ▸ .refl _
  | save ask | claim _ _ _ ask | forget _ _ _ _ ask | enqueue _ _ ask =>
    rw [d.after_of ask]
    exact .fewer (.refl _) rfl
  | read wait ask =>
    obtain ⟨time, after⟩ := Deed.entries_of_read ask
    rw [after, deliver_eq]
    cases first : d.before.waiting.head? with
    | none => exact .fewer (.refl _) rfl
    | some e =>
      have new := (mem_waiting.mp (List.mem_of_mem_head? first)).2
      exact .more e.1 List.map_append new rfl
  | takeOver millis batch ask =>
    rw [d.after_of ask]
    exact handed_takeOver d.before d.settings millis batch
  | drop _ _ _ aside ask =>
    rcases aside with rfl | ⟨body, rfl⟩
    · exact handled ask rfl rfl
    · exact handled ask rfl rfl
  | ack _ _ _ ask | putBack _ _ _ _ ask => exact handled ask rfl rfl
  | move _ _ _ now ask =>
    refine handled ask ?_ ?_ <;>
    · unfold Calls.moved
      split <;> rfl

theorem Tending.handed {own : List Deed} {d : Deed} (tending : Tending own d) :
    Handed d.before d.after := by
  cases tending with
  | act act => exact handed_of_act act
  | look ask => exact Tending.after_of_look ask ▸ .refl _
  | forget _ _ ask =>
    rw [d.after_of ask]
    exact .fewer (List.filter_sublist.map _) rfl

/-- The deed forgets nothing that is still in the stream. -/
def Deed.Spares (d : Deed) : Prop :=
  ∀ c, d.ask = .send (.forget c) → ∀ h ∈ d.before.holdings c, ∀ e ∈ d.before.entries, e.1 ≠ h.entry

theorem Tending.reachable {own : List Deed} {d : Deed} (tending : Tending own d)
    (ordered : d.before.Ordered) (spares : d.Spares) (h : d.before.Reachable) :
    d.after.Reachable := by
  cases tending with
  | act act => exact reachable_of_act act ordered h
  | look ask => exact Tending.after_of_look ask ▸ h
  | @forget c l _ _ ask =>
    intro e mem
    rw [d.after_of ask] at mem ⊢
    refine (h e mem).imp_right fun ⟨g, held, same⟩ => ⟨g, List.mem_filter.mpr ⟨held, ?_⟩, same⟩
    rw [bne_iff_ne]
    intro own
    refine spares c ask g (List.mem_filter.mpr ⟨held, ?_⟩) e mem same.symm
    rw [own, beq_self_eq_true]

/-- What a consumer holds that is forgotten is lost. -/
theorem Deed.lost_of_forgets {d : Deed} {c : String} (ask : d.ask = .send (.forget c))
    (ordered : d.before.Ordered) (lined : d.before.Lined) {h : Holding}
    (mem : h ∈ d.before.holdings c) : d.after.Lost h.entry := by
  obtain ⟨held, own⟩ := List.mem_filter.mp mem
  rw [d.after_of ask]
  refine ⟨ordered.held h held, fun g mem same => ?_⟩
  obtain ⟨held', other⟩ := List.mem_filter.mp mem
  obtain rfl := lined.eq held' held same
  simp_all

section

variable {rounds : Nat} {deeds : List Deed} {w : Server}

theorem Course.lined (h : Course rounds Undertaking.Tends deeds w) : w.Lined := by
  induction h with
  | start => exact .nil
  | wait s _ ih => exact ih
  | deed d course tends follows ih => exact ih.handed course.ordered (follows.tending tends).handed

theorem Course.lost_after (h : Course rounds Undertaking.Tends deeds w) {d : Deed} (mem : d ∈ deeds)
    {n : Nat} (lost : d.after.Lost n) : w.Lost n := by
  induction h with
  | start => cases mem
  | wait s _ ih => exact ih mem
  | deed e course tends follows ih =>
    rcases List.mem_cons.mp mem with rfl | mem
    · exact lost
    · exact (ih mem).handed (follows.tending tends).handed

theorem Course.reachable (h : Course rounds Undertaking.Tends deeds w)
    (spares : ∀ d ∈ deeds, d.Spares) : w.Reachable := by
  induction h with
  | start => exact fun e mem => (List.not_mem_nil mem).elim
  | wait s _ ih => exact ih spares
  | deed d course tends follows ih =>
    refine (follows.tending tends).reachable course.ordered (spares d List.mem_cons_self) ?_
    exact ih fun e mem => spares e (List.mem_cons_of_mem _ mem)

/-- A lost entry is not given out. -/
theorem Deed.not_given {g : Deed} {n : Nat} (lost : g.before.Lost n) (body : Option (List UInt8)) :
    ¬ g.Delivers (n, body) ∧ ¬ g.TakesOver (n, body) := by
  constructor
  · intro shown
    exact absurd (mem_of_delivers shown).2 (Nat.not_lt.mpr lost.1)
  · rintro ⟨_, _, _, h, taken, found⟩
    have held : h ∈ g.before.held :=
      List.mem_of_mem_take (List.mem_filter.mp (List.mem_of_mem_take taken)).1
    exact lost.2 h held (mem_of_find? found).2.symm

/-- Every entry can be reached at every moment exactly if no consumer is forgotten that holds one. -/
theorem Course.reachable_iff (h : Course rounds Undertaking.Tends deeds w) :
    (∀ d ∈ deeds, d.Spares) ↔ ∀ d ∈ deeds, d.after.Reachable := by
  constructor
  · intro spares d mem
    obtain ⟨later, earlier, rfl⟩ := List.append_of_mem mem
    obtain ⟨course, tends, follows⟩ := h.earlier
    refine (follows.tending tends).reachable course.ordered (spares d mem) ?_
    exact course.reachable fun e mem =>
      spares e (List.mem_append_right _ (List.mem_cons_of_mem _ mem))
  · intro reachable d mem c ask g held e there number
    obtain ⟨later, earlier, rfl⟩ := List.append_of_mem mem
    have course := h.earlier.1
    obtain ⟨delivered, free⟩ := Deed.lost_of_forgets ask course.ordered course.lined held
    have there' : e ∈ d.after.entries := by
      rw [d.after_of ask]
      exact there
    rcases reachable d mem e there' with waiting | ⟨f, held, same⟩
    · omega
    · exact free f held (same.trans number)

end

namespace System

/-- Whenever a consumer is forgotten, the call had looked before and found it free. What it holds by
then it was given in between, and nobody is given that again. Every entry is within reach at every
moment exactly if no consumer is forgotten that holds an entry. -/
theorem run_forgets_claims_iff (rounds : Nat) (clock : Instant) (clients : List Settings)
    (events : List Event) (tends : ∀ i u, .begin i u ∈ events → u.Tends) :
    let y := (fresh clock clients).run rounds events
    (∀ later d earlier c, y.deeds = later ++ d :: earlier → d.ask = .send (.forget c) →
      (∃ l since, Leads (d :: earlier) l since d ∧ l.before.holdings c = [] ∧
        (d.before.holdings c ≠ [] ↔
          ∃ h ∈ d.before.held, h.consumer = c ∧ ∃ g ∈ since, g.Gives c h.entry)) ∧
      ∀ h ∈ d.before.holdings c, ∀ g ∈ later, ∀ body,
        ¬ g.Delivers (h.entry, body) ∧ ¬ g.TakesOver (h.entry, body)) ∧
    ((∀ d ∈ y.deeds, ∀ c, d.ask = .send (.forget c) → ∀ h ∈ d.before.holdings c,
      ∀ e ∈ d.before.entries, e.1 ≠ h.entry) ↔ ∀ d ∈ y.deeds, d.after.Reachable) := by
  intro y
  have recorded : Recorded rounds Undertaking.Tends y := (recorded_fresh clock clients).run tends
  refine ⟨fun later d earlier c split ask => ⟨?_, fun h held g mem body => ?_⟩,
    recorded.course.reachable_iff⟩
  · obtain ⟨course, may, follows⟩ := (split ▸ recorded.course).earlier
    obtain ⟨l, own, free⟩ := (follows.tending may).free ask
    obtain ⟨mem, same⟩ := List.mem_filter.mp own
    obtain ⟨since, first, rfl⟩ := List.append_of_mem mem
    simp only [Deed.isOf, Bool.and_eq_true, beq_iff_eq] at same
    exact ⟨l, since, ⟨⟨[], first, rfl⟩, same⟩, free.2, course.holds_iff_given free⟩
  · have course := (split ▸ recorded.course).earlier.1
    have lost := Deed.lost_of_forgets ask course.ordered course.lined held
    obtain ⟨last, since, rfl⟩ := List.append_of_mem mem
    rw [List.append_assoc] at split
    have sofar : Course rounds Undertaking.Tends (since ++ d :: earlier) g.before :=
      (split ▸ recorded.course).earlier.1
    exact Deed.not_given (sofar.lost_after (List.mem_append_right _ List.mem_cons_self) lost) body

private def shilling : Task := ⟨.evaluate, "shilling", [], .empty, 0, .epoch, 1⟩

private def staff : List Settings := [{ consumer := "a" }, { consumer := "b" }, { consumer := "c" }]

/-- Consumer `b` lay idle, and claims a task while `a` is about to forget it. -/
private def pruned : List Event := [
  .begin 1 (.call (.pop false ⟨0⟩)), .go 1, .go 1, .wait (.ofSeconds 60),
  .begin 0 (.call (.prune (.ofSeconds 60))), .go 0,
  .begin 2 (.call (.enqueue shilling)), .go 2,
  .begin 1 (.call (.pop false ⟨0⟩)), .go 1, .go 1, .go 1, .go 0]

private theorem pruned_tends {i : Nat} {u : Undertaking} (mem : .begin i u ∈ pruned) : u.Tends := by
  simp only [pruned, List.mem_cons, Event.begin.injEq, reduceCtorEq, List.not_mem_nil,
    false_or, or_false] at mem
  rcases mem with ⟨-, rfl⟩ | ⟨-, rfl⟩ | ⟨-, rfl⟩ | ⟨-, rfl⟩
  · exact .handles (.pop false ⟨0⟩)
  · exact .prune (.ofSeconds 60)
  · exact .handles (.enqueue shilling)
  · exact .handles (.pop false ⟨0⟩)

/-- Whom a question has the broker forget. -/
private def forgotten? : Ask → Option String
  | .send (.forget c) => some c
  | _ => none

private theorem eq_forget {q : Ask} {c : String} (h : forgotten? q = some c) :
    q = .send (.forget c) := by
  unfold forgotten? at h
  split at h
  · cases h
    rfl
  · cases h

private theorem pruned_forgets : ∃ d earlier,
    ((fresh .epoch staff).run 1 pruned).deeds = d :: earlier ∧ d.ask = .send (.forget "b") ∧
    (d.before.holdings "b").map (·.entry) = [1] ∧ d.before.entries.map Prod.fst = [1] := by
  have facts : ((fresh .epoch staff).run 1 pruned).deeds.head?.map (fun d =>
      (forgotten? d.ask, (d.before.holdings "b").map (·.entry), d.before.entries.map Prod.fst)) =
        some (some "b", [1], [1]) := by
    decide +kernel
  obtain ⟨d, first, same⟩ := Option.map_eq_some_iff.mp facts
  obtain ⟨earlier, split⟩ := List.head?_eq_some_iff.mp first
  obtain ⟨ask, same⟩ := Prod.mk.inj same
  obtain ⟨held, entries⟩ := Prod.mk.inj same
  exact ⟨d, earlier, split, eq_forget ask, held, entries⟩

/-- A consumer is forgotten with the claim that it was given in between. -/
theorem run_forgets_busy_consumer :
    ¬ ∀ (rounds : Nat) (clock : Instant) (clients : List Settings) (events : List Event),
      (clients.map (·.consumer)).Nodup → (∀ i u, .begin i u ∈ events → u.Tends) →
      ∀ d ∈ ((fresh clock clients).run rounds events).deeds, ∀ c, d.ask = .send (.forget c) →
        d.before.holdings c = [] := by
  intro claim
  obtain ⟨d, earlier, split, ask, held, -⟩ := pruned_forgets
  have mem : d ∈ ((fresh .epoch staff).run 1 pruned).deeds := split ▸ List.mem_cons_self
  have none := claim 1 .epoch staff pruned (by decide) (fun i u mem => pruned_tends mem) d mem
    "b" ask
  rw [none] at held
  cases held

/-- The task is out of reach, and it was given out between look and deed. -/
theorem run_loses_shilling :
    (∃ l since d, Leads ((fresh .epoch staff).run 1 pruned).deeds l since d ∧
      d.ask = .send (.forget "b") ∧ l.before.holdings "b" = [] ∧ ∃ g ∈ since, g.Gives "b" 1) ∧
    ¬ ∀ d ∈ ((fresh .epoch staff).run 1 pruned).deeds, d.after.Reachable := by
  obtain ⟨d, earlier, split, ask, held, entries⟩ := pruned_forgets
  have mem : d ∈ ((fresh .epoch staff).run 1 pruned).deeds := split ▸ List.mem_cons_self
  obtain ⟨forgets, reach⟩ := run_forgets_claims_iff 1 .epoch staff pruned
    fun i u mem => pruned_tends mem
  obtain ⟨⟨l, since, leads, free, given⟩, -⟩ := forgets [] d earlier "b" split ask
  constructor
  · have busy : d.before.holdings "b" ≠ [] := by
      intro none
      rw [none] at held
      cases held
    obtain ⟨h, mem, own, g, between, gives⟩ := given.mp busy
    have number : h.entry ∈ (d.before.holdings "b").map (·.entry) :=
      List.mem_map_of_mem (List.mem_filter.mpr ⟨mem, by rw [own, beq_self_eq_true]⟩)
    rw [held, List.mem_singleton] at number
    exact ⟨l, since, d, split ▸ leads, ask, free, g, between, number ▸ gives⟩
  · intro reachable
    obtain ⟨h, mem', number⟩ := List.mem_map.mp
      (held ▸ List.mem_cons_self : 1 ∈ (d.before.holdings "b").map _)
    obtain ⟨e, there, number'⟩ := List.mem_map.mp
      (entries ▸ List.mem_cons_self : 1 ∈ d.before.entries.map _)
    exact reach.mpr reachable d mem "b" ask h mem' e there (number'.trans number.symm)

end System

end Broker

end ClaimQueue
