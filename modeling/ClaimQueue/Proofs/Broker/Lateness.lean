import ClaimQueue.Proofs.Broker.Holders

/-! Late calls. A call that looked at a claim, or was given an entry, acts on it later, and what came up
in between it does not see. This is the only way for it to disturb a newer claim; and as long as
nobody does, the holder of the newest delivery can acknowledge it.
-/

namespace ClaimQueue

namespace Broker

open Server

variable {rounds : Nat} {allowed : Undertaking → Prop} {x : String} {deeds : List Deed} {w : Server}

/-- The look that an acknowledgement begins with. -/
def Deed.LooksFor (x : String) (l : Deed) : Prop :=
  l.undertaking = .call (.ack x) ∧ l.ask = .send (.claimOf x)

/-- An acknowledgement looks once. -/
theorem Course.looks_once (h : Course rounds allowed deeds w) (i k : Nat) :
    deeds.Pairwise fun l m => ¬ ((l.LooksFor x ∧ Deed.isOf i k l) ∧ m.LooksFor x ∧ Deed.isOf i k m) := by
  induction h with
  | start => exact .nil
  | wait s _ ih => exact ih
  | deed d course _ follows ih =>
    refine List.pairwise_cons.mpr ⟨?_, ih⟩
    rintro m mem ⟨⟨looks, own⟩, -, own'⟩
    simp only [Deed.isOf, Bool.and_eq_true, beq_iff_eq] at own
    have none := List.filter_eq_nil_iff.mp (follows.first looks.1 looks.2) m mem
    rw [own.1, own.2] at none
    exact none own'

/-- An entry that was acknowledged is gone for good. -/
theorem Course.gone_after (h : Course rounds Undertaking.Handles deeds w) {d : Deed} (mem : d ∈ deeds)
    {n : Nat} (ask : d.ask = .transaction (handling [] (entryId n) (some x))) :
    ∀ e ∈ w.entries, e.1 ≠ n := by
  obtain ⟨later, earlier, rfl⟩ := List.append_of_mem mem
  obtain ⟨course, handles, follows⟩ := h.earlier
  have old : n ≤ d.before.newest := by
    cases follows.act handles with
    | @ack id entry call l own found ask' =>
      cases ask.symm.trans ask'
      have own := (List.mem_filter.mp own).1
      have sound := course.sound_for_all.2 l own
      obtain ⟨k, same, delivered, -⟩ :=
        names_of_finds found sound.ordered sound.labelled (course.grew own)
      have := entryId_injective same
      have := course.ordered.delivered
      omega
    | look looks =>
      rw [ask] at looks
      cases looks
    | read _ ask' =>
      rcases ask' with ask' | ask'
      · cases ask.symm.trans ask'
      · cases ask.symm.trans ask'
    | drop _ _ _ aside ask' =>
      rcases aside with rfl | ⟨body, rfl⟩
      · have := congrArg List.length (Ask.transaction.inj (ask.symm.trans ask'))
        simp [handling] at this
      · cases ask.symm.trans ask'
    | move _ _ _ _ ask' =>
      have := congrArg List.length (Ask.transaction.inj (ask.symm.trans ask'))
      simp [handling] at this
    | save ask' | takeOver _ _ ask' | enqueue _ _ ask' | forget _ _ _ _ ask' | claim _ _ _ ask'
    | putBack _ _ _ _ ask' => cases ask.symm.trans ask'
  intro e there number
  rcases (h.grew_after mem).entries e there with before | newer
  · exact not_mem_of_handling ask e before number
  · have := (answer_grew d.settings d.ask d.before).newest
    have : d.before.newest ≤ d.after.newest := this
    omega

namespace System

/-- An acknowledgement that went well has given up the claim that it found, if that was its own. -/
theorem Recorded.retired {y : System} (h : Recorded rounds allowed y) {i : Nat} {c : Client}
    (found : y.clients[i]? = some c) {later earlier : List Finished}
    (history : c.history = later ++ ⟨.call (.ack x), .ok ()⟩ :: earlier) {l : Deed}
    (mem : l ∈ y.deeds) (own : Deed.isOf i earlier.length l) (looks : l.LooksFor x) {n : Nat}
    (claim : Index.find? x l.before.claims = some (claimValue (entryId n) l.settings.consumer)) :
    ∃ d ∈ y.deeds, d.ask = .transaction (handling [] (entryId n) (some x)) := by
  obtain ⟨past, reaches, heard, owns⟩ := (h.clients i c found).ended later _ _ earlier history
  obtain ⟨r, mine?, told, taken, done⟩ := (ack_along c.settings x).outcome reaches () rfl
  obtain ⟨m, mem', ask, reply⟩ := heard.sent told
  obtain rfl : l = m := by
    obtain ⟨mem'', own'⟩ := List.mem_filter.mp mem'
    exact eq_of_once (h.course.looks_once i earlier.length) mem mem'' ⟨looks, own⟩
      ⟨⟨(owns m mem').1, ask⟩, own'⟩
  have settings := (owns l mem').2
  have replied : bulk (claimValue (entryId n) l.settings.consumer) = r := by
    have : ((Index.find? x l.before.claims).map bulk).getD .nil = r := Except.ok.inj reply
    rw [claim] at this
    exact this
  obtain ⟨claim?, read, taken⟩ := taken
  rw [← replied, optional?_bulk] at read
  cases read
  obtain ⟨entry, owner, parts, same⟩ := taken
  obtain ⟨rfl, rfl⟩ := claimParts?_claimValue parts
  obtain ⟨rs, told⟩ := done (entryId n) (by rw [same, if_pos (congrArg _ settings)])
  obtain ⟨d, mem, ask, -⟩ := heard.asked told fun fault same => nomatch same
  exact ⟨d, (List.mem_filter.mp mem).1, ask⟩

/-- As long as nobody comes late, an acknowledgement that goes well has removed the newest delivery, if
that was in the hands of its consumer. -/
theorem Recorded.newest_gone {y : System} (h : Recorded rounds Undertaking.Handles y)
    (calm : Undisturbed x y.deeds) {i : Nat} {c : Client} (found : y.clients[i]? = some c)
    {later earlier : List Finished}
    (history : c.history = later ++ ⟨.call (.ack x), .ok ()⟩ :: earlier) {last past : List Deed}
    {l : Deed} (split : y.deeds = last ++ l :: past) (own : Deed.isOf i earlier.length l)
    (ask : l.ask = .send (.claimOf x)) {n : Nat}
    (written : ∃ p ∈ past,
      p.ask = .send (.setClaim x (claimValue (entryId n) l.settings.consumer)))
    (newest : ∀ q ∈ past, ∀ e, q.Delivers e → EntryOf x e → e.1 ≤ n) :
    ∀ e ∈ y.server.entries, e.1 ≠ n := by
  intro e there number
  have mem : l ∈ y.deeds := split ▸ List.mem_append_right _ List.mem_cons_self
  have looks : l.LooksFor x := by
    obtain ⟨_, _, _, owns⟩ := (h.clients i c found).ended later _ _ earlier history
    exact ⟨(owns l (List.mem_filter.mpr ⟨mem, own⟩)).1, ask⟩
  have course := (split ▸ h.course).earlier.1
  obtain ⟨p, mem', ask'⟩ := written
  obtain ⟨q, delivering, -, f, shown, -, value⟩ := course.written_by mem' ask'
  obtain ⟨number', owner⟩ := claimValue_injective value
  -- The entry is no newer than its delivery, so it was in the stream at the look.
  have there' : e ∈ l.before.entries := by
    refine ((h.course.grew mem).entries e there).resolve_right fun newer => ?_
    have := course.le_delivered delivering shown
    have := course.ordered.delivered
    omega
  have calm : Undisturbed x past := by
    rw [split, List.append_cons] at calm
    exact calm.earlier
  have stands := course.claim_stands calm mem' (owner ▸ ask') newest ⟨e, there', number⟩
  rw [← owner] at stands
  obtain ⟨d, mem, ask⟩ := h.retired found history mem own looks stands
  exact h.course.gone_after mem ask e there number

/-- Whatever changes the claim of a task does so on account of an entry of the task that its call has
seen. It finds a claim on a newer entry exactly if that was written since, or stood already at a
takeover. As long as this does not happen, the holder of the newest delivery acknowledges it for
good. -/
theorem run_disturbs_newer_claim_iff (rounds : Nat) (clock : Instant) (clients : List Settings)
    (events : List Event) (handles : ∀ i u, .begin i u ∈ events → u.Handles) (x : String) :
    let y := (fresh clock clients).run rounds events
    (∀ later d earlier, y.deeds = later ++ d :: earlier →
      Index.find? x d.after.claims ≠ Index.find? x d.before.claims →
      ∃ l since n, Leads (d :: earlier) l since d ∧ Deed.Touches x n l d) ∧
    (∀ l since d, Leads y.deeds l since d → ∀ n, Deed.Touches x n l d →
      (d.before.Newer x n ↔ Deed.Overlooks x n l d since)) ∧
    (Undisturbed x y.deeds → ∀ (i : Nat) (c : Client), y.clients[i]? = some c →
      ∀ later earlier, c.history = later ++ ⟨.call (.ack x), .ok ()⟩ :: earlier →
      ∀ last l past, y.deeds = last ++ l :: past → Deed.isOf i earlier.length l →
      l.ask = .send (.claimOf x) → ∀ n,
      (∃ p ∈ past, p.ask = .send (.setClaim x (claimValue (entryId n) l.settings.consumer))) →
      (∀ q ∈ past, ∀ e, q.Delivers e → EntryOf x e → e.1 ≤ n) →
      ∀ e ∈ y.server.entries, e.1 ≠ n) := by
  intro y
  have recorded : Recorded rounds Undertaking.Handles y := (recorded_fresh clock clients).run handles
  refine ⟨fun later d earlier split changed => ?_, fun l since d leads n touches => ?_, ?_⟩
  · obtain ⟨course, may, follows⟩ := (split ▸ recorded.course).earlier
    obtain ⟨l, own, n, touches, -⟩ := course.touches may follows changed
    obtain ⟨since, leads⟩ := leads_of_own own
    exact ⟨l, since, n, leads, touches⟩
  · obtain ⟨⟨later, earlier, split⟩, -⟩ := leads
    exact (split ▸ recorded.course).earlier.1.newer_iff touches
  · intro calm i c found later earlier history last l past split own ask n written newest
    exact recorded.newest_gone calm found history split own ask written newest

/-- A task is enqueued. -/
def isEnqueue : Event → Bool
  | .begin _ (.call (.enqueue _)) => true
  | _ => false

private def dime : Task := ⟨.execute, "dime", [], .empty, 0, .epoch, 1⟩

private def crew : List Settings := [{ consumer := "a" }, { consumer := "b" }, { consumer := "c" }]

/-- Between look and act of an acknowledgement the task is put back and claimed anew. -/
private def late : List Event := [
  .begin 0 (.call (.enqueue dime)), .go 0, .begin 0 (.call (.pop false ⟨0⟩)), .go 0, .go 0, .go 0,
  .begin 0 (.call (.ack "dime")), .go 0,
  .begin 1 (.call (.reclaim ⟨0⟩ 10)), .go 1, .go 1, .go 1,
  .begin 2 (.call (.pop false ⟨0⟩)), .go 2, .go 2, .go 2, .go 0]

private theorem late_handles {i : Nat} {u : Undertaking} (mem : .begin i u ∈ late) : u.Handles := by
  simp only [late, List.mem_cons, Event.begin.injEq, reduceCtorEq, List.not_mem_nil,
    false_or, or_false] at mem
  rcases mem with ⟨-, rfl⟩ | ⟨-, rfl⟩ | ⟨-, rfl⟩ | ⟨-, rfl⟩ | ⟨-, rfl⟩
  · exact .enqueue dime
  · exact .pop false ⟨0⟩
  · exact .ack "dime"
  · exact .reclaim ⟨0⟩ 10
  · exact .pop false ⟨0⟩

/-- What matters of a deed. -/
private structure Gist where
  client : Nat
  turn : Nat
  consumer : String
  sent : Option Command
  transacted : Option (List Command)
  claim : Option String
  deriving DecidableEq

private def sent? : Ask → Option Command
  | .send c => some c
  | _ => none

private def transacted? : Ask → Option (List Command)
  | .transaction cs => some cs
  | _ => none

private theorem eq_send {q : Ask} {c : Command} (h : sent? q = some c) : q = .send c := by
  cases q <;> simp_all [sent?]

private theorem eq_transaction {q : Ask} {cs : List Command} (h : transacted? q = some cs) :
    q = .transaction cs := by
  cases q <;> simp_all [transacted?]

private def gist (d : Deed) : Gist :=
  ⟨d.client, d.turn, d.settings.consumer, sent? d.ask, transacted? d.ask,
    Index.find? "dime" d.before.claims⟩

private theorem late_touches : ∃ l since d, Leads ((fresh .epoch crew).run 1 late).deeds l since d ∧
    Deed.Touches "dime" 1 l d ∧ d.before.Newer "dime" 1 := by
  have facts : ((fresh .epoch crew).run 1 late).deeds[0]?.map gist =
        some ⟨0, 2, "a", none, some (handling [] (entryId 1) (some "dime")),
          some (claimValue (entryId 2) "c")⟩ ∧
      ((fresh .epoch crew).run 1 late).deeds[7]?.map gist =
        some ⟨0, 2, "a", some (.claimOf "dime"), none, some (claimValue (entryId 1) "a")⟩ := by
    decide +kernel
  obtain ⟨last, look⟩ := facts
  obtain ⟨d, first, same⟩ := Option.map_eq_some_iff.mp last
  obtain ⟨l, eighth, same'⟩ := Option.map_eq_some_iff.mp look
  obtain ⟨rest, split⟩ := List.head?_eq_some_iff.mp (List.head?_eq_getElem?.trans first)
  rw [split, List.getElem?_cons_succ] at eighth
  have mem := List.mem_of_getElem? eighth
  obtain ⟨since, earlier, rfl⟩ := List.append_of_mem mem
  obtain ⟨client, turn, -, -, ask, claim⟩ := Gist.mk.inj same
  obtain ⟨client', turn', consumer, ask', -, claim'⟩ := Gist.mk.inj same'
  have shown : l.Finds "dime" (entryId 1) := by
    refine ⟨eq_send ask', _, claim', ?_⟩
    rw [consumer]
    exact claimParts?_of_named (by decide)
  have leads : Leads ((fresh .epoch crew).run 1 late).deeds l since d :=
    ⟨⟨[], earlier, split⟩, client'.trans client.symm, turn'.trans turn.symm⟩
  exact ⟨l, since, d, leads, .retire shown (eq_transaction ask), 2, "c", by decide, claim⟩

/-- A late acknowledgement drops the claim of another consumer. -/
theorem run_disturbs_newer_claim :
    ¬ ∀ (rounds : Nat) (clock : Instant) (clients : List Settings) (events : List Event),
      (clients.map (·.consumer)).Nodup → (∀ i u, .begin i u ∈ events → u.Handles) →
      (events.filter isEnqueue).length ≤ 1 →
      ∀ x, Undisturbed x ((fresh clock clients).run rounds events).deeds := by
  intro claim
  obtain ⟨l, since, d, leads, touches, newer⟩ := late_touches
  refine claim 1 .epoch crew late (by decide) (fun i u mem => late_handles mem) ?_ "dime" l since d
    leads 1 touches newer
  exact Nat.le_refl 1

private def prompt : List Event := [
  .begin 0 (.call (.enqueue dime)), .go 0, .begin 0 (.call (.pop false ⟨0⟩)), .go 0, .go 0, .go 0,
  .begin 0 (.call (.ack "dime")), .go 0, .go 0]

private def isAck : Finished → Bool
  | ⟨.call (.ack id), .ok ()⟩ => id == "dime"
  | _ => false

private theorem eq_of_isAck {f : Finished} (h : isAck f) : f = ⟨.call (.ack "dime"), .ok ()⟩ := by
  unfold isAck at h
  split at h
  · simp_all
  · cases h

private theorem prompt_handles {i : Nat} {u : Undertaking} (mem : .begin i u ∈ prompt) :
    u.Handles := by
  simp only [prompt, List.mem_cons, Event.begin.injEq, reduceCtorEq, List.not_mem_nil,
    false_or, or_false] at mem
  rcases mem with ⟨-, rfl⟩ | ⟨-, rfl⟩ | ⟨-, rfl⟩
  · exact .enqueue dime
  · exact .pop false ⟨0⟩
  · exact .ack "dime"

/-- The late client overlooks the new claim; the prompt one is done with its entry. -/
theorem run_overlooks_late :
    (∃ l since d, Leads ((fresh .epoch crew).run 1 late).deeds l since d ∧
      Deed.Overlooks "dime" 1 l d since) ∧
    ∀ e ∈ ((fresh .epoch crew).run 1 prompt).server.entries, e.1 ≠ 1 := by
  constructor
  · obtain ⟨l, since, d, leads, touches, newer⟩ := late_touches
    have exactly := (run_disturbs_newer_claim_iff 1 .epoch crew late
      (fun i u mem => late_handles mem) "dime").2.1
    exact ⟨l, since, d, leads, (exactly l since d leads 1 touches).mp newer⟩
  · have retires := (run_disturbs_newer_claim_iff 1 .epoch crew prompt
      (fun i u mem => prompt_handles mem) "dime").2.2
    generalize ran : (fresh .epoch crew).run 1 prompt = y at retires ⊢
    have recorded : Recorded 1 Undertaking.Handles y :=
      ran ▸ (recorded_fresh .epoch crew).run fun i u mem => prompt_handles mem
    have facts : y.server.delivered = 1 ∧ y.clients[0]?.map
          (fun c => (c.history.length, c.history.head?.map isAck)) = some (3, some true) ∧
        (y.deeds.take 3).map gist = [
          ⟨0, 2, "a", none, some (handling [] (entryId 1) (some "dime")),
            some (claimValue (entryId 1) "a")⟩,
          ⟨0, 2, "a", some (.claimOf "dime"), none, some (claimValue (entryId 1) "a")⟩,
          ⟨0, 1, "a", some (.setClaim "dime" (claimValue (entryId 1) "a")), none, none⟩] := by
      rw [← ran]
      decide +kernel
    obtain ⟨delivered, client, record⟩ := facts
    have first : ∀ l ∈ y.deeds, ∀ e, l.Delivers e → e.1 = 1 := by
      intro l mem e shown
      have := recorded.course.le_delivered mem shown
      have := (mem_of_delivers shown).2
      omega
    have calm : Undisturbed "dime" y.deeds := recorded.course.undisturbed_of_one_delivery
      fun l mem m mem' e f shown shown' _ _ => (first l mem e shown).trans (first m mem' f shown').symm
    obtain ⟨c, found, same⟩ := Option.map_eq_some_iff.mp client
    obtain ⟨length, latest⟩ := Prod.mk.inj same
    obtain ⟨f, latest, acked⟩ := Option.map_eq_some_iff.mp latest
    obtain ⟨earlier, history⟩ := List.head?_eq_some_iff.mp latest
    rw [history, List.length_cons] at length
    rw [eq_of_isAck acked] at history
    obtain ⟨d, ds, three, -, record⟩ := List.map_eq_cons_iff.mp record
    obtain ⟨l, ls, rfl, look, record⟩ := List.map_eq_cons_iff.mp record
    obtain ⟨p, ps, rfl, written, record⟩ := List.map_eq_cons_iff.mp record
    obtain rfl := List.map_eq_nil_iff.mp record
    have split : y.deeds = [d] ++ l :: p :: y.deeds.drop 3 := by
      conv_lhs => rw [← List.take_append_drop 3 y.deeds, three]
      rfl
    obtain ⟨client, turn, consumer, ask, -⟩ := Gist.mk.inj look
    have own : Deed.isOf 0 earlier.length l := by
      simp only [Deed.isOf, Bool.and_eq_true, beq_iff_eq]
      have client : l.client = 0 := client
      have turn : l.turn = 2 := turn
      omega
    refine retires calm 0 c found [] earlier history [d] l _ split own (eq_send ask) 1
      ⟨p, List.mem_cons_self, ?_⟩ fun q mem e shown _ => ?_
    · rw [consumer]
      exact eq_send (Gist.mk.inj written).2.2.2.1
    · refine Nat.le_of_eq (first q (split ▸ ?_) e shown)
      exact List.mem_append_right _ (List.mem_cons_of_mem _ mem)

end System

end Broker

end ClaimQueue
