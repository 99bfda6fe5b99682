import ClaimQueue.Proofs.Broker.Stock

/-! No task is lost on the way. A task that was enqueued stays in the stream or among the dead
letters, with the same work to do, until its claim is acknowledged; whatever clients do in the
meantime, in whatever order, and wherever they break off. -/

namespace ClaimQueue

namespace Broker

open Server

/-- Its document comes back as it was. -/
def Faithful (t : Task) : Prop := Task.ofBytes (Text.Utf8.bytes t.encoded) = .ok t

theorem faithful_iff {t : Task} : Faithful t ↔ t.readBack = some t := Task.ofBytes_eq_ok

theorem Faithful.bumped {t : Task} (h : Faithful t) : Faithful t.bumped := by
  rw [faithful_iff] at h ⊢
  have attempts := t.readBack_withAttempts (countUp t.attempts)
  rw [h] at attempts
  exact attempts

/-- A task is in the stream or among the dead letters, perhaps with more attempts. -/
def Server.Has (t : Task) (w : Server) : Prop :=
  (∃ e ∈ w.entries, ∃ u, Faithful u ∧ e.2 = some (Text.Utf8.bytes u.encoded) ∧ t.SameWork u) ∨
    ∃ l : DeadLetter, Text.Utf8.bytes l.encoded ∈ w.dead ∧ t.SameWork l.task

theorem has_of_subset {t : Task} {w v : Server} (h : w.Has t)
    (entries : ∀ e ∈ w.entries, e ∈ v.entries) (dead : ∀ item ∈ w.dead, item ∈ v.dead) :
    v.Has t := by
  rcases h with ⟨e, mem, u, fine, body, work⟩ | ⟨l, mem, work⟩
  · exact .inl ⟨e, entries e mem, u, fine, body, work⟩
  · exact .inr ⟨l, dead _ mem, work⟩

section

variable {t : Task} {own : List Deed} {d : Deed}

/-- After a transaction that handles an entry, if the task is not lost with that entry. -/
theorem has_of_handling {front : List Command} {entry : String} {id : Option String}
    (ask : d.ask = .transaction (handling front entry id)) (h : d.before.Has t)
    (entries : ∀ e ∈ d.before.entries, e ∈ (d.before.performAll d.settings front).2.entries)
    (dead : ∀ item ∈ d.before.dead, item ∈ (d.before.performAll d.settings front).2.dead)
    (safe : ∀ e ∈ d.before.entries, entryId e.1 = entry → ∀ u, Faithful u →
      e.2 = some (Text.Utf8.bytes u.encoded) → t.SameWork u → d.after.Has t) : d.after.Has t := by
  have dead' : d.after.dead = (d.before.performAll d.settings front).2.dead := by
    rw [d.after_handling ask]
    exact unclaimed_dead ..
  have entries' : d.after.entries =
      ((d.before.performAll d.settings front).2.entries.filter fun e => entryId e.1 != entry) := by
    rw [d.after_handling ask]
    exact unclaimed_entries ..
  rcases h with ⟨e, mem, u, fine, body, work⟩ | ⟨l, mem, work⟩
  · by_cases same : entryId e.1 = entry
    · exact safe e mem same u fine body work
    · refine .inl ⟨e, ?_, u, fine, body, work⟩
      rw [entries']
      exact List.mem_filter.mpr ⟨entries e mem, by simpa using same⟩
  · exact .inr ⟨l, dead' ▸ dead _ mem, work⟩

/-- What a transaction appends before an older entry goes is in the stream after it. -/
theorem mem_of_appended {body : List UInt8} {entry : String} {id : Option String} {n : Nat}
    (number : entryId n = entry) (old : n ≤ d.before.newest)
    (ask : d.ask = .transaction (handling [.append body] entry id)) :
    (d.before.newest + 1, some body) ∈ d.after.entries := by
  rw [d.after_handling ask, unclaimed_entries, ← number, mem_without]
  refine ⟨List.mem_append_right _ List.mem_cons_self, fun same => ?_⟩
  have same : d.before.newest + 1 = n := same
  omega

/-- Only an acknowledged claim takes a task away. -/
theorem has_of_act (act : Act own d)
    (earlier : ∀ l ∈ own, l.before.Sound Faithful ∧ Grew l.before d.before)
    (kept : d.undertaking = .call (.ack t.id) → ∀ cs, d.ask ≠ .transaction cs)
    (h : d.before.Has t) : d.after.Has t := by
  have all {α : Type} (xs : List α) : ∀ x ∈ xs, x ∈ xs := fun _ mem => mem
  cases act with
  | look looks => exact d.after_of_looks looks ▸ h
  | save ask | claim _ _ _ ask | forget _ _ _ _ ask | takeOver _ _ ask =>
    rw [d.after_of ask]
    exact has_of_subset h (all _) (all _)
  | read wait ask =>
    obtain ⟨time, after⟩ := Deed.entries_of_read ask
    rw [after, deliver_eq]
    cases d.before.waiting.head? with
    | none => exact has_of_subset h (all _) (all _)
    | some e => exact has_of_subset h (all _) (all _)
  | enqueue _ _ ask =>
    rw [d.after_of ask]
    exact has_of_subset h (fun _ mem => List.mem_append_left _ mem) (all _)
  | @ack id entry call l mem found ask =>
    refine has_of_handling ask h (all _) (all _) fun e mem' same u fine body work => ?_
    obtain ⟨before, grew⟩ := earlier l mem
    obtain ⟨n, rfl, -, names⟩ := names_of_finds found before.ordered before.labelled grew
    obtain ⟨v, body', named⟩ := names e mem' (entryId_injective same)
    have one : u.id = v.id := Task.id_of_encoded (Option.some.inj (body.symm.trans body'))
    have id_eq : id = t.id := by rw [← named, ← one, work.id_eq]
    exact absurd ask (kept (id_eq ▸ call) _)
  | @drop l e fault mem found task front aside ask =>
    obtain ⟨before, grew⟩ := earlier l mem
    have present : e ∈ l.before.entries :=
      found.elim (fun found => (mem_of_delivers found).1) mem_of_takesOver
    have front' : (∀ e ∈ d.before.entries, e ∈ (d.before.performAll d.settings front).2.entries) ∧
        ∀ item ∈ d.before.dead, item ∈ (d.before.performAll d.settings front).2.dead := by
      rcases aside with rfl | ⟨body, rfl⟩
      · exact ⟨all _, all _⟩
      · exact ⟨all _, all _⟩
    refine has_of_handling ask h front'.1 front'.2 fun e' mem' same u fine body work => ?_
    obtain rfl := grew.same before.ordered present mem' (entryId_injective same).symm
    have read : (seen e).task = .ok u := by
      simp only [seen, Entry.task, body]
      exact fine
    rw [read] at task
    cases task
  | @putBack id entry body l m mem found mem' looked ask =>
    obtain ⟨before, grew⟩ := earlier m mem'
    obtain ⟨n, number, there⟩ := mem_of_looksUp looked
    have old := Nat.le_trans (before.ordered.numbered _ there) grew.newest
    refine has_of_handling ask h (fun _ mem => List.mem_append_left _ mem) (all _)
      fun e mem'' same u fine body' work => ?_
    have one := grew.same before.ordered there mem'' (entryId_injective (number.trans same.symm))
    rw [← one] at body'
    refine .inl ⟨_, mem_of_appended number old ask, u, fine, body', work⟩
  | @move l e v mem found task now ask =>
    obtain ⟨before, grew⟩ := earlier l mem
    have present := mem_of_takesOver found
    have old := Nat.le_trans (before.ordered.numbered e present) grew.newest
    have front' : (∀ e ∈ d.before.entries, e ∈ (d.before.performAll d.settings
        [Calls.moved d.settings now v.bumped]).2.entries) ∧
        ∀ item ∈ d.before.dead, item ∈ (d.before.performAll d.settings
          [Calls.moved d.settings now v.bumped]).2.dead := by
      unfold Calls.moved
      split
      · exact ⟨fun _ mem => List.mem_append_left _ mem, all _⟩
      · exact ⟨all _, fun _ mem => List.mem_cons_of_mem _ mem⟩
    refine has_of_handling ask h front'.1 front'.2 fun e' mem' same u fine body work => ?_
    obtain rfl := grew.same before.ordered present mem' (entryId_injective same).symm
    have read : v = u := by
      have back := task_of_seen body task
      rw [faithful_iff.mp fine] at back
      exact (Option.some.inj back).symm
    subst read
    have more : t.SameWork v.bumped := work.trans v.sameWork_bumped
    unfold Calls.moved at ask
    split at ask
    · exact .inl ⟨_, mem_of_appended rfl old ask, v.bumped, fine.bumped, rfl, more⟩
    · refine .inr ⟨⟨v.bumped, d.settings.retry.reason v.bumped.attempts, now⟩, ?_, more⟩
      rw [d.after_handling ask, unclaimed_dead]
      exact List.mem_cons_self

end

/-- The commands of an acknowledgement of this id have run. -/
def Deed.Acknowledges (id : String) (d : Deed) : Prop :=
  d.undertaking = .call (.ack id) ∧ ∃ cs, d.ask = .transaction cs

variable {rounds : Nat} {allowed : Undertaking → Prop}

theorem Course.has {deeds : List Deed} {w : Server} (h : Course rounds allowed deeds w)
    (handles : ∀ u, allowed u → u.Handles)
    (faithful : ∀ t, allowed (.call (.enqueue t)) → Faithful t) {t : Task}
    (enqueued : ∃ d ∈ deeds, d.ask = .send (.append (Text.Utf8.bytes t.encoded)))
    (fine : Faithful t) (kept : ∀ d ∈ deeds, ¬ d.Acknowledges t.id) : w.Has t := by
  induction h with
  | start =>
    obtain ⟨d, mem, -⟩ := enqueued
    cases mem
  | wait s _ ih => exact has_of_subset (ih enqueued kept) (fun _ mem => mem) fun _ mem => mem
  | @deed d deeds course may follows ih =>
    have taken {u v : Task} (fine : Faithful u) (read : u.readBack = some v) : Faithful v.bumped := by
      rw [faithful_iff.mp fine] at read
      exact Option.some.inj read ▸ fine.bumped
    have closed : ∀ e ∈ deeds, Kept Faithful e := by
      intro e mem
      obtain ⟨later, earlier, rfl⟩ := List.append_of_mem mem
      exact ⟨fun v call => faithful v (call ▸ course.earlier.2.1), fun u v => taken⟩
    obtain ⟨sound, before⟩ := course.sound handles closed
    by_cases now : d.ask = .send (.append (Text.Utf8.bytes t.encoded))
    · refine .inl ⟨(d.before.newest + 1, some (Text.Utf8.bytes t.encoded)), ?_, t, fine, rfl, .refl t⟩
      rw [d.after_of now]
      exact List.mem_append_right _ List.mem_cons_self
    · have there : d.before.Has t := by
        refine ih ?_ fun e mem => kept e (List.mem_cons_of_mem _ mem)
        obtain ⟨e, mem, ask⟩ := enqueued
        rcases List.mem_cons.mp mem with rfl | mem
        · exact absurd ask now
        · exact ⟨e, mem, ask⟩
      refine has_of_act (follows.act (handles _ may)) (fun l mem => ?_) (fun call cs ask => ?_) there
      · have mem := (List.mem_filter.mp mem).1
        exact ⟨before l mem, course.grew mem⟩
      · exact kept d List.mem_cons_self ⟨call, cs, ask⟩

namespace System

/-- A call that has enqueued its task had the broker append its document. -/
theorem Recorded.enqueued {y : System} (h : Recorded rounds allowed y) {i : Nat} {c : Client}
    (found : y.clients[i]? = some c) {t : Task}
    (mem : (⟨.call (.enqueue t), .ok ()⟩ : Finished) ∈ c.history) :
    allowed (.call (.enqueue t)) ∧
      ∃ d ∈ y.deeds, d.ask = .send (.append (Text.Utf8.bytes t.encoded)) := by
  obtain ⟨later, earlier, history⟩ := List.append_of_mem mem
  obtain ⟨past, reaches, heard, owns⟩ := (h.clients i c found).ended later _ _ earlier history
  obtain ⟨r, told⟩ := (enqueue_along t).outcome reaches () rfl
  obtain ⟨d, own, ask, -⟩ := heard.sent (told ▸ List.mem_cons_self)
  have mem := (List.mem_filter.mp own).1
  obtain ⟨later, earlier, split⟩ := List.append_of_mem mem
  have may : allowed d.undertaking := (split ▸ h.course).earlier.2.1
  exact ⟨(owns d own).1 ▸ may, d, mem, ask⟩

/-- At every moment of every run, a task that was enqueued is there for a consumer, or for an
operator, unless its claim was acknowledged. -/
theorem run_delivers_at_least_once (rounds : Nat) (clock : Instant) (clients : List Settings)
    (events : List Event)
    (handles : ∀ i u, .begin i u ∈ events → u.Handles ∧
      ∀ t, u = .call (.enqueue t) → Task.ofBytes (Text.Utf8.bytes t.encoded) = .ok t) :
    let y := (fresh clock clients).run rounds events
    ∀ (i : Nat) (c : Client), y.clients[i]? = some c →
    ∀ t : Task, (⟨.call (.enqueue t), .ok ()⟩ : Finished) ∈ c.history →
    (∀ d ∈ y.deeds, ¬ d.Acknowledges t.id) →
    (∃ e ∈ y.server.entries, (e ∈ y.server.waiting ∨ ∃ h ∈ y.server.held, h.entry = e.1) ∧
      ∃ body u, e.2 = some body ∧ Task.ofBytes body = .ok u ∧ t.SameWork u) ∨
    ∃ l : DeadLetter, Text.Utf8.bytes l.encoded ∈ y.server.dead ∧ t.SameWork l.task := by
  intro y i c found t finished kept
  let allowed : Undertaking → Prop := fun u =>
    u.Handles ∧ ∀ t, u = .call (.enqueue t) → Faithful t
  have recorded : Recorded rounds allowed y := (recorded_fresh clock clients).run handles
  obtain ⟨may, enqueued⟩ := recorded.enqueued found finished
  have handled : ∀ u, allowed u → u.Handles := fun u may => may.1
  have faithful : ∀ t, allowed (.call (.enqueue t)) → Faithful t := fun t may => may.2 t rfl
  have sound : y.server.Sound fun _ => True :=
    (recorded.course.sound handled fun d _ => ⟨fun _ _ => trivial, fun _ _ _ _ => trivial⟩).1
  rcases recorded.course.has handled faithful enqueued (faithful t may) kept with
    ⟨e, mem, u, fine, body, work⟩ | letter
  · refine .inl ⟨e, mem, ?_, _, u, body, fine, work⟩
    exact (sound.reachable e mem).imp_left fun new => mem_waiting.mpr ⟨mem, new⟩
  · exact .inr letter

private def coin : Task := ⟨.execute, "coin", [("sides", .int 2)], .empty, 0, .epoch, 1⟩

/-- One client enqueues a task, and another breaks off with it in its hands. -/
private def dropped : List Event := [
  .begin 0 (.call (.enqueue coin)), .go 0, .begin 1 (.call (.pop false ⟨0⟩)), .go 1, .go 1]

private def couple : List Settings := [{ consumer := "a" }, { consumer := "b" }]

set_option maxRecDepth 4000 in
theorem run_delivers_dropped :
    let y := (fresh .epoch couple).run 1 dropped
    (∃ e ∈ y.server.entries, (e ∈ y.server.waiting ∨ ∃ h ∈ y.server.held, h.entry = e.1) ∧
      ∃ body u, e.2 = some body ∧ Task.ofBytes body = .ok u ∧ coin.SameWork u) ∨
    ∃ l : DeadLetter, Text.Utf8.bytes l.encoded ∈ y.server.dead ∧ coin.SameWork l.task := by
  have back : Task.ofBytes (Text.Utf8.bytes coin.encoded) = .ok coin := by decide +kernel
  have client : ((fresh .epoch couple).run 1 dropped).clients[0]? =
      some ⟨{ consumer := "a" }, none, [⟨.call (.enqueue coin), .ok ()⟩]⟩ := by rfl
  have calls : ((fresh .epoch couple).run 1 dropped).deeds.map (·.undertaking) =
      [.call (.pop false ⟨0⟩), .call (.pop false ⟨0⟩), .call (.enqueue coin)] := by rfl
  refine run_delivers_at_least_once 1 .epoch couple dropped (fun i u mem => ?_) 0 _ client coin
    List.mem_cons_self fun d mem acknowledges => ?_
  · simp only [dropped, List.mem_cons, Event.begin.injEq, reduceCtorEq, List.not_mem_nil,
      false_or, or_false] at mem
    rcases mem with ⟨-, rfl⟩ | ⟨-, rfl⟩
    · refine ⟨.enqueue coin, fun t same => ?_⟩
      cases same
      exact back
    · exact ⟨.pop false ⟨0⟩, fun t same => nomatch same⟩
  · have among := List.mem_map_of_mem (f := Deed.undertaking) mem
    rw [calls, acknowledges.1] at among
    simp at among

end System

end Broker

end ClaimQueue
