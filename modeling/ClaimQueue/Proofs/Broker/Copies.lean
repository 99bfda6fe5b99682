import ClaimQueue.Proofs.Broker.Stock
import Mathlib.Data.List.Induction

/-! How many copies of a task there are. A transaction that puts a copy back takes one entry away,
and that is the one it was copied from; but if that entry went in the meantime, by the hands of
another, a copy is put back for nothing. -/

namespace ClaimQueue

namespace Broker

open Server

/-- A dead letter of a task of this id. -/
def LetterOf (id : String) (item : List UInt8) : Prop :=
  ∃ l : DeadLetter, item = Text.Utf8.bytes l.encoded ∧ l.task.id = id

theorem entryOf_iff {x : String} {n : Nat} {u : Task} :
    EntryOf x (n, some (Text.Utf8.bytes u.encoded)) ↔ u.id = x := by
  refine ⟨fun ⟨v, body, own⟩ => ?_, fun own => ⟨u, rfl, own⟩⟩
  rw [Task.id_of_encoded (Option.some.inj body)]
  exact own

theorem letterOf_iff {x : String} {l : DeadLetter} :
    LetterOf x (Text.Utf8.bytes l.encoded) ↔ l.task.id = x := by
  refine ⟨fun ⟨m, body, own⟩ => ?_, fun own => ⟨l, rfl, own⟩⟩
  rw [DeadLetter.id_of_encoded body]
  exact own

open Classical in
/-- Entries and dead letters of a task together. -/
noncomputable def Server.copies (x : String) (w : Server) : Nat :=
  w.entries.countP (EntryOf x ·) + w.dead.countP (LetterOf x ·)

/-- A command that brings in a copy of a task. -/
def Command.Copies (x : String) (c : Command) : Prop :=
  (∃ u : Task, u.id = x ∧ c = .append (Text.Utf8.bytes u.encoded)) ∨
    ∃ l : DeadLetter, l.task.id = x ∧ c = .bury l.encoded

/-- A transaction that puts a copy of a task back and takes this entry away. -/
def Ask.Restores (x entry : String) (q : Ask) : Prop :=
  ∃ c id, q = .transaction (handling [c] entry id) ∧ c.Copies x

theorem restores_handling {x entry entry' : String} {c : Command} {id : Option String} :
    (Ask.transaction (handling [c] entry id)).Restores x entry' ↔ entry' = entry ∧ c.Copies x := by
  constructor
  · rintro ⟨c', id', same, copies⟩
    simp only [handling, List.cons_append, List.nil_append, Ask.transaction.injEq,
      List.cons.injEq, Command.acknowledge.injEq] at same
    obtain ⟨rfl, rfl, -⟩ := same
    exact ⟨rfl, copies⟩
  · rintro ⟨rfl, copies⟩
    exact ⟨c, id, rfl, copies⟩

theorem copies_append_iff {x : String} {u : Task} :
    (Command.append (Text.Utf8.bytes u.encoded)).Copies x ↔ u.id = x := by
  refine ⟨?_, fun own => .inl ⟨u, own, rfl⟩⟩
  rintro (⟨v, own, same⟩ | ⟨_, _, same⟩)
  · rw [Task.id_of_encoded (Command.append.inj same), own]
  · cases same

theorem copies_bury_iff {x : String} {l : DeadLetter} :
    (Command.bury l.encoded).Copies x ↔ l.task.id = x := by
  refine ⟨?_, fun own => .inr ⟨l, own, rfl⟩⟩
  rintro (⟨_, _, same⟩ | ⟨m, own, same⟩)
  · cases same
  · rw [DeadLetter.id_of_encoded (congrArg Text.Utf8.bytes (Command.bury.inj same)), own]

theorem copies_moved_iff {x : String} {s : Settings} {now : Instant} {t : Task} :
    (Calls.moved s now t).Copies x ↔ t.id = x := by
  unfold Calls.moved
  split
  · exact copies_append_iff
  · exact copies_bury_iff

/-! Counting. -/

namespace Server

variable {x : String} {w v : Server}

theorem copies_of_same (entries : v.entries = w.entries) (dead : v.dead = w.dead) :
    v.copies x = w.copies x := by
  rw [copies, copies, entries, dead]

@[simp] theorem copies_unclaimed (id : Option String) : (w.unclaimed id).copies x = w.copies x :=
  copies_of_same (unclaimed_entries ..) (unclaimed_dead ..)

theorem copies_append_own {u : Task} (own : u.id = x) :
    (w.append (some (Text.Utf8.bytes u.encoded))).copies x = w.copies x + 1 := by
  simp only [copies, append, List.countP_append, List.countP_singleton, entryOf_iff, own]
  simp only [decide_true, if_true]
  omega

theorem copies_append_other {u : Task} (other : u.id ≠ x) :
    (w.append (some (Text.Utf8.bytes u.encoded))).copies x = w.copies x := by
  simp [copies, append, List.countP_append, entryOf_iff, other]

theorem copies_bury_own {l : DeadLetter} (own : l.task.id = x) :
    Server.copies x { w with dead := Text.Utf8.bytes l.encoded :: w.dead } = w.copies x + 1 := by
  simp only [copies, List.countP_cons, letterOf_iff, own]
  simp only [decide_true, if_true]
  omega

theorem copies_bury_other {l : DeadLetter} (other : l.task.id ≠ x) :
    Server.copies x { w with dead := Text.Utf8.bytes l.encoded :: w.dead } = w.copies x := by
  simp [copies, letterOf_iff, other]

theorem copies_without_le (entry : String) : (w.without entry).copies x ≤ w.copies x :=
  Nat.add_le_add_right (List.Sublist.countP_le List.filter_sublist) _

theorem copies_without_of_absent {entry : String}
    (absent : ∀ e ∈ w.entries, entryId e.1 ≠ entry) : (w.without entry).copies x = w.copies x := by
  refine copies_of_same (List.filter_eq_self.mpr fun e mem => ?_) rfl
  simpa using absent e mem

theorem countP_filter_number {entries : List (Nat × Option (List UInt8))}
    (ascending : (entries.map Prod.fst).Pairwise (· < ·)) {e : Nat × Option (List UInt8)}
    (mem : e ∈ entries) {p : Nat × Option (List UInt8) → Bool} (own : p e = true) :
    (entries.filter fun d => entryId d.1 != entryId e.1).countP p + 1 = entries.countP p := by
  obtain ⟨before, after, rfl⟩ := List.append_of_mem mem
  have different : ∀ d ∈ before ++ after, d.1 ≠ e.1 := by
    have nodup : ((before ++ e :: after).map Prod.fst).Nodup :=
      ascending.imp fun below => Nat.ne_of_lt below
    rw [List.map_append, List.map_cons, List.perm_middle.nodup_iff, ← List.map_append,
      List.nodup_cons] at nodup
    intro d mem same
    exact nodup.1 (same ▸ List.mem_map_of_mem mem)
  have kept {ds : List (Nat × Option (List UInt8))} (sub : ∀ d ∈ ds, d ∈ before ++ after) :
      ds.filter (fun d => entryId d.1 != entryId e.1) = ds := by
    refine List.filter_eq_self.mpr fun d mem => ?_
    simpa using different d (sub d mem)
  rw [List.filter_append, List.filter_cons_of_neg (by simp),
    kept fun d mem => List.mem_append_left _ mem, kept fun d mem => List.mem_append_right _ mem,
    List.countP_append, List.countP_append, List.countP_cons_of_pos own]
  omega

theorem copies_without_own (ordered : Ordered w) {e : Nat × Option (List UInt8)}
    (mem : e ∈ w.entries) (own : EntryOf x e) :
    (w.without (entryId e.1)).copies x + 1 = w.copies x := by
  have count := countP_filter_number ordered.ascending mem (p := fun d => by
    classical exact decide (EntryOf x d)) (by simpa using own)
  simp only [copies, without]
  omega

/-- A command that brings in a copy leaves the entries, and adds none that is old. -/
theorem copies_performed (s : Settings) {c : Command} (own : c.Copies x) (w : Server) :
    (w.performAll s [c]).2.copies x = w.copies x + 1 ∧
      ∀ e ∈ w.entries, e ∈ (w.performAll s [c]).2.entries := by
  rcases own with ⟨u, own, rfl⟩ | ⟨l, own, rfl⟩
  · exact ⟨copies_append_own own, fun _ mem => List.mem_append_left _ mem⟩
  · exact ⟨copies_bury_own own, fun _ mem => mem⟩

end Server

/-- The call was begun to enqueue a task of this id. -/
def Deed.Enqueues (x : String) (d : Deed) : Prop :=
  ∃ t, d.undertaking = .call (.enqueue t) ∧ t.id = x

section

variable {x entry : String} {own : List Deed} {d : Deed}

/-- What is put back was seen in the stream before by the same call, on the entry that goes. -/
theorem Act.restores (act : Act own d) (earlier : ∀ l ∈ own, l.before.Sound fun _ => True)
    (restores : d.ask.Restores x entry) :
    ∃ l ∈ own, ∃ e ∈ l.before.entries, entryId e.1 = entry ∧ EntryOf x e := by
  cases act with
  | look looks =>
    obtain ⟨c, id, ask, -⟩ := restores
    rw [ask] at looks
    cases looks
  | save ask | claim _ _ _ ask | forget _ _ _ _ ask | takeOver _ _ ask | enqueue _ _ ask =>
    obtain ⟨c, id, ask', -⟩ := restores
    cases ask.symm.trans ask'
  | read wait ask =>
    obtain ⟨c, id, ask', -⟩ := restores
    rcases ask with ask | ask
    · cases ask.symm.trans ask'
    · cases ask.symm.trans ask'
  | ack _ _ _ ask =>
    obtain ⟨c, id, ask', copies⟩ := restores
    cases ask.symm.trans ask'
  | drop _ _ _ aside ask =>
    rcases aside with rfl | ⟨body, rfl⟩
    · obtain ⟨c, id, ask', copies⟩ := restores
      cases ask.symm.trans ask'
    · rw [ask, restores_handling] at restores
      simp [Command.Copies] at restores
  | @putBack id entry' body l m mem found mem' looked ask =>
    rw [ask, restores_handling] at restores
    obtain ⟨rfl, copies⟩ := restores
    obtain ⟨n, number, there⟩ := mem_of_looksUp looked
    rcases copies with ⟨u, own, same⟩ | ⟨_, _, same⟩
    · exact ⟨m, mem', _, there, number, u, congrArg some (Command.append.inj same), own⟩
    · cases same
  | @move l e t mem found task now ask =>
    rw [ask, restores_handling] at restores
    obtain ⟨rfl, copies⟩ := restores
    have there := mem_of_takesOver found
    refine ⟨l, mem, e, there, rfl, ?_⟩
    obtain ⟨u, -, body⟩ := (earlier l mem).stocked.entries e there
    have same : u.id = t.id := (Task.id_of_readBack (task_of_seen body task)).symm
    have own' : t.bumped.id = x := copies_moved_iff.mp copies
    exact ⟨u, body, same.trans own'⟩

/-- What neither enqueues nor restores adds no copy. -/
theorem Act.copies_le (act : Act own d) (earlier : ∀ l ∈ own, l.before.Sound fun _ => True)
    (quiet : ∀ entry, ¬ d.ask.Restores x entry) :
    d.after.copies x ≤ d.before.copies x ∨
      d.Enqueues x ∧ d.after.copies x = d.before.copies x + 1 := by
  have handled {front : List Command} {entry : String} {id : Option String}
      (ask : d.ask = .transaction (handling front entry id))
      (same : (d.before.performAll d.settings front).2.copies x = d.before.copies x) :
      d.after.copies x ≤ d.before.copies x := by
    rw [d.after_handling ask, copies_unclaimed, ← same]
    exact copies_without_le entry
  cases act with
  | look looks => exact .inl (Nat.le_of_eq (congrArg _ (d.after_of_looks looks)))
  | save ask | claim _ _ _ ask | forget _ _ _ _ ask | takeOver _ _ ask =>
    rw [d.after_of ask]
    exact .inl (Nat.le_of_eq (copies_of_same rfl rfl))
  | read wait ask =>
    obtain ⟨time, after⟩ := Deed.entries_of_read ask
    rw [after, deliver_eq]
    cases d.before.waiting.head? with
    | none => exact .inl (Nat.le_of_eq (copies_of_same rfl rfl))
    | some e => exact .inl (Nat.le_of_eq (copies_of_same rfl rfl))
  | @enqueue t call _ ask =>
    rw [d.after_of ask]
    by_cases own : t.id = x
    · exact .inr ⟨⟨t, call, own⟩, copies_append_own own⟩
    · exact .inl (Nat.le_of_eq (copies_append_other own))
  | ack _ _ _ ask => exact .inl (handled ask rfl)
  | drop _ _ _ aside ask =>
    rcases aside with rfl | ⟨body, rfl⟩
    · exact .inl (handled ask rfl)
    · exact .inl (handled ask (copies_of_same rfl rfl))
  | @putBack id entry body l m mem found mem' looked ask =>
    obtain ⟨n, -, there⟩ := mem_of_looksUp looked
    obtain ⟨u, -, written⟩ := (earlier m mem').stocked.entries (n, some body) there
    rw [Option.some.inj written] at ask
    have other : u.id ≠ x := fun own => quiet entry (ask ▸ restores_handling.mpr
      ⟨rfl, copies_append_iff.mpr own⟩)
    exact .inl (handled ask (copies_append_other other))
  | @move l e t mem found task now ask =>
    have other : t.bumped.id ≠ x := fun own => quiet (entryId e.1) (ask ▸ restores_handling.mpr
      ⟨rfl, copies_moved_iff.mpr own⟩)
    refine .inl (handled ask ?_)
    unfold Calls.moved
    split
    · exact copies_append_other other
    · exact copies_bury_other (l := ⟨t.bumped, _, now⟩) other

/-- A copy takes the place of the entry that it was made from, if that is still there. -/
theorem copies_restored {c : Command} {e : Nat × Option (List UInt8)} {id : Option String}
    (ask : d.ask = .transaction (handling [c] (entryId e.1) id)) (brings : c.Copies x) {w : Server}
    (ordered : w.Ordered) (grew : Grew w d.before) (mem : e ∈ w.entries) (own : EntryOf x e)
    (ordered' : d.before.Ordered) :
    ((∃ f ∈ d.before.entries, entryId f.1 = entryId e.1) → d.after.copies x = d.before.copies x) ∧
      ((∀ f ∈ d.before.entries, entryId f.1 ≠ entryId e.1) →
        d.after.copies x = d.before.copies x + 1) := by
  obtain ⟨more, kept⟩ := copies_performed d.settings brings d.before
  rw [d.after_handling ask, copies_unclaimed]
  constructor
  · rintro ⟨f, there, number⟩
    obtain rfl := grew.same ordered mem there (entryId_injective number).symm
    have less := copies_without_own (performAll_ordered d.settings [c] ordered') (kept _ there) own
    omega
  · intro gone
    rw [copies_without_of_absent fun f there number => ?_, more]
    rcases (performAll_grew d.settings [c] d.before).entries f there with old | newer
    · exact gone f old number
    · have := Nat.le_trans (ordered.numbered e mem) grew.newest
      have := entryId_injective number
      omega

/-- A deed keeps the copies of a task apart exactly if it puts none back for an entry that is gone
while another is there. -/
theorem Act.copies_le_one_iff (act : Act own d)
    (earlier : ∀ l ∈ own, l.before.Sound (fun _ => True) ∧ Grew l.before d.before)
    (ordered : d.before.Ordered) (first : d.Enqueues x → d.before.copies x = 0)
    (one : d.before.copies x ≤ 1) :
    d.after.copies x ≤ 1 ↔ ∀ entry, d.ask.Restores x entry →
      (∃ e ∈ d.before.entries, entryId e.1 = entry) ∨ d.before.copies x = 0 := by
  have sound : ∀ l ∈ own, l.before.Sound fun _ => True := fun l mem => (earlier l mem).1
  by_cases quiet : ∀ entry, ¬ d.ask.Restores x entry
  · refine iff_of_true ?_ fun entry restores => absurd restores (quiet entry)
    rcases act.copies_le sound quiet with le | ⟨enqueues, eq⟩
    · exact Nat.le_trans le one
    · have := first enqueues
      omega
  -- A copy comes in, and the entry it was made from goes, if it is there.
  · obtain ⟨entry, restores⟩ := not_forall_not.mp quiet
    obtain ⟨l, mem, e, there, rfl, entryOf⟩ := act.restores sound restores
    obtain ⟨c, id, ask, brings⟩ := restores
    obtain ⟨before, grew⟩ := earlier l mem
    obtain ⟨present, absent⟩ := copies_restored ask brings before.ordered grew there entryOf ordered
    have only : ∀ entry, d.ask.Restores x entry ↔ entry = entryId e.1 := by
      intro entry
      rw [ask, restores_handling]
      exact and_iff_left brings
    simp only [only, forall_eq]
    by_cases here : ∃ f ∈ d.before.entries, entryId f.1 = entryId e.1
    · exact iff_of_true (present here ▸ one) (.inl here)
    · rw [absent fun f mem number => here ⟨f, mem, number⟩]
      simp only [here, false_or]
      omega

end

/-! Whole runs. -/

variable {rounds : Nat} {x : String}

theorem copies_of_stocked {w : Server} (h : w.Stocked (·.id ≠ x)) : w.copies x = 0 := by
  have entries : ∀ e ∈ w.entries, ¬ EntryOf x e := by
    rintro ⟨n, body⟩ mem own
    obtain ⟨u, other, same⟩ := h.entries _ mem
    have same : body = some (Text.Utf8.bytes u.encoded) := same
    rw [same, entryOf_iff] at own
    exact other own
  have dead : ∀ item ∈ w.dead, ¬ LetterOf x item := by
    intro item mem own
    obtain ⟨l, other, same⟩ := h.dead item mem
    rw [same, letterOf_iff] at own
    exact other own
  simp only [Server.copies, Nat.add_eq_zero_iff, List.countP_eq_zero, decide_eq_true_eq]
  exact ⟨entries, dead⟩

theorem copies_of_only {w : Server} (h : w.Stocked (·.id = x)) :
    w.copies x = w.entries.length + w.dead.length := by
  have entries : ∀ e ∈ w.entries, EntryOf x e := by
    intro e mem
    obtain ⟨u, own, same⟩ := h.entries e mem
    exact ⟨u, same, own⟩
  have dead : ∀ item ∈ w.dead, LetterOf x item := by
    intro item mem
    obtain ⟨l, own, same⟩ := h.dead item mem
    exact ⟨l, same, own⟩
  rw [Server.copies, List.countP_eq_length.mpr (by simpa using entries),
    List.countP_eq_length.mpr (by simpa using dead)]

/-- A task that nobody enqueued is nowhere. -/
theorem Course.copies_eq_zero {deeds : List Deed} {w : Server}
    (h : Course rounds Undertaking.Handles deeds w) (none : ∀ d ∈ deeds, ¬ d.Enqueues x) :
    w.copies x = 0 := by
  refine copies_of_stocked (h.sound (fun _ handles => handles) fun d mem => ⟨?_, ?_⟩).1.stocked
  · exact fun t call own => none d mem ⟨t, call, own⟩
  · intro u t other read
    rw [Task.id_bumped, Task.id_of_readBack read]
    exact other

/-- A copy that this deed puts back takes the place of an entry, or is the only one. -/
def Deed.Replaces (x : String) (d : Deed) : Prop :=
  ∀ entry, d.ask.Restores x entry →
    (∃ e ∈ d.before.entries, entryId e.1 = entry) ∨ d.before.copies x = 0

theorem Course.copies_le_one_iff {deeds : List Deed} {d : Deed}
    (h : Course rounds Undertaking.Handles (d :: deeds) d.after)
    (once : ∀ e ∈ deeds, ¬ (d.Enqueues x ∧ e.Enqueues x)) (one : d.before.copies x ≤ 1) :
    d.after.copies x ≤ 1 ↔ d.Replaces x := by
  have whole : Course rounds Undertaking.Handles ([] ++ d :: deeds) d.after := h
  obtain ⟨course, handles, follows⟩ := whole.earlier
  refine (follows.act handles).copies_le_one_iff (fun l mem => ?_) course.ordered ?_ one
  · have mem := (List.mem_filter.mp mem).1
    exact ⟨course.sound_for_all.2 l mem, course.grew mem⟩
  · exact fun enqueues => course.copies_eq_zero fun e mem again => once e mem ⟨enqueues, again⟩

namespace System

@[simp] theorem copies_wait (s : Span) (w : Server) : (wait s w).copies x = w.copies x :=
  copies_of_same rfl rfl

theorem run_recorded (rounds : Nat) (clock : Instant) (clients : List Settings) {events : List Event}
    (handles : ∀ i u, .begin i u ∈ events → u.Handles) :
    Recorded rounds Undertaking.Handles ((fresh clock clients).run rounds events) :=
  (recorded_fresh clock clients).run handles

theorem copies_le_one_iff_replaces (clock : Instant) (clients : List Settings) (events : List Event)
    (handles : ∀ i u, .begin i u ∈ events → u.Handles)
    (once : ((fresh clock clients).run rounds events).deeds.Pairwise
      fun d e => ¬ (d.Enqueues x ∧ e.Enqueues x)) :
    (∀ past, past <+: events → ((fresh clock clients).run rounds past).server.copies x ≤ 1) ↔
      ∀ d ∈ ((fresh clock clients).run rounds events).deeds, d.Replaces x := by
  induction events using List.reverseRecOn with
  | nil =>
    simp only [List.prefix_nil, forall_eq]
    exact iff_of_true (Nat.zero_le 1) fun _ none => (List.not_mem_nil none).elim
  | append_singleton events e ih =>
    have before : ∀ i u, .begin i u ∈ events → u.Handles :=
      fun i u mem => handles i u (List.mem_append_left _ mem)
    have longer := (run_recorded rounds clock clients handles).course
    simp only [List.prefix_concat_iff, forall_eq_or_imp]
    rw [run_append] at once longer ⊢
    rcases step_cases rounds ((fresh clock clients).run rounds events) e with
      ⟨deeds, server⟩ | ⟨d, found, deeds, server⟩
    · rw [deeds] at once ⊢
      rw [← ih before once, and_iff_right_iff_imp]
      intro one
      rcases server with server | ⟨s, server⟩
      · exact server ▸ one events (List.prefix_refl _)
      · rw [server, copies_wait]
        exact one events (List.prefix_refl _)
    · rw [deeds, List.pairwise_cons] at once
      rw [deeds, server] at longer
      rw [deeds, server, List.forall_mem_cons, ← ih before once.2]
      refine and_congr_left fun one => longer.copies_le_one_iff once.1 ?_
      exact found ▸ one events (List.prefix_refl _)

/-- A task that was enqueued once has one copy at most as long as whoever puts it back still finds
the entry that goes for it. Its own call has seen that entry before. -/
theorem run_keeps_one_copy_iff (rounds : Nat) (clock : Instant) (clients : List Settings)
    (events : List Event) (handles : ∀ i u, .begin i u ∈ events → u.Handles) (x : String)
    (once : ((fresh clock clients).run rounds events).deeds.Pairwise
      fun d e => ¬ (d.Enqueues x ∧ e.Enqueues x)) :
    ((∀ past, past <+: events → ((fresh clock clients).run rounds past).server.copies x ≤ 1) ↔
      ∀ d ∈ ((fresh clock clients).run rounds events).deeds, ∀ entry, d.ask.Restores x entry →
        (∃ e ∈ d.before.entries, entryId e.1 = entry) ∨ d.before.copies x = 0) ∧
    ∀ later d earlier, ((fresh clock clients).run rounds events).deeds = later ++ d :: earlier →
      ∀ entry, d.ask.Restores x entry → ∃ l ∈ earlier, l.client = d.client ∧ l.turn = d.turn ∧
        ∃ e ∈ l.before.entries, entryId e.1 = entry ∧ EntryOf x e := by
  refine ⟨copies_le_one_iff_replaces clock clients events handles once, ?_⟩
  intro later d earlier split entry restores
  have recorded := run_recorded rounds clock clients handles
  obtain ⟨course, may, follows⟩ := (split ▸ recorded.course).earlier
  obtain ⟨l, mem, e, there, number, own⟩ := (follows.act may).restores
    (fun l mem => course.sound_for_all.2 l (List.mem_filter.mp mem).1) restores
  obtain ⟨mem, same⟩ := List.mem_filter.mp mem
  simp only [Deed.isOf, Bool.and_eq_true, beq_iff_eq] at same
  exact ⟨l, mem, same.1, same.2, e, there, number, own⟩

private def penny : Task := ⟨.execute, "penny", [], .empty, 0, .epoch, 1⟩

private def trio : List Settings := [{ consumer := "a" }, { consumer := "b" }, { consumer := "c" }]

private def minute : Span := ⟨60000000000⟩

private def takeBack : Undertaking := .call (.reclaim minute 10)

/-- A client breaks off with a task in its hands, and two others, a minute apart, have both taken it
over before either puts it back. -/
private def raced : List Event := [
  .begin 0 (.call (.enqueue penny)), .go 0, .begin 0 (.call (.pop false ⟨0⟩)), .go 0, .go 0,
  .begin 1 takeBack, .begin 2 takeBack, .wait minute, .go 1, .wait minute, .go 2,
  .go 1, .go 1, .go 2, .go 2]

private theorem raced_handles {i : Nat} {u : Undertaking} (mem : .begin i u ∈ raced) :
    u.Handles ∧ ∀ t, u = .call (.enqueue t) → t.id = "penny" := by
  simp only [raced, List.mem_cons, Event.begin.injEq, reduceCtorEq, List.not_mem_nil,
    false_or, or_false] at mem
  rcases mem with ⟨-, rfl⟩ | ⟨-, rfl⟩ | ⟨-, rfl⟩ | ⟨-, rfl⟩
  · refine ⟨.enqueue penny, fun t same => ?_⟩
    cases same
    rfl
  · exact ⟨.pop false ⟨0⟩, fun t same => nomatch same⟩
  · exact ⟨.reclaim minute 10, fun t same => nomatch same⟩
  · exact ⟨.reclaim minute 10, fun t same => nomatch same⟩

set_option maxRecDepth 8000 in
private theorem raced_once : ((fresh .epoch trio).run 1 raced).deeds.Pairwise
    fun d e => ¬ (d.Enqueues "penny" ∧ e.Enqueues "penny") := by
  have calls : ((fresh .epoch trio).run 1 raced).deeds.map (·.undertaking) =
      [takeBack, takeBack, takeBack, takeBack, takeBack, takeBack, .call (.pop false ⟨0⟩),
        .call (.pop false ⟨0⟩), .call (.enqueue penny)] := by rfl
  have once := List.pairwise_map (f := Deed.undertaking)
    (R := fun u v => ¬ ((∃ t, u = .call (.enqueue t) ∧ t.id = "penny") ∧
      ∃ t, v = .call (.enqueue t) ∧ t.id = "penny")) (l := ((fresh .epoch trio).run 1 raced).deeds)
  refine once.mp ?_
  rw [calls]
  simp [takeBack]

set_option maxRecDepth 8000 in
private theorem raced_copies : 1 < ((fresh .epoch trio).run 1 raced).server.copies "penny" := by
  have numbers : ((fresh .epoch trio).run 1 raced).server.entries.map (·.1) = [2, 3] := by
    decide +kernel
  have recorded : Recorded 1 (fun u => u.Handles ∧ ∀ t, u = .call (.enqueue t) → t.id = "penny")
      ((fresh .epoch trio).run 1 raced) :=
    (recorded_fresh .epoch trio).run fun i u mem => raced_handles mem
  have sound := (recorded.course.sound (P := (·.id = "penny")) (fun _ may => may.1)
    fun d mem => ⟨?_, ?_⟩).1
  · rw [copies_of_only sound.stocked]
    have := congrArg List.length numbers
    simp only [List.length_map, List.length_cons, List.length_nil] at this
    omega
  · intro t call
    obtain ⟨later, earlier, split⟩ := List.append_of_mem mem
    exact (split ▸ recorded.course).earlier.2.1.2 t call
  · intro u t own read
    rw [Task.id_bumped, Task.id_of_readBack read]
    exact own

theorem run_makes_two_copies :
    ¬ ∀ (rounds : Nat) (clock : Instant) (clients : List Settings) (events : List Event),
      (∀ i u, .begin i u ∈ events → u.Handles) → ∀ x : String,
      (((fresh clock clients).run rounds events).deeds.Pairwise
        fun d e => ¬ (d.Enqueues x ∧ e.Enqueues x)) →
      ((fresh clock clients).run rounds events).server.copies x ≤ 1 := by
  intro claim
  have one := claim 1 .epoch trio raced (fun i u mem => (raced_handles mem).1) "penny" raced_once
  exact absurd raced_copies (Nat.not_lt.mpr one)

/-- The second of the two puts a copy back for an entry that is gone. -/
theorem run_restores_what_is_gone :
    ∃ d ∈ ((fresh .epoch trio).run 1 raced).deeds, ∃ entry, d.ask.Restores "penny" entry ∧
      (∀ e ∈ d.before.entries, entryId e.1 ≠ entry) ∧ d.before.copies "penny" ≠ 0 := by
  have exactly := (run_keeps_one_copy_iff 1 .epoch trio raced (fun i u mem => (raced_handles mem).1)
    "penny" raced_once).1
  by_contra none
  push Not at none
  have replaces := exactly.mpr fun d mem entry restores => ?_
  · exact absurd raced_copies (Nat.not_lt.mpr (replaces raced (List.prefix_refl _)))
  · by_cases here : ∃ e ∈ d.before.entries, entryId e.1 = entry
    · exact .inl here
    · push Not at here
      exact .inr (none d mem entry restores here)

end System

end Broker

end ClaimQueue
