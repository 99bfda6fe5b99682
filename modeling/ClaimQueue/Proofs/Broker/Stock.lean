import ClaimQueue.Proofs.Broker.Acts
import ClaimQueue.Proofs.Broker.Stream
import ClaimQueue.Proofs.Index
import ClaimQueue.Proofs.Task.Document

/-! What lies in stream, claims and dead letters while tasks are handled: documents of tasks that
were enqueued, with more attempts perhaps, and claims on entries that were delivered. -/

namespace ClaimQueue

namespace Broker

open Server

/-! What is left after a deed. -/

theorem Deed.after_of {d : Deed} {q : Ask} (ask : d.ask = q) :
    d.after = (d.before.answer d.settings q).2 := by
  rw [Deed.after, ask]

theorem Deed.after_handling {d : Deed} {front : List Command} {entry : String} {id : Option String}
    (ask : d.ask = .transaction (handling front entry id)) :
    d.after = (((d.before.performAll d.settings front).2.without entry).unclaimed id) :=
  (d.after_of ask).trans (performAll_handling ..)

namespace Server

@[simp] theorem unclaimed_entries (id : Option String) (w : Server) :
    (w.unclaimed id).entries = w.entries := by cases id <;> rfl

@[simp] theorem unclaimed_held (id : Option String) (w : Server) :
    (w.unclaimed id).held = w.held := by cases id <;> rfl

@[simp] theorem unclaimed_delivered (id : Option String) (w : Server) :
    (w.unclaimed id).delivered = w.delivered := by cases id <;> rfl

@[simp] theorem unclaimed_dead (id : Option String) (w : Server) :
    (w.unclaimed id).dead = w.dead := by cases id <;> rfl

theorem mem_without {w : Server} {n : Nat} {e : Nat × Option (List UInt8)} :
    e ∈ (w.without (entryId n)).entries ↔ e ∈ w.entries ∧ e.1 ≠ n := by
  simp [without]

end Server

theorem Deed.entries_of_read {d : Deed} {wait : Option Nat}
    (ask : d.ask = .send (.readNew wait) ∨ d.ask = .sendWaiting (.readNew wait)) :
    ∃ time, d.after = { (d.before.deliver d.settings).2 with time } := by
  rcases ask with ask | ask
  · exact ⟨_, d.after_of ask⟩
  · obtain ⟨time, same⟩ := waited_eq (.readNew wait)
      (d.before.perform d.settings (.readNew wait)).1 (d.before.deliver d.settings).2
    exact ⟨time, (d.after_of ask).trans same⟩

theorem deliver_eq (s : Settings) (w : Server) :
    (w.deliver s).2 = match w.waiting.head? with
      | none => w.heard s.consumer
      | some e => { w.heard s.consumer with
        delivered := e.1, held := w.held ++ [⟨e.1, s.consumer, w.clock⟩] } := by
  have same : (w.heard s.consumer).waiting = w.waiting := rfl
  unfold deliver
  simp only [same]
  cases w.waiting <;> rfl

/-! Every entry is delivered to nobody yet, or held. -/

def Server.Reachable (w : Server) : Prop :=
  ∀ e ∈ w.entries, w.delivered < e.1 ∨ ∃ h ∈ w.held, h.entry = e.1

namespace Server

theorem reachable_append {w : Server} (h : Reachable w) (ordered : Ordered w)
    (body : Option (List UInt8)) : Reachable (w.append body) := by
  intro e mem
  rcases List.mem_append.mp mem with mem | mem
  · exact h e mem
  · rw [List.mem_singleton.mp mem]
    exact .inl (Nat.lt_succ_of_le ordered.delivered)

theorem reachable_without {w : Server} (h : Reachable w) (entry : String) :
    Reachable (w.without entry) := by
  intro e mem
  obtain ⟨mem, other⟩ := List.mem_filter.mp mem
  refine (h e mem).imp_right fun ⟨g, mem, same⟩ => ⟨g, List.mem_filter.mpr ⟨mem, ?_⟩, same⟩
  rw [same]
  exact other

theorem head_waiting_le {w : Server} (ordered : Ordered w) {d e : Nat × Option (List UInt8)}
    (first : w.waiting.head? = some d) (mem : e ∈ w.waiting) : d.1 ≤ e.1 := by
  have ascending : (w.waiting.map Prod.fst).Pairwise (· < ·) :=
    ordered.ascending.sublist (List.filter_sublist.map _)
  obtain ⟨rest, same⟩ := List.head?_eq_some_iff.mp first
  rw [same, List.map_cons, List.pairwise_cons] at ascending
  rw [same] at mem
  rcases List.mem_cons.mp mem with rfl | mem
  · exact Nat.le_refl _
  · exact Nat.le_of_lt (ascending.1 _ (List.mem_map_of_mem mem))

theorem reachable_deliver {w : Server} (h : Reachable w) (ordered : Ordered w) (s : Settings) :
    Reachable (w.deliver s).2 := by
  rw [deliver_eq]
  cases first : w.waiting.head? with
  | none => exact h
  | some d =>
    intro e mem
    rcases h e mem with new | ⟨g, held, same⟩
    · have above := head_waiting_le ordered first (mem_waiting.mpr ⟨mem, new⟩)
      rcases Nat.lt_or_eq_of_le above with above | same
      · exact .inl above
      · exact .inr ⟨_, List.mem_append_right _ List.mem_cons_self, same⟩
    · exact .inr ⟨g, List.mem_append_left _ held, same⟩

theorem reachable_takeOver {w : Server} (h : Reachable w) (s : Settings) (millis batch : Nat) :
    Reachable (w.takeOver s millis batch).2 := by
  intro e mem
  refine (h e mem).imp_right fun ⟨g, held, same⟩ => ?_
  have here : ((w.heard s.consumer).find? g.entry).isNone = false := by
    rw [Option.isNone_eq_false_iff]
    refine List.find?_isSome.mpr ⟨e, mem, ?_⟩
    simp [same]
  let fresh : Holding := ⟨g.entry, s.consumer, w.clock⟩
  by_cases taken : g ∈ (w.heard s.consumer).taken millis batch
  · refine ⟨fresh, List.mem_filterMap.mpr ⟨g, held, ?_⟩, same⟩
    simp [taken, here, fresh]
    rfl
  · refine ⟨g, List.mem_filterMap.mpr ⟨g, held, ?_⟩, same⟩
    simp [taken]

end Server

/-- A wait and a look change nothing of this, and neither does a result. -/
theorem reachable_of_act {own : List Deed} {d : Deed} (act : Act own d)
    (ordered : d.before.Ordered) (h : d.before.Reachable) : d.after.Reachable := by
  have handled {front : List Command} {entry : String} {id : Option String}
      (ask : d.ask = .transaction (handling front entry id))
      (after : ((d.before.performAll d.settings front).2).Reachable) : d.after.Reachable := by
    rw [d.after_handling ask]
    intro e mem
    simp only [unclaimed_entries, unclaimed_held, unclaimed_delivered] at mem ⊢
    exact reachable_without after entry e mem
  cases act with
  | look looks => exact d.after_of_looks looks ▸ h
  | save ask | claim _ _ _ ask | forget _ _ _ _ ask =>
    rw [d.after_of ask]
    exact h
  | read wait ask =>
    obtain ⟨time, after⟩ := Deed.entries_of_read ask
    rw [after]
    exact reachable_deliver h ordered d.settings
  | takeOver millis batch ask =>
    rw [d.after_of ask]
    exact reachable_takeOver h d.settings millis batch
  | enqueue _ _ ask =>
    rw [d.after_of ask]
    exact reachable_append h ordered _
  | ack _ _ _ ask => exact handled ask h
  | drop _ _ _ aside ask =>
    rcases aside with rfl | ⟨body, rfl⟩
    · exact handled ask h
    · exact handled ask h
  | putBack _ _ _ _ ask => exact handled ask (reachable_append h ordered _)
  | move _ _ _ now ask =>
    refine handled ask ?_
    unfold Calls.moved
    split
    · exact reachable_append h ordered _
    · exact h

/-! Documents in the stream and among the dead letters. -/

structure Server.Stocked (P : Task → Prop) (w : Server) : Prop where
  entries : ∀ e ∈ w.entries, ∃ u, P u ∧ e.2 = some (Text.Utf8.bytes u.encoded)
  dead : ∀ item ∈ w.dead, ∃ l : DeadLetter, P l.task ∧ item = Text.Utf8.bytes l.encoded

namespace Server

variable {P : Task → Prop}

theorem stocked_append {w : Server} (h : Stocked P w) {u : Task} (fine : P u) :
    Stocked P (w.append (some (Text.Utf8.bytes u.encoded))) where
  entries e mem := by
    rcases List.mem_append.mp mem with mem | mem
    · exact h.entries e mem
    · rw [List.mem_singleton.mp mem]
      exact ⟨u, fine, rfl⟩
  dead := h.dead

theorem stocked_bury {w : Server} (h : Stocked P w) {l : DeadLetter} (fine : P l.task) :
    Stocked P { w with dead := Text.Utf8.bytes l.encoded :: w.dead } where
  entries := h.entries
  dead item mem := by
    rcases List.mem_cons.mp mem with same | mem
    · exact ⟨l, fine, same⟩
    · exact h.dead item mem

theorem Stocked.fewer {w v : Server} (h : Stocked P w) (entries : v.entries.Sublist w.entries)
    (dead : v.dead = w.dead) : Stocked P v where
  entries e mem := h.entries e (entries.subset mem)
  dead item mem := h.dead item (dead ▸ mem)

end Server

/-- The task of an entry, as it was written and as it was read. -/
theorem task_of_seen {e : Nat × Option (List UInt8)} {t u : Task}
    (body : e.2 = some (Text.Utf8.bytes u.encoded)) (task : (seen e).task = .ok t) :
    u.readBack = some t := by
  simp only [seen, Entry.task, body] at task
  exact Task.ofBytes_eq_ok.mp task

theorem mem_of_looksUp {l : Deed} {entry : String} {body : List UInt8}
    (h : l.LooksUp entry (some body)) :
    ∃ n, entryId n = entry ∧ (n, some body) ∈ l.before.entries := by
  obtain ⟨⟨n, _⟩, first, rfl⟩ := Option.bind_eq_some_iff.mp h.2
  obtain ⟨mem, number⟩ := List.mem_filter.mp (List.mem_of_mem_head? first)
  exact ⟨n, by simpa using number, mem⟩

theorem mem_of_takesOver {l : Deed} {e : Nat × Option (List UInt8)} (h : l.TakesOver e) :
    e ∈ l.before.entries := by
  obtain ⟨_, _, _, g, _, found⟩ := h
  exact (mem_of_find? found).1

theorem mem_of_delivers {l : Deed} {e : Nat × Option (List UInt8)} (h : l.Delivers e) :
    e ∈ l.before.entries ∧ l.before.delivered < e.1 :=
  mem_waiting.mp (List.mem_of_mem_head? h.2)

/-- What may lie in the stream may be enqueued, and may be taken back once it was read. -/
structure Kept (P : Task → Prop) (d : Deed) : Prop where
  enqueued : ∀ t, d.undertaking = .call (.enqueue t) → P t
  taken : ∀ u t, P u → u.readBack = some t → P t.bumped

theorem stocked_of_act {P : Task → Prop} {own : List Deed} {d : Deed} (act : Act own d)
    (kept : Kept P d) (earlier : ∀ l ∈ own, l.before.Stocked P) (h : d.before.Stocked P) :
    d.after.Stocked P := by
  have handled {front : List Command} {entry : String} {id : Option String}
      (ask : d.ask = .transaction (handling front entry id))
      (after : ((d.before.performAll d.settings front).2).Stocked P) : d.after.Stocked P := by
    rw [d.after_handling ask]
    refine after.fewer ?_ (unclaimed_dead ..)
    rw [unclaimed_entries]
    exact List.filter_sublist
  cases act with
  | look looks => exact d.after_of_looks looks ▸ h
  | save ask | claim _ _ _ ask | forget _ _ _ _ ask | takeOver _ _ ask =>
    rw [d.after_of ask]
    exact h.fewer (.refl _) rfl
  | read wait ask =>
    obtain ⟨time, after⟩ := Deed.entries_of_read ask
    rw [after, deliver_eq]
    cases d.before.waiting.head? with
    | none => exact h.fewer (.refl _) rfl
    | some e => exact h.fewer (.refl _) rfl
  | enqueue call _ ask =>
    rw [d.after_of ask]
    exact stocked_append h (kept.enqueued _ call)
  | ack _ _ _ ask => exact handled ask h
  | drop _ _ _ aside ask =>
    rcases aside with rfl | ⟨body, rfl⟩
    · exact handled ask h
    · exact handled ask (h.fewer (.refl _) rfl)
  | @putBack id entry body l m _ _ mem found ask =>
    obtain ⟨n, -, there⟩ := mem_of_looksUp found
    obtain ⟨u, fine, same⟩ := (earlier m mem).entries (n, some body) there
    rw [Option.some.inj same] at ask
    exact handled ask (stocked_append h fine)
  | @move l e t mem found task now ask =>
    obtain ⟨u, fine, body⟩ := (earlier l mem).entries e (mem_of_takesOver found)
    have again : P t.bumped := kept.taken u t fine (task_of_seen body task)
    refine handled ask ?_
    unfold Calls.moved
    split
    · exact stocked_append h again
    · exact stocked_bury h (l := ⟨t.bumped, _, now⟩) again

/-! Claims. -/

namespace Server

/-- The entry holds a task of this id. -/
def EntryOf (id : String) (e : Nat × Option (List UInt8)) : Prop :=
  ∃ u : Task, e.2 = some (Text.Utf8.bytes u.encoded) ∧ u.id = id

/-- The entry of this number, if it is still there, is of this task. -/
def Names (n : Nat) (id : String) (w : Server) : Prop :=
  ∀ e ∈ w.entries, e.1 = n → EntryOf id e

theorem Names.grew {w v : Server} {n : Nat} {id : String} (h : w.Names n id) (grew : Grew w v)
    (old : n ≤ w.newest) : v.Names n id := by
  intro e mem number
  refine h e ((grew.entries e mem).resolve_right fun newer => ?_) number
  omega

/-- Each claim is on an entry that was delivered and is, or was, of the task. -/
structure Labelled (w : Server) : Prop where
  ascending : Index.Ascending w.claims
  claims : ∀ c ∈ w.claims, ∃ n owner, c.2 = claimValue (entryId n) owner ∧ n ≤ w.delivered ∧
    w.Names n c.1

theorem Labelled.later {w v : Server} (h : Labelled w) (ordered : Ordered w) (grew : Grew w v)
    {c : String × String} (mem : c ∈ w.claims) :
    ∃ n owner, c.2 = claimValue (entryId n) owner ∧ n ≤ v.delivered ∧ v.Names n c.1 := by
  obtain ⟨n, owner, value, delivered, names⟩ := h.claims c mem
  exact ⟨n, owner, value, Nat.le_trans delivered grew.delivered,
    names.grew grew (Nat.le_trans delivered ordered.delivered)⟩

theorem Labelled.fewer {w v : Server} (h : Labelled w) (ordered : Ordered w) (grew : Grew w v)
    (ascending : Index.Ascending v.claims) (claims : ∀ c ∈ v.claims, c ∈ w.claims) :
    Labelled v :=
  ⟨ascending, fun c mem => h.later ordered grew (claims c mem)⟩

end Server

theorem delivered_of_delivers {l : Deed} {e : Nat × Option (List UInt8)} (h : l.Delivers e) :
    l.after.delivered = e.1 := by
  obtain ⟨⟨wait, ask⟩, first⟩ := h
  obtain ⟨time, after⟩ := Deed.entries_of_read ask
  rw [after, deliver_eq, first]

/-- The entry of a task that was read. -/
theorem entryOf_of_seen {w : Server} (stocked : w.Stocked fun _ => True)
    {e : Nat × Option (List UInt8)} (mem : e ∈ w.entries) {t : Task}
    (task : (seen e).task = .ok t) : EntryOf t.id e := by
  obtain ⟨u, -, body⟩ := stocked.entries e mem
  exact ⟨u, body, (Task.id_of_readBack (task_of_seen body task)).symm⟩

/-- An entry that was delivered, and could be read, names its task ever after. -/
theorem names_of_seen {w v : Server} (ordered : Ordered w) (stocked : w.Stocked fun _ => True)
    (grew : Grew w v) {e : Nat × Option (List UInt8)} (mem : e ∈ w.entries) {t : Task}
    (task : (seen e).task = .ok t) : v.Names e.1 t.id := by
  intro e' mem' number
  obtain rfl := grew.same ordered mem mem' number.symm
  exact entryOf_of_seen stocked mem task

/-- The claim that was found is on an entry of the task. -/
theorem names_of_finds {l : Deed} {id entry : String} (found : l.Finds id entry)
    (ordered : l.before.Ordered) (labelled : l.before.Labelled) {v : Server}
    (grew : Grew l.before v) : ∃ n, entry = entryId n ∧ n ≤ v.delivered ∧ v.Names n id := by
  obtain ⟨-, claim, here, parts⟩ := found
  obtain ⟨n, owner, value, delivered, names⟩ := labelled.later ordered grew (Index.mem_of_find? here)
  have value : claim = claimValue (entryId n) owner := value
  rw [value] at parts
  exact ⟨n, (claimParts?_claimValue parts).1, delivered, names⟩

theorem labelled_of_act {own : List Deed} {d : Deed} (act : Act own d)
    (earlier : ∀ l ∈ own, l.before.Ordered ∧ l.before.Stocked (fun _ => True) ∧
      Grew l.before d.before ∧ Grew l.after d.before)
    (ordered : d.before.Ordered) (h : d.before.Labelled) : d.after.Labelled := by
  have grew : Grew d.before d.after := answer_grew d.settings d.ask d.before
  have same (claims : d.after.claims = d.before.claims) : d.after.Labelled :=
    h.fewer ordered grew (claims ▸ h.ascending) (claims ▸ fun _ mem => mem)
  have erased {id : String} (claims : d.after.claims = Index.erase id d.before.claims) :
      d.after.Labelled :=
    h.fewer ordered grew (claims ▸ Index.erase_ascending id h.ascending)
      (claims ▸ fun _ mem => (Index.erase_sublist id _).subset mem)
  cases act with
  | look looks => exact d.after_of_looks looks ▸ h
  | save ask | takeOver _ _ ask | enqueue _ _ ask =>
    exact same (by rw [d.after_of ask]; rfl)
  | read wait ask =>
    obtain ⟨time, after⟩ := Deed.entries_of_read ask
    refine same ?_
    rw [after, deliver_eq]
    cases d.before.waiting.head? <;> rfl
  | @claim l e t mem found task ask =>
    obtain ⟨ordered', stocked, since, after⟩ := earlier l mem
    have claims : d.after.claims =
        Index.put t.id (claimValue (entryId e.1) d.settings.consumer) d.before.claims := by
      rw [d.after_of ask]
      rfl
    refine ⟨claims ▸ Index.put_ascending _ _ h.ascending, fun c mem => ?_⟩
    rw [claims] at mem
    rcases Index.mem_put mem with rfl | mem
    · have delivered := Nat.le_trans after.delivered grew.delivered
      rw [delivered_of_delivers found] at delivered
      exact ⟨e.1, _, rfl, delivered,
        names_of_seen ordered' stocked (since.trans grew) (mem_of_delivers found).1 task⟩
    · exact h.later ordered grew mem
  | forget _ _ _ _ ask => exact erased (by rw [d.after_of ask]; rfl)
  | ack _ _ _ ask => exact erased (by rw [d.after_handling ask]; rfl)
  | drop _ _ _ aside ask =>
    refine same ?_
    rw [d.after_handling ask]
    rcases aside with rfl | ⟨body, rfl⟩ <;> rfl
  | putBack _ _ _ _ ask => exact erased (by rw [d.after_handling ask]; rfl)
  | @move l e t _ _ _ now ask =>
    have claims : d.after.claims = Index.erase t.id d.before.claims := by
      rw [d.after_handling ask]
      unfold Calls.moved
      split <;> rfl
    exact erased claims

/-! Whole runs. -/

structure Server.Sound (P : Task → Prop) (w : Server) : Prop where
  ordered : w.Ordered
  reachable : w.Reachable
  stocked : w.Stocked P
  labelled : w.Labelled

theorem Server.Stocked.mono {P Q : Task → Prop} {w : Server} (h : w.Stocked P)
    (weaker : ∀ t, P t → Q t) : w.Stocked Q where
  entries e mem := by
    obtain ⟨u, fine, same⟩ := h.entries e mem
    exact ⟨u, weaker u fine, same⟩
  dead item mem := by
    obtain ⟨l, fine, same⟩ := h.dead item mem
    exact ⟨l, weaker _ fine, same⟩

variable {rounds : Nat} {allowed : Undertaking → Prop}

/-- The broker is sound throughout, as long as only tasks are handled. -/
theorem Course.sound {P : Task → Prop} {deeds : List Deed} {w : Server}
    (h : Course rounds allowed deeds w) (handles : ∀ u, allowed u → u.Handles)
    (kept : ∀ d ∈ deeds, Kept P d) : w.Sound P ∧ ∀ d ∈ deeds, d.before.Sound P := by
  induction h with
  | start clock =>
    refine ⟨⟨ordered_empty clock, ?_, ?_, ?_⟩, fun _ none => (List.not_mem_nil none).elim⟩
    · exact fun _ none => (List.not_mem_nil none).elim
    · exact ⟨fun _ none => (List.not_mem_nil none).elim, fun _ none => (List.not_mem_nil none).elim⟩
    · exact ⟨.nil, fun _ none => (List.not_mem_nil none).elim⟩
  | @wait s _ v _ ih =>
    obtain ⟨sound, before⟩ := ih kept
    have grew : Grew v (System.wait s v) := .fewer rfl rfl (.refl _)
    refine ⟨⟨?_, sound.reachable, sound.stocked.fewer (.refl _) rfl, ?_⟩, before⟩
    · exact sound.ordered.fewer rfl rfl (.refl _) (.refl _)
    · exact sound.labelled.fewer sound.ordered grew sound.labelled.ascending fun _ mem => mem
  | deed d course may follows ih =>
    obtain ⟨sound, before⟩ := ih fun e mem => kept e (List.mem_cons_of_mem _ mem)
    have act := follows.act (handles _ may)
    refine ⟨⟨answer_ordered d.settings d.ask sound.ordered, ?_, ?_, ?_⟩, ?_⟩
    · exact reachable_of_act act sound.ordered sound.reachable
    · exact stocked_of_act act (kept d List.mem_cons_self)
        (fun l mem => (before l (List.mem_filter.mp mem).1).stocked) sound.stocked
    · refine labelled_of_act act (fun l mem => ?_) sound.ordered sound.labelled
      have mem := (List.mem_filter.mp mem).1
      exact ⟨(before l mem).ordered, (before l mem).stocked.mono fun _ _ => trivial,
        course.grew mem, course.grew_after mem⟩
    · exact List.forall_mem_cons.mpr ⟨sound, before⟩

theorem Course.sound_for_all {deeds : List Deed} {w : Server}
    (h : Course rounds Undertaking.Handles deeds w) :
    w.Sound (fun _ => True) ∧ ∀ d ∈ deeds, d.before.Sound fun _ => True :=
  h.sound (fun _ handles => handles) fun _ _ => ⟨fun _ _ => trivial, fun _ _ _ _ => trivial⟩

end Broker

end ClaimQueue
