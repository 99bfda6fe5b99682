import ClaimQueue.Proofs.Agreement.Turns
import ClaimQueue.Proofs.Broker.TakingBack

/-! How a broker and a queue in memory correspond. The stream is the delivered entries, each held by
a consumer and on record as its claim, and after them the line of those that wait. Taken apart in
this way, each change of the one shows at once what must change in the other. -/

namespace ClaimQueue

namespace Agreement

open Broker Server

/-- A task that comes back from the broker as it was sent, even as a dead letter. -/
structure Sendable (t : Task) : Prop where
  known : t.schemaVersion ≤ Task.supportedSchema
  plain : t.Plain Ledger.levels

theorem Sendable.faithful {t : Task} (h : Sendable t) : Faithful t :=
  Task.ofBytes_of_plain (h.plain.mono (Nat.sub_le _ _)) h.known

theorem Sendable.bumped {t : Task} (h : Sendable t) : Sendable t.bumped :=
  ⟨h.known, h.plain.bumped⟩

/-! What the queue in memory may hold. -/

structure Fine (q : LocalQueue) : Prop where
  sound : q.Sound
  sendable : ∀ t ∈ q.tasks, Sendable t
  saved : ∀ e ∈ q.results, e.2.Plain Ledger.levels

theorem fine_empty : Fine {} :=
  ⟨LocalQueue.sound_empty, fun _ none => (List.not_mem_nil none).elim,
    fun _ none => (List.not_mem_nil none).elim⟩

theorem results_perform (policy : RetryPolicy) (clock : Instant) (q : LocalQueue) (a : Access) :
    (a.perform policy clock q).2.results = q.results ∨
      ∃ r, a = .save r ∧ (a.perform policy clock q).2.results = q.results.put r.taskId r := by
  have accepted (r : Option LocalQueue) (same : ∀ v, r = some v → v.results = q.results) :
      (Access.accepted q r).2.results = q.results := by
    cases r with
    | none => rfl
    | some v => exact same v rfl
  cases a with
  | save r => exact .inr ⟨r, rfl, rfl⟩
  | enqueue t =>
    refine .inl (accepted _ fun v done => ?_)
    simp only [LocalQueue.enqueue?] at done
    split at done
    · cases done
    · cases done
      rfl
  | take =>
    refine .inl ?_
    cases pending : q.pending with
    | nil => simp [Access.perform, LocalQueue.take?, pending]
    | cons t rest => simp [Access.perform, LocalQueue.take?, pending]
  | release id =>
    refine .inl (accepted _ fun v done => ?_)
    obtain ⟨c, -, rfl⟩ := Option.map_eq_some_iff.mp done
    rfl
  | replay id =>
    refine .inl (accepted _ fun v done => ?_)
    obtain ⟨d, -, rfl⟩ := Option.map_eq_some_iff.mp done
    rfl
  | discard id =>
    refine .inl (accepted _ fun v done => ?_)
    simp only [LocalQueue.discard?] at done
    split at done
    · cases done
      rfl
    · cases done
  | ack | reclaim | counts | deadLetters | result | resultIds => exact .inl rfl

/-- Whatever is done to it, as long as what is new is fine. -/
theorem Fine.perform {q : LocalQueue} (h : Fine q) (policy : RetryPolicy) (clock : Instant)
    (a : Access) (enqueued : ∀ t, a = .enqueue t → Sendable t)
    (saved : ∀ r, a = .save r → r.Plain Ledger.levels) : Fine (a.perform policy clock q).2 := by
  let d : LocalQueue.Deed := ⟨0, 0, a, clock, q⟩
  have after : (a.perform policy clock q).2 = d.after policy := rfl
  refine ⟨after ▸ d.after_sound policy h.sound, fun t mem => ?_, fun e mem => ?_⟩
  · rw [after] at mem
    cases d.change policy h.sound with
    | kept taken change =>
      obtain ⟨rest, before, after⟩ := change
      rcases List.mem_append.mp (after.mem_iff.mp mem) with mem | mem
      · obtain ⟨u, among, rfl⟩ := List.mem_map.mp mem
        exact (h.sendable u (before.mem_iff.mpr (List.mem_append_left _ among))).bumped
      · exact h.sendable t (before.mem_iff.mpr (List.mem_append_right _ mem))
    | accepted u accepts change =>
      obtain ⟨rest, before, after⟩ := change
      rcases List.mem_cons.mp (after.mem_iff.mp mem) with rfl | mem
      · exact enqueued t accepts.1
      · exact h.sendable t (before.mem_iff.mpr mem)
    | removed id gone removes own change => exact h.sendable t (change.subset t mem)
  · rcases results_perform policy clock q a with same | ⟨r, rfl, same⟩
    · exact h.saved e (same ▸ mem)
    · rcases Index.mem_put (same ▸ mem) with rfl | mem
      · exact saved r rfl
      · exact h.saved e mem

/-- What brings in no task and no result. -/
theorem Fine.perform_old {q : LocalQueue} (h : Fine q) (policy : RetryPolicy) (clock : Instant)
    (a : Access) (task : ∀ t, a ≠ .enqueue t) (result : ∀ r, a ≠ .save r) :
    Fine (a.perform policy clock q).2 :=
  h.perform policy clock a (fun t same => absurd same (task t))
    fun r same => absurd same (result r)

/-! The two sides. -/

/-- An entry that was delivered, with its task. -/
abbrev Taken := Holding × Task

namespace Taken

def number (g : Taken) : Nat := g.1.entry

def entry (g : Taken) : Nat × Option (List UInt8) := written (g.number, g.2)

def id (g : Taken) : String := g.2.id

def claim (g : Taken) : String × Claim := (g.id, ⟨g.2, g.1.since⟩)

/-- Its claim as the broker records it. -/
def record (g : Taken) : String := claimValue (entryId g.number) g.1.consumer

end Taken

structure Laid (taken : List Taken) (line : List (Nat × Task)) (w : Server) : Prop where
  entries : w.entries = taken.map Taken.entry ++ line.map written
  held : w.held = taken.map Prod.fst
  ordered : w.Ordered
  waiting : ∀ e ∈ line, w.delivered < e.1
  claims : ∀ id, Index.find? id w.claims = (taken.find? fun g => g.id == id).map Taken.record
  ascending : Index.Ascending w.claims

structure Same (taken : List Taken) (line : List (Nat × Task)) (q : LocalQueue) (w : Server) :
    Prop where
  inFlight : (taken.map Taken.claim).Perm q.inFlight
  pending : line.map Prod.snd = q.pending
  dead : w.dead = bodies q.dead.reverse
  results : w.results = q.results.map fun e => (e.1, Text.Utf8.bytes e.2.encoded)

/-- Entries were delivered at different times, the older ones first, and lately at the last pop. -/
structure Timed (taken : List Taken) (l : Ledger) : Prop where
  millis : ∀ g ∈ taken, g.1.since.InMillis
  since : taken.Pairwise fun a b => a.1.since.nanos < b.1.since.nanos
  popped : ∀ g ∈ taken, ∃ p, l.popped = some p ∧ g.1.since.nanos ≤ p.nanos
  clock : ∀ p, l.popped = some p →
    p.InMillis ∧ ∃ c, l.clock = some c ∧ c.InMillis ∧ p.nanos ≤ c.nanos
  holders : ∀ g ∈ taken, l.holders.find? g.id = some g.1.consumer

structure Mirrors (taken : List Taken) (line : List (Nat × Task)) (l : Ledger) (w : Server) :
    Prop where
  laid : Laid taken line w
  same : Same taken line l.queue w
  fine : Fine l.queue
  timed : Timed taken l

theorem mirrors_empty (clock : Instant) : Mirrors [] [] {} { grouped := true, clock } where
  laid := ⟨rfl, rfl, ordered_empty clock, fun _ none => (List.not_mem_nil none).elim,
    fun _ => rfl, .nil⟩
  same := ⟨.refl _, rfl, rfl, rfl⟩
  fine := fine_empty
  timed := ⟨fun _ none => (List.not_mem_nil none).elim, .nil,
    fun _ none => (List.not_mem_nil none).elim, (fun _ none => absurd none (by simp)),
    fun _ none => (List.not_mem_nil none).elim⟩

section

variable {taken before after : List Taken} {line : List (Nat × Task)} {q : LocalQueue} {w : Server}
  {l : Ledger} {g : Taken}

/-! Numbers and ids. -/

theorem Laid.numbers (h : Laid taken line w) :
    (taken.map Taken.number).Pairwise (· < ·) ∧ (line.map Prod.fst).Pairwise (· < ·) := by
  have ascending := h.ordered.ascending
  rw [h.entries, List.map_append, List.map_map, List.map_map, List.pairwise_append] at ascending
  exact ⟨ascending.1, ascending.2.1⟩

theorem Laid.old (h : Laid taken line w) (mem : g ∈ taken) : g.number ≤ w.delivered :=
  h.ordered.held g.1 (h.held ▸ List.mem_map_of_mem mem)

theorem Laid.waiting_eq (h : Laid taken line w) : w.waiting = line.map written := by
  have old : (taken.map Taken.entry).filter (fun e => decide (w.delivered < e.1)) = [] := by
    refine List.filter_eq_nil_iff.mpr fun e mem => ?_
    obtain ⟨g, among, rfl⟩ := List.mem_map.mp mem
    have old := h.old among
    exact fun new => Nat.not_lt.mpr old (of_decide_eq_true new)
  have new : (line.map written).filter (fun e => decide (w.delivered < e.1)) =
      line.map written := by
    refine List.filter_eq_self.mpr fun e mem => ?_
    obtain ⟨e, among, rfl⟩ := List.mem_map.mp mem
    exact decide_eq_true (h.waiting e among)
  rw [Server.waiting, h.entries, List.filter_append, old, new, List.nil_append]

theorem Same.ids_nodup (h : Same taken line q w) (sound : q.Sound) :
    (taken.map Taken.id).Nodup := by
  have keys := (h.inFlight.map Prod.fst).nodup_iff.mpr sound.keys_nodup
  rwa [List.map_map] at keys

/-- The entry of a claim, as the stream has it. -/
theorem Laid.find? (h : Laid taken line w) (mem : g ∈ taken) :
    w.find? g.number = some g.entry := by
  have there : g.entry ∈ w.entries := by
    rw [h.entries]
    exact List.mem_append_left _ (List.mem_map_of_mem mem)
  obtain ⟨e, found⟩ := Option.isSome_iff_exists.mp
    (List.find?_isSome.mpr ⟨g.entry, there, beq_self_eq_true _⟩ :
      (w.entries.find? fun e => e.1 == g.number).isSome)
  obtain ⟨mem', number⟩ := mem_of_find? found
  rw [← eq_of_number h.ordered.ascending mem' there number]
  exact found

theorem Laid.lookUp (h : Laid taken line w) (mem : g ∈ taken) :
    (w.entries.filter fun e => entryId e.1 == entryId g.number).head? = some g.entry := by
  have same : (fun e : Nat × Option (List UInt8) => entryId e.1 == entryId g.number) =
      fun e => e.1 == g.number := by
    funext e
    simp [beq_eq_decide]
  rw [same, List.head?_filter]
  exact h.find? mem

/-! Claims. -/

theorem find?_append_of_split (once : (taken.map Taken.id).Nodup)
    (split : taken = before ++ g :: after) (id : String) :
    ((before ++ after).find? fun g => g.id == id) =
      if id = g.id then none else taken.find? fun g => g.id == id := by
  subst split
  rw [List.map_append, List.map_cons, List.nodup_append, List.nodup_cons] at once
  split
  · rename_i same
    subst same
    refine List.find?_eq_none.mpr fun f mem => ?_
    simp only [beq_iff_eq]
    intro same
    rcases List.mem_append.mp mem with mem | mem
    · exact once.2.2 f.id (List.mem_map_of_mem mem) g.id List.mem_cons_self same
    · exact once.2.1.1 (same ▸ List.mem_map_of_mem mem)
  · rename_i other
    have no : (g.id == id) = false := by simpa using Ne.symm other
    rw [List.find?_append, List.find?_append, List.find?_cons, no]

theorem Same.find?_of_mem (h : Same taken line q w) (sound : q.Sound) (mem : g ∈ taken) :
    q.inFlight.find? g.id = some g.claim.2 := by
  have claim := h.inFlight.mem_iff.mp (List.mem_map_of_mem mem)
  cases there : q.inFlight.find? g.id with
  | none => exact absurd (List.mem_map_of_mem claim) (Index.find?_eq_none.mp there)
  | some c =>
    have one : (g.id, c) = g.claim :=
      List.inj_on_of_nodup_map sound.keys_nodup (Index.mem_of_find? there) claim rfl
    exact congrArg (some ·.2) one

theorem Same.find?_inFlight (h : Same taken line q w) (sound : q.Sound) (id : String) :
    q.inFlight.find? id = (taken.find? fun g => g.id == id).map fun g => g.claim.2 := by
  cases found : taken.find? fun g => g.id == id with
  | none =>
    refine Index.find?_eq_none.mpr fun mem => ?_
    obtain ⟨e, held, same⟩ := List.mem_map.mp mem
    obtain ⟨g, among, rfl⟩ := List.mem_map.mp (h.inFlight.mem_iff.mpr held)
    exact List.find?_eq_none.mp found g among (beq_iff_eq.mpr same)
  | some g =>
    have own : g.id = id := by simpa using List.find?_some found
    exact own ▸ h.find?_of_mem sound (List.mem_of_find?_eq_some found)

/-! Changes on both sides. -/

theorem filter_of_split {α : Type} (number : α → Nat) {xs before after : List α} {x : α}
    (ascending : (xs.map number).Pairwise (· < ·)) (split : xs = before ++ x :: after) :
    xs.filter (fun y => number y != number x) = before ++ after := by
  subst split
  rw [List.map_append, List.map_cons, List.pairwise_append, List.pairwise_cons] at ascending
  have less : ∀ y ∈ before, (number y != number x) = true := fun y mem =>
    bne_iff_ne.mpr (Nat.ne_of_lt
      (ascending.2.2 _ (List.mem_map_of_mem mem) _ List.mem_cons_self))
  have more : ∀ y ∈ after, (number y != number x) = true := fun y mem =>
    bne_iff_ne.mpr (Nat.ne_of_gt (ascending.2.1.1 _ (List.mem_map_of_mem mem)))
  rw [List.filter_append, List.filter_cons_of_neg (by simp), List.filter_eq_self.mpr less,
    List.filter_eq_self.mpr more]

theorem Laid.append (h : Laid taken line w) (t : Task) :
    Laid taken (line ++ [(w.newest + 1, t)]) (w.append (some (Text.Utf8.bytes t.encoded))) where
  entries := by
    rw [Server.append, h.entries, List.map_append, List.append_assoc]
    rfl
  held := h.held
  ordered := ordered_append h.ordered _
  waiting e mem := by
    rcases List.mem_append.mp mem with mem | mem
    · exact h.waiting e mem
    · rw [List.mem_singleton.mp mem]
      exact Nat.lt_succ_of_le h.ordered.delivered
  claims := h.claims
  ascending := h.ascending

/-- An entry goes, and with it its claim. -/
theorem Laid.remove (h : Laid taken line w) (once : (taken.map Taken.id).Nodup)
    (split : taken = before ++ g :: after) :
    Laid (before ++ after) line ((w.without (entryId g.number)).unclaimed (some g.id)) where
  entries := by
    have parts : w.entries = before.map Taken.entry ++
        g.entry :: (after.map Taken.entry ++ line.map written) := by
      rw [h.entries, split, List.map_append, List.map_cons, List.append_assoc, List.cons_append]
    rw [unclaimed_entries, without_entries, List.map_append, List.append_assoc]
    exact filter_of_split Prod.fst h.ordered.ascending parts
  held := by
    have parts : w.held = before.map Prod.fst ++ g.1 :: after.map Prod.fst := by
      rw [h.held, split, List.map_append, List.map_cons]
    have ascending : (w.held.map Holding.entry).Pairwise (· < ·) := by
      rw [h.held, List.map_map]
      exact h.numbers.1
    rw [unclaimed_held, without_held, List.map_append]
    exact filter_of_split Holding.entry ascending parts
  ordered := h.ordered.fewer rfl rfl List.filter_sublist List.filter_sublist
  waiting := h.waiting
  claims id := by
    rw [find?_append_of_split once split id]
    show Index.find? id (Index.erase g.id w.claims) = _
    split
    · rename_i same
      rw [same, Index.find?_erase_self h.ascending]
      rfl
    · rename_i other
      rw [Index.find?_erase_of_ne (Ne.symm other), h.claims]
  ascending := Index.erase_ascending _ h.ascending

theorem Same.erase_perm (h : Same taken line q w) (sound : q.Sound)
    (split : taken = before ++ g :: after) :
    ((before ++ after).map Taken.claim).Perm (q.inFlight.erase g.id) := by
  have found := h.find?_of_mem sound (split ▸ List.mem_append_right _ List.mem_cons_self)
  have whole : (g.claim :: (before ++ after).map Taken.claim).Perm
      (g.claim :: q.inFlight.erase g.id) := by
    refine List.Perm.trans ?_ (h.inFlight.trans (Index.erase_perm found))
    rw [split, List.map_append, List.map_append, List.map_cons]
    exact List.perm_middle.symm
  exact whole.cons_inv

/-- A later call that pops nothing. -/
theorem Timed.later (h : Timed taken l) {fewer : List Taken} (sub : fewer.Sublist taken)
    {l' : Ledger} {now : Instant} (millis : now.InMillis)
    (forward : ∀ c, l.clock = some c → 0 ≤ now.since c) (clock : l'.clock = some now)
    (popped : l'.popped = l.popped) (holders : l'.holders = l.holders) : Timed fewer l' where
  millis g mem := h.millis g (sub.subset mem)
  since := h.since.sublist sub
  popped g mem := popped ▸ h.popped g (sub.subset mem)
  clock p last := by
    obtain ⟨millis', c, before, millis'', le⟩ := h.clock p (popped ▸ last)
    have forward := forward c before
    rw [Instant.since_eq millis.plain millis''.plain] at forward
    exact ⟨millis', now, clock, millis, by omega⟩
  holders g mem := holders ▸ h.holders g (sub.subset mem)

/-! What the correspondence means. -/

theorem Sendable.task_seen {e : Nat × Task} (h : Sendable e.2) :
    (seen (written e)).task = .ok e.2 := h.faithful

theorem Sendable.letter_read {d : DeadLetter} (h : Sendable d.task) :
    DeadLetter.decoder.ofBytes (Text.Utf8.bytes d.encoded) = .ok d := by
  rw [Json.Decoder.ofBytes_bytes, DeadLetter.ofText_encoded h.plain]

theorem decodes_of (laid : Laid taken line w) (same : Same taken line q w) (fine : Fine q) :
    Decodes w q where
  pending := by
    rw [laid.waiting_eq, ← same.pending, List.map_map, List.map_map]
    refine List.map_congr_left fun e mem => ?_
    have pending : e.2 ∈ q.pending := by
      rw [← same.pending]
      exact List.mem_map_of_mem mem
    have sendable := fine.sendable e.2 (List.mem_append_left _ (List.mem_append_left _ pending))
    have task : (seen (written e)).task = .ok e.2 := sendable.task_seen
    simp only [Function.comp_apply, task]
  inFlight := by
    refine List.Perm.trans (.of_eq ?_) (same.inFlight.map _)
    rw [laid.held, List.map_map, List.map_map]
    refine List.map_congr_left fun (g : Taken) mem => ?_
    have held : g.2 ∈ q.inFlight.map (·.2.task) :=
      List.mem_map.mpr ⟨g.claim, same.inFlight.mem_iff.mp (List.mem_map_of_mem mem), rfl⟩
    have sendable := fine.sendable g.2 (List.mem_append_left _ (List.mem_append_right _ held))
    have found : w.find? g.1.entry = some g.entry := laid.find? mem
    have task : (seen g.entry).task = .ok g.2 := sendable.task_seen
    simp only [Function.comp_apply, found, Option.map_some, task]
    rfl
  dead := by
    rw [same.dead, bodies, List.map_map]
    refine List.map_congr_left fun d mem => ?_
    have dead : d.task ∈ q.dead.map (·.task) := List.mem_map_of_mem (List.mem_reverse.mp mem)
    exact (fine.sendable d.task (List.mem_append_right _ dead)).letter_read
  results := by
    rw [same.results, List.map_map]
    refine List.map_congr_left fun e mem => ?_
    have saved := fine.saved e mem
    have plain : e.2.Plain Json.maxNesting :=
      ⟨saved.data, Nat.le_trans saved.nesting (Nat.sub_le _ _)⟩
    simp only [Function.comp_apply, TaskResult.ofBytes_encoded plain]

end

end Agreement

end ClaimQueue
