import ClaimQueue.Proofs.Agreement.Letters

/-! Taking back stale claims. Entries were delivered in the order of their numbers, and at different
times, so the stale ones come first; a broker, which goes by number, and a queue in memory, which
goes by age, take the same. -/

namespace ClaimQueue

namespace Agreement

open Broker Server

variable {rounds : Nat} {policy : RetryPolicy} {around : LocalQueue.Surroundings}
  {taken gone kept : List Taken} {line : List (Nat × Task)} {l : Ledger} {w : Server}
  {q : LocalQueue} {s : Settings} {now : Instant} {idle : Span} {batch : Nat}

/-! Old and young. -/

def Taken.isStale (now : Instant) (idle : Span) (g : Taken) : Bool :=
  LocalQueue.isStale now idle g.claim.2

theorem Taken.isStale_iff {g : Taken} :
    g.isStale now idle = true ↔ Instant.ageLimit idle < now.since g.1.since := decide_eq_true_iff

/-- Where what holds of one holds of all before it, none is left behind the first it fails for. -/
theorem not_of_mem_dropWhile {α : Type} {p : α → Bool} {xs : List α}
    (down : xs.Pairwise fun a b => p b = true → p a = true) {x : α} (mem : x ∈ xs.dropWhile p) :
    p x = false := by
  have down := down.sublist (List.dropWhile_sublist p)
  cases rest : xs.dropWhile p with
  | nil => simp [rest] at mem
  | cons y ys =>
    have first : p y = false := by
      have head := List.head_dropWhile_not p (l := xs) (by simp [rest])
      simpa [rest] using head
    rw [rest] at mem down
    rcases List.mem_cons.mp mem with rfl | mem
    · exact first
    · by_contra holds
      exact absurd ((List.pairwise_cons.mp down).1 x mem (by simpa using holds)) (by simp [first])

/-- The delivered entries are `old ++ young`, and just the old ones are stale. -/
structure Parted (now : Instant) (idle : Span) (old young : List Taken) : Prop where
  old : ∀ g ∈ old, g.isStale now idle = true
  young : ∀ g ∈ young, g.isStale now idle = false

theorem Timed.split (h : Timed taken l) (millis : now.InMillis) (idle : Span) :
    ∃ old young, taken = old ++ young ∧ Parted now idle old young := by
  refine ⟨taken.takeWhile (Taken.isStale now idle), taken.dropWhile (Taken.isStale now idle),
    List.takeWhile_append_dropWhile.symm, fun g mem => List.mem_takeWhile_imp mem,
    fun g mem => not_of_mem_dropWhile ?_ mem⟩
  refine h.since.imp_of_mem fun {a b} ha hb before stale => ?_
  rw [Taken.isStale_iff] at stale ⊢
  rw [Instant.since_eq millis.plain (h.millis a ha).plain]
  rw [Instant.since_eq millis.plain (h.millis b hb).plain] at stale
  omega

/-- No claim is younger than nothing. -/
theorem Timed.age (h : Timed taken l) (millis : now.InMillis)
    (forward : ∀ c, l.clock = some c → 0 ≤ now.since c) {g : Taken} (mem : g ∈ taken) :
    0 ≤ now.since g.1.since := by
  obtain ⟨p, popped, le⟩ := h.popped g mem
  obtain ⟨millisP, c, clock, millisC, le'⟩ := h.clock p popped
  have forward := forward c clock
  rw [Instant.since_eq millis.plain millisC.plain] at forward
  rw [Instant.since_eq millis.plain (h.millis g mem).plain]
  omega

/-- Away from the very threshold, and in whole milliseconds, stale and idle are the same. -/
theorem isIdle_eq_isStale {t : Holding} (ours : w.clock.InMillis) (theirs : t.since.InMillis)
    (age : 0 ≤ w.clock.since t.since) (whole : idle.nanos % 1000000 = 0)
    (off : w.clock.since t.since ≠ idle.nanos) (task : Task) :
    w.isIdle (Calls.wholeMillis idle) t = Taken.isStale w.clock idle (t, task) := by
  obtain ⟨millis, same⟩ := ours.since theirs
  have short := Instant.since_lt_longestAge w.clock t.since
  simp only [Instant.longestAge] at short
  simp only [isIdle, Server.idle, Calls.wholeMillis, Span.millis, Taken.isStale, Taken.claim,
    LocalQueue.isStale, Instant.ageLimit, Instant.longestAge]
  refine decide_eq_decide.mpr ?_
  rw [same] at age short off ⊢
  omega

/-! What is taken on both sides. -/

variable {old young : List Taken}

theorem stale_of_parted (h : Same (old ++ young) line q w) (sound : q.Sound)
    (timed : Timed (old ++ young) l) (parted : Parted now idle old young) (batch : Nat) :
    q.stale now idle batch = (old.take batch).map Taken.claim := by
  have filtered : ((old ++ young).map Taken.claim).filter
      (fun e => LocalQueue.isStale now idle e.2) = old.map Taken.claim := by
    have same : (fun e : String × Claim => LocalQueue.isStale now idle e.2) ∘ Taken.claim =
        Taken.isStale now idle := rfl
    rw [List.filter_map, same, List.filter_append, List.filter_eq_self.mpr parted.old,
      List.filter_eq_nil_iff.mpr fun g mem => Bool.eq_false_iff.mp (parted.young g mem),
      List.append_nil]
  have perm := h.inFlight.filter fun e => LocalQueue.isStale now idle e.2
  rw [filtered] at perm
  have since := (List.pairwise_append.mp timed.since).1
  have sorted : (old.map Taken.claim).Pairwise fun a b =>
      LocalQueue.claimedFirst a b = true := by
    refine List.pairwise_map.mpr (since.imp_of_mem fun {a b} ha hb before => ?_)
    have plain (g : Taken) (mem : g ∈ old) := (timed.millis g (List.mem_append_left _ mem)).plain
    refine LocalQueue.claimedFirst_iff.mpr (.inl ?_)
    show a.1.since.order b.1.since = .lt
    rw [Instant.order_eq (plain a ha) (plain b hb)]
    exact Int.compare_eq_lt.mpr before
  rw [LocalQueue.stale_eq sound.keys_nodup perm.symm sorted, List.map_take]

theorem taken_of_parted (held : w.held = (old ++ young).map Prod.fst)
    (idleness : ∀ g ∈ old ++ young,
      w.isIdle (Calls.wholeMillis idle) g.1 = g.isStale w.clock idle)
    (parted : Parted w.clock idle old young) (consumer : String) (batch : Nat) :
    (w.heard consumer).taken (Calls.wholeMillis idle) batch = (old.take batch).map Prod.fst := by
  rw [List.map_append] at held
  have split : (w.heard consumer).held = old.map Prod.fst ++ young.map Prod.fst := held
  rw [taken_of_split split, List.map_take]
  · refine List.forall_mem_map.mpr fun g mem => ?_
    exact (idleness g (List.mem_append_left _ mem)).trans (parted.old g mem)
  · refine List.forall_mem_map.mpr fun g mem => ?_
    exact (idleness g (List.mem_append_right _ mem)).trans (parted.young g mem)

/-! What is left on both sides. -/

theorem find?_kept (once : ((gone ++ kept).map Taken.id).Nodup) (id : String) :
    (kept.find? fun g => g.id == id) =
      if id ∈ gone.map Taken.id then none else (gone ++ kept).find? fun g => g.id == id := by
  rw [List.map_append, List.nodup_append] at once
  split
  · rename_i here
    refine List.find?_eq_none.mpr fun g mem own => ?_
    exact once.2.2 id here g.id (List.mem_map_of_mem mem) (beq_iff_eq.mp own).symm
  · rename_i absent
    have none : (gone.find? fun g => g.id == id) = none := by
      refine List.find?_eq_none.mpr fun g mem own => absent ?_
      rw [← beq_iff_eq.mp own]
      exact List.mem_map_of_mem mem
    rw [List.find?_append, none, Option.none_or]

theorem filter_not_append {α : Type} {out : α → Bool} {front rest : List α}
    (all : ∀ x ∈ front, out x = true) (none : ∀ x ∈ rest, out x = false) :
    (front ++ rest).filter (fun x => !out x) = rest := by
  rw [List.filter_append, List.filter_eq_nil_iff.mpr fun x mem => by simp [all x mem],
    List.filter_eq_self.mpr fun x mem => by simp [none x mem], List.nil_append]

theorem filter_behind {α : Type} (number : α → Nat) {front rest : List α}
    (ascending : ((front ++ rest).map number).Pairwise (· < ·)) (gone : List (Nat × Task))
    (numbers : front.map number = gone.map Prod.fst) :
    (front ++ rest).filter (fun x => !(gone.any fun g => g.1 == number x)) = rest := by
  have any (x : α) : (gone.any fun g => g.1 == number x) = true ↔
      number x ∈ front.map number := by
    rw [numbers]
    simp only [List.any_eq_true, List.mem_map, beq_iff_eq]
  rw [List.map_append, List.pairwise_append] at ascending
  refine filter_not_append (fun x mem => (any x).mpr (List.mem_map_of_mem mem)) fun x mem => ?_
  refine Bool.eq_false_iff.mpr fun among => ?_
  exact Nat.lt_irrefl _ (ascending.2.2 _ ((any x).mp among) _ (List.mem_map_of_mem mem))

/-- The entries as they are when taken over: all the client's, for a moment. -/
theorem Laid.held_between (h : Laid (gone ++ kept) line w) {millis : Nat}
    (taken : (w.heard s.consumer).taken millis batch = gone.map Prod.fst) :
    (w.takeOver s millis batch).2.held =
      (gone.map fun g => ⟨g.number, s.consumer, w.clock⟩) ++ kept.map Prod.fst := by
  have numbers := h.numbers.1
  rw [List.map_append, List.pairwise_append] at numbers
  rw [held_after_takeOver taken fun g mem => h.find? (List.mem_append_left _ mem), h.held,
    List.map_append, List.map_append, List.map_map]
  congr 1
  · refine List.map_congr_left fun g mem => ?_
    exact if_pos (List.mem_map_of_mem mem)
  · refine (List.map_congr_left ?_).trans (List.map_id _)
    refine List.forall_mem_map.mpr fun g mem => if_neg fun among => ?_
    obtain ⟨f, mem', same⟩ := List.mem_map.mp among
    have less := numbers.2.2 (Taken.number f) (List.mem_map_of_mem mem') (Taken.number g)
      (List.mem_map_of_mem mem)
    rw [Taken.number, same] at less
    exact Nat.lt_irrefl _ less

theorem Laid.tookBack {fresh : List (Nat × Task)} {u v : Server}
    (h : Laid (gone ++ kept) line w) (once : ((gone ++ kept).map Taken.id).Nodup)
    (entries : u.entries = w.entries) (claims : u.claims = w.claims)
    (delivered : u.delivered = w.delivered) (newest : u.newest = w.newest)
    (held : u.held = (gone.map fun g => ⟨g.number, s.consumer, w.clock⟩) ++ kept.map Prod.fst)
    (back : TookBack s (gone.map fun g => (g.number, g.2)) fresh u v) (ordered : v.Ordered) :
    Laid kept (line ++ fresh) v where
  entries := by
    have split : u.entries =
        gone.map Taken.entry ++ (kept.map Taken.entry ++ line.map written) := by
      rw [entries, h.entries, List.map_append, List.append_assoc]
    have ascending := h.ordered.ascending
    rw [← entries, split] at ascending
    have left := filter_behind Prod.fst ascending (gone.map fun g => (g.number, g.2))
      (by rw [List.map_map, List.map_map]; rfl)
    rw [back.entries, split, left, List.append_assoc, List.map_append]
  held := by
    have numbers := h.numbers.1
    rw [List.map_append] at numbers
    rw [back.held, held]
    refine filter_behind Holding.entry ?_ _ (by rw [List.map_map, List.map_map]; rfl)
    rw [List.map_append, List.map_map, List.map_map]
    exact numbers
  ordered := ordered
  waiting e mem := by
    rw [back.delivered, delivered]
    rcases List.mem_append.mp mem with mem | mem
    · exact h.waiting e mem
    · exact Nat.lt_of_le_of_lt h.ordered.delivered (newest ▸ back.newer e mem)
  claims id := by
    rw [back.claims, claims, h.claims, find?_kept once, List.map_map]
    show (if id ∈ gone.map Taken.id then none else _) = _
    split <;> rfl
  ascending := back.ascending

theorem inFlight_kept (perm : ((gone ++ kept).map Taken.claim).Perm q.inFlight)
    (once : ((gone ++ kept).map Taken.id).Nodup) :
    (kept.map Taken.claim).Perm
      (q.inFlight.filter fun e => !((gone.map Taken.claim).any fun f => f.1 == e.1)) := by
  have any (g : Taken) : ((gone.map Taken.claim).any fun f => f.1 == g.claim.1) = true ↔
      g.id ∈ gone.map Taken.id := by
    rw [List.any_map]
    simp only [List.any_eq_true, List.mem_map, Function.comp_apply, beq_iff_eq]
    rfl
  rw [List.map_append, List.nodup_append] at once
  refine List.Perm.trans (.of_eq ?_) (perm.filter _)
  have left : (gone ++ kept).filter
      (fun g => !((gone.map Taken.claim).any fun f => f.1 == g.claim.1)) = kept := by
    refine filter_not_append (fun g mem => (any g).mpr (List.mem_map_of_mem mem)) fun g mem => ?_
    refine Bool.eq_false_iff.mpr fun among => ?_
    exact once.2.2 g.id ((any g).mp among) g.id (List.mem_map_of_mem mem) rfl
  rw [List.filter_map]
  exact congrArg (List.map Taken.claim) left.symm

/-! The call. -/

theorem run_reclaim (rounds : Nat) (clock : Instant) (idle : Span) (batch : Nat) (q : LocalQueue) :
    (LocalQueue.answer rounds (.reclaim idle batch)).run (surroundings policy clock around) q =
      (some (.ok (q.reclaim policy clock idle batch).1),
        (q.reclaim policy clock idle batch).2) := by
  have rung : (LocalQueue.ringTimes (q.reclaim policy clock idle batch).1).run
      (surroundings policy clock around) (q.reclaim policy clock idle batch).2 = _ :=
    run_ringTimes clock _ _
  exact Program.run_bind_of_some (Program.run_bind_of_some rung)

/-- Taking nothing back changes nothing. -/
theorem reclaim_nothing (policy : RetryPolicy) (now : Instant) (idle : Span) (q : LocalQueue) :
    q.reclaim policy now idle 0 = (0, q) := by
  simp [LocalQueue.reclaim, LocalQueue.stale]

theorem reclaim_eq (policy : RetryPolicy) (gone : List Taken)
    (stale : q.stale now idle batch = gone.map Taken.claim) :
    q.reclaim policy now idle batch = ((again policy (gone.map Prod.snd)).length, { q with
      pending := q.pending ++ again policy (gone.map Prod.snd)
      inFlight := q.inFlight.filter fun e => !((gone.map Taken.claim).any fun f => f.1 == e.1)
      dead := q.dead ++
        (spent policy (gone.map Prod.snd)).map (LocalQueue.letter policy now) }) := by
  have bumped : (gone.map Taken.claim).map (fun e => e.2.task.bumped) =
      (gone.map Prod.snd).map Task.bumped := by
    rw [List.map_map, List.map_map]
    rfl
  simp only [LocalQueue.reclaim, stale, bumped, again, spent]

/-- What the broker takes back: `gone`, the first it delivered. -/
theorem Laid.gives_reclaim (h : Laid (gone ++ kept) line w)
    (once : ((gone ++ kept).map Taken.id).Nodup) (fine : ∀ g ∈ gone, Sendable g.2)
    (taken : (w.heard s.consumer).taken (Calls.wholeMillis idle) batch = gone.map Prod.fst)
    (some : batch ≠ 0) : ∃ fresh v,
      Job.Gives s w (Calls.reclaim s idle batch) (again s.retry (gone.map Prod.snd)).length v ∧
      Laid kept (line ++ fresh) v ∧ fresh.map Prod.snd = again s.retry (gone.map Prod.snd) ∧
      v.dead = bodies ((spent s.retry (gone.map Prod.snd)).map
        (LocalQueue.letter s.retry w.clock)).reverse ++ w.dead ∧ v.results = w.results := by
  have gives := Broker.gives_reclaim some (fun g mem => (fine g mem).faithful) taken
    (fun g mem => h.find? (List.mem_append_left _ mem))
  have old : ∀ e ∈ gone.map fun g => (g.1.entry, g.2), e.1 ≤ w.newest :=
    List.forall_mem_map.mpr fun g mem =>
      Nat.le_trans (h.old (List.mem_append_left _ mem)) h.ordered.delivered
  have held := h.held_between taken
  let u := (w.takeOver s (Calls.wholeMillis idle) batch).2
  obtain ⟨fresh, back⟩ := tookBack_all s (w := u) old h.ascending
  have ordered := Job.run_ordered (p := (Calls.reclaim s idle batch).run) s h.ordered
  rw [gives] at ordered
  have tasks : (gone.map fun g => (g.1.entry, g.2)).map Prod.snd = gone.map Prod.snd :=
    List.map_map
  have again := back.tasks
  have dead := back.dead
  rw [tasks] at again dead
  exact ⟨fresh, _, gives, h.tookBack (u := u) once rfl rfl rfl rfl held back ordered, again, dead,
    back.results⟩

theorem agrees_reclaim {clock : Instant} (h : Mirrors taken line l w)
    (proper : l.Proper policy ⟨s, clock, .call (.reclaim idle batch)⟩) :
    Agrees rounds policy around l w ⟨s, clock, .call (.reclaim idle batch)⟩ := by
  obtain ⟨whole, off⟩ := proper.admits
  have laid := h.laid.at clock
  have memory : Turn.inMemory rounds policy around ⟨s, clock, .call (.reclaim idle batch)⟩
      l.queue = (some (.ok (l.queue.reclaim policy clock idle batch).1), _) :=
    run_reclaim rounds clock idle batch l.queue
  by_cases nothing : batch = 0
  · subst nothing
    rw [reclaim_nothing] at memory
    exact agrees_of h proper rfl 0 0 memory (by rfl) rfl (.refl _) laid (h.same.at clock) h.fine
  have fine := h.fine.perform_old policy clock (.reclaim clock idle batch) (by simp) (by simp)
  obtain ⟨old, young, rfl, parted⟩ := h.timed.split proper.clock idle
  have stale := stale_of_parted h.same h.fine.sound h.timed parted batch
  have idleness : ∀ g ∈ old ++ young,
      { w with clock }.isIdle (Calls.wholeMillis idle) g.1 = g.isStale clock idle := fun g mem => by
    have age := h.timed.age proper.clock proper.forward mem
    have claim : g.claim ∈ l.queue.inFlight :=
      h.same.inFlight.mem_iff.mp (List.mem_map_of_mem mem)
    exact isIdle_eq_isStale (w := { w with clock }) proper.clock (h.timed.millis g mem) age whole
      (off g.claim claim) g.2
  have taken := taken_of_parted laid.held idleness parted s.consumer batch
  -- The old ones that are taken back are `gone`, all others are `kept`.
  have together : old ++ young = old.take batch ++ (old.drop batch ++ young) := by
    rw [← List.append_assoc, List.take_append_drop]
  generalize old.take batch = gone at stale taken together
  generalize old.drop batch ++ young = kept at together
  have once := h.same.ids_nodup h.fine.sound
  have inFlight := h.same.inFlight
  rw [together] at laid once inFlight h
  have sendable : ∀ g ∈ gone, Sendable g.2 := fun g mem => by
    have claim : g.claim ∈ l.queue.inFlight :=
      inFlight.mem_iff.mp (List.mem_map_of_mem (List.mem_append_left kept mem))
    exact h.fine.sendable g.2 (List.mem_append_left _ (List.mem_append_right _
      (List.mem_map.mpr ⟨g.claim, claim, rfl⟩)))
  obtain ⟨fresh, v, gives, laid', tasks, dead, results⟩ :=
    laid.gives_reclaim once sendable taken nothing
  have reclaimed := reclaim_eq policy gone stale
  have perform : (Access.perform policy clock l.queue (.reclaim clock idle batch)).2 = _ :=
    congrArg Prod.snd reclaimed
  rw [perform] at fine
  rw [reclaimed] at memory
  rw [proper.retry] at gives tasks dead
  refine agrees_of h proper rfl _ _ memory gives rfl (List.sublist_append_right _ _) laid'
    ⟨inFlight_kept inFlight once, ?_, ?_, results.trans h.same.results⟩ fine
  · rw [List.map_append, h.same.pending, tasks]
  · rw [dead, h.same.dead, List.reverse_append]
    exact List.map_append.symm

end Agreement

end ClaimQueue
