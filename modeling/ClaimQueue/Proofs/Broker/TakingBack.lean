import ClaimQueue.Proofs.Broker.Answers
import ClaimQueue.Proofs.Local.Attempts

/-! Taking idle entries back when nobody else comes in between. They are taken over together and
then handled one by one; what matters in the end is which are gone, and what came in their place. -/

namespace ClaimQueue

namespace Broker

open Server Job

variable {s : Settings} {w : Server}

/-- An entry with a task in it. -/
def written (e : Nat × Task) : Nat × Option (List UInt8) :=
  (e.1, some (Text.Utf8.bytes e.2.encoded))

namespace Server

theorem without_entries (n : Nat) (w : Server) :
    (w.without (entryId n)).entries = w.entries.filter fun e => e.1 != n := by
  simp [without, bne, entryId_inj, beq_eq_decide]

theorem without_held (n : Nat) (w : Server) :
    (w.without (entryId n)).held = w.held.filter fun h => h.entry != n := by
  simp [without, bne, entryId_inj, beq_eq_decide]

/-- The task is moved on, and its entry and claim are gone. -/
def takenBack (s : Settings) (e : Nat × Task) (w : Server) : Server :=
  ((w.performAll s [Calls.moved s w.clock e.2.bumped]).2.without (entryId e.1)).unclaimed
    (some e.2.id)

end Server

theorem gives_takeBack {e : Nat × Task} (fine : Faithful e.2) :
    Gives s w (Calls.takeBack s (seen (written e)))
      (s.retry.decide e.2.bumped.attempts == .retry) (w.takenBack s e) := by
  have task : (seen (written e)).task = .ok e.2 := fine
  have moves : ∀ c ∈ [Calls.moved s w.clock e.2.bumped], ∀ w : Server,
      ∃ r, (w.perform s c).1 = .ok r := by
    intro c mem w
    rw [List.mem_singleton.mp mem, Calls.moved]
    split
    · exact ⟨_, rfl⟩
    · exact ⟨_, rfl⟩
  have moved : Gives s w (transact (handling [Calls.moved s w.clock e.2.bumped] (entryId e.1)
      (some e.2.id))) () (w.takenBack s e) := gives_handling _ _ moves
  simp only [Calls.takeBack, task]
  exact (gives_lift .clock).bind (moved.bind (gives_pure _))

/-- The tasks that go back to pending, of those taken back. -/
def again (p : RetryPolicy) (tasks : List Task) : List Task :=
  (tasks.map Task.bumped).filter fun t => p.decide t.attempts == .retry

def spent (p : RetryPolicy) (tasks : List Task) : List Task :=
  (tasks.map Task.bumped).filter fun t => p.decide t.attempts == .deadLetter

theorem gives_takeBackAll {gone : List (Nat × Task)} (fine : ∀ e ∈ gone, Faithful e.2) :
    Gives s w (Calls.takeBackAll s (gone.map fun e => seen (written e)))
      (again s.retry (gone.map Prod.snd)).length (gone.foldl (fun w e => w.takenBack s e) w) := by
  induction gone generalizing w with
  | nil => exact gives_pure 0
  | cons e gone ih =>
    rw [List.forall_mem_cons] at fine
    have count : (again s.retry ((e :: gone).map Prod.snd)).length =
        if s.retry.decide e.2.bumped.attempts == .retry then
          (again s.retry (gone.map Prod.snd)).length + 1
        else (again s.retry (gone.map Prod.snd)).length := by
      simp only [again, List.map_cons, List.filter_cons]
      split <;> rfl
    rw [count]
    exact (gives_takeBack fine.1).bind ((ih fine.2).bind (gives_pure _))

/-! What is left when all are taken back. -/

/-- From `w` to `v` the entries `gone` were taken back. -/
structure TookBack (s : Settings) (gone fresh : List (Nat × Task)) (w v : Server) : Prop where
  tasks : fresh.map Prod.snd = again s.retry (gone.map Prod.snd)
  newer : ∀ e ∈ fresh, w.newest < e.1
  entries : v.entries =
    (w.entries.filter fun e => !(gone.any fun g => g.1 == e.1)) ++ fresh.map written
  held : v.held = w.held.filter fun h => !(gone.any fun g => g.1 == h.entry)
  dead : v.dead =
    bodies ((spent s.retry (gone.map Prod.snd)).map (LocalQueue.letter s.retry w.clock)).reverse ++
      w.dead
  claims : ∀ id, Index.find? id v.claims =
    if id ∈ gone.map (·.2.id) then none else Index.find? id w.claims
  ascending : Index.Ascending v.claims
  delivered : v.delivered = w.delivered
  results : v.results = w.results
  clock : v.clock = w.clock
  newest : w.newest ≤ v.newest

theorem tookBack_none (s : Settings) {w : Server} (ascending : Index.Ascending w.claims) :
    TookBack s [] [] w w where
  tasks := rfl
  newer _ none := (List.not_mem_nil none).elim
  entries := by simp
  held := by simp
  dead := rfl
  claims _ := rfl
  ascending := ascending
  delivered := rfl
  results := rfl
  clock := rfl
  newest := Nat.le_refl _

theorem filter_other {α : Type} (number : α → Nat) (e : Nat × Task) (xs : List α) :
    (xs.filter fun x => !([e].any fun g => g.1 == number x)) =
      xs.filter fun x => number x != e.1 := by
  refine List.filter_congr fun x _ => ?_
  simp [bne, Bool.beq_comm (a := e.1)]

theorem filter_others {α : Type} (number : α → Nat) (e : Nat × Task) (gone : List (Nat × Task))
    (xs : List α) :
    (xs.filter fun x => !([e].any fun g => g.1 == number x)).filter
        (fun x => !(gone.any fun g => g.1 == number x)) =
      xs.filter fun x => !((e :: gone).any fun g => g.1 == number x) := by
  rw [List.filter_filter]
  refine List.filter_congr fun x _ => ?_
  simp [Bool.and_comm]

theorem find?_claims_erase {claims : Index String} (ascending : claims.Ascending) (e : Nat × Task)
    (id : String) : Index.find? id (Index.erase e.2.id claims) =
      if id ∈ [e].map (·.2.id) then none else Index.find? id claims := by
  simp only [List.map_cons, List.map_nil, List.mem_singleton]
  split
  · rename_i same
    rw [same, Index.find?_erase_self ascending]
  · rename_i other
    exact Index.find?_erase_of_ne (Ne.symm other) _

theorem tookBack_one (s : Settings) {w : Server} (e : Nat × Task) (old : e.1 ≤ w.newest)
    (ascending : Index.Ascending w.claims) : ∃ fresh, TookBack s [e] fresh w (w.takenBack s e) := by
  by_cases beyond : s.retry.maxRetry < e.2.bumped.attempts
  · have decided := RetryPolicy.decide_eq_deadLetter.mpr beyond
    have after : w.takenBack s e = (({ w with dead := Text.Utf8.bytes (DeadLetter.encoded
        ⟨e.2.bumped, s.retry.reason e.2.bumped.attempts, w.clock⟩) :: w.dead }).without
          (entryId e.1)).unclaimed (some e.2.id) := by
      simp only [takenBack, Calls.moved, decided]
      rfl
    rw [after]
    exact ⟨[], {
      tasks := by simp [again, decided]
      newer := fun _ none => (List.not_mem_nil none).elim
      entries := by
        rw [unclaimed_entries, without_entries, filter_other Prod.fst, List.map_nil,
          List.append_nil]
      held := by rw [unclaimed_held, without_held, filter_other Holding.entry]
      dead := by simp [spent, decided, bodies, LocalQueue.letter, without, unclaimed]
      claims := find?_claims_erase ascending e
      ascending := Index.erase_ascending _ ascending
      delivered := rfl
      results := rfl
      clock := rfl
      newest := Nat.le_refl _ }⟩
  · have decided := RetryPolicy.decide_eq_retry.mpr beyond
    have after : w.takenBack s e = ((w.append (some (Text.Utf8.bytes
        e.2.bumped.encoded))).without (entryId e.1)).unclaimed (some e.2.id) := by
      simp only [takenBack, Calls.moved, decided]
      rfl
    have kept : ([(w.newest + 1, some (Text.Utf8.bytes e.2.bumped.encoded))] :
        List (Nat × Option (List UInt8))).filter (fun f => f.1 != e.1) =
          [written (w.newest + 1, e.2.bumped)] :=
      List.filter_cons_of_pos (bne_iff_ne.mpr (show w.newest + 1 ≠ e.1 by omega))
    rw [after]
    exact ⟨[(w.newest + 1, e.2.bumped)], {
      tasks := by simp [again, decided]
      newer := fun f mem => by
        rw [List.mem_singleton.mp mem]
        exact Nat.lt_succ_self _
      entries := by
        rw [unclaimed_entries, without_entries, filter_other Prod.fst, append, List.filter_append,
          kept]
        rfl
      held := by
        rw [unclaimed_held, without_held, filter_other Holding.entry]
        rfl
      dead := by simp [spent, decided, bodies, without, unclaimed, append]
      claims := find?_claims_erase ascending e
      ascending := Index.erase_ascending _ ascending
      delivered := rfl
      results := rfl
      clock := rfl
      newest := Nat.le_succ _ }⟩

theorem TookBack.cons {e : Nat × Task} {gone first rest : List (Nat × Task)} {w u v : Server}
    (one : TookBack s [e] first w u) (more : TookBack s gone rest u v)
    (old : ∀ g ∈ gone, g.1 ≤ w.newest) : TookBack s (e :: gone) (first ++ rest) w v where
  tasks := by
    rw [List.map_append, one.tasks, more.tasks]
    simp only [again, List.map_cons, List.map_nil, List.filter_cons]
    split <;> rfl
  newer f mem := by
    rcases List.mem_append.mp mem with mem | mem
    · exact one.newer f mem
    · exact Nat.lt_of_le_of_lt one.newest (more.newer f mem)
  entries := by
    have kept : ∀ f ∈ first.map written, (!(gone.any fun g => g.1 == f.1)) = true := by
      intro f mem
      obtain ⟨f, among, rfl⟩ := List.mem_map.mp mem
      have above := one.newer f among
      simp only [Bool.not_eq_true', List.any_eq_false, beq_iff_eq]
      intro g mem same
      have := old g mem
      have same : g.1 = f.1 := same
      omega
    rw [more.entries, one.entries, List.filter_append, List.filter_eq_self.mpr kept,
      filter_others Prod.fst, List.map_append, List.append_assoc]
  held := by rw [more.held, one.held, filter_others Holding.entry]
  dead := by
    rw [more.dead, one.dead, one.clock, ← List.append_assoc]
    congr 1
    simp only [spent, List.map_cons, List.map_nil, List.filter_cons]
    split <;> simp [bodies]
  claims id := by
    rw [more.claims, one.claims]
    simp only [List.map_cons, List.map_nil, List.mem_cons, List.not_mem_nil, or_false]
    by_cases here : id = e.2.id
    · simp [here]
    · simp only [here, false_or, if_false]
  ascending := more.ascending
  delivered := more.delivered.trans one.delivered
  results := more.results.trans one.results
  clock := more.clock.trans one.clock
  newest := Nat.le_trans one.newest more.newest

theorem tookBack_all (s : Settings) {w : Server} {gone : List (Nat × Task)}
    (old : ∀ g ∈ gone, g.1 ≤ w.newest) (ascending : Index.Ascending w.claims) :
    ∃ fresh, TookBack s gone fresh w (gone.foldl (fun w e => w.takenBack s e) w) := by
  induction gone generalizing w with
  | nil => exact ⟨[], tookBack_none s ascending⟩
  | cons e gone ih =>
    rw [List.forall_mem_cons] at old
    obtain ⟨first, one⟩ := tookBack_one s e old.1 ascending
    obtain ⟨rest, more⟩ := ih (fun g mem => Nat.le_trans (old.2 g mem) one.newest) one.ascending
    exact ⟨first ++ rest, one.cons more old.2⟩

/-! Taking over. -/

/-- If the idle holdings come first, the first of them are taken, however many were looked at. -/
theorem taken_of_split {millis batch : Nat} {idle busy : List Holding}
    (split : w.held = idle ++ busy) (stale : ∀ h ∈ idle, w.isIdle millis h = true)
    (fresh : ∀ h ∈ busy, w.isIdle millis h = false) : w.taken millis batch = idle.take batch := by
  have none : (busy.take (10 * batch - idle.length)).filter (w.isIdle millis) = [] :=
    List.filter_eq_nil_iff.mpr fun h mem =>
      Bool.eq_false_iff.mp (fresh h (List.mem_of_mem_take mem))
  have all : (idle.take (10 * batch)).filter (w.isIdle millis) = idle.take (10 * batch) :=
    List.filter_eq_self.mpr fun h mem => stale h (List.mem_of_mem_take mem)
  rw [taken, scanned, split, List.take_append, List.filter_append, all, none, List.append_nil,
    List.take_take, Nat.min_eq_left (by omega)]

theorem readTaken {millis batch : Nat} {gone : List (Holding × Task)}
    (taken : (w.heard s.consumer).taken millis batch = gone.map Prod.fst)
    (found : ∀ g ∈ gone, w.find? g.1.entry = some (written (g.1.entry, g.2))) :
    takenEntries (w.takeOver s millis batch).1 =
      .ok ((gone.map fun g => (g.1.entry, g.2)).map fun e => seen (written e)) := by
  have there : ((w.heard s.consumer).taken millis batch).filterMap
      (fun h => (w.heard s.consumer).find? h.entry) =
        gone.map fun g => written (g.1.entry, g.2) := by
    rw [taken, List.filterMap_map]
    exact List.filterMap_eq_map_iff_forall_eq_some.mpr found
  have entries := entriesOf_entryReply (gone.map fun g => written (g.1.entry, g.2))
  rw [← there] at entries
  refine entries.trans (congrArg Except.ok ?_)
  rw [there, List.map_map, List.map_map]
  rfl

theorem gives_reclaim {idle : Span} {batch : Nat} (positive : batch ≠ 0)
    {gone : List (Holding × Task)} (fine : ∀ g ∈ gone, Faithful g.2)
    (taken : (w.heard s.consumer).taken (Calls.wholeMillis idle) batch = gone.map Prod.fst)
    (found : ∀ g ∈ gone, w.find? g.1.entry = some (written (g.1.entry, g.2))) :
    Gives s w (Calls.reclaim s idle batch) (again s.retry (gone.map Prod.snd)).length
      ((gone.map fun g => (g.1.entry, g.2)).foldl (fun w e => w.takenBack s e)
        (w.takeOver s (Calls.wholeMillis idle) batch).2) := by
  have fine' : ∀ e ∈ gone.map (fun g => (g.1.entry, g.2)), Faithful e.2 :=
    List.forall_mem_map.mpr fine
  have all := gives_takeBackAll (s := s)
    (w := (w.takeOver s (Calls.wholeMillis idle) batch).2) fine'
  have tasks : (gone.map fun g => (g.1.entry, g.2)).map Prod.snd = gone.map Prod.snd :=
    List.map_map
  rw [tasks] at all
  rw [Calls.reclaim, if_neg positive]
  exact (gives_send rfl).bind ((gives_ofExcept (readTaken taken found)).bind all)

/-- The entries that were taken over change hands, and all else stays. -/
theorem held_after_takeOver {millis batch : Nat} {gone : List (Holding × Task)}
    (taken : (w.heard s.consumer).taken millis batch = gone.map Prod.fst)
    (found : ∀ g ∈ gone, w.find? g.1.entry = some (written (g.1.entry, g.2))) :
    (w.takeOver s millis batch).2.held = w.held.map fun h =>
      if h ∈ gone.map Prod.fst then ⟨h.entry, s.consumer, w.clock⟩ else h := by
  have none : (gone.map Prod.fst).filter
      (fun h => ((w.heard s.consumer).find? h.entry).isNone) = [] := by
    refine List.filter_eq_nil_iff.mpr fun h mem => ?_
    obtain ⟨g, among, rfl⟩ := List.mem_map.mp mem
    have there : (w.heard s.consumer).find? g.1.entry = _ := found g among
    rw [there]
    simp
  have same : (w.heard s.consumer).held = w.held := rfl
  simp only [takeOver, taken, none, same]
  refine List.filterMap_eq_map_iff_forall_eq_some.mpr fun h _ => ?_
  by_cases mem : h ∈ gone.map Prod.fst
  · rw [if_pos mem, if_pos (List.contains_iff_mem.mpr mem)]
    rfl
  · rw [if_neg mem, if_neg (fun among => mem (List.contains_iff_mem.mp among))]

end Broker

end ClaimQueue
