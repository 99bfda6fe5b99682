import ClaimQueue.Proofs.Broker.Refusals
import ClaimQueue.Proofs.Broker.TakingBack

/-! Entries that nobody can read do not stand in the way. A call to pop gets rid of all that come
before the first readable one, each as its refusal says, and leaves everything else as it was. -/

namespace ClaimQueue

namespace Broker

open Server Job

/-- The answer to a refused entry, if its refusal names a task. -/
def answerTo? (now : Instant) (e : Nat × Option (List UInt8)) : Option TaskResult :=
  match (seen e).task with
  | .error fault => fault.taskId?.map fun id => .refused id fault.message now
  | .ok _ => none

/-- What is kept of a refused entry whose refusal names nobody. -/
def remains? (e : Nat × Option (List UInt8)) : Option (List UInt8) :=
  match (seen e).task with
  | .error fault => if fault.taskId?.isNone then some (e.2.getD []) else none
  | .ok _ => none

/-- The results with these stored as well, one after the other. -/
def storing (answers : List TaskResult) (results : Index (List UInt8)) : Index (List UInt8) :=
  answers.foldl (fun results r => Index.put r.taskId (Text.Utf8.bytes r.encoded) results) results

/-- The broker without these entries: whoever is named has an answer, and what names nobody is kept
aside, in the order in which they arrived. -/
def Server.sifted (bad : List (Nat × Option (List UInt8))) (w : Server) : Server :=
  { w with
    entries := w.entries.filter fun e => !bad.contains e
    results := storing (bad.filterMap (answerTo? w.clock)) w.results
    parked := (bad.filterMap remains?).reverse ++ w.parked }

section Refused

variable {s : Settings} {w : Server} {e : Nat × Option (List UInt8)} {fault : WireError}
  {bad rest : List (Nat × Option (List UInt8))} {n : Nat} {body : List UInt8} {t : Task}

theorem sifted_nil (w : Server) : w.sifted [] = w := by
  simp [sifted, storing]

theorem disposed_eq (task : (seen e).task = .error fault) (w : Server) :
    w.disposed e fault = { w with
      entries := w.entries.filter fun f => f.1 != e.1
      held := w.held.filter fun h => h.entry != e.1
      results := storing ([e].filterMap (answerTo? w.clock)) w.results
      parked := ([e].filterMap remains?).reverse ++ w.parked } := by
  have entries := without_entries e.1 w
  have held := without_held e.1 w
  simp only [without] at entries held
  cases named : fault.taskId? with
  | some id =>
    simp [disposed, named, answered, without, entries, held, answerTo?, remains?, task, storing]
  | none => simp [disposed, named, without, entries, held, answerTo?, remains?, task, storing]

/-- What was delivered to be refused is held no longer; what was held before still is. -/
theorem held_refused (ordered : w.Ordered) (new : w.delivered < e.1) (consumer : String) :
    (w.held ++ [Holding.mk e.1 consumer w.clock]).filter (fun h => h.entry != e.1) = w.held := by
  have others : w.held.filter (fun h => h.entry != e.1) = w.held := by
    refine List.filter_eq_self.mpr fun h mem => bne_iff_ne.mpr ?_
    have old := ordered.held h mem
    omega
  rw [List.filter_append, others]
  simp

theorem entries_refused (ordered : w.Ordered) (present : e ∈ w.entries) :
    (w.entries.filter fun f => f.1 != e.1) = w.entries.filter fun f => !([e].contains f) := by
  refine List.filter_congr fun f mem => ?_
  have same : f.1 = e.1 ↔ f = e :=
    ⟨eq_of_number ordered.ascending mem present, congrArg Prod.fst⟩
  simp [bne, beq_eq_decide, same]

theorem refused_eq (ordered : w.Ordered) (first : w.waiting.head? = some e)
    (task : (seen e).task = .error fault) : w.refused s e fault = { w.sifted [e] with
      delivered := e.1
      consumers := Index.put s.consumer w.clock w.consumers } := by
  obtain ⟨present, new⟩ := mem_waiting.mp (List.mem_of_mem_head? first)
  rw [refused, disposed_eq task, deliver_eq, first]
  simp only [heard, held_refused ordered new, entries_refused ordered present, sifted]

theorem ordered_refused (ordered : w.Ordered) (s : Settings) (e : Nat × Option (List UInt8))
    (fault : WireError) : (w.refused s e fault).Ordered := by
  have delivered := ordered_deliver ordered s
  unfold refused disposed
  cases fault.taskId? with
  | some id => exact delivered.fewer rfl rfl List.filter_sublist List.filter_sublist
  | none => exact delivered.fewer rfl rfl List.filter_sublist List.filter_sublist

/-- Of the waiting entries those behind one of them are the newer ones. -/
theorem waiting_split (ordered : w.Ordered) {front : List (Nat × Option (List UInt8))}
    (waiting : w.waiting = front ++ e :: rest) :
    (∀ f ∈ front, f.1 < e.1) ∧ w.waiting.filter (fun f => decide (e.1 < f.1)) = rest := by
  have ascending : (w.waiting.map Prod.fst).Pairwise (· < ·) :=
    ordered.ascending.sublist (List.filter_sublist.map Prod.fst)
  rw [waiting, List.map_append, List.map_cons, List.pairwise_append, List.pairwise_cons]
    at ascending
  obtain ⟨-, ⟨later, -⟩, earlier⟩ := ascending
  have before : ∀ f ∈ front, f.1 < e.1 := fun f mem =>
    earlier f.1 (List.mem_map_of_mem mem) e.1 List.mem_cons_self
  have none : front.filter (fun f => decide (e.1 < f.1)) = [] := by
    refine List.filter_eq_nil_iff.mpr fun f mem => ?_
    have old := before f mem
    simp only [decide_eq_true_eq]
    omega
  have all : rest.filter (fun f => decide (e.1 < f.1)) = rest :=
    List.filter_eq_self.mpr fun f mem => decide_eq_true (later f.1 (List.mem_map_of_mem mem))
  refine ⟨before, ?_⟩
  rw [waiting, List.filter_append, none, List.filter_cons_of_neg (by simp), all, List.nil_append]

/-- When the entries up to one are delivered, and some of them gone, those behind it wait as before. -/
theorem waiting_behind (ordered : w.Ordered) {front gone : List (Nat × Option (List UInt8))}
    (waiting : w.waiting = front ++ e :: rest) (among : ∀ f ∈ gone, f ∈ front ++ [e]) :
    ((w.entries.filter fun f => !gone.contains f).filter fun f => decide (e.1 < f.1)) = rest := by
  have new : w.delivered < e.1 := by
    have mem : e ∈ w.waiting := by simp [waiting]
    exact (mem_waiting.mp mem).2
  obtain ⟨before, behind⟩ := waiting_split ordered waiting
  rw [← behind, Server.waiting, List.filter_filter, List.filter_filter]
  refine List.filter_congr fun f _ => ?_
  by_cases past : e.1 < f.1
  · have stays : f ∉ gone := by
      intro mem
      rcases List.mem_append.mp (among f mem) with mem | mem
      · exact Nat.lt_asymm past (before f mem)
      · exact Nat.lt_irrefl _ (List.mem_singleton.mp mem ▸ past)
    simp [past, Nat.lt_trans new past, stays]
  · simp [past]

theorem waiting_refused (ordered : w.Ordered) (waiting : w.waiting = e :: rest)
    (task : (seen e).task = .error fault) : (w.refused s e fault).waiting = rest := by
  have first : w.waiting.head? = some e := by rw [waiting, List.head?_cons]
  have gone : ∀ f ∈ [e], f ∈ ([] : List (Nat × Option (List UInt8))) ++ [e] := fun _ mem => mem
  rw [refused_eq ordered first task]
  exact waiting_behind ordered waiting gone

/-- Getting rid of entries one by one is getting rid of them together. -/
theorem claimed_sifted_refused (ordered : w.Ordered) (first : w.waiting.head? = some e)
    (task : (seen e).task = .error fault) (s : Settings) (n : Nat) (t : Task) :
    ((w.refused s e fault).sifted bad).claimed s n t = (w.sifted (e :: bad)).claimed s n t := by
  rw [refused_eq ordered first task]
  have entries : (w.entries.filter fun f => !([e].contains f)).filter (fun f => !bad.contains f) =
      w.entries.filter fun f => !((e :: bad).contains f) := by
    rw [List.filter_filter]
    refine List.filter_congr fun f _ => ?_
    simp [Bool.and_comm]
  have told : (e :: bad).filterMap (answerTo? w.clock) =
      [e].filterMap (answerTo? w.clock) ++ bad.filterMap (answerTo? w.clock) :=
    List.filterMap_append (l := [e])
  have kept : (e :: bad).filterMap remains? = [e].filterMap remains? ++ bad.filterMap remains? :=
    List.filterMap_append (l := [e])
  simp only [claimed, heard, sifted, entries, Index.put_put, told, kept, storing, List.foldl_append,
    List.reverse_append, List.append_assoc]

theorem gives_pop_sifted (ordered : w.Ordered) (waiting : w.waiting = bad ++ (n, some body) :: rest)
    (refused : ∀ e ∈ bad, ∃ fault, (seen e).task = .error fault) (task : Task.ofBytes body = .ok t)
    {rounds : Nat} (enough : bad.length < rounds) (timeout : Span) :
    Gives s w (Calls.pop rounds s false timeout) (some t) ((w.sifted bad).claimed s n t) := by
  induction bad generalizing w rounds with
  | nil =>
    obtain ⟨more, rfl⟩ := Nat.exists_eq_succ_of_ne_zero (Nat.ne_of_gt enough)
    rw [sifted_nil]
    exact gives_pop (by simp) task (by rw [waiting]; rfl) more
  | cons e bad ih =>
    obtain ⟨more, rfl⟩ := Nat.exists_eq_succ_of_ne_zero (Nat.ne_of_gt (Nat.zero_lt_of_lt enough))
    rw [List.forall_mem_cons] at refused
    obtain ⟨fault, entry⟩ := refused.1
    have first : w.waiting.head? = some e := by rw [waiting]; rfl
    have after := ih (ordered_refused ordered s e fault)
      (waiting_refused ordered waiting entry) refused.2 (Nat.lt_of_succ_lt_succ enough)
    rw [claimed_sifted_refused ordered first entry] at after
    exact (run_pop_refused (by simp) entry first more).trans after

end Refused

/-! Who is told, and what. -/

theorem mem_answers {now : Instant} {bad : List (Nat × Option (List UInt8))} {r : TaskResult} :
    r ∈ bad.filterMap (answerTo? now) ↔ ∃ e ∈ bad, ∃ fault id, (seen e).task = .error fault ∧
      fault.taskId? = some id ∧ r = .refused id fault.message now := by
  simp only [List.mem_filterMap, answerTo?]
  constructor
  · rintro ⟨e, mem, told⟩
    split at told
    · rename_i fault task
      obtain ⟨id, named, rfl⟩ := Option.map_eq_some_iff.mp told
      exact ⟨e, mem, fault, id, task, named, rfl⟩
    · cases told
  · rintro ⟨e, mem, fault, id, task, named, rfl⟩
    exact ⟨e, mem, by rw [task]; simp [named]⟩

section Storing

variable {id : String} {answers : List TaskResult}

theorem find?_storing_of_other (other : ∀ r ∈ answers, r.taskId ≠ id)
    (results : Index (List UInt8)) :
    Index.find? id (storing answers results) = Index.find? id results := by
  induction answers generalizing results with
  | nil => rfl
  | cons r answers ih =>
    rw [List.forall_mem_cons] at other
    exact (ih other.2 _).trans (by rw [Index.find?_put, if_neg other.1])

/-- The answer that was given last is there. -/
theorem find?_storing (among : ∃ r ∈ answers, r.taskId = id) (results : Index (List UInt8)) :
    ∃ r ∈ answers, r.taskId = id ∧
      Index.find? id (storing answers results) = some (Text.Utf8.bytes r.encoded) := by
  induction answers generalizing results with
  | nil =>
    obtain ⟨r, none, -⟩ := among
    cases none
  | cons r answers ih =>
    by_cases later : ∃ q ∈ answers, q.taskId = id
    · obtain ⟨q, mem, found⟩ := ih later (Index.put r.taskId (Text.Utf8.bytes r.encoded) results)
      exact ⟨q, List.mem_cons_of_mem _ mem, found⟩
    · have others : ∀ q ∈ answers, q.taskId ≠ id := fun q mem same => later ⟨q, mem, same⟩
      have own : r.taskId = id := by
        obtain ⟨q, mem, same⟩ := among
        rcases List.mem_cons.mp mem with rfl | mem
        · exact same
        · exact absurd same (others q mem)
      have last := find?_storing_of_other others
        (Index.put r.taskId (Text.Utf8.bytes r.encoded) results)
      rw [Index.find?_put, if_pos own] at last
      exact ⟨r, List.mem_cons_self, own, last⟩

end Storing

/-- Under `id` lies an answer of that moment that asks for no other attempt. -/
def Server.Answered (id : String) (now : Instant) (w : Server) : Prop :=
  ∃ body r, Index.find? id w.results = some body ∧ TaskResult.ofBytes body = .ok r ∧
    r.taskId = id ∧ r.status = .error ∧ r.isRetryable = false ∧ r.createdAt = now

theorem answered_sifted {w : Server} {bad : List (Nat × Option (List UInt8))}
    {e : Nat × Option (List UInt8)} {fault : WireError} {id : String} (mem : e ∈ bad)
    (task : (seen e).task = .error fault) (named : fault.taskId? = some id) :
    (w.sifted bad).Answered id w.clock := by
  have told : .refused id fault.message w.clock ∈ bad.filterMap (answerTo? w.clock) :=
    mem_answers.mpr ⟨e, mem, fault, id, task, named, rfl⟩
  obtain ⟨r, among, own, found⟩ := find?_storing ⟨_, told, rfl⟩ w.results
  obtain ⟨-, -, fault', id', -, -, rfl⟩ := mem_answers.mp among
  exact ⟨_, _, found, TaskResult.ofBytes_encoded (plain_refused id' fault'.message w.clock), own,
    rfl, rfl, rfl⟩

/-- A call to pop gives the first entry that can be read, whatever waits before it. Those before it
are gone, and the producers that they name are answered. Beyond that the broker has the claim, and has
heard of its client; everything else is as it was. -/
theorem pop_passes_refused (s : Settings) {w : Server} (ordered : w.Ordered)
    {bad rest : List (Nat × Option (List UInt8))} {n : Nat} {body : List UInt8} {t : Task}
    (waiting : w.waiting = bad ++ (n, some body) :: rest)
    (refused : ∀ e ∈ bad, ∃ fault, (seen e).task = .error fault) (task : Task.ofBytes body = .ok t)
    {rounds : Nat} (enough : bad.length < rounds) (timeout : Span) :
    let v : Server := { w with
      entries := w.entries.filter fun e => !bad.contains e
      delivered := n
      held := w.held ++ [⟨n, s.consumer, w.clock⟩]
      consumers := Index.put s.consumer w.clock w.consumers
      claims := Index.put t.id (claimValue (entryId n) s.consumer) w.claims
      results := storing (bad.filterMap (answerTo? w.clock)) w.results
      parked := (bad.filterMap remains?).reverse ++ w.parked }
    (Broker.answer rounds s (.pop false timeout)).run (Server.answer s) w = (some (.ok (some t)), v) ∧
    v.waiting = rest ∧
    (∀ e ∈ bad, (∀ f ∈ v.entries, f.1 ≠ e.1) ∧ ∀ h ∈ v.held, h.entry ≠ e.1) ∧
    (∀ e ∈ bad, ∀ fault, (seen e).task = .error fault → match fault.taskId? with
      | some id => v.Answered id w.clock
      | none => remains? e = some (e.2.getD [])) ∧
    ∀ id, (∀ e ∈ bad, ∀ fault, (seen e).task = .error fault → fault.taskId? ≠ some id) →
      Index.find? id v.results = Index.find? id w.results := by
  have gives := gives_pop_sifted (s := s) ordered waiting refused task enough timeout
  have delivered : ∀ e ∈ bad, e ∈ w.entries ∧ w.delivered < e.1 := fun e mem =>
    mem_waiting.mp (by rw [waiting]; exact List.mem_append_left _ mem)
  refine ⟨gives, ?_, fun e mem => ⟨fun f there => ?_, fun h held => ?_⟩, fun e mem fault own => ?_,
    fun id unnamed => find?_storing_of_other (fun r told same => ?_) w.results⟩
  · exact waiting_behind ordered waiting fun e mem => List.mem_append_left _ mem
  · obtain ⟨there, stays⟩ := List.mem_filter.mp there
    intro same
    obtain rfl := eq_of_number ordered.ascending there (delivered e mem).1 same
    simp [mem] at stays
  · rcases List.mem_append.mp held with held | held
    · have old := ordered.held h held
      have new := (delivered e mem).2
      omega
    · rw [List.mem_singleton.mp held]
      exact Nat.ne_of_gt ((waiting_split ordered waiting).1 e mem)
  · split
    · rename_i id named
      exact answered_sifted mem own named
    · rename_i unnamed
      simp [remains?, own, unnamed]
  · obtain ⟨e, mem, fault, id', own, named, rfl⟩ := mem_answers.mp told
    exact unnamed e mem fault own (same ▸ named)

private def bran : List UInt8 :=
  Text.Utf8.bytes "\x7b\"id\":\"heron\",\"schema_version\":2\x7d"

private def chaff : List (Nat × Option (List UInt8)) := [
  (2, some bran),
  (3, none),
  (5, some [0xff, 0x00])]

private def grain : Task := ⟨.render, "wheat", [("ears", .int 7)], .empty, 0, .epoch, 1⟩

/-- A newer document, an entry without a task, and bytes that are no document wait before a task; an
older entry is with a client that has gone. -/
private def granary : Server where
  grouped := true
  newest := 6
  entries := (1, some [0x31]) :: chaff ++ [(6, some (Text.Utf8.bytes grain.encoded))]
  delivered := 1
  held := [⟨1, "sparrow", .epoch⟩]
  results := [("heron", [0x30])]
  parked := [[0x32]]
  clock := .epoch

private def miller : Settings where
  consumer := "miller"

private theorem ordered_granary : granary.Ordered where
  ascending := by decide
  numbered := by decide
  delivered := by decide
  held := by decide

theorem pop_finds_grain : granary.waiting = chaff ++ [(6, some (Text.Utf8.bytes grain.encoded))] ∧
    ∃ v, (Broker.answer 4 miller (.pop false ⟨0⟩)).run (Server.answer miller) granary =
        (some (.ok (some grain)), v) ∧
      v.waiting = [] ∧ v.parked = [[0xff, 0x00], [], [0x32]] ∧ v.Answered "heron" .epoch ∧
      v.held = [⟨1, "sparrow", .epoch⟩, ⟨6, "miller", .epoch⟩] := by
  have newer : (seen (2, some bran)).task = .error (.unsupportedSchema (some "heron") 2) := by
    decide +kernel
  have garbage : (seen (5, some [0xff, 0x00])).task = .error (.malformed .malformed) := by
    decide +kernel
  have refused : ∀ e ∈ chaff, ∃ fault, (seen e).task = .error fault := by
    simp only [chaff, List.mem_cons, List.not_mem_nil, or_false, forall_eq_or_imp, forall_eq]
    exact ⟨⟨_, newer⟩, ⟨_, rfl⟩, ⟨_, garbage⟩⟩
  have task : Task.ofBytes (Text.Utf8.bytes grain.encoded) = .ok grain := by decide +kernel
  have waits : granary.waiting = chaff ++ [(6, some (Text.Utf8.bytes grain.encoded))] := rfl
  obtain ⟨popped, waiting, -, told, -⟩ := pop_passes_refused miller ordered_granary waits refused task
    (show chaff.length < 4 from Nat.lt_succ_self 3) ⟨0⟩
  have kept : chaff.filterMap remains? = [[], [0xff, 0x00]] := by
    have nobody : (seen (3, none)).task = .error (.malformed (.missingField taskField)) := rfl
    simp only [chaff, remains?, newer, nobody, garbage, List.filterMap_cons, List.filterMap_nil]
    rfl
  refine ⟨waits, _, popped, waiting, ?_, told _ List.mem_cons_self _ newer, rfl⟩
  rw [kept]
  rfl

end Broker

end ClaimQueue
