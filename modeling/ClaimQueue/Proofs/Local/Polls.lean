import ClaimQueue.Proofs.Local.Awaiting
import ClaimQueue.Proofs.Local.Listing
import ClaimQueue.Proofs.Local.Records
import Mathlib.Data.List.Induction
import Mathlib.Data.List.Perm.Subperm

/-! Listings of results while others save. A listing notes the ids that are there when it begins,
and looks each of them up when it gets there; what it gives depends on those looks alone. -/

namespace ClaimQueue

namespace LocalQueue

/-! A listing as one step after the other. -/

/-- A result counts if it is there and of the kind. -/
def fitting (kind : Option TaskKind) (r? : Option TaskResult) : Option TaskResult :=
  r?.filter (·.matchesKind kind)

/-- What is left of a listing: these ids are still to be looked up, and this was found. -/
def reading (kind : Option TaskKind) : List String → List TaskResult → Steps (List TaskResult)
  | [], found => .done found
  | id :: rest, found => .ask (.access (.result id)) fun r? =>
    reading kind rest (found ++ (fitting kind r?).toList)

theorem nextResult_cons (kind : Option TaskKind) (id : String) (rest : List String) :
    Calls.nextResult kind (id :: rest) = .ask (.access (.result id)) fun r? =>
      match fitting kind r? with
      | some r => .done (some (r, rest))
      | none => Calls.nextResult kind rest := by
  refine congrArg (Program.ask (I := steps) (.access (.result id))) (funext fun r? => ?_)
  cases r? with
  | none => rfl
  | some r =>
    show (if r.matchesKind kind then _ else _) = _
    by_cases matching : r.matchesKind kind = true
    · have fits : fitting kind (some r) = some r := by simp [fitting, matching]
      rw [fits, if_pos matching]
      rfl
    · have nothing : fitting kind (some r) = none := by simp [fitting, matching]
      rw [nothing, if_neg matching]

theorem results_loop (kind : Option TaskKind) {n : Nat} {left : List String}
    (enough : left.length < n) (found : List TaskResult) :
    Program.loop (Program.gatherRound (Calls.nextResult kind) fun _ => true) n (left, found) =
      reading kind left found.reverse := by
  induction n generalizing left found with
  | zero => exact absurd enough (Nat.not_lt_zero _)
  | succ n ih =>
    induction left with
    | nil => rfl
    | cons id rest ih' =>
      have less : rest.length < n := Nat.lt_of_succ_lt_succ enough
      have passed := ih' (Nat.lt_succ_of_lt less)
      rw [Program.loop, Program.gatherRound, nextResult_cons]
      refine congrArg (Program.ask (I := steps) (.access (.result id))) (funext fun r? => ?_)
      beta_reduce
      cases fitting kind r? with
      | none =>
        rw [Option.toList_none, List.append_nil]
        exact passed
      | some r =>
        rw [Option.toList_some, ← List.reverse_cons]
        exact ih less (r :: found)

theorem work_list (rounds : Nat) (kind : Option TaskKind) :
    (Undertaking.list kind).work rounds =
      .ask (.access .resultIds) fun ids => reading kind ids [] := by
  refine congrArg (Program.ask (I := steps) (.access .resultIds)) (funext fun ids => ?_)
  exact (results_eq kind ids).trans (results_loop kind (Nat.lt_succ_self _) [])

/-! What was told, and where that leaves it. -/

/-- What a listing was told: these ids, and then what was found under the first of them. -/
def talk (ids : List String) (answers : List (String × Option TaskResult)) : Talk :=
  (answers.map fun e => (⟨.access (.result e.1), e.2⟩ : ClaimQueue.Exchange steps)).reverse ++
    [⟨.access .resultIds, ids⟩]

theorem talk_concat (ids : List String) (answers : List (String × Option TaskResult)) (id : String)
    (r? : Option TaskResult) :
    talk ids (answers ++ [(id, r?)]) = ⟨.access (.result id), r?⟩ :: talk ids answers := by
  rw [talk, List.map_append, List.reverse_append]
  rfl

def foundIn (kind : Option TaskKind) (answers : List (String × Option TaskResult)) :
    List TaskResult :=
  answers.filterMap fun e => fitting kind e.2

theorem foundIn_concat (kind : Option TaskKind) (answers : List (String × Option TaskResult))
    (id : String) (r? : Option TaskResult) :
    foundIn kind (answers ++ [(id, r?)]) = foundIn kind answers ++ (fitting kind r?).toList := by
  rw [foundIn, List.filterMap_append, List.filterMap_cons]
  cases fitting kind r? <;> rfl

theorem reaches_list {rounds : Nat} {kind : Option TaskKind} {past : Talk}
    {p : Steps (List TaskResult)} (h : ((Undertaking.list kind).work rounds).Reaches past p) :
    past = [] ∧ p = (Undertaking.list kind).work rounds ∨
      ∃ ids answers left, past = talk ids answers ∧ answers.map Prod.fst ++ left = ids ∧
        p = reading kind left (foundIn kind answers) := by
  induction h with
  | start => exact .inl ⟨rfl, rfl⟩
  | @answer past q next _ r ih =>
    right
    rcases ih with ⟨rfl, start⟩ | ⟨ids, answers, left, rfl, split, stands⟩
    · rw [work_list] at start
      cases start
      exact ⟨r, [], r, rfl, rfl, rfl⟩
    · cases left with
      | nil => cases stands
      | cons id left =>
        cases stands
        refine ⟨ids, answers ++ [(id, r)], left, (talk_concat ids answers id r).symm, ?_, ?_⟩
        · rw [List.map_append, List.append_assoc]
          exact split
        · rw [foundIn_concat]

/-! What the deeds of a listing tell. -/

/-- A listing was opened, and has looked up the first ids that there were then, in this order. -/
structure Looks (own : List Deed) (opening : Deed) (looks : List Deed) : Prop where
  own : own.reverse = opening :: looks
  opens : opening.access = .resultIds
  order : looks.map (·.access) = (opening.before.results.keys.take looks.length).map .result

/-- What was there, of the kind, when these ids were looked up. -/
def shownBy (kind : Option TaskKind) (ids : List String) (looks : List Deed) : List TaskResult :=
  (ids.zip looks).filterMap fun e => fitting kind (e.2.before.result? e.1)

/-- What a listing gave after all its looks. -/
structure Gave (kind : Option TaskKind) (opening : Deed) (looks : List Deed)
    (found : List TaskResult) : Prop where
  all : looks.length = opening.before.results.keys.length
  ascending : opening.before.results.keys.Pairwise (· < ·)
  noted : ∀ id, id ∈ opening.before.results.keys ↔ (opening.before.result? id).isSome
  there : ∀ e ∈ opening.before.results.keys.zip looks,
    ∃ r, e.2.before.result? e.1 = some r ∧ r.taskId = e.1
  shown : found = shownBy kind opening.before.results.keys looks
  once : (found.map (·.taskId)).Sublist opening.before.results.keys

variable {policy : RetryPolicy} {rounds : Nat} {kind : Option TaskKind} {own : List Deed}

theorem Looks.own_eq {opening : Deed} {looks : List Deed} (h : Looks own opening looks) :
    own = looks.reverse ++ [opening] := by
  rw [← List.reverse_reverse own, h.own, List.reverse_cons]

theorem heard_answer {past : Talk} {a : Access} {r : a.Answer}
    (h : Heard policy (⟨.access a, r⟩ :: past) own) :
    ∃ d rest, own = d :: rest ∧ Heard policy past rest ∧ d.access = a ∧
      ⟨a, r⟩ = (⟨d.access, d.answer policy⟩ : (a : Access) × a.Answer) := by
  cases h with
  | @access _ rest _ d told h =>
    obtain ⟨i, turn, b, clock, before⟩ := d
    cases told
    exact ⟨_, rest, rfl, h, rfl, rfl⟩
  | other noAccess => exact (noAccess a rfl).elim

theorem heard_nothing (h : Heard policy [] own) : own = [] := by
  cases h
  rfl

theorem length_of_order {answers : List (String × Option TaskResult)} {looks : List Deed}
    (order : looks.map (·.access) = answers.map fun e => .result e.1) :
    (answers.map Prod.fst).length = looks.length := by
  have same := congrArg List.length order
  rw [List.length_map, List.length_map] at same
  rw [List.length_map, same]

theorem looks_of_heard {ids : List String} {answers : List (String × Option TaskResult)}
    (h : Heard policy (talk ids answers) own) : ∃ opening looks, own.reverse = opening :: looks ∧
      opening.access = .resultIds ∧ opening.before.results.keys = ids ∧
      looks.map (·.access) = answers.map (fun e => .result e.1) ∧
      answers = ((answers.map Prod.fst).zip looks).map fun e => (e.1, e.2.before.result? e.1) := by
  induction answers using List.reverseRecOn generalizing own with
  | nil =>
    obtain ⟨⟨i, turn, a, clock, before⟩, rest, rfl, none, opens, told⟩ := heard_answer h
    rw [heard_nothing none]
    cases opens
    cases told
    exact ⟨_, [], rfl, rfl, rfl, rfl, rfl⟩
  | append_singleton answers e ih =>
    obtain ⟨id, r?⟩ := e
    rw [talk_concat] at h
    obtain ⟨⟨i, turn, a, clock, before⟩, rest, rfl, heard, looks, told⟩ := heard_answer h
    cases looks
    cases told
    obtain ⟨opening, looks, split, opens, keys, order, answered⟩ := ih heard
    have long := length_of_order order
    refine ⟨opening, looks ++ [⟨i, turn, .result id, clock, before⟩], ?_, opens, keys, ?_, ?_⟩
    · rw [List.reverse_cons, split]
      rfl
    · rw [List.map_append, List.map_append, order]
      rfl
    · rw [List.map_append, List.map_singleton, List.zip_append long, List.map_append, ← answered]
      rfl

theorem stands_of_cameTo {p : Steps (List TaskResult)}
    (h : CameTo policy rounds own ⟨.list kind, p⟩) :
    own = [] ∧ p = (Undertaking.list kind).work rounds ∨
      ∃ opening looks, Looks own opening looks ∧
        looks.length ≤ opening.before.results.keys.length ∧
        p = reading kind (opening.before.results.keys.drop looks.length)
          (shownBy kind opening.before.results.keys looks) := by
  obtain ⟨past, reaches, heard⟩ := h
  rcases reaches_list reaches with ⟨rfl, start⟩ | ⟨ids, answers, left, rfl, split, stands⟩
  · exact .inl ⟨heard_nothing heard, start⟩
  · right
    obtain ⟨opening, looks, all, opens, rfl, order, answered⟩ := looks_of_heard heard
    have long := length_of_order order
    have first : opening.before.results.keys.take looks.length = answers.map Prod.fst := by
      rw [← split, ← long, List.take_left]
    have rest : opening.before.results.keys.drop looks.length = left := by
      rw [← split, ← long, List.drop_left]
    refine ⟨opening, looks, ⟨all, opens, ?_⟩, ?_, ?_⟩
    · rw [order, first, List.map_map]
      rfl
    · rw [← split, List.length_append, long]
      exact Nat.le_add_right _ _
    · have pairs : opening.before.results.keys.zip looks = (answers.map Prod.fst).zip looks := by
        rw [← split, ← List.append_nil looks, List.zip_append long, List.zip_nil_right,
          List.append_nil, List.append_nil]
      have stands : p = reading kind left (foundIn kind answers) := stands
      rw [stands, rest, shownBy, pairs, foundIn]
      conv_lhs => rw [answered, List.filterMap_map]
      rfl

/-! Results are under their own ids, and none is ever lost. -/

section

variable {deeds : List Deed} {q : LocalQueue}

theorem Linked.results (linked : Linked policy deeds q) :
    q.results.Ascending ∧ ∀ e ∈ q.results, e.2.taskId = e.1 := by
  induction deeds generalizing q with
  | nil =>
    rw [show q = {} from linked]
    exact ⟨.nil, fun e mem => (List.not_mem_nil mem).elim⟩
  | cons d deeds ih =>
    obtain ⟨ascending, own⟩ := ih linked.2
    rw [linked.1, Deed.after, perform_results]
    split
    · next r save =>
      refine ⟨Index.put_ascending _ _ ascending, fun e mem => ?_⟩
      rcases Index.mem_put mem with rfl | mem
      · rfl
      · exact own e mem
    · exact ⟨ascending, own⟩

/-- What a deed saves under an id, if it does. -/
def Deed.saves? (id : String) (d : Deed) : Option TaskResult :=
  match d.access with
  | .save r => if r.taskId = id then some r else none
  | _ => none

/-- What is there under an id is what was saved last. -/
theorem Linked.result? (linked : Linked policy deeds q) (id : String) :
    q.result? id = deeds.findSome? (Deed.saves? id) := by
  induction deeds generalizing q with
  | nil =>
    rw [show q = {} from linked]
    rfl
  | cons d deeds ih =>
    have before : d.before.results.find? id = deeds.findSome? (Deed.saves? id) := ih linked.2
    rw [LocalQueue.result?, linked.1, Deed.after, perform_results, List.findSome?_cons, Deed.saves?]
    cases d.access with
    | save r => by_cases same : r.taskId = id <;> simp [same, Index.find?_put, before]
    | _ => exact before

theorem Deed.keys_subset (policy : RetryPolicy) (d : Deed) :
    d.before.results.keys ⊆ (d.after policy).results.keys := by
  rw [Deed.after, perform_results]
  split
  · exact Index.keys_subset_put _ _ _
  · exact List.Subset.refl _

theorem Linked.keys_subset (linked : Linked policy deeds q) :
    (∀ d ∈ deeds, d.before.results.keys ⊆ q.results.keys) ∧
      deeds.Pairwise fun later earlier =>
        earlier.before.results.keys ⊆ later.before.results.keys := by
  induction deeds generalizing q with
  | nil => exact ⟨fun d mem => (List.not_mem_nil mem).elim, .nil⟩
  | cons d deeds ih =>
    obtain ⟨before, ordered⟩ := ih linked.2
    have kept : d.before.results.keys ⊆ q.results.keys := linked.1 ▸ d.keys_subset policy
    refine ⟨fun e mem => ?_, ordered.cons before⟩
    rcases List.mem_cons.mp mem with rfl | mem
    · exact kept
    · exact fun id there => kept (before e mem there)

theorem Linked.of_mem (linked : Linked policy deeds q) {d : Deed} (mem : d ∈ deeds) :
    ∃ earlier, Linked policy earlier d.before := by
  obtain ⟨later, earlier, rfl⟩ := List.append_of_mem mem
  exact ⟨earlier, linked.before⟩

theorem length_le_of_keys {a b : Index TaskResult} (once : a.Ascending) (sub : a.keys ⊆ b.keys) :
    a.keys.length ≤ b.length := by
  have nodup : a.keys.Nodup := once.imp fun less => String.ne_of_lt less
  exact (nodup.subperm sub).length_le.trans_eq (List.length_map _)

variable {chosen : Deed → Bool} {opening : Deed} {looks : List Deed}

theorem Looks.recorded (h : Looks (deeds.filter chosen) opening looks) : opening ∈ deeds := by
  have mine : opening ∈ deeds.filter chosen :=
    h.own_eq ▸ List.mem_append_right _ List.mem_cons_self
  exact (List.mem_filter.mp mine).1

/-- The ids that it noted, in ascending order, are all still there. -/
theorem Looks.ids (linked : Linked policy deeds q)
    (h : Looks (deeds.filter chosen) opening looks) :
    opening.before.results.Ascending ∧ opening.before.results.keys ⊆ q.results.keys := by
  obtain ⟨later, earlier, split⟩ := List.append_of_mem h.recorded
  exact ⟨(split ▸ linked).before.results.1, linked.keys_subset.1 opening h.recorded⟩

/-- Under each id that it noted, a listing finds the result of that task. -/
theorem Looks.there (linked : Linked policy deeds q)
    (h : Looks (deeds.filter chosen) opening looks) :
    ∀ e ∈ opening.before.results.keys.zip looks,
      ∃ r, e.2.before.result? e.1 = some r ∧ r.taskId = e.1 := by
  intro e mem
  obtain ⟨noted, looked⟩ := List.of_mem_zip mem
  have kept : opening.before.results.keys ⊆ e.2.before.results.keys := by
    have ordered := linked.keys_subset.2.filter chosen
    rw [h.own_eq] at ordered
    exact (List.pairwise_append.mp ordered).2.2 e.2 (List.mem_reverse.mpr looked) opening
      List.mem_cons_self
  have recorded : e.2 ∈ deeds := by
    have among : e.2 ∈ deeds.filter chosen := by
      rw [h.own_eq]
      exact List.mem_append_left _ (List.mem_reverse.mpr looked)
    exact (List.mem_filter.mp among).1
  obtain ⟨earlier, linked⟩ := linked.of_mem recorded
  obtain ⟨r, found⟩ := Option.isSome_iff_exists.mp (Index.holds_iff.mpr (kept noted))
  exact ⟨r, found, linked.results.2 _ (Index.mem_of_find? found)⟩

end

theorem fitting_eq_some {r? : Option TaskResult} {r : TaskResult} :
    fitting kind r? = some r ↔ r? = some r ∧ r.matchesKind kind := Option.filter_eq_some_iff

/-- Nothing is given that was not noted, and nothing twice. -/
theorem shownBy_sublist {ids : List String} {looks : List Deed}
    (there : ∀ e ∈ ids.zip looks, ∃ r, e.2.before.result? e.1 = some r ∧ r.taskId = e.1) :
    ((shownBy kind ids looks).map (·.taskId)).Sublist ids := by
  induction ids generalizing looks with
  | nil => exact .refl _
  | cons id ids ih =>
    cases looks with
    | nil => exact List.nil_sublist _
    | cons d looks =>
      have rest := ih fun e mem => there e (List.mem_cons_of_mem _ mem)
      rw [shownBy, List.zip_cons_cons, List.filterMap_cons]
      split
      · exact rest.cons _
      · next r fits =>
        obtain ⟨r', found, own⟩ := there _ List.mem_cons_self
        cases (fitting_eq_some.mp fits).1.symm.trans found
        rw [List.map_cons, own]
        exact rest.cons_cons _

theorem reading_eq_done {left : List String} {found o : List TaskResult} :
    reading kind left found = .done o ↔ left = [] ∧ found = o := by
  cases left with
  | nil => exact ⟨fun same => ⟨rfl, by cases same; rfl⟩, fun ⟨_, same⟩ => same ▸ rfl⟩
  | cons id rest => exact ⟨fun same => (nomatch same), fun both => (nomatch both.1)⟩

namespace System

/-! A caller amid a listing, while others go on as well. -/

variable {y : System} {i n : Nat} {c : Caller} {old : List Finished}

/-- Where a listing stands that has not come to its end. -/
theorem Traced.underway (h : Traced policy rounds y) (found : y.callers[i]? = some c)
    {p : Steps (List TaskResult)} (current : c.current = some ⟨.list kind, p⟩) :
    let own := y.deeds.filter (Deed.isOf i c.history.length)
    own = [] ∧ p = (Undertaking.list kind).work rounds ∨
      ∃ opening looks, Looks own opening looks ∧
        looks.length < opening.before.results.keys.length ∧
        p = reading kind (opening.before.results.keys.drop looks.length)
          (shownBy kind opening.before.results.keys looks) := by
  have follows := h.callers i c found
  refine (stands_of_cameTo (follows.underway _ current)).imp_right ?_
  rintro ⟨opening, looks, own, -, stands⟩
  refine ⟨opening, looks, own, ?_, stands⟩
  by_contra all
  have complete : p = .done (shownBy kind opening.before.results.keys looks) :=
    stands.trans (reading_eq_done.mpr ⟨List.drop_eq_nil_iff.mpr (Nat.le_of_not_lt all), rfl⟩)
  exact follows.busy _ _ (complete ▸ current)

theorem Traced.ended (h : Traced policy rounds y) (found : y.callers[i]? = some c)
    {later earlier : List Finished} {o : List TaskResult}
    (history : c.history = later ++ ⟨.list kind, o⟩ :: earlier) :
    ∃ opening looks, Looks (y.deeds.filter (Deed.isOf i earlier.length)) opening looks ∧
      Gave kind opening looks o := by
  rcases stands_of_cameTo ((h.callers i c found).ended later _ o earlier history) with
    ⟨-, unstarted⟩ | ⟨opening, looks, own, within, complete⟩
  · rw [work_list] at unstarted
    cases unstarted
  · obtain ⟨none, rfl⟩ := reading_eq_done.mp complete.symm
    have there := own.there h.linked
    exact ⟨opening, looks, own, {
      all := Nat.le_antisymm within (List.drop_eq_nil_iff.mp none)
      ascending := (own.ids h.linked).1
      noted := fun _ => Index.holds_iff.symm
      there
      shown := rfl
      once := shownBy_sublist there }⟩

/-- It asks the contents next, whatever it has found. -/
theorem Traced.asks (h : Traced policy rounds y) (found : y.callers[i]? = some c)
    {p : Steps (List TaskResult)} (current : c.current = some ⟨.list kind, p⟩) :
    ∃ (a : Access) (next : a.Answer → Steps (List TaskResult)), p = .ask (.access a) next := by
  rcases h.underway found current with ⟨-, rfl⟩ | ⟨opening, looks, -, more, rfl⟩
  · exact ⟨_, _, work_list rounds kind⟩
  · rw [List.drop_eq_getElem_cons more]
    exact ⟨_, _, rfl⟩

/-- Amid a listing, after so many deeds for it at least. -/
def Amid (y : System) (i : Nat) (old : List Finished) (kind : Option TaskKind) (n : Nat) : Prop :=
  ∃ c p, y.callers[i]? = some c ∧ c.history = old ∧ c.current = some ⟨.list kind, p⟩ ∧
    n ≤ (y.deeds.filter (Deed.isOf i old.length)).length

def Over (y : System) (i : Nat) (old : List Finished) (kind : Option TaskKind) : Prop :=
  ∃ (c : Caller) (later : List Finished) (o : List TaskResult), y.callers[i]? = some c ∧
    c.history = later ++ ⟨.list kind, o⟩ :: old

theorem Over.step (h : Over y i old kind) (e : Event) : Over (y.step rounds e) i old kind := by
  obtain ⟨c, later, o, found, history⟩ := h
  obtain ⟨c', now, ⟨more, grew⟩, -⟩ := step_caller rounds found e
  exact ⟨c', more ++ later, o, now, by rw [← grew, history, List.append_assoc]⟩

theorem Amid.of_other (h : Amid y i old kind n) {e : Event} (other : e.goes i = false) :
    Amid (y.step rounds e) i old kind n := by
  obtain ⟨c, p, found, history, current, often⟩ := h
  obtain ⟨c', now, -, same⟩ := step_caller rounds found e
  cases same (by rw [current]; rfl) other
  have more := ((y.step_deeds rounds e).sublist.filter (Deed.isOf i old.length)).length_le
  exact ⟨c, p, now, history, current, Nat.le_trans often more⟩

/-- Each step of its own is one more deed. -/
theorem Amid.go (h : Amid y i old kind n) (traced : Traced policy rounds y)
    (around : Surroundings) :
    Amid (y.go i around) i old kind (n + 1) ∨ Over (y.go i around) i old kind := by
  obtain ⟨c, p, found, rfl, current, often⟩ := h
  obtain ⟨a, next, rfl⟩ := traced.asks found current
  rw [go_of_access found current]
  have here (d : Caller) : (y.callers.set i d)[i]? = some d := by
    rw [List.getElem?_set_self', found]
    rfl
  have more (clock : Instant) : n + 1 ≤ ((⟨i, c.history.length, a, clock, y.queue⟩ ::
      y.deeds).filter (Deed.isOf i c.history.length)).length := by
    rw [List.filter_cons_of_pos (by simp [Deed.isOf])]
    exact Nat.succ_le_succ often
  generalize next _ = p
  rcases settle_cases { c with current := some ⟨.list kind, p⟩ } with ⟨u, o, now, settled⟩ | settled
  · cases now
    exact .inr ⟨_, [], o, (here _).trans (congrArg some settled), rfl⟩
  · exact .inl ⟨_, _, (here _).trans (congrArg some settled), rfl, rfl, more _⟩

/-- It has no more deeds than there are results. -/
theorem Amid.few (h : Amid y i old kind n) (traced : Traced policy rounds y) :
    n ≤ y.queue.results.length := by
  obtain ⟨c, p, found, rfl, current, often⟩ := h
  rcases traced.underway found current with ⟨none, -⟩ | ⟨opening, looks, own, more, -⟩
  · rw [none] at often
    exact Nat.le_trans often (Nat.zero_le _)
  · obtain ⟨once, still⟩ := own.ids traced.linked
    have grew := length_le_of_keys once still
    have count := congrArg List.length own.own_eq
    rw [List.length_append, List.length_reverse, List.length_singleton] at count
    omega

/-- As many steps of its own as there are results, and one for their ids, are enough. -/
theorem run_over (h : Amid y i old kind n ∨ Over y i old kind) (traced : Traced policy rounds y)
    {more : List Event}
    (often : (y.run rounds more).queue.results.length < n + more.countP (Event.goes i)) :
    Over (y.run rounds more) i old kind := by
  induction more generalizing y n with
  | nil => exact h.resolve_left fun amid => Nat.not_lt.mpr (amid.few traced) often
  | cons e more ih =>
    refine ih (n := n + if e.goes i then 1 else 0) ?_ (traced.step e) ?_
    · rcases h with amid | complete
      · cases goes : e.goes i with
        | false => exact .inl (amid.of_other goes)
        | true =>
          cases e with
          | begin => cases goes
          | go j around =>
            obtain rfl : j = i := by simpa [Event.goes] using goes
            exact amid.go traced around
      · exact .inr (complete.step e)
    · rw [List.countP_cons] at often
      rwa [Nat.add_assoc, Nat.add_comm (ite _ _ _)]

/-- At every moment of every run of any callers, what is there under an id is what was saved last.
A listing that has ended noted the ids that were there when it was opened, in ascending order, then
looked up each of them once, in this order, and found the result of that task each time; it gave
those of the kind asked for, as they were when they were looked up. A listing that has not ended has
come so far with some of the ids; and it ends, for it needs no more steps of its own than there are
results, and one to note their ids. -/
theorem run_lists_what_is_there (policy : RetryPolicy) (rounds callers : Nat)
    (events : List Event) :
    let y := (fresh policy callers).run rounds events
    let own (i turn : Nat) : List Deed := y.deeds.filter (Deed.isOf i turn)
    (∀ later d earlier, y.deeds = later ++ d :: earlier →
      ∀ id, d.before.result? id = earlier.findSome? (Deed.saves? id)) ∧
    ∀ (i : Nat) (c : Caller) (kind : Option TaskKind), y.callers[i]? = some c →
      (∀ later found earlier, c.history = later ++ ⟨.list kind, found⟩ :: earlier →
        ∃ opening looks, Looks (own i earlier.length) opening looks ∧
          Gave kind opening looks found) ∧
      ∀ p, c.current = some ⟨.list kind, p⟩ →
        (own i c.history.length = [] ∧ p = (Undertaking.list kind).work rounds ∨
          ∃ opening looks, Looks (own i c.history.length) opening looks ∧
            let ids := opening.before.results.keys
            looks.length < ids.length ∧
            p = reading kind (ids.drop looks.length) (shownBy kind ids looks)) ∧
        ∀ more : List Event,
          (y.run rounds more).queue.results.length < more.countP (Event.goes i) →
          ∃ (d : Caller) (later : List Finished) (found : List TaskResult),
            (y.run rounds more).callers[i]? = some d ∧
            d.history = later ++ ⟨.list kind, found⟩ :: c.history := by
  intro y own
  have traced : Traced policy rounds y := (traced_fresh policy rounds callers).run events
  refine ⟨fun later d earlier split => ?_, fun i c kind there => ⟨fun later found earlier history =>
    traced.ended there history, fun p current => ⟨traced.underway there current,
    fun more often => ?_⟩⟩⟩
  · exact (Linked.before (split ▸ traced.linked)).result?
  · exact run_over (n := 0) (.inl ⟨c, p, there, rfl, current, Nat.zero_le _⟩) traced
      (by rwa [Nat.zero_add])

private def lull : Surroundings
  | .access a => (a.perform {} .epoch {}).1
  | .clock => .epoch
  | .elapsed => ⟨0⟩
  | .ring | .announce => ()
  | .announced => (0 : Nat)
  | .attend _ | .attendResult _ _ => false

private def crop (id : String) (kind : TaskKind) (attempts : UInt32) : TaskResult :=
  ⟨id, some kind, .ok, [], .epoch, attempts⟩

private def saved (r : TaskResult) : List Event :=
  [.begin 1 (.call (.publish r)), .go 1 lull, .go 1 lull]

/-- A listing is opened when there are figs, dates and plums, and has come to the dates. Then there
are other dates, the figs are not rendered any more, the plums are, and there are elderberries. -/
private def harvest : List Event :=
  saved (crop "fig" .render 1) ++ saved (crop "date" .render 1) ++ saved (crop "plum" .mutate 1) ++
  [.begin 0 (.list (some .render)), .go 0 lull, .go 0 lull] ++
  saved (crop "date" .render 2) ++ saved (crop "fig" .execute 2) ++ saved (crop "plum" .render 2) ++
  saved (crop "elder" .render 1) ++ [.go 0 lull, .go 0 lull, .begin 2 (.list none), .go 2 lull]

private def sales : List Event :=
  saved (crop "grape" .render 1) ++ List.replicate 6 (.go 2 lull)

theorem run_lists_plums :
    let y := (fresh {} 3).run 3 harvest
    (∃ opening looks, Looks (y.deeds.filter (Deed.isOf 0 0)) opening looks ∧
      [crop "date" .render 1, crop "plum" .render 2] =
        shownBy (some .render) opening.before.results.keys looks) ∧
    (∃ opening looks, Looks (y.deeds.filter (Deed.isOf 2 0)) opening looks ∧
      looks.length < opening.before.results.keys.length) ∧
    ∃ (d : Caller) (later : List Finished) (found : List TaskResult),
      (y.run 3 sales).callers[2]? = some d ∧ d.history = later ++ [⟨.list none, found⟩] := by
  intro y
  obtain ⟨-, lists⟩ := run_lists_what_is_there {} 3 3 harvest
  obtain ⟨opening, looks, own, gave⟩ := (lists 0 _ (some .render) rfl).1 [] _ [] rfl
  obtain ⟨stands, ends⟩ := (lists 2 _ none rfl).2 _ rfl
  refine ⟨⟨opening, looks, own, gave.shown⟩, ?_, ends sales (by decide +kernel)⟩
  rcases stands with ⟨none, -⟩ | ⟨opening, looks, own, more, -⟩
  · cases none
  · exact ⟨opening, looks, own, more⟩

end System

end LocalQueue

end ClaimQueue
