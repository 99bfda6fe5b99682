import ClaimQueue.Proofs.Broker.Claims
import Mathlib.Data.List.Pairwise

/-! The newest holder of a task. As long as nobody disturbs a newer claim, the claim of the newest
delivery stands until its entry goes; so the acknowledgement of its holder finds it.
-/

namespace ClaimQueue

namespace Broker

open Server

variable {rounds : Nat} {allowed : Undertaking → Prop} {x : String} {deeds : List Deed} {w : Server}

/-! Deliveries. -/

theorem Course.le_delivered (h : Course rounds allowed deeds w) {l : Deed} (mem : l ∈ deeds)
    {e : Nat × Option (List UInt8)} (shown : l.Delivers e) : e.1 ≤ w.delivered :=
  delivered_of_delivers shown ▸ (h.grew_after mem).delivered

theorem eq_of_once {P : Deed → Prop} (once : deeds.Pairwise fun l m => ¬ (P l ∧ P m)) {l m : Deed}
    (mem : l ∈ deeds) (mem' : m ∈ deeds) (fits : P l) (fits' : P m) : l = m := by
  have : Std.Symm fun l m => ¬ (P l ∧ P m) := ⟨fun l m none both => none both.symm⟩
  by_contra different
  exact once.forall mem mem' different ⟨fits, fits'⟩

/-- An entry is delivered once. -/
theorem Course.delivers_once (h : Course rounds allowed deeds w) (n : Nat) :
    deeds.Pairwise fun l m => ¬ ((∃ e, l.Delivers e ∧ e.1 = n) ∧ ∃ e, m.Delivers e ∧ e.1 = n) := by
  induction h with
  | start => exact .nil
  | wait s _ ih => exact ih
  | deed d course _ _ ih =>
    refine List.pairwise_cons.mpr ⟨?_, ih⟩
    rintro m mem ⟨⟨e, shown, rfl⟩, f, shown', same⟩
    have := course.le_delivered mem shown'
    have := (mem_of_delivers shown).2
    omega

theorem Act.delivered {own : List Deed} {d : Deed} (act : Act own d) :
    d.after.delivered = d.before.delivered ∨ ∃ e, d.Delivers e := by
  cases act with
  | look looks => exact .inl (congrArg _ (d.after_of_looks looks))
  | save ask | takeOver _ _ ask | enqueue _ _ ask | claim _ _ _ ask | forget _ _ _ _ ask =>
    exact .inl (by rw [d.after_of ask]; rfl)
  | read wait ask =>
    obtain ⟨time, after⟩ := Deed.entries_of_read ask
    rw [after, deliver_eq]
    cases first : d.before.waiting.head? with
    | none => exact .inl rfl
    | some e => exact .inr ⟨e, ⟨wait, ask⟩, first⟩
  | drop _ _ _ aside ask =>
    rw [d.after_handling ask, unclaimed_delivered]
    rcases aside with rfl | ⟨body, rfl⟩
    · exact .inl rfl
    · exact .inl rfl
  | ack _ _ _ ask | putBack _ _ _ _ ask =>
    rw [d.after_handling ask, unclaimed_delivered]
    exact .inl rfl
  | move _ _ _ now ask =>
    rw [d.after_handling ask, unclaimed_delivered]
    unfold Calls.moved
    split
    · exact .inl rfl
    · exact .inl rfl

/-- What is not new any more was delivered by a deed. -/
theorem Course.delivered_by (h : Course rounds Undertaking.Handles deeds w)
    {e : Nat × Option (List UInt8)} (mem : e ∈ w.entries) (old : e.1 ≤ w.delivered) :
    ∃ l ∈ deeds, l.Delivers e := by
  induction h with
  | start => cases mem
  | wait s _ ih => exact ih mem old
  | @deed d deeds course handles follows ih =>
    have ordered := course.ordered
    have earlier (mem : e ∈ d.before.entries) (old : e.1 ≤ d.before.delivered) :
        ∃ l ∈ d :: deeds, l.Delivers e := by
      obtain ⟨l, mem, shown⟩ := ih mem old
      exact ⟨l, List.mem_cons_of_mem _ mem, shown⟩
    have before (bound : e.1 ≤ d.before.newest) : e ∈ d.before.entries :=
      ((answer_grew d.settings d.ask d.before).entries e mem).resolve_right
        fun newer => absurd bound (Nat.not_le.mpr newer)
    rcases (follows.act handles).delivered with same | ⟨f, shown⟩
    · rw [same] at old
      exact earlier (before (Nat.le_trans old ordered.delivered)) old
    · rw [delivered_of_delivers shown] at old
      have there := (mem_of_delivers shown).1
      have mem := before (Nat.le_trans old (ordered.numbered f there))
      by_cases new : d.before.delivered < e.1
      · have le := head_waiting_le ordered shown.2 (mem_waiting.mpr ⟨mem, new⟩)
        obtain rfl := eq_of_number ordered.ascending mem there (Nat.le_antisymm old le)
        exact ⟨d, List.mem_cons_self, shown⟩
      · exact earlier mem (Nat.not_lt.mp new)

/-! Who holds what. -/

/-- A pop that writes a claim was delivered an entry of the task, in the same call. -/
theorem Course.written_by (h : Course rounds Undertaking.Handles deeds w) {p : Deed}
    (mem : p ∈ deeds) {value : String} (ask : p.ask = .send (.setClaim x value)) :
    ∃ l ∈ deeds, l.settings = p.settings ∧ ∃ e, l.Delivers e ∧ EntryOf x e ∧
      value = claimValue (entryId e.1) p.settings.consumer := by
  obtain ⟨later, earlier, rfl⟩ := List.append_of_mem mem
  obtain ⟨course, handles, follows⟩ := h.earlier
  cases follows.act handles with
  | @claim l e t own found task ask' =>
    cases ask.symm.trans ask'
    have mem' := (List.mem_filter.mp own).1
    obtain ⟨-, -, -, -, owns⟩ := follows
    refine ⟨l, List.mem_append_right _ (List.mem_cons_of_mem _ mem'), (owns l own).2, e, found, ?_, rfl⟩
    exact entryOf_of_seen (course.sound_for_all.2 l mem').stocked (mem_of_delivers found).1 task
  | look looks =>
    rw [ask] at looks
    cases looks
  | read _ ask' =>
    rcases ask' with ask' | ask'
    · cases ask.symm.trans ask'
    · cases ask.symm.trans ask'
  | save ask' | takeOver _ _ ask' | enqueue _ _ ask' | forget _ _ _ _ ask' | drop _ _ _ _ ask'
  | ack _ _ _ ask' | putBack _ _ _ _ ask' | move _ _ _ _ ask' => cases ask.symm.trans ask'

/-- The entry that a deed acts on was delivered before. -/
theorem Course.delivered_of_touches (h : Course rounds Undertaking.Handles deeds w) {l d : Deed}
    (mem : l ∈ deeds) {n : Nat} (touches : Deed.Touches x n l d) :
    ∃ q ∈ deeds, ∃ e, q.Delivers e ∧ EntryOf x e ∧ e.1 = n := by
  obtain ⟨later, earlier, rfl⟩ := List.append_of_mem mem
  obtain ⟨course, -, -⟩ := h.earlier
  have past {q : Deed} (mem : q ∈ earlier) : q ∈ later ++ l :: earlier :=
    List.mem_append_right _ (List.mem_cons_of_mem _ mem)
  have finds (shown : l.Finds x (entryId n)) :
      ∃ q ∈ later ++ l :: earlier, ∃ e, q.Delivers e ∧ EntryOf x e ∧ e.1 = n := by
    obtain ⟨-, claim, found, parts⟩ := shown
    obtain ⟨p, written, ask⟩ := course.claim_written found
    obtain ⟨q, mem, -, e, shown, own, rfl⟩ := course.written_by written ask
    exact ⟨q, past mem, e, shown, own, entryId_injective (claimParts?_claimValue parts).1.symm⟩
  cases touches with
  | claim shown own => exact ⟨l, mem, _, shown, own, rfl⟩
  | forget shown => exact finds shown
  | retire shown => exact finds shown
  | move shown own =>
    obtain ⟨_, _, _, g, taken, found⟩ := shown
    have held : g ∈ l.before.held :=
      List.mem_of_mem_take (List.mem_filter.mp (List.mem_of_mem_take taken)).1
    obtain ⟨there, number⟩ := mem_of_find? found
    obtain ⟨q, mem, shown⟩ := course.delivered_by there (number ▸ course.ordered.held g held)
    exact ⟨q, past mem, _, shown, own, rfl⟩

/-- In this record `l`, and then `since`, come before `d`, which is of the same call as `l`. -/
def Leads (deeds : List Deed) (l : Deed) (since : List Deed) (d : Deed) : Prop :=
  (∃ later earlier, deeds = later ++ d :: (since ++ l :: earlier)) ∧
    l.client = d.client ∧ l.turn = d.turn

/-- Nobody writes or drops the claim of a task on account of an older entry than it is on. -/
def Undisturbed (x : String) (deeds : List Deed) : Prop :=
  ∀ l since d, Leads deeds l since d → ∀ n, Deed.Touches x n l d → ¬ d.before.Newer x n

theorem Undisturbed.earlier {later : List Deed} (h : Undisturbed x (later ++ deeds)) :
    Undisturbed x deeds := by
  rintro l since d ⟨⟨last, earlier, rfl⟩, same⟩
  exact h l since d ⟨⟨later ++ last, earlier, (List.append_assoc ..).symm⟩, same⟩

theorem Undisturbed.tail {d : Deed} (h : Undisturbed x (d :: deeds)) : Undisturbed x deeds :=
  Undisturbed.earlier (show Undisturbed x ([d] ++ deeds) from h)

theorem leads_of_own {l d : Deed} (mem : l ∈ deeds.filter (Deed.isOf d.client d.turn)) :
    ∃ since, Leads (d :: deeds) l since d := by
  obtain ⟨mem, same⟩ := List.mem_filter.mp mem
  obtain ⟨since, earlier, rfl⟩ := List.append_of_mem mem
  simp only [Deed.isOf, Bool.and_eq_true, beq_iff_eq] at same
  exact ⟨since, ⟨[], earlier, rfl⟩, same⟩

/-- The claim of the newest delivery stands, until its entry goes. -/
theorem Course.claim_stands (h : Course rounds Undertaking.Handles deeds w)
    (calm : Undisturbed x deeds) {p : Deed} (mem : p ∈ deeds) {n : Nat}
    (ask : p.ask = .send (.setClaim x (claimValue (entryId n) p.settings.consumer)))
    (newest : ∀ q ∈ deeds, ∀ e, q.Delivers e → EntryOf x e → e.1 ≤ n)
    (there : ∃ e ∈ w.entries, e.1 = n) :
    Index.find? x w.claims = some (claimValue (entryId n) p.settings.consumer) := by
  have written {d : Deed}
      (ask : d.ask = .send (.setClaim x (claimValue (entryId n) d.settings.consumer))) :
      Index.find? x d.after.claims = some (claimValue (entryId n) d.settings.consumer) := by
    rw [d.after_of ask]
    exact (Index.find?_put x x _ _).trans (if_pos rfl)
  induction h with
  | start => cases mem
  | wait s _ ih => exact ih calm mem newest there
  | @deed d deeds course handles follows ih =>
    rcases List.mem_cons.mp mem with rfl | mem
    · exact written ask
    -- The claim stood before, as its entry was there. Whatever changes it now acts on an entry that
    -- is no older, for nobody is late, and no newer, for none was delivered.
    · obtain ⟨q, delivering, settings, e, shown, -, value⟩ := course.written_by mem ask
      have number : n = e.1 := (claimValue_injective value).1
      have before : Index.find? x d.before.claims =
          some (claimValue (entryId n) p.settings.consumer) := by
        refine ih calm.tail mem
          (fun q mem => newest q (List.mem_cons_of_mem _ mem)) ?_
        obtain ⟨f, there, same⟩ := there
        refine ⟨f, ((answer_grew d.settings d.ask d.before).entries f there).resolve_right
          fun newer => ?_, same⟩
        have := course.le_delivered delivering shown
        have := course.ordered.delivered
        omega
      by_cases same : Index.find? x d.after.claims = Index.find? x d.before.claims
      · exact same.trans before
      · obtain ⟨l, own, k, touches, rest⟩ := course.touches handles follows same
        have mem' := (List.mem_filter.mp own).1
        have newer : n ≤ k := by
          obtain ⟨since, leads⟩ := leads_of_own own
          by_contra older
          exact calm l since d leads k touches ⟨n, _, Nat.not_le.mp older, before⟩
        have older : k ≤ n := by
          obtain ⟨m, mem, f, shown, own, rfl⟩ := course.delivered_of_touches mem' touches
          exact newest m (List.mem_cons_of_mem _ mem) f shown own
        obtain rfl := Nat.le_antisymm newer older
        rcases rest with ⟨⟨body, shown'⟩, ask'⟩ | ⟨-, gone⟩
        · obtain rfl := eq_of_once (course.delivers_once n) mem' delivering ⟨_, shown', rfl⟩
            ⟨e, shown, number.symm⟩
          obtain ⟨-, -, -, -, owns⟩ := follows
          have same : d.settings = p.settings := (owns l own).2.symm.trans settings
          rw [written ask', same]
        · obtain ⟨f, there, same⟩ := there
          exact absurd same (gone f there)

/-- Nobody comes late as long as a task is delivered once. -/
theorem Course.undisturbed_of_one_delivery (h : Course rounds Undertaking.Handles deeds w)
    (one : ∀ l ∈ deeds, ∀ m ∈ deeds, ∀ e f, l.Delivers e → m.Delivers f → EntryOf x e →
      EntryOf x f → e.1 = f.1) : Undisturbed x deeds := by
  rintro l since d ⟨⟨later, earlier, rfl⟩, -⟩ n touches ⟨m, owner, newer, stands⟩
  have course := h.earlier.1
  have past {q : Deed} (mem : q ∈ since ++ l :: earlier) : q ∈ later ++ d :: (since ++ l :: earlier) :=
    List.mem_append_right _ (List.mem_cons_of_mem _ mem)
  have mem : l ∈ since ++ l :: earlier := List.mem_append_right _ List.mem_cons_self
  obtain ⟨q, mem', e, shown, own, rfl⟩ := course.delivered_of_touches mem touches
  obtain ⟨p, written, ask⟩ := course.claim_written stands
  obtain ⟨r, mem'', -, f, shown', own', value⟩ := course.written_by written ask
  have := one q (past mem') r (past mem'') e f shown shown' own own'
  have := (claimValue_injective value).1
  omega

end Broker

end ClaimQueue
