import ClaimQueue.Proofs.Broker.Stock

/-! Who writes and drops the claim of a task. Each call that does so has seen an entry of the task
before, and does it on account of that entry. What came up since, it does not see.
-/

namespace ClaimQueue

namespace Broker

open Server

/-- The claim of a task is on an entry newer than this. -/
def Server.Newer (x : String) (n : Nat) (w : Server) : Prop :=
  ∃ m owner, n < m ∧ Index.find? x w.claims = some (claimValue (entryId m) owner)

/-- `d` writes or drops the claim of a task, on account of an entry that `l` has shown. -/
inductive Deed.Touches (x : String) (n : Nat) (l d : Deed) : Prop
  | claim {body : Option (List UInt8)} (shown : l.Delivers (n, body)) (own : EntryOf x (n, body))
      (ask : d.ask = .send (.setClaim x (claimValue (entryId n) d.settings.consumer)))
  | forget (shown : l.Finds x (entryId n)) (ask : d.ask = .send (.dropClaim x))
  | retire {front : List Command} (shown : l.Finds x (entryId n))
      (ask : d.ask = .transaction (handling front (entryId n) (some x)))
  | move {body : Option (List UInt8)} {front : List Command} (shown : l.TakesOver (n, body))
      (own : EntryOf x (n, body)) (ask : d.ask = .transaction (handling front (entryId n) (some x)))

theorem not_mem_of_handling {d : Deed} {front : List Command} {n : Nat} {id : Option String}
    (ask : d.ask = .transaction (handling front (entryId n) id)) :
    ∀ e ∈ d.after.entries, e.1 ≠ n := by
  intro e mem
  rw [d.after_handling ask, unclaimed_entries, mem_without] at mem
  exact mem.2

theorem mem_of_looksUp_none {l : Deed} {n : Nat} (stocked : l.before.Stocked fun _ => True)
    (h : l.LooksUp (entryId n) none) : ∀ e ∈ l.before.entries, e.1 ≠ n := by
  rintro e mem rfl
  have here : e ∈ l.before.entries.filter fun f => entryId f.1 == entryId e.1 :=
    List.mem_filter.mpr ⟨mem, beq_self_eq_true _⟩
  have looked := h.2
  cases first : (l.before.entries.filter fun f => entryId f.1 == entryId e.1).head? with
  | none =>
    rw [List.head?_eq_none_iff] at first
    rw [first] at here
    cases here
  | some f =>
    obtain ⟨u, -, body⟩ := stocked.entries f (List.mem_filter.mp (List.mem_of_mem_head? first)).1
    rw [first, Option.bind_some, body] at looked
    cases looked

section

variable {rounds : Nat} {x : String} {deeds : List Deed} {d : Deed}

/-- The entry that was looked up had been delivered. -/
theorem Course.delivered_of_looksUp {w : Server} (h : Course rounds Undertaking.Handles deeds w)
    {l : Deed} (mem : l ∈ deeds) {n : Nat} {body : Option (List UInt8)}
    (looked : l.LooksUp (entryId n) body) : n ≤ l.before.delivered := by
  obtain ⟨later, earlier, rfl⟩ := List.append_of_mem mem
  obtain ⟨course, handles, follows⟩ := h.earlier
  obtain ⟨m, mem', id, finds⟩ := follows.finds handles looked.1
  have mem' := (List.mem_filter.mp mem').1
  have sound := course.sound_for_all.2 m mem'
  obtain ⟨k, same, delivered, -⟩ := names_of_finds finds sound.ordered sound.labelled (course.grew mem')
  exact entryId_injective same ▸ delivered

/-- Whatever changes the claim of a task does so on account of an entry of its own call. This is the
pop that claims it, or claim and entry are gone. -/
theorem Course.touches (course : Course rounds Undertaking.Handles deeds d.before)
    (handles : d.undertaking.Handles) (follows : d.Follows rounds deeds)
    (changed : Index.find? x d.after.claims ≠ Index.find? x d.before.claims) :
    ∃ l ∈ deeds.filter (Deed.isOf d.client d.turn), ∃ n, Deed.Touches x n l d ∧
      ((∃ body, l.Delivers (n, body)) ∧
          d.ask = .send (.setClaim x (claimValue (entryId n) d.settings.consumer)) ∨
        Index.find? x d.after.claims = none ∧ ∀ e ∈ d.after.entries, e.1 ≠ n) := by
  have sound {l : Deed} (mem : l ∈ deeds.filter (Deed.isOf d.client d.turn)) :
      l.before.Sound fun _ => True := course.sound_for_all.2 l (List.mem_filter.mp mem).1
  have erased {id : String} (claims : d.after.claims = Index.erase id d.before.claims) :
      id = x ∧ Index.find? x d.after.claims = none := by
    have own : id = x := by
      by_contra other
      exact changed (claims ▸ Index.find?_erase_of_ne other _)
    refine ⟨own, ?_⟩
    rw [claims, own]
    exact Index.find?_erase_self course.sound_for_all.1.labelled.ascending
  cases follows.act handles with
  | look looks => exact absurd (congrArg _ (congrArg claims (d.after_of_looks looks))) changed
  | save ask | takeOver _ _ ask | enqueue _ _ ask =>
    exact absurd (by rw [d.after_of ask]; rfl) changed
  | read wait ask =>
    obtain ⟨time, after⟩ := Deed.entries_of_read ask
    refine absurd ?_ changed
    rw [after, deliver_eq]
    cases d.before.waiting.head? <;> rfl
  | drop _ _ _ aside ask =>
    refine absurd ?_ changed
    rw [d.after_handling ask]
    rcases aside with rfl | ⟨body, rfl⟩ <;> rfl
  | @claim l e t mem found task ask =>
    have own : t.id = x := by
      by_contra other
      refine changed ?_
      rw [d.after_of ask]
      exact (Index.find?_put x t.id _ _).trans (if_neg other)
    subst own
    have entryOf := entryOf_of_seen (sound mem).stocked (mem_of_delivers found).1 task
    exact ⟨l, mem, e.1, .claim found entryOf ask, .inl ⟨⟨e.2, found⟩, ask⟩⟩
  | @forget id entry l m mem found mem' looked ask =>
    obtain ⟨rfl, none⟩ := erased (by rw [d.after_of ask]; rfl)
    obtain ⟨n, rfl, -, -⟩ := names_of_finds found (sound mem).ordered (sound mem).labelled (.refl _)
    refine ⟨l, mem, n, .forget found ask, .inr ⟨none, fun e there number => ?_⟩⟩
    have mem' := (List.mem_filter.mp mem').1
    have there : e ∈ d.before.entries := by
      rw [d.after_of ask] at there
      exact there
    rcases (course.grew mem').entries e there with old | newer
    · exact absurd number
        (mem_of_looksUp_none (course.sound_for_all.2 m mem').stocked looked e old)
    · have := course.delivered_of_looksUp mem' looked
      have := (course.sound_for_all.2 m mem').ordered.delivered
      omega
  | @ack id entry call l mem found ask =>
    obtain ⟨rfl, none⟩ := erased (by rw [d.after_handling ask]; rfl)
    obtain ⟨n, rfl, -, -⟩ := names_of_finds found (sound mem).ordered (sound mem).labelled (.refl _)
    exact ⟨l, mem, n, .retire found ask, .inr ⟨none, not_mem_of_handling ask⟩⟩
  | @putBack id entry body l m mem found mem' looked ask =>
    obtain ⟨rfl, none⟩ := erased (by rw [d.after_handling ask]; rfl)
    obtain ⟨n, rfl, -, -⟩ := names_of_finds found (sound mem).ordered (sound mem).labelled (.refl _)
    exact ⟨l, mem, n, .retire found ask, .inr ⟨none, not_mem_of_handling ask⟩⟩
  | @move l e t mem found task now ask =>
    have claims : d.after.claims = Index.erase t.id d.before.claims := by
      rw [d.after_handling ask]
      unfold Calls.moved
      split <;> rfl
    obtain ⟨rfl, none⟩ := erased claims
    have entryOf := entryOf_of_seen (sound mem).stocked (mem_of_takesOver found) task
    exact ⟨l, mem, e.1, .move found entryOf ask, .inr ⟨none, not_mem_of_handling ask⟩⟩

/-- A claim that is found after a deed was written by it, or was there before. -/
theorem Course.claim_before (course : Course rounds Undertaking.Handles deeds d.before)
    (handles : d.undertaking.Handles) (follows : d.Follows rounds deeds) {value : String}
    (found : Index.find? x d.after.claims = some value) :
    d.ask = .send (.setClaim x value) ∨ Index.find? x d.before.claims = some value := by
  by_cases same : Index.find? x d.after.claims = Index.find? x d.before.claims
  · exact .inr (same ▸ found)
  · obtain ⟨l, mem, n, -, ⟨-, ask⟩ | ⟨none, -⟩⟩ := course.touches handles follows same
    · have written : Index.find? x d.after.claims =
          some (claimValue (entryId n) d.settings.consumer) := by
        rw [d.after_of ask]
        exact (Index.find?_put x x _ _).trans (if_pos rfl)
      exact .inl (Option.some.inj (written.symm.trans found) ▸ ask)
    · cases none.symm.trans found

/-- A claim that stands was written by a pop. -/
theorem Course.claim_written {w : Server} (h : Course rounds Undertaking.Handles deeds w)
    {value : String} (found : Index.find? x w.claims = some value) :
    ∃ p ∈ deeds, p.ask = .send (.setClaim x value) := by
  induction h with
  | start => cases found
  | wait s _ ih => exact ih found
  | deed d course handles follows ih =>
    rcases course.claim_before handles follows found with ask | before
    · exact ⟨d, List.mem_cons_self, ask⟩
    · obtain ⟨p, mem, ask⟩ := ih before
      exact ⟨p, List.mem_cons_of_mem _ mem, ask⟩

/-- It was written since a deed of the past, by that deed, or stood before it. -/
theorem Course.claim_since {w : Server} {since earlier : List Deed} {l : Deed}
    (h : Course rounds Undertaking.Handles (since ++ l :: earlier) w) {value : String}
    (found : Index.find? x w.claims = some value) :
    (∃ p ∈ since, p.ask = .send (.setClaim x value)) ∨ l.ask = .send (.setClaim x value) ∨
      Index.find? x l.before.claims = some value := by
  generalize split : since ++ l :: earlier = all at h
  induction h generalizing since with
  | start => simp at split
  | wait s _ ih => exact ih found split
  | deed d course handles follows ih =>
    have step := course.claim_before handles follows found
    cases since with
    | nil =>
      obtain ⟨rfl, rfl⟩ := List.cons.inj split
      exact .inr step
    | cons _ since =>
      obtain ⟨rfl, rest⟩ := List.cons.inj split
      rcases step with ask | before
      · exact .inl ⟨_, List.mem_cons_self, ask⟩
      · exact (ih before rest).imp_left
          fun ⟨p, mem, ask⟩ => ⟨p, List.mem_cons_of_mem _ mem, ask⟩

/-- A claim on a newer entry, that stands when `d` comes, was written since `l`, or a takeover paid it
no attention. -/
def Deed.Overlooks (x : String) (n : Nat) (l d : Deed) (since : List Deed) : Prop :=
  ∃ m owner, n < m ∧
    Index.find? x d.before.claims = some (claimValue (entryId m) owner) ∧
    ((∃ p ∈ since, p.ask = .send (.setClaim x (claimValue (entryId m) owner))) ∨
      (∃ body, l.TakesOver (n, body)) ∧
        Index.find? x l.before.claims = some (claimValue (entryId m) owner))

/-- No claim on a newer entry stood when an entry was found by its claim, or delivered. -/
theorem Course.newer_iff {since earlier : List Deed} {l : Deed} {n : Nat}
    (h : Course rounds Undertaking.Handles (since ++ l :: earlier) d.before)
    (touches : Deed.Touches x n l d) : d.before.Newer x n ↔ Deed.Overlooks x n l d since := by
  constructor
  · rintro ⟨m, owner, newer, stands⟩
    refine ⟨m, owner, newer, stands, ?_⟩
    have sound := h.sound_for_all.2 l (List.mem_append_right _ List.mem_cons_self)
    have finds (shown : l.Finds x (entryId n))
        (before : Index.find? x l.before.claims = some (claimValue (entryId m) owner)) : False := by
      obtain ⟨-, claim, found, parts⟩ := shown
      cases found.symm.trans before
      have := entryId_injective (claimParts?_claimValue parts).1
      omega
    rcases h.claim_since stands with written | ask | before
    · exact .inl written
    · exfalso
      cases touches with
      | claim shown =>
        obtain ⟨⟨_, ask' | ask'⟩, -⟩ := shown
        · cases ask.symm.trans ask'
        · cases ask.symm.trans ask'
      | forget shown => cases ask.symm.trans shown.1
      | retire shown => cases ask.symm.trans shown.1
      | move shown =>
        obtain ⟨_, _, ask', -⟩ := shown
        cases ask.symm.trans ask'
    -- It stood at the look: only a takeover does not mind.
    · cases touches with
      | claim shown =>
        obtain ⟨k, owner', value, delivered, -⟩ :=
          sound.labelled.claims _ (Index.mem_of_find? before)
        have := (claimValue_injective value).1
        have := (mem_of_delivers shown).2
        have : l.before.delivered < n := this
        omega
      | forget shown => exact (finds shown before).elim
      | retire shown => exact (finds shown before).elim
      | move shown => exact .inr ⟨⟨_, shown⟩, before⟩
  · rintro ⟨m, owner, newer, stands, -⟩
    exact ⟨m, owner, newer, stands⟩

end

end Broker

end ClaimQueue
