import ClaimQueue.Proofs.Broker.Course

/-! The stream under any commands. Entries are numbered in order of arrival and never change: an
entry of a later stream is either one of the earlier stream or newer than all of them. -/

namespace ClaimQueue

namespace Broker

namespace Server

/-- Numbers ascend, up to the newest, and what was delivered is no newer than the last delivered
entry. -/
structure Ordered (w : Server) : Prop where
  ascending : (w.entries.map Prod.fst).Pairwise (· < ·)
  numbered : ∀ e ∈ w.entries, e.1 ≤ w.newest
  delivered : w.delivered ≤ w.newest
  held : ∀ h ∈ w.held, h.entry ≤ w.delivered

theorem ordered_empty (clock : Instant) : Ordered { grouped := true, clock } where
  ascending := .nil
  numbered _ none := (List.not_mem_nil none).elim
  delivered := Nat.le_refl _
  held _ none := (List.not_mem_nil none).elim

/-- No entry of `w` has changed in `v`; it may be gone. -/
structure Grew (w v : Server) : Prop where
  newest : w.newest ≤ v.newest
  delivered : w.delivered ≤ v.delivered
  entries : ∀ e ∈ v.entries, e ∈ w.entries ∨ w.newest < e.1

theorem Grew.refl (w : Server) : Grew w w := ⟨Nat.le_refl _, Nat.le_refl _, fun _ mem => .inl mem⟩

theorem Grew.trans {u v w : Server} (uv : Grew u v) (vw : Grew v w) : Grew u w where
  newest := Nat.le_trans uv.newest vw.newest
  delivered := Nat.le_trans uv.delivered vw.delivered
  entries e mem := (vw.entries e mem).elim (uv.entries e)
    fun newer => .inr (Nat.lt_of_le_of_lt uv.newest newer)

theorem eq_of_number {entries : List (Nat × Option (List UInt8))}
    (ascending : (entries.map Prod.fst).Pairwise (· < ·)) {d e : Nat × Option (List UInt8)}
    (hd : d ∈ entries) (he : e ∈ entries) (same : d.1 = e.1) : d = e := by
  induction entries with
  | nil => cases hd
  | cons a entries ih =>
    rw [List.map_cons, List.pairwise_cons] at ascending
    have above {b : Nat × Option (List UInt8)} (mem : b ∈ entries) : a.1 < b.1 :=
      ascending.1 b.1 (List.mem_map_of_mem mem)
    rcases List.mem_cons.mp hd with rfl | laterD
    · rcases List.mem_cons.mp he with rfl | laterE
      · rfl
      · exact absurd same (Nat.ne_of_lt (above laterE))
    · rcases List.mem_cons.mp he with rfl | laterE
      · exact absurd same.symm (Nat.ne_of_lt (above laterD))
      · exact ih ascending.2 laterD laterE

/-- An entry that both have is the same in both. -/
theorem Grew.same {w v : Server} (grew : Grew w v) (ordered : Ordered w)
    {d e : Nat × Option (List UInt8)} (hd : d ∈ w.entries) (he : e ∈ v.entries)
    (same : d.1 = e.1) : d = e := by
  rcases grew.entries e he with mem | newer
  · exact eq_of_number ordered.ascending hd mem same
  · have := ordered.numbered d hd
    omega

theorem mem_waiting {w : Server} {e : Nat × Option (List UInt8)} :
    e ∈ w.waiting ↔ e ∈ w.entries ∧ w.delivered < e.1 := by
  simp [waiting]

theorem mem_of_find? {w : Server} {n : Nat} {e : Nat × Option (List UInt8)}
    (h : w.find? n = some e) : e ∈ w.entries ∧ e.1 = n :=
  ⟨List.mem_of_find?_eq_some h, by simpa using List.find?_some h⟩

/-- Fewer entries and holdings, all else the same. -/
theorem Ordered.fewer {w v : Server} (h : Ordered w) (newest : v.newest = w.newest)
    (delivered : v.delivered = w.delivered) (entries : v.entries.Sublist w.entries)
    (held : v.held.Sublist w.held) : Ordered v where
  ascending := h.ascending.sublist (entries.map _)
  numbered e mem := newest ▸ h.numbered e (entries.subset mem)
  delivered := by
    rw [newest, delivered]
    exact h.delivered
  held g mem := delivered ▸ h.held g (held.subset mem)

theorem Grew.fewer {w v : Server} (newest : v.newest = w.newest)
    (delivered : v.delivered = w.delivered) (entries : v.entries.Sublist w.entries) : Grew w v :=
  ⟨Nat.le_of_eq newest.symm, Nat.le_of_eq delivered.symm, fun _ mem => .inl (entries.subset mem)⟩

/-! Each command. -/

theorem ordered_append {w : Server} (h : Ordered w) (body : Option (List UInt8)) :
    Ordered (w.append body) where
  ascending := by
    simp only [append, List.map_append, List.map_cons, List.map_nil, List.pairwise_append,
      List.pairwise_cons, List.not_mem_nil, List.mem_singleton]
    refine ⟨h.ascending, ⟨fun _ none => none.elim, .nil⟩, ?_⟩
    rintro n mem _ rfl
    obtain ⟨e, present, rfl⟩ := List.mem_map.mp mem
    exact Nat.lt_succ_of_le (h.numbered e present)
  numbered e mem := by
    rcases List.mem_append.mp mem with mem | mem
    · exact Nat.le_succ_of_le (h.numbered e mem)
    · rw [List.mem_singleton.mp mem]
      exact Nat.le_refl _
  delivered := Nat.le_succ_of_le h.delivered
  held := h.held

theorem grew_append (w : Server) (body : Option (List UInt8)) : Grew w (w.append body) where
  newest := Nat.le_succ _
  delivered := Nat.le_refl _
  entries e mem := by
    rcases List.mem_append.mp mem with mem | mem
    · exact .inl mem
    · rw [List.mem_singleton.mp mem]
      exact .inr (Nat.lt_succ_self _)

theorem ordered_deliver {w : Server} (h : Ordered w) (s : Settings) : Ordered (w.deliver s).2 := by
  have same : (w.heard s.consumer).waiting = w.waiting := rfl
  unfold deliver
  simp only [same]
  cases first : w.waiting with
  | nil => exact ⟨h.ascending, h.numbered, h.delivered, h.held⟩
  | cons e rest =>
    obtain ⟨mem, new⟩ := mem_waiting.mp (first ▸ List.mem_cons_self : e ∈ w.waiting)
    refine ⟨h.ascending, h.numbered, h.numbered e mem, fun g mem => ?_⟩
    rcases List.mem_append.mp mem with mem | mem
    · exact Nat.le_of_lt (Nat.lt_of_le_of_lt (h.held g mem) new)
    · obtain rfl := List.mem_singleton.mp mem
      exact Nat.le_refl _

theorem grew_deliver (w : Server) (s : Settings) : Grew w (w.deliver s).2 := by
  have same : (w.heard s.consumer).waiting = w.waiting := rfl
  unfold deliver
  simp only [same]
  cases first : w.waiting with
  | nil => exact .fewer rfl rfl (.refl _)
  | cons e rest =>
    obtain ⟨-, new⟩ := mem_waiting.mp (first ▸ List.mem_cons_self : e ∈ w.waiting)
    exact ⟨Nat.le_refl _, Nat.le_of_lt new, fun _ mem => .inl mem⟩

/-- Everything that is held after a takeover was held before. -/
theorem held_takeOver {w : Server} {s : Settings} {millis batch : Nat} {g : Holding}
    (mem : g ∈ (w.takeOver s millis batch).2.held) : ∃ h ∈ w.held, h.entry = g.entry := by
  obtain ⟨h, mem, pass⟩ := List.mem_filterMap.mp mem
  refine ⟨h, mem, ?_⟩
  split at pass
  · split at pass
    · cases pass
    · cases pass
      rfl
  · cases pass
    rfl

theorem ordered_takeOver {w : Server} (h : Ordered w) (s : Settings) (millis batch : Nat) :
    Ordered (w.takeOver s millis batch).2 where
  ascending := h.ascending
  numbered := h.numbered
  delivered := h.delivered
  held g mem := by
    obtain ⟨g', mem, same⟩ := held_takeOver mem
    exact same ▸ h.held g' mem

theorem perform_ordered (s : Settings) (c : Command) {w : Server} (h : Ordered w) :
    Ordered (w.perform s c).2 := by
  cases c with
  | append body => exact ordered_append h (some body)
  | readNew => exact ordered_deliver h s
  | takeIdle millis batch => exact ordered_takeOver h s millis batch
  | acknowledge => exact h.fewer rfl rfl (.refl _) List.filter_sublist
  | delete => exact h.fewer rfl rfl List.filter_sublist (.refl _)
  | forget => exact h.fewer rfl rfl (.refl _) List.filter_sublist
  | createGroup =>
    show Ordered w.createGroup.2
    unfold createGroup
    split
    · exact h
    · exact h.fewer rfl rfl (.refl _) (.refl _)
  | _ => exact h.fewer rfl rfl (.refl _) (.refl _)

theorem perform_grew (s : Settings) (c : Command) (w : Server) : Grew w (w.perform s c).2 := by
  cases c with
  | append body => exact grew_append w (some body)
  | readNew => exact grew_deliver w s
  | delete => exact .fewer rfl rfl List.filter_sublist
  | createGroup =>
    show Grew w w.createGroup.2
    unfold createGroup
    split
    · exact .refl w
    · exact .fewer rfl rfl (.refl _)
  | _ => exact .fewer rfl rfl (.refl _)

theorem performAll_ordered (s : Settings) (cs : List Command) {w : Server} (h : Ordered w) :
    Ordered (w.performAll s cs).2 := by
  induction cs generalizing w with
  | nil => exact h
  | cons c cs ih => exact ih (perform_ordered s c h)

theorem performAll_grew (s : Settings) (cs : List Command) (w : Server) :
    Grew w (w.performAll s cs).2 := by
  induction cs generalizing w with
  | nil => exact .refl w
  | cons c cs ih => exact (perform_grew s c w).trans (ih _)

/-- A wait changes nothing but the time. -/
theorem waited_eq (c : Command) (r : Except LinkFault Reply) (w : Server) :
    ∃ time, w.waited c r = { w with time } := by
  unfold waited
  split
  · exact ⟨_, rfl⟩
  · exact ⟨w.time, rfl⟩

theorem answer_ordered (s : Settings) (q : Ask) {w : Server} (h : Ordered w) :
    Ordered (w.answer s q).2 := by
  cases q with
  | send c => exact perform_ordered s c h
  | sendWaiting c =>
    obtain ⟨time, same⟩ := waited_eq c (w.perform s c).1 (w.perform s c).2
    simp only [answer, same]
    exact (perform_ordered s c h).fewer rfl rfl (.refl _) (.refl _)
  | transaction cs => exact performAll_ordered s cs h
  | together cs => exact performAll_ordered s cs h
  | connect | elapsed | clock => exact h
  | pause => exact h.fewer rfl rfl (.refl _) (.refl _)

theorem answer_grew (s : Settings) (q : Ask) (w : Server) : Grew w (w.answer s q).2 := by
  cases q with
  | send c => exact perform_grew s c w
  | sendWaiting c =>
    obtain ⟨time, same⟩ := waited_eq c (w.perform s c).1 (w.perform s c).2
    simp only [answer, same]
    exact (perform_grew s c w).trans (.fewer rfl rfl (.refl _))
  | transaction cs => exact performAll_grew s cs w
  | together cs => exact performAll_grew s cs w
  | connect | elapsed | clock => exact .refl w
  | pause => exact .fewer rfl rfl (.refl _)

end Server

open Server

variable {rounds : Nat} {allowed : Undertaking → Prop}

theorem Course.ordered {deeds : List Deed} {w : Server} (h : Course rounds allowed deeds w) :
    w.Ordered := by
  induction h with
  | start clock => exact ordered_empty clock
  | wait s _ ih => exact ih.fewer rfl rfl (.refl _) (.refl _)
  | deed d _ _ _ ih => exact answer_ordered d.settings d.ask ih

theorem Course.grew_after {deeds : List Deed} {w : Server} (h : Course rounds allowed deeds w)
    {d : Deed} (mem : d ∈ deeds) : Grew d.after w := by
  induction h with
  | start => cases mem
  | wait s _ ih => exact (ih mem).trans (.fewer rfl rfl (.refl _))
  | deed e _ _ _ ih =>
    rcases List.mem_cons.mp mem with rfl | mem
    · exact .refl _
    · exact (ih mem).trans (answer_grew e.settings e.ask e.before)

theorem Course.grew {deeds : List Deed} {w : Server} (h : Course rounds allowed deeds w) {d : Deed}
    (mem : d ∈ deeds) : Grew d.before w :=
  (show Grew d.before d.after from answer_grew d.settings d.ask d.before).trans (h.grew_after mem)

end Broker

end ClaimQueue
