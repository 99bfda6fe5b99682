import ClaimQueue.Proofs.Broker.Taking

/-! A dead letter among other items. Commands that neither bury nor take out a letter for the same
task leave it where it is. -/

namespace ClaimQueue

namespace Broker

open Server

variable {id raw : String} {l : DeadLetter} {s : Settings} {w v : Server}

/-- All items are texts, and at most one of them is a letter for the task. -/
structure Server.Offers (id raw : String) (w : Server) : Prop where
  texts : ∃ texts : List String, w.dead = texts.map Text.Utf8.bytes
  only : ∀ text, Text.Utf8.bytes text ∈ w.dead → IsFor id text → text = raw

namespace Server

theorem Offers.letterFor?_eq (h : w.Offers id raw) (read : DeadLetter.decoder.ofText raw = .ok l)
    (own : l.task.id = id) {texts : List String} (dead : w.dead = texts.map Text.Utf8.bytes) :
    letterFor? id texts = if Text.Utf8.bytes raw ∈ w.dead then some (raw, l) else none := by
  have mem_iff {text : String} : Text.Utf8.bytes text ∈ w.dead ↔ text ∈ texts := by
    rw [dead, List.mem_map_of_injective fun _ _ => Text.Utf8.bytes_injective]
  have only {raw' : String} {l' : DeadLetter} (found : letterFor? id texts = some (raw', l')) :
      raw' ∈ texts ∧ (raw', l') = (raw, l) := by
    obtain ⟨among, read'⟩ := mem_readable.mp (List.mem_of_find?_eq_some found)
    have named : (l'.task.id == id) = true :=
      List.find?_some (p := fun e : String × DeadLetter => e.2.task.id == id) found
    obtain rfl := h.only raw' (mem_iff.mpr among) ⟨l', read', eq_of_beq named⟩
    rw [read] at read'
    cases read'
    exact ⟨among, rfl⟩
  split
  · rename_i there
    have some : (letterFor? id texts).isSome :=
      List.find?_isSome.mpr ⟨(raw, l), mem_readable.mpr ⟨mem_iff.mp there, read⟩, beq_iff_eq.mpr own⟩
    obtain ⟨⟨raw', l'⟩, found⟩ := Option.isSome_iff_exists.mp some
    rw [found, (only found).2]
  · rename_i gone
    rw [Option.eq_none_iff_forall_not_mem]
    rintro ⟨raw', l'⟩ found
    obtain ⟨among, same⟩ := only found
    cases same
    exact gone (mem_iff.mpr among)

/-- The same as before, as far as letters for the task go. -/
structure SameOffer (id raw : String) (w v : Server) : Prop where
  offers : v.Offers id raw
  count : v.dead.count (Text.Utf8.bytes raw) = w.dead.count (Text.Utf8.bytes raw)

theorem Offers.of_dead (h : w.Offers id raw) (dead : v.dead = w.dead) : SameOffer id raw w v where
  offers := ⟨dead ▸ h.texts, dead ▸ h.only⟩
  count := by rw [dead]

theorem SameOffer.trans {u : Server} (h : SameOffer id raw w v) (more : SameOffer id raw v u) :
    SameOffer id raw w u :=
  ⟨more.offers, more.count.trans h.count⟩

theorem dead_perform {c : Command} (buries : ∀ text, c ≠ .bury text) (leaves : ∀ text, c ≠ .unbury text) :
    (w.perform s c).2.dead = w.dead := by
  cases c with
  | bury text => exact absurd rfl (buries text)
  | unbury text => exact absurd rfl (leaves text)
  | createGroup =>
    simp only [perform, createGroup]
    split <;> rfl
  | readNew =>
    simp only [perform, deliver]
    split <;> rfl
  | _ => rfl

theorem Offers.perform (h : w.Offers id raw) (own : IsFor id raw) {c : Command}
    (buries : ∀ text, c = .bury text → ¬ IsFor id text)
    (leaves : ∀ text, c = .unbury text → ¬ IsFor id text) :
    SameOffer id raw w (w.perform s c).2 := by
  obtain ⟨texts, dead⟩ := h.texts
  have other {text : String} (apart : ¬ IsFor id text) :
      Text.Utf8.bytes text ≠ Text.Utf8.bytes raw :=
    fun same => apart (Text.Utf8.bytes_injective same ▸ own)
  by_cases bury : ∃ text, c = .bury text
  · obtain ⟨text, rfl⟩ := bury
    have apart := buries text rfl
    refine ⟨⟨⟨text :: texts, by simp [Server.perform, dead]⟩, fun t mem isFor => ?_⟩, ?_⟩
    · rcases List.mem_cons.mp mem with same | mem
      · exact absurd (Text.Utf8.bytes_injective same ▸ isFor) apart
      · exact h.only t mem isFor
    · exact List.count_cons_of_ne (other apart)
  · by_cases unbury : ∃ text, c = .unbury text
    · obtain ⟨text, rfl⟩ := unbury
      refine ⟨⟨⟨texts.erase text, ?_⟩, fun t mem isFor => h.only t (List.mem_of_mem_erase mem) isFor⟩, ?_⟩
      · show w.dead.erase _ = _
        rw [dead, List.map_erase fun _ _ => Text.Utf8.bytes_injective]
      · exact List.count_erase_of_ne (other (leaves text rfl)).symm
    · exact h.of_dead (dead_perform (not_exists.mp bury) (not_exists.mp unbury))

theorem Offers.performAll (h : w.Offers id raw) (own : IsFor id raw) {cs : List Command}
    (buries : ∀ text, .bury text ∈ cs → ¬ IsFor id text)
    (leaves : ∀ text, .unbury text ∈ cs → ¬ IsFor id text) :
    SameOffer id raw w (w.performAll s cs).2 := by
  induction cs generalizing w with
  | nil => exact h.of_dead rfl
  | cons c cs ih =>
    have first : SameOffer id raw w (w.perform s c).2 :=
      h.perform own (fun text same => buries text (same ▸ List.mem_cons_self))
        fun text same => leaves text (same ▸ List.mem_cons_self)
    exact first.trans (ih first.offers (fun text mem => buries text (List.mem_cons_of_mem _ mem))
      fun text mem => leaves text (List.mem_cons_of_mem _ mem))

/-- Whoever is after other letters leaves this one where it is. -/
theorem Offers.answer (h : w.Offers id raw) (own : IsFor id raw) {q : Ask}
    (buries : ∀ text, .bury text ∈ q.commands → ¬ IsFor id text) (spares : q.Spares id) :
    SameOffer id raw w (w.answer s q).2 := by
  have one {c : Command} (buries : ∀ text, .bury text ∈ [c] → ¬ IsFor id text)
      (leaves : ∀ text, .unbury text ∈ [c] → ¬ IsFor id text) :
      SameOffer id raw w (w.perform s c).2 :=
    h.perform own (fun text same => buries text (same ▸ List.mem_cons_self))
      fun text same => leaves text (same ▸ List.mem_cons_self)
  cases q with
  | send c => exact one buries spares
  | sendWaiting c =>
    obtain ⟨time, same⟩ := waited_eq c (w.perform s c).1 (w.perform s c).2
    have performed := one buries spares
    simp only [Server.answer, same]
    exact performed.trans (performed.offers.of_dead rfl)
  | transaction cs => exact h.performAll own buries spares
  | together cs => exact h.performAll own buries spares
  | connect | elapsed | clock | pause => exact h.of_dead rfl

end Server

end Broker

end ClaimQueue
