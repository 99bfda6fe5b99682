import ClaimQueue.Broker.Link
import ClaimQueue.Proofs.Program

/-! What a job asks, in the light of what it was told. A job that failed asks nothing more, so only
what it gives when all went well is of interest. -/

namespace ClaimQueue

namespace Broker

abbrev Told := List (Exchange asks)

namespace Job

variable {ε α β σ : Type}

def Along (fit : Told → Ask → Prop) (ends : Told → α → Prop) (j : Job ε α) (past : Told) : Prop :=
  Program.Along fit (fun now r => ∀ a, r = .ok a → ends now a) j.run past

variable {fit : Told → Ask → Prop} {ends : Told → α → Prop} {past : Told}

theorem along_pure {a : α} (h : ends past a) : Along fit ends (pure a : Job ε α) past := by
  intro b same
  cases same
  exact h

theorem along_throw (e : ε) : Along fit ends (throw e : Job ε α) past := by
  intro b same
  cases same

theorem along_ofExcept {r : Except ε α} (h : ∀ a, r = .ok a → ends past a) :
    Along fit ends (ofExcept r) past := h

theorem Along.mono {ends' : Told → α → Prop} {j : Job ε α} (h : Along fit ends j past)
    (weaker : ∀ now a, ends now a → ends' now a) : Along fit ends' j past :=
  Program.Along.mono h fun now _ told a same => weaker now a (told a same)

theorem Along.bind {ends' : Told → β → Prop} {j : Job ε α} {f : α → Job ε β}
    (h : Along fit ends j past) (more : ∀ now a, ends now a → Along fit ends' (f a) now) :
    Along fit ends' (j >>= f) past := by
  refine Program.Along.bind h fun now r told => ?_
  cases r with
  | ok a => exact more now a (told a rfl)
  | error e => exact fun b same => nomatch same

/-- A reply that was parsed. -/
theorem along_parsed {r : Except ε α} {f : α → Job ε β} {ends : Told → β → Prop}
    (more : ∀ a, r = .ok a → Along fit ends (f a) past) :
    Along fit ends (ofExcept r >>= f) past := by
  have parsed : Along fit (fun now a => now = past ∧ r = .ok a) (ofExcept r) past :=
    along_ofExcept fun a same => ⟨rfl, same⟩
  refine parsed.bind fun now a told => ?_
  obtain ⟨rfl, same⟩ := told
  exact more a same

/-- What comes before the next step is of no interest. -/
theorem Along.andThen {ends' : Told → β → Prop} {j : Job ε α} {f : α → Job ε β}
    (h : Along fit (fun _ _ => True) j past) (more : ∀ now a, Along fit ends' (f a) now) :
    Along fit ends' (j >>= f) past :=
  h.bind fun now a _ => more now a

theorem along_ask {q : Ask} (h : fit past q) :
    Program.Along fit (fun now a => now = ⟨q, a⟩ :: past) (ask q) past :=
  Program.along_call h

theorem along_lift {q : Ask} (h : fit past q) :
    Along fit (fun now a => now = ⟨q, a⟩ :: past) (liftM (ask q) : Job ε q.Answer) past := by
  refine Program.Along.bind (along_ask h) fun now a told b same => ?_
  cases same
  exact told

theorem along_of {fault : LinkFault → ε} {p : Program asks (Except LinkFault α)}
    (h : Program.Along fit (fun now r => ∀ a, r = .ok a → ends now a) p past) :
    Along fit ends (Job.of fault p) past := by
  refine Program.Along.bind h fun now r told => ?_
  cases r with
  | ok a =>
    intro b same
    cases same
    exact told a rfl
  | error e => exact fun b same => nomatch same

theorem along_send {c : Command} (h : fit past (.send c)) :
    Along fit (fun now r => now = ⟨.send c, .ok r⟩ :: past) (send c) past :=
  along_of ((along_ask h).mono fun _ _ told r same => by rw [told, same])

theorem along_sendWaiting {c : Command} (h : fit past (.sendWaiting c)) :
    Along fit (fun now r => now = ⟨.sendWaiting c, .ok r⟩ :: past)
      (Job.of LinkFault.toQueueError (ask (.sendWaiting c))) past :=
  along_of ((along_ask h).mono fun _ _ told r same => by rw [told, same])

theorem along_read {parse : Reply → Option α} {c : Command} (h : fit past (.send c)) :
    Along fit (fun now a => ∃ r, now = ⟨.send c, .ok r⟩ :: past ∧ parse r = some a)
      (read parse c) past := by
  refine (along_send h).bind fun now r told => ?_
  cases parsed : parse r with
  | none => exact along_throw _
  | some a => exact along_pure ⟨r, told, parsed⟩

theorem along_told {c : Command} (h : fit past (.send c)) :
    Along fit (fun now _ => ∃ r, now = ⟨.send c, .ok r⟩ :: past) (tell c) past :=
  (along_send h).bind fun _ r told => along_pure ⟨r, told⟩

theorem along_tell {c : Command} (h : fit past (.send c)) :
    Along fit (fun _ _ => True) (tell c) past := (along_told h).mono fun _ _ _ => trivial

theorem along_transact {cs : List Command} (h : fit past (.transaction cs)) :
    Along fit (fun now _ => ∃ r, now = ⟨.transaction cs, .ok r⟩ :: past) (transact cs) past := by
  have asked : Along fit (fun now r => now = ⟨.transaction cs, .ok r⟩ :: past)
      (Job.of LinkFault.toQueueError (ask (.transaction cs))) past :=
    along_of ((along_ask h).mono fun _ _ told r same => by rw [told, same])
  refine asked.bind fun now r told => ?_
  split
  · exact along_pure ⟨_, told⟩
  · exact along_pure ⟨_, told⟩
  · exact along_throw _

theorem along_tryLoop {body : σ → Job ε (σ ⊕ α)} (inv : Told → σ → Prop)
    (round : ∀ past s, inv past s → Along fit (fun now r => match r with
      | .inl s => inv now s
      | .inr a => ends now a) (body s) past)
    (rounds : Nat) {s : σ} (h : inv past s) :
    Along fit ends (Program.tryLoop body rounds s) past := by
  refine Program.along_loop inv (fun past s now => ?_) rounds h
  refine Program.Along.bind (round past s now) fun now r told => ?_
  match r with
  | .ok (.inl s) => exact told _ rfl
  | .ok (.inr a) =>
    intro b same
    cases same
    exact told _ rfl
  | .error e => exact fun b same => nomatch same

/-- What is done after a job that came to its end. -/
theorem reaches_bind {told : Told} {j : Job ε α} {f : α → Job ε β} {a : α}
    (h : j.run.Reaches told (.done (.ok a))) : (j >>= f).run.Reaches told (f a).run :=
  Program.Reaches.bind h _

theorem reaches_lift (q : Ask) (a : q.Answer) :
    (liftM (ask q) : Job ε q.Answer).run.Reaches [⟨q, a⟩] (.done (.ok a)) :=
  Program.Reaches.answer (I := asks) (q := q) .start a

theorem reaches_send (c : Command) (r : Reply) :
    (send c).run.Reaches [⟨.send c, .ok r⟩] (.done (.ok r)) :=
  Program.Reaches.answer (I := asks) (q := Ask.send c) .start (.ok r)

end Job

end Broker

end ClaimQueue
