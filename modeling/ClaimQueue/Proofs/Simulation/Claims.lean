import ClaimQueue.Proofs.Local.Deeds
import ClaimQueue.Proofs.Simulation.Asked
import ClaimQueue.Simulation.Shift

/-! A worker at a queue in memory leaks no claim: those it still has when its run is over are those
whose last result asks for another attempt, and the one of a handler that broke down. The queue
agrees with the worker's own account step by step, whatever others do to it meanwhile, as long as
they take no claims back and leave the worker's alone, and whenever the signal to stop comes. -/

namespace ClaimQueue

namespace Simulation

open LocalQueue (Deed)
open Worker (Has AsksAgain Apart)

/-- Who was given the task last. -/
def holder? (policy : RetryPolicy) (id : String) : List Deed → Option Nat
  | [] => none
  | d :: earlier =>
    if (d.popped? policy).any (·.id == id) then some d.caller else holder? policy id earlier

namespace Bench

/-- The claim is there, and the worker took it. -/
def Mine (id : String) (b : Bench) : Prop :=
  b.queue.inFlight.holds id = true ∧ holder? b.policy id b.deeds = some 0

/-- What others may do: they take no claims back, and leave the worker's alone. -/
def Respects (b : Bench) : Access → Prop
  | .reclaim _ _ _ => False
  | .ack id | .release id => ¬ b.Mine id
  | _ => True

variable {b : Bench} {caller : Nat} {a : Access} {clock : Instant} {i id : String}

theorem sound_act (sound : b.queue.Sound) : (b.act caller a clock).2.queue.Sound :=
  Deed.after_sound b.policy _ sound

theorem holder?_act (other : a ≠ .take) :
    holder? b.policy id (b.act caller a clock).2.deeds = holder? b.policy id b.deeds := by
  cases a with
  | take => exact (other rfl).elim
  | _ => rfl

theorem mine_of_same (other : a ≠ .take)
    (same : (a.perform b.policy clock b.queue).2.inFlight = b.queue.inFlight) :
    (b.act caller a clock).2.Mine id ↔ b.Mine id := by
  show Index.holds id (a.perform b.policy clock b.queue).2.inFlight = true ∧
    holder? b.policy id (b.act caller a clock).2.deeds = some 0 ↔ _
  rw [same, holder?_act other]
  rfl

theorem holds_erase (sound : b.queue.Sound) :
    (b.queue.inFlight.erase i).holds id = true ↔ i ≠ id ∧ b.queue.inFlight.holds id = true := by
  by_cases same : i = id
  · subst same
    simp [Index.holds, Index.find?_erase_of_nodup sound.keys_nodup]
  · simp [Index.holds, Index.find?_erase_of_ne same, same]

theorem mine_ack (sound : b.queue.Sound) :
    (b.act caller (.ack i) clock).2.Mine id ↔ i ≠ id ∧ b.Mine id := by
  rw [Mine, Mine, ← and_assoc, ← holds_erase sound]
  rfl

theorem mine_release (sound : b.queue.Sound) :
    (b.act caller (.release i) clock).2.Mine id ↔ i ≠ id ∧ b.Mine id := by
  cases found : b.queue.inFlight.find? i with
  | none =>
    have absent : i ≠ id ∧ b.Mine id ↔ b.Mine id := by
      refine and_iff_right_of_imp fun mine same => ?_
      have holds := mine.1
      rw [← same, Index.holds, found] at holds
      cases holds
    rw [absent]
    refine mine_of_same (by simp) ?_
    simp [Access.perform, LocalQueue.release?, found, Access.accepted]
  | some c =>
    rw [Mine, Mine, ← and_assoc, ← holds_erase sound]
    simp [act, Deed.after, Access.perform, LocalQueue.release?, found, Access.accepted, holder?,
      Deed.popped?]

theorem mine_take_nothing (empty : b.queue.pending = []) :
    (b.act caller .take clock).2.Mine id ↔ b.Mine id := by
  simp [Mine, act, Deed.after, Access.perform, LocalQueue.take?, empty, holder?, Deed.popped?]

theorem not_mine_of_pending {t : Task} {rest : List Task} (sound : b.queue.Sound)
    (pending : b.queue.pending = t :: rest) : ¬ b.Mine t.id := by
  intro mine
  exact sound.next_not_inFlight pending (Index.holds_iff.mp mine.1)

theorem mine_take {t : Task} {rest : List Task} (pending : b.queue.pending = t :: rest) :
    (b.act caller .take clock).2.Mine id ↔ if t.id = id then caller = 0 else b.Mine id := by
  by_cases same : t.id = id <;>
    simp [Mine, act, Deed.after, Access.perform, LocalQueue.take?, pending, holder?, Deed.popped?,
      Index.holds, Index.find?_put, same]

theorem mine_other {who : Nat} (sound : b.queue.Sound) (respects : b.Respects a) :
    (b.act (who + 1) a clock).2.Mine id ↔ b.Mine id := by
  have apart {i : String} (other : ¬ b.Mine i) : i ≠ id ∧ b.Mine id ↔ b.Mine id :=
    and_iff_right_of_imp fun mine same => other (same ▸ mine)
  cases a with
  | take =>
    cases pending : b.queue.pending with
    | nil => exact mine_take_nothing pending
    | cons t rest =>
      have free := not_mine_of_pending sound pending
      rw [mine_take pending]
      by_cases same : t.id = id
      · simp [same, same ▸ free]
      · simp [same]
  | ack i => exact (mine_ack sound).trans (apart respects)
  | release i => exact (mine_release sound).trans (apart respects)
  | reclaim => exact respects.elim
  | enqueue t =>
    refine mine_of_same (by simp) ?_
    by_cases known : b.queue.knows t.id <;>
      simp [Access.perform, LocalQueue.enqueue?, known, Access.accepted]
  | replay i =>
    refine mine_of_same (by simp) ?_
    cases found : b.queue.dead.find? (LocalQueue.isLetterFor i) <;>
      simp [Access.perform, LocalQueue.replay?, found, Access.accepted]
  | discard i =>
    refine mine_of_same (by simp) ?_
    by_cases found : b.queue.dead.any (LocalQueue.isLetterFor i) <;>
      simp [Access.perform, LocalQueue.discard?, found, Access.accepted]
  | counts | deadLetters | save | result | resultIds => exact mine_of_same (by simp) rfl

end Bench

theorem given_of_sees {signal : Signal} {given : Bool} (sees : Sees ⟨.given signal, given⟩) :
    given = true := by
  cases given with
  | true => rfl
  | false => exact sees.elim

theorem note?_of_dropped {signal : Signal} (s : LocalQueue.Step) :
    note? ⟨.heeding signal s, none⟩ = none := by
  cases s with
  | access a => cases a <;> rfl
  | _ => rfl

/-- The queue agrees with the worker's own account, and the signal with what it saw. -/
structure Books (b : Bench) (told : Heard) : Prop where
  sound : b.queue.Sound
  mine : ∀ id, b.Mine id ↔ Has id (notes told)
  apart : Apart (notes told)
  seen : Seen told → b.stopped = true
  lasting : Lasting told

namespace Books

variable {b b' : Bench} {told : Heard} {x : Exchange requests}

theorem change (h : Books b told) (stopped : b'.stopped = b.stopped) (sound : b'.queue.Sound)
    (mine : ∀ id, b'.Mine id ↔ b.Mine id) : Books b' told :=
  ⟨sound, fun id => (mine id).trans (h.mine id), h.apart, fun seen => stopped.trans (h.seen seen),
    h.lasting⟩

theorem hear (h : Books b told) (quiet : note? x = none) (seen : Sees x → b.stopped = true)
    (lasting : Lasting (x :: told)) : Books b (x :: told) := by
  have same : notes (x :: told) = notes told := by
    rw [notes, List.filterMap_cons, quiet]
    rfl
  refine ⟨h.sound, ?_, ?_, fun some => ?_, lasting⟩
  · rw [same]
    exact h.mine
  · rw [same]
    exact h.apart
  · exact (seen_cons.mp some).elim seen h.seen

theorem note {n : Worker.Dealing} (h : Books b told) (noted : note? x = some n)
    (unseen : ¬ Sees x) (lasting : Lasting (x :: told)) (stopped : b'.stopped = b.stopped)
    (sound : b'.queue.Sound) (apart : Apart (n :: notes told))
    (mine : ∀ id, b'.Mine id ↔ Has id (n :: notes told)) : Books b' (x :: told) := by
  have same : notes (x :: told) = n :: notes told := by
    rw [notes, List.filterMap_cons, noted]
    rfl
  refine ⟨sound, ?_, ?_, fun some => ?_, lasting⟩
  · rw [same]
    exact mine
  · rw [same]
    exact apart
  · rw [stopped]
    exact h.seen ((seen_cons.mp some).resolve_left unseen)

theorem act {a : Access} {clock : Instant} {r : a.Answer} {n : Worker.Dealing} (h : Books b told)
    (noted : note? ⟨.step (.access a), r⟩ = some n) (apart : Apart (n :: notes told))
    (mine : ∀ id, (b.act 0 a clock).2.Mine id ↔ Has id (n :: notes told)) :
    Books (b.act 0 a clock).2 (⟨.step (.access a), r⟩ :: told) :=
  h.note noted id h.lasting rfl (Bench.sound_act h.sound) apart mine

theorem take {signal : Signal} (h : Books b told) (clock : Instant) :
    Books (b.act 0 .take clock).2
      (⟨.heeding signal (.access .take), some (b.act 0 .take clock).1⟩ :: told) := by
  have sound : (b.act 0 .take clock).2.queue.Sound := Bench.sound_act h.sound
  cases pending : b.queue.pending with
  | nil =>
    have vain : (b.act 0 .take clock).1 = none := by
      simp [Bench.act, Deed.answer, Access.perform, LocalQueue.take?, pending]
    have same : Books (b.act 0 .take clock).2 told :=
      h.change rfl sound fun id => Bench.mine_take_nothing pending
    rw [vain]
    exact same.hear rfl False.elim h.lasting
  | cons t rest =>
    have taken : (b.act 0 .take clock).1 = some t := by
      simp [Bench.act, Deed.answer, Access.perform, LocalQueue.take?, pending]
    have free := Bench.not_mine_of_pending h.sound pending
    rw [h.mine] at free
    rw [taken]
    refine h.note rfl id h.lasting rfl sound ⟨free, h.apart⟩ fun id => ?_
    rw [Has, ← h.mine, Bench.mine_take pending]
    by_cases same : t.id = id <;> simp [same]

/-- The worker's own step. -/
theorem reply {q : Request} (h : Books b told) (usual : Usual q) (around : Around) :
    Books (b.reply around q).2 (⟨q, (b.reply around q).1⟩ :: told) := by
  cases q with
  | given signal => exact h.hear rfl given_of_sees ⟨h.seen, h.lasting⟩
  | step s =>
    cases s with
    | access a =>
      cases a with
      | ack i =>
        refine h.act rfl h.apart fun id => ?_
        exact (Bench.mine_ack h.sound).trans (and_congr_right fun _ => h.mine id)
      | release i =>
        refine h.act rfl h.apart fun id => ?_
        exact (Bench.mine_release h.sound).trans (and_congr_right fun _ => h.mine id)
      | save r =>
        refine h.act rfl h.apart fun id => ?_
        exact (Bench.mine_of_same (by simp) rfl).trans (h.mine id)
      | _ => exact usual.elim
    | _ => exact h.hear rfl False.elim h.lasting
  | heeding signal s =>
    simp only [Bench.reply]
    split
    · rename_i dropped
      rw [Bool.and_eq_true] at dropped
      exact h.hear (note?_of_dropped s) (fun _ => dropped.1) h.lasting
    · cases s with
      | access a =>
        cases a with
        | take => exact h.take (around (.step .clock))
        | _ => exact usual.elim
      | _ => exact h.hear rfl False.elim h.lasting
  | _ => exact h.hear rfl False.elim h.lasting

theorem other {who : Nat} {a : Access} {clock : Instant} (h : Books b told)
    (respects : b.Respects a) : Books (b.act (who + 1) a clock).2 told :=
  h.change rfl (Bench.sound_act h.sound) fun _ => Bench.mine_other h.sound respects

theorem stop (h : Books b told) : Books { b with stopped := true } told :=
  ⟨h.sound, h.mine, h.apart, fun _ => rfl, h.lasting⟩

end Books

namespace Shift

variable {rounds : Nat} {signal : Signal} {w : Worker.Template} {b : Bench} {y : Shift}

def Bears (y : Shift) : Event → Prop
  | .other _ a _ => y.Respects a
  | _ => True

/-- All along, nobody takes claims back or meddles with the worker's. -/
def Undisturbed : Shift → List Event → Prop
  | _, [] => True
  | y, e :: rest => y.Bears e ∧ Undisturbed (y.step e) rest

/-- A worker in the midst of its run, with its account in order. -/
structure AtWork (rounds : Nat) (signal : Signal) (w : Worker.Template) (y : Shift) : Prop where
  reaches : (workerRun rounds signal w).Reaches y.told y.rest
  books : Books y.toBench y.told

theorem atWork_start (sound : b.queue.Sound) :
    AtWork rounds signal w (start rounds signal w b) where
  reaches := .start
  books := ⟨sound, by simp [Bench.Mine, start, holder?, notes, Has], trivial,
    by simp [Seen, start], trivial⟩

theorem AtWork.go (h : AtWork rounds signal w y) (around : Around) :
    AtWork rounds signal w (y.go around) := by
  obtain ⟨reaches, books⟩ := h
  have stands := (workerRun_keeps rounds signal w).of_reaches reaches
  cases rest : y.rest with
  | ask q next =>
    rw [rest] at reaches stands
    simp only [Shift.go, rest]
    exact ⟨reaches.answer _, books.reply stands.1.1 around⟩
  | done | spent =>
    simp only [Shift.go, rest]
    exact ⟨reaches, books⟩

theorem AtWork.step {e : Event} (h : AtWork rounds signal w y) (bears : y.Bears e) :
    AtWork rounds signal w (y.step e) := by
  cases e with
  | go around => exact h.go around
  | other who a clock => exact ⟨h.reaches, h.books.other bears⟩
  | stop => exact ⟨h.reaches, h.books.stop⟩

theorem AtWork.run {events : List Event} (h : AtWork rounds signal w y)
    (undisturbed : Undisturbed y events) : AtWork rounds signal w (y.run events) := by
  induction events generalizing y with
  | nil => exact h
  | cons e events ih => exact ih (h.step undisturbed.1) undisturbed.2

/-- What a worker leaves behind, of the tasks that it claimed. -/
structure LeaksNothing (y : Shift) : Prop where
  /-- A worker that left in good order still has what is to be tried again, and nothing else. -/
  left : ∀ e, y.rest = .done (.ok e) → ∀ id, y.Mine id ↔ AsksAgain id (notes y.told)
  /-- After a handler broke down, it has that task besides. -/
  faulted : ∀ handler i message, y.rest = .done (.error (.handlerFault handler i message)) →
    ∀ id, y.Mine id ↔ AsksAgain id (notes y.told) ∨ id = i
  /-- It does not end in any other way. -/
  sure : ∀ e, y.rest ≠ .done (.error (.queue e))
  /-- What it has not got any more it acknowledged or released after the claim. -/
  parted : ∀ later t earlier, notes y.told = later ++ .claimed t :: earlier →
    .parted t.id ∈ later ∨ y.Mine t.id
  /-- It asked for no task after it had seen the signal. -/
  heeded : ∀ later x earlier, y.told = later ++ x :: earlier → Takes x.1 → ¬ Seen earlier

theorem AtWork.leaksNothing (h : AtWork rounds signal w y) : y.LeaksNothing := by
  obtain ⟨reaches, books⟩ := h
  have keeps := workerRun_keeps rounds signal w
  have ends {r : Except Worker.Error Worker.Exit} (rest : y.rest = .done r) :
      ∃ past, Mirrors y.told past ∧ Worker.MayEnd past r ∧ Apart (Worker.notes past) := by
    rw [rest] at reaches
    obtain ⟨past, mirrors, ends⟩ := keeps.of_reaches reaches
    exact ⟨past, mirrors, ends, mirrors.notes ▸ books.apart⟩
  refine ⟨fun e rest id => ?_, fun handler i message rest id => ?_, fun e rest => ?_,
    fun later t earlier split => ?_, fun later x earlier split takes => ?_⟩
  · obtain ⟨past, mirrors, ends, apart⟩ := ends rest
    rw [books.mine, mirrors.notes]
    exact ends.balanced apart id
  · obtain ⟨past, mirrors, ends, apart⟩ := ends rest
    rw [books.mine, mirrors.notes]
    exact ends.has_iff_of_fault apart
  · obtain ⟨past, mirrors, ends, -⟩ := ends rest
    obtain ⟨x, mem, failed⟩ := ends.failure
    rw [mirrors.calm x mem] at failed
    cases failed
  · rw [books.mine, split]
    exact Worker.parted_or_has
  · have lasting : Lasting (later ++ x :: earlier) := split ▸ books.lasting
    exact (keeps.asked reaches split).2 takes lasting.of_append.tail

/-- Whenever the signal comes, and whatever else is done to the queue meanwhile. -/
theorem run_leaks_nothing (rounds : Nat) (signal : Signal) (w : Worker.Template) {b : Bench}
    (sound : b.queue.Sound) {events : List Event}
    (undisturbed : Undisturbed (start rounds signal w b) events) :
    ((start rounds signal w b).run events).LeaksNothing :=
  ((atWork_start sound).run undisturbed).leaksNothing

private def farthing (id : String) : Task := ⟨.render, id, [], .empty, 0, .epoch, 1⟩

private def clumsy : Worker.Template where
  registry := ⟨[⟨"mint", .render, .empty, fun _ => ⟨⟨0⟩, .failed (.failed "no die" true)⟩⟩]⟩
  config := {}

/-- Time stands still, and a wait is given up as soon as it may be. -/
private def still : Around
  | .step (.access a) => (a.perform {} .epoch {}).1
  | .step .clock => .epoch
  | .step .elapsed => ⟨0⟩
  | .step .ring | .step .announce => ()
  | .step .announced => (0 : Nat)
  | .step (.attend _) | .step (.attendResult _ _) => false
  | .heeding _ _ => none
  | .pause _ | .give _ | .abandon _ | .later _ _ _ | .setClock _ | .halt | .join => ()
  | .labour work => work.outcome
  | .newSignal => (0 : Nat)
  | .given _ | .until _ _ => false
  | .launcher .launch => .ok ""
  | .launcher .live => (0 : Nat)

/-- The signal comes while the handler is at work. -/
private def hurried : List Event := [
  .other 0 (.enqueue (farthing "a")) .epoch, .go still, .go still, .go still, .go still, .go still,
  .go still, .other 0 (.enqueue (farthing "b")) .epoch, .stop, .go still, .go still, .go still,
  .go still, .go still, .go still, .go still]

private def counter : Bench := ⟨{}, {}, false, []⟩

theorem run_leaves_farthing_claimed :
    LocalQueue.Sound {} ∧ Undisturbed (start 2 0 clumsy counter) hurried ∧
      ((start 2 0 clumsy counter).run hurried).rest = .done (.ok ⟨.shutdown, 1⟩) ∧
      ((start 2 0 clumsy counter).run hurried).Mine "a" ∧
      ((start 2 0 clumsy counter).run hurried).LeaksNothing := by
  have undisturbed : Undisturbed (start 2 0 clumsy counter) hurried := by
    repeat' constructor
  have sound : LocalQueue.Sound {} := LocalQueue.sound_empty
  exact ⟨sound, undisturbed, rfl, ⟨rfl, rfl⟩, run_leaks_nothing 2 0 clumsy sound undisturbed⟩

end Shift

end Simulation

end ClaimQueue
