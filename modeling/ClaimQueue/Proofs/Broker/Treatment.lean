import ClaimQueue.Proofs.Broker.Questions
import ClaimQueue.Proofs.Broker.Replies
import Mathlib.Data.List.Nodup

/-! What a call does about an entry that it was given and cannot read: the results that it stores,
and then the transaction that takes the entry off the stream. -/

namespace ClaimQueue

namespace Broker

open Job

/-- The entries that a reply gives to a call: the first of what was read, or all that was taken over.
-/
def given : Exchange asks → List Entry
  | ⟨.send (.readNew _), .ok r⟩ | ⟨.sendWaiting (.readNew _), .ok r⟩ =>
    ((readEntries r).toOption.bind (·.head?)).toList
  | ⟨.send (.takeIdle _ _), .ok r⟩ => (takenEntries r).toOption.getD []
  | _ => []

/-- A result that was stored, under its id. -/
def stored? : Exchange asks → Option (String × String)
  | ⟨.send (.saveResult id body), .ok _⟩ => some (id, body)
  | _ => none

/-- The entries that were given last. -/
def latest : Told → List Entry
  | [] => []
  | x :: past => match given x with
    | [] => latest past
    | es => es

/-- The results that were stored since, the latest first. -/
def answers : Told → List (String × String)
  | [] => []
  | x :: past => match given x with
    | [] => (stored? x).toList ++ answers past
    | _ => []

section Told

variable {x : Exchange asks} {past : Told}

theorem latest_quiet (quiet : given x = []) : latest (x :: past) = latest past := by
  simp [latest, quiet]

theorem answers_quiet (quiet : given x = []) :
    answers (x :: past) = (stored? x).toList ++ answers past := by
  simp [answers, quiet]

theorem latest_given {e : Entry} {es : List Entry} (gave : given x = e :: es) :
    latest (x :: past) = e :: es := by
  simp [latest, gave]

theorem answers_given {e : Entry} {es : List Entry} (gave : given x = e :: es) :
    answers (x :: past) = [] := by
  simp [answers, gave]

end Told

/-- What is done about an entry: the results that are stored, then the transaction that removes it. -/
@[ext] structure Treatment where
  answers : List (String × String)
  removal : List Command

namespace Treatment

/-- The producer is told by the id in the refusal. -/
def answered (e : Entry) (id : String) (fault : WireError) (now : Instant) : Treatment :=
  ⟨[(id, (TaskResult.refused id fault.message now).encoded)], handling [] e.id none⟩

/-- The entry is kept for operators, and no one is told. -/
def aside (e : Entry) : Treatment := ⟨[], handling [.park (e.body.getD [])] e.id none⟩

end Treatment

/-- An answer if the refusal names a task, else the entry is put aside. -/
def Disposes (e : Entry) (fault : WireError) (t : Treatment) : Prop :=
  match fault.taskId? with
  | some id => ∃ now, t = .answered e id fault now
  | none => t = .aside e

section Disposes

variable {e : Entry} {fault : WireError} {t : Treatment}

theorem disposes_of_name {id : String} (named : fault.taskId? = some id) (t : Treatment) :
    Disposes e fault t ↔ ∃ now, t = .answered e id fault now := by
  simp only [Disposes, named]

theorem disposes_of_none (unnamed : fault.taskId? = none) (t : Treatment) :
    Disposes e fault t ↔ t = .aside e := by
  simp only [Disposes, unnamed]

theorem Disposes.named (h : Disposes e fault t) : .acknowledge e.id ∈ t.removal := by
  unfold Disposes at h
  split at h
  · obtain ⟨now, rfl⟩ := h
    simp [Treatment.answered, handling]
  · rw [h]
    simp [Treatment.aside, handling]

end Disposes

/-- By `t` a program removes an entry that it was given last, after what it was told. -/
structure Treats {α : Type} (p : Program asks α) (past : Told) (e : Entry) (t : Treatment) : Prop where
  asked : ∃ next, p.Reaches past (.ask (.transaction t.removal) next)
  given : e ∈ latest past
  once : ((latest past).map (·.id)).Nodup
  named : .acknowledge e.id ∈ t.removal
  answers : answers past = t.answers

def PopTreats (s : Settings) (e : Entry) (t : Treatment) : Prop :=
  ∃ rounds block timeout past, Treats (Calls.pop rounds s block timeout).run past e t

def ReclaimTreats (s : Settings) (e : Entry) (t : Treatment) : Prop :=
  ∃ idle batch past, Treats (Calls.reclaim s idle batch).run past e t

/-- After `past` the treatment was carried out: what was stored by then is what it stores, and then
the entry was removed. -/
def Removed (t : Treatment) (past later : Told) : Prop :=
  ∃ after r before, later = after ++ ⟨.transaction t.removal, .ok r⟩ :: before ∧
    answers (before ++ past) = t.answers

theorem Removed.cons {t : Treatment} {past later : Told} (h : Removed t past later)
    (x : Exchange asks) : Removed t past (x :: later) := by
  obtain ⟨after, r, before, rfl, stored⟩ := h
  exact ⟨x :: after, r, before, rfl, stored⟩

/-- Each refused entry that was given has been removed by a treatment of its own, but for those that
are left. -/
def Settled (own : Entry → WireError → Treatment → Prop) (left : List Entry) (past : Told) : Prop :=
  ∀ later x earlier, past = later ++ x :: earlier → ∀ e ∈ given x, ∀ fault, e.task = .error fault →
    e ∈ left ∨ ∃ t, own e fault t ∧ Removed t (x :: earlier) later

namespace Settled

variable {own : Entry → WireError → Treatment → Prop} {left : List Entry} {past : Told}
  {x : Exchange asks} {e : Entry}

theorem nil : Settled own [] [] := fun later x earlier split => by simp at split

theorem quiet (h : Settled own left past) (quiet : given x = []) : Settled own left (x :: past) := by
  intro later y earlier split e mem fault refused
  cases later with
  | nil =>
    cases split
    rw [quiet] at mem
    cases mem
  | cons z later =>
    have rest := (List.cons.inj split).2
    refine (h later y earlier rest e mem fault refused).imp id ?_
    rintro ⟨t, fits, removed⟩
    exact ⟨t, fits, removed.cons z⟩

theorem given (h : Settled own [] past) : Settled own (given x) (x :: past) := by
  intro later y earlier split e mem fault refused
  cases later with
  | nil =>
    cases split
    exact .inl mem
  | cons z later =>
    have rest := (List.cons.inj split).2
    obtain none | ⟨t, fits, removed⟩ := h later y earlier rest e mem fault refused
    · cases none
    · exact .inr ⟨t, fits, removed.cons z⟩

theorem removed {t : Treatment} {r : Reply} (h : Settled own (e :: left) past)
    (fits : ∀ fault, e.task = .error fault → own e fault t) (stored : answers past = t.answers) :
    Settled own left (⟨.transaction t.removal, .ok r⟩ :: past) := by
  intro later y earlier split f mem fault refused
  cases later with
  | nil =>
    cases split
    cases mem
  | cons z later =>
    obtain ⟨rfl, rest⟩ := List.cons.inj split
    obtain here | ⟨u, fits, removed⟩ := h later y earlier rest f mem fault refused
    · rcases List.mem_cons.mp here with rfl | here
      · rw [rest] at stored
        exact .inr ⟨t, fits fault refused, [], r, later, rfl, stored⟩
      · exact .inl here
    · exact .inr ⟨u, fits, removed.cons _⟩

theorem readable {t : Task} (h : Settled own (e :: left) past) (task : e.task = .ok t) :
    Settled own left past := by
  intro later y earlier split f mem fault refused
  refine (h later y earlier split f mem fault refused).imp (fun here => ?_) id
  rcases List.mem_cons.mp here with rfl | here
  · rw [task] at refused
    cases refused
  · exact here

end Settled

/-! Popping. -/

/-- Only the entry that was given last is removed, after what is to be stored for it. -/
def PopRemoves (past : Told) (q : Ask) : Prop :=
  ∀ cs, q = .transaction cs → ∃ e fault t, latest past = [e] ∧ e.task = .error fault ∧
    Disposes e fault t ∧ t.removal = cs ∧ t.answers = answers past

theorem popRemoves_other {past : Told} {q : Ask} (other : ∀ cs, q ≠ .transaction cs) :
    PopRemoves past q := fun cs same => (other cs same).elim

theorem readOne_given (wait : Option Span) {past : Told} (settled : Settled Disposes [] past) :
    Along PopRemoves (fun now e? => Settled Disposes e?.toList now ∧
      ∀ e, e? = some e → latest now = [e] ∧ answers now = []) (Calls.readOne wait) past := by
  have parsed {now : Told} {x : Exchange asks} {r : Reply} (told : now = x :: past)
      (gave : given x = ((readEntries r).toOption.bind (·.head?)).toList) :
      Along PopRemoves (fun now e? => Settled Disposes e?.toList now ∧
        ∀ e, e? = some e → latest now = [e] ∧ answers now = [])
        (do return (← Job.ofExcept (readEntries r)).head? : Job QueueError (Option Entry)) now := by
    refine along_parsed fun es read => along_pure ?_
    rw [read] at gave
    subst told
    refine ⟨gave ▸ settled.given, fun e head => ?_⟩
    have one : given x = [e] := by simpa [Except.toOption, head] using gave
    exact ⟨latest_given one, answers_given one⟩
  unfold Calls.readOne
  cases wait with
  | none =>
    refine (along_send (popRemoves_other (by simp))).bind fun now r told => ?_
    exact parsed told rfl
  | some wait =>
    refine (along_sendWaiting (popRemoves_other (by simp))).bind fun now r told => ?_
    exact parsed told rfl

theorem dispose_removes {e : Entry} {fault : WireError} {past : Told} (refused : e.task = .error fault)
    (gave : latest past = [e]) (unanswered : answers past = [])
    (settled : Settled Disposes [e] past) :
    Along PopRemoves (fun now _ => Settled Disposes [] now) (Calls.dispose e fault) past := by
  have own {t : Treatment} (disposes : Disposes e fault t) :
      ∀ fault, e.task = .error fault → Disposes e fault t := by
    intro other same
    rw [refused] at same
    cases same
    exact disposes
  unfold Calls.dispose
  split
  · rename_i id named
    refine (along_lift (popRemoves_other (by simp))).bind fun now clock told => ?_
    subst told
    refine (publish_along _ _ (popRemoves_other (by simp))).bind fun now _ told => ?_
    obtain ⟨a, rfl⟩ := told
    have disposes : Disposes e fault (.answered e id fault clock) :=
      (disposes_of_name named _).mpr ⟨clock, rfl⟩
    let r := TaskResult.refused id fault.message clock
    have stored : answers (⟨.send (.saveResult r.taskId r.encoded), .ok a⟩ :: ⟨.clock, clock⟩ :: past) =
        (Treatment.answered e id fault clock).answers := by
      rw [answers_quiet rfl, answers_quiet rfl, unanswered]
      rfl
    refine (along_transact fun cs same => ?_).mono fun now _ told => ?_
    · cases same
      exact ⟨e, fault, .answered e id fault clock, gave, refused, disposes, rfl, stored.symm⟩
    · obtain ⟨r, rfl⟩ := told
      exact ((settled.quiet rfl).quiet rfl).removed (own disposes) stored
  · rename_i unnamed
    have disposes : Disposes e fault (.aside e) := (disposes_of_none unnamed _).mpr rfl
    refine (along_transact fun cs same => ?_).mono fun now _ told => ?_
    · cases same
      exact ⟨e, fault, .aside e, gave, refused, disposes, rfl, unanswered.symm⟩
    · obtain ⟨r, rfl⟩ := told
      exact settled.removed (own disposes) unanswered

theorem popRound_removes (s : Settings) (deadline : Option Span) {past : Told}
    (settled : Settled Disposes [] past) :
    Along PopRemoves (fun now _ => Settled Disposes [] now) (Calls.popRound s deadline) past := by
  have patience : Along PopRemoves (fun now _ => Settled Disposes [] now)
      (Calls.patience deadline) past := by
    unfold Calls.patience
    split
    · exact along_pure settled
    · refine (along_lift (popRemoves_other (by simp))).bind fun now _ told => ?_
      exact along_pure (told ▸ settled.quiet rfl)
  refine patience.bind fun now wait settled => ?_
  split
  · exact along_pure settled
  · refine (readOne_given _ settled).bind fun now e? given => ?_
    obtain ⟨settled, given⟩ := given
    split
    · exact along_pure settled
    · rename_i e
      obtain ⟨gave, unanswered⟩ := given e rfl
      split
      · rename_i t task
        refine (along_told (popRemoves_other (by simp))).bind fun now _ told => ?_
        obtain ⟨r, rfl⟩ := told
        exact along_pure ((settled.readable task).quiet rfl)
      · rename_i fault refused
        exact (dispose_removes refused gave unanswered settled).bind fun _ _ settled =>
          along_pure settled

theorem pop_removes (rounds : Nat) (s : Settings) (block : Bool) (timeout : Span) :
    Along PopRemoves (fun now _ => Settled Disposes [] now) (Calls.pop rounds s block timeout) [] := by
  refine (along_lift (popRemoves_other (by simp))).bind fun now start told => ?_
  refine along_tryLoop (fun past _ => Settled Disposes [] past) (fun past _ settled => ?_) rounds
    (told ▸ Settled.nil.quiet rfl)
  refine (popRound_removes s _ settled).mono fun now r settled => ?_
  cases r <;> exact settled

theorem PopTreats.disposes {s : Settings} {e : Entry} {fault : WireError} {t : Treatment}
    (refused : e.task = .error fault) (h : PopTreats s e t) : Disposes e fault t := by
  obtain ⟨rounds, block, timeout, past, treats⟩ := h
  obtain ⟨next, reaches⟩ := treats.asked
  obtain ⟨f, fault', u, gave, task, disposes, removal, answers⟩ :=
    (pop_removes rounds s block timeout).question reaches _ rfl
  have same : e = f := by simpa [gave] using treats.given
  subst same
  rw [refused] at task
  cases task
  have treatment : u = t := Treatment.ext (answers.trans treats.answers) removal
  exact treatment ▸ disposes

/-! Taking back. -/

/-- Whatever the refusal says. -/
def PutsAside (e : Entry) (_ : WireError) (t : Treatment) : Prop := t = .aside e

/-- Nothing is stored, and an entry that was taken over is put aside if it cannot be read. -/
def ReclaimRemoves (s : Settings) (past : Told) (q : Ask) : Prop :=
  ∀ cs, q = .transaction cs → answers past = [] ∧ ∃ e ∈ latest past,
    (∃ fault, e.task = .error fault ∧ cs = (Treatment.aside e).removal) ∨
    ∃ t now, e.task = .ok t ∧ cs = handling [Calls.moved s now t.bumped] e.id (some t.id)

theorem reclaimRemoves_other {s : Settings} {past : Told} {q : Ask}
    (other : ∀ cs, q ≠ .transaction cs) : ReclaimRemoves s past q :=
  fun cs same => (other cs same).elim

theorem takeBack_removes (s : Settings) {e : Entry} {left : List Entry} {past : Told}
    (mem : e ∈ latest past) (unanswered : answers past = [])
    (settled : Settled PutsAside (e :: left) past) :
    Along (ReclaimRemoves s)
      (fun now _ => latest now = latest past ∧ answers now = [] ∧ Settled PutsAside left now)
      (Calls.takeBack s e) past := by
  unfold Calls.takeBack
  split
  · rename_i fault refused
    refine (along_transact fun cs same => ?_).bind fun now _ told => ?_
    · cases same
      exact ⟨unanswered, e, mem, .inl ⟨fault, refused, rfl⟩⟩
    · obtain ⟨r, rfl⟩ := told
      refine along_pure ⟨latest_quiet rfl, (answers_quiet rfl).trans unanswered, ?_⟩
      exact settled.removed (t := .aside e) (fun _ _ => rfl) unanswered
  · rename_i t task
    refine (along_lift (reclaimRemoves_other (by simp))).bind fun now clock told => ?_
    subst told
    refine (along_transact fun cs same => ?_).bind fun now _ told => ?_
    · cases same
      refine ⟨(answers_quiet rfl).trans unanswered, e, ?_, .inr ⟨t, clock, task, rfl⟩⟩
      rwa [latest_quiet rfl]
    · obtain ⟨r, rfl⟩ := told
      refine along_pure ⟨?_, ?_, ((settled.readable task).quiet rfl).quiet rfl⟩
      · rw [latest_quiet rfl, latest_quiet rfl]
      · rw [answers_quiet rfl, answers_quiet rfl, unanswered]
        rfl

theorem takeBackAll_removes (s : Settings) {es : List Entry} {past : Told}
    (mem : ∀ e ∈ es, e ∈ latest past) (unanswered : answers past = [])
    (settled : Settled PutsAside es past) :
    Along (ReclaimRemoves s) (fun now _ => Settled PutsAside [] now) (Calls.takeBackAll s es)
      past := by
  induction es generalizing past with
  | nil => exact along_pure settled
  | cons e es ih =>
    rw [List.forall_mem_cons] at mem
    refine (takeBack_removes s mem.1 unanswered settled).bind fun now again told => ?_
    obtain ⟨same, unanswered, settled⟩ := told
    refine (ih (fun f among => same ▸ mem.2 f among) unanswered settled).bind fun _ _ settled => ?_
    exact along_pure settled

theorem reclaim_removes (s : Settings) (idle : Span) (batch : Nat) :
    Along (ReclaimRemoves s) (fun now _ => Settled PutsAside [] now) (Calls.reclaim s idle batch)
      [] := by
  unfold Calls.reclaim
  split
  · exact along_pure .nil
  · refine (along_send (reclaimRemoves_other (by simp))).bind fun now r told => ?_
    refine along_parsed fun es read => ?_
    have gave : given ⟨.send (.takeIdle (Calls.wholeMillis idle) batch), .ok r⟩ = es := by
      simp [given, read, Except.toOption]
    have settled : Settled PutsAside es now := by
      have none : Settled PutsAside [] [] := .nil
      rw [told, ← gave]
      exact none.given
    subst told
    cases es with
    | nil => exact takeBackAll_removes s (List.forall_mem_nil _) (answers_quiet gave) settled
    | cons e es =>
      exact takeBackAll_removes s (fun f among => latest_given gave ▸ among) (answers_given gave)
        settled

theorem ReclaimTreats.aside {s : Settings} {e : Entry} {fault : WireError} {t : Treatment}
    (refused : e.task = .error fault) (h : ReclaimTreats s e t) : t = .aside e := by
  obtain ⟨idle, batch, past, treats⟩ := h
  obtain ⟨next, reaches⟩ := treats.asked
  obtain ⟨unanswered, f, mem, removes⟩ := (reclaim_removes s idle batch).question reaches _ rfl
  have named := treats.named
  -- The ids tell the entries apart, so it is this one that is removed.
  have same (id : f.id = e.id) : f = e :=
    List.inj_on_of_nodup_map treats.once mem treats.given id
  obtain ⟨fault', refused', removal⟩ | ⟨u, now, task, removal⟩ := removes
  · rw [removal] at named
    have id : f.id = e.id := by
      simpa [Treatment.aside, handling, eq_comm] using named
    rw [same id] at removal
    exact Treatment.ext (treats.answers.symm.trans unanswered) removal
  · rw [removal] at named
    have id : f.id = e.id := by
      simp only [handling, Calls.moved] at named
      split at named <;> simpa [eq_comm] using named
    rw [same id, refused] at task
    cases task

/-! Replies that give an entry, whatever it holds. -/

def Entry.shown (e : Entry) : Reply :=
  .list [Server.bulk e.id, match e.body with
    | some body => .list [Server.bulk taskField, .bulk body]
    | none => .nil]

theorem entriesOf_shown (e : Entry) : entriesOf (.list [e.shown]) = .ok [e] := by
  have read : Entry.ofReply e.shown = .ok (some e) := by
    have name := plainText?_bulk e.id
    obtain ⟨id, body⟩ := e
    cases body with
    | none =>
      simp only [Entry.shown, Entry.ofReply, name]
    | some body =>
      have field : taskBody [Server.bulk taskField, .bulk body] = some body := if_pos rfl
      simp only [Entry.shown, Entry.ofReply, name, field]
  simp only [entriesOf, List.mapM_cons, List.mapM_nil, read]
  rfl

theorem readEntries_shown (e : Entry) :
    readEntries (.list [.list [.nil, .list [e.shown]]]) = .ok [e] := by
  have one : streamEntries (.list [.nil, .list [e.shown]]) = .ok [e] := entriesOf_shown e
  simp only [readEntries, List.mapM_cons, List.mapM_nil, one]
  rfl

theorem takenEntries_shown (e : Entry) : takenEntries (.list [.nil, .list [e.shown]]) = .ok [e] :=
  entriesOf_shown e

/-- Some call to pop comes to whatever is asked for a refused entry. -/
theorem pop_reaches_dispose (s : Settings) {e : Entry} {fault : WireError} {told : Told} {q : Ask}
    {next : q.Answer → Program asks (Except QueueError Unit)} (refused : e.task = .error fault)
    (reaches : (Calls.dispose e fault).run.Reaches told (.ask q next)) : ∃ past rest,
    (Calls.pop 1 s false ⟨0⟩).run.Reaches (told ++ past) (.ask q rest) ∧
      latest past = [e] ∧ answers past = [] := by
  let x : Exchange asks := ⟨.send (.readNew none), .ok (.list [.list [.nil, .list [e.shown]]])⟩
  have gave : given x = [e] := by simp [x, given, readEntries_shown, Except.toOption]
  have begun : (Calls.pop 1 s false ⟨0⟩).run.Reaches [⟨.elapsed, ⟨0⟩⟩]
      (Program.tryLoop (fun _ => Calls.popRound s none) 1 ()).run :=
    Program.Reaches.answer (I := asks) (q := Ask.elapsed) .start ⟨0⟩
  have read : (Calls.readOne none).run.Reaches [x] (.done (.ok (some e))) := by
    have parsed := reaches_bind (f := fun reply => do
      return (← Job.ofExcept (readEntries reply)).head?)
      (reaches_send (.readNew none) (.list [.list [.nil, .list [e.shown]]]))
    rwa [readEntries_shown] at parsed
  have round : (Calls.popRound s none).run.Reaches [x]
      (Calls.dispose e fault >>= fun _ => pure (.inl ())).run := by
    have after : (Calls.popRound s none).run.Reaches [x] _ := Program.Reaches.bind read _
    simp only [Program.bind, ExceptT.bindCont, refused] at after
    exact after
  have loop : (Program.tryLoop (fun _ => Calls.popRound s none) 1 ()).run.Reaches (told ++ [x]) _ :=
    ((round.trans (reaches.bind _)).bind _).bind _
  have whole := begun.trans loop
  rw [List.append_assoc] at whole
  exact ⟨[x, ⟨.elapsed, ⟨0⟩⟩], _, whole, latest_given gave, answers_given gave⟩

theorem dispose_asks {e : Entry} {fault : WireError} {t : Treatment} (disposes : Disposes e fault t) :
    ∃ told next, (Calls.dispose e fault).run.Reaches told (.ask (.transaction t.removal) next) ∧
      ∀ past, latest (told ++ past) = latest past ∧
        answers (told ++ past) = t.answers ++ answers past := by
  unfold Disposes at disposes
  split at disposes
  · rename_i id named
    obtain ⟨now, rfl⟩ := disposes
    let r := TaskResult.refused id fault.message now
    have published : (Calls.publish r).run.Reaches
        [⟨.send (.saveResult r.taskId r.encoded), .ok .nil⟩] (.done (.ok ())) :=
      Program.Reaches.answer (I := asks) (q := Ask.send _) .start (Except.ok Reply.nil)
    have asks : (Calls.dispose e fault).run.Reaches
        ([⟨.send (.saveResult r.taskId r.encoded), .ok .nil⟩] ++ [⟨.clock, now⟩])
        (Calls.retire e.id none).run := by
      simp only [Calls.dispose, named]
      exact (reaches_bind (reaches_lift .clock now)).trans (reaches_bind published)
    refine ⟨_, _, asks, fun past => ⟨?_, ?_⟩⟩
    · exact (latest_quiet rfl).trans (latest_quiet rfl)
    · exact (answers_quiet rfl).trans (congrArg _ (answers_quiet rfl))
  · rename_i unnamed
    subst disposes
    simp only [Calls.dispose, unnamed]
    exact ⟨[], _, .start, fun _ => ⟨rfl, rfl⟩⟩

theorem popTreats_of_disposes (s : Settings) {e : Entry} {fault : WireError} {t : Treatment}
    (refused : e.task = .error fault) (disposes : Disposes e fault t) : PopTreats s e t := by
  obtain ⟨told, next, asks, same⟩ := dispose_asks disposes
  obtain ⟨past, rest, reaches, gave, unanswered⟩ := pop_reaches_dispose s refused asks
  have last : latest (told ++ past) = [e] := (same past).1.trans gave
  refine ⟨1, false, ⟨0⟩, told ++ past, ⟨rest, reaches⟩, ?_, ?_, disposes.named, ?_⟩
  · simp [last]
  · simp [last]
  · rw [(same past).2, unanswered, List.append_nil]

theorem reclaimTreats_aside (s : Settings) {e : Entry} {fault : WireError}
    (refused : e.task = .error fault) : ReclaimTreats s e (.aside e) := by
  let x : Exchange asks :=
    ⟨.send (.takeIdle (Calls.wholeMillis ⟨0⟩) 1), .ok (.list [.nil, .list [e.shown]])⟩
  have gave : given x = [e] := by simp [x, given, takenEntries_shown, Except.toOption]
  have told : (Calls.reclaim s ⟨0⟩ 1).run.Reaches [x]
      (Job.ofExcept (takenEntries (.list [.nil, .list [e.shown]])) >>= Calls.takeBackAll s).run :=
    Program.Reaches.answer (I := asks) (q := Ask.send _) .start (Except.ok _)
  rw [takenEntries_shown] at told
  have first : (Calls.reclaim s ⟨0⟩ 1).run.Reaches [x] (Calls.takeBackAll s [e]).run := told
  simp only [Calls.takeBackAll, Calls.takeBack, refused] at first
  refine ⟨⟨0⟩, 1, [x], ⟨_, first⟩, ?_, ?_, ?_, answers_given gave⟩
  · simp [latest_given gave]
  · simp [latest_given gave]
  · simp [Treatment.aside, handling]

end Broker

end ClaimQueue
