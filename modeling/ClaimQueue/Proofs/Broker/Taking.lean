import ClaimQueue.Proofs.Broker.Answers
import ClaimQueue.Proofs.Broker.Hygiene

/-! The calls that take a dead letter, question by question: the list is read, the item removed by
another command, and its task appended by a third, where it is to be tried again. All other
undertakings leave the dead letters of that task alone, unless they bury a new one. -/

namespace ClaimQueue

namespace Broker

open Server Job

variable {α β : Type} {s : Settings} {w : Server} {id raw : String} {l : DeadLetter}

/-! One question of what a client has still to do. -/

/-- The next question is `q`, and with the broker's answer `p'` is left to do. -/
def Moves (s : Settings) (w : Server) (q : Ask) (p p' : Program asks α) : Prop :=
  ∃ next, p = .ask q next ∧ next (w.answer s q).1 = p'

/-- The next question is `q`, and without an answer `p'` is left to do. -/
def Breaks (fault : LinkFault) (q : Ask) (p p' : Program asks α) : Prop :=
  ∃ next r, p = .ask q next ∧ lostAnswer? fault q = some r ∧ next r = p'

theorem read_bind_run (parse : Reply → Option α) (c : Command) (f : α → Job QueueError β) :
    (read parse c >>= f).run = .ask (.send c) fun r => match r with
      | .ok reply => ((match parse reply with
        | some a => pure a
        | none => throw mistyped : Job QueueError α) >>= f).run
      | .error fault => .done (.error fault.toQueueError) := by
  refine congrArg (Program.ask (I := asks) (Ask.send c)) ?_
  funext r
  cases r <;> rfl

theorem moves_read {parse : Reply → Option α} {c : Command} {r : Reply} {a : α}
    {f : α → Job QueueError β} (h : (w.perform s c).1 = .ok r) (parsed : parse r = some a) :
    Moves s w (.send c) (read parse c >>= f).run (f a).run := by
  refine ⟨_, read_bind_run parse c f, ?_⟩
  have replied : (w.answer s (.send c)).1 = .ok r := h
  simp only [replied, parsed]
  rfl

theorem moves_read_none {parse : Reply → Option α} {c : Command} {r : Reply}
    {f : α → Job QueueError β} (h : (w.perform s c).1 = .ok r) (unread : parse r = none) :
    Moves s w (.send c) (read parse c >>= f).run (.done (.error mistyped)) := by
  refine ⟨_, read_bind_run parse c f, ?_⟩
  have replied : (w.answer s (.send c)).1 = .ok r := h
  simp only [replied, unread]
  rfl

theorem breaks_read (fault : LinkFault) (parse : Reply → Option α) (c : Command)
    (f : α → Job QueueError β) :
    Breaks fault (.send c) (read parse c >>= f).run (.done (.error fault.toQueueError)) :=
  ⟨_, .error fault, read_bind_run parse c f, rfl, rfl⟩

namespace System

/-- Idle clients of a broker, whatever it holds. -/
def around (w : Server) (clients : List Settings) : System :=
  { server := w, clients := clients.map fun s => { settings := s } }

variable {y : System} {i : Nat} {c : Client} {u : Undertaking} {q : Ask}
  {p p' : Program asks u.Outcome}

theorem go_of_moves (found : y.clients[i]? = some c) (current : c.current = some ⟨u, p⟩)
    (moves : Moves c.settings y.server q p p') :
    y.go i = {
      server := (y.server.answer c.settings q).2
      clients := y.clients.set i { c with current := some ⟨u, p'⟩ : Client }.settle
      deeds := ⟨i, c.history.length, u, c.settings, q, y.server⟩ :: y.deeds } := by
  obtain ⟨next, rfl, rfl⟩ := moves
  simp only [go, found, current]
  rfl

theorem lose_of_breaks {fault : LinkFault} (found : y.clients[i]? = some c)
    (current : c.current = some ⟨u, p⟩) (breaks : Breaks fault q p p') (reached : Bool) :
    y.lose i fault reached = {
      server := if reached then (y.server.answer c.settings q).2 else y.server
      clients := y.clients.set i { c with current := some ⟨u, p'⟩ : Client }.settle
      deeds := if reached then ⟨i, c.history.length, u, c.settings, q, y.server⟩ :: y.deeds
        else y.deeds } := by
  obtain ⟨next, r, rfl, lost, rfl⟩ := breaks
  simp only [lose, found, current, lost]
  rfl

end System

/-! Taking a dead letter. -/

/-- What is made of the letter that was taken. -/
inductive Aim where
  | replay
  | discard
  deriving DecidableEq

namespace Aim

def undertaking (id : String) : Aim → Undertaking
  | replay => .call (.replay id)
  | discard => .call (.discard id)

def underway (id : String) : Aim → Program asks (Except QueueError Bool) → Underway
  | replay, p => ⟨.call (.replay id), p⟩
  | discard, p => ⟨.call (.discard id), p⟩

def finished (id : String) : Aim → Except QueueError Bool → Finished
  | replay, o => ⟨.call (.replay id), o⟩
  | discard, o => ⟨.call (.discard id), o⟩

/-- What is done with the letter once it was taken. -/
def use : Aim → DeadLetter → Job QueueError Bool
  | replay, l => do
    Calls.append l.task
    return true
  | discard, _ => return true

/-- What is done with the item once it was chosen. -/
def removes (a : Aim) (raw : String) (l : DeadLetter) : Job QueueError Bool := do
  let removed ← read Reply.size? (.unbury raw)
  if removed = 0 then return false else a.use l

def lists (a : Aim) (id : String) : Job QueueError Bool := do
  let texts ← read Reply.texts? (.letters (-1))
  match letterFor? id texts with
  | none => return false
  | some (raw, l) => a.removes raw l

theorem lists_eq (a : Aim) (id : String) : a.lists id = (do
    match ← Calls.takeLetter id with
    | none => return false
    | some l => a.use l) := by
  rw [Calls.takeLetter, bind_assoc]
  refine congrArg _ (funext fun texts => ?_)
  rw [letterFor?]
  generalize (Calls.readable texts).find? _ = found
  cases found with
  | none => rfl
  | some e =>
    simp only [removes, bind_assoc]
    refine congrArg _ (funext fun removed => ?_)
    by_cases gone : removed = 0
    · rw [if_pos gone, if_pos gone]
      rfl
    · rw [if_neg gone, if_neg gone]
      rfl

/-- The calls are these jobs. -/
theorem work_eq (a : Aim) (id : String) (rounds : Nat) (s : Settings) :
    (⟨a.undertaking id, (a.undertaking id).work rounds s⟩ : Underway) =
      a.underway id (a.lists id).run := by
  cases a with
  | replay =>
    rw [lists_eq]
    rfl
  | discard =>
    rw [lists_eq]
    have job : (do return (← Calls.takeLetter id).isSome : Job QueueError Bool) = (do
        match ← Calls.takeLetter id with
        | none => return false
        | some l => discard.use l) := by
      refine congrArg _ (funext fun taken => ?_)
      cases taken <;> rfl
    rw [← job]
    rfl

theorem moves_lists_eq {texts : List String}
    (parsed : Reply.texts? (.list (w.dead.map .bulk)) = some texts) (a : Aim) :
    Moves s w (.send (.letters (-1))) (a.lists id).run (match letterFor? id texts with
      | none => pure false
      | some (raw, l) => a.removes raw l : Job QueueError Bool).run := by
  have reply : (w.perform s (.letters (-1))).1 = .ok (.list (w.dead.map .bulk)) := by
    simp only [perform, upTo_all]
  exact moves_read reply parsed

theorem moves_lists_none {texts : List String}
    (parsed : Reply.texts? (.list (w.dead.map .bulk)) = some texts)
    (absent : letterFor? id texts = none) (a : Aim) :
    Moves s w (.send (.letters (-1))) (a.lists id).run (.done (.ok false)) := by
  have moves : Moves s w _ (a.lists id).run _ := moves_lists_eq parsed a
  rwa [absent] at moves

theorem moves_lists {texts : List String}
    (parsed : Reply.texts? (.list (w.dead.map .bulk)) = some texts)
    (there : letterFor? id texts = some (raw, l)) (a : Aim) :
    Moves s w (.send (.letters (-1))) (a.lists id).run (a.removes raw l).run := by
  have moves : Moves s w _ (a.lists id).run _ := moves_lists_eq parsed a
  rwa [there] at moves

theorem moves_removes_none (gone : Text.Utf8.bytes raw ∉ w.dead) (a : Aim) :
    Moves s w (.send (.unbury raw)) (a.removes raw l).run (.done (.ok false)) := by
  have reply : (w.perform s (.unbury raw)).1 = .ok (.int 0) := by
    simp [perform, gone, count]
  exact moves_read (f := fun removed => if removed = 0 then pure false else a.use l) reply
    (size?_int (n := 0) (by decide))

theorem moves_removes (there : Text.Utf8.bytes raw ∈ w.dead) (a : Aim) :
    Moves s w (.send (.unbury raw)) (a.removes raw l).run (a.use l).run := by
  have reply : (w.perform s (.unbury raw)).1 = .ok (.int 1) := by
    simp [perform, there, count]
  exact moves_read (f := fun removed => if removed = 0 then pure false else a.use l) reply
    (size?_int (n := 1) (by decide))

theorem use_replay (l : DeadLetter) : replay.use l =
    read Reply.text? (.append (Text.Utf8.bytes l.task.encoded)) >>= fun _ => pure true := by
  rw [use, Calls.append, bind_assoc]
  rfl

theorem moves_appends :
    Moves s w (.send (.append (Text.Utf8.bytes l.task.encoded))) (replay.use l).run
      (.done (.ok true)) := by
  rw [use_replay]
  exact moves_read rfl (text?_bytes _)

theorem breaks_appends (fault : LinkFault) :
    Breaks fault (.send (.append (Text.Utf8.bytes l.task.encoded))) (replay.use l).run
      (.done (.error fault.toQueueError)) := by
  rw [use_replay]
  exact breaks_read fault _ _ _

/-! A client in the midst of such a call. -/

variable {y : System} {i : Nat} {c : Client}

theorem settle_done (a : Aim) (id : String) (o : Except QueueError Bool) (c : Client) :
    ({ c with current := some (a.underway id (.done o)) } : Client).settle =
      { c with current := none, history := a.finished id o :: c.history } := by
  cases a <;> rfl

theorem settle_lists (a : Aim) (id : String) (c : Client) :
    ({ c with current := some (a.underway id (a.lists id).run) } : Client).settle =
      { c with current := some (a.underway id (a.lists id).run) } := by
  cases a <;> rfl

theorem settle_removes (a : Aim) (c : Client) :
    ({ c with current := some (a.underway id (a.removes raw l).run) } : Client).settle =
      { c with current := some (a.underway id (a.removes raw l).run) } := by
  cases a <;> rfl

theorem settle_appends (c : Client) :
    ({ c with current := some (replay.underway id (replay.use l).run) } : Client).settle =
      { c with current := some (replay.underway id (replay.use l).run) } := rfl

theorem go_eq (a : Aim) (found : y.clients[i]? = some c) {p p' : Program asks (Except QueueError Bool)}
    (current : c.current = some (a.underway id p)) {q : Ask} (moves : Moves c.settings y.server q p p') :
    y.go i = {
      server := (y.server.answer c.settings q).2
      clients := y.clients.set i { c with current := some (a.underway id p') : Client }.settle
      deeds := ⟨i, c.history.length, a.undertaking id, c.settings, q, y.server⟩ :: y.deeds } := by
  cases a <;> exact System.go_of_moves found current moves

theorem lose_eq (a : Aim) {fault : LinkFault} (found : y.clients[i]? = some c)
    {p p' : Program asks (Except QueueError Bool)} (current : c.current = some (a.underway id p))
    {q : Ask} (breaks : Breaks fault q p p') (reached : Bool) :
    y.lose i fault reached = {
      server := if reached then (y.server.answer c.settings q).2 else y.server
      clients := y.clients.set i { c with current := some (a.underway id p') : Client }.settle
      deeds := if reached then ⟨i, c.history.length, a.undertaking id, c.settings, q, y.server⟩ :: y.deeds
        else y.deeds } := by
  cases a <;> exact System.lose_of_breaks found current breaks reached

/-! However it goes, the call is over after three commands. -/

theorem within_read {parse : Reply → Option α} {c : Command} {f : α → Job QueueError β} {n : Nat}
    (more : ∀ a, (f a).run.Within n) : (read parse c >>= f).run.Within (n + 1) := by
  rw [read_bind_run]
  refine ⟨n, Nat.lt_succ_self n, fun r => ?_⟩
  cases r with
  | error fault => trivial
  | ok reply =>
    dsimp only
    cases parse reply with
    | none => trivial
    | some a => exact more a

theorem within_use (a : Aim) (l : DeadLetter) : (a.use l).run.Within 1 := by
  cases a with
  | discard => trivial
  | replay =>
    rw [use_replay]
    exact within_read fun _ => trivial

theorem within_removes (a : Aim) (raw : String) (l : DeadLetter) : (a.removes raw l).run.Within 2 := by
  refine within_read fun removed => ?_
  split
  · trivial
  · exact within_use a l

theorem within_lists (a : Aim) (id : String) : (a.lists id).run.Within 3 := by
  refine within_read fun texts => ?_
  split
  · trivial
  · exact within_removes a _ _

end Aim

/-! Other undertakings. -/

/-- The text is a letter for this task. -/
def IsFor (id text : String) : Prop :=
  ∃ l, DeadLetter.decoder.ofText text = .ok l ∧ l.task.id = id

def Undertaking.takes (id : String) : Undertaking → Bool
  | .call (.replay x) | .call (.discard x) => x == id
  | _ => false

def Ask.commands : Ask → List Command
  | .send c | .sendWaiting c => [c]
  | .transaction cs | .together cs => cs
  | .connect _ | .elapsed | .clock | .pause _ => []

/-- Takes no dead letter out of the list. -/
def Ask.Leaves (q : Ask) : Prop := ∀ text, .unbury text ∉ q.commands

/-- Takes no letter for this task out of the list. -/
def Ask.Spares (id : String) (q : Ask) : Prop :=
  ∀ text, .unbury text ∈ q.commands → ¬ IsFor id text

namespace Undertaking

theorem takes_iff {id : String} {u : Undertaking} :
    u.takes id = true ↔ ∃ a : Aim, u = a.undertaking id := by
  constructor
  · intro takes
    cases u with
    | retire => cases takes
    | call c =>
      cases c with
      | replay x => exact ⟨.replay, by rw [eq_of_beq takes]; rfl⟩
      | discard x => exact ⟨.discard, by rw [eq_of_beq takes]; rfl⟩
      | _ => cases takes
  · rintro ⟨a, rfl⟩
    cases a <;> exact beq_self_eq_true id

theorem takes_undertaking (a : Aim) (id : String) : (a.undertaking id).takes id = true :=
  takes_iff.mpr ⟨a, rfl⟩

theorem takeLetter_along {x : String} (other : x ≠ id) :
    Along (fun _ => Ask.Spares id) (fun _ _ => True) (Calls.takeLetter x) [] := by
  refine Along.andThen ((along_read ?_).mono fun _ _ _ => trivial) fun now texts => ?_
  · simp [Ask.Spares, Ask.commands]
  · split
    · exact along_pure trivial
    · rename_i raw l found
      refine Along.andThen ((along_read ?_).mono fun _ _ _ => trivial) fun _ _ => along_pure trivial
      intro text unbury
      simp only [Ask.commands, List.mem_singleton, Command.unbury.injEq] at unbury
      subst unbury
      rintro ⟨l', letter, own⟩
      have read := (mem_readable.mp (List.mem_of_find?_eq_some found)).2
      have named : (l.task.id == x) = true :=
        List.find?_some (p := fun e : String × DeadLetter => e.2.task.id == x) found
      rw [read] at letter
      cases letter
      exact other ((eq_of_beq named).symm.trans own)

theorem spares_of_along {fit : Told → Ask → Prop} {ends : Told → α → Prop} {j : Job QueueError α}
    (h : Along fit ends j []) (leaves : ∀ past q, fit past q → q.Leaves) :
    j.run.Along (fun _ => Ask.Spares id) (fun _ _ => True) [] :=
  (Program.Along.weaken h fun past q asks text unbury => absurd unbury (leaves past q asks text)).mono
    fun _ _ _ => trivial

theorem leaves_along {q : Ask} (h : q.Leaves) {ends : Told → q.Answer → Prop}
    (always : ∀ now a, ends now a) (past : Told) :
    Program.Along (fun _ => Ask.Leaves) ends (ask q) past :=
  ⟨h, fun _ => always _ _⟩

theorem getResult_along (x : String) (past : Told) :
    Along (fun _ => Ask.Leaves) (fun _ _ => True)
      (Calls.getResult x) past := by
  have got : Along (fun _ => Ask.Leaves) (fun _ _ => True)
      (Results.get x) past := by
    have look : (Ask.send (.resultOf x)).Leaves := fun text => by simp [Ask.commands]
    have sent : Along (fun _ => Ask.Leaves) (fun _ _ => True) (Results.send (.resultOf x)) past :=
      along_of (leaves_along look (fun _ _ _ _ => trivial) _)
    refine sent.andThen fun now r => ?_
    split
    · exact along_throw _
    · exact along_pure trivial
    · exact (along_ofExcept fun _ _ => trivial).andThen fun _ _ => along_pure trivial
  refine Program.Along.bind got fun now r _ => ?_
  cases r with
  | ok r => exact fun _ _ => trivial
  | error e => exact fun _ same => nomatch same

theorem awaitResult_along (rounds : Nat) (s : Settings) (x : String) (timeout : Span) :
    Along (fun _ => Ask.Leaves) (fun _ _ => True)
      (Calls.awaitResult rounds s x timeout) [] := by
  have idle {q : Ask} (none : q.commands = []) : q.Leaves := fun _ => none ▸ List.not_mem_nil
  refine (along_lift (idle rfl)).bind fun now start _ => ?_
  refine along_tryLoop (fun _ _ => True) (fun past _ _ => ?_) rounds trivial
  refine (?_ : Along (fun _ => Ask.Leaves) (fun _ _ => True) _ past).mono fun _ r _ => by
    cases r <;> trivial
  refine (getResult_along x past).andThen fun now r? => ?_
  split
  · exact along_pure trivial
  · refine (along_lift (idle rfl)).bind fun now left _ => ?_
    dsimp only
    split
    · exact along_pure trivial
    · exact (along_lift (idle rfl)).bind fun _ _ _ => along_pure trivial

theorem counts_along :
    Along (fun _ => Ask.Leaves) (fun _ _ => True) Calls.counts [] := by
  have look : (Ask.together [.length, .claimSummary, .letterCount]).Leaves :=
    fun text => by simp [Ask.commands]
  have asked : Along (fun _ => Ask.Leaves) (fun _ _ => True) (Job.of LinkFault.toQueueError
      (ask (.together [.length, .claimSummary, .letterCount]))) [] :=
    along_of (leaves_along look (fun _ _ _ _ => trivial) _)
  refine asked.andThen fun now rs => ?_
  split
  · split
    · exact (along_ofExcept fun _ _ => trivial).andThen fun _ _ => along_pure trivial
    · exact along_throw _
  · exact along_throw _

theorem deadLetters_along (limit : Nat) :
    Along (fun _ => Ask.Leaves) (fun _ _ => True)
      (Calls.deadLetters limit) [] := by
  unfold Calls.deadLetters
  split
  · exact along_pure trivial
  · refine Along.andThen ((along_read ?_).mono fun _ _ _ => trivial) fun _ _ => along_pure trivial
    exact fun text => by simp [Ask.commands]

/-- No other undertaking takes out a letter for the task. -/
theorem spares_along {u : Undertaking} (apart : u.takes id = false) (rounds : Nat) (s : Settings) :
    (u.work rounds s).Along (fun _ => Ask.Spares id) (fun _ _ => True) [] := by
  have taking {x : String} (other : (x == id) = false) {f : Option DeadLetter → Job QueueError Bool}
      (more : ∀ now l?, Along (fun _ => Ask.Spares id) (fun _ _ => True) (f l?) now) :
      (Calls.takeLetter x >>= f).run.Along (fun _ => Ask.Spares id) (fun _ _ => True) [] :=
    Program.Along.mono ((takeLetter_along (ne_of_beq_false other)).andThen more) fun _ _ _ => trivial
  cases u with
  | retire =>
    refine spares_of_along (retire_along s) fun _ _ asks _ => ?_
    cases asks <;> simp [Ask.commands]
  | call c =>
    cases c with
    | enqueue t =>
      refine spares_of_along (enqueue_along t) fun _ _ asks _ => ?_
      cases asks
      simp [Ask.commands]
    | pop block timeout =>
      refine spares_of_along (pop_along rounds s block timeout) fun _ _ asks _ => ?_
      cases asks with
      | drop _ _ _ aside => rcases aside with rfl | ⟨_, rfl⟩ <;> simp [Ask.commands, handling]
      | _ => simp [Ask.commands]
    | ack x =>
      refine spares_of_along (ack_along s x) fun _ _ asks _ => ?_
      cases asks <;> simp [Ask.commands, handling]
    | release x =>
      refine spares_of_along (release_along s x) fun _ _ asks _ => ?_
      cases asks <;> simp [Ask.commands, handling]
    | reclaim idle batch =>
      refine spares_of_along (reclaim_along s idle batch) fun _ _ asks _ => ?_
      cases asks with
      | move =>
        simp only [Ask.commands, handling, Calls.moved]
        split <;> simp
      | _ => simp [Ask.commands, handling]
    | prune idle =>
      refine spares_of_along (prune_along s idle) fun _ _ asks _ => ?_
      cases asks <;> simp [Ask.commands]
    | publish r =>
      have saves : (Ask.send (.saveResult r.taskId r.encoded)).Leaves :=
        fun text => by simp [Ask.commands]
      have published : Along (fun _ => Ask.Leaves) _ (Calls.publish r) [] := publish_along r [] saves
      exact spares_of_along published fun _ _ leaves => leaves
    | awaitResult x timeout =>
      exact spares_of_along (awaitResult_along rounds s x timeout) fun _ _ leaves => leaves
    | counts => exact spares_of_along counts_along fun _ _ leaves => leaves
    | deadLetters limit => exact spares_of_along (deadLetters_along limit) fun _ _ leaves => leaves
    | replay x =>
      refine taking apart fun now l? => ?_
      split
      · exact along_pure trivial
      · refine Along.andThen (j := Calls.append _) ?_ fun _ _ => along_pure trivial
        refine Along.andThen ((along_read ?_).mono fun _ _ _ => trivial) fun _ _ => along_pure trivial
        exact fun text => by simp [Ask.commands]
    | discard x => exact taking apart fun now l? => along_pure trivial

end Undertaking

end Broker

end ClaimQueue
