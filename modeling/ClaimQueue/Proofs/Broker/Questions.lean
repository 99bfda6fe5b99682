import ClaimQueue.Broker.Calls
import ClaimQueue.Proofs.Broker.Jobs

/-! What the calls that handle tasks ask of the broker, after what they were told: one description
for each call, and the proof that the call asks nothing else. -/

namespace ClaimQueue

namespace Broker

open Job

/-- The commands that end the life of an entry, after what takes its place, and with its claim if
one is named. -/
def handling (front : List Command) (entry : String) (id : Option String) : List Command :=
  front ++ [.acknowledge entry, .delete entry] ++ (id.map Command.dropClaim).toList

/-- A call to enqueue asks once. -/
inductive EnqueueAsks (t : Task) : Told → Ask → Prop
  | append : EnqueueAsks t [] (.send (.append (Text.Utf8.bytes t.encoded)))

theorem enqueue_along (t : Task) :
    Along (EnqueueAsks t)
      (fun now _ => ∃ r, now = [⟨.send (.append (Text.Utf8.bytes t.encoded)), .ok r⟩])
      (Calls.append t) [] := by
  refine (along_read .append).bind fun now _ told => ?_
  obtain ⟨r, told, -⟩ := told
  exact along_pure ⟨r, told⟩

/-- The entry of a claim that was found to be one's own. -/
def Owned (s : Settings) (id entry : String) (past : Told) : Prop :=
  ∃ r claim, ⟨.send (.claimOf id), .ok r⟩ ∈ past ∧
    Reply.optional? Reply.text? r = some (some claim) ∧ claimParts? claim = some (entry, s.consumer)

theorem Owned.mono {s : Settings} {id entry : String} {past : Told} (h : Owned s id entry past)
    (x : Exchange asks) : Owned s id entry (x :: past) := by
  obtain ⟨r, claim, mem, read, parts⟩ := h
  exact ⟨r, claim, List.mem_cons_of_mem _ mem, read, parts⟩

/-- What a call makes of the claim that it looked up. -/
def TakenFor (s : Settings) (r : Reply) (mine? : Option String) : Prop :=
  ∃ claim?, Reply.optional? Reply.text? r = some claim? ∧ match claim? with
    | none => mine? = none
    | some claim => ∃ entry owner, claimParts? claim = some (entry, owner) ∧
      mine? = if owner = s.consumer then some entry else none

theorem TakenFor.owned {s : Settings} {id : String} {r : Reply} {entry : String} {past : Told}
    (h : TakenFor s r (some entry)) (mem : ⟨.send (.claimOf id), .ok r⟩ ∈ past) :
    Owned s id entry past := by
  obtain ⟨claim?, read, taken⟩ := h
  cases claim? with
  | none => cases taken
  | some claim =>
    obtain ⟨entry', owner, parts, same⟩ := taken
    split at same
    · rename_i own
      cases same
      exact ⟨r, claim, mem, read, own ▸ parts⟩
    · cases same

theorem ownClaim_along {fit : Told → Ask → Prop} (s : Settings) (id : String)
    (look : fit [] (.send (.claimOf id))) :
    Along fit (fun now mine? => ∃ r, now = [⟨.send (.claimOf id), .ok r⟩] ∧ TakenFor s r mine?)
      (Calls.ownClaim s id) [] := by
  refine (along_read look).bind fun now claim? told => ?_
  obtain ⟨r, told, read⟩ := told
  split
  · exact along_pure ⟨r, told, none, read, rfl⟩
  · rename_i claim
    split
    · rename_i entry owner parts
      exact along_pure ⟨r, told, some claim, read, entry, owner, parts, rfl⟩
    · exact along_throw _

inductive AckAsks (s : Settings) (id : String) : Told → Ask → Prop
  | look : AckAsks s id [] (.send (.claimOf id))
  | retire {past : Told} {entry : String} (own : Owned s id entry past) :
      AckAsks s id past (.transaction (handling [] entry (some id)))

/-- All that went well: a claim that is the client's own was given up. -/
def Acked (s : Settings) (id : String) (past : Told) : Prop :=
  ∃ r mine?, ⟨.send (.claimOf id), .ok r⟩ ∈ past ∧ TakenFor s r mine? ∧
    ∀ entry, mine? = some entry → ∃ rs, ⟨.transaction (handling [] entry (some id)), .ok rs⟩ ∈ past

theorem ack_along (s : Settings) (id : String) :
    Along (AckAsks s id) (fun now _ => Acked s id now) (Calls.ack s id) [] := by
  refine (ownClaim_along s id .look).bind fun now mine? own => ?_
  obtain ⟨r, rfl, taken⟩ := own
  split
  · exact along_pure ⟨r, none, List.mem_cons_self, taken, fun _ same => nomatch same⟩
  · rename_i entry
    refine (along_transact (.retire (taken.owned List.mem_cons_self))).mono fun now _ told => ?_
    obtain ⟨rs, rfl⟩ := told
    refine ⟨r, some entry, List.mem_cons_of_mem _ List.mem_cons_self, taken, fun entry' same => ?_⟩
    cases same
    exact ⟨rs, List.mem_cons_self⟩

/-- The body of an entry as it was looked up; none, if it was gone. -/
def LookedUp (entry : String) (body : Option (List UInt8)) (past : Told) : Prop :=
  ∃ r es, ⟨.send (.readEntry entry), .ok r⟩ ∈ past ∧ entriesOf r = .ok es ∧
    es.head?.bind (·.body) = body

inductive ReleaseAsks (s : Settings) (id : String) : Told → Ask → Prop
  | look : ReleaseAsks s id [] (.send (.claimOf id))
  | lookUp {past : Told} {entry : String} (own : Owned s id entry past) :
      ReleaseAsks s id past (.send (.readEntry entry))
  | forget {past : Told} {entry : String} (own : Owned s id entry past)
      (gone : LookedUp entry none past) : ReleaseAsks s id past (.send (.dropClaim id))
  | putBack {past : Told} {entry : String} {body : List UInt8} (own : Owned s id entry past)
      (found : LookedUp entry (some body) past) :
      ReleaseAsks s id past (.transaction (handling [.append body] entry (some id)))

theorem entryBody_along {fit : Told → Ask → Prop} {past : Told} (entry : String)
    (lookUp : fit past (.send (.readEntry entry))) :
    Along fit (fun now body => LookedUp entry body now ∧ ∃ x, now = x :: past)
      (Calls.entryBody entry) past := by
  refine (along_send lookUp).bind fun now r told => ?_
  refine along_parsed fun es read => ?_
  exact along_pure ⟨⟨r, es, told ▸ List.mem_cons_self, read, rfl⟩, _, told⟩

theorem release_along (s : Settings) (id : String) :
    Along (ReleaseAsks s id) (fun _ _ => True) (Calls.release s id) [] := by
  refine (ownClaim_along s id .look).bind fun now mine? own => ?_
  obtain ⟨r, rfl, taken⟩ := own
  split
  · exact along_pure trivial
  · rename_i entry
    have own : Owned s id entry [⟨.send (.claimOf id), .ok r⟩] := taken.owned List.mem_cons_self
    refine (entryBody_along entry (.lookUp own)).bind fun later body found => ?_
    obtain ⟨found, x, rfl⟩ := found
    split
    · exact along_tell (.forget (own.mono x) found)
    · exact (along_transact (.putBack (own.mono x) found)).mono fun _ _ _ => trivial

/-- An entry that was read off the stream, first of all that came. -/
def Read (e : Entry) (past : Told) : Prop :=
  ∃ wait r es, (⟨.send (.readNew wait), .ok r⟩ ∈ past ∨ ⟨.sendWaiting (.readNew wait), .ok r⟩ ∈ past) ∧
    readEntries r = .ok es ∧ es.head? = some e

theorem Read.mono {e : Entry} {past : Told} (h : Read e past) (x : Exchange asks) :
    Read e (x :: past) := by
  obtain ⟨wait, r, es, mem, read, head⟩ := h
  exact ⟨wait, r, es, mem.imp (List.mem_cons_of_mem _) (List.mem_cons_of_mem _), read, head⟩

inductive PopAsks (s : Settings) : Told → Ask → Prop
  | clock (past : Told) : PopAsks s past .clock
  | elapsed (past : Told) : PopAsks s past .elapsed
  | read (past : Told) : PopAsks s past (.send (.readNew none))
  | readWaiting (past : Told) (millis : Nat) :
      PopAsks s past (.sendWaiting (.readNew (some millis)))
  | claim {past : Told} {e : Entry} {t : Task} (read : Read e past) (task : e.task = .ok t) :
      PopAsks s past (.send (.setClaim t.id (claimValue e.id s.consumer)))
  | refuse (past : Told) (id body : String) : PopAsks s past (.send (.saveResult id body))
  | drop {past : Told} {e : Entry} {fault : WireError} (read : Read e past)
      (task : e.task = .error fault) (front : List Command)
      (aside : front = [] ∨ ∃ body, front = [.park body]) :
      PopAsks s past (.transaction (handling front e.id none))

theorem readOne_along (s : Settings) (wait : Option Span) (past : Told) :
    Along (PopAsks s) (fun now e? => ∀ e, e? = some e → Read e now) (Calls.readOne wait) past := by
  have parsed {now : Told} {r : Reply}
      (mem : ∃ wait, ⟨.send (.readNew wait), .ok r⟩ ∈ now ∨
        ⟨.sendWaiting (.readNew wait), .ok r⟩ ∈ now) :
      Along (PopAsks s) (fun now e? => ∀ e, e? = some e → Read e now)
        (do return (← Job.ofExcept (readEntries r)).head? : Job QueueError (Option Entry)) now := by
    refine along_parsed fun es read => ?_
    obtain ⟨wait, mem⟩ := mem
    exact along_pure fun e head => ⟨wait, r, es, mem, read, head⟩
  unfold Calls.readOne
  cases wait with
  | none =>
    refine (along_send (.read past)).bind fun now r told => ?_
    exact parsed ⟨none, .inl (told ▸ List.mem_cons_self)⟩
  | some wait =>
    refine (along_sendWaiting (.readWaiting past (Calls.waitMillis wait))).bind fun now r told => ?_
    exact parsed ⟨_, .inr (told ▸ List.mem_cons_self)⟩

theorem publish_along {fit : Told → Ask → Prop} (r : TaskResult) (past : Told)
    (save : fit past (.send (.saveResult r.taskId r.encoded))) :
    Along fit (fun now _ => ∃ a, now = ⟨.send (.saveResult r.taskId r.encoded), .ok a⟩ :: past)
      (Calls.publish r) past := by
  have saved : Along fit
      (fun now _ => ∃ a, now = ⟨.send (.saveResult r.taskId r.encoded), .ok a⟩ :: past)
      (Results.save r) past := by
    have sent : Along fit (fun now a => now = ⟨.send (.saveResult r.taskId r.encoded), .ok a⟩ :: past)
        (Results.send (.saveResult r.taskId r.encoded)) past :=
      along_of ((along_ask save).mono fun _ _ told a same => by rw [told, same])
    exact sent.bind fun now a told => along_pure ⟨a, told⟩
  refine Program.Along.bind saved fun now r told => ?_
  cases r with
  | ok u => exact fun _ _ => told u rfl
  | error e => exact fun _ same => nomatch same

theorem dispose_along (s : Settings) {e : Entry} {fault : WireError} {past : Told}
    (read : Read e past) (task : e.task = .error fault) :
    Along (PopAsks s) (fun _ _ => True) (Calls.dispose e fault) past := by
  unfold Calls.dispose
  split
  · rename_i id
    refine (along_lift (.clock past)).bind fun now clock told => ?_
    subst told
    refine (publish_along _ _ (.refuse _ _ _)).bind fun now _ told => ?_
    obtain ⟨a, rfl⟩ := told
    exact (along_transact (.drop ((read.mono _).mono _) task [] (.inl rfl))).mono
      fun _ _ _ => trivial
  · exact (along_transact (.drop read task [_] (.inr ⟨_, rfl⟩))).mono fun _ _ _ => trivial

theorem popRound_along (s : Settings) (deadline : Option Span) (past : Told) :
    Along (PopAsks s) (fun _ _ => True) (Calls.popRound s deadline) past := by
  have patience : Along (PopAsks s) (fun _ _ => True) (Calls.patience deadline) past := by
    unfold Calls.patience
    split
    · exact along_pure trivial
    · refine (along_lift (.elapsed past)).bind fun now _ _ => ?_
      exact along_pure trivial
  refine patience.andThen fun now wait => ?_
  split
  · exact along_pure trivial
  · refine (readOne_along s _ now).bind fun now e? read => ?_
    split
    · exact along_pure trivial
    · rename_i e
      have read := read e rfl
      split
      · rename_i t task
        exact (along_tell (.claim read task)).andThen fun _ _ => along_pure trivial
      · rename_i fault task
        exact (dispose_along s read task).andThen fun _ _ => along_pure trivial

theorem pop_along (rounds : Nat) (s : Settings) (block : Bool) (timeout : Span) :
    Along (PopAsks s) (fun _ _ => True) (Calls.pop rounds s block timeout) [] := by
  refine (along_lift (.elapsed [])).bind fun now start _ => ?_
  refine along_tryLoop (fun _ _ => True) (fun past _ _ => ?_) rounds trivial
  refine (popRound_along s _ past).mono fun now r _ => ?_
  cases r <;> trivial

/-- An entry that was taken over. -/
def TakenOver (e : Entry) (past : Told) : Prop :=
  ∃ millis batch r es, ⟨.send (.takeIdle millis batch), .ok r⟩ ∈ past ∧
    takenEntries r = .ok es ∧ e ∈ es

theorem TakenOver.mono {e : Entry} {past : Told} (h : TakenOver e past) (x : Exchange asks) :
    TakenOver e (x :: past) := by
  obtain ⟨millis, batch, r, es, mem, read, e_mem⟩ := h
  exact ⟨millis, batch, r, es, List.mem_cons_of_mem _ mem, read, e_mem⟩

inductive ReclaimAsks (s : Settings) : Told → Ask → Prop
  | take (millis batch : Nat) : ReclaimAsks s [] (.send (.takeIdle millis batch))
  | clock (past : Told) : ReclaimAsks s past .clock
  | move {past : Told} {e : Entry} {t : Task} (taken : TakenOver e past) (task : e.task = .ok t)
      (now : Instant) : ReclaimAsks s past
        (.transaction (handling [Calls.moved s now t.bumped] e.id (some t.id)))
  | drop {past : Told} {e : Entry} {fault : WireError} (taken : TakenOver e past)
      (task : e.task = .error fault) (body : List UInt8) :
      ReclaimAsks s past (.transaction (handling [.park body] e.id none))

theorem takeBack_along (s : Settings) {e : Entry} {past : Told} (taken : TakenOver e past) :
    Along (ReclaimAsks s) (fun now _ => ∃ before, now = before ++ past) (Calls.takeBack s e) past := by
  unfold Calls.takeBack
  split
  · rename_i fault task
    refine (along_transact (.drop taken task _)).bind fun now _ told => ?_
    obtain ⟨r, rfl⟩ := told
    exact along_pure ⟨[_], rfl⟩
  · rename_i t task
    refine (along_lift (.clock past)).bind fun now clock told => ?_
    subst told
    refine (along_transact (.move (taken.mono _) task clock)).bind fun now _ told => ?_
    obtain ⟨r, rfl⟩ := told
    exact along_pure ⟨[_, _], rfl⟩

theorem TakenOver.append {e : Entry} {past : Told} (h : TakenOver e past) (before : Told) :
    TakenOver e (before ++ past) := by
  induction before with
  | nil => exact h
  | cons x before ih => exact ih.mono x

theorem takeBackAll_along (s : Settings) {es : List Entry} {past : Told}
    (taken : ∀ e ∈ es, TakenOver e past) :
    Along (ReclaimAsks s) (fun _ _ => True) (Calls.takeBackAll s es) past := by
  induction es generalizing past with
  | nil => exact along_pure trivial
  | cons e es ih =>
    refine (takeBack_along s (taken e List.mem_cons_self)).bind fun now again told => ?_
    obtain ⟨before, rfl⟩ := told
    refine (ih fun e mem => (taken e (List.mem_cons_of_mem _ mem)).append before).andThen
      fun _ _ => ?_
    exact along_pure trivial

theorem reclaim_along (s : Settings) (idle : Span) (batch : Nat) :
    Along (ReclaimAsks s) (fun _ _ => True) (Calls.reclaim s idle batch) [] := by
  unfold Calls.reclaim
  split
  · exact along_pure trivial
  · refine (along_send (.take _ _)).bind fun now r told => ?_
    refine along_parsed fun es read => ?_
    exact takeBackAll_along s fun e mem => ⟨_, _, r, es, told ▸ List.mem_cons_self, read, mem⟩

end Broker

end ClaimQueue
