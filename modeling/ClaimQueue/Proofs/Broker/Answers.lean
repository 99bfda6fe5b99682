import ClaimQueue.Proofs.Broker.Delivery
import ClaimQueue.Proofs.Broker.Outcomes
import ClaimQueue.Proofs.Task.Exact

/-! What each call gives, and what it leaves of the broker, when nobody else comes in between. -/

namespace ClaimQueue

namespace Broker

open Server Job

variable {s : Settings} {w : Server}

/-! Transactions. -/

theorem performs_handling {front : List Command} {entry : String} {id : Option String}
    (h : ∀ c ∈ front, ∀ w : Server, ∃ r, (w.perform s c).1 = .ok r) :
    ∀ c ∈ handling front entry id, ∀ w : Server, ∃ r, (w.perform s c).1 = .ok r := by
  intro c mem w
  simp only [handling, List.mem_append, List.mem_cons, List.not_mem_nil, or_false,
    Option.mem_toList, Option.map_eq_some_iff] at mem
  rcases mem with (mem | rfl | rfl) | ⟨i, -, rfl⟩
  · exact h c mem w
  · exact ⟨_, rfl⟩
  · exact ⟨_, rfl⟩
  · exact ⟨_, rfl⟩

theorem gives_handling {front : List Command} (entry : String) (id : Option String)
    (h : ∀ c ∈ front, ∀ w : Server, ∃ r, (w.perform s c).1 = .ok r) :
    Gives s w (transact (handling front entry id)) ()
      (((w.performAll s front).2.without entry).unclaimed id) := by
  obtain ⟨rs, ok⟩ := performAll_ok (performs_handling h) w
  rw [← performAll_handling]
  exact gives_transact ok

/-! Enqueueing and popping. -/

theorem text?_bytes (text : String) : Reply.text? (.bulk (Text.Utf8.bytes text)) = some text :=
  Text.Utf8.text?_bytes text

theorem gives_append (t : Task) :
    Gives s w (Calls.append t) () (w.append (some (Text.Utf8.bytes t.encoded))) :=
  (gives_read rfl (text?_bytes _)).bind (gives_pure ())

theorem gives_readOne :
    Gives s w (Calls.readOne none) (w.waiting.head?.map seen) (w.deliver s).2 := by
  have reply : Gives s w (Broker.send (.readNew none)) (w.deliver s).1 (w.deliver s).2 :=
    gives_send rfl
  have head : w.waiting.head?.map seen = (w.waiting.head?.toList.map seen).head? := by
    cases w.waiting.head? <;> rfl
  rw [head]
  exact reply.bind ((gives_ofExcept (readEntries_deliver s w)).bind (gives_pure _))

theorem gives_pop_nothing (nothing : w.waiting.head? = none) (rounds : Nat) (timeout : Span) :
    Gives s w (Calls.pop (rounds + 1) s false timeout) none (w.heard s.consumer) := by
  have read := gives_readOne (s := s) (w := w)
  rw [deliver_eq, nothing] at read
  have round : Gives s w (Calls.popRound s none) (.inr none) (w.heard s.consumer) :=
    (gives_pure (some none)).bind (read.bind (gives_pure _))
  exact (gives_lift .elapsed).bind (gives_tryLoop round rounds)

/-- The entry is the client's now, and its claim is on record. -/
def Server.claimed (s : Settings) (n : Nat) (t : Task) (w : Server) : Server :=
  { w.heard s.consumer with
    delivered := n
    held := w.held ++ [⟨n, s.consumer, w.clock⟩]
    claims := Index.put t.id (claimValue (entryId n) s.consumer) w.claims }

/-- Some time is left, or none was set. -/
def Server.Waits (deadline : Option Span) (w : Server) : Prop :=
  ∀ d, deadline = some d → w.time.nanos < d.nanos

theorem gives_patience {deadline : Option Span} (waits : w.Waits deadline) :
    ∃ wait, Gives s w (Calls.patience deadline) (some wait) w := by
  cases deadline with
  | none => exact ⟨none, gives_pure (some none)⟩
  | some d =>
    have left : (d.less w.time).isZero = false :=
      beq_eq_false_iff_ne.mpr (Nat.sub_ne_zero_of_lt (waits d rfl))
    refine ⟨some (d.less w.time), (gives_lift .elapsed).bind ?_⟩
    show Gives s w (pure (if (d.less w.time).isZero then none else _)) _ w
    rw [left]
    exact gives_pure _

theorem gives_readOne_first (wait : Option Span) {e : Nat × Option (List UInt8)}
    (first : w.waiting.head? = some e) :
    Gives s w (Calls.readOne wait) (some (seen e)) (w.deliver s).2 := by
  cases wait with
  | none =>
    have read := gives_readOne (s := s) (w := w)
    rwa [first] at read
  | some span =>
    have entries := readEntries_deliver s w
    have reply : (w.deliver s).1 = .list [.list [bulk s.stream, .list [entryReply e]]] := by
      obtain ⟨rest, waiting⟩ := List.head?_eq_some_iff.mp first
      have same : (w.heard s.consumer).waiting = e :: rest := waiting
      simp only [deliver, same]
    have sent : Gives s w (Job.of LinkFault.toQueueError
        (ask (.sendWaiting (.readNew (some (Calls.waitMillis span)))))) (w.deliver s).1
        (w.deliver s).2 := by
      refine gives_of ?_
      show (some (Except.ok (w.deliver s).1), (w.deliver s).2.waited _ (.ok (w.deliver s).1)) = _
      rw [reply]
      rfl
    rw [first] at entries
    exact sent.bind ((gives_ofExcept entries).bind (gives_pure _))

section Rounds

variable {deadline : Option Span} {n : Nat} {body : List UInt8} {t : Task} {fault : Json.Fault}

theorem gives_popRound (waits : w.Waits deadline) (task : Task.ofBytes body = .ok t)
    (first : w.waiting.head? = some (n, some body)) :
    Gives s w (Calls.popRound s deadline) (.inr (some t)) (w.claimed s n t) := by
  obtain ⟨wait, patience⟩ := gives_patience (s := s) waits
  have read := gives_readOne_first (s := s) wait first
  rw [deliver_eq, first] at read
  have entry : (seen (n, some body)).task = .ok t := task
  refine patience.bind (read.bind ?_)
  simp only [entry]
  exact (gives_tell rfl).bind (gives_pure _)

/-- What an answer leaves under the id it is about. -/
def Server.answered (r : TaskResult) (w : Server) : Server :=
  { w with
    results := Index.put r.taskId (Text.Utf8.bytes r.encoded) w.results }

/-- What is left of a broker where an entry was got rid of: whoever the refusal names has an answer,
and what names nobody is kept aside. -/
def Server.disposed (e : Nat × Option (List UInt8)) (fault : WireError) (w : Server) : Server :=
  match fault.taskId? with
  | some id => (w.answered (.refused id fault.message w.clock)).without (entryId e.1)
  | none => { w with
      parked := e.2.getD [] :: w.parked }.without (entryId e.1)

theorem gives_publish (r : TaskResult) : Gives s w (Calls.publish r) ()
    { w with results := Index.put r.taskId (Text.Utf8.bytes r.encoded) w.results } := rfl

theorem gives_dispose (e : Nat × Option (List UInt8)) (fault : WireError) :
    Gives s w (Calls.dispose (seen e) fault) () (w.disposed e fault) := by
  unfold Calls.dispose disposed
  cases fault.taskId? with
  | some id =>
    have gone : Gives s (w.answered (.refused id fault.message w.clock))
        (transact (handling [] (entryId e.1) none)) () _ :=
      gives_handling (entryId e.1) none fun _ none => (List.not_mem_nil none).elim
    exact (gives_lift .clock).bind ((gives_publish _).bind gone)
  | none =>
    have parks : ∀ c ∈ [Command.park (e.2.getD [])], ∀ w : Server,
        ∃ r, (w.perform s c).1 = .ok r := by
      intro c mem w
      rw [List.mem_singleton.mp mem]
      exact ⟨_, rfl⟩
    exact gives_handling (entryId e.1) none parks

/-- A refused entry was delivered, and is gone again. -/
def Server.refused (s : Settings) (e : Nat × Option (List UInt8)) (fault : WireError) (w : Server) :
    Server :=
  (w.deliver s).2.disposed e fault

theorem gives_popRound_refused {e : Nat × Option (List UInt8)} {fault : WireError}
    (waits : w.Waits deadline) (task : (seen e).task = .error fault)
    (first : w.waiting.head? = some e) :
    Gives s w (Calls.popRound s deadline) (.inl ()) (w.refused s e fault) := by
  obtain ⟨wait, patience⟩ := gives_patience (s := s) waits
  refine patience.bind ((gives_readOne_first wait first).bind ?_)
  simp only [task]
  exact (gives_dispose e fault).bind (gives_pure _)

/-- A call to pop that waits for a while at least, or does not wait. -/
theorem waits_of_pop {block : Bool} {timeout : Span}
    (patient : block = true → timeout.nanos ≠ 0) :
    w.Waits (if block then some ⟨w.time.nanos + timeout.nanos⟩ else none) := by
  intro d same
  split at same
  · rename_i blocks
    cases same
    have := patient blocks
    show _ < w.time.nanos + timeout.nanos
    omega
  · cases same

variable {block : Bool} {timeout : Span}

theorem run_pop (rounds : Nat) : (Calls.pop rounds s block timeout).run.run (Server.answer s) w =
    (Program.tryLoop
      (fun _ => Calls.popRound s (if block then some ⟨w.time.nanos + timeout.nanos⟩ else none))
      rounds ()).run.run (Server.answer s) w := rfl

theorem gives_pop (patient : block = true → timeout.nanos ≠ 0) (task : Task.ofBytes body = .ok t)
    (first : w.waiting.head? = some (n, some body)) (rounds : Nat) :
    Gives s w (Calls.pop (rounds + 1) s block timeout) (some t) (w.claimed s n t) :=
  (run_pop _).trans (gives_tryLoop (gives_popRound (waits_of_pop patient) task first) rounds)

/-- A call to pop goes on as if a refused entry had never been there. -/
theorem run_pop_refused (patient : block = true → timeout.nanos ≠ 0)
    {e : Nat × Option (List UInt8)} {fault : WireError} (task : (seen e).task = .error fault)
    (first : w.waiting.head? = some e) (rounds : Nat) :
    (Calls.pop (rounds + 1) s block timeout).run.run (Server.answer s) w =
      (Calls.pop rounds s block timeout).run.run (Server.answer s) (w.refused s e fault) := by
  have time : (w.refused s e fault).time = w.time := by
    simp only [refused, disposed, deliver_eq, first]
    cases fault.taskId? <;> rfl
  rw [run_pop, run_pop, time]
  exact run_tryLoop_of_next (gives_popRound_refused (waits_of_pop patient) task first) rounds

/-- An entry that nobody can read is kept aside, and is gone from the stream. -/
def Server.aside (s : Settings) (n : Nat) (body : List UInt8) (w : Server) : Server :=
  { w.deliver s |>.2.without (entryId n) with parked := body :: w.parked }

theorem run_pop_aside (patient : block = true → timeout.nanos ≠ 0)
    (task : Task.ofBytes body = .error (.malformed fault))
    (first : w.waiting.head? = some (n, some body)) (rounds : Nat) :
    (Calls.pop (rounds + 1) s block timeout).run.run (Server.answer s) w =
      (Calls.pop rounds s block timeout).run.run (Server.answer s) (w.aside s n body) := by
  have entry : (seen (n, some body)).task = .error (.malformed fault) := task
  have same : w.refused s (n, some body) (.malformed fault) = w.aside s n body := by
    simp only [refused, disposed, aside, WireError.taskId?, deliver_eq, first]
    rfl
  rw [← same]
  exact run_pop_refused patient entry first rounds

end Rounds

/-! Claims. -/

theorem gives_ownClaim_none {id : String} (absent : Index.find? id w.claims = none) :
    Gives s w (Calls.ownClaim s id) none w := by
  have reply : (w.perform s (.claimOf id)).1 = .ok .nil := by simp [perform, absent]
  have parsed : Reply.optional? Reply.text? .nil = some none := rfl
  exact (gives_read reply parsed).bind (gives_pure none)

theorem gives_ownClaim {id : String} {n : Nat} (named : s.consumer ≠ "")
    (found : Index.find? id w.claims = some (claimValue (entryId n) s.consumer)) :
    Gives s w (Calls.ownClaim s id) (some (entryId n)) w := by
  have reply : (w.perform s (.claimOf id)).1 =
      .ok (bulk (claimValue (entryId n) s.consumer)) := by simp [perform, found]
  refine (gives_read reply (optional?_bulk _)).bind ?_
  simp only [claimParts?_of_named named, if_true]
  exact gives_pure _

theorem gives_ack_none {id : String} (absent : Index.find? id w.claims = none) :
    Gives s w (Calls.ack s id) () w := (gives_ownClaim_none absent).bind (gives_pure ())

theorem gives_ack {id : String} {n : Nat} (named : s.consumer ≠ "")
    (found : Index.find? id w.claims = some (claimValue (entryId n) s.consumer)) :
    Gives s w (Calls.ack s id) () ((w.without (entryId n)).unclaimed (some id)) := by
  have retire : Gives s w (transact (handling [] (entryId n) (some id))) () _ :=
    gives_handling (entryId n) (some id) fun _ none => (List.not_mem_nil none).elim
  exact (gives_ownClaim named found).bind retire

theorem gives_entryBody {n : Nat} {body : List UInt8}
    (there : (w.entries.filter fun e => entryId e.1 == entryId n).head? = some (n, some body)) :
    Gives s w (Calls.entryBody (entryId n)) (some body) w := by
  have entries := gives_ofExcept (s := s) (w := w)
    (entriesOf_entryReply (w.entries.filter fun e => entryId e.1 == entryId n))
  have head : ((w.entries.filter fun e => entryId e.1 == entryId n).map seen).head?.bind
      (·.body) = some body := by
    rw [List.head?_map, there]
    rfl
  rw [← head]
  exact (gives_send rfl).bind (entries.bind (gives_pure _))

theorem gives_release_none {id : String} (absent : Index.find? id w.claims = none) :
    Gives s w (Calls.release s id) () w := (gives_ownClaim_none absent).bind (gives_pure ())

theorem gives_release {id : String} {n : Nat} {body : List UInt8} (named : s.consumer ≠ "")
    (found : Index.find? id w.claims = some (claimValue (entryId n) s.consumer))
    (there : (w.entries.filter fun e => entryId e.1 == entryId n).head? = some (n, some body)) :
    Gives s w (Calls.release s id) ()
      (((w.append (some body)).without (entryId n)).unclaimed (some id)) := by
  have appends : ∀ c ∈ [Command.append body], ∀ w : Server, ∃ r, (w.perform s c).1 = .ok r := by
    rintro c mem w
    rw [List.mem_singleton.mp mem]
    exact ⟨_, rfl⟩
  refine (gives_ownClaim named found).bind ((gives_entryBody there).bind ?_)
  exact gives_handling (entryId n) (some id) appends

/-! Results. -/

theorem gives_get_none {id : String} (absent : Index.find? id w.results = none) :
    Gives s w (Results.get id) none w := by
  have reply : Gives s w (Results.send (.resultOf id)) .nil w :=
    gives_of (by
      show (some (w.perform s (.resultOf id)).1, _) = _
      simp [perform, absent]
      rfl)
  exact reply.bind (gives_pure none)

section Stored

variable {id : String} {body : List UInt8} {r : TaskResult} {fault : Json.Fault}

theorem gives_stored (found : Index.find? id w.results = some body) :
    Gives s w (Results.send (.resultOf id)) (.bulk body) w :=
  gives_of (by
    show (some (w.perform s (.resultOf id)).1, _) = _
    simp [perform, found]
    rfl)

theorem gives_get_of_read (read : TaskResult.ofBytes body = .ok r)
    (found : Index.find? id w.results = some body) : Gives s w (Results.get id) (some r) w := by
  have stored : storedResult body = .ok r := by rw [storedResult, read]
  exact (gives_stored found).bind ((gives_ofExcept stored).bind (gives_pure _))

theorem gives_get (fine : r.Plain Json.maxNesting)
    (found : Index.find? id w.results = some (Text.Utf8.bytes r.encoded)) :
    Gives s w (Results.get id) (some r) w :=
  gives_get_of_read (TaskResult.ofBytes_encoded fine) found

theorem fails_get (read : TaskResult.ofBytes body = .error (.malformed fault))
    (found : Index.find? id w.results = some body) :
    Fails s w (Results.get id) (.corrupt fault) w := by
  have corrupt : storedResult body = .error (.corrupt fault) := by
    rw [storedResult, read]
    rfl
  exact (gives_stored found).fails ((fails_ofExcept corrupt).bind _)

/-- A result that is there already ends the wait at once. -/
theorem gives_awaitResult (read : TaskResult.ofBytes body = .ok r)
    (found : Index.find? id w.results = some body) (rounds : Nat) (timeout : Span) :
    Gives s w (Calls.awaitResult (rounds + 1) s id timeout) (some r) w := by
  have got : Gives s w (Calls.getResult id) (some r) w :=
    Program.run_bind_of_some (gives_get_of_read read found)
  have round : Gives s w (Calls.awaitRound s id ⟨w.time.nanos + timeout.nanos⟩) (.inr (some r)) w :=
    got.bind (gives_pure _)
  exact (gives_lift .elapsed).bind (gives_tryLoop round rounds)

theorem fails_awaitResult (read : TaskResult.ofBytes body = .error (.malformed fault))
    (found : Index.find? id w.results = some body) (rounds : Nat) (timeout : Span) :
    Fails s w (Calls.awaitResult (rounds + 1) s id timeout) (.resultPersist (.corrupt fault)) w := by
  have got : Fails s w (Calls.getResult id) (.resultPersist (.corrupt fault)) w :=
    Program.run_bind_of_some (fails_get read found)
  exact (gives_lift .elapsed).fails (fails_tryLoop (got.bind _) rounds)

end Stored

/-! Counts. -/

theorem size?_int {n : Nat} (small : n < 2 ^ 64) : (Reply.int n).size? = some n := by
  have same : ((n : Int) % (2 ^ 64 : Nat)).toNat = n := by omega
  simp only [Reply.size?, Reply.natural?, same]

theorem claimCount_summary (w : Server) : claimCount w.summary = .ok w.held.length := by
  unfold summary
  cases first : w.held with
  | nil => rfl
  | cons h rest =>
    obtain ⟨last, same⟩ : ∃ last, (h :: rest).getLast? = some last :=
      ⟨_, List.getLast?_eq_some_getLast (List.cons_ne_nil h rest)⟩
    simp only [List.head?_cons, same]
    rfl

theorem gives_counts (entries : w.entries.length < 2 ^ 64) (dead : w.dead.length < 2 ^ 64) :
    Gives s w Calls.counts
      ⟨w.entries.length - w.held.length, w.held.length, w.dead.length, none⟩ w := by
  have asked : Gives s w (Job.of LinkFault.toQueueError
      (ask (.together [.length, .claimSummary, .letterCount])))
      [.int w.entries.length, w.summary, .int w.dead.length] w := gives_of rfl
  refine asked.bind ?_
  simp only [size?_int entries, size?_int dead]
  exact (gives_ofExcept (claimCount_summary w)).bind (gives_pure _)

/-! Dead letters. The list may hold any texts; those that are no letters are passed over. -/

variable {texts : List String}

theorem texts?_bytes (texts : List String) :
    Reply.texts? (.list ((texts.map Text.Utf8.bytes).map .bulk)) = some texts := by
  show ((texts.map Text.Utf8.bytes).map Reply.bulk).mapM Reply.text? = _
  induction texts with
  | nil => rfl
  | cons s texts ih =>
    rw [List.map_cons, List.map_cons, List.mapM_cons, text?_bytes, ih]
    simp

theorem upTo_all {α : Type} (items : List α) : upTo (-1) items = items := by
  have all : (if (-1 : Int) < 0 then (-1 : Int) + items.length else -1) + 1 = items.length := by
    rw [if_pos (by decide)]
    omega
  rw [upTo, all, Int.toNat_natCast, List.take_length]

theorem upTo_first {α : Type} (n : Nat) (items : List α) :
    upTo (((n + 1 : Nat) : Int) - 1) items = items.take (n + 1) := by
  have all : (if (((n + 1 : Nat) : Int) - 1) < 0 then (((n + 1 : Nat) : Int) - 1) + items.length
      else (((n + 1 : Nat) : Int) - 1)) + 1 = ((n + 1 : Nat) : Int) := by
    rw [if_neg (by omega)]
    omega
  rw [upTo, all, Int.toNat_natCast]

/-- How many items of the list are asked for. -/
def pageLength (limit : Nat) : Nat := min limit (2 ^ 63 - 1)

/-- What the broker is asked for, and what it answers. -/
theorem perform_page (s : Settings) (w : Server) (limit : Nat) :
    (w.perform s (.letters ((pageLength (limit + 1) : Nat) - 1))).1 =
      .ok (.list ((w.dead.take (pageLength (limit + 1))).map .bulk)) := by
  obtain ⟨n, bound⟩ : ∃ n, pageLength (limit + 1) = n + 1 := by
    unfold pageLength
    exact ⟨min (limit + 1) (2 ^ 63 - 1) - 1, by omega⟩
  simp only [bound, perform, upTo_first]

theorem gives_page {limit : Nat} (page : w.dead.take (pageLength limit) = texts.map Text.Utf8.bytes) :
    Gives s w (Calls.deadLetters limit) ((Calls.readable texts).map Prod.snd) w := by
  cases limit with
  | zero =>
    have none : texts = [] := List.map_eq_nil_iff.mp page.symm
    rw [none]
    exact gives_pure []
  | succ limit =>
    have reply := perform_page s w limit
    rw [page] at reply
    rw [Calls.deadLetters, if_neg (Nat.succ_ne_zero limit), ← pageLength]
    exact (gives_read reply (texts?_bytes _)).bind (gives_pure _)

theorem gives_listing (dead : w.dead = texts.map Text.Utf8.bytes) (limit : Nat) :
    Gives s w (Calls.deadLetters limit)
      ((Calls.readable (texts.take (pageLength limit))).map Prod.snd) w :=
  gives_page (by rw [dead, List.map_take])

/-- The list read in full. -/
theorem gives_letters (dead : w.dead = texts.map Text.Utf8.bytes) :
    Gives s w (Broker.read Reply.texts? (.letters (-1))) texts w := by
  have reply : (w.perform s (.letters (-1))).1 =
      .ok (.list ((texts.map Text.Utf8.bytes).map .bulk)) := by
    simp only [perform, upTo_all, dead]
  exact gives_read reply (texts?_bytes texts)

/-- The first letter for a task, with its text. -/
def letterFor? (id : String) (texts : List String) : Option (String × DeadLetter) :=
  (Calls.readable texts).find? fun e => e.2.task.id == id

theorem gives_taking_none (dead : w.dead = texts.map Text.Utf8.bytes) {id : String}
    (absent : letterFor? id texts = none) : Gives s w (Calls.takeLetter id) none w := by
  refine (gives_letters dead).bind ?_
  rw [letterFor?] at absent
  rw [absent]
  exact gives_pure none

theorem mem_readable {raw : String} {l : DeadLetter} :
    (raw, l) ∈ Calls.readable texts ↔ raw ∈ texts ∧ DeadLetter.decoder.ofText raw = .ok l := by
  rw [Calls.readable, List.mem_filterMap]
  constructor
  · rintro ⟨text, among, read⟩
    split at read
    · rename_i d letter
      cases read
      exact ⟨among, letter⟩
    · cases read
  · rintro ⟨among, letter⟩
    exact ⟨raw, among, by rw [letter]⟩

theorem gives_taking (dead : w.dead = texts.map Text.Utf8.bytes) {id raw : String} {l : DeadLetter}
    (found : letterFor? id texts = some (raw, l)) :
    Gives s w (Calls.takeLetter id) (some l)
      { w with dead := w.dead.erase (Text.Utf8.bytes raw) } := by
  have among : w.dead.contains (Text.Utf8.bytes raw) = true := by
    rw [List.contains_iff_mem, dead]
    exact List.mem_map_of_mem (mem_readable.mp (List.mem_of_find?_eq_some found)).1
  have removed : (w.perform s (.unbury raw)).1 = .ok (.int 1) := by
    simp only [perform, among]
    rfl
  refine (gives_letters dead).bind ?_
  rw [letterFor?] at found
  rw [found]
  exact (gives_read removed (size?_int (by decide : 1 < 2 ^ 64))).bind (gives_pure _)

/-! Letters that can all be read. -/

variable {letters : List DeadLetter}

theorem readable_letters (fine : ∀ l ∈ letters, l.task.Plain (Json.maxNesting - 1)) :
    Calls.readable (letters.map DeadLetter.encoded) = letters.map fun l => (l.encoded, l) := by
  induction letters with
  | nil => rfl
  | cons l letters ih =>
    rw [List.forall_mem_cons] at fine
    rw [List.map_cons, Calls.readable, List.filterMap_cons_some (b := (l.encoded, l))]
    · exact congrArg _ (ih fine.2)
    · rw [DeadLetter.ofText_encoded fine.1]

theorem letterFor?_letters (fine : ∀ l ∈ letters, l.task.Plain (Json.maxNesting - 1)) (id : String) :
    letterFor? id (letters.map DeadLetter.encoded) =
      (letters.find? fun l => l.task.id == id).map fun l => (l.encoded, l) := by
  rw [letterFor?, readable_letters fine, List.find?_map]
  rfl

/-- All dead letters as they lie on the broker. -/
def bodies (letters : List DeadLetter) : List (List UInt8) :=
  letters.map fun l => Text.Utf8.bytes l.encoded

theorem bodies_eq (letters : List DeadLetter) :
    bodies letters = (letters.map DeadLetter.encoded).map Text.Utf8.bytes := by
  rw [bodies, List.map_map, Function.comp_def]

theorem gives_deadLetters (fine : ∀ l ∈ letters, l.task.Plain (Json.maxNesting - 1))
    (dead : w.dead = bodies letters) (few : letters.length < 2 ^ 63) (limit : Nat) :
    Gives s w (Calls.deadLetters limit) (letters.take limit) w := by
  have taken : letters.take (pageLength limit) = letters.take limit := by
    unfold pageLength
    by_cases within : limit ≤ 2 ^ 63 - 1
    · rw [Nat.min_eq_left within]
    · rw [List.take_of_length_le (by omega), List.take_of_length_le (by omega)]
  have listed := gives_listing (s := s) (dead.trans (bodies_eq letters)) limit
  rw [← List.map_take, taken, readable_letters fun l mem => fine l (List.mem_of_mem_take mem),
    List.map_map] at listed
  simpa only [Function.comp_def, List.map_id'] using listed

theorem gives_takeLetter_none (fine : ∀ l ∈ letters, l.task.Plain (Json.maxNesting - 1))
    (dead : w.dead = bodies letters) {id : String}
    (absent : letters.find? (fun l => l.task.id == id) = none) :
    Gives s w (Calls.takeLetter id) none w :=
  gives_taking_none (dead.trans (bodies_eq letters)) (by
    rw [letterFor?_letters fine, absent]
    rfl)

theorem gives_takeLetter (fine : ∀ l ∈ letters, l.task.Plain (Json.maxNesting - 1))
    (dead : w.dead = bodies letters) {id : String} {l : DeadLetter}
    (found : letters.find? (fun l => l.task.id == id) = some l) :
    Gives s w (Calls.takeLetter id) (some l)
      { w with dead := w.dead.erase (Text.Utf8.bytes l.encoded) } :=
  gives_taking (dead.trans (bodies_eq letters)) (by
    rw [letterFor?_letters fine, found]
    rfl)

end Broker

end ClaimQueue
