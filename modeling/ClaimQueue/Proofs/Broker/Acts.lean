import ClaimQueue.Proofs.Broker.Course
import ClaimQueue.Proofs.Broker.Questions
import ClaimQueue.Proofs.Broker.Replies

/-! What a deed of a call that handles tasks is, in terms of what the broker held when the earlier
deeds of the same call were done. -/

namespace ClaimQueue

namespace Broker

open Server

/-! Effects of transactions. -/

theorem performAll_append (s : Settings) (cs ds : List Command) (w : Server) :
    (w.performAll s (cs ++ ds)).2 = ((w.performAll s cs).2.performAll s ds).2 := by
  induction cs generalizing w with
  | nil => rfl
  | cons c cs ih => exact ih _

namespace Server

/-- Without an entry, and without its claim by a consumer. -/
def without (entry : String) (w : Server) : Server :=
  { w with
    held := w.held.filter fun h => entryId h.entry != entry
    entries := w.entries.filter fun e => entryId e.1 != entry }

def unclaimed (id : Option String) (w : Server) : Server :=
  match id with
  | none => w
  | some id => { w with claims := Index.erase id w.claims }

end Server

theorem performAll_handling (s : Settings) (front : List Command) (entry : String)
    (id : Option String) (w : Server) :
    (w.performAll s (handling front entry id)).2 =
      (((w.performAll s front).2.without entry).unclaimed id) := by
  rw [handling, List.append_assoc, performAll_append]
  cases id <;> rfl

/-! What the earlier deeds of a call have found. -/

namespace Deed

/-- The claim of a task was looked up, and is the client's own, on this entry. -/
def Finds (id entry : String) (l : Deed) : Prop :=
  l.ask = .send (.claimOf id) ∧ ∃ claim, Index.find? id l.before.claims = some claim ∧
    claimParts? claim = some (entry, l.settings.consumer)

def LooksUp (entry : String) (body : Option (List UInt8)) (l : Deed) : Prop :=
  l.ask = .send (.readEntry entry) ∧
    (l.before.entries.filter fun e => entryId e.1 == entry).head?.bind (·.2) = body

/-- An entry that was delivered to nobody before. -/
def Delivers (e : Nat × Option (List UInt8)) (l : Deed) : Prop :=
  (∃ wait, l.ask = .send (.readNew wait) ∨ l.ask = .sendWaiting (.readNew wait)) ∧
    l.before.waiting.head? = some e

/-- An entry that lay idle in somebody's hands. -/
def TakesOver (e : Nat × Option (List UInt8)) (l : Deed) : Prop :=
  ∃ millis batch, l.ask = .send (.takeIdle millis batch) ∧
    ∃ h ∈ (l.before.heard l.settings.consumer).taken millis batch, l.before.find? h.entry = some e

end Deed

/-- What leaves the broker as it is. -/
inductive Ask.Looks : Ask → Prop
  | clock : Looks .clock
  | elapsed : Looks .elapsed
  | claimOf (id : String) : Looks (.send (.claimOf id))
  | readEntry (entry : String) : Looks (.send (.readEntry entry))

theorem Deed.after_of_looks {d : Deed} (looks : d.ask.Looks) : d.after = d.before := by
  obtain ⟨client, turn, u, s, q, before⟩ := d
  cases looks <;> rfl

/-- `own` are the earlier deeds of the same call. -/
inductive Act (own : List Deed) (d : Deed) : Prop
  | look (ask : d.ask.Looks)
  | save {id body : String} (ask : d.ask = .send (.saveResult id body))
  | read (wait : Option Nat) (ask : d.ask = .send (.readNew wait) ∨ d.ask = .sendWaiting (.readNew wait))
  | takeOver (millis batch : Nat) (ask : d.ask = .send (.takeIdle millis batch))
  | enqueue {t : Task} (call : d.undertaking = .call (.enqueue t)) (first : own = [])
      (ask : d.ask = .send (.append (Text.Utf8.bytes t.encoded)))
  | claim {l : Deed} {e : Nat × Option (List UInt8)} {t : Task} (mem : l ∈ own) (found : l.Delivers e)
      (task : (seen e).task = .ok t)
      (ask : d.ask = .send (.setClaim t.id (claimValue (entryId e.1) d.settings.consumer)))
  | drop {l : Deed} {e : Nat × Option (List UInt8)} {fault : WireError} (mem : l ∈ own)
      (found : l.Delivers e ∨ l.TakesOver e) (task : (seen e).task = .error fault)
      {front : List Command} (aside : front = [] ∨ ∃ body, front = [.park body])
      (ask : d.ask = .transaction (handling front (entryId e.1) none))
  | ack {id entry : String} (call : d.undertaking = .call (.ack id)) {l : Deed} (mem : l ∈ own)
      (found : l.Finds id entry) (ask : d.ask = .transaction (handling [] entry (some id)))
  | forget {id entry : String} {l m : Deed} (mem : l ∈ own) (found : l.Finds id entry)
      (mem' : m ∈ own) (gone : m.LooksUp entry none) (ask : d.ask = .send (.dropClaim id))
  | putBack {id entry : String} {body : List UInt8} {l m : Deed} (mem : l ∈ own)
      (found : l.Finds id entry) (mem' : m ∈ own) (body' : m.LooksUp entry (some body))
      (ask : d.ask = .transaction (handling [.append body] entry (some id)))
  | move {l : Deed} {e : Nat × Option (List UInt8)} {t : Task} (mem : l ∈ own)
      (found : l.TakesOver e) (task : (seen e).task = .ok t) (now : Instant)
      (ask : d.ask = .transaction
        (handling [Calls.moved d.settings now t.bumped] (entryId e.1) (some t.id)))

/-! From what was told to what was found. -/

theorem Heard.asked {own : List Deed} {past : Told} (h : Heard own past) {q : Ask} {r : q.Answer}
    (mem : ⟨q, r⟩ ∈ past) (arrived : ∀ fault, lostAnswer? fault q ≠ some r) :
    ∃ l ∈ own, l.ask = q ∧ (l.before.answer l.settings q).1 = r := by
  rcases h.of_mem mem with ⟨l, inOwn, same⟩ | ⟨fault, lost⟩
  · obtain ⟨client, turn, u, s, q, before⟩ := l
    obtain ⟨rfl, heard⟩ := Sigma.mk.inj same
    exact ⟨_, inOwn, rfl, eq_of_heq heard⟩
  · exact absurd lost (arrived fault)

theorem Heard.sent {own : List Deed} {past : Told} (h : Heard own past) {c : Command} {r : Reply}
    (mem : ⟨.send c, .ok r⟩ ∈ past) :
    ∃ l ∈ own, l.ask = .send c ∧ (l.before.perform l.settings c).1 = .ok r :=
  h.asked mem fun _ same => nomatch same

theorem Heard.sentWaiting {own : List Deed} {past : Told} (h : Heard own past) {c : Command}
    {r : Reply} (mem : ⟨.sendWaiting c, .ok r⟩ ∈ past) :
    ∃ l ∈ own, l.ask = .sendWaiting c ∧ (l.before.perform l.settings c).1 = .ok r :=
  h.asked mem fun _ same => nomatch same

theorem Owned.finds {s : Settings} {id entry : String} {past : Told} (h : Owned s id entry past)
    {own : List Deed} (heard : Heard own past) (mine : ∀ d ∈ own, d.settings = s) :
    ∃ l ∈ own, l.Finds id entry := by
  obtain ⟨r, claim, mem, read, parts⟩ := h
  obtain ⟨l, mem, ask, reply⟩ := heard.sent mem
  refine ⟨l, mem, ask, claim, ?_, mine l mem ▸ parts⟩
  have same : ((Index.find? id l.before.claims).map bulk).getD .nil = r := Except.ok.inj reply
  cases found : Index.find? id l.before.claims with
  | none =>
    rw [found] at same
    subst same
    cases read
  | some value =>
    rw [found] at same
    subst same
    have text : some (some value) = some (some claim) := (optional?_bulk value).symm.trans read
    exact Option.some.inj text

theorem LookedUp.looksUp {entry : String} {body : Option (List UInt8)} {past : Told}
    (h : LookedUp entry body past) {own : List Deed} (heard : Heard own past) :
    ∃ l ∈ own, l.LooksUp entry body := by
  obtain ⟨r, es, mem, read, head⟩ := h
  obtain ⟨l, mem, ask, reply⟩ := heard.sent mem
  refine ⟨l, mem, ask, ?_⟩
  have same : .list ((l.before.entries.filter fun e => entryId e.1 == entry).map entryReply) = r :=
    Except.ok.inj reply
  rw [← same, entriesOf_entryReply] at read
  cases read
  rw [← head, List.head?_map]
  cases (l.before.entries.filter fun e => entryId e.1 == entry).head? <;> rfl

theorem readEntries_deliver (s : Settings) (w : Server) :
    readEntries (w.deliver s).1 = .ok (w.waiting.head?.toList.map seen) := by
  have same : (w.heard s.consumer).waiting = w.waiting := rfl
  unfold Server.deliver
  simp only [same]
  cases w.waiting with
  | nil => rfl
  | cons e rest =>
    have one : entriesOf (.list [entryReply e]) = .ok [seen e] := entriesOf_entryReply [e]
    simp only [readEntries, List.mapM_cons, List.mapM_nil, streamEntries, one]
    rfl

theorem Read.delivers {e : Entry} {past : Told} (h : Read e past) {own : List Deed}
    (heard : Heard own past) : ∃ l ∈ own, ∃ e', e = seen e' ∧ l.Delivers e' := by
  obtain ⟨wait, r, es, mem, read, head⟩ := h
  obtain ⟨l, mem, ask, reply⟩ : ∃ l ∈ own,
      (l.ask = .send (.readNew wait) ∨ l.ask = .sendWaiting (.readNew wait)) ∧
        (l.before.deliver l.settings).1 = r := by
    rcases mem with mem | mem
    · obtain ⟨l, mem, ask, reply⟩ := heard.sent mem
      exact ⟨l, mem, .inl ask, Except.ok.inj reply⟩
    · obtain ⟨l, mem, ask, reply⟩ := heard.sentWaiting mem
      exact ⟨l, mem, .inr ask, Except.ok.inj reply⟩
  rw [← reply, readEntries_deliver] at read
  cases read
  cases first : l.before.waiting.head? with
  | none =>
    rw [first] at head
    cases head
  | some e' =>
    rw [first] at head
    cases head
    exact ⟨l, mem, e', rfl, ⟨wait, ask⟩, first⟩

theorem TakenOver.takesOver {e : Entry} {past : Told} (h : TakenOver e past) {own : List Deed}
    (heard : Heard own past) : ∃ l ∈ own, ∃ e', e = seen e' ∧ l.TakesOver e' := by
  obtain ⟨millis, batch, r, es, mem, read, among⟩ := h
  obtain ⟨l, mem, ask, reply⟩ := heard.sent mem
  let w := l.before.heard l.settings.consumer
  have found : takenEntries (l.before.takeOver l.settings millis batch).1 =
      .ok (((w.taken millis batch).filterMap fun h => w.find? h.entry).map seen) :=
    entriesOf_entryReply _
  have same : (l.before.takeOver l.settings millis batch).1 = r := Except.ok.inj reply
  rw [← same, found] at read
  cases read
  obtain ⟨e', mem', rfl⟩ := List.mem_map.mp among
  obtain ⟨h, taken, here⟩ := List.mem_filterMap.mp mem'
  exact ⟨l, mem, e', rfl, millis, batch, ask, h, taken, here⟩

/-- The undertakings that handle tasks. -/
inductive Undertaking.Handles : Undertaking → Prop
  | enqueue (t : Task) : Handles (.call (.enqueue t))
  | pop (block : Bool) (timeout : Span) : Handles (.call (.pop block timeout))
  | ack (id : String) : Handles (.call (.ack id))
  | release (id : String) : Handles (.call (.release id))
  | reclaim (idle : Span) (batch : Nat) : Handles (.call (.reclaim idle batch))

theorem Deed.Follows.act {rounds : Nat} {earlier : List Deed} {d : Deed}
    (h : d.Follows rounds earlier) (handles : d.undertaking.Handles) :
    Act (earlier.filter (Deed.isOf d.client d.turn)) d := by
  obtain ⟨next, past, reaches, heard, own⟩ := h
  obtain ⟨client, turn, u, s, q, before⟩ := d
  have mine : ∀ l ∈ earlier.filter (Deed.isOf client turn), l.settings = s :=
    fun l mem => (own l mem).2
  cases handles with
  | enqueue t =>
    cases (enqueue_along t).question reaches with
    | append => exact .enqueue rfl heard.eq_nil rfl
  | pop block timeout =>
    cases (pop_along rounds s block timeout).question reaches with
    | clock => exact .look .clock
    | elapsed => exact .look .elapsed
    | read => exact .read _ (.inl rfl)
    | readWaiting => exact .read _ (.inr rfl)
    | refuse => exact .save rfl
    | claim read task =>
      obtain ⟨l, mem, e, rfl, delivers⟩ := read.delivers heard
      exact .claim mem delivers task rfl
    | drop read task front aside =>
      obtain ⟨l, mem, e, rfl, delivers⟩ := read.delivers heard
      exact .drop mem (.inl delivers) task aside rfl
  | ack id =>
    cases (ack_along s id).question reaches with
    | look => exact .look (.claimOf id)
    | retire owned =>
      obtain ⟨l, mem, finds⟩ := owned.finds heard mine
      exact .ack rfl mem finds rfl
  | release id =>
    cases (release_along s id).question reaches with
    | look => exact .look (.claimOf id)
    | lookUp => exact .look (.readEntry _)
    | forget owned gone =>
      obtain ⟨l, mem, finds⟩ := owned.finds heard mine
      obtain ⟨m, mem', looksUp⟩ := gone.looksUp heard
      exact .forget mem finds mem' looksUp rfl
    | putBack owned body =>
      obtain ⟨l, mem, finds⟩ := owned.finds heard mine
      obtain ⟨m, mem', looksUp⟩ := body.looksUp heard
      exact .putBack mem finds mem' looksUp rfl
  | reclaim idle batch =>
    cases (reclaim_along s idle batch).question reaches with
    | take => exact .takeOver _ _ rfl
    | clock => exact .look .clock
    | move taken task now =>
      obtain ⟨l, mem, e, rfl, takesOver⟩ := taken.takesOver heard
      exact .move mem takesOver task now rfl
    | drop taken task body =>
      obtain ⟨l, mem, e, rfl, takesOver⟩ := taken.takesOver heard
      exact .drop mem (.inr takesOver) task (.inr ⟨body, rfl⟩) rfl

/-- Only a claim that is the client's own leads to a look at its entry. -/
theorem Deed.Follows.finds {rounds : Nat} {earlier : List Deed} {d : Deed}
    (h : d.Follows rounds earlier) (handles : d.undertaking.Handles) {entry : String}
    (ask : d.ask = .send (.readEntry entry)) :
    ∃ l ∈ earlier.filter (Deed.isOf d.client d.turn), ∃ id, l.Finds id entry := by
  obtain ⟨next, past, reaches, heard, own⟩ := h
  obtain ⟨client, turn, u, s, q, before⟩ := d
  obtain rfl : q = _ := ask
  cases handles with
  | enqueue t => nomatch (enqueue_along t).question reaches
  | pop block timeout => nomatch (pop_along rounds s block timeout).question reaches
  | ack id => nomatch (ack_along s id).question reaches
  | reclaim idle batch => nomatch (reclaim_along s idle batch).question reaches
  | release id =>
    cases (release_along s id).question reaches with
    | lookUp owned =>
      obtain ⟨l, mem, finds⟩ := owned.finds heard fun l mem => (own l mem).2
      exact ⟨l, mem, id, finds⟩

/-- An acknowledgement looks the claim up first of all. -/
theorem Deed.Follows.first {rounds : Nat} {earlier : List Deed} {d : Deed}
    (h : d.Follows rounds earlier) {id id' : String} (call : d.undertaking = .call (.ack id))
    (ask : d.ask = .send (.claimOf id')) : earlier.filter (Deed.isOf d.client d.turn) = [] := by
  obtain ⟨next, past, reaches, heard, own⟩ := h
  obtain ⟨client, turn, u, s, q, before⟩ := d
  obtain rfl : u = _ := call
  obtain rfl : q = _ := ask
  cases (ack_along s id).question reaches with
  | look => exact heard.eq_nil

end Broker

end ClaimQueue
