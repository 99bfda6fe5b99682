import ClaimQueue.Broker.Calls
import ClaimQueue.Broker.Server
import ClaimQueue.Proofs.Broker.Jobs
import Mathlib.Data.List.Induction

/-! Whom a client has the broker forget, whatever the broker tells of its consumers: fields in any
order, missing, repeated or of another type. A count that is not stated is taken for zero, so a
consumer can be forgotten of which nobody said that it holds nothing. -/

namespace ClaimQueue

namespace Broker

open Job Server

namespace Reply

/-- What stands under a name, in order. -/
def values (name : String) (fields : List (Reply × Reply)) : List Reply :=
  (fields.filter fun e => e.1.plainText? == some name).map (·.2)

/-- A number given as one. A text of digits is none. -/
def number? : Reply → Option Int
  | .int n => some n
  | _ => none

/-- The last number under a name. -/
def stated? (name : String) (entry : List Reply) : Option Int :=
  ((values name (pairs entry)).filterMap number?).getLast?

/-- What a number is taken for: zero if it is not stated, or below zero. -/
def counted (name : String) (entry : List Reply) : Nat := ((stated? name entry).getD 0).toNat

def named? (entry : List Reply) : Option String :=
  (values "name" (pairs entry)).getLast?.bind plainText?

theorem values_concat (name : String) (fields : List (Reply × Reply)) (e : Reply × Reply) :
    values name (fields ++ [e]) =
      values name fields ++ if e.1.plainText? = some name then [e.2] else [] := by
  by_cases same : e.1.plainText? = some name <;>
    simp [values, List.filter_append, same]

end Reply

/-- Each entry of the reply is a list that names its consumer. -/
structure Lists (r : Reply) (entries : List (String × List Reply)) : Prop where
  shape : r = .list (entries.map fun e => .list e.2)
  named : ∀ e ∈ entries, Reply.named? e.2 = some e.1

/-- The entry states that its consumer holds nothing and is idle for long enough, and the consumer
is another than the client. -/
def Proven (s : Settings) (idle : Span) (e : String × List Reply) : Prop :=
  Reply.stated? "pending" e.2 = some 0 ∧
    (∃ n, Reply.stated? "idle" e.2 = some n ∧ (idle.millis : Int) ≤ n) ∧ e.1 ≠ s.consumer

/-- How an entry is read. -/
def consumerOf (e : String × List Reply) : Consumer :=
  ⟨e.1, Reply.counted "pending" e.2, Reply.counted "idle" e.2⟩

/-- Whose entries pass for idle, in the order of the reply. -/
def due (s : Settings) (idle : Span) (entries : List (String × List Reply)) : List String :=
  (entries.filter fun e => Calls.isIdle s (Calls.wholeMillis idle) (consumerOf e)).map (·.1)

/-! Reading the reply. -/

theorem Reply.numbers_concat {name : String} {key value : Reply} {before : List Reply}
    (none : ∀ n, key.plainText? = some name → value = .int n → False) :
    (before ++ if key.plainText? = some name then [value] else []).filterMap number? =
      before.filterMap number? := by
  split
  · next same =>
    have unread : value.number? = .none := by
      cases value with
      | int n => exact (none n same rfl).elim
      | _ => rfl
    rw [List.filterMap_append, List.filterMap_cons_none unread, List.filterMap_nil, List.append_nil]
  · rw [List.append_nil]

theorem read_fields (fields : List (Reply × Reply)) :
    fields.foldl ConsumerDraft.read {} =
      { name := (Reply.values "name" fields).getLast?.bind Reply.plainText?
        holds := ((((Reply.values "pending" fields).filterMap Reply.number?).getLast?).getD 0).toNat
        idle := ((((Reply.values "idle" fields).filterMap Reply.number?).getLast?).getD 0).toNat } := by
  induction fields using List.reverseRecOn with
  | nil => rfl
  | append_singleton fields e ih =>
    obtain ⟨key, value⟩ := e
    rw [List.foldl_append, List.foldl_cons, List.foldl_nil, ih]
    simp only [Reply.values_concat, ConsumerDraft.read]
    split
    · next name => simp [name]
    · next pending => simp [pending, Reply.number?]
    · next idle => simp [idle, Reply.number?]
    · next other pending idle =>
      rw [Reply.numbers_concat pending, Reply.numbers_concat idle, if_neg other, List.append_nil]

theorem ofReply_of_named {e : String × List Reply} (named : Reply.named? e.2 = some e.1) :
    Consumer.ofReply (.list e.2) = .ok (consumerOf e) := by
  simp only [Consumer.ofReply, read_fields]
  rw [show (Reply.values "name" (Reply.pairs e.2)).getLast?.bind Reply.plainText? = some e.1
    from named]
  rfl

theorem ofReply_cases (r : Reply) :
    (∃ e : String × List Reply, r = .list e.2 ∧ Reply.named? e.2 = some e.1) ∨
      ∃ fault, Consumer.ofReply r = .error (.protocol fault) := by
  cases r with
  | list fields =>
    cases named : Reply.named? fields with
    | some name => exact .inl ⟨(name, fields), rfl, named⟩
    | none =>
      right
      simp only [Consumer.ofReply, read_fields]
      rw [show (Reply.values "name" (Reply.pairs fields)).getLast?.bind Reply.plainText? = none
        from named]
      exact ⟨_, rfl⟩
  | _ => exact .inr ⟨_, rfl⟩

theorem consumersOf_of_lists {r : Reply} {entries : List (String × List Reply)}
    (lists : Lists r entries) : consumersOf r = .ok (entries.map consumerOf) := by
  obtain ⟨rfl, named⟩ := lists
  rw [consumersOf]
  induction entries with
  | nil => rfl
  | cons e entries ih =>
    rw [List.map_cons, List.mapM_cons, ofReply_of_named (named e List.mem_cons_self),
      ih fun e mem => named e (List.mem_cons_of_mem _ mem)]
    rfl

theorem mapM_ofReply_cases (items : List Reply) :
    (∃ entries, Lists (.list items) entries) ∨
      ∃ fault, items.mapM Consumer.ofReply = .error (.protocol fault) := by
  induction items with
  | nil => exact .inl ⟨[], rfl, fun e mem => (List.not_mem_nil mem).elim⟩
  | cons item items ih =>
    rcases ofReply_cases item with ⟨e, rfl, named⟩ | ⟨fault, first⟩
    · rcases ih with ⟨entries, shape, all⟩ | ⟨fault, rest⟩
      · refine .inl ⟨e :: entries, ?_, List.forall_mem_cons.mpr ⟨named, all⟩⟩
        rw [Reply.list.inj shape, List.map_cons]
      · refine .inr ⟨fault, ?_⟩
        rw [List.mapM_cons, ofReply_of_named named, rest]
        rfl
    · refine .inr ⟨fault, ?_⟩
      rw [List.mapM_cons, first]
      rfl

/-- A reply of another shape is no answer. -/
theorem consumersOf_of_unlisted {r : Reply} (unlisted : ∀ entries, ¬ Lists r entries) :
    ∃ fault, consumersOf r = .error (.protocol fault) := by
  cases r with
  | list items =>
    exact (mapM_ofReply_cases items).resolve_left fun ⟨entries, lists⟩ => unlisted entries lists
  | _ => exact ⟨_, rfl⟩

/-! Asking to forget. -/

/-- What was asked, the earliest first. -/
def asked (past : Told) : List Ask := past.reverse.map (·.1)

theorem asked_cons (x : Exchange asks) (past : Told) : asked (x :: past) = asked past ++ [x.1] := by
  rw [asked, List.reverse_cons, List.map_append]
  rfl

def forgetting (name : String) : Ask := .send (.forget name)

theorem forget_next {fit : Told → Ask → Prop} {past : Told} {name : String}
    (h : fit past (forgetting name)) :
    Along fit (fun now _ => asked now = asked past ++ [forgetting name]) (Calls.forget name)
      past := by
  refine (along_read h).bind fun now n told => ?_
  obtain ⟨r, rfl, -⟩ := told
  exact along_pure (asked_cons _ past)

/-- It asks for one after the other, and none is left when it ends. -/
theorem forgetAll_in_order {plan : List Ask} {cs : List Consumer} {past : Told}
    (left : asked past ++ cs.map (fun c => forgetting c.name) = plan) :
    Along (fun now q => asked now ++ [q] <+: plan) (fun now n => asked now = plan ∧ n = cs.length)
      (Calls.forgetAll cs) past := by
  induction cs generalizing past with
  | nil => exact along_pure ⟨by rw [← left, List.map_nil, List.append_nil], rfl⟩
  | cons c cs ih =>
    rw [List.map_cons, List.append_cons] at left
    refine (forget_next ⟨_, left⟩).bind fun now _ told => ?_
    refine (ih (told ▸ left)).bind fun now n told => ?_
    exact along_pure ⟨told.1, congrArg (· + 1) told.2⟩

theorem asked_of_reaches {α : Type} {ends : Told → α → Prop} {plan : List Ask}
    {p q : Program asks α} {past : Told}
    (along : p.Along (fun now q => asked now ++ [q] <+: plan) ends [])
    (reaches : p.Reaches past q) :
    asked past <+: plan := by
  cases past with
  | nil => exact List.nil_prefix
  | cons x past =>
    obtain ⟨next, before⟩ := reaches.asked (List.nil_append _).symm
    rw [asked_cons]
    exact along.question before

theorem reaches_read {α : Type} {parse : Reply → Option α} {c : Command} {r : Reply} {a : α}
    (parsed : parse r = some a) :
    (read parse c).run.Reaches [⟨.send c, .ok r⟩] (.done (.ok a)) := by
  have sent : (read parse c).run.Reaches _ _ := reaches_bind (reaches_send c r)
  rw [parsed] at sent
  exact sent

/-- Each was forgotten, and answered with its reply, in their order. -/
def forgotten (names : List String) (replies : List Reply) : Told :=
  (List.zipWith (fun name x => (⟨forgetting name, .ok x⟩ : Exchange asks)) names replies).reverse

/-- Answered with numbers all along, it comes to its end. -/
theorem forgetAll_ends {cs : List Consumer} {replies : List Reply}
    (each : replies.length = cs.length) (numbers : ∀ x ∈ replies, x.integer?.isSome) :
    (Calls.forgetAll cs).run.Reaches (forgotten (cs.map (·.name)) replies)
      (.done (.ok cs.length)) := by
  induction cs generalizing replies with
  | nil =>
    rw [List.length_eq_zero_iff.mp each]
    exact .start
  | cons c cs ih =>
    cases replies with
    | nil => cases each
    | cons x replies =>
      obtain ⟨n, number⟩ := Option.isSome_iff_exists.mp (numbers x List.mem_cons_self)
      have first :
          (Calls.forget c.name).run.Reaches [⟨forgetting c.name, .ok x⟩] (.done (.ok ())) :=
        reaches_bind (reaches_read number)
      have rest := ih (Nat.succ.inj each) fun x mem => numbers x (List.mem_cons_of_mem _ mem)
      rw [forgotten, List.map_cons, List.zipWith_cons_cons, List.reverse_cons]
      exact (reaches_bind first).trans (reaches_bind rest)

/-! Pruning. -/

section

variable {s : Settings} {idle : Span} {r : Reply} {past : Told}
  {p : Program asks (Except QueueError Nat)}

/-- What is left to do when the broker has told of its consumers. -/
theorem prune_after_reply
    (reaches : (Calls.prune s idle).run.Reaches (past ++ [⟨.send .consumers, .ok r⟩]) p) :
    (Job.ofExcept (consumersOf r) >>= fun consumers => Calls.forgetAll
      (consumers.filter (Calls.isIdle s (Calls.wholeMillis idle)))).run.Reaches past p :=
  Program.Reaches.of_first reaches

theorem forgetting_due (s : Settings) (idle : Span) (entries : List (String × List Reply)) :
    ((entries.map consumerOf).filter (Calls.isIdle s (Calls.wholeMillis idle))).map (·.name) =
      due s idle entries := by
  rw [List.filter_map, List.map_map]
  rfl

/-- As long as nothing fails, all are forgotten that are due. -/
theorem prune_ends {entries : List (String × List Reply)} (lists : Lists r entries)
    {replies : List Reply} (each : replies.length = (due s idle entries).length)
    (numbers : ∀ x ∈ replies, x.integer?.isSome) :
    (Calls.prune s idle).run.Reaches
      (forgotten (due s idle entries) replies ++ [⟨.send .consumers, .ok r⟩])
      (.done (.ok (due s idle entries).length)) := by
  have named := forgetting_due s idle entries
  have count := congrArg List.length named
  rw [List.length_map] at count
  have ends := forgetAll_ends (each.trans count.symm) numbers
  rw [named, count] at ends
  have told : (Calls.prune s idle).run.Reaches [⟨.send .consumers, .ok r⟩] _ :=
    reaches_bind (reaches_send .consumers r)
  rw [consumersOf_of_lists lists] at told
  exact told.trans ends

/-- Nobody else is forgotten, and nobody is passed over. -/
theorem prune_asks_in_order {entries : List (String × List Reply)} (lists : Lists r entries)
    (reaches : (Calls.prune s idle).run.Reaches (past ++ [⟨.send .consumers, .ok r⟩]) p) :
    asked past <+: (due s idle entries).map forgetting ∧
      ∀ n, p = .done (.ok n) →
        asked past = (due s idle entries).map forgetting ∧ n = (asked past).length := by
  have named := forgetting_due s idle entries
  have reaches := prune_after_reply reaches
  rw [consumersOf_of_lists lists] at reaches
  set cs := (entries.map consumerOf).filter (Calls.isIdle s (Calls.wholeMillis idle))
  have plan : asked [] ++ cs.map (fun c => forgetting c.name) =
      (due s idle entries).map forgetting := by
    rw [← named, List.map_map]
    rfl
  have along := forgetAll_in_order plan
  refine ⟨asked_of_reaches along reaches, fun n done => ?_⟩
  subst done
  obtain ⟨all, number⟩ := along.outcome reaches n rfl
  rw [number, all, ← named, List.length_map, List.length_map]
  exact ⟨rfl, rfl⟩

theorem isIdle_iff {e : String × List Reply} :
    Calls.isIdle s (Calls.wholeMillis idle) (consumerOf e) = true ↔
      Reply.counted "pending" e.2 = 0 ∧ Calls.wholeMillis idle ≤ Reply.counted "idle" e.2 ∧
        e.1 ≠ s.consumer := by
  simp only [Calls.isIdle, Bool.and_eq_true, beq_iff_eq, decide_eq_true_eq, bne_iff_ne, and_assoc]
  rfl

theorem isIdle_of_proven {e : String × List Reply} (proven : Proven s idle e) :
    Calls.isIdle s (Calls.wholeMillis idle) (consumerOf e) = true := by
  obtain ⟨free, ⟨n, idle', long⟩, other⟩ := proven
  refine isIdle_iff.mpr ⟨by rw [Reply.counted, free]; rfl, ?_, other⟩
  have counted : Reply.counted "idle" e.2 = n.toNat := by rw [Reply.counted, idle']; rfl
  rw [counted, Calls.wholeMillis]
  omega

/-- An entry that passes for idle is proof exactly if it states both counts. The numbers of a reply
have 64 bits. -/
theorem proven_iff_stated {e : String × List Reply}
    (passes : Calls.isIdle s (Calls.wholeMillis idle) (consumerOf e) = true)
    (fits : ∀ n, Reply.stated? "idle" e.2 = some n → n < 2 ^ 63) :
    Proven s idle e ↔
      ∀ name ∈ ["pending", "idle"], ∃ n : Nat, Reply.stated? name e.2 = some (n : Int) := by
  obtain ⟨free, long, other⟩ := isIdle_iff.mp passes
  rw [List.forall_mem_cons, List.forall_mem_singleton]
  constructor
  · rintro ⟨none, ⟨n, idle', enough⟩, -⟩
    exact ⟨⟨0, none⟩, n.toNat, by rw [idle']; congr 1; omega⟩
  · rintro ⟨⟨m, none⟩, n, idle'⟩
    obtain rfl : m = 0 := by rwa [Reply.counted, none] at free
    have counted : Reply.counted "idle" e.2 = n := by rw [Reply.counted, idle']; rfl
    have bound := fits n idle'
    rw [counted, Calls.wholeMillis] at long
    exact ⟨none, ⟨n, idle', by omega⟩, other⟩

end

/-- Whatever the broker answers when asked for its consumers: as long as no command fails, those are
forgotten whose entries pass for idle, one after the other, and they are counted. Who is proven idle
is among them; another is among them exactly if a count is not stated, or below zero, and passes for
zero. After a reply of another shape nobody is forgotten. -/
theorem prune_forgets_unless_stated (s : Settings) (idle : Span) (r : Reply) :
    (∀ entries, Lists r entries →
      (∀ past p, (Calls.prune s idle).run.Reaches (past ++ [⟨.send .consumers, .ok r⟩]) p →
        asked past <+: (due s idle entries).map forgetting ∧
        ∀ n, p = .done (.ok n) →
          asked past = (due s idle entries).map forgetting ∧ n = (asked past).length) ∧
      (∀ replies : List Reply, replies.length = (due s idle entries).length →
        (∀ x ∈ replies, x.integer?.isSome) →
        (Calls.prune s idle).run.Reaches
          (forgotten (due s idle entries) replies ++ [⟨.send .consumers, .ok r⟩])
          (.done (.ok (due s idle entries).length))) ∧
      (∀ e ∈ entries, Proven s idle e → e.1 ∈ due s idle entries) ∧
      ∀ e ∈ entries, Calls.isIdle s (Calls.wholeMillis idle) (consumerOf e) = true →
        (∀ n, Reply.stated? "idle" e.2 = some n → n < 2 ^ 63) →
        (Proven s idle e ↔
          ∀ name ∈ ["pending", "idle"], ∃ n : Nat, Reply.stated? name e.2 = some (n : Int))) ∧
    ((∀ entries, ¬ Lists r entries) →
      ∀ past p, (Calls.prune s idle).run.Reaches (past ++ [⟨.send .consumers, .ok r⟩]) p →
        past = [] ∧ ∃ fault, p = .done (.error (.protocol fault))) := by
  constructor
  · intro entries lists
    refine ⟨fun past p reaches => prune_asks_in_order lists reaches,
      fun replies each numbers => prune_ends lists each numbers, fun e mem proven => ?_,
      fun e mem passes fits => proven_iff_stated passes fits⟩
    exact List.mem_map_of_mem (List.mem_filter.mpr ⟨mem, isIdle_of_proven proven⟩)
  · intro unlisted past p reaches
    obtain ⟨fault, wrong⟩ := consumersOf_of_unlisted unlisted
    have reaches := prune_after_reply reaches
    rw [wrong] at reaches
    obtain ⟨none, rfl⟩ := reaches.of_done
    exact ⟨none, fault, rfl⟩

private def yard : Settings := { consumer := "cutter" }

private def cooper : String × List Reply :=
  ("cooper", [bulk "idle", .int 60000, bulk "name", bulk "cooper", bulk "pending", .int 0])

/-- Nobody says whether the tanner holds anything. -/
private def tanner : String × List Reply :=
  ("tanner", [bulk "name", bulk "tanner", bulk "idle", .int 90000])

private def guild : Reply := .list [.list cooper.2, .list tanner.2]

private theorem lists_guild : Lists guild [cooper, tanner] := ⟨rfl, by decide +kernel⟩

private theorem due_guild : due yard (.ofSeconds 60) [cooper, tanner] = ["cooper", "tanner"] := by
  decide +kernel

private theorem tanner_unproven : ¬ Proven yard (.ofSeconds 60) tanner :=
  fun proven => absurd proven.1 (by decide +kernel)

/-- A consumer is forgotten of which it was not said that it holds nothing. -/
theorem prune_forgets_unproven :
    ¬ ∀ (s : Settings) (idle : Span) (r : Reply) (entries : List (String × List Reply)),
      Lists r entries → ∀ past p,
        (Calls.prune s idle).run.Reaches (past ++ [⟨.send .consumers, .ok r⟩]) p →
        ∀ name, forgetting name ∈ asked past → ∃ e ∈ entries, e.1 = name ∧ Proven s idle e := by
  intro claim
  have each : [Reply.int 1, .int 1].length =
      (due yard (.ofSeconds 60) [cooper, tanner]).length := by
    rw [due_guild]
    rfl
  have ends := prune_ends lists_guild each (by decide)
  rw [due_guild] at ends
  have named : forgetting "tanner" ∈ asked (forgotten ["cooper", "tanner"] [.int 1, .int 1]) :=
    List.mem_cons_of_mem _ List.mem_cons_self
  obtain ⟨e, mem, name, proven⟩ := claim _ _ _ _ lists_guild _ _ ends "tanner" named
  rcases List.mem_cons.mp mem with rfl | mem
  · exact absurd name (by decide)
  · exact tanner_unproven (List.mem_singleton.mp mem ▸ proven)

theorem prune_forgets_cooper_and_tanner :
    (Calls.prune yard (.ofSeconds 60)).run.Reaches
      (forgotten ["cooper", "tanner"] [.int 1, .int 1] ++ [⟨.send .consumers, .ok guild⟩])
      (.done (.ok 2)) ∧
    (∀ past n, (Calls.prune yard (.ofSeconds 60)).run.Reaches
      (past ++ [⟨.send .consumers, .ok guild⟩]) (.done (.ok n)) → n = 2) ∧
    Proven yard (.ofSeconds 60) cooper ∧ ¬ Proven yard (.ofSeconds 60) tanner ∧
    ∀ past p, (Calls.prune yard (.ofSeconds 60)).run.Reaches
      (past ++ [⟨.send .consumers, .ok (.int 1)⟩]) p → past = [] := by
  obtain ⟨order, ends, -, proof⟩ :=
    (prune_forgets_unless_stated yard (.ofSeconds 60) guild).1 _ lists_guild
  rw [due_guild] at order ends
  refine ⟨ends [.int 1, .int 1] rfl (by decide), fun past n reaches => ?_, ?_, tanner_unproven,
    fun past p reaches => ?_⟩
  · obtain ⟨all, number⟩ := (order past _ reaches).2 n rfl
    rw [number, all]
    rfl
  · have fits : ∀ n, Reply.stated? "idle" cooper.2 = some n → n < 2 ^ 63 := by
      have stated : Reply.stated? "idle" cooper.2 = some 60000 := by decide +kernel
      intro n same
      rw [stated] at same
      cases same
      decide
    refine (proof cooper List.mem_cons_self (by decide +kernel) fits).mpr ?_
    rw [List.forall_mem_cons, List.forall_mem_singleton]
    exact ⟨⟨0, by decide +kernel⟩, 60000, by decide +kernel⟩
  · have unlisted : ∀ entries, ¬ Lists (.int 1) entries := fun entries lists => nomatch lists.shape
    exact ((prune_forgets_unless_stated yard (.ofSeconds 60) (.int 1)).2 unlisted past p reaches).1

end Broker

end ClaimQueue
