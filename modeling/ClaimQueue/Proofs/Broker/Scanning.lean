import ClaimQueue.Proofs.Broker.Jobs
import ClaimQueue.Proofs.Broker.Listing

/-! A listing that is read bit by bit. Whoever reads it may stop after any number of items; what the
broker is asked until then depends on how many those are. -/

namespace ClaimQueue

namespace Broker

open Results Server

/-- The first items of a listing, read one by one; fewer, if it has no more. -/
def Results.first (rounds : Nat) (kind : Option TaskKind) (n : Nat) : Program asks (List Item) :=
  Program.loop (Program.gatherFirst n (Scan.next rounds) (wanted kind)) rounds (({} : Scan), [])

/-! What a broker has told. -/

def fieldsOfReply : Except LinkFault Reply → Fields
  | .ok reply => ((pageOf? reply).map Prod.snd).getD []
  | .error _ => []

/-- The cursor to go on with, if there is more. -/
def nextCursor? : Except LinkFault Reply → Option Nat
  | .ok reply => (pageOf? reply).bind fun page => if page.1 = 0 then none else some page.1
  | .error _ => none

def faultOf? : Except LinkFault Reply → Option StoreError
  | .ok reply => if (pageOf? reply).isSome then none else some Results.mistyped
  | .error e => some e.toStoreError

def fieldsOf (told : Script) : Fields := told.flatMap fieldsOfReply

def faultsOf (told : Script) : List StoreError := told.filterMap faultOf?

/-- Where the next page begins, if there is one. -/
def cursorAfter (told : Script) : Option Nat :=
  match told.getLast? with
  | none => some 0
  | some reply => nextCursor? reply

/-- One item for each field that was told, from its first body, and one for a failure. -/
def itemsOf (told : Script) : List Item :=
  ((fieldsOf told).eraseDupsBy fun f g => f.1 == g.1).map (fun f => storedResult f.2) ++
    (faultsOf told).map .error

/-- What a scan was answered, the earliest first. -/
def replied (past : Told) : Script :=
  past.reverse.filterMap fun x => match x with
    | ⟨.send (.scanResults _), reply⟩ => some reply
    | _ => none

theorem replied_cons (c : Nat) (reply : Except LinkFault Reply) (past : Told) :
    replied (⟨.send (.scanResults c), reply⟩ :: past) = replied past ++ [reply] := by
  rw [replied, List.reverse_cons, List.filterMap_append]
  rfl

theorem eraseDups_loop (fields found : Fields) :
    List.eraseDupsBy.loop (fun f g => f.1 == g.1) fields found =
      found.reverse ++ firsts (found.map Prod.fst) fields := by
  induction fields generalizing found with
  | nil => rw [List.eraseDupsBy.loop, firsts, List.append_nil]
  | cons f fields ih =>
    have seen : found.any (fun g => f.1 == g.1) = (found.map Prod.fst).contains f.1 := by
      rw [List.contains_eq_any_beq, List.any_map]
      rfl
    rw [List.eraseDupsBy.loop, firsts, seen]
    cases (found.map Prod.fst).contains f.1 with
    | true => exact ih found
    | false =>
      refine (ih (f :: found)).trans ?_
      rw [List.reverse_cons, List.append_assoc]
      rfl

theorem itemsOf_eq (told : Script) : itemsOf told =
    (firsts [] (fieldsOf told)).map (fun f => storedResult f.2) ++ (faultsOf told).map .error := by
  rw [itemsOf, List.eraseDupsBy, eraseDups_loop]
  rfl

/-! Where a listing stands. -/

theorem Results.Scan.take_append (scan : Scan) (fields others : Fields) :
    scan.take (fields ++ others) = (scan.take fields).take others := by
  induction fields generalizing scan with
  | nil => rfl
  | cons f fields ih =>
    obtain ⟨id, body⟩ := f
    rw [List.cons_append, Scan.take, Scan.take]
    split
    · exact ih scan
    · exact ih _

/-- Which fields were seen depends on no page and no cursor. -/
theorem Results.Scan.take_seen {scan other : Scan} (same : scan.seen = other.seen)
    (fields : Fields) : (scan.take fields).seen = (other.take fields).seen := by
  induction fields generalizing scan other with
  | nil => exact same
  | cons f fields ih =>
    obtain ⟨id, body⟩ := f
    rw [Scan.take, Scan.take, same]
    split
    · exact ih same
    · exact ih rfl

/-- After these replies, with these items given, this is what is left. -/
structure Results.Scan.At (told : Script) (given : List Item) (scan : Scan) : Prop where
  cursor : scan.cursor = cursorAfter told
  seen : scan.seen = (Scan.take {} (fieldsOf told)).seen
  items : itemsOf told = given ++ scan.page.map storedResult
  sound : (cursorAfter told).isSome → faultsOf told = []

theorem fieldsOf_concat (told : Script) (reply : Except LinkFault Reply) :
    fieldsOf (told ++ [reply]) = fieldsOf told ++ fieldsOfReply reply := by
  rw [fieldsOf, List.flatMap_append, List.flatMap_singleton]
  rfl

theorem faultsOf_concat (told : Script) (reply : Except LinkFault Reply) :
    faultsOf (told ++ [reply]) = faultsOf told ++ (faultOf? reply).toList := by
  rw [faultsOf, List.filterMap_append, List.filterMap_cons]
  cases faultOf? reply <;> rfl

theorem cursorAfter_concat (told : Script) (reply : Except LinkFault Reply) :
    cursorAfter (told ++ [reply]) = nextCursor? reply := by
  rw [cursorAfter, List.getLast?_concat]

theorem itemsOf_read {told : Script} {reply : Reply} {next : Nat} {fields : Fields}
    (page : pageOf? reply = some (next, fields)) (sound : faultsOf told = []) :
    itemsOf (told ++ [.ok reply]) = itemsOf told ++
      (firsts (Scan.take {} (fieldsOf told)).seen fields).map fun f => storedResult f.2 := by
  have told' : fieldsOfReply (.ok reply) = fields := by rw [fieldsOfReply, page]; rfl
  have fine : faultOf? (.ok reply) = none := by rw [faultOf?, page]; rfl
  rw [itemsOf_eq, itemsOf_eq, fieldsOf_concat, faultsOf_concat, sound, told', fine,
    show ([] : List String) = ({} : Scan).seen from rfl, firsts_append]
  simp

/-- A reply that fails has nothing else to tell. -/
theorem nothing_of_faultOf? {reply : Except LinkFault Reply} {e : StoreError}
    (failed : faultOf? reply = some e) : fieldsOfReply reply = [] ∧ nextCursor? reply = none := by
  cases reply with
  | error e => exact ⟨rfl, rfl⟩
  | ok r =>
    rw [faultOf?] at failed
    cases page : pageOf? r with
    | none => exact ⟨by rw [fieldsOfReply, page]; rfl, by rw [nextCursor?, page]; rfl⟩
    | some _ =>
      rw [page] at failed
      cases failed

theorem itemsOf_failed {told : Script} {reply : Except LinkFault Reply} {e : StoreError}
    (failed : faultOf? reply = some e) :
    itemsOf (told ++ [reply]) = itemsOf told ++ [.error e] := by
  rw [itemsOf_eq, itemsOf_eq, fieldsOf_concat, faultsOf_concat, (nothing_of_faultOf? failed).1,
    failed, List.append_nil]
  simp

section

variable {told : Script} {given : List Item} {scan : Scan} {c : Nat}

theorem Results.Scan.at_start : Scan.At [] [] {} where
  cursor := rfl
  seen := rfl
  items := rfl
  sound _ := rfl

theorem Results.Scan.At.used (h : scan.At told given) (used : scan.page = []) :
    itemsOf told = given := by
  rw [h.items, used, List.map_nil, List.append_nil]

theorem Results.Scan.At.give (h : scan.At told given) {body : List UInt8} {page : List (List UInt8)}
    (full : scan.page = body :: page) :
    ({ scan with page } : Scan).At told (given ++ [storedResult body]) where
  cursor := h.cursor
  seen := h.seen
  items := by rw [h.items, full, List.map_cons, List.append_cons]
  sound := h.sound

theorem Results.Scan.At.read (h : scan.At told given) (used : scan.page = [])
    (cursor : scan.cursor = some c) {reply : Reply} {next : Nat} {fields : Fields}
    (page : pageOf? reply = some (next, fields)) :
    (({ scan with cursor := if next = 0 then none else some next } : Scan).take fields).At
      (told ++ [.ok reply]) given := by
  have told' : fieldsOfReply (.ok reply) = fields := by rw [fieldsOfReply, page]; rfl
  have sound : faultsOf told = [] := h.sound (by rw [← h.cursor, cursor]; rfl)
  constructor
  · rw [Scan.take_cursor, cursorAfter_concat, nextCursor?, page]
    rfl
  · rw [fieldsOf_concat, told', Scan.take_append]
    refine Scan.take_seen ?_ fields
    exact h.seen
  · rw [itemsOf_read page sound, h.used used, Scan.take_page, ← h.seen]
    simp [used]
  · intro _
    rw [faultsOf_concat, sound, faultOf?, page]
    rfl

theorem Results.Scan.At.failed (h : scan.At told given) (used : scan.page = [])
    {reply : Except LinkFault Reply} {e : StoreError} (failed : faultOf? reply = some e) :
    ({ scan with cursor := none } : Scan).At (told ++ [reply]) (given ++ [.error e]) := by
  obtain ⟨none, last⟩ := nothing_of_faultOf? failed
  constructor
  · rw [cursorAfter_concat, last]
  · rw [fieldsOf_concat, none, List.append_nil]
    exact h.seen
  · rw [itemsOf_failed failed, h.used used]
    simp [used]
  · rw [cursorAfter_concat, last]
    exact fun more => nomatch more

/-! What is asked, and what is given. -/

/-- All that was told has been given. -/
def AsksFor (given : List Item) (past : Told) (q : Ask) : Prop :=
  ∃ c, cursorAfter (replied past) = some c ∧ q = .send (.scanResults c) ∧
    itemsOf (replied past) = given

/-- The next item is given, or there is none. -/
def GivesNext (given : List Item) (past : Told) : Option (Item × Scan) → Prop
  | some (item, scan) => scan.At (replied past) (given ++ [item])
  | none => cursorAfter (replied past) = none ∧ itemsOf (replied past) = given

theorem round_along {past : Told} (h : scan.At (replied past) given) :
    scan.round.Along (AsksFor given) (fun now r => match r with
      | .inl scan => scan.At (replied now) given
      | .inr next => GivesNext given now next) past := by
  unfold Scan.round
  split
  · next body page full => exact h.give full
  · next used cursor => exact ⟨h.cursor.symm.trans cursor, h.used used⟩
  · next c used cursor =>
    have fit : AsksFor given past (.send (.scanResults c)) :=
      ⟨c, h.cursor.symm.trans cursor, rfl, h.used used⟩
    refine (Job.along_ask fit).bind fun now reply told => ?_
    subst told
    split
    · next e =>
      show Scan.At (replied _) _ _
      rw [replied_cons]
      exact h.failed used rfl
    · next reply =>
      split
      · next page =>
        show Scan.At (replied _) _ _
        rw [replied_cons]
        exact h.failed used (by rw [faultOf?, page]; rfl)
      · next next fields page =>
        show Scan.At (replied _) _ _
        rw [replied_cons]
        exact h.read used cursor page

theorem next_along {past : Told} (rounds : Nat) (h : scan.At (replied past) given) :
    (scan.next rounds).Along (AsksFor given) (GivesNext given) past := by
  refine Program.along_loop (fun past scan => scan.At (replied past) given) (fun past scan h => ?_)
    rounds h
  exact (round_along h).mono fun now r told => by cases r <;> exact told

end

/-- Of what was told, what a reader of one kind wants. -/
def shown (kind : Option TaskKind) (told : Script) : List Item :=
  (itemsOf told).filter (wanted kind)

/-- A reader asks only where more than was told is wanted, with the cursor that was told last. -/
def AsksMore (kind : Option TaskKind) (n : Nat) (past : Told) (q : Ask) : Prop :=
  ∃ c, cursorAfter (replied past) = some c ∧ q = .send (.scanResults c) ∧
    (shown kind (replied past)).length < n

def GivesFirst (kind : Option TaskKind) (n : Nat) (past : Told) (items : List Item) : Prop :=
  items = (shown kind (replied past)).take n ∧
    (items.length = n ∨ cursorAfter (replied past) = none)

/-- What a reader has found is what is wanted of the items given to it. -/
def Found (kind : Option TaskKind) (n : Nat) (past : Told) (x : Scan × List Item) : Prop :=
  ∃ given, x.1.At (replied past) given ∧ x.2.reverse = given.filter (wanted kind) ∧ x.2.length ≤ n

variable {kind : Option TaskKind} {n : Nat} {past : Told} {x : Scan × List Item}

theorem Found.full (h : Found kind n past x) (full : x.2.length = n) :
    GivesFirst kind n past x.2.reverse := by
  obtain ⟨given, stands, found, -⟩ := h
  have long : (given.filter (wanted kind)).length = n := by rw [← found, List.length_reverse, full]
  refine ⟨?_, .inl (by rw [List.length_reverse, full])⟩
  rw [shown, stands.items, List.filter_append, found, ← long, List.take_left]

theorem Found.next (h : Found kind n past x) (few : x.2.length ≠ n) (rounds : Nat) :
    (Program.gatherRound (Scan.next rounds) (wanted kind) x).Along (AsksMore kind n)
      (fun now r => match r with
        | .inl y => Found kind n now y
        | .inr items => GivesFirst kind n now items) past := by
  obtain ⟨given, stands, found, most⟩ := h
  have long : (given.filter (wanted kind)).length = x.2.length := by
    rw [← found, List.length_reverse]
  have less : x.2.length < n := Nat.lt_of_le_of_ne most few
  have asks : ∀ past q, AsksFor given past q → AsksMore kind n past q := by
    rintro past q ⟨c, cursor, rfl, all⟩
    exact ⟨c, cursor, rfl, by rwa [shown, all, long]⟩
  refine ((next_along rounds stands).weaken asks).bind fun now next gives => ?_
  cases next with
  | none =>
    obtain ⟨ended, all⟩ := gives
    refine ⟨?_, .inr ended⟩
    rw [shown, all, found, List.take_of_length_le (by omega)]
  | some next =>
    obtain ⟨item, scan⟩ := next
    refine ⟨given ++ [item], gives, ?_⟩
    rw [List.filter_append, ← found, List.filter_singleton]
    cases wanted kind item with
    | true => exact ⟨List.reverse_cons, less⟩
    | false => exact ⟨(List.append_nil _).symm, most⟩

theorem first_along (rounds : Nat) (kind : Option TaskKind) (n : Nat) :
    (Results.first rounds kind n).Along (AsksMore kind n) (GivesFirst kind n) [] := by
  refine Program.along_loop (Found kind n) (fun past x found => ?_) rounds
    ⟨[], Scan.at_start, rfl, Nat.zero_le n⟩
  unfold Program.gatherFirst
  split
  · next full => exact found.full full
  · next few => exact (found.next few rounds).mono fun now r told => by cases r <;> exact told

/-! Scripts. -/

theorem faultOf?_of_page {reply : Reply} {page : Nat × Fields} (read : pageOf? reply = some page) :
    faultOf? (.ok reply) = none ∧ fieldsOfReply (.ok reply) = page.2 := by
  rw [faultOf?, fieldsOfReply, read]
  exact ⟨rfl, rfl⟩

variable {script : Script} {fields : Fields} {fault : Option StoreError}

theorem told_of_reports (reports : Reports script fields fault) :
    fieldsOf script = fields ∧ faultsOf script = fault.toList := by
  induction reports with
  | last page =>
    obtain ⟨fine, fields⟩ := faultOf?_of_page page
    simp [fieldsOf, faultsOf, fine, fields]
  | more page unfinished after ih =>
    obtain ⟨fine, fields⟩ := faultOf?_of_page page
    rw [fieldsOf, faultsOf, List.flatMap_cons, List.filterMap_cons_none fine, fields]
    exact ⟨congrArg _ ih.1, ih.2⟩
  | unread page => simp [fieldsOf, faultsOf, fieldsOfReply, faultOf?, page]
  | failed e => simp [fieldsOf, faultsOf, fieldsOfReply, faultOf?]

theorem itemsOf_of_reports (reports : Reports script fields fault) :
    itemsOf script = listedOf fields fault := by
  obtain ⟨told, failed⟩ := told_of_reports reports
  rw [itemsOf_eq, told, failed]
  rfl

theorem cursorAfter_of_reports (reports : Reports script fields fault) :
    cursorAfter script = none := by
  induction reports with
  | last page => simp [cursorAfter, nextCursor?, page]
  | @more _ _ _ _ rest _ _ _ after ih =>
    have some : rest ≠ [] := by rintro rfl; cases after
    rwa [cursorAfter, List.getLast?_cons_of_ne_nil some]
  | unread page => simp [cursorAfter, nextCursor?, page]
  | failed e => rfl

/-- Asked for pages while there are more, a script is told from its front. -/
theorem scripted_tells {α : Type} {start p : Program asks α} {past : Told} {rest : Script} {a : α}
    {s : Settings} {w : Server} {t : Server × Script}
    (pages : ∀ past q next, start.Reaches past (.ask q next) →
      ∃ c, cursorAfter (replied past) = some c ∧ q = .send (.scanResults c))
    (ended : cursorAfter script = none) (reaches : start.Reaches past p)
    (front : replied past ++ rest = script)
    (run : p.run (Server.scripted s) (w, rest) = (some a, t)) :
    ∃ past rest, start.Reaches past (.done a) ∧ replied past ++ rest = script ∧ t = (w, rest) := by
  induction p generalizing past rest with
  | done b =>
    cases run
    exact ⟨past, rest, reaches, front, rfl⟩
  | ask q next ih =>
    obtain ⟨c, more, rfl⟩ := pages past q next reaches
    cases rest with
    | nil =>
      rw [List.append_nil] at front
      rw [front, ended] at more
      cases more
    | cons reply rest =>
      refine ih reply (reaches.answer reply) ?_ run
      rw [replied_cons, List.append_assoc]
      exact front
  | spent => cases run

theorem run_first {rounds : Nat} (s : Settings) (w : Server) (reports : Reports script fields fault)
    (enough : script.length + fields.length < rounds) (kind : Option TaskKind) (n : Nat) :
    ∃ past rest, (Results.first rounds kind n).Reaches past (.done ((shown kind script).take n)) ∧
      replied past ++ rest = script ∧
      (Results.first rounds kind n).run (Server.scripted s) (w, script) =
        (some ((shown kind script).take n), (w, rest)) := by
  obtain ⟨t, run⟩ : ∃ t, (Results.first rounds kind n).run (Server.scripted s) (w, script) =
      (some ((shown kind script).take n), t) := by
    rw [shown, itemsOf_of_reports reports]
    exact Program.run_gatherFirst (draws_next s w (by omega)) (wanted kind)
      (Scan.left_start w reports) (length_listedOf_lt reports enough) (Nat.zero_le n)
  have pages : ∀ past q next, (Results.first rounds kind n).Reaches past (.ask q next) →
      ∃ c, cursorAfter (replied past) = some c ∧ q = .send (.scanResults c) := by
    intro past q next reaches
    obtain ⟨c, more, asks, -⟩ := (first_along rounds kind n).question reaches
    exact ⟨c, more, asks⟩
  obtain ⟨past, rest, reaches, front, rfl⟩ :=
    scripted_tells pages (cursorAfter_of_reports reports) .start rfl run
  exact ⟨past, rest, reaches, front, run⟩

/-! What an item is. -/

theorem storedResult_cases (body : List UInt8) :
    (∃ r, TaskResult.ofBytes body = .ok r ∧ storedResult body = .ok r) ∨
      ∃ f, TaskResult.ofBytes body = .error (.malformed f) ∧
        storedResult body = .error (.corrupt f) := by
  cases read : TaskResult.ofBytes body with
  | ok r => exact .inl ⟨r, rfl, by rw [storedResult, read]⟩
  | error e =>
    rw [TaskResult.ofBytes, TaskResult.ofSource] at read
    split at read
    · cases read
    · next f unread =>
      cases read
      refine .inr ⟨f, rfl, ?_⟩
      rw [storedResult, TaskResult.ofBytes, TaskResult.ofSource, unread]
      rfl

theorem backend_of_reports {e : StoreError} (reports : Reports script fields (some e)) :
    ∃ detail, e = .backend detail := by
  generalize some : Option.some e = fault at reports
  induction reports with
  | last => cases some
  | more _ _ _ ih => exact ih some
  | unread => exact ⟨_, Option.some.inj some⟩
  | failed => exact ⟨_, Option.some.inj some⟩

/-- Whoever reads the first items of a listing, the broker is asked for more only when all was given
that it told before and more is wanted, with the cursor that it told last, and for nothing after the
last page or a failure. Each field that was told gives one item, the first body decoded or corrupt,
and a failure gives one; readable results of another kind are passed over. A script is read to where
enough was told, or to its end. -/
theorem scan_yields_first_bodies (rounds : Nat) (kind : Option TaskKind) (n : Nat) :
    (∀ past q next, (Results.first rounds kind n).Reaches past (.ask q next) →
      ∃ c, cursorAfter (replied past) = some c ∧ q = .send (.scanResults c) ∧
        (shown kind (replied past)).length < n) ∧
    (∀ past items, (Results.first rounds kind n).Reaches past (.done items) →
      items = (shown kind (replied past)).take n ∧
        (items.length = n ∨ cursorAfter (replied past) = none)) ∧
    (∀ s w script fields fault, Reports script fields fault →
      script.length + fields.length < rounds →
      (∃ past rest,
        (Results.first rounds kind n).Reaches past (.done ((shown kind script).take n)) ∧
        replied past ++ rest = script ∧
        (Results.first rounds kind n).run (Server.scripted s) (w, script) =
          (some ((shown kind script).take n), (w, rest))) ∧
      (Results.list rounds kind).run (Server.scripted s) (w, script) =
        (some (shown kind script), (w, [])) ∧
      itemsOf script = (fields.eraseDupsBy fun f g => f.1 == g.1).map (fun f => storedResult f.2) ++
        fault.toList.map .error ∧
      ∀ e, fault = some e → ∃ detail, e = .backend detail) ∧
    ∀ body, (∃ r, TaskResult.ofBytes body = .ok r ∧ storedResult body = .ok r) ∨
      ∃ f, TaskResult.ofBytes body = .error (.malformed f) ∧
        storedResult body = .error (.corrupt f) := by
  refine ⟨fun past q next reaches => (first_along rounds kind n).question reaches,
    fun past items reaches => (first_along rounds kind n).outcome reaches,
    fun s w script fields fault reports enough => ⟨run_first s w reports enough kind n, ?_, ?_, ?_⟩,
    storedResult_cases⟩
  · rw [shown, itemsOf_of_reports reports]
    exact run_list reports enough
  · obtain ⟨told, failed⟩ := told_of_reports reports
    rw [itemsOf, told, failed]
  · rintro e rfl
    exact backend_of_reports reports

private def quince : TaskResult := ⟨"quince", some .render, .ok, [], .epoch, 1⟩

private theorem plain_quince : quince.Plain Json.maxNesting := by
  refine ⟨⟨.nil, trivial⟩, ?_⟩
  rw [TaskResult.nesting_toJson]
  simp [quince, Json.nesting, Json.nestingMembers, Json.maxNesting]

private def preserve : String × List UInt8 := ("quince", Text.Utf8.bytes quince.encoded)

/-- A body that is no document. -/
private def medlar : String × List UInt8 := ("medlar", [0xFF])

private def page (cursor : String) (fields : Fields) : Except LinkFault Reply :=
  .ok (.list [bulk cursor, .list (fieldReplies fields)])

/-- A field that comes twice, a page with nothing on it, and a failure. -/
private def shelf : Script :=
  [page "7" [preserve, medlar], page "9" [], page "3" [("quince", [])], .error (.lost "reset")]

private theorem reports_shelf :
    Reports shelf [preserve, medlar, ("quince", [])] (some (.backend "reset")) := by
  have third : Reports (shelf.drop 2) [("quince", [])] _ :=
    .more (pageOf?_fieldReplies (n := 3) (by decide) _) (by decide) (.failed (.lost "reset"))
  have second : Reports (shelf.drop 1) [("quince", [])] _ :=
    .more (pageOf?_fieldReplies (n := 9) (by decide) _) (by decide) third
  exact .more (pageOf?_fieldReplies (n := 7) (by decide) _) (by decide) second

private def larder : Server := { clock := .epoch }

theorem scan_yields_quince :
    (∃ past rest, (Results.first 8 (some .render) 1).Reaches past (.done [.ok quince]) ∧
      replied past ++ rest = shelf) ∧
    (Results.list 8 (some .render)).run (Server.scripted { consumer := "cook" }) (larder, shelf) =
      (some [.ok quince, .error (.corrupt .malformed), .error (.backend "reset")], (larder, [])) := by
  obtain ⟨-, -, told, -⟩ := scan_yields_first_bodies 8 (some .render) 1
  obtain ⟨⟨past, rest, reaches, front, -⟩, lists, items, -⟩ :=
    told { consumer := "cook" } larder shelf _ _ reports_shelf (by decide)
  have read : storedResult preserve.2 = .ok quince := by
    rw [preserve, storedResult_encoded plain_quince]
  have unread : storedResult medlar.2 = .error (.corrupt .malformed) := by decide +kernel
  have once : [preserve, medlar, ("quince", [])].eraseDupsBy (fun f g => f.1 == g.1) =
      [preserve, medlar] := rfl
  have all : shown (some .render) shelf =
      [.ok quince, .error (.corrupt .malformed), .error (.backend "reset")] := by
    rw [shown, items, once, List.map_cons, List.map_singleton, read, unread]
    rfl
  rw [all] at reaches lists
  exact ⟨⟨past, rest, reaches, front⟩, lists⟩

end Broker

end ClaimQueue
