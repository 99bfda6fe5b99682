import ClaimQueue.Proofs.Broker.Answers
import ClaimQueue.Proofs.Task.Latest

/-! The results that a broker lists, whatever its pages are. Pages may be empty, and a field may come
again, on the same page or on a later one; what counts is where it comes first. -/

namespace ClaimQueue

namespace Broker

open Results Server

abbrev Fields := List (String × List UInt8)

/-- What the broker says to one scan after the other. -/
abbrev Script := List (Except LinkFault Reply)

/-- A broker that follows a script when its results are scanned. -/
def Server.scripted (s : Settings) (q : Ask) (x : Server × Script) : q.Answer × (Server × Script) :=
  match q, x with
  | .send (.scanResults _), (w, reply :: rest) => (reply, (w, rest))
  | q, (w, rest) => ((w.answer s q).1, ((w.answer s q).2, rest))

/-- A script to its end, all fields on its pages, and how it failed if it did. -/
inductive Reports : Script → Fields → Option StoreError → Prop
  | last {reply : Reply} {fields : Fields} (page : pageOf? reply = some (0, fields)) :
      Reports [.ok reply] fields none
  | more {reply : Reply} {next : Nat} {fields others : Fields} {rest : Script}
      {fault : Option StoreError} (page : pageOf? reply = some (next, fields)) (unfinished : next ≠ 0)
      (after : Reports rest others fault) : Reports (.ok reply :: rest) (fields ++ others) fault
  | unread {reply : Reply} (page : pageOf? reply = none) : Reports [.ok reply] [] (some Results.mistyped)
  | failed (e : LinkFault) : Reports [.error e] [] (some e.toStoreError)

variable {s : Settings} {w : Server} {script : Script} {fields others : Fields}
  {fault : Option StoreError} {kind : Option TaskKind} {rounds : Nat}

/-! Which fields count. -/

/-- The fields that come for the first time, in their order. -/
def firsts (seen : List String) : Fields → Fields
  | [] => []
  | f :: rest => if seen.contains f.1 then firsts seen rest else f :: firsts (f.1 :: seen) rest

theorem firsts_sublist (seen : List String) (fields : Fields) :
    (firsts seen fields).Sublist fields := by
  induction fields generalizing seen with
  | nil => exact .slnil
  | cons f rest ih =>
    rw [firsts]
    split
    · exact (ih seen).cons f
    · exact (ih _).cons_cons f

theorem not_mem_seen_of_mem_firsts {seen : List String} {f : String × List UInt8}
    (mem : f ∈ firsts seen fields) : f.1 ∉ seen := by
  induction fields generalizing seen with
  | nil => cases mem
  | cons g rest ih =>
    rw [firsts] at mem
    split at mem
    · exact ih mem
    · rename_i new
      rcases List.mem_cons.mp mem with rfl | mem
      · simpa using new
      · exact fun seen => ih mem (List.mem_cons_of_mem _ seen)

theorem firsts_keys_nodup (seen : List String) (fields : Fields) :
    ((firsts seen fields).map Prod.fst).Nodup := by
  induction fields generalizing seen with
  | nil => exact .nil
  | cons f rest ih =>
    rw [firsts]
    split
    · exact ih seen
    · refine List.nodup_cons.mpr ⟨fun mem => ?_, ih _⟩
      obtain ⟨g, mem, same⟩ := List.mem_map.mp mem
      exact not_mem_seen_of_mem_firsts mem (same ▸ List.mem_cons_self)

/-- Where no key has two bodies, no field is missed. -/
theorem mem_firsts {seen : List String} {f : String × List UInt8}
    (one : ∀ f ∈ fields, ∀ g ∈ fields, f.1 = g.1 → f = g) :
    f ∈ firsts seen fields ↔ f ∈ fields ∧ f.1 ∉ seen := by
  refine ⟨fun mem => ⟨(firsts_sublist seen fields).subset mem, not_mem_seen_of_mem_firsts mem⟩, ?_⟩
  rintro ⟨mem, new⟩
  induction fields generalizing seen with
  | nil => cases mem
  | cons g rest ih =>
    have fewer : ∀ f ∈ rest, ∀ g ∈ rest, f.1 = g.1 → f = g := fun f inside g also =>
      one f (List.mem_cons_of_mem _ inside) g (List.mem_cons_of_mem _ also)
    rw [firsts]
    by_cases same : f = g
    · subst same
      rw [if_neg (by simpa using new)]
      exact List.mem_cons_self
    · have later : f ∈ rest := (List.mem_cons.mp mem).resolve_left same
      split
      · exact ih fewer later new
      · refine List.mem_cons_of_mem _ (ih fewer later ?_)
        rw [List.mem_cons, not_or]
        exact ⟨fun key => same (one f mem g List.mem_cons_self key), new⟩

/-! One page. -/

theorem Results.Scan.take_cursor (scan : Scan) (fields : Fields) :
    (scan.take fields).cursor = scan.cursor := by
  induction fields generalizing scan with
  | nil => rfl
  | cons f rest ih =>
    rw [Scan.take]
    split
    · exact ih scan
    · exact ih _

theorem Results.Scan.take_page (scan : Scan) (fields : Fields) :
    (scan.take fields).page = scan.page ++ (firsts scan.seen fields).map Prod.snd := by
  induction fields generalizing scan with
  | nil => simp [Scan.take, firsts]
  | cons f rest ih =>
    obtain ⟨id, body⟩ := f
    rw [Scan.take, firsts]
    split
    · exact ih scan
    · rw [ih, List.map_cons, List.append_assoc]
      rfl

theorem firsts_append (scan : Scan) (fields others : Fields) : firsts scan.seen (fields ++ others) =
    firsts scan.seen fields ++ firsts (scan.take fields).seen others := by
  induction fields generalizing scan with
  | nil => rfl
  | cons f rest ih =>
    obtain ⟨id, body⟩ := f
    rw [List.cons_append, firsts, firsts, Scan.take]
    split
    · exact ih scan
    · exact congrArg _ (ih { scan with page := scan.page ++ [body], seen := id :: scan.seen })

/-! One item. -/

/-- What is still ahead of a listing: once it has the last page, nothing. -/
inductive Results.Scan.Ahead (scan : Scan) : Script → Fields → Option StoreError → Prop
  | ended (cursor : scan.cursor = none) : Ahead scan [] [] none
  | unfinished {n : Nat} {script : Script} {fields : Fields} {fault : Option StoreError}
      (cursor : scan.cursor = some n) (reports : Reports script fields fault) :
      Ahead scan script fields fault

/-- All that is still to be listed, of whatever kind. -/
def Results.Scan.items (scan : Scan) (fields : Fields) (fault : Option StoreError) : List Item :=
  (scan.page ++ (firsts scan.seen fields).map Prod.snd).map storedResult ++ fault.toList.map .error

/-- What is left of a listing, with so many pages at most. -/
inductive Results.Scan.Left (w : Server) (most : Nat) (scan : Scan) :
    Server × Script → List Item → Prop
  | of {script : Script} {fields : Fields} {fault : Option StoreError}
      (ahead : scan.Ahead script fields fault) (few : script.length ≤ most) :
      Left w most scan (w, script) (scan.items fields fault)

theorem Results.Scan.items_page {scan : Scan} {body : List UInt8} {page : List (List UInt8)}
    (used : scan.page = body :: page) :
    scan.items fields fault = storedResult body :: ({ scan with page } : Scan).items fields fault := by
  rw [Scan.items, used]
  rfl

theorem Results.Scan.items_ended {scan : Scan} (used : scan.page = []) : scan.items [] none = [] := by
  rw [Scan.items, used]
  rfl

theorem Results.Scan.items_fault {scan : Scan} (used : scan.page = []) (e : StoreError) :
    scan.items [] (some e) = .error e :: ({ scan with cursor := none } : Scan).items [] none := by
  simp [Scan.items, used, firsts]

/-- A new page is asked for when the last one is used up. -/
theorem Results.Scan.items_take {scan : Scan} (used : scan.page = []) (cursor : Option Nat)
    (fields others : Fields) (fault : Option StoreError) :
    (({ scan with cursor } : Scan).take fields).items others fault =
      scan.items (fields ++ others) fault := by
  have split : firsts scan.seen (fields ++ others) = _ :=
    firsts_append { scan with cursor } fields others
  rw [Scan.items, Scan.items, Scan.take_page, split, used, List.nil_append, List.nil_append,
    List.map_append, List.map_append, List.map_append]

section

variable {scan : Scan} {reply : Reply} {rest : Script}

theorem run_round_of_page {body : List UInt8} {page : List (List UInt8)}
    (used : scan.page = body :: page) : scan.round.run (Server.scripted s) (w, script) =
      (some (.inr (some (storedResult body, { scan with page }))), (w, script)) := by
  rw [Scan.round, used]
  rfl

theorem run_round_of_ended (used : scan.page = []) (cursor : scan.cursor = none) :
    scan.round.run (Server.scripted s) (w, script) = (some (.inr none), (w, script)) := by
  rw [Scan.round, used, cursor]
  rfl

theorem run_round_of_read {n next : Nat} (used : scan.page = []) (cursor : scan.cursor = some n)
    (page : pageOf? reply = some (next, fields)) :
    scan.round.run (Server.scripted s) (w, .ok reply :: rest) =
      (some (.inl (({ scan with cursor := if next = 0 then none else some next } : Scan).take fields)),
        (w, rest)) := by
  rw [Scan.round, used, cursor]
  refine (Program.run_bind_of_some (a := .ok reply) (t := (w, rest)) rfl).trans ?_
  simp only [page]
  rfl

theorem run_round_of_unread {n : Nat} (used : scan.page = []) (cursor : scan.cursor = some n)
    (page : pageOf? reply = none) : scan.round.run (Server.scripted s) (w, .ok reply :: rest) =
      (some (.inr (some (.error Results.mistyped, { scan with cursor := none }))), (w, rest)) := by
  rw [Scan.round, used, cursor]
  refine (Program.run_bind_of_some (a := .ok reply) (t := (w, rest)) rfl).trans ?_
  simp only [page]
  rfl

theorem run_round_of_failed {n : Nat} (used : scan.page = []) (cursor : scan.cursor = some n)
    (e : LinkFault) : scan.round.run (Server.scripted s) (w, .error e :: rest) =
      (some (.inr (some (.error e.toStoreError, { scan with cursor := none }))), (w, rest)) := by
  rw [Scan.round, used, cursor]
  refine (Program.run_bind_of_some (a := .error e) (t := (w, rest)) rfl).trans ?_
  rfl

theorem run_next_of_end {item : Option (Item × Scan)}
    (round : scan.round.run (Server.scripted s) (w, script) = (some (.inr item), (w, rest))) :
    (scan.next (rounds + 1)).run (Server.scripted s) (w, script) = (some item, (w, rest)) :=
  Program.run_bind_of_some round

end

theorem Results.Scan.Ahead.turn {scan : Scan} (h : scan.Ahead script fields fault)
    (page : List (List UInt8)) : ({ scan with page } : Scan).Ahead script fields fault := by
  cases h with
  | ended cursor => exact .ended cursor
  | unfinished cursor reports => exact .unfinished cursor reports

theorem Results.Scan.Ahead.take {scan : Scan} (h : scan.Ahead script others fault)
    (fields : Fields) : (scan.take fields).Ahead script others fault := by
  cases h with
  | ended cursor => exact .ended ((scan.take_cursor fields).trans cursor)
  | unfinished cursor reports =>
    exact .unfinished ((scan.take_cursor fields).trans cursor) reports

theorem run_next (s : Settings) (w : Server) {most : Nat} {scan : Scan}
    (ahead : scan.Ahead script fields fault) (few : script.length ≤ most)
    (enough : script.length < rounds) : ∃ next t,
    (scan.next rounds).run (Server.scripted s) (w, script) = (some next, t) ∧
      Program.Draws (Scan.Left w most) (w, []) (scan.items fields fault) next t := by
  induction rounds generalizing scan script fields with
  | zero => exact absurd enough (Nat.not_lt_zero _)
  | succ rounds ih =>
    cases used : scan.page with
    | cons body page =>
      rw [Scan.items_page used]
      exact ⟨_, _, run_next_of_end (run_round_of_page used), .item (.of (ahead.turn page) few)⟩
    | nil =>
      cases ahead with
      | ended cursor =>
        rw [Scan.items_ended used]
        exact ⟨_, _, run_next_of_end (run_round_of_ended used cursor), .nothing⟩
      | unfinished cursor reports =>
        have read {reply : Reply} {n : Nat} {rest : Script} {fields others : Fields}
            (page : pageOf? reply = some (n, fields))
            (ahead : Scan.Ahead { scan with cursor := if n = 0 then none else some n } rest others fault)
            (few : rest.length + 1 ≤ most) (enough : rest.length < rounds) : ∃ next t,
            (scan.next (rounds + 1)).run (Server.scripted s) (w, .ok reply :: rest) =
              (some next, t) ∧
            Program.Draws (Scan.Left w most) (w, []) (scan.items (fields ++ others) fault) next t := by
          obtain ⟨next, t, run, drawn⟩ := ih (ahead.take fields) (Nat.le_of_succ_le few) enough
          have round : scan.round.run (Server.scripted s) (w, .ok reply :: rest) = _ :=
            run_round_of_read used cursor page
          rw [Scan.items_take used] at drawn
          exact ⟨next, t, (Program.run_bind_of_some round).trans run, drawn⟩
        cases reports with
        | last page => simpa using read page (.ended rfl) few (Nat.lt_of_succ_lt_succ enough)
        | more page unfinished after =>
          exact read page (.unfinished (if_neg unfinished) after) few (Nat.lt_of_succ_lt_succ enough)
        | unread page =>
          rw [Scan.items_fault used]
          exact ⟨_, _, run_next_of_end (run_round_of_unread used cursor page),
            .item (.of (.ended rfl) (Nat.zero_le _))⟩
        | failed e =>
          rw [Scan.items_fault used]
          exact ⟨_, _, run_next_of_end (run_round_of_failed used cursor e),
            .item (.of (.ended rfl) (Nat.zero_le _))⟩

/-! All items. -/

theorem list_eq (rounds : Nat) (kind : Option TaskKind) : Results.list rounds kind =
    Program.loop (Program.gatherRound (Scan.next rounds) (wanted kind)) rounds ({}, []) := by
  refine congrArg (fun round => Program.loop round rounds _) (funext fun x => ?_)
  refine congrArg (Program.bind (x.1.next rounds)) (funext fun next => ?_)
  cases next <;> rfl

/-- The first body of each field, and after them how the scan failed. -/
def listedOf (fields : Fields) (fault : Option StoreError) : List Item :=
  (firsts [] fields).map (fun f => storedResult f.2) ++ fault.toList.map .error

/-- Nothing has been listed yet. -/
theorem Results.Scan.left_start (w : Server) (reports : Reports script fields fault) :
    Scan.Left w script.length {} (w, script) (listedOf fields fault) := by
  have items : Scan.items {} fields fault = listedOf fields fault := by
    simp [Scan.items, listedOf]
  rw [← items]
  exact .of (.unfinished rfl reports) (Nat.le_refl _)

theorem length_listedOf_lt (reports : Reports script fields fault)
    (enough : script.length + fields.length < rounds) : (listedOf fields fault).length < rounds := by
  have fewer := (firsts_sublist [] fields).length_le
  have some : 0 < script.length := by cases reports <;> simp
  rw [listedOf]
  cases fault <;> simp <;> omega

theorem draws_next (s : Settings) (w : Server) {most : Nat} (enough : most < rounds) :
    ∀ scan t items, Scan.Left w most scan t items → ∃ next u,
      (scan.next rounds).run (Server.scripted s) t = (some next, u) ∧
        Program.Draws (Scan.Left w most) (w, []) items next u := by
  rintro scan _ _ ⟨ahead, short⟩
  exact run_next s w ahead short (by omega)

/-- A listing read to its end. -/
theorem run_list (reports : Reports script fields fault)
    (enough : script.length + fields.length < rounds) :
    (Results.list rounds kind).run (Server.scripted s) (w, script) =
      (some ((listedOf fields fault).filter (wanted kind)), (w, [])) := by
  rw [list_eq]
  exact Program.run_gather (draws_next s w (by omega)) (wanted kind) (Scan.left_start w reports)
    (length_listedOf_lt reports enough) []

/-! A broker that has all its fields on one page. -/

theorem pairs_fieldReplies (fields : Fields) :
    Reply.pairs (fieldReplies fields) = fields.map fun f => (bulk f.1, .bulk f.2) := by
  induction fields with
  | nil => rfl
  | cons f rest ih => exact congrArg (List.cons _) ih

theorem fields?_fieldReplies (fields : Fields) :
    (Reply.list (fieldReplies fields)).fields? = some fields := by
  have even : (fieldReplies fields).length % 2 = 0 := by simp [fieldReplies]
  rw [Reply.fields?, if_pos even, pairs_fieldReplies]
  induction fields with
  | nil => rfl
  | cons f rest ih =>
    have key : (bulk f.1).text? = some f.1 := plainText?_bulk f.1
    rw [List.map_cons, List.mapM_cons, ih (by simp [fieldReplies]), key]
    rfl

theorem pageOf?_fieldReplies {n : Nat} {cursor : String} (size : (bulk cursor).size? = some n)
    (fields : Fields) : pageOf? (.list [bulk cursor, .list (fieldReplies fields)]) =
      some (n, fields) := by
  simp [pageOf?, size, fields?_fieldReplies]

theorem scan_reports_all (s : Settings) (w : Server) (n : Nat) : ∃ reply,
    (w.perform s (.scanResults n)).1 = .ok reply ∧ Reports [.ok reply] w.results none := by
  exact ⟨_, rfl, .last (pageOf?_fieldReplies (by decide) w.results)⟩

/-! After saving. -/

open TaskResult

theorem gives_saves (rs : List TaskResult) : Job.Gives s w (rs.forM Results.save) ()
    { w with results := rs.foldl (fun index r =>
        Index.put r.taskId (Text.Utf8.bytes r.encoded) index) w.results } := by
  induction rs generalizing w with
  | nil => rfl
  | cons r rs ih =>
    have save : Job.Gives s w (Results.save r) ()
        { w with results := Index.put r.taskId (Text.Utf8.bytes r.encoded) w.results } := rfl
    exact save.bind ih

/-- A scan that reports every field gives each of them once, in some order. -/
theorem firsts_perm {results : Index (List UInt8)} (ascending : results.Ascending)
    (all : ∀ f, f ∈ fields ↔ f ∈ results) : (firsts [] fields).Perm results := by
  have one : ∀ f ∈ fields, ∀ g ∈ fields, f.1 = g.1 → f = g := fun f inside g also =>
    ascending.eq_of_key ((all f).mp inside) ((all g).mp also)
  refine (List.perm_ext_iff_of_nodup (firsts_keys_nodup _ _).of_map ascending.nodup.of_map).mpr ?_
  intro f
  simp [mem_firsts one, all]

theorem storedResult_encoded {r : TaskResult} (plain : r.Plain Json.maxNesting) :
    storedResult (Text.Utf8.bytes r.encoded) = .ok r := by
  rw [storedResult, TaskResult.ofBytes_encoded plain]

theorem ofBytes_of_storedResult {body : List UInt8} {r : TaskResult}
    (read : storedResult body = .ok r) : TaskResult.ofBytes body = .ok r := by
  unfold storedResult at read
  split at read
  · cases read
    assumption
  · cases read

theorem Results.lists_latest (s : Settings) {rs : List TaskResult}
    (plain : ∀ r ∈ rs, r.Plain Json.maxNesting) (kind : Option TaskKind) (empty : w.results = []) :
    ∃ v, Job.Gives s w (rs.forM Results.save) () v ∧ ∀ rounds script fields,
      Reports script fields none → (∀ f, f ∈ fields ↔ f ∈ v.results) →
      script.length + fields.length < rounds →
      ∃ items, (Results.list rounds kind).run (Server.scripted s) (v, script) =
          (some items, (v, [])) ∧
        items.Perm (((latest rs).filter (·.matchesKind kind)).map .ok) := by
  have results : rs.foldl (fun index r => Index.put r.taskId (Text.Utf8.bytes r.encoded) index)
      w.results = kept id (fun r => Text.Utf8.bytes r.encoded) rs := by
    rw [empty, ← foldl_put]
    rfl
  have saved := gives_saves (s := s) (w := w) rs
  rw [results] at saved
  refine ⟨_, saved, fun rounds script fields reports all enough => ⟨_, run_list reports enough, ?_⟩⟩
  have perm : (firsts [] fields).Perm
      ((latest rs).map fun r => (r.taskId, Text.Utf8.bytes r.encoded)) :=
    (firsts_perm kept_ascending all).trans (kept_perm _ rs Function.injective_id)
  have read : ∀ r ∈ latest rs, storedResult (Text.Utf8.bytes r.encoded) = .ok r := fun r mem =>
    storedResult_encoded (plain r (mem_latest.mp mem).mem)
  have listed : (listedOf fields none).Perm ((latest rs).map .ok) := by
    rw [listedOf, ← List.map_congr_left read]
    simpa [Function.comp_def] using perm.map fun f => storedResult f.2
  refine (listed.filter _).trans (.of_eq ?_)
  rw [List.filter_map]
  rfl

end Broker

end ClaimQueue
