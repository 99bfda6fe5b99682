import ClaimQueue.Files.Results
import ClaimQueue.Proofs.Program

/-! What comes of reading the files of a directory, wherever it is kept. It depends on what is found
under their names and on nothing else. -/

namespace ClaimQueue

namespace Files

/-- What is made of what was found under a name. -/
def understood : Except String (Option (List UInt8)) → Except StoreError (Option TaskResult)
  | .error detail => .error (.io detail)
  | .ok none => .ok none
  | .ok (some bytes) => match TaskResult.decoder.ofBytes bytes with
    | .ok r => .ok (some r)
    | .error fault => .error (.corrupt fault)

/-- What a listing makes of a file. -/
def itemOf (kind : Option TaskKind) :
    Except StoreError (Option TaskResult) → Option (Except StoreError TaskResult)
  | .ok none => none
  | .ok (some r) => if r.matchesKind kind then some (.ok r) else none
  | .error e => some (.error e)

/-- What a listing gives for a file, where `read` tells what is found under each name. -/
def shows (kind : Option TaskKind) (read : String → Except String (Option (List UInt8)))
    (name : String) : Option (Except StoreError TaskResult) :=
  itemOf kind (understood (read name))

/-- What is listed of the files of a directory. -/
def listedOf : Except String (List String) → Except StoreError (List String)
  | .error detail => .error (.io detail)
  | .ok all => .ok ((all.filter isResultName).mergeSort fun a b => decide (a ≤ b))

theorem understood_of_ok {bytes : List UInt8} {r : TaskResult}
    (decoded : TaskResult.decoder.ofBytes bytes = .ok r) :
    understood (.ok (some bytes)) = .ok (some r) := by
  simp only [understood, decoded]

section

variable {σ : Type} {answer : (q : Ask) → σ → q.Answer × σ} {s t : σ}

theorem run_must {α : Type} {p : Program asks (Except String α)} {found : Except String α}
    (asked : p.run answer s = (some found, t)) : (must p).run.run answer s =
      (some (match found with
        | .ok a => .ok a
        | .error detail => .error (.io detail)), t) := by
  refine (Program.run_bind_of_some asked).trans ?_
  cases found <;> rfl

theorem run_ask_of_eq {q : Ask} {found : q.Answer} (told : answer q s = (found, t)) :
    (ask q).run answer s = (some found, t) := by
  show (some (answer q s).1, (answer q s).2) = _
  rw [told]

theorem run_names {found : Except String (List String)} (told : answer .names s = (found, s)) :
    names.run.run answer s = (some (listedOf found), s) := by
  refine (Program.run_bind_of_some (run_must (run_ask_of_eq told))).trans ?_
  cases found <;> rfl

theorem run_readFile {name : String} {found : Except String (Option (List UInt8))}
    (read : answer (.read name) s = (found, s)) :
    (readFile name).run.run answer s = (some (understood found), s) := by
  refine (Program.run_bind_of_some (run_must (run_ask_of_eq read))).trans ?_
  rcases found with detail | _ | bytes
  · rfl
  · rfl
  · simp only [understood, ExceptT.bindCont]
    cases TaskResult.decoder.ofBytes bytes <;> rfl

theorem run_get {id : String} {found : Except String (Option (List UInt8))}
    (read : answer (.read (nameOf id)) s = (found, s)) :
    (get id).run.run answer s = (some (understood found), s) := run_readFile read

variable (kind : Option TaskKind) {read : String → Except String (Option (List UInt8))}

theorem run_item {name : String} (reads : answer (.read name) s = (read name, s)) :
    (item kind name).run answer s = (some (shows kind read name), s) := by
  refine (Program.run_bind_of_some (run_readFile reads)).trans ?_
  rw [shows]
  rcases understood (read name) with e | _ | r
  · rfl
  · rfl
  · simp only [itemOf]
    cases r.matchesKind kind <;> rfl

theorem run_items {names : List String}
    (reads : ∀ name ∈ names, answer (.read name) s = (read name, s)) :
    (items kind names).run answer s =
      (some (names.filterMap (shows kind read)), s) := by
  induction names with
  | nil => rfl
  | cons name rest ih =>
    rw [List.forall_mem_cons] at reads
    refine (Program.run_bind_of_some (run_item kind reads.1)).trans ?_
    refine (Program.run_bind_of_some (ih reads.2)).trans ?_
    cases found : shows kind read name with
    | none => rw [List.filterMap_cons_none found]; rfl
    | some i => rw [List.filterMap_cons_some found]; rfl

end

end Files

end ClaimQueue
