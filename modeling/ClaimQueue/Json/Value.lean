import ClaimQueue.Index
import ClaimQueue.Number.Shortest

/-! Document values. Numbers are integers of 64 bits, signed or unsigned, or binary64 numbers; an
object is an index. A record's own document lists its members in the record's order instead. -/

namespace ClaimQueue

inductive Json where
  | null
  | bool (value : Bool)
  | int (value : Int)
  | double (value : Number.Binary64)
  | string (value : String)
  | array (items : List Json)
  | object (members : List (String × Json))
  deriving Repr, Inhabited

namespace Json

mutual

def same : Json → Json → Bool
  | .null, .null => true
  | .bool a, .bool b => a == b
  | .int a, .int b => a == b
  | .double a, .double b => a == b
  | .string a, .string b => a == b
  | .array a, .array b => sameItems a b
  | .object a, .object b => sameMembers a b
  | _, _ => false

def sameItems : List Json → List Json → Bool
  | [], [] => true
  | a :: as, b :: bs => same a b && sameItems as bs
  | _, _ => false

def sameMembers : List (String × Json) → List (String × Json) → Bool
  | [], [] => true
  | (k, a) :: as, (l, b) :: bs => k == l && (same a b && sameMembers as bs)
  | _, _ => false

end

mutual

theorem eq_of_same : (a b : Json) → same a b = true → a = b
  | .null, b, h => by cases b <;> simp_all [same]
  | .bool _, b, h => by cases b <;> simp_all [same]
  | .int _, b, h => by cases b <;> simp_all [same]
  | .double _, b, h => by cases b <;> simp_all [same]
  | .string _, b, h => by cases b <;> simp_all [same]
  | .array as, b, h => by
    cases b with
    | array bs => rw [eq_of_sameItems as bs (by simpa [same] using h)]
    | _ => simp [same] at h
  | .object as, b, h => by
    cases b with
    | object bs => rw [eq_of_sameMembers as bs (by simpa [same] using h)]
    | _ => simp [same] at h

theorem eq_of_sameItems : (as bs : List Json) → sameItems as bs = true → as = bs
  | [], [], _ => rfl
  | [], _ :: _, h => by simp [sameItems] at h
  | _ :: _, [], h => by simp [sameItems] at h
  | a :: as, b :: bs, h => by
    simp only [sameItems, Bool.and_eq_true] at h
    rw [eq_of_same a b h.1, eq_of_sameItems as bs h.2]

theorem eq_of_sameMembers :
    (as bs : List (String × Json)) → sameMembers as bs = true → as = bs
  | [], [], _ => rfl
  | [], _ :: _, h => by simp [sameMembers] at h
  | _ :: _, [], h => by simp [sameMembers] at h
  | (k, a) :: as, (l, b) :: bs, h => by
    simp only [sameMembers, Bool.and_eq_true, beq_iff_eq] at h
    rw [h.1, eq_of_same a b h.2.1, eq_of_sameMembers as bs h.2.2]

end

mutual

theorem same_self : (a : Json) → same a a = true
  | .null => rfl
  | .bool _ => by simp [same]
  | .int _ => by simp [same]
  | .double _ => by simp [same]
  | .string _ => by simp [same]
  | .array as => by simpa [same] using sameItems_self as
  | .object as => by simpa [same] using sameMembers_self as

theorem sameItems_self : (as : List Json) → sameItems as as = true
  | [] => rfl
  | a :: as => by simp [sameItems, same_self a, sameItems_self as]

theorem sameMembers_self : (as : List (String × Json)) → sameMembers as as = true
  | [] => rfl
  | (k, a) :: as => by simp [sameMembers, same_self a, sameMembers_self as]

end

instance : DecidableEq Json := fun a b =>
  if h : same a b then .isTrue (eq_of_same a b h)
  else .isFalse fun e => h (e ▸ same_self a)

mutual

/-- How many brackets are open at the deepest place. -/
def nesting : Json → Nat
  | .array items => nestingItems items + 1
  | .object members => nestingMembers members + 1
  | _ => 0

def nestingItems : List Json → Nat
  | [] => 0
  | item :: rest => max (nesting item) (nestingItems rest)

def nestingMembers : List (String × Json) → Nat
  | [] => 0
  | (_, item) :: rest => max (nesting item) (nestingMembers rest)

end

/-- The value of a member, if this is an object that has it. -/
def member? (key : String) : Json → Option Json
  | .object members => Index.find? key members
  | _ => none

/-- A number of 64 bits without sign. -/
def natural? : Json → Option Nat
  | .int (.ofNat n) => some n
  | _ => none

def text? : Json → Option String
  | .string s => some s
  | _ => none

def flag? : Json → Option Bool
  | .bool b => some b
  | _ => none

end Json

/-- What a task or a result carries: any members, unread by the queue. -/
abbrev Payload := Index Json

end ClaimQueue
