import ClaimQueue.Number.Digits
import ClaimQueue.Text.Quoted
import ClaimQueue.Text.Utf8

/-! Replies of a broker, how they are shown in messages, and their reading as texts, numbers and
lists. A reply that cannot be read as asked is no answer. -/

namespace ClaimQueue

namespace Broker

inductive Reply where
  | nil
  | int (n : Int)
  | bulk (bytes : List UInt8)
  | list (items : List Reply)
  /-- The bare confirmation. -/
  | okay
  | status (text : String)

namespace Reply

def numbers (bytes : List UInt8) : String :=
  "[" ++ ", ".intercalate (bytes.map fun b => toString b.toNat) ++ "]"

mutual

def shown : Reply → String
  | .nil => "nil"
  | .int n => "int(" ++ toString n ++ ")"
  | .bulk bytes => match Text.Utf8.text? bytes with
    | some s => "string-data('" ++ Text.quoted s ++ "')"
    | none => "binary-data(" ++ numbers bytes ++ ")"
  | .list items => "bulk(" ++ shownItems items ++ ")"
  | .okay => "ok"
  | .status s => "status(" ++ Text.quoted s ++ ")"

def shownItems : List Reply → String
  | [] => ""
  | [r] => shown r
  | r :: rest => shown r ++ ", " ++ shownItems rest

end

/-- Bulk bytes in UTF-8, or a status other than the bare confirmation. -/
def plainText? : Reply → Option String
  | .bulk bytes => Text.Utf8.text? bytes
  | .status s => some s
  | _ => none

def text? : Reply → Option String
  | .okay => some "OK"
  | r => r.plainText?

/-- A number below `limit`; an integer counts modulo `limit`. -/
def natural? (limit : Nat) : Reply → Option Nat
  | .int n => some (n % limit).toNat
  | r => r.plainText?.bind fun s => Number.unsigned? limit s.toList

def integer? : Reply → Option Int
  | .int n => some n
  | r => r.plainText?.bind fun s => Number.signed? s.toList

def size? (r : Reply) : Option Nat := r.natural? (2 ^ 64)

/-- Bulk bytes, or a list of byte numbers. -/
def bytes? : Reply → Option (List UInt8)
  | .bulk bytes => some bytes
  | .list items => items.mapM fun r => (r.natural? 256).map UInt8.ofNat
  | .nil => some []
  | _ => none

/-- A text alone counts as a list of one. -/
def texts? : Reply → Option (List String)
  | .list items => items.mapM text?
  | .nil => some []
  | .bulk bytes => (Text.Utf8.text? bytes).map ([·])
  | _ => none

/-- Nothing is an answer too. -/
def optional? {α : Type} (read : Reply → Option α) : Reply → Option (Option α)
  | .nil => some none
  | r => (read r).map some

def pairs {α : Type} : List α → List (α × α)
  | a :: b :: rest => (a, b) :: pairs rest
  | _ => []

/-- Keys and bodies in turn. -/
def fields? : Reply → Option (List (String × List UInt8))
  | .list items =>
    if items.length % 2 = 0 then
      (pairs items).mapM fun e => do return (← e.1.text?, ← e.2.bytes?)
    else none
  | .nil => some []
  | _ => none

end Reply

end Broker

end ClaimQueue
