import ClaimQueue.Number.Digits
import ClaimQueue.Text.Utf8

/-! Where a broker listens, as its URL tells: host, service, database, and who asks. -/

namespace ClaimQueue

namespace Broker

structure Address where
  host : String
  service : Nat := 6379
  database : Int := 0
  user : Option String := none
  password : Option String := none
  deriving DecidableEq, Repr

namespace Address

def scheme : List Char := "redis://".toList

/-- Bytes written as a percent sign and two digits; other characters stand for themselves. -/
def percentDecoded : List Char → List UInt8
  | '%' :: a :: b :: rest =>
    match Number.hexDigit? a, Number.hexDigit? b with
    | some x, some y => .ofNat (x * 16 + y) :: percentDecoded rest
    | _, _ => Text.Utf8.encodeChar '%' ++ percentDecoded (a :: b :: rest)
  | c :: rest => Text.Utf8.encodeChar c ++ percentDecoded rest
  | [] => []
  termination_by cs => cs.length

def plain (cs : List Char) : Option String :=
  if cs.isEmpty then none else some (String.ofList (Text.Utf8.lossy (percentDecoded cs)))

/-- The part before the first `c`, and the part after it if there is one. -/
def cut (c : Char) (cs : List Char) : List Char × Option (List Char) :=
  match cs.dropWhile (· ≠ c) with
  | [] => (cs, none)
  | _ :: after => (cs.takeWhile (· ≠ c), some after)

def cutLast (c : Char) (cs : List Char) : Option (List Char) × List Char :=
  let (after, before) := cut c cs.reverse
  (before.map List.reverse, after.reverse)

/-- Characters that no host name has. -/
def isHostChar (c : Char) : Bool := ' ' < c && !("#%/:<>?@[\\]^|".toList.contains c)

def hostService? (cs : List Char) : Option (String × Option (List Char)) :=
  match cs with
  | '[' :: rest => match cut ']' rest with
    | (host, some []) => some (String.ofList host, none)
    | (host, some (':' :: service)) => some (String.ofList host, some service)
    | _ => none
  | cs =>
    let (host, service) := cut ':' cs
    if !host.isEmpty && host.all isHostChar then some (String.ofList host, service) else none

def service? : Option (List Char) → Option Nat
  | none | some [] => some 6379
  | some cs => (Number.decimal? cs).filter (· < 2 ^ 16)

def database? (path : List Char) : Option Int :=
  let trimmed := ((path.dropWhile (· == '/')).reverse.dropWhile (· == '/')).reverse
  if trimmed.isEmpty then some 0 else Number.signed? trimmed

def ofUrl? (url : String) : Option Address :=
  let cs := url.toList
  if (cs.take scheme.length).map Char.toLower = scheme then do
    let rest := cs.drop scheme.length
    let bare := rest.takeWhile fun c => c ≠ '?' ∧ c ≠ '#'
    let (asker, place) := cutLast '@' (bare.takeWhile (· ≠ '/'))
    let (host, service) ← hostService? place
    let (user, password) := cut ':' (asker.getD [])
    return {
      host
      service := ← service? service
      database := ← database? (bare.dropWhile (· ≠ '/'))
      user := plain user
      password := password.bind plain }
  else none

/-- What is said before anything else on a new connection. -/
def greeting (a : Address) : List (List String) :=
  (match a.password with
    | some password => [["AUTH"] ++ a.user.toList ++ [password]]
    | none => []) ++
  (if a.database = 0 then [] else [["SELECT", toString a.database]])

end Address

end Broker

end ClaimQueue
