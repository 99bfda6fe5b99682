import ClaimQueue.Broker.Link
import ClaimQueue.Number.Digits

/-! Commands and replies as bytes on a connection. A command is a list of bulk words; a reply says
its kind by its first byte. An error anywhere in a reply makes the whole of it an error. -/

namespace ClaimQueue

namespace Broker

namespace Frame

def lineEnd : List UInt8 := [13, 10]

def byteOf (c : Char) : UInt8 := .ofNat c.toNat

def numberBytes (n : Nat) : List UInt8 := (Nat.toDigits 10 n).map byteOf

/-- A mark, a number and the end of the line. -/
def header (mark : Char) (n : Nat) : List UInt8 := byteOf mark :: numberBytes n ++ lineEnd

def ofWord (w : List UInt8) : List UInt8 := header '$' w.length ++ w ++ lineEnd

def ofWords (ws : List (List UInt8)) : List UInt8 := header '*' ws.length ++ ws.flatMap ofWord

def ofCommand (s : Settings) (c : Command) : List UInt8 := ofWords (c.bytes s)

/-- What the front of a byte list was found to be. -/
inductive Read (α : Type) where
  | whole (a : α) (rest : List UInt8)
  /-- More bytes are needed. -/
  | short
  | broken
  deriving Repr

namespace Read

def bind {α β : Type} (r : Read α) (f : α → List UInt8 → Read β) : Read β :=
  match r with
  | whole a rest => f a rest
  | short => short
  | broken => broken

end Read

/-- The bytes before the end of the line. -/
def line : List UInt8 → Read (List UInt8)
  | [] => .short
  | [13] => .short
  | 13 :: b :: rest => if b = 10 then .whole [] rest else .broken
  | b :: rest => (line rest).bind fun l rest => .whole (b :: l) rest

def textOf (bytes : List UInt8) : String := String.ofList (Text.Utf8.lossy bytes)

def numberOf? (bytes : List UInt8) : Option Int :=
  Number.signed? (bytes.map fun b => Char.ofNat b.toNat)

/-- So many bytes and the end of a line. -/
def body (count : Nat) (bytes : List UInt8) : Read (List UInt8) :=
  if bytes.length < count + 2 then .short
  else if (bytes.drop count).take 2 = lineEnd then
    .whole (bytes.take count) (bytes.drop (count + 2))
  else .broken

def items {α : Type} (one : List UInt8 → Read α) : (count : Nat) → List UInt8 → Read (List α)
  | 0, bytes => .whole [] bytes
  | count + 1, bytes =>
    (one bytes).bind fun a rest =>
      (items one count rest).bind fun as rest => .whole (a :: as) rest

abbrev Result := Except LinkFault Reply

def collect : List Result → Except LinkFault (List Reply)
  | [] => .ok []
  | r :: rest => do
    let a ← r
    return a :: (← collect rest)

def refusal (l : List UInt8) : LinkFault :=
  let text := textOf l
  .refused (String.ofList (text.toList.takeWhile (· ≠ ' '))) text

def status (l : List UInt8) : Reply :=
  let text := textOf l
  if text = "OK" then .okay else .status text

/-- Replies nest at most `depth` deep. -/
def reply : (depth : Nat) → List UInt8 → Read Result
  | _, [] => .short
  | depth, kind :: bytes =>
    (line bytes).bind fun l rest =>
      match Char.ofNat kind.toNat, numberOf? l, depth with
      | '+', _, _ => .whole (.ok (status l)) rest
      | '-', _, _ => .whole (.error (refusal l)) rest
      | ':', some n, _ => .whole (.ok (.int n)) rest
      | '$', some (.ofNat n), _ => (body n rest).bind fun b rest => .whole (.ok (.bulk b)) rest
      | '$', some (.negSucc _), _ | '*', some (.negSucc _), _ => .whole (.ok .nil) rest
      | '*', some (.ofNat n), depth + 1 =>
        (items (reply depth) n rest).bind fun rs rest =>
          .whole ((collect rs).map Reply.list) rest
      | _, _, _ => .broken

/-- No broker nests its replies deeper. -/
def nesting : Nat := 100

/-- The replies to so many commands. -/
def replies (count : Nat) (bytes : List UInt8) : Read (List Result) :=
  items (reply nesting) count bytes

end Frame

end Broker

end ClaimQueue
