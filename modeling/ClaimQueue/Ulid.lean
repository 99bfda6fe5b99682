import ClaimQueue.Time.Instant

/-! Identifiers that sort by creation time: 48 bits of milliseconds before 80 random bits, written
in 26 digits of Crockford's base 32. -/

namespace ClaimQueue

abbrev Ulid := BitVec 128

namespace Ulid

def ofParts (millis random : Nat) : Ulid :=
  .ofNat 128 (millis % 2 ^ 48 * 2 ^ 80 + random % 2 ^ 80)

/-- An instant before 1970 counts as 1970. -/
def ofInstant (now : Instant) (random : Nat) : Ulid := ofParts now.epochMillis.toNat random

def digits : List Char := "0123456789ABCDEFGHJKMNPQRSTVWXYZ".toList

def digit (n : Nat) : Char := digits.getD (n % 32) '0'

/-- The last `count` digits of a number, most significant first. -/
def base32 (n : Nat) : (count : Nat) → List Char
  | 0 => []
  | count + 1 => base32 (n / 32) count ++ [digit n]

def chars (u : Ulid) : List Char := base32 u.toNat 26

/-- An identifier opens with what it names. -/
def named (kind : String) (u : Ulid) : String := String.ofList (kind.toList ++ u.chars)

def taskId (u : Ulid) : String := u.named "task-"

def workerId (u : Ulid) : String := u.named "worker-"

end Ulid

end ClaimQueue
