import ClaimQueue.Text.Utf8

/-! The file of a task's result. Ids may hold anything, so of an id's bytes only letters, digits,
hyphens and underlines stand as they are in a file name; every other byte is written as a percent
sign and two digits. Names that start with a dot are never results. -/

namespace ClaimQueue

namespace Files

def isPlain (b : UInt8) : Bool :=
  let c := Char.ofNat b.toNat
  c.isAlphanum || c == '-' || c == '_'

def hexDigit (n : Nat) : Char := "0123456789ABCDEF".toList.getD n '0'

def escapedByte (b : UInt8) : List Char :=
  if b < 0x80 && isPlain b then [Char.ofNat b.toNat]
  else ['%', hexDigit (b.toNat / 16), hexDigit (b.toNat % 16)]

def stem (id : String) : List Char := (Text.Utf8.bytes id).flatMap escapedByte

def suffix : List Char := ".json".toList

/-- The name of the file that holds the result of a task. -/
def nameOf (id : String) : String := String.ofList (stem id ++ suffix)

/-- Whether a file of this name is listed as a result. -/
def isResultName (name : String) : Bool :=
  name.toList.head? != some '.' && suffix.isSuffixOf name.toList

end Files

end ClaimQueue
