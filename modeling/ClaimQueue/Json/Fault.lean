import ClaimQueue.Json.Value
import ClaimQueue.Text.Quoted

/-! Why a document cannot be read. Faults of form have a fixed mark as their text; faults of
content say what was found and what was expected. -/

namespace ClaimQueue

namespace Json

/-- The kind of value that stands where another was expected. -/
inductive Found where
  | null
  | bool (value : Bool)
  | int (value : Int)
  | double (value : Number.Binary64)
  | string (value : String)
  | array
  | object
  deriving DecidableEq, Repr

def found : Json → Found
  | .null => .null
  | .bool b => .bool b
  | .int i => .int i
  | .double x => .double x
  | .string s => .string s
  | .array _ => .array
  | .object _ => .object

def Found.message : Found → String
  | .null => "null"
  | .bool b => "boolean `" ++ (if b then "true" else "false") ++ "`"
  | .int i => "integer `" ++ toString i ++ "`"
  | .double x => "floating point `" ++ String.ofList x.chars ++ "`"
  | .string s => "string " ++ Text.quoted s
  | .array => "sequence"
  | .object => "map"

inductive Fault where
  /-- The text is no document: a bad token, number, escape or byte, too deep, or too long. -/
  | malformed
  /-- The text ends before the document does. -/
  | unfinished
  | badTimestamp
  | wrongType (found : Found) (expected : String)
  | wrongValue (found : Found) (expected : String)
  | wrongLength (length : Nat) (expected : String)
  | unknownVariant (name : String) (known : List String)
  | missingField (name : String)
  | duplicateField (name : String)
  deriving DecidableEq, Repr

def backquoted (s : String) : String := "`" ++ s ++ "`"

def Fault.message : Fault → String
  | .malformed => "<syntax>"
  | .unfinished => "<eof>"
  | .badTimestamp => "<timestamp>"
  | .wrongType found expected => "invalid type: " ++ found.message ++ ", expected " ++ expected
  | .wrongValue found expected => "invalid value: " ++ found.message ++ ", expected " ++ expected
  | .wrongLength n expected => "invalid length " ++ toString n ++ ", expected " ++ expected
  | .unknownVariant name known =>
    "unknown variant " ++ backquoted name ++ ", expected one of " ++
      ", ".intercalate (known.map backquoted)
  | .missingField name => "missing field " ++ backquoted name
  | .duplicateField name => "duplicate field " ++ backquoted name

end Json

end ClaimQueue
