import ClaimQueue.Json.Value

/-! Writes values: compact, or over several lines with two blanks for each level. Only the quote,
the backslash and the control characters are escaped. Members stand in the order they have. -/

namespace ClaimQueue.Json

def hexPair (n : Nat) : List Char := [Nat.digitChar (n / 16), Nat.digitChar (n % 16)]

def escapedChar (c : Char) : List Char :=
  match c with
  | '"' => ['\\', '"']
  | '\\' => ['\\', '\\']
  | '\x08' => ['\\', 'b']
  | '\t' => ['\\', 't']
  | '\n' => ['\\', 'n']
  | '\x0c' => ['\\', 'f']
  | '\r' => ['\\', 'r']
  | c => if c < ' ' then ['\\', 'u', '0', '0'] ++ hexPair c.toNat else [c]

def stringChars (s : String) : List Char := '"' :: s.toList.flatMap escapedChar ++ ['"']

def intChars (i : Int) : List Char := (toString i).toList

def separated : List (List Char) → List Char
  | [] => []
  | [a] => a
  | a :: rest => a ++ ',' :: separated rest

mutual

def chars : Json → List Char
  | .null => ['n', 'u', 'l', 'l']
  | .bool true => ['t', 'r', 'u', 'e']
  | .bool false => ['f', 'a', 'l', 's', 'e']
  | .int i => intChars i
  | .double x => x.chars
  | .string s => stringChars s
  | .array items => '[' :: separated (itemChars items) ++ [']']
  | .object members => '\x7b' :: separated (memberChars members) ++ ['\x7d']

def itemChars : List Json → List (List Char)
  | [] => []
  | item :: rest => chars item :: itemChars rest

def memberChars : List (String × Json) → List (List Char)
  | [] => []
  | (key, item) :: rest => (stringChars key ++ ':' :: chars item) :: memberChars rest

end

def compact (j : Json) : String := String.ofList j.chars

def newLine (level : Nat) : List Char := '\n' :: List.replicate (2 * level) ' '

/-- Each piece on a line of its own at `level`, with commas between. -/
def lines (level : Nat) : List (List Char) → List Char
  | [] => []
  | [a] => newLine level ++ a
  | a :: rest => newLine level ++ a ++ ',' :: lines level rest

mutual

def prettyChars (level : Nat) : Json → List Char
  | .array [] => ['[', ']']
  | .array items =>
    '[' :: lines (level + 1) (prettyItems (level + 1) items) ++ newLine level ++ [']']
  | .object [] => ['\x7b', '\x7d']
  | .object members =>
    '\x7b' :: lines (level + 1) (prettyMembers (level + 1) members) ++ newLine level ++ ['\x7d']
  | .null => ['n', 'u', 'l', 'l']
  | .bool true => ['t', 'r', 'u', 'e']
  | .bool false => ['f', 'a', 'l', 's', 'e']
  | .int i => intChars i
  | .double x => x.chars
  | .string s => stringChars s

def prettyItems (level : Nat) : List Json → List (List Char)
  | [] => []
  | item :: rest => prettyChars level item :: prettyItems level rest

def prettyMembers (level : Nat) : List (String × Json) → List (List Char)
  | [] => []
  | (key, item) :: rest =>
    (stringChars key ++ ':' :: ' ' :: prettyChars level item) :: prettyMembers level rest

end

def pretty (j : Json) : String := String.ofList (j.prettyChars 0)

end ClaimQueue.Json
