import ClaimQueue.CommandLine.Refusal
import ClaimQueue.Number.Digits
import ClaimQueue.Text.Pieces

/-! Grammars of command lines. A command has options, operands in order and perhaps commands of its
own; after two hyphens alone every word is an operand. What is not given may come from a variable of
the environment, else from a default. An option's words are read only when the next one begins, so
of two faults the later can be the one that is reported. -/

namespace ClaimQueue

namespace CommandLine

/-- How a word is read. -/
inductive Reading where
  | text
  | path
  /-- A number of 32 bits. -/
  | word
  /-- A number of 64 bits. -/
  | number
  deriving DecidableEq, Repr

inductive Value where
  | text (s : String)
  | number (n : Nat)
  deriving DecidableEq, Repr

def Reading.read : Reading → String → Except Refusal Value
  | .text, s => .ok (.text s)
  | .path, s => if s.isEmpty then .error .valueMissing else .ok (.text s)
  | .word, s => match Number.signed? s.toList with
    | some (.ofNat n) => if n < 2 ^ 32 then .ok (.number n) else .error .badValue
    | _ => .error .badValue
  | .number, s => match Number.unsigned? (2 ^ 64) s.toList with
    | some n => .ok (.number n)
    | none => .error .badValue

inductive Shape where
  | single
  /-- Any number of words; a separator parts further values in one word. -/
  | many (separator : Option Char)
  | switch
  /-- Ends the reading. -/
  | ends (refusal : Refusal)
  deriving DecidableEq, Repr

structure Parameter where
  name : String
  short : Option Char := none
  /-- The variable of the environment that may hold it. -/
  fallback : Option String := none
  default : Option String := none
  reading : Reading := .text
  shape : Shape := .single
  required : Bool := false
  /-- The name of one that may not be given too. -/
  excludes : Option String := none
  deriving Repr

def Parameter.takesValue (p : Parameter) : Bool :=
  match p.shape with
  | .single | .many _ => true
  | .switch | .ends _ => false

inductive Command where
  | mk (name : String) (options operands : List Parameter) (rest : Option Parameter)
      (commands : List Command)

namespace Command

def name : Command → String | mk name _ _ _ _ => name

def options : Command → List Parameter | mk _ options _ _ _ => options

def operands : Command → List Parameter | mk _ _ operands _ _ => operands

/-- Takes all words after two hyphens, and no others. -/
def rest : Command → Option Parameter | mk _ _ _ rest _ => rest

/-- If there are any, one of them must be given. -/
def commands : Command → List Command | mk _ _ _ _ commands => commands

def parameters (c : Command) : List Parameter := c.options ++ c.operands ++ c.rest.toList

def find? (c : Command) (name : String) : Option Command :=
  c.commands.find? fun sub => sub.name == name

def helpWord : String := "help"

/-- A command with commands also has one that explains them. -/
def isCommand (c : Command) (name : String) : Bool :=
  !c.commands.isEmpty && (name == helpWord || (c.find? name).isSome)

end Command

/-- Where a value comes from. The later ones count more. -/
inductive Origin where
  | default
  | environment
  | line
  deriving DecidableEq, Repr

def Origin.rank : Origin → Nat
  | .default => 0
  | .environment => 1
  | .line => 2

structure Given where
  origin : Origin
  values : List Value
  deriving DecidableEq, Repr

/-- What one command was given, by parameter. -/
abbrev Level := List (String × Given)

abbrev Environment := List (String × String)

/-- An option whose words are not read yet. -/
structure Pending where
  parameter : Parameter
  words : List String

structure State where
  given : Level := []
  pending : Option Pending := none
  /-- The next word is a value, unless it looks like an option. -/
  expecting : Bool := false
  /-- Two hyphens were seen. -/
  trailing : Bool := false
  /-- How many operands were seen. -/
  operands : Nat := 0

namespace State

def split (p : Parameter) (words : List String) : List String :=
  match p.shape with
  | .many (some separator) =>
    words.flatMap fun w => (Text.pieces separator w.toList).map String.ofList
  | _ => words

def accept (origin : Origin) (p : Parameter) (words : List String) (s : State) :
    Except Refusal State := do
  if p.takesValue && words.isEmpty then throw .valueMissing
  let earlier := s.given.lookup p.name
  let values ← match p.shape, earlier with
    | .ends refusal, _ => throw refusal
    | .single, some _ | .switch, some _ => throw .conflict
    | .many _, some g => do pure (g.values ++ (← (split p words).mapM p.reading.read))
    | _, none => (split p words).mapM p.reading.read
  return { s with given := (p.name, ⟨origin, values⟩) :: s.given.filter (·.1 != p.name) }

/-- Reads what is pending. -/
def resolve (s : State) : Except Refusal State :=
  match s.pending with
  | none => .ok s
  | some ⟨p, words⟩ => accept .line p words { s with pending := none }

/-- An option begins, with a value attached to it or without. -/
def start (p : Parameter) (attached : Option String) (s : State) : Except Refusal State := do
  let s ← s.resolve
  match p.takesValue, attached with
  | true, some w => return { ← accept .line p [w] s with expecting := false }
  | true, none => return { s with pending := some ⟨p, []⟩, expecting := true }
  | false, _ => return { ← accept .line p [] s with expecting := false }

/-- The value of the pending option. -/
def value (w : String) (s : State) : State :=
  { s with
    pending := s.pending.map fun p => { p with words := p.words ++ [w] }
    expecting := false }

/-- A word that belongs nowhere. -/
def stray (c : Command) (w : String) (s : State) : Refusal :=
  if c.commands.isEmpty || (s.trailing && c.isCommand w) then .unknownArgument
  else .unknownCommand

def hold (p : Parameter) (w : String) (s : State) : Except Refusal State := do
  match s.pending with
  | some q => if q.parameter.name == p.name then return s.value w else
    let s ← s.resolve
    return { s with pending := some ⟨p, [w]⟩, expecting := false }
  | none => return { s with pending := some ⟨p, [w]⟩, expecting := false }

def operand (c : Command) (w : String) (s : State) : Except Refusal State :=
  match c.rest, s.trailing, c.operands[s.operands]? with
  | some p, true, _ => s.hold p w
  | _, _, some p => do
    let s ← s.resolve
    return { s with
      pending := some ⟨p, [w]⟩, expecting := false, operands := s.operands + 1 }
  | _, _, none => .error (s.stray c w)

/-- Name and attached value of a word that begins with two hyphens. -/
def long? : List Char → Option (List Char × Option (List Char))
  | '-' :: '-' :: c :: cs =>
    let name := (c :: cs).takeWhile (· ≠ '=')
    match (c :: cs).dropWhile (· ≠ '=') with
    | [] => some (name, none)
    | _ :: value => some (name, some value)
  | _ => none

/-- The letters of a word that begins with one hyphen. -/
def short? : List Char → Option (List Char)
  | '-' :: c :: cs => if c = '-' then none else some (c :: cs)
  | _ => none

def longOption (c : Command) (name : List Char) (attached : Option (List Char)) (s : State) :
    Except Refusal State :=
  match c.options.find? fun p => p.name.toList == name with
  | none => .error .unknownArgument
  | some p =>
    if !p.takesValue && attached.isSome then .error .valueUnwanted
    else s.start p (attached.map String.ofList)

/-- What follows an option's letter in the same word. -/
def attachedValue : List Char → Option String
  | [] => none
  | '=' :: cs => some (String.ofList cs)
  | cs => some (String.ofList cs)

def shortOptions (c : Command) : List Char → State → Except Refusal State
  | [], s => .ok s
  | letter :: rest, s =>
    match c.options.find? fun p => p.short == some letter with
    | none => .error .unknownArgument
    | some p =>
      if p.takesValue then s.start p (attachedValue rest)
      else do shortOptions c rest (← s.start p none)

def step (c : Command) (w : String) (s : State) : Except Refusal State :=
  if s.trailing then s.operand c w
  else if w = "--" then .ok { s with trailing := true }
  else match long? w.toList, short? w.toList with
    | some (name, attached), _ => s.longOption c name attached
    | none, some letters => shortOptions c letters s
    | none, none => if s.expecting then .ok (s.value w) else s.operand c w

/-- Parameters not given yet, from where `source` says. -/
def fill (origin : Origin) (source : Parameter → Option String) :
    List Parameter → State → Except Refusal State
  | [], s => .ok s
  | p :: ps, s =>
    match (s.given.lookup p.name).isSome, source p with
    | false, some w => do fill origin source ps (← s.accept origin p [w])
    | _, _ => fill origin source ps s

def holds (s : State) (name : String) : Bool :=
  match s.given.lookup name with
  | some g => g.origin != .default
  | none => false

def check (c : Command) (below : Bool) (s : State) : Except Refusal Level :=
  let present (p : Parameter) : Bool := s.holds p.name
  let excluded (p : Parameter) : Bool := (p.excludes.map s.holds).getD false
  if !below && !c.commands.isEmpty then
    if c.parameters.any present then .error .commandMissing else .error .nothingGiven
  else if c.parameters.any fun p => present p && excluded p then .error .conflict
  else if c.parameters.any fun p => p.required && !present p then .error .argumentMissing
  else .ok s.given

/-- The end of a command's words; `below` tells whether one of its commands took over. -/
def finish (env : Environment) (c : Command) (below : Bool) (s : State) :
    Except Refusal Level := do
  let s ← s.resolve
  let s ← fill .environment (fun p => p.fallback.bind fun v => env.lookup v) c.parameters s
  let s ← fill .default (·.default) c.parameters s
  s.check c below

end State

/-- The words after the one that asks for help: the commands to be explained. -/
def helpFor : Command → List String → Refusal
  | _, [] => .help
  | c, w :: rest =>
    if c.isCommand w then
      match c.find? w with
      | some sub => helpFor sub rest
      | none => if rest.isEmpty then .help else .unknownCommand
    else .unknownCommand

/-- The commands on the line, outermost first, and what each was given. -/
structure Found where
  path : List String := []
  levels : List Level

def readFrom (env : Environment) (c : Command) (s : State) :
    List String → Except Refusal Found
  | [] => do return ⟨[], [← s.finish env c false]⟩
  | w :: rest =>
    if !s.trailing && !s.expecting && c.isCommand w then
      match c.find? w with
      | none => .error (helpFor c rest)
      | some sub => do
        let inner ← readFrom env sub {} rest
        return ⟨sub.name :: inner.path, (← s.finish env c true) :: inner.levels⟩
    else do readFrom env c (← s.step c w) rest

def Command.read (c : Command) (env : Environment) (words : List String) :
    Except Refusal Found :=
  readFrom env c {} words

namespace Found

/-- An inner command's word counts more, unless it comes from farther away. -/
def outweigh (outer : Option Given) (inner : Option Given) : Option Given :=
  match outer, inner with
  | some a, some b => if b.origin.rank < a.origin.rank then some a else some b
  | none, b => b
  | a, none => a

def given? (f : Found) (name : String) : Option Given :=
  f.levels.foldl (fun found level => outweigh found (level.lookup name)) none

def values (f : Found) (name : String) : List Value :=
  ((f.given? name).map (·.values)).getD []

def text? (f : Found) (name : String) : Option String :=
  match f.values name with
  | .text s :: _ => some s
  | _ => none

def number? (f : Found) (name : String) : Option Nat :=
  match f.values name with
  | .number n :: _ => some n
  | _ => none

def texts (f : Found) (name : String) : List String :=
  (f.values name).filterMap fun
    | .text s => some s
    | .number _ => none

def has (f : Found) (name : String) : Bool := (f.given? name).isSome

end Found

end CommandLine

end ClaimQueue
