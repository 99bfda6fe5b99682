import ClaimQueue.Broker.Link
import ClaimQueue.Files.Results

/-! What a command asks of the machine it runs on, and why it fails. -/

namespace ClaimQueue

namespace CommandLine

inductive Ask where
  | broker (q : Broker.Ask)
  /-- The same, but no answer if told to stop first. -/
  | brokerUnlessStopped (q : Broker.Ask)
  | files (directory : String) (q : Files.Ask)
  /-- The text of a file. -/
  | readText (path : String)
  /-- A line of output. -/
  | print (line : String)
  /-- A line for whoever called. -/
  | remark (line : String)
  /-- A name that no other process has at this time. -/
  | processName
  /-- Eighty random bits. -/
  | random
  | stopSeen
  /-- Waits until then; `false` if told to stop first. -/
  | until (due : Span)
  /-- Starts this program once more, with other words. -/
  | spawn (words : List String)
  /-- How many of those started are still running. -/
  | running

abbrev Ask.Answer : Ask → Type
  | .broker q => q.Answer
  | .brokerUnlessStopped q => Option q.Answer
  | .files _ q => q.Answer
  | .readText _ => Except String String
  | .print _ | .remark _ => Unit
  | .processName => String
  | .random | .running => Nat
  | .stopSeen | .until _ => Bool
  | .spawn _ => Except String Unit

abbrev asks : Interface := ⟨Ask, Ask.Answer⟩

def ask (q : Ask) : Program asks q.Answer := Program.call (I := asks) q

inductive Error where
  | unknownKind (text : String)
  | unreadable (path detail : String)
  | payload (fault : Json.Fault)
  | unreachable (url : String) (error : QueueError)
  | queue (error : QueueError)
  | store (error : StoreError)
  | noLetter (id : String)
  | lacking (kinds : List TaskKind)
  /-- The command broke down. -/
  | fault (message : String)
  deriving DecidableEq, Repr

namespace Error

/-- A message and what caused it. -/
def caused (context cause : String) : String := context ++ "\n\nCaused by:\n    " ++ cause

def message : Error → String
  | .unknownKind text => TaskKind.unknownMessage text
  | .unreadable path detail => caused ("failed to read " ++ path) detail
  | .payload f => caused "payload must be a JSON object" f.message
  | .unreachable url error => caused ("failed to connect to broker at " ++ url) error.message
  | .queue error => error.message
  | .store error => error.message
  | .noLetter id => "no dead-lettered task " ++ id
  | .lacking kinds =>
    "no handler registered for task kinds [" ++ ", ".intercalate (kinds.map TaskKind.title) ++ "]"
  | .fault message => message

def exitCode : Error → Nat
  | .fault _ => 101
  | _ => 1

end Error

/-- Work that a failure ends. -/
abbrev Job (α : Type) := ExceptT Error (Program asks) α

/-- A program that talks to the broker, to its end. -/
def onBroker {α : Type} (p : Program Broker.asks α) : Program asks α :=
  p.lower fun q => ask (.broker q)

/-- The same, given up when told to stop. -/
def unlessStopped {α : Type} : Program Broker.asks α → Program asks (Option α)
  | .done a => .done (some a)
  | .ask q next => .ask (I := asks) (.brokerUnlessStopped q) fun
    | some r => unlessStopped (next r)
    | none => .done none
  | .spent => .spent

def inDirectory {α : Type} (directory : String) (p : Files.Job α) : Job α :=
  ExceptT.mk do
    match ← p.run.lower fun q => ask (.files directory q) with
    | .ok a => return .ok a
    | .error e => return .error (.store e)

def tryQueue {α : Type} (p : Program Broker.asks (Except QueueError α)) : Job α :=
  ExceptT.mk do
    match ← onBroker p with
    | .ok a => return .ok a
    | .error e => return .error (.queue e)

end CommandLine

end ClaimQueue
