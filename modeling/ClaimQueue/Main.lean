import ClaimQueue.Broker.Address
import ClaimQueue.Broker.Frame
import ClaimQueue.CommandLine.Errand
import ClaimQueue.CommandLine.Usage
import Std.Async.DNS
import Std.Async.Signal
import Std.Async.TCP
import Std.Async.Timer
import Std.Time.DateTime.Timestamp

/-! The program itself: commands run against the clock, the network and the files of this machine.
It starts no other process, so it runs no candidates, and a spawner's workers fail to start. -/

namespace ClaimQueue

namespace Machine

open Std.Async

structure Connection where
  socket : TCP.Socket.Client
  unread : IO.Ref (List UInt8)

structure State where
  settings : IO.Ref Broker.Settings
  /-- For all commands but waiting reads. -/
  common : IO.Ref (Option Connection)
  waiting : IO.Ref (Option Connection)
  /-- Ends when told to stop. -/
  stop : IO.Ref (Option (AsyncTask Int))

def now : IO Instant := do
  let stamp ← Std.Time.Timestamp.now
  let nanos := stamp.toNanosecondsSinceUnixEpoch.val.toNat
  return (Instant.epoch.later? ⟨nanos⟩).getD .epoch

def random (count : Nat) : IO Nat := do
  let bytes ← IO.getRandomBytes (USize.ofNat count)
  return bytes.toList.foldl (fun n b => n * 256 + b.toNat) 0

/-- Reads until so many replies are there. -/
partial def receive (c : Connection) (count : Nat) : Async (List Broker.Frame.Result) := do
  match Broker.Frame.replies count (← c.unread.get) with
  | .whole replies rest =>
    c.unread.set rest
    return replies
  | .broken => throw (IO.userError "unreadable reply")
  | .short => match ← c.socket.recv? 65536 with
    | none => throw (IO.userError "connection closed")
    | some bytes =>
      c.unread.modify (· ++ bytes.toList)
      receive c count

def exchange (c : Connection) (words : List (List (List UInt8))) :
    Async (List Broker.Frame.Result) := do
  c.socket.send ⟨(words.flatMap Broker.Frame.ofWords).toArray⟩
  receive c words.length

def connectTo (a : Broker.Address) (place : Std.Net.IPAddr) : Async Connection := do
  let socket ← TCP.Socket.Client.mk
  let service := UInt16.ofNat a.service
  socket.connect (match place with
    | .v4 address => .v4 ⟨address, service⟩
    | .v6 address => .v6 ⟨address, service⟩)
  let c : Connection := ⟨socket, ← IO.mkRef []⟩
  let greeting := a.greeting.map fun words => words.map Text.Utf8.bytes
  for r in ← exchange c greeting do
    match r with
    | .ok _ => pure ()
    | .error e => throw (IO.userError e.detail)
  return c

/-- Tries the addresses of a host in turn. -/
def firstOf (a : Broker.Address) : List Std.Net.IPAddr → Async Connection
  | [] => throw (IO.userError "no address for the host")
  | [place] => connectTo a place
  | place :: rest => tryCatch (connectTo a place) fun _ => firstOf a rest

def dial (url : String) : Async Connection := do
  match Broker.Address.ofUrl? url with
  | none => throw (IO.userError "not a broker's URL")
  | some a => firstOf a (← DNS.getAddrInfo a.host (toString a.service)).toList

/-- The connection, opened anew if it was lost. -/
def obtain (m : State) (place : IO.Ref (Option Connection)) : Async Connection := do
  match ← place.get with
  | some c => return c
  | none =>
    let c ← dial (← m.settings.get).url
    place.set (some c)
    return c

abbrev Spoken := Except Broker.LinkFault (List Broker.Frame.Result)

def speak (m : State) (place : IO.Ref (Option Connection)) (words : List (List (List UInt8))) :
    Async Spoken :=
  tryCatch (do return .ok (← exchange (← obtain m place) words)) fun e => do
    place.set none
    return .error (.lost (toString e))

def single (r : Spoken) : Except Broker.LinkFault Broker.Reply := do
  match ← r with
  | [one] => one
  | _ => .error (.lost "no reply")

def text (s : String) : List (List UInt8) := [Text.Utf8.bytes s]

def last (r : Spoken) : Except Broker.LinkFault Broker.Reply := do
  match (← r).getLast? with
  | some one => one
  | none => .error (.lost "no reply")

/-- At least for that long. -/
def pause (s : Span) : Async Unit :=
  Std.Async.sleep (.ofNat (min ((s.nanos + 999999) / 1000000) (2 ^ 40)))

def elapsed : IO Span := do return ⟨← IO.monoNanosNow⟩

def opened (m : State) : Async (Except String Unit) := do
  let place := if (← m.common.get).isSome then m.waiting else m.common
  tryCatch (do
    let _ ← obtain m place
    return .ok ()) fun e => return .error (toString e)

/-- Sends commands and waits for the reply to each. -/
def speakAll (m : State) (place : IO.Ref (Option Connection)) (cs : List Broker.Command) :
    Async Spoken := do
  let s ← m.settings.get
  speak m place (cs.map (·.bytes s))

def transact (m : State) (cs : List Broker.Command) :
    Async (Except Broker.LinkFault Broker.Reply) := do
  let s ← m.settings.get
  return last (← speak m m.common ([text "MULTI"] ++ cs.map (·.bytes s) ++ [text "EXEC"]))

def broker (m : State) (q : Broker.Ask) : Async q.Answer :=
  match q with
  | .connect s => do
    m.settings.set s
    opened m
  | .send c => do return single (← speakAll m m.common [c])
  | .sendWaiting c => do return single (← speakAll m m.waiting [c])
  | .transaction cs => transact m cs
  | .together cs => do return (← speakAll m m.common cs).bind Broker.Frame.collect
  | .elapsed => do elapsed
  | .clock => do now
  | .pause span => pause span

/-- Ends when the user interrupts; from the first time on that it is asked for. -/
def stopTask (m : State) : IO (AsyncTask Int) := do
  match ← m.stop.get with
  | some t => return t
  | none =>
    let waiter ← Signal.Waiter.mk .sigint false
    let t ← waiter.wait
    m.stop.set (some t)
    return t

/-- What `action` gives, or nothing if told to stop first. -/
def unlessStopped {α : Type} (m : State) (action : Async α) : IO (Option α) := do
  let stop ← stopTask m
  if ← IO.hasFinished stop then return none
  let told : Async (Option α) := do
    let _ ← Async.ofAsyncTask stop
    return none
  (Async.race told (some <$> action)).block

/-- A reply that comes too late belongs to nobody, so the connection goes. -/
def brokerUnlessStopped (m : State) (q : Broker.Ask) : IO (Option q.Answer) := do
  let answer ← unlessStopped m (broker m q)
  if answer.isNone then
    m.waiting.set none
    m.common.set none
  return answer

def attempt {α : Type} (action : IO α) : IO (Except String α) :=
  try return .ok (← action) catch e => return .error (toString e)

def readIfThere (path : String) : IO (Except String (Option (List UInt8))) :=
  try return .ok (some (← IO.FS.readBinFile path).toList)
  catch
    | .noFileOrDirectory _ _ _ => return .ok none
    | e => return .error (toString e)

def files (directory : String) (q : Files.Ask) : IO q.Answer :=
  let path (name : String) : String := directory ++ "/" ++ name
  match q with
  | .create => attempt (IO.FS.createDirAll directory)
  | .names => return .error "directories are not listed"
  | .read name => readIfThere (path name)
  | .openTemporary => attempt do
    let name := ".result-" ++ toString (← random 8) ++ ".tmp"
    let _ ← IO.FS.Handle.mk (path name) .writeNew
    return name
  | .write name bytes => attempt (IO.FS.writeBinFile (path name) ⟨bytes.toArray⟩)
  | .sync name => attempt do (← IO.FS.Handle.mk (path name) .append).flush
  | .rename old new => attempt (IO.FS.rename (path old) (path new))
  | .remove name => attempt (IO.FS.removeFile (path name))

/-- This process's number, as the system tells it. -/
def processNumber : IO String :=
  try return String.ofList ((← IO.FS.readFile "/proc/self/stat").toList.takeWhile Char.isDigit)
  catch _ => return toString (← random 4)

def answer (m : State) (q : CommandLine.Ask) : IO q.Answer :=
  match q with
  | .broker q => (broker m q).block
  | .brokerUnlessStopped q => brokerUnlessStopped m q
  | .files directory q => files directory q
  | .readText path => attempt (IO.FS.readFile path)
  | .print line => IO.println line
  | .remark line => IO.eprintln line
  | .processName => do return "evoq-" ++ (← processNumber)
  | .random => random 10
  | .stopSeen => do IO.hasFinished (← stopTask m)
  | .until due => do
    let left := due.less (← elapsed)
    return (← unlessStopped m (pause left)).isSome
  | .spawn _ => return .error "no process can be started"
  | .running => return 0

/-- No candidate can be run. -/
def endings (r : Child.Runner) (_ : SandboxRequest) : Child.Ending :=
  .unavailable (r.program ++ ": no process can be started")

def perform {α : Type} (m : State) : Program CommandLine.asks α → IO (Option α)
  | .done a => return some a
  | .ask q next => do perform m (next (← answer m q))
  | .spent => return none

/-- No command goes on for longer. -/
def rounds : Nat := 2 ^ 62

def run (i : CommandLine.Invocation) : IO Nat := do
  let m : State := ⟨← IO.mkRef { consumer := "" }, ← IO.mkRef none, ← IO.mkRef none,
    ← IO.mkRef none⟩
  match ← perform m (i.run rounds endings).run with
  | none => return 0
  | some r =>
    match r with
    | .ok _ => pure ()
    | .error e => IO.eprintln ("Error: " ++ e.message)
    return CommandLine.exitCode r

def environment : IO CommandLine.Environment := do
  let found ← CommandLine.Invocation.grammar.variables.mapM fun name => do
    return (← IO.getEnv name).map fun value => (name, value)
  return found.filterMap id

def refuse (e : CommandLine.Refusal) : IO Nat := do
  let usage := "\n".intercalate CommandLine.Invocation.grammar.usage
  match e with
  | .help => IO.println usage
  | .version => IO.println "evoq 0.1.0"
  | .nothingGiven => IO.eprintln usage
  | e => IO.eprintln ("error: " ++ e.message ++ "\n\n" ++ usage)
  return e.exitCode

end Machine

end ClaimQueue

def main (words : List String) : IO UInt32 := do
  let environment ← ClaimQueue.Machine.environment
  let code ← match ClaimQueue.CommandLine.Invocation.ofWords environment words with
    | .ok i => ClaimQueue.Machine.run i
    | .error e => ClaimQueue.Machine.refuse e
  return .ofNat code
