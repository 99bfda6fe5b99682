import ClaimQueue.Broker.Calls
import ClaimQueue.CommandLine.Invocation
import ClaimQueue.CommandLine.Surroundings
import ClaimQueue.Fleet.Patrol
import ClaimQueue.Fleet.Reaper
import ClaimQueue.Handler.Child
import ClaimQueue.Ulid
import ClaimQueue.Worker.Run

/-! What each command does. The result is the exit status of the program. -/

namespace ClaimQueue

namespace CommandLine

namespace Errand

def settings (b : BrokerOptions) (consumer : String) : Broker.Settings :=
  { url := b.url, space := b.space, consumer, retry := ⟨.ofNat b.maxRetry⟩ }

/-- Connects under a name, or under one of the process's own. -/
def connect (b : BrokerOptions) (consumer : Option String) : Job Broker.Settings := do
  let consumer ← match consumer with
    | some name => pure name
    | none => ask .processName
  let s := settings b consumer
  match ← ExceptT.lift (onBroker (Broker.Calls.connect s).run) with
  | .ok () => return s
  | .error e => throw (.unreachable b.url e)

def call (rounds : Nat) (s : Broker.Settings) (c : QueueCall) : Job c.Value :=
  tryQueue (Broker.answer rounds s c)

def freshUlid : Job Ulid := do
  let now ← ask (.broker .clock)
  let random ← ask .random
  return .ofInstant now random

def printJson (j : Json) : Job Unit := ask (.print j.pretty)

def kindOf (text : String) : Job TaskKind :=
  match TaskKind.ofText? text with
  | some kind => pure kind
  | none => throw (.unknownKind text)

/-! Submitting and reading. -/

def payloadText (o : EnqueueOptions) : Job (Option String) := do
  match o.payload, o.payloadFile with
  | some text, _ => return some text
  | none, some path => match ← ask (.readText path) with
    | .ok text => return some text
    | .error detail => throw (.unreadable path detail)
  | none, none => return none

/-- The payload that a text stands for; no text is the empty payload. -/
def payloadOf : Option String → Except Error Payload
  | none => .ok []
  | some text => match Json.Decoder.payload.ofText text with
    | .ok payload => .ok payload
    | .error fault => .error (.payload fault)

/-- A task as it is submitted. -/
def taskOf (kind : TaskKind) (id : String) (payload : Payload) (requires : String)
    (now : Instant) : Task where
  kind := kind
  id := id
  payload := payload
  requires := .ofText requires
  attempts := 0
  createdAt := now
  schemaVersion := Task.supportedSchema

def enqueue (rounds : Nat) (b : BrokerOptions) (o : EnqueueOptions) : Job Nat := do
  let kind ← kindOf o.kind
  let payload ← ExceptT.mk (pure (payloadOf (← payloadText o)))
  let id ← match o.id with
    | some id => pure id
    | none => do pure (← freshUlid).taskId
  let now ← ask (.broker .clock)
  let s ← connect b none
  call rounds s (.enqueue (taskOf kind id payload o.requires now))
  match o.waitSeconds with
  | none =>
    ask (.print id)
    return 0
  | some n => match ← call rounds s (.awaitResult id (.ofSeconds n)) with
    | some r =>
      printJson r.toJson
      return 0
    | none =>
      ask (.remark ("no result for " ++ id ++ " after " ++ toString n ++ "s"))
      return 1

def stored (id : String) : Job (Option TaskResult) :=
  ExceptT.mk do
    match ← onBroker (Broker.Results.get id).run with
    | .ok r => return .ok r
    | .error e => return .error (.store e)

def find (rounds : Nat) (b : BrokerOptions) (o : ResultOptions) : Job (Option TaskResult) := do
  match o.directory with
  | some directory =>
    inDirectory directory Files.prepare
    inDirectory directory (Files.get o.id)
  | none =>
    let s ← connect b none
    if o.waitSeconds = 0 then stored o.id
    else call rounds s (.awaitResult o.id (.ofSeconds o.waitSeconds))

def result (rounds : Nat) (b : BrokerOptions) (o : ResultOptions) : Job Nat := do
  match ← find rounds b o with
  | some r =>
    printJson r.toJson
    return 0
  | none =>
    ask (.remark ("no result for " ++ o.id))
    return 1

/-- One result of a listing is written to the directory; an unreadable one is passed over. -/
def exportRound (rounds : Nat) (directory : String) (kind : Option TaskKind)
    (scan : Broker.Results.Scan) : Job (Broker.Results.Scan ⊕ Unit) := do
  match ← ExceptT.lift (onBroker (scan.next rounds)) with
  | none => return .inr ()
  | some (item, scan) =>
    match item with
    | .ok r => if r.matchesKind kind then inDirectory directory (Files.save r)
    | .error e => ask (.remark ("skipping unreadable result: " ++ e.message))
    return .inl scan

def exportAll (rounds : Nat) (b : BrokerOptions) (o : ExportOptions) : Job Nat := do
  let kind ← match o.kind with
    | some text => do pure (some (← kindOf text))
    | none => pure none
  inDirectory o.directory Files.prepare
  let _ ← connect b none
  Program.tryLoop (exportRound rounds o.directory kind) rounds {}
  return 0

def status (rounds : Nat) (b : BrokerOptions) : Job Nat := do
  let s ← connect b none
  let counts : QueueCounts ← call rounds s .counts
  printJson counts.toJson
  return 0

/-! Dead letters. -/

def letters (rounds : Nat) (b : BrokerOptions) (limit : Nat) : Job Nat := do
  let s ← connect b none
  let found : List DeadLetter ← call rounds s (.deadLetters limit)
  printJson (.array (found.map DeadLetter.toJson))
  return 0

def replay (rounds : Nat) (b : BrokerOptions) (id : String) : Job Nat := do
  let s ← connect b none
  let found : Bool ← call rounds s (.replay id)
  if found then return 0 else throw (.noLetter id)

def discard (rounds : Nat) (b : BrokerOptions) (id : String) : Job Nat := do
  let s ← connect b none
  let found : Bool ← call rounds s (.discard id)
  if found then return 0 else throw (.noLetter id)

/-! Workers, spawners and reapers. -/

/-- How messages call the payload of a candidate. -/
def requestName : String := "evoq_core::ports::sandbox::SandboxRequest"

def runner (o : WorkerOptions) : Child.Runner :=
  ⟨o.program, o.arguments, .ofSeconds o.candidateSeconds⟩

def workerConfig (o : WorkerOptions) : Worker.Config :=
  let c : Worker.Config := {}
  let c := c.withTasks o.tasks
  { c with
    caps := .ofText o.caps
    allow := (o.handlers.filter fun s => !(Text.trim s.toList).isEmpty).map
      (Text.trimmedPieces ',')
    idleLimit := .ofSeconds o.idleSeconds
    uptimeLimit := o.uptimeSeconds.map .ofSeconds }

/-- A worker that runs candidates and nothing else. -/
def template (endings : Child.Runner → SandboxRequest → Child.Ending) (o : WorkerOptions) :
    Except Error Worker.Template :=
  let r := runner o
  let h := (r.sandbox (endings r)).handler requestName "execute" (.ofText o.provides)
  match Worker.Template.build ⟨[h]⟩ (workerConfig o) (some [.execute]) with
  | .ok t => .ok t
  | .error kinds => .error (.lacking kinds)

def workerAsk (rounds : Nat) (s : Broker.Settings) :
    (q : Worker.Ask) → Program asks q.Answer
  | .stopSeen => ask .stopSeen
  | .elapsed => ask (.broker .elapsed)
  | .clock => ask (.broker .clock)
  | .pop wait => unlessStopped (Broker.answer rounds s (.pop true wait))
  | .release id => onBroker (Broker.answer rounds s (.release id))
  | .ack id => onBroker (Broker.answer rounds s (.ack id))
  | .publish r => onBroker (Broker.answer rounds s (.publish r))
  | .labour work => do
    ask (.broker (.pause work.takes))
    return work.outcome
  | .pause span => ask (.broker (.pause span))

/-- A claim that the worker leaves behind keeps its name in the group, until a reaper has taken the
claim back. -/
def worker (rounds : Nat) (endings : Child.Runner → SandboxRequest → Child.Ending)
    (b : BrokerOptions) (o : WorkerOptions) : Job Nat := do
  let id ← match o.id with
    | some id => pure id
    | none => do pure (← freshUlid).workerId
  let s ← connect b (some id)
  let t ← ExceptT.mk (pure (template endings o))
  let exit ← ExceptT.lift ((Worker.run rounds t).lower (workerAsk rounds s))
  let _ ← ExceptT.lift (onBroker (Broker.Calls.retireConsumer s).run)
  match exit with
  | .ok _ => return 0
  | .error e => return e.exitCode

def patrolAsk (round : Program asks Unit) : (q : Patrol.Ask) → Program asks q.Answer
  | .elapsed => ask (.broker .elapsed)
  | .stopSeen => ask .stopSeen
  | .until due => ask (.until due)
  | .round => round

/-- Rounds until told to stop. -/
def patrol (rounds : Nat) (period : Span) (round : Program asks Unit) : Job Unit :=
  if period.isZero then throw (.fault Patrol.noPeriod)
  else ExceptT.lift ((Patrol.run rounds period).lower (patrolAsk round))

def reclaimConfig (o : ReclaimOptions) : ReclaimConfig := ⟨.ofSeconds o.idleSeconds, o.batch⟩

/-- The words for each worker, but for its id. -/
def workerWords (b : BrokerOptions) (more : List String) : List String :=
  ["--broker-url", b.url, "--namespace", b.space, "--max-retry", toString b.maxRetry, "worker"] ++
    more

def launch (words : List String) : Job String := do
  let id := (← freshUlid).workerId
  match ← ask (.spawn (words ++ ["--worker-id", id])) with
  | .ok () => return id
  | .error detail => throw (.fault detail)

def launcherAsk (words : List String) : (c : LauncherCall) → Program asks c.Answer
  | .live => ask .running
  | .launch => do
    match ← (launch words).run with
    | .ok id => return .ok id
    | .error e => return .error (.spawn e.message)

def spawnerConfig (o : SpawnerOptions) : Spawner.Config where
  label := o.label
  poll := .ofMillis o.pollMillis
  desiredIdle := o.desiredIdle
  maxParallel := o.maxParallel
  reclaim := if o.noReclaim then none else some (reclaimConfig o.reclaim)

def spawnerAsk (rounds : Nat) (s : Broker.Settings) (words : List String) :
    (q : Spawner.Ask) → Program asks q.Answer
  | .queue c => onBroker (Broker.answer rounds s c)
  | .launcher c => launcherAsk words c

def spawner (rounds : Nat) (b : BrokerOptions) (o : SpawnerOptions) : Job Nat := do
  let s ← connect b none
  let c := spawnerConfig o
  patrol rounds c.poll do
    let _ ← (Spawner.tick c).run.lower (spawnerAsk rounds s (workerWords b o.workerWords))
    return ()
  return 0

def reaper (rounds : Nat) (b : BrokerOptions) (o : ReaperOptions) : Job Nat := do
  let s ← connect b none
  let c : Reaper.Config := ⟨.ofSeconds o.intervalSeconds, reclaimConfig o.reclaim⟩
  patrol rounds c.poll do
    let _ ← (Reaper.tick c).run.lower fun q => onBroker (Broker.answer rounds s q)
    return ()
  return 0

end Errand

/-- Carries out an invocation. `endings` says what becomes of candidates. -/
def Invocation.run (rounds : Nat) (endings : Child.Runner → SandboxRequest → Child.Ending)
    (i : Invocation) : Job Nat :=
  match i.action with
  | .worker o => Errand.worker rounds endings i.broker o
  | .spawner o => Errand.spawner rounds i.broker o
  | .reaper o => Errand.reaper rounds i.broker o
  | .enqueue o => Errand.enqueue rounds i.broker o
  | .result o => Errand.result rounds i.broker o
  | .export o => Errand.exportAll rounds i.broker o
  | .status => Errand.status rounds i.broker
  | .letters limit => Errand.letters rounds i.broker limit
  | .replay id => Errand.replay rounds i.broker id
  | .discard id => Errand.discard rounds i.broker id

/-- The exit status of a command. -/
def exitCode : Except Error Nat → Nat
  | .ok code => code
  | .error e => e.exitCode

end CommandLine

end ClaimQueue
