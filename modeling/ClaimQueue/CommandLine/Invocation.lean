import ClaimQueue.CommandLine.Grammar

/-! What the program can be told to do. Every command takes the options that name the broker; each
may be given before the command or after it. -/

namespace ClaimQueue

namespace CommandLine

structure BrokerOptions where
  url : String
  space : String
  maxRetry : Nat
  deriving DecidableEq, Repr

structure WorkerOptions where
  caps : String
  /-- The names of the handlers that may run. -/
  handlers : Option String
  tasks : Nat
  idleSeconds : Nat
  uptimeSeconds : Option Nat
  id : Option String
  /-- Runs candidates. -/
  program : String
  arguments : List String
  provides : String
  candidateSeconds : Nat
  deriving DecidableEq, Repr

structure ReclaimOptions where
  idleSeconds : Nat
  batch : Nat
  deriving DecidableEq, Repr

structure SpawnerOptions where
  label : String
  pollMillis : Nat
  desiredIdle : Nat
  maxParallel : Nat
  noReclaim : Bool
  reclaim : ReclaimOptions
  /-- Passed on to each worker. -/
  workerWords : List String
  deriving DecidableEq, Repr

structure ReaperOptions where
  intervalSeconds : Nat
  reclaim : ReclaimOptions
  deriving DecidableEq, Repr

structure EnqueueOptions where
  kind : String
  payload : Option String
  payloadFile : Option String
  requires : String
  id : Option String
  waitSeconds : Option Nat
  deriving DecidableEq, Repr

structure ResultOptions where
  id : String
  waitSeconds : Nat
  directory : Option String
  deriving DecidableEq, Repr

structure ExportOptions where
  directory : String
  kind : Option String
  deriving DecidableEq, Repr

inductive Action where
  | worker (options : WorkerOptions)
  | spawner (options : SpawnerOptions)
  | reaper (options : ReaperOptions)
  | enqueue (options : EnqueueOptions)
  | result (options : ResultOptions)
  | export (options : ExportOptions)
  | status
  | letters (limit : Nat)
  | replay (id : String)
  | discard (id : String)
  deriving DecidableEq, Repr

structure Invocation where
  action : Action
  broker : BrokerOptions
  logLevel : String
  deriving DecidableEq, Repr

namespace Invocation

/-! The grammar. -/

def help : Parameter := { name := "help", short := some 'h', shape := .ends .help }

def version : Parameter := { name := "version", short := some 'V', shape := .ends .version }

def everywhere : List Parameter := [
  { name := "broker-url", fallback := some "EVOQ_BROKER_URL",
    default := some "redis://127.0.0.1:6379" },
  { name := "namespace", fallback := some "EVOQ_NAMESPACE", default := some "evoq" },
  { name := "max-retry", fallback := some "EVOQ_MAX_RETRY", default := some "3", reading := .word },
  { name := "log-level", short := some 'l', fallback := some "EVOQ_LOG_LEVEL",
    default := some "info" },
  help]

def command (name : String) (options : List Parameter) (operands : List Parameter := [])
    (rest : Option Parameter := none) : Command :=
  .mk name (options ++ everywhere) operands rest []

def number (name : String) (fallback : Option String) (default : Option String) : Parameter :=
  { name, fallback, default, reading := .number }

def taskId : Parameter := { name := "task_id", required := true }

def worker : Command := command "worker" [
  { name := "caps", fallback := some "EVOQ_CAPS", default := some "" },
  { name := "handlers", fallback := some "EVOQ_HANDLERS" },
  number "tasks-per-process" (some "EVOQ_TASKS_PER_PROCESS") (some "1"),
  number "idle-timeout-secs" (some "EVOQ_IDLE_TIMEOUT_SECS") (some "60"),
  number "max-uptime-secs" (some "EVOQ_MAX_UPTIME_SECS") none,
  { name := "worker-id" },
  { name := "sandbox-program", fallback := some "EVOQ_SANDBOX_PROGRAM",
    default := some "python3" },
  { name := "sandbox-arg", fallback := some "EVOQ_SANDBOX_ARGS", shape := .many (some ',') },
  { name := "sandbox-provides", fallback := some "EVOQ_SANDBOX_PROVIDES", default := some "" },
  number "sandbox-timeout-secs" (some "EVOQ_SANDBOX_TIMEOUT_SECS") (some "30")]

def reclaim : List Parameter := [
  number "reclaim-idle-secs" (some "EVOQ_RECLAIM_IDLE_SECS") (some "300"),
  number "reclaim-batch" (some "EVOQ_RECLAIM_BATCH") (some "100")]

def spawner : Command := command "spawner" ([
  { name := "class", fallback := some "EVOQ_CLASS", default := some "default" },
  number "poll-interval-ms" (some "EVOQ_POLL_INTERVAL_MS") (some "2000"),
  number "desired-idle" (some "EVOQ_DESIRED_IDLE") (some "0"),
  number "max-parallel-launch" (some "EVOQ_MAX_PARALLEL_LAUNCH") (some "4"),
  { name := "no-reclaim", shape := .switch }] ++ reclaim) []
  (some { name := "worker_args", shape := .many none })

def reaper : Command := command "reaper"
  (number "interval-secs" (some "EVOQ_REAPER_INTERVAL_SECS") (some "30") :: reclaim)

def enqueue : Command := command "enqueue" [
  { name := "kind", required := true },
  { name := "payload", excludes := some "payload-file" },
  { name := "payload-file", reading := .path },
  { name := "requires", default := some "" },
  { name := "id" },
  number "wait-secs" none none]

def result : Command := command "result" [
  number "wait-secs" none (some "0"),
  { name := "dir", reading := .path }] [taskId]

def exporting : Command := command "export" [{ name := "kind" }]
  [{ name := "dir", reading := .path, required := true }]

def deadLetter : Command := .mk "dead-letter" everywhere [] none [
  command "list" [number "limit" none (some "20")],
  command "replay" [] [taskId],
  command "discard" [] [taskId]]

def grammar : Command := .mk "evoq" (everywhere ++ [version]) [] none
  [worker, spawner, reaper, enqueue, result, exporting, command "status" [], deadLetter]

/-! From words to an invocation. What the grammar requires is there, so no value is ever missing. -/

def Found.text (f : Found) (name : String) : String := (f.text? name).getD ""

def Found.number (f : Found) (name : String) : Nat := (f.number? name).getD 0

def workerOptions (f : Found) : WorkerOptions where
  caps := Found.text f "caps"
  handlers := f.text? "handlers"
  tasks := Found.number f "tasks-per-process"
  idleSeconds := Found.number f "idle-timeout-secs"
  uptimeSeconds := f.number? "max-uptime-secs"
  id := f.text? "worker-id"
  program := Found.text f "sandbox-program"
  arguments := f.texts "sandbox-arg"
  provides := Found.text f "sandbox-provides"
  candidateSeconds := Found.number f "sandbox-timeout-secs"

def reclaimOptions (f : Found) : ReclaimOptions :=
  ⟨Found.number f "reclaim-idle-secs", Found.number f "reclaim-batch"⟩

def spawnerOptions (f : Found) : SpawnerOptions where
  label := Found.text f "class"
  pollMillis := Found.number f "poll-interval-ms"
  desiredIdle := Found.number f "desired-idle"
  maxParallel := Found.number f "max-parallel-launch"
  noReclaim := f.has "no-reclaim"
  reclaim := reclaimOptions f
  workerWords := f.texts "worker_args"

def enqueueOptions (f : Found) : EnqueueOptions where
  kind := Found.text f "kind"
  payload := f.text? "payload"
  payloadFile := f.text? "payload-file"
  requires := Found.text f "requires"
  id := f.text? "id"
  waitSeconds := f.number? "wait-secs"

def action? (f : Found) : Option Action :=
  match f.path with
  | ["worker"] => some (.worker (workerOptions f))
  | ["spawner"] => some (.spawner (spawnerOptions f))
  | ["reaper"] => some (.reaper ⟨Found.number f "interval-secs", reclaimOptions f⟩)
  | ["enqueue"] => some (.enqueue (enqueueOptions f))
  | ["result"] =>
    some (.result ⟨Found.text f "task_id", Found.number f "wait-secs", f.text? "dir"⟩)
  | ["export"] => some (.export ⟨Found.text f "dir", f.text? "kind"⟩)
  | ["status"] => some .status
  | ["dead-letter", "list"] => some (.letters (Found.number f "limit"))
  | ["dead-letter", "replay"] => some (.replay (Found.text f "task_id"))
  | ["dead-letter", "discard"] => some (.discard (Found.text f "task_id"))
  | _ => none

def ofFound (f : Found) : Except Refusal Invocation :=
  match action? f with
  | none => .error .commandMissing
  | some action => .ok {
      action
      broker := ⟨Found.text f "broker-url", Found.text f "namespace", Found.number f "max-retry"⟩
      logLevel := Found.text f "log-level" }

/-- Reads the words after the program's name. -/
def ofWords (env : Environment) (words : List String) : Except Refusal Invocation := do
  ofFound (← grammar.read env words)

end Invocation

end CommandLine

end ClaimQueue
