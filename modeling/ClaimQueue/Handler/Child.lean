import ClaimQueue.Handler.Sandbox
import ClaimQueue.Text.Pieces
import ClaimQueue.Text.Utf8

/-! Candidates that run as child processes. The source lies in a file, which with the entry point
follows the program's own arguments. The metrics are the last line of the output that is not blank;
of what a failing candidate reports only the tail is told. -/

namespace ClaimQueue

namespace Child

/-- How a process ended. -/
inductive Status where
  | exited (code : Nat)
  | killed (signal : Nat) (dumped : Bool)
  deriving DecidableEq, Repr

/-- The signals of the host, by number. -/
def signals : List (Nat × String) := [
  (1, "SIGHUP"), (2, "SIGINT"), (3, "SIGQUIT"), (4, "SIGILL"), (5, "SIGTRAP"), (6, "SIGABRT"),
  (7, "SIGBUS"), (8, "SIGFPE"), (9, "SIGKILL"), (10, "SIGUSR1"), (11, "SIGSEGV"), (12, "SIGUSR2"),
  (13, "SIGPIPE"), (14, "SIGALRM"), (15, "SIGTERM"), (16, "SIGSTKFLT"), (17, "SIGCHLD"),
  (18, "SIGCONT"), (19, "SIGSTOP"), (20, "SIGTSTP"), (21, "SIGTTIN"), (22, "SIGTTOU"),
  (23, "SIGURG"), (24, "SIGXCPU"), (25, "SIGXFSZ"), (26, "SIGVTALRM"), (27, "SIGPROF"),
  (28, "SIGWINCH"), (29, "SIGIO"), (30, "SIGPWR"), (31, "SIGSYS")]

def signalName (n : Nat) : String :=
  match signals.lookup n with
  | some name => " (" ++ name ++ ")"
  | none => ""

namespace Status

def isSuccess (s : Status) : Bool := s == .exited 0

def text : Status → String
  | .exited code => "exit status: " ++ toString code
  | .killed signal dumped =>
    "signal: " ++ toString signal ++ signalName signal ++ (if dumped then " (core dumped)" else "")

end Status

/-- What became of a candidate. -/
inductive Ending where
  | finished (status : Status) (output report : List UInt8)
  /-- It ran longer than allowed and was stopped. -/
  | overdue
  /-- It could not be run. -/
  | unavailable (detail : String)
  deriving DecidableEq, Repr

/-- How many bytes of a report are told. -/
def reportTail : Nat := 2000

def byteCount (cs : List Char) : Nat := (Text.Utf8.encode cs).length

/-- What follows the first bytes, if they end where a character ends. -/
def afterBytes? : (count : Nat) → List Char → Option (List Char)
  | 0, cs => some cs
  | _ + 1, [] => none
  | count + 1, c :: rest =>
    let size := (Text.Utf8.encodeChar c).length
    if size ≤ count + 1 then afterBytes? (count + 1 - size) rest else none

/-- The last `limit` bytes. A text that cannot be cut there is kept whole. -/
def tail (limit : Nat) (cs : List Char) : List Char :=
  (afterBytes? (byteCount cs - limit) cs).getD cs

def failureText (status : Status) (report : List UInt8) : String :=
  status.text ++ ": " ++
    String.ofList (Text.trim (tail reportTail (Text.Utf8.lossy report)))

def lastLine? (output : List Char) : Option (List Char) :=
  ((Text.pieces '\n' output).map Text.trim).reverse.find? (!·.isEmpty)

def metrics (output : List Char) : Except SandboxError Payload :=
  match lastLine? output with
  | none => .error (.program "no output")
  | some line => match Json.Decoder.payload.ofText (String.ofList line) with
    | .ok payload => .ok payload
    | .error fault => .error (.program ("last line is not a JSON object: " ++ fault.message))

def answer (allowed : Span) : Ending → Except SandboxError Payload
  | .unavailable detail => .error (.unavailable detail)
  | .overdue => .error (.timeout allowed)
  | .finished status output report =>
    if status.isSuccess then metrics (Text.Utf8.lossy output)
    else .error (.program (failureText status report))

/-- The program that runs candidates. -/
structure Runner where
  program : String
  arguments : List String := []
  allowed : Span

namespace Runner

/-- How long a candidate may run. -/
def limit (r : Runner) (request : SandboxRequest) : Span :=
  match request.timeoutSeconds with
  | some n => .ofSeconds n
  | none => r.allowed

/-- The arguments for a candidate whose source lies in `file`. -/
def argumentsFor (r : Runner) (file : String) (request : SandboxRequest) : List String :=
  r.arguments ++ [file, request.entryPoint]

/-- The sandbox of a runner; `ending` says what becomes of each request. -/
def sandbox (r : Runner) (ending : SandboxRequest → Ending) : Sandbox where
  run request := answer (r.limit request) (ending request)

end Runner

end Child

end ClaimQueue
