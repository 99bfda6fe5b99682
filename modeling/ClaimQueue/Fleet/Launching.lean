import ClaimQueue.Failure
import ClaimQueue.Program

/-! Starting workers. -/

namespace ClaimQueue

inductive LaunchError where
  | spawn (detail : String)
  | quota (detail : String)
  deriving DecidableEq, Repr

namespace LaunchError

def message : LaunchError → String
  | .spawn detail => "failed to start worker process: " ++ detail
  | .quota detail => "launch quota exhausted: " ++ detail

def failureClass : LaunchError → FailureClass
  | .spawn _ => .infrastructure
  | .quota _ => .transient

end LaunchError

/-- What is asked of a launcher. -/
inductive LauncherCall where
  /-- Starts a worker: its id. -/
  | launch
  /-- How many workers are alive. -/
  | live

abbrev LauncherCall.Answer : LauncherCall → Type
  | .launch => Except LaunchError String
  | .live => Nat

abbrev launcherCalls : Interface := ⟨LauncherCall, LauncherCall.Answer⟩

end ClaimQueue
