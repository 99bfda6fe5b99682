/-! The three classes of failure, for operators: may succeed later, will not, and broken
surroundings. -/

namespace ClaimQueue

inductive FailureClass where
  | transient
  | permanent
  | infrastructure
  deriving DecidableEq, Repr

def FailureClass.name : FailureClass → String
  | .transient => "transient"
  | .permanent => "permanent"
  | .infrastructure => "infrastructure"

end ClaimQueue
