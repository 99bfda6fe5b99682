import ClaimQueue.Handler.Basic

/-! Handlers whose behaviour is written down: by attempt, the last entry for all later ones. -/

namespace ClaimQueue

namespace Handler

/-- The entry for an attempt. -/
def labourAt (first : Labour) : List Labour → (attempts : Nat) → Labour
  | [], _ => first
  | _, 0 => first
  | next :: rest, n + 1 => labourAt next rest n

def scripted (name : String) (kind : TaskKind) (provides : CapabilitySet) (first : Labour)
    (later : List Labour) : Handler where
  name := name
  kind := kind
  provides := provides
  run t := labourAt first later t.attempts.toNat

end Handler

end ClaimQueue
