import AimrtComm.Lib.Transition

/-!
# A plain lock

What every mutex is for: at most one owner, who is the only one to free it.  Nothing is said of who
gets a free lock.
-/

namespace AimrtComm.Sync

/-- The state of a plain lock. -/
structure PlainLock (α : Type*) where
  owner : Option α

namespace PlainLock

/-- What can happen to the lock. -/
inductive Event (α : Type*) where
  | acquire (c : α)
  | release (c : α)

variable {α : Type*} [DecidableEq α]

/-- The effect of an event. -/
def step (s : PlainLock α) : Event α → Option (PlainLock α)
  | .acquire c => if s.owner.isNone then some { owner := some c } else none
  | .release c => if s.owner = some c then some { owner := none } else none

variable (α) in
/-- The lock as a system. -/
def system : System (PlainLock α) (Event α) where
  init := { owner := none }
  step := step

end PlainLock

end AimrtComm.Sync
