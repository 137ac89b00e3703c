import AimrtComm.Lib.Transition
import Mathlib.Data.Int.Notation
import Mathlib.Logic.Function.Basic

/-!
# `sync::SpinMutex`

Any number of coroutines run `TryLock`, `Lock` and `Unlock`; a step is one atomic operation on
`locked_`, or the return from `ctx::Yield`.
-/

namespace AimrtComm.Sync.SpinMutex

/-- Where a coroutine is. -/
inductive Pc where
  /-- Outside of the mutex. -/
  | idle
  /-- In `Lock`, about to call `TryLock`. -/
  | tryLock
  /-- In `Lock`, about to load `locked_`. -/
  | load (counter : ℤ)
  /-- In `ctx::Yield`. -/
  | yield
  /-- It has locked the mutex. -/
  | owner
deriving DecidableEq, Repr

/-- The mutex, and where the coroutines are. -/
structure State (Co : Type*) where
  /-- `locked_` -/
  locked : Bool
  pc : Co → Pc

/-- What happens next.  What was locked is unlocked by the one who did, as `std::unique_lock`
does. -/
inductive Event (Co : Type*) where
  /-- `TryLock` -/
  | tryLock (c : Co)
  /-- A call of `Lock` begins. -/
  | lock (c : Co)
  /-- The next step of a coroutine in `Lock`. -/
  | next (c : Co)
  /-- `Unlock` -/
  | unlock (c : Co)
deriving DecidableEq, Repr

open Function

variable {Co : Type*} [DecidableEq Co]

namespace State

variable (s : State Co)

def goto (c : Co) (pc : Pc) : State Co := { s with pc := update s.pc c pc }

/-- `locked_.exchange(true)`, and where the coroutine goes when another one has locked the mutex. -/
def exchange (c : Co) (other : Pc) : State Co :=
  { s with locked := true }.goto c (if s.locked then other else .owner)

/-- The next step of `Lock`. -/
def next (spinCounter : ℤ) (c : Co) : Option (State Co) :=
  match s.pc c with
  | .tryLock => some (s.exchange c (.load spinCounter))
  | .load counter =>
    if s.locked then some (s.goto c (if counter - 1 < 0 then .yield else .load (counter - 1)))
    else some (s.goto c .tryLock)
  | .yield => some (s.goto c (.load spinCounter))
  | .idle | .owner => none

/-- The effect of an event. -/
def step (spinCounter : ℤ) : Event Co → Option (State Co)
  | .tryLock c => if s.pc c = .idle then some (s.exchange c .idle) else none
  | .lock c => if s.pc c = .idle then some (s.goto c .tryLock) else none
  | .next c => s.next spinCounter c
  | .unlock c => if s.pc c = .owner then some ({ s with locked := false }.goto c .idle) else none

end State

variable (Co) in
/-- A mutex and its `spin_counter_`. -/
def system (spinCounter : ℤ) : System (State Co) (Event Co) where
  init := { locked := false, pc := fun _ => .idle }
  step s e := s.step spinCounter e

end AimrtComm.Sync.SpinMutex
