import AimrtComm.Lib.Transition
import Mathlib.Logic.Function.Basic

/-!
# `sync::Condition`

Any number of threads wait for a condition that others set.  A step is a section under `mutex_`;
a thread that waits in the condition variable has released the mutex, and looks at the flags again
after it was notified or woke up by itself.
-/

namespace AimrtComm.Sync.Condition

/-- Where a thread is. -/
inductive Pc where
  /-- Outside of `Wait`. -/
  | idle
  /-- About to look at the flags under the mutex. -/
  | check
  /-- In the condition variable. -/
  | asleep
deriving DecidableEq, Repr

/-- What sets the flags.  The constructor counts as an `Init`, and the destructor as a `Fail`. -/
inductive Setting where
  | init (value : Bool)
  | satisfy
  | fail
deriving DecidableEq, Repr

/-- The condition, and where the threads are.  The last two fields are no data of the program but
its history. -/
structure State (Th : Type*) where
  /-- `value_` -/
  value : Bool
  /-- `failed_` -/
  failed : Bool
  pc : Th → Pc
  /-- The last setting. -/
  last : Setting
  /-- What was returned from `Wait`, the last one first. -/
  results : List (Th × Bool)

/-- What happens next. -/
inductive Event (Th : Type*) where
  | set (setting : Setting)
  /-- A thread calls `Wait`. -/
  | wait (t : Th)
  /-- A thread in `Wait` looks at the flags. -/
  | next (t : Th)
  /-- The condition variable wakes a thread up spuriously. -/
  | wake (t : Th)
deriving DecidableEq, Repr

open Function

variable {Th : Type*} [DecidableEq Th]

namespace State

variable (s : State Th)

def goto (t : Th) (pc : Pc) : State Th := { s with pc := update s.pc t pc }

omit [DecidableEq Th] in
/-- `condition_.notify_all()` -/
def notifyAll : State Th :=
  { s with pc := fun t => if s.pc t = .asleep then .check else s.pc t }

omit [DecidableEq Th] in
/-- `Init`, `Satisfy` and `Fail` -/
def set : Setting → State Th
  | .init value => { s with value, failed := false, last := .init value }
  | .satisfy => { s with value := true, failed := false, last := .satisfy }.notifyAll
  | .fail => { s with value := false, failed := true, last := .fail }.notifyAll

/-- The loop of `Wait` from the test on. -/
def next (t : Th) : Option (State Th) :=
  if s.pc t = .check then
    if !s.failed && !s.value then some (s.goto t .asleep)
    else some { s.goto t .idle with results := (t, s.value) :: s.results }
  else none

/-- The effect of an event. -/
def step (s : State Th) : Event Th → Option (State Th)
  | .set setting => some (s.set setting)
  | .wait t => if s.pc t = .idle then some (s.goto t .check) else none
  | .next t => s.next t
  | .wake t => if s.pc t = .asleep then some (s.goto t .check) else none

end State

variable (Th) in
/-- A condition that was constructed with this value. -/
def system (value : Bool) : System (State Th) (Event Th) where
  init := { value, failed := false, pc := fun _ => .idle, last := .init value, results := [] }
  step := State.step

/-- What `Wait` returns under a setting, if it returns. -/
def Setting.answer : Setting → Option Bool
  | .init false => none
  | .init true | .satisfy => some true
  | .fail => some false

end AimrtComm.Sync.Condition
