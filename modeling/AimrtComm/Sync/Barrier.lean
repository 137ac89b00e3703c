import AimrtComm.Lib.Transition
import Mathlib.Algebra.Group.Nat.Defs
import Mathlib.Logic.Function.Basic

/-!
# `sync::Barrier`

`n` threads call `Wait` on one `Barrier(n)`, each at most `rounds` times.  A step is the atomic
decrement of `count_`, its reset, or a section of the `Condition` under its mutex; a thread that
waits in the condition variable has released the mutex and looks at the flags again after it was
notified, or woke up by itself.
-/

namespace AimrtComm.Sync.Barrier

/-- Where a thread is. -/
inductive Pc where
  /-- Outside of `Wait`. -/
  | idle
  /-- About to do `--count_`. -/
  | decrement
  /-- About to do `count_ = thread_nums_`. -/
  | reset
  /-- About to enter `Condition::Satisfy`. -/
  | satisfy
  /-- In `Condition::Wait`, about to look at the flags under the mutex. -/
  | check
  /-- In the condition variable of `Condition::Wait`. -/
  | asleep
deriving DecidableEq, Repr

/-- The barrier with its condition, and where the threads are.  The last two fields are no data
of the program but its history. -/
structure State (n : ℕ) where
  /-- `count_`, a `size_t` -/
  count : ℕ
  /-- `condition_.value_` -/
  value : Bool
  /-- `condition_.failed_` -/
  failed : Bool
  pc : Fin n → Pc
  /-- How often a thread called `Wait`. -/
  calls : Fin n → ℕ
  /-- How often it returned from `Wait`. -/
  returns : Fin n → ℕ

/-- What happens next. -/
inductive Event (n : ℕ) where
  /-- A thread calls `Wait`. -/
  | call (i : Fin n)
  /-- The next step of a thread in `Wait`. -/
  | next (i : Fin n)
  /-- The condition variable wakes a thread up spuriously. -/
  | wake (i : Fin n)
deriving DecidableEq, Repr

open Function

/-- `--count_` of a `size_t`, which wraps around at zero. -/
def decrement (count : ℕ) : ℕ := if count = 0 then 2 ^ 64 - 1 else count - 1

namespace State

variable {n : ℕ} (s : State n)

def goto (i : Fin n) (pc : Pc) : State n := { s with pc := update s.pc i pc }

/-- A thread leaves `Wait`. -/
def leave (i : Fin n) : State n :=
  { s with pc := update s.pc i .idle, returns := update s.returns i (s.returns i + 1) }

/-- `condition_.notify_all()`. -/
def notifyAll : State n :=
  { s with pc := fun j => if s.pc j = .asleep then .check else s.pc j }

/-- The next step of `Barrier::Wait`. -/
def next (i : Fin n) : Option (State n) :=
  match s.pc i with
  | .decrement =>
    let count := Barrier.decrement s.count
    some ({ s with count }.goto i (if count = 0 then .reset else .check))
  | .reset => some ({ s with count := n }.goto i .satisfy)
  | .satisfy => some (({ s with value := true, failed := false }.notifyAll).leave i)
  | .check =>
    -- `while (not failed_ and not value_) condition_.wait(lock);`
    if !s.failed && !s.value then some (s.goto i .asleep) else some (s.leave i)
  | .idle | .asleep => none

/-- The effect of an event when every thread calls `Wait` at most `rounds` times. -/
def step (rounds : ℕ) : Event n → Option (State n)
  | .call i =>
    if s.pc i = .idle ∧ s.calls i < rounds then
      some ({ s with calls := update s.calls i (s.calls i + 1) }.goto i .decrement)
    else none
  | .next i => s.next i
  | .wake i => if s.pc i = .asleep then some (s.goto i .check) else none

end State

/-- `n` threads and a `Barrier(n)`. -/
def system (n rounds : ℕ) : System (State n) (Event n) where
  init :=
    { count := n, value := false, failed := false, pc := fun _ => .idle, calls := fun _ => 0,
      returns := fun _ => 0 }
  step s e := s.step rounds e

/-- No thread has returned from more calls of `Wait` than another one has made. -/
def State.Separated {n : ℕ} (s : State n) : Prop := ∀ i j, s.returns i ≤ s.calls j

instance {n : ℕ} (s : State n) : Decidable s.Separated :=
  inferInstanceAs (Decidable (∀ i j, s.returns i ≤ s.calls j))

end AimrtComm.Sync.Barrier
