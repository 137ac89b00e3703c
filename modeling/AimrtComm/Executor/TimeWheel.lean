import AimrtComm.Executor.Worker
import AimrtComm.Lib.BinaryHeap
import AimrtComm.Lib.Transition
import Mathlib.Logic.Function.Basic

/-!
# `TimeWheelExecutor`

One coroutine, `Loop`, runs the workers of a priority queue when their time comes.  A worker is
an object behind a pointer, and the queue holds the pointers: `Loop` changes the wake time of the
worker at the front before it takes it out.  The queue has no lock, so `AddWorker` is called before
the loop exists.  `Run` of a worker is code of the user and is called between that change and the
`pop`; it leaves the executor and the wake times alone, and calls no `AddWorker`.
-/

namespace AimrtComm.Executor

variable {Ptr : Type*}

/-- `BaseWorkerCompare` -/
def baseWorkerCompare (worker : Ptr → BaseWorker) (x y : Ptr) : Bool := (worker x).less (worker y)

/-- Where the executor is. -/
inductive Pc where
  /-- There is no loop. -/
  | idle
  /-- `Loop` waits for the executor that it is scheduled on. -/
  | spawned
  /-- At the head of the `while` of `Loop`. -/
  | loop
  /-- `Loop` returned. -/
  | finished
  /-- `Shutdown` returned. -/
  | shutDown
deriving DecidableEq, Repr

/-- The executor and the objects of the workers.  The last three fields are no data of the program
but its history. -/
structure TimeWheel (Ptr : Type*) where
  /-- `is_running_` -/
  isRunning : Bool
  /-- `queue_` -/
  queue : Array Ptr
  /-- The objects. -/
  worker : Ptr → BaseWorker
  /-- `now` of `Loop` -/
  now : Timespec
  /-- How often the clock was read. -/
  reads : ℕ
  pc : Pc
  /-- The workers whose `Run` was called, the last one first. -/
  runs : List Ptr
  added : List Ptr
  deleted : List Ptr

/-- What happens next. -/
inductive Event (Ptr : Type*) where
  /-- `AddWorker`, which constructs a worker with the name and the period of the given one. -/
  | addWorker (p : Ptr) (name : String) (periodNs : UInt64)
  /-- `Start` -/
  | start
  /-- `Loop` begins: it resets the workers and reads the clock. -/
  | begin
  /-- One turn of the `while` of `Loop`. -/
  | iterate
  /-- `Shutdown` clears `is_running_`. -/
  | shutdown
  /-- `Shutdown` has waited for the loop and deletes the workers. -/
  | complete

variable [DecidableEq Ptr]

open Function

namespace TimeWheel

variable (clock : ℕ → Timespec) (s : TimeWheel Ptr)

/-- `queue_.push` -/
def push (p : Ptr) : TimeWheel Ptr :=
  { s with queue := BinaryHeap.push (baseWorkerCompare s.worker) s.queue p }

/-- `queue_.pop` -/
def pop : TimeWheel Ptr :=
  { s with queue := BinaryHeap.pop (baseWorkerCompare s.worker) s.queue }

/-- `ResetWakeTime` -/
def resetWakeTime (p : Ptr) : TimeWheel Ptr :=
  { s with worker := update s.worker p { s.worker p with wakeAbsTime := clock s.reads }
           reads := s.reads + 1 }

/-- `UpdateWorkerTime`, which calls itself at most once. -/
def updateWorkerTime (p : Ptr) (now : Timespec) : Option (TimeWheel Ptr) :=
  ((s.worker p).updateWorkerTime clock now 2 s.reads).map fun (w, reads) =>
    { s with worker := update s.worker p w, reads }

/-- The first loop of `ResetWorkerTime`: take the workers out and reset them. -/
def takeOut : ℕ → TimeWheel Ptr → List Ptr → Option (TimeWheel Ptr × List Ptr)
  | 0, s, workers => some (s, workers)
  | fuel + 1, s, workers =>
    match s.queue[0]? with
    | none => some (s, workers)
    | some p => do
      let s := s.resetWakeTime clock p
      let now := clock s.reads
      let s ← { s with reads := s.reads + 1 }.updateWorkerTime clock p now
      takeOut fuel s.pop (workers ++ [p])

/-- `ResetWorkerTime` -/
def resetWorkerTime : Option (TimeWheel Ptr) := do
  let (s, workers) ← takeOut clock s.queue.size s []
  some (workers.foldl push s)

/-- `clock_gettime(CLOCK_MONOTONIC, &now)` -/
def readNow : TimeWheel Ptr := { s with now := clock s.reads, reads := s.reads + 1 }

/-- `UpdateWorkerTime` and `Run` of the worker at the front, which is then taken out and put in
again. -/
def runFront (p : Ptr) : Option (TimeWheel Ptr) := do
  let s ← s.updateWorkerTime clock p s.now
  some (({ s with runs := p :: s.runs }.pop).push p)

/-- The `while` of `Loop`. -/
def iterate : Option (TimeWheel Ptr) :=
  if s.isRunning then
    match s.queue[0]? with
    | none => none
    | some p =>
      if (s.worker p).isExpired s.now then s.runFront clock p
      -- `clock_nanosleep` may also return early
      else some (s.readNow clock)
  else some { s with pc := .finished }

/-- The effect of an event. -/
def step (s : TimeWheel Ptr) : Event Ptr → Option (TimeWheel Ptr)
  | .addWorker p name periodNs =>
    if s.pc = .idle ∧ p ∉ s.added then
      let w := { name, periodNs, wakeAbsTime := clock s.reads }
      let s := { s with worker := update s.worker p w, reads := s.reads + 1, added := p :: s.added }
      some (s.push p)
    else none
  | .start =>
    if s.pc = .idle then
      some { s with isRunning := true, pc := if s.queue.isEmpty then .idle else .spawned }
    else none
  | .begin =>
    if s.pc = .spawned then
      (s.resetWorkerTime clock).map fun s => { s.readNow clock with pc := .loop }
    else none
  | .iterate => if s.pc = .loop then s.iterate clock else none
  | .shutdown => if s.pc ≠ .shutDown then some { s with isRunning := false } else none
  | .complete =>
    if s.isRunning = false ∧ (s.pc = .idle ∨ s.pc = .finished) then
      some { s with queue := #[], deleted := s.queue.toList ++ s.deleted, pc := .shutDown }
    else none

end TimeWheel

/-- A time wheel on a clock.  The worker that pointers refer to at first is of no account. -/
def timeWheelSystem (clock : ℕ → Timespec) : System (TimeWheel Ptr) (Event Ptr) where
  init :=
    { isRunning := false, queue := #[], now := ⟨0, 0⟩, reads := 0, pc := .idle, runs := [],
      worker := fun _ => { name := "", periodNs := 0, wakeAbsTime := ⟨0, 0⟩ },
      added := [], deleted := [] }
  step := TimeWheel.step clock

end AimrtComm.Executor
