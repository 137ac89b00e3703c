import AimrtComm.Lib.Transition
import Mathlib.Logic.Function.Basic

/-!
# Unique ids of a process

`GenerateUniqueID` puts together the process id, the id of a block that the calling thread has drawn
from a counter all threads share, and the thread's own counter.  A thread draws a block when it has
none and when its counter is at its limit.

Drawing is one atomic step; the rest of a call touches only what belongs to the thread.  The calls
of all threads of a process are therefore the runs of `process`.
-/

namespace AimrtComm.Utils

/-- The variables of a thread. -/
structure ThreadLocal where
  count : UInt16 := 0
  threadId : UInt16 := 0
  deriving DecidableEq

/-- The thread has to draw a block. -/
def ThreadLocal.needsBlock (self : ThreadLocal) : Bool :=
  self.threadId = 0 || self.count = 65535

/-- Drawing a block: `thread_id = ++next_thread_id`, and the counter starts again. -/
def drawBlock (nextThreadId : UInt16) : UInt16 × ThreadLocal :=
  (nextThreadId + 1, { count := 0, threadId := nextThreadId + 1 })

/-- The bits of an id. -/
def uid (pid : UInt32) (threadId count : UInt16) : UInt64 :=
  pid.toUInt64 <<< 32 ||| threadId.toUInt64 <<< 16 ||| count.toUInt64

/-- What a call does after it has drawn, if it had to: the id it returns. -/
def takeId (pid : UInt32) (self : ThreadLocal) : UInt64 × ThreadLocal :=
  (uid pid self.threadId self.count, { self with count := self.count + 1 })

/-- `GenerateUniqueID`, in one go. -/
def generateUniqueID (pid : UInt32) (nextThreadId : UInt16) (self : ThreadLocal) :
    UInt64 × UInt16 × ThreadLocal :=
  let (nextThreadId, self) :=
    if self.needsBlock then drawBlock nextThreadId else (nextThreadId, self)
  let (id, self) := takeId pid self
  (id, nextThreadId, self)

/-! ### Many threads -/

/-- A process with threads `τ`: the shared counter, the threads' variables, the threads that are
between drawing and returning, how many blocks were drawn, and the ids returned, the last first. -/
structure Process (τ : Type*) where
  nextThreadId : UInt16
  threads : τ → ThreadLocal
  drawing : τ → Bool
  drawn : ℕ
  ids : List UInt64

/-- The steps of the calls. -/
inductive CallStep (τ : Type*) where
  | draw (t : τ)
  | finish (t : τ)

variable {τ : Type*} [DecidableEq τ]

/-- The state after a step, if the thread is there. -/
def Process.step (pid : UInt32) (s : Process τ) : CallStep τ → Option (Process τ)
  | .draw t =>
    if s.drawing t = false ∧ (s.threads t).needsBlock then
      let (nextThreadId, self) := drawBlock s.nextThreadId
      some
        { s with
          nextThreadId := nextThreadId
          threads := Function.update s.threads t self
          drawing := Function.update s.drawing t true
          drawn := s.drawn + 1 }
    else none
  | .finish t =>
    if s.drawing t = true ∨ (s.threads t).needsBlock = false then
      let (id, self) := takeId pid (s.threads t)
      some
        { s with
          threads := Function.update s.threads t self
          drawing := Function.update s.drawing t false
          ids := id :: s.ids }
    else none

/-- All calls of all threads of a process. -/
def process (pid : UInt32) (τ : Type*) [DecidableEq τ] : System (Process τ) (CallStep τ) where
  init := ⟨0, fun _ => {}, fun _ => false, 0, []⟩
  step := Process.step pid

end AimrtComm.Utils
