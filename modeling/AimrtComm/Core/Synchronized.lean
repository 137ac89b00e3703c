import AimrtComm.Core.Coroutine

/-!
# The synchronized flag of a thread

`Task::Sync` sets the `thread_local` flag `synchronized` while it waits for the task, and `Yield`
does not schedule a coroutine away from a thread whose flag is set.  `exe(exe).Inline` runs its
coroutine with `Sync`.  The flag is added here to the threads of `Core.State`.
-/

namespace AimrtComm.Core

open Function

variable {T R : Type*}

/-- The threads and coroutines, and `co::synchronized` of each thread. -/
structure SyncState (T R : Type*) where
  coroutines : State T R
  synchronized : T → Bool

namespace SyncState

/-- `Yield` on a thread schedules the coroutine on its executor, instead of yielding in place. -/
def yieldSchedules (s : SyncState T R) (θ : T) : Bool :=
  !s.synchronized θ && (s.coroutines.threads θ).executor.isValid

variable [DecidableEq T] [DecidableEq R]

/-- The flags after an event. -/
def flagsAfter (synchronized : T → Bool) : Event T R → T → Bool
  | .sync θ _ | .inline θ _ => update synchronized θ true
  -- the deferred statement of `Sync`
  | .return θ => update synchronized θ false
  | _ => synchronized

/-- The effect of an event. -/
def step (s : SyncState T R) (e : Event T R) : Option (SyncState T R) :=
  (s.coroutines.step e).map fun coroutines =>
    { coroutines, synchronized := flagsAfter s.synchronized e }

end SyncState

/-- Threads that run no coroutine yet, with the contexts that they have and the flag cleared. -/
def syncSystem [DecidableEq T] [DecidableEq R] (ctx : T → ThreadContext R) :
    System (SyncState T R) (Event T R) where
  init := { coroutines := (system ctx).init, synchronized := fun _ => false }
  step s e := s.step e

end AimrtComm.Core
