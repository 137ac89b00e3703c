import AimrtComm.Core.Coroutine

/-!
# `sync::any`

A coroutine awaits the first of `n` tasks.  A step is one of the following: `await_suspend` starts
the next task or reads a flag of the shared `Context`; a task that was started completes, on
whatever thread, and takes the flag `used`; the winner runs its handler, stores the result and
arranges for the coroutine to go on; the original executor runs a resumption that was posted to it.
A task that completes inside of `await_suspend` is one whose steps come before the next step of
`await_suspend`.
-/

namespace AimrtComm.Sync

namespace Any

/-- One of the tasks: whether it brings an executor of its own, and the handler that makes its
result, which is the identity unless the task was given one. -/
structure Task (μ ρ : Type*) where
  hasExecutor : Bool
  finalHandler : μ → ρ

end Any

/-- `sync::any` over `n` tasks, the `i`-th of which completes with a `μ i` and results in a `ρ i`.
The constructor panics outside of an executor. -/
structure Any (n : ℕ) (μ ρ : Fin n → Type*) where
  tasks : ∀ i, Any.Task (μ i) (ρ i)
  currExe : Executor
  exe : Executor := currExe
  currExe_isValid : currExe.isValid = true

namespace Any

open Function

variable {n : ℕ} {μ ρ : Fin n → Type*}

/-- `Via`. -/
def via (a : Any n μ ρ) (exe : Executor) : Any n μ ρ := { a with exe }

/-- `is_inline`: the guess that the task runs to its end where it is spawned. -/
def isInline (a : Any n μ ρ) (i : Fin n) : Bool := !((a.tasks i).hasExecutor || a.exe.isValid)

/-- Where `await_suspend` is. -/
inductive Phase where
  /-- About to start a task, or to read `used` when all of them are started. -/
  | starting (next : ℕ)
  /-- About to read `inline_resume`. -/
  | done
  /-- It has returned, and whether the coroutine is suspended. -/
  | returned (suspended : Bool)
deriving DecidableEq, Repr

/-- Where a task is. -/
inductive Progress (μ ρ : Type*) where
  | created
  /-- It runs, or is suspended somewhere. -/
  | started
  /-- `TryResume` failed. -/
  | lost
  /-- `TryResume` succeeded. -/
  | won (value : μ)
  /-- The handler has returned. -/
  | handled (result : ρ)
  /-- The result is in the context. -/
  | stored
  /-- `SetResultAndResume` has returned. -/
  | finished
deriving DecidableEq, Repr

/-- The context that the tasks share with the coroutine, and where they are. -/
structure State (n : ℕ) (μ ρ : Fin n → Type*) where
  phase : Phase
  progress : ∀ i, Progress (μ i) (ρ i)
  used : Bool
  result : Option (Σ i, ρ i)
  inlineResume : Bool
  /-- The resumptions that wait in the original executor. -/
  posted : ℕ
  /-- How often the coroutine was resumed. -/
  resumed : ℕ
  /-- The tasks whose handlers were called. -/
  handlers : List (Fin n)

/-- What happens next. -/
inductive Event (n : ℕ) (μ : Fin n → Type*) where
  /-- The next step of `await_suspend`. -/
  | next
  /-- A task completes and calls `TryResume`. -/
  | complete (i : Fin n) (value : μ i)
  /-- The next step of a task after its `TryResume`. -/
  | advance (i : Fin n)
  /-- The original executor runs a resumption. -/
  | resume

namespace State

variable (s : State n μ ρ)

def goto (i : Fin n) (progress : Progress (μ i) (ρ i)) : State n μ ρ :=
  { s with progress := update s.progress i progress }

/-- The next step of `await_suspend`. -/
def next : Option (State n μ ρ) :=
  match s.phase with
  | .starting next =>
    if h : next < n then
      some ({ s with phase := .starting (next + 1) }.goto ⟨next, h⟩ .started)
    else if s.used then some { s with phase := .done }
    else some { s with phase := .returned true }
  | .done => some { s with phase := .returned !s.inlineResume }
  | .returned _ => none

/-- `TryResume`. -/
def complete (i : Fin n) (value : μ i) : Option (State n μ ρ) :=
  match s.progress i with
  | .started => some ({ s with used := true }.goto i (if s.used then .lost else .won value))
  | _ => none

/-- The end of `SetResultAndResume`. -/
def continueAwaiter (a : Any n μ ρ) (i : Fin n) : State n μ ρ :=
  if !a.isInline i then
    if a.currExe.isValid then { s with posted := s.posted + 1 }
    else { s with resumed := s.resumed + 1 }
  else { s with inlineResume := true }

/-- The next step of a task whose `TryResume` succeeded. -/
def advance (a : Any n μ ρ) (i : Fin n) : Option (State n μ ρ) :=
  match s.progress i with
  | .won value =>
    some ({ s with handlers := s.handlers ++ [i] }.goto i
      (.handled ((a.tasks i).finalHandler value)))
  | .handled result => some ({ s with result := some ⟨i, result⟩ }.goto i .stored)
  | .stored => some ((s.continueAwaiter a i).goto i .finished)
  | _ => none

/-- The effect of an event. -/
def step (a : Any n μ ρ) : Event n μ → Option (State n μ ρ)
  | .next => s.next
  | .complete i value => s.complete i value
  | .advance i => s.advance a i
  | .resume =>
    if 0 < s.posted then some { s with posted := s.posted - 1, resumed := s.resumed + 1 }
    else none

/-- How often the coroutine goes on: because `await_suspend` returned `false`, because it was
resumed, or because it will be. -/
def continuations : ℕ :=
  (if s.phase = .returned false then 1 else 0) + s.posted + s.resumed

/-- `await_resume`. -/
def awaitResume : Option (Σ i, ρ i) := s.result

end State

/-- The coroutine is about to suspend. -/
def system (a : Any n μ ρ) : System (State n μ ρ) (Event n μ) where
  init :=
    { phase := .starting 0, progress := fun _ => .created, used := false, result := none,
      inlineResume := false, posted := 0, resumed := 0, handlers := [] }
  step s e := s.step a e

/-- The task that calls `TryResume`, and what it completed with. -/
def Event.tryResume? : Event n μ → Option (Σ i, μ i)
  | .complete i value => some ⟨i, value⟩
  | _ => none

/-- The first `TryResume` of a run. -/
def firstTryResume (events : List (Event n μ)) : Option (Σ i, μ i) :=
  events.findSome? Event.tryResume?

/-- The coroutine goes on exactly once, and with what the first task has made. -/
structure ContinuesOnce (a : Any n μ ρ) (events : List (Event n μ)) (s : State n μ ρ) : Prop where
  /-- It never goes on twice, -/
  atMostOnce : s.continuations ≤ 1
  /-- it does when a task is finished, -/
  goesOn : ∀ i suspended, s.progress i = .finished → s.phase = .returned suspended →
    s.continuations = 1
  /-- and finds a result then. -/
  hasResult : s.continuations ≠ 0 → s.awaitResume.isSome
  /-- The result is the one of the task that was the first. -/
  result : ∀ r, s.awaitResume = some r → ∃ i value,
    firstTryResume events = some ⟨i, value⟩ ∧ r = ⟨i, (a.tasks i).finalHandler value⟩
  /-- No handler of another task is called. -/
  handlers : ∀ i ∈ s.handlers, ∃ value, firstTryResume events = some ⟨i, value⟩

end Any

end AimrtComm.Sync
