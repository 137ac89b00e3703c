import AimrtComm.Lib.Transition
import Mathlib.Logic.Function.Basic

/-!
# `co::Task` and the context of a thread

Coroutines run on threads, and a thread has one `g_thread_ctx`.  A coroutine captures it when it is
created, and puts it back whenever it starts and whenever a `co_await` of it is over; `Post` and
`Inline` overwrite it for the coroutine that they create.  A step is what the code that runs on a
thread does next, or the resumption of a coroutine by whoever holds its handle: the executor on an
idle thread, the loop of a `SyncWait`, or the body of another coroutine.
-/

namespace AimrtComm

/-- `res::Executor`, where `none` stands for the `-1` of a resource that was not registered. -/
structure Executor where
  idx : Option ℕ := none
  contextId : Option ℕ := none
deriving DecidableEq, Repr

/-- `IsValid`. -/
def Executor.isValid (exe : Executor) : Bool := exe.idx.isSome && exe.contextId.isSome

namespace Core

open Function

/-- `ThreadContext`, with `R` for the rpc contexts. -/
structure ThreadContext (R : Type*) where
  /-- `ctx_ptr`: the id of the context of a module -/
  ctxPtr : Option ℕ := none
  exe : Executor := {}
  activeRpcContext : Option R := none
deriving DecidableEq, Repr

/-- What the handle of a coroutine points to. -/
structure Coroutine (R : Type*) where
  id : ℕ
  /-- `ctx_` of the promise, which `initial_suspend` sets -/
  ctx : ThreadContext R
deriving DecidableEq, Repr

/-- What is on the call stack of a thread. -/
inductive Frame (R : Type*) where
  /-- The body of a coroutine that was resumed. -/
  | body (c : Coroutine R)
  /-- `SyncWait`, which runs its loop until the coroutine is done. -/
  | syncWait (c : Coroutine R)
deriving DecidableEq, Repr

/-- A thread. -/
structure Thread (R : Type*) where
  /-- `g_thread_ctx` -/
  ctx : ThreadContext R
  stack : List (Frame R) := []
  /-- The coroutine that was last resumed on the thread, which is no data of the program but its
  history. -/
  lastRun : Option (Coroutine R) := none
deriving DecidableEq, Repr

namespace Thread

variable {R : Type*} (t : Thread R)

/-- The thread waits in the loop of a `SyncWait`. -/
def blocked : Bool :=
  match t.stack with
  | .syncWait _ :: _ => true
  | _ => false

/-- `await_resume` of the awaiters of `initial_suspend` and `await_transform`, with the body of the
coroutine on top of `stack`. -/
def run (c : Coroutine R) (stack : List (Frame R)) : Thread R where
  ctx := c.ctx
  stack := .body c :: stack
  lastRun := some c

/-- The executor of `Sleep`, `Yield` and `exe()`. -/
def executor : Executor := t.ctx.exe

/-- The context that a coroutine captures when it is created. -/
def captured : ThreadContext R := t.ctx

/-- The parent of a `Call`. -/
def parentRpcContext : Option R := t.ctx.activeRpcContext

/-- `ctx::exe(exe)`: the context that it prepares when `ExpectContext` finds a context and
`CheckAndInit` finds the executor in it. -/
def prepare (exe : Executor) : Option (ThreadContext R) :=
  if exe.isValid && t.ctx.ctxPtr = exe.contextId then some { ctxPtr := t.ctx.ctxPtr, exe }
  else none

end Thread

/-- The threads `T`, and where the coroutines are that do not run. -/
structure State (T R : Type*) where
  threads : T → Thread R
  /-- The tasks that were not started. -/
  created : List (Coroutine R)
  /-- The coroutines whose handle somebody holds, or that wait in an executor. -/
  suspended : List (Coroutine R)
  /-- `continuation_`: the coroutine that awaits the one with this id -/
  continuation : ℕ → Option (Coroutine R)
  done : List (Coroutine R)
  nextId : ℕ

/-- What happens next. -/
inductive Event (T R : Type*) where
  /-- The framework sets `g_thread_ctx` outside of all coroutines. -/
  | enter (θ : T) (ctx : ThreadContext R)
  /-- A coroutine function is called. -/
  | create (θ : T)
  /-- `co_await` of a task -/
  | await (θ : T) (c : Coroutine R)
  /-- `co_await` of something that is ready -/
  | ready (θ : T)
  /-- `co_await` of something else: the coroutine is suspended -/
  | suspend (θ : T)
  /-- A suspended coroutine is resumed, or starts on an executor. -/
  | resume (θ : T) (c : Coroutine R)
  /-- `exe(exe).Post(..)` -/
  | post (θ : T) (exe : Executor)
  /-- `exe(exe).Inline(..)` -/
  | inline (θ : T) (exe : Executor)
  /-- `Sync` of a task -/
  | sync (θ : T) (c : Coroutine R)
  /-- `co_return` -/
  | finish (θ : T)
  /-- `SyncWait` returns. -/
  | return (θ : T)
deriving DecidableEq, Repr

namespace State

variable {T R : Type*} [DecidableEq T] [DecidableEq R] (s : State T R)

def setThread (θ : T) (t : Thread R) : State T R := { s with threads := update s.threads θ t }

/-- The coroutine that is created next. -/
def fresh (ctx : ThreadContext R) : Coroutine R := { id := s.nextId, ctx }

/-- `Post`. -/
def post (θ : T) (exe : Executor) : Option (State T R) :=
  ((s.threads θ).prepare exe).map fun ctx =>
    { s with
      suspended := s.fresh ctx :: s.suspended
      nextId := s.nextId + 1 }.setThread θ { s.threads θ with ctx }

/-- `Inline`. -/
def inline (θ : T) (exe : Executor) : Option (State T R) :=
  ((s.threads θ).prepare exe).map fun ctx =>
    let c := s.fresh ctx
    { s with nextId := s.nextId + 1 }.setThread θ
      (.run c (.syncWait c :: (s.threads θ).stack))

/-- `final_suspend`: the coroutine that awaits this one goes on in its place. -/
def finish (θ : T) (c : Coroutine R) (stack : List (Frame R)) : State T R :=
  match s.continuation c.id with
  | some awaiter => { s with done := c :: s.done }.setThread θ (.run awaiter stack)
  | none => { s with done := c :: s.done }.setThread θ { s.threads θ with stack }

/-- The effect of an event. -/
def step : Event T R → Option (State T R)
  | .enter θ ctx =>
    if (s.threads θ).stack = [] then some (s.setThread θ { s.threads θ with ctx }) else none
  | .create θ =>
    if (s.threads θ).blocked then none
    else some { s with
      created := s.fresh (s.threads θ).captured :: s.created
      nextId := s.nextId + 1 }
  | .await θ c =>
    match (s.threads θ).stack with
    | .body awaiter :: stack =>
      if c ∈ s.created then
        some ({ s with
          created := s.created.erase c
          continuation := update s.continuation c.id (some awaiter) }.setThread θ (.run c stack))
      else none
    | _ => none
  | .ready θ =>
    match (s.threads θ).stack with
    | .body c :: stack => some (s.setThread θ (.run c stack))
    | _ => none
  | .suspend θ =>
    match (s.threads θ).stack with
    | .body c :: stack =>
      some ({ s with suspended := c :: s.suspended }.setThread θ { s.threads θ with stack })
    | _ => none
  | .resume θ c =>
    if c ∈ s.suspended then
      some ({ s with suspended := s.suspended.erase c }.setThread θ
        (.run c (s.threads θ).stack))
    else none
  | .post θ exe => if (s.threads θ).blocked then none else s.post θ exe
  | .inline θ exe => if (s.threads θ).blocked then none else s.inline θ exe
  | .sync θ c =>
    if !(s.threads θ).blocked && c ∈ s.created then
      some ({ s with created := s.created.erase c }.setThread θ
        (.run c (.syncWait c :: (s.threads θ).stack)))
    else none
  | .finish θ =>
    match (s.threads θ).stack with
    | .body c :: stack => some (s.finish θ c stack)
    | _ => none
  | .return θ =>
    match (s.threads θ).stack with
    | .syncWait c :: stack =>
      if c ∈ s.done then some (s.setThread θ { s.threads θ with stack }) else none
    | _ => none

end State

/-- Threads that run no coroutine yet, with the contexts that they have. -/
def system {T R : Type*} [DecidableEq T] [DecidableEq R] (ctx : T → ThreadContext R) :
    System (State T R) (Event T R) where
  init :=
    { threads := fun θ => { ctx := ctx θ }, created := [], suspended := [],
      continuation := fun _ => none, done := [], nextId := 0 }
  step s e := s.step e

/-- The body that runs on a thread runs in the context of its coroutine. -/
def Thread.InOwnContext {R : Type*} (t : Thread R) : Prop :=
  ∀ c stack, t.stack = .body c :: stack → t.ctx = c.ctx

/-- **Every coroutine runs in its own context.** -/
def State.InOwnContext {T R : Type*} (s : State T R) : Prop := ∀ θ, (s.threads θ).InOwnContext

end Core

end AimrtComm
