import AimrtComm.Lib.Chain
import AimrtComm.Lib.Transition
import Mathlib.Data.Set.Insert

/-!
# `sync::v2::Mutex`

The mutex as a transition system: any number of coroutines run `TryLock`, `Lock` and `Unlock`, and
a step is one atomic operation on `state_` together with the accesses to memory that no other
coroutine reaches.  Atomic operations are sequentially consistent, and a weak compare-exchange may
fail though the value is the expected one.

A waiting coroutine is represented by an `Awaiter` in the storage of its `co_await` expression;
storage is used again once the expression is over.
-/

namespace AimrtComm.Sync.Mutex

/-- What `state_` holds: `UnlockedState()` or a pointer, null or to an awaiter. -/
inductive Word (Addr : Type*) where
  | unlocked
  | ptr (awaiter : Option Addr)
deriving DecidableEq, Repr

/-- Where a coroutine is. -/
inductive Pc (Addr : Type*) where
  /-- Outside of the mutex. -/
  | idle
  /-- About to call `TryLock` in `await_ready`. -/
  | awaitReady (awaiter : Addr)
  /-- At the head of the loop of `LockAndSuspend`. -/
  | lockLoad (awaiter : Addr)
  /-- About to compare `state_` with the value that was loaded. -/
  | lockCas (awaiter : Addr) (oldState : Word Addr)
  /-- `LockAndSuspend` returned true. -/
  | suspended (awaiter : Addr)
  /-- At the start of `Unlock`. -/
  | unlock
  /-- At the head of the loop of `Unlock`. -/
  | unlockLoad
  /-- About to replace null by `UnlockedState()`. -/
  | unlockCas
  /-- About to detach the awaiters. -/
  | unlockExchange
  /-- In the loop that reverses the detached awaiters. -/
  | reverse (next : Option Addr) (curr : Addr)
  /-- About to pop and resume the first of the reversed awaiters. -/
  | handOver (next : Option Addr)
  /-- An assertion failed, or something that is not a suspended coroutine was resumed. -/
  | failed
deriving DecidableEq, Repr

/-- The mutex, the memory of the awaiters and where the coroutines are.  The last three fields
are no data of the program: who owns the mutex, and who was queued and who was resumed, in their
order. -/
structure State (Co Addr : Type*) where
  /-- `state_` -/
  state : Word Addr
  /-- `awaiter_` -/
  awaiter : Option Addr
  /-- The fields `next_`. -/
  next : Addr → Option Addr
  /-- The fields `continuation_`. -/
  continuation : Addr → Option Co
  /-- The storage that holds an awaiter. -/
  live : Addr → Bool
  pc : Co → Pc Addr
  owns : Co → Bool
  enqueued : List Co
  granted : List Co

/-- What happens next. -/
inductive Event (Co Addr : Type*) where
  /-- `TryLock`. -/
  | tryLock (c : Co)
  /-- `Lock`: construct an awaiter. -/
  | lock (c : Co) (awaiter : Addr)
  /-- Enter `Unlock`. -/
  | unlock (c : Co)
  /-- The next step of `Lock` or `Unlock`; a weak compare-exchange fails if it is spurious. -/
  | next (c : Co) (spurious : Bool)

open Function

variable {Co Addr : Type*} [DecidableEq Co] [DecidableEq Addr]

namespace State

variable (s : State Co Addr) (c : Co)

def goto (pc : Pc Addr) : State Co Addr := { s with pc := update s.pc c pc }

/-- The compare-exchange of `TryLock`. -/
def tryLock : Option (State Co Addr) :=
  if s.state = .unlocked then some { s with state := .ptr none, owns := update s.owns c true }
  else none

/-- The `co_await` expression with the awaiter at `a` is over. -/
def leave (a : Addr) : State Co Addr :=
  { s with pc := update s.pc c .idle, live := update s.live a false }

/-- `continuation_.resume()` of the awaiter at `a`, the last thing that `Unlock` does. -/
def resume (a : Addr) : State Co Addr :=
  match s.continuation a with
  | none => s.goto c .failed
  | some d =>
    if s.pc d = .suspended a then
      { (s.goto c .idle).leave d a with
        owns := update (update s.owns c false) d true
        granted := s.granted ++ [d] }
    else s.goto c .failed

/-- `awaiter_ = a->next_`, then resume the coroutine of `a`. -/
def popAndResume (a : Addr) : State Co Addr := { s with awaiter := s.next a }.resume c a

/-- The next step of `Lock` or `Unlock`. -/
def advance (spurious : Bool) : Option (State Co Addr) :=
  match s.pc c with
  | .awaitReady a =>
    match s.tryLock c with
    | some s' => some (s'.leave c a)
    | none =>
      some ({ s with continuation := update s.continuation a (some c) }.goto c (.lockLoad a))
  | .lockLoad a =>
    match s.state with
    | .unlocked => some (s.goto c (.lockCas a .unlocked))
    | .ptr p => some ({ s with next := update s.next a p }.goto c (.lockCas a (.ptr p)))
  | .lockCas a .unlocked =>
    if s.state = .unlocked ∧ !spurious then
      some ({ s with state := .ptr none, owns := update s.owns c true }.leave c a)
    else some (s.goto c (.lockLoad a))
  | .lockCas a (.ptr p) =>
    if s.state = .ptr p ∧ !spurious then
      some ({ s with state := .ptr (some a), enqueued := s.enqueued ++ [c] }.goto c (.suspended a))
    else some (s.goto c (.lockLoad a))
  | .unlock =>
    match s.awaiter with
    | some a => some (s.popAndResume c a)
    | none => some (s.goto c .unlockLoad)
  | .unlockLoad =>
    match s.state with
    | .ptr none => some (s.goto c .unlockCas)
    | .ptr (some _) => some (s.goto c .unlockExchange)
    | .unlocked => some (s.goto c .failed)
  | .unlockCas =>
    if s.state = .ptr none ∧ !spurious then
      some ({ s with state := .unlocked, owns := update s.owns c false }.goto c .idle)
    else some (s.goto c .unlockLoad)
  | .unlockExchange =>
    match s.state with
    | .ptr (some a) =>
      some ({ s with state := .ptr none, awaiter := some a }.goto c (.reverse none a))
    | _ => some ({ s with state := .ptr none }.goto c .failed)
  | .reverse next curr =>
    let s' := { s with next := update s.next curr next }
    match s.next curr with
    | some nextCurr => some (s'.goto c (.reverse (some curr) nextCurr))
    | none => some (s'.goto c (.handOver (some curr)))
  | .handOver (some next) => some (s.popAndResume c next)
  | .handOver none => some (s.goto c .failed)
  | .idle | .suspended _ | .failed => none

/-- The effect of an event. -/
def step (s : State Co Addr) : Event Co Addr → Option (State Co Addr)
  | .tryLock c => if s.pc c = .idle then some ((s.tryLock c).getD s) else none
  | .lock c a =>
    if s.pc c = .idle ∧ s.live a = false then
      some ({ s with
        next := update s.next a none
        continuation := update s.continuation a none
        live := update s.live a true }.goto c (.awaitReady a))
    else none
  | .unlock c => if s.pc c = .idle ∧ s.owns c then some (s.goto c .unlock) else none
  | .next c spurious => s.advance c spurious

end State

variable (Co Addr) in
/-- The mutex from its construction on. -/
def system : System (State Co Addr) (Event Co Addr) where
  init :=
    { state := .unlocked
      awaiter := none
      next := fun _ => none
      continuation := fun _ => none
      live := fun _ => false
      pc := fun _ => .idle
      owns := fun _ => false
      enqueued := []
      granted := [] }
  step := State.step

/-! ### What is to hold -/

/-- The list hanging from `state_`. -/
def State.Lifo (s : State Co Addr) (l : List Addr) : Prop :=
  match s.state with
  | .unlocked => l = []
  | .ptr p => Chain s.next p l

/-- The list that a coroutine at `pc` serves, in the order of service: what hangs from
`awaiter_`, or the two parts of a list that is being reversed. -/
def Detached (next : Addr → Option Addr) (awaiter : Option Addr) : Pc Addr → List Addr → Prop
  | .reverse n curr, l => ∃ done todo, Chain next n done ∧ Chain next (some curr) todo ∧
    l = todo.reverse ++ done
  | .handOver n, l => Chain next n l
  | _, l => Chain next awaiter l

/-- The list of the awaiters that were detached from `state_`, in the order of service. -/
def State.Fifo (s : State Co Addr) (l : List Addr) : Prop :=
  (∃ c, s.owns c = true ∧ Detached s.next s.awaiter (s.pc c) l) ∨
    (∀ c, s.owns c = false) ∧ Chain s.next s.awaiter l

/-- Nothing is wrong with the mutex. -/
structure State.Safe (s : State Co Addr) : Prop where
  /-- At most one coroutine owns the mutex. -/
  owner_unique : ∀ c d, s.owns c = true → s.owns d = true → c = d
  /-- The two lists hold the awaiters of the suspended coroutines, each exactly once. -/
  waiting : ∃ lifo fifo, s.Lifo lifo ∧ s.Fifo fifo ∧ (lifo ++ fifo).Nodup ∧
    ∀ a, a ∈ lifo ++ fifo ↔ ∃ c, s.pc c = .suspended a
  /-- A suspended coroutine is the one that its awaiter resumes. -/
  continuation : ∀ c a, s.pc c = .suspended a → s.continuation a = some c
  /-- The mutex is only unlocked when nobody owns it or waits for it. -/
  unlocked : s.state = .unlocked → (∀ c, s.owns c = false) ∧ ∀ c a, s.pc c ≠ .suspended a
  /-- No assertion failed, and only suspended coroutines were resumed. -/
  not_failed : ∀ c, s.pc c ≠ .failed

end AimrtComm.Sync.Mutex
