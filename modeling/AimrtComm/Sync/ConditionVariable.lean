import AimrtComm.Lib.Chain
import AimrtComm.Lib.Transition
import Mathlib.Data.Fintype.Defs

/-!
# `sync::ConditionVariable`

The condition variable as a transition system: any number of coroutines call `Wait` and any number
of threads `NotifyOne` and `NotifyAll`.  A step is one atomic operation on `awaiter_` or one access
to a field of an awaiter that others may access too.  A coroutine that is resumed goes on at once,
on whatever thread, and its awaiter's storage may hold another awaiter from then on.

Every wait that is queued gets a number, its ticket, so that the waits of one coroutine, or in one
storage, can be told apart.
-/

namespace AimrtComm.Sync.ConditionVariable

/-- Where a coroutine is. -/
inductive WaitPc (Addr : Type*) where
  /-- Outside of `await_suspend`. -/
  | idle
  /-- About to load `awaiter_`. -/
  | load (awaiter : Addr)
  /-- About to compare `awaiter_` with `next_`. -/
  | cas (awaiter : Addr)
  /-- Queued. -/
  | suspended (awaiter : Addr)
deriving DecidableEq, Repr

/-- Where a thread is in `Notify`. -/
inductive NotifyPc (Addr : Type*) where
  /-- Outside of `Notify`. -/
  | idle
  /-- About to load `awaiter_`. -/
  | load (all : Bool)
  /-- About to read `head->next_` for the compare-exchange of `NotifyOne`. -/
  | readNext (head : Addr)
  /-- In `NotifyAll`, about to replace `head` by null. -/
  | casAll (head : Addr)
  /-- In `NotifyOne`, about to replace `head` by `next`. -/
  | casOne (head : Addr) (next : Option Addr)
  /-- About to clear `head->next_`. -/
  | clear (head : Addr)
  /-- About to resume the coroutine of `head`. -/
  | resume (head : Addr)
  /-- About to read `head->next_` after the resumption. -/
  | advance (head : Addr)
  /-- Something that is not a suspended coroutine was resumed. -/
  | failed
deriving DecidableEq, Repr

/-- The condition variable, the memory of the awaiters and where everyone is.  The last six fields
are no data of the program but its history. -/
structure State (Co Th Addr : Type*) where
  /-- `awaiter_` -/
  head : Option Addr
  /-- The fields `next_`. -/
  next : Addr → Option Addr
  /-- The fields `continuation_`. -/
  continuation : Addr → Option Co
  /-- The storage that holds an awaiter. -/
  live : Addr → Bool
  waiter : Co → WaitPc Addr
  notifier : Th → NotifyPc Addr
  /-- The ticket of the last wait that was queued in a storage. -/
  ticket : Addr → ℕ
  /-- How many waits were queued. -/
  enqueued : ℕ
  /-- The waits that were queued and not taken off the list, the last one first. -/
  queue : List ℕ
  /-- The waits that were resumed. -/
  resumed : List ℕ
  /-- The waits that a thread took off the list the last time it did so. -/
  detached : Th → List ℕ
  /-- The waits that it has resumed of these. -/
  woken : Th → List ℕ

/-- What happens next. -/
inductive Event (Co Th Addr : Type*) where
  /-- `Wait`: construct an awaiter. -/
  | wait (c : Co) (awaiter : Addr)
  /-- The next step of `await_suspend`. -/
  | waitNext (c : Co) (spurious : Bool)
  /-- `NotifyOne` or `NotifyAll`. -/
  | notify (t : Th) (all : Bool)
  /-- The next step of `Notify`. -/
  | notifyNext (t : Th) (spurious : Bool)

open Function

variable {Co Th Addr : Type*} [DecidableEq Co] [DecidableEq Th] [DecidableEq Addr]

namespace State

variable (s : State Co Th Addr)

def goto (t : Th) (pc : NotifyPc Addr) : State Co Th Addr :=
  { s with notifier := update s.notifier t pc }

/-- The next step of `await_suspend`. -/
def waitNext (c : Co) (spurious : Bool) : Option (State Co Th Addr) :=
  match s.waiter c with
  | .load a =>
    some { s with next := update s.next a s.head, waiter := update s.waiter c (.cas a) }
  | .cas a =>
    if s.head = s.next a ∧ !spurious then
      some { s with
        head := some a
        waiter := update s.waiter c (.suspended a)
        ticket := update s.ticket a s.enqueued
        enqueued := s.enqueued + 1
        queue := s.enqueued :: s.queue }
    else some { s with next := update s.next a s.head }
  | .idle | .suspended _ => none

/-- The head of the first loop of `Notify`, after `head` was read from `awaiter_`. -/
def checkHead (t : Th) (all : Bool) : State Co Th Addr :=
  match s.head with
  | none => s.goto t .idle
  | some a => s.goto t (if all then .casAll a else .readNext a)

/-- `head->continuation_.resume()`. -/
def resume (t : Th) (a : Addr) : State Co Th Addr :=
  match s.continuation a with
  | none => s.goto t .failed
  | some c =>
    if s.waiter c = .suspended a then
      { s.goto t (.advance a) with
        waiter := update s.waiter c .idle
        live := update s.live a false
        resumed := s.resumed ++ [s.ticket a]
        woken := update s.woken t (s.woken t ++ [s.ticket a]) }
    else s.goto t .failed

/-- The next step of `Notify`. -/
def notifyNext (t : Th) (spurious : Bool) : Option (State Co Th Addr) :=
  match s.notifier t with
  | .load all => some (s.checkHead t all)
  | .readNext a => some (s.goto t (.casOne a (s.next a)))
  | .casAll a =>
    if s.head = some a ∧ !spurious then
      some { s.goto t (.resume a) with
        head := none
        queue := []
        detached := update s.detached t s.queue
        woken := update s.woken t [] }
    else some (s.checkHead t true)
  | .casOne a n =>
    if s.head = some a ∧ !spurious then
      some { s.goto t (.clear a) with
        head := n
        queue := s.queue.erase (s.ticket a)
        detached := update s.detached t [s.ticket a]
        woken := update s.woken t [] }
    else some (s.checkHead t false)
  | .clear a => some ({ s with next := update s.next a none }.goto t (.resume a))
  | .resume a => some (s.resume t a)
  | .advance a =>
    match s.next a with
    | none => some (s.goto t .idle)
    | some b => some (s.goto t (.resume b))
  | .idle | .failed => none

/-- The effect of an event. -/
def step (s : State Co Th Addr) : Event Co Th Addr → Option (State Co Th Addr)
  | .wait c a =>
    if s.waiter c = .idle ∧ s.live a = false then
      some { s with
        next := update s.next a none
        continuation := update s.continuation a (some c)
        live := update s.live a true
        waiter := update s.waiter c (.load a) }
    else none
  | .waitNext c spurious => s.waitNext c spurious
  | .notify t all => if s.notifier t = .idle then some (s.goto t (.load all)) else none
  | .notifyNext t spurious => s.notifyNext t spurious

end State

variable (Co Th Addr) in
/-- The condition variable from its construction on. -/
def system : System (State Co Th Addr) (Event Co Th Addr) where
  init :=
    { head := none
      next := fun _ => none
      continuation := fun _ => none
      live := fun _ => false
      waiter := fun _ => .idle
      notifier := fun _ => .idle
      ticket := fun _ => 0
      enqueued := 0
      queue := []
      resumed := []
      detached := fun _ => []
      woken := fun _ => [] }
  step := State.step

/-! ### What is to hold -/

/-- The awaiters that a thread at this place of `Notify` is going to resume. -/
def Serves (next : Addr → Option Addr) : NotifyPc Addr → List Addr → Prop
  | .idle, l | .load _, l | .readNext _, l | .casAll _, l | .casOne _ _, l => l = []
  | .clear a, l => l = [a]
  | .resume a, l => Chain next (some a) l
  | .advance a, l => Chain next (next a) l
  | .failed, _ => False

/-- No wake-up was lost or duplicated. -/
structure State.Sound (s : State Co Th Addr) : Prop where
  /-- Every wait is resumed at most once. -/
  resumed_once : s.resumed.Nodup
  /-- The queued waits are those that can be reached from `awaiter_`. -/
  queued : ∃ l, Chain s.next s.head l ∧ l.map s.ticket = s.queue
  /-- A thread resumes the waits that it took off the list, each once and in their order; those
  that it has yet to resume can be reached from its `head`. -/
  served : ∀ t, ∃ l, Serves s.next (s.notifier t) l ∧
    s.detached t = s.woken t ++ l.map s.ticket
  /-- Every wait was resumed, is queued or is about to be resumed. -/
  accounted : ∀ n < s.enqueued, n ∈ s.resumed ∨ n ∈ s.queue ∨
    ∃ t, n ∈ s.detached t ∧ n ∉ s.woken t

/-- An awaiter whose field `next_` a thread is still going to use: a `NotifyOne` that has read it
as the head of the list, or a `Notify` that has resumed it and not gone on to the next one. -/
def NotifyPc.Holds (a : Addr) : NotifyPc Addr → Prop
  | .readNext b | .casOne b _ | .advance b => b = a
  | _ => False

instance (a : Addr) : ∀ pc : NotifyPc Addr, Decidable (pc.Holds a)
  | .readNext b | .casOne b _ | .advance b => inferInstanceAs (Decidable (b = a))
  | .idle | .load _ | .casAll _ | .clear _ | .resume _ | .failed => .isFalse id

/-- No awaiter is constructed in storage whose field `next_` a thread is still going to use. -/
def NoReuse (s : State Co Th Addr) : Event Co Th Addr → Prop
  | .wait _ a => ∀ t, ¬ (s.notifier t).Holds a
  | _ => True

instance [Fintype Th] (s : State Co Th Addr) :
    ∀ e : Event Co Th Addr, Decidable (NoReuse s e)
  | .wait _ a => inferInstanceAs (Decidable (∀ t, ¬ (s.notifier t).Holds a))
  | .waitNext _ _ | .notify _ _ | .notifyNext _ _ => .isTrue trivial

end AimrtComm.Sync.ConditionVariable
