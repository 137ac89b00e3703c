import AimrtComm.Lib.Transition
import Mathlib.Logic.Function.Basic

/-!
# `sync::AtomData`

Any number of threads call `Set`, `GetAndClear`, `Has` and `Clear` on one `AtomData`.  A step is
one section under the mutex; `GetAndClear` has two, `Has` and, when that found data, the section
that takes it.  The clock is what the sections read, milliseconds in 64 bits; the section that
takes reads no clock, and the reading of its event is only what the time was.
-/

namespace AimrtComm.Sync.AtomData

/-- One successful `GetAndClear`. -/
structure Taken (T : Type*) where
  /-- The number of the last `Set` before it, zero if there was none. -/
  source : ℕ
  /-- What it returned. -/
  value : T
  /-- A `Clear` came between that `Set` and it. -/
  cleared : Bool
  /-- The data had timed out. -/
  timedOut : Bool
deriving DecidableEq, Repr

/-- The data, and which threads are between the two sections of `GetAndClear`.  The last three
fields are no data of the program but its history. -/
structure State (Th T : Type*) where
  /-- `obj_` -/
  obj : T
  /-- `has_` -/
  has : Bool
  /-- `timeout_`, zero for none -/
  timeout : BitVec 64
  /-- `last_recv_time_` -/
  lastRecvTime : BitVec 64
  /-- The thread is in `GetAndClear` and `Has` returned true. -/
  taking : Th → Bool
  /-- The values that were set. -/
  sets : List T
  /-- A `Clear` came after the last `Set`. -/
  cleared : Bool
  taken : List (Taken T)

/-- What happens next; `now` is the clock. -/
inductive Event (Th T : Type*) where
  | set (a : T) (now : BitVec 64)
  | has (now : BitVec 64)
  | clear
  /-- `GetAndClear` is called, up to the end of `Has`. -/
  | check (t : Th) (now : BitVec 64)
  /-- The second section of `GetAndClear`. -/
  | take (t : Th) (now : BitVec 64)

open Function

variable {Th T : Type*} [DecidableEq Th]

namespace State

variable (s : State Th T)

/-- `timeout_ != 0` and more than that has passed.  The clock is signed and `last_recv_time_` is
not, so that their difference wraps around when the clock was set back. -/
def timedOut (now : BitVec 64) : Bool := s.timeout != 0 && s.timeout < now - s.lastRecvTime

/-- `Has`. -/
def hasData (now : BitVec 64) : Bool := if s.timedOut now then false else s.has

/-- The effect of an event. -/
def step : Event Th T → Option (State Th T)
  | .set a now =>
    some { s with
      lastRecvTime := if s.timeout != 0 then now else s.lastRecvTime
      obj := a
      has := true
      sets := s.sets ++ [a]
      cleared := false }
  | .has _ => some s
  | .clear => some { s with has := false, cleared := true }
  | .check t now =>
    if s.taking t then none else some { s with taking := update s.taking t (s.hasData now) }
  | .take t now =>
    if s.taking t then
      some { s with
        has := false
        taking := update s.taking t false
        taken := s.taken ++ [⟨s.sets.length, s.obj, s.cleared, s.timedOut now⟩] }
    else none

end State

variable (Th) in
/-- An `AtomData` with the content of its storage and its timeout. -/
def system (obj : T) (timeout : BitVec 64) : System (State Th T) (Event Th T) where
  init :=
    { obj, has := false, timeout, lastRecvTime := 0, taking := fun _ => false, sets := [],
      cleared := false, taken := [] }
  step s e := s.step e

/-- Every value was handed out at most once: each successful `GetAndClear` returned the value of a
`Set`, no two that of the same one, and neither had a `Clear` wiped it nor had it timed out. -/
structure State.HandedOutOnce (s : State Th T) : Prop where
  source : ∀ x ∈ s.taken, 0 < x.source ∧ s.sets[x.source - 1]? = some x.value
  once : (s.taken.map Taken.source).Nodup
  not_cleared : ∀ x ∈ s.taken, x.cleared = false
  not_timedOut : ∀ x ∈ s.taken, x.timedOut = false

end AimrtComm.Sync.AtomData
