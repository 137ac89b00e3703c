import Mathlib.Data.Int.Basic

/-!
# `ctx::Loop`

`Ok` paces the body of a loop: it compares the steady clock with a stored time point `tp`, sleeps
for what is left of the period, and advances `tp`.  Time points and durations are integers, in
nanoseconds; `time_point{}` is `0`.  The clock is passed from call to call, and `ctx::Sleep(dt)`
moves it by exactly `dt`.  Whether the context still runs is a function of the time it is asked at.
-/

namespace AimrtComm.Ctx

/-- `ctx::Loop`: its period and the time point of the last call. -/
structure Loop where
  period : Int := 0
  tp : Int := 0
  deriving Repr, DecidableEq

namespace Loop

/-- `Loop(period)`. -/
def ofPeriod (period : Int) : Loop := { period }

/-- `Loop(hz)`: the period is `1000'000'000ull / hz` nanoseconds; `none` is the division by zero. -/
def ofHz (hz : UInt32) : Option Loop :=
  if hz = 0 then none else some (ofPeriod ((1000000000 / hz.toNat : ℕ) : Int))

/-- What a call of `Ok` leaves behind: the returned value, the time of the return and the loop. -/
structure Return where
  value : Bool
  time : Int
  loop : Loop
  deriving Repr, DecidableEq

/-- `ctx::Sleep(dt)`: the clock after it. -/
def sleep (now dt : Int) : Int := now + dt

/-- `Loop::Ok`, called when the steady clock reads `now`. -/
def ok (running : Int → Bool) (l : Loop) (now : Int) : Return :=
  if l.period = 0 then { value := running now, time := now, loop := l }
  else
    let dt := l.period - (now - l.tp)
    if dt > 0 then
      let woken := sleep now dt
      -- `tp_ += dt` advances by the sleep only: what the body took before the call is left out
      { value := running woken, time := woken, loop := { l with tp := l.tp + dt } }
    else { value := running now, time := now, loop := { l with tp := now } }

/-- The calls of `Ok` on a loop of period `p`: the first one when the clock reads `first`, the next
ones after work that takes `w 0`, `w 1`, … -/
def calls (running : Int → Bool) (p first : Int) (w : ℕ → Int) : ℕ → Return
  | 0 => (ofPeriod p).ok running first
  | n + 1 =>
    let last := calls running p first w n
    last.loop.ok running (last.time + w n)

end Loop

end AimrtComm.Ctx
