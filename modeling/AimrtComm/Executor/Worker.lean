import Mathlib.Data.Int.Init

/-!
# The workers of the time wheel

A `BaseWorker` has a period and the time of `CLOCK_MONOTONIC` at which it runs next.  `clock k` is
what the `k`-th reading of the clock gives.
-/

namespace AimrtComm.Executor

/-- `timespec` -/
structure Timespec where
  tvSec : ℤ
  tvNsec : ℤ
deriving DecidableEq, Repr

namespace Timespec

/-- The comparison that `UpdateWorkerTime` and `operator<` write out. -/
def before (t u : Timespec) : Bool :=
  t.tvSec < u.tvSec || (t.tvSec == u.tvSec && t.tvNsec < u.tvNsec)

/-- `tv_nsec += period_ns` with the carry into `tv_sec`.  The sum is one of `uint64_t`, and is
stored as a `long`. -/
def advance (t : Timespec) (periodNs : UInt64) : Timespec :=
  let tvNsec := (t.tvNsec + periodNs.toNat).bmod UInt64.size
  if tvNsec > 999999999 then
    { tvSec := t.tvSec + tvNsec / 1000000000, tvNsec := tvNsec % 1000000000 }
  else { t with tvNsec }

end Timespec

/-- `BaseWorker` -/
structure BaseWorker where
  name : String
  periodNs : UInt64
  wakeAbsTime : Timespec
deriving DecidableEq, Repr

namespace BaseWorker

variable (clock : ℕ → Timespec)

/-- `UpdateWorkerTime`, and how often the clock was read after it. -/
def updateWorkerTime (now : Timespec) : ℕ → BaseWorker → ℕ → Option (BaseWorker × ℕ)
  | 0, _, _ => none
  | fuel + 1, w, k =>
    if w.periodNs = 0 then some (w, k)
    else
      let wakeAbsTime := w.wakeAbsTime.advance w.periodNs
      if wakeAbsTime.before now then
        -- missed: `ResetWakeTime` and once more
        updateWorkerTime now fuel { w with wakeAbsTime := clock k } (k + 1)
      else some ({ w with wakeAbsTime }, k)

/-- `IsExpired` -/
def isExpired (w : BaseWorker) (now : Timespec) : Bool :=
  now.tvSec > w.wakeAbsTime.tvSec ||
    (now.tvSec == w.wakeAbsTime.tvSec && now.tvNsec ≥ w.wakeAbsTime.tvNsec)

/-- `operator<`: the one that wakes up later is the smaller one. -/
def less (w x : BaseWorker) : Bool :=
  w.wakeAbsTime.tvSec > x.wakeAbsTime.tvSec ||
    (w.wakeAbsTime.tvSec == x.wakeAbsTime.tvSec && w.wakeAbsTime.tvNsec > x.wakeAbsTime.tvNsec)

end BaseWorker

end AimrtComm.Executor
