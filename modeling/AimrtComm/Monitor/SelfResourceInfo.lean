import AimrtComm.Lib.FormattedInput
import Mathlib.Data.Rat.Defs

/-!
# The CPU usage of a process

`get_process_cpu_usage` reads the CPU time of the process from `/proc/<pid>/stat` and that of the
system from `/proc/stat`, and sets what was added to them since the previous call against each
other.  The previous times are static variables, so a sequence of calls passes them on.

What a call finds in the system is its `Call`.  The usage is a rational number here, a `double` in
the source.
-/

namespace AimrtComm.Monitor

open FormattedInput

/-- What a call finds: the files that it can open, the number of cores, and what is in the variables
`utime` and `stime` before they are read. -/
structure Call where
  files : String → Option (List Char)
  cores : ℤ
  utime : UInt64 := 0
  stime : UInt64 := 0

/-- The path of the statistics of a process. -/
def statFile (pid : ℤ) : String := "/proc/" ++ toString pid ++ "/stat"

/-- `get_all_threads_cpu_time`. -/
def getAllThreadsCpuTime (pid : ℤ) (call : Call) : UInt64 :=
  match call.files (statFile pid) with
  | none => 0
  | some file =>
    let input := skipWord^[13] (some file)
    let (utime, input) := extractUInt64 call.utime input
    let (stime, _) := extractUInt64 call.stime input
    utime + stime

/-- `get_total_cpu_time`. -/
def getTotalCpuTime (call : Call) : UInt64 :=
  -- a file that is not opened gives an empty line
  let file := (call.files "/proc/stat").getD []
  let line := file.takeWhile fun c => c ≠ '\n'
  let values := (skipWord (some line)).elim [] extractAll
  values.foldl (fun totalCpuTime value => totalCpuTime + value) 0

/-- The static variables of `get_process_cpu_usage`. -/
structure PrevTimes where
  prevProcessTime : UInt64 := 0
  prevTotalCpuTime : UInt64 := 0
deriving DecidableEq, Repr

/-- `get_process_cpu_usage`: the usage, and the times for the next call. -/
def getProcessCpuUsage (pid : ℤ) (call : Call) (prev : PrevTimes) : ℚ × PrevTimes :=
  let processTime := getAllThreadsCpuTime pid call
  let totalCpuTime := getTotalCpuTime call
  if processTime < prev.prevProcessTime ∨ totalCpuTime ≤ prev.prevTotalCpuTime then (0, prev)
  else
    let cpuUsage : ℚ := 100 * ((processTime - prev.prevProcessTime).toNat : ℚ) /
      ((totalCpuTime - prev.prevTotalCpuTime).toNat : ℚ)
    (cpuUsage * (call.cores : ℚ), ⟨processTime, totalCpuTime⟩)

/-- What a sequence of calls with one process returns. -/
def usages (pid : ℤ) : PrevTimes → List Call → List ℚ
  | _, [] => []
  | prev, call :: calls =>
    let (usage, prev) := getProcessCpuUsage pid call prev
    usage :: usages pid prev calls

end AimrtComm.Monitor
