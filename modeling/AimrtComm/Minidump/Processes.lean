import AimrtComm.Lib.Transition
import AimrtComm.Minidump.MinidumpManager
import Mathlib.Logic.Function.Basic

/-!
# Processes of one program

Any number of processes of a program share the dump directory.  Each may call `Initialize` with
rotation disabled, and crash once it is initialized: breakpad writes the dump, and `DumpCallback`
looks for the oldest dumps, removes one after the other, and renames the new one.  The steps of
several processes interleave in any way.
-/

namespace AimrtComm.Minidump

/-- How far a process is: running, its dump written, removing the oldest dumps, or at its end. -/
inductive Phase where
  | running
  | written (descriptor : String)
  | removing (descriptor : String) (dumpFiles : List String)
  | ended
  deriving DecidableEq

/-- A process. -/
structure Proc where
  manager : MinidumpManager := {}
  phase : Phase := .running
  deriving DecidableEq

/-- The dump directory and the processes `τ`. -/
structure Machine (α τ : Type*) where
  dir : DumpDir α
  procs : τ → Proc

/-- The steps of the processes. -/
inductive ProcStep (α τ : Type*) where
  | startUp (p : τ)
  | crash (p : τ) (descriptor : String) (dump : α)
  | scan (p : τ)
  | remove (p : τ)
  | rename (p : τ) (tvSec : ℕ)

variable {α τ : Type*} [DecidableEq τ]

/-- The machine after process `p` has gone on. -/
def Machine.setPhase (s : Machine α τ) (p : τ) (phase : Phase) (dir : DumpDir α) : Machine α τ :=
  { dir := dir, procs := Function.update s.procs p { s.procs p with phase := phase } }

/-- The state after a step, if the process is there.  The name that breakpad gives a dump is unused,
and has no underscore. -/
def Machine.step (rest : String → Option (String → Bool)) (progname : String)
    (maxDumpCount : τ → Int32) (pid : τ → ℕ) (s : Machine α τ) :
    ProcStep α τ → Option (Machine α τ)
  | .startUp p =>
    if (s.procs p).phase = .running then
      (initializeManager rest progname (s.procs p).manager (maxDumpCount p) false s.dir).map
        fun result =>
          { s with procs := Function.update s.procs p { s.procs p with manager := result.1 } }
    else none
  | .crash p descriptor dump =>
    if (s.procs p).phase = .running ∧ (s.procs p).manager.isInitialized = true ∧
        '_' ∉ descriptor.toList ∧ descriptor ∉ s.dir.map Prod.fst then
      some (s.setPhase p (.written descriptor) (s.dir ++ [(descriptor, dump)]))
    else none
  | .scan p =>
    match (s.procs p).phase with
    | .written descriptor =>
      if (s.procs p).manager.maxDumpCount = 0 then some (s.setPhase p .ended s.dir)
      else
        -- an exception of the regular expression ends the process
        match oldestDumps rest progname (keepCountOf (s.procs p).manager.maxDumpCount) s.dir with
        | none => some (s.setPhase p .ended s.dir)
        | some dumpFiles => some (s.setPhase p (.removing descriptor dumpFiles) s.dir)
    | _ => none
  | .remove p =>
    match (s.procs p).phase with
    | .removing descriptor (name :: dumpFiles) =>
      some (s.setPhase p (.removing descriptor dumpFiles) (removeFile name s.dir))
    | _ => none
  | .rename p tvSec =>
    match (s.procs p).phase with
    | .removing descriptor [] =>
      some (s.setPhase p .ended
        (renameFile descriptor (dumpFileName progname tvSec (pid p)) s.dir))
    | _ => none

/-- All interleavings of the processes, from any dump directory. -/
def machine (rest : String → Option (String → Bool)) (progname : String) (maxDumpCount : τ → Int32)
    (pid : τ → ℕ) (dir : DumpDir α) : System (Machine α τ) (ProcStep α τ) where
  init := ⟨dir, fun _ => {}⟩
  step := Machine.step rest progname maxDumpCount pid

/-- The dumps in the directory: all files but what breakpad is about to hand over. -/
def Machine.dumps (s : Machine α τ) : DumpDir α := s.dir.filter fun file => '_' ∈ file.1.toList

end AimrtComm.Minidump
