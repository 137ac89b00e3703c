import AimrtComm.Lib.NamedFiles
import AimrtComm.Lib.Transition

/-!
# Processes that start with a temporary configuration

`Run` (`program/app_mode/app_mode.cpp`) dumps the merged configuration into one of eleven files of
`temp_cfg_path`, lets the framework initialize itself from it, and removes it in the end.  Any
number of processes of the program use the same directory, and their steps interleave in any way.
A process with `--dump_only` ends before it initializes the framework.

What a process dumps is its own affair; the file that a dump is copied to is another one and left
out.
-/

namespace AimrtComm.Program

/-- The name that `DumpFile` draws. -/
def cfgFileName (tempCfgPath : String) (draw : Fin 11) : String :=
  tempCfgPath ++ "/tmp" ++ toString draw.val ++ ".yaml"

/-- How far a process is. -/
inductive Phase where
  | start
  /-- in `DumpFile`, with the file open and a part of the configuration written -/
  | dumping (cfgFilePath : String) (file written : ℕ)
  | dumped (cfgFilePath : String)
  /-- after `Initialize` has read the file -/
  | initialized (cfgFilePath : String) (read : Option (List Char))
  | ended
deriving DecidableEq, Repr

/-- The processes `τ`, and the files. -/
structure Machine (τ : Type*) where
  disk : Disk String Char
  procs : τ → Phase

/-- The steps of the processes. -/
inductive ProcStep (τ : Type*) where
  /-- `std::ofstream file(file_name)` -/
  | openFile (p : τ) (draw : Fin 11)
  /-- some characters of the configuration reach the file -/
  | writeFile (p : τ) (count : ℕ)
  | closeFile (p : τ)
  /-- `copy_file` of the dump -/
  | copyDump (p : τ)
  /-- `Initialize` of the framework reads the file -/
  | initializeCore (p : τ)
  /-- the deferred removal -/
  | removeFile (p : τ)
  /-- an end without the removal: after `--dump_only`, or by a signal -/
  | exit (p : τ)
deriving DecidableEq, Repr

variable {τ : Type*} [DecidableEq τ]

/-- The machine after process `p` has gone on. -/
def Machine.setPhase (s : Machine τ) (p : τ) (phase : Phase) (disk : Disk String Char) :
    Machine τ where
  disk := disk
  procs := Function.update s.procs p phase

/-- The state after a step, if the process is there.  `yaml p` is what process `p` dumps, and
`dumpOnly p` is its flag `--dump_only`. -/
def Machine.step (tempCfgPath : String) (dumpOnly : τ → Bool) (yaml : τ → List Char)
    (s : Machine τ) :
    ProcStep τ → Option (Machine τ)
  | .openFile p draw =>
    match s.procs p with
    | .start =>
      let name := cfgFileName tempCfgPath draw
      some (s.setPhase p (.dumping name (s.disk.opened name) 0) (s.disk.openTruncated name))
    | _ => none
  | .writeFile p count =>
    match s.procs p with
    | .dumping name file written =>
      let data := ((yaml p).drop written).take count
      some (s.setPhase p (.dumping name file (written + data.length))
        (s.disk.write file written data))
    | _ => none
  | .closeFile p =>
    match s.procs p with
    | .dumping name _ written =>
      if written = (yaml p).length then some (s.setPhase p (.dumped name) s.disk) else none
    | _ => none
  | .copyDump p =>
    match s.procs p with
    | .dumped name =>
      -- without the file `copy_file` throws, and nobody catches it
      if (s.disk.read name).isSome then some s else some (s.setPhase p .ended s.disk)
    | _ => none
  | .initializeCore p =>
    match s.procs p with
    | .dumped name =>
      if dumpOnly p then none
      else some (s.setPhase p (.initialized name (s.disk.read name)) s.disk)
    | _ => none
  | .removeFile p =>
    match s.procs p with
    -- when `RegisterModule` throws
    | .dumped name => some (s.setPhase p .ended (s.disk.unlink name))
    | .initialized name _ => some (s.setPhase p .ended (s.disk.unlink name))
    | _ => none
  | .exit p => some (s.setPhase p .ended s.disk)

/-- All interleavings of the processes, from any files. -/
def machine (tempCfgPath : String) (dumpOnly : τ → Bool) (yaml : τ → List Char)
    (disk : Disk String Char) : System (Machine τ) (ProcStep τ) where
  init := ⟨disk, fun _ => .start⟩
  step := Machine.step tempCfgPath dumpOnly yaml

end AimrtComm.Program
