import AimrtComm.Lib.Regex
import Mathlib.Data.List.Sort

/-!
# Minidumps

When a process crashes, breakpad writes a dump under a name of its own into the dump directory and
calls `DumpCallback`, which removes the oldest dumps of the program and renames the new one.  Which
files are dumps of the program is decided by a regular expression made of the program name.

The dump directory is the list of its files, in the order in which it is iterated over.  A name is a
string of bytes, each of them a character.
-/

namespace AimrtComm.Minidump

open Regex (regex)

/-- The files of the dump directory, by their names. -/
abbrev DumpDir (α : Type*) : Type _ := List (String × α)

/-- The path of a file of the dump directory. -/
def dumpPath (name : String) : String := "/agibot/data/minidump" ++ "/" ++ name

/-- The pattern of the dumps of a program. -/
def dumpPattern (appName : String) : String :=
  "^" ++ appName ++ "_\\d\x7b10\x7d_\\d+.dmp$"

/-- The name that `GetDumpFileName` gives to a dump. -/
def dumpFileName (progname : String) (tvSec pid : ℕ) : String :=
  progname ++ "_" ++ toString tvSec ++ "_" ++ toString pid ++ ".dmp"

variable {α : Type*} (rest : String → Option (String → Bool)) (progname : String)

/-- The names in the dump directory that match the pattern of the program. -/
def matchingFiles (dir : DumpDir α) : Option (List String) :=
  (regex rest (dumpPattern progname)).map fun pattern => (dir.map Prod.fst).filter pattern

/-- `GetCurrentDumpCount`. -/
def getCurrentDumpCount (dir : DumpDir α) : Option ℕ :=
  (matchingFiles rest progname dir).map List.length

/-- The files that `RemoveOldestDumps` is going to remove: the first ones in the order of their
paths. -/
def oldestDumps (keepCount : ℕ) (dir : DumpDir α) : Option (List String) :=
  (matchingFiles rest progname dir).map fun names =>
    let dumpFiles := names.insertionSort fun name name' => dumpPath name ≤ dumpPath name'
    dumpFiles.take (dumpFiles.length - keepCount)

/-- `std::filesystem::remove` of a file. -/
def removeFile (name : String) (dir : DumpDir α) : DumpDir α :=
  dir.filter fun file => file.1 ≠ name

/-- `RemoveOldestDumps`. -/
def removeOldestDumps (keepCount : ℕ) (dir : DumpDir α) : Option (DumpDir α) :=
  (oldestDumps rest progname keepCount dir).map fun dumpFiles =>
    dumpFiles.foldl (fun dir name => removeFile name dir) dir

/-- `rename`: nothing happens without the old file, and the new name is replaced. -/
def renameFile (old new : String) (dir : DumpDir α) : DumpDir α :=
  match dir.find? fun file => file.1 = old with
  | none => dir
  | some file => removeFile new (removeFile old dir) ++ [(new, file.2)]

/-- `max_dump_count_ - 1` as a `size_t`. -/
def keepCountOf (maxDumpCount : Int32) : ℕ :=
  ((maxDumpCount.toInt - 1) % 18446744073709551616).toNat

/-- `DumpCallback`, for a dump that breakpad wrote under the name `descriptor`. -/
def dumpCallback (maxDumpCount : Int32) (descriptor : String) (succeeded : Bool) (tvSec pid : ℕ)
    (dir : DumpDir α) : Option (DumpDir α × Bool) :=
  if maxDumpCount = 0 then some (dir, false)
  else
    (removeOldestDumps rest progname (keepCountOf maxDumpCount) dir).map fun dir =>
      (renameFile descriptor (dumpFileName progname tvSec pid) dir, succeeded)

/-- `MinidumpManager`, as far as its handler is not concerned. -/
structure MinidumpManager where
  isInitialized : Bool := false
  maxDumpCount : Int32 := 0
  enableRotation : Bool := true
  deriving DecidableEq

/-- `Initialize`, when the dump directory exists. -/
def initializeManager (self : MinidumpManager) (maxDumpCount : Int32) (enableRotation : Bool)
    (dir : DumpDir α) : Option (MinidumpManager × Bool) :=
  if self.isInitialized then some (self, true)
  else
    (getCurrentDumpCount rest progname dir).map fun currentCount =>
      if !enableRotation && maxDumpCount.toInt ≤ currentCount then (self, false)
      else ({ isInitialized := true, maxDumpCount, enableRotation }, true)

end AimrtComm.Minidump
