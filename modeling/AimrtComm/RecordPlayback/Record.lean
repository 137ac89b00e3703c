import AimrtComm.Lib.FileTree
import AimrtComm.Yaml.Basic
import Mathlib.Algebra.GroupWithZero.Nat

/-!
# Recording retention

`deleteOldestFiles` keeps the recordings (`.db3` and `.mcap` files) below a directory under a
capacity: it visits them in the order of their last write times, as `getDbFiles` found them, and
deletes files until the size it has kept count of fits.  With each file it takes the file's line out
of the `metadata.yaml` beside it (`modifyYamls`), and it removes the file's directory when that
holds no other recording.

The order of files written at the same time is up to `std::sort`, which is any function that sorts
(`TimeSort`).  What becomes of a rewritten `metadata.yaml` is up to the disk (`Written`).  The
logging is left out.
-/

namespace AimrtComm.RecordPlayback

/-- What a regular file carries: its size, its last write time, and the document that
`YAML::LoadFile` reads from it, none when that throws. -/
structure FileData where
  size : UInt64
  lastWriteTime : Int
  document : Option Yaml
deriving DecidableEq, Repr

abbrev Tree := FileTree FileData

/-- `record_module::FileInfo`. -/
structure FileInfo where
  path : Path
  size : UInt64
  lastWriteTime : Int
deriving DecidableEq, Repr

namespace FileInfo

/-- `path.parent_path()`. -/
def parentDir (file : FileInfo) : Path := file.path.dropLast

/-- `path.filename()`. -/
def filename (file : FileInfo) : String := file.path.getLastD ""

end FileInfo

/-! ### Recordings -/

/-- `path(name).extension()`: from the last dot on, if a name is left before it. -/
def extension (name : String) : String :=
  match name.toList.reverse.span (· ≠ '.') with
  | (ext, _ :: stem) => if stem.isEmpty then "" else String.ofList ('.' :: ext.reverse)
  | (_, []) => ""

/-- Whether a file of this name is a recording. -/
def isDbName (name : String) : Bool := extension name == ".db3" || extension name == ".mcap"

/-- The information about an entry that is a recording. -/
def dbFile? : Path × Entry FileData → Option FileInfo
  | (p, .file data) =>
    if isDbName (p.getLastD "") then some ⟨p, data.size, data.lastWriteTime⟩ else none
  | _ => none

/-- The recordings below a directory, at any depth. -/
def recordings (t : Tree) (d : Path) : List FileInfo := (t.below d).filterMap dbFile?

/-- `record_module::getDbFiles`. -/
def getDbFiles (t : Tree) (directory : Path) : Except FsError (List FileInfo) := do
  let entries ← t.recursiveDirectoryIterator directory
  return entries.filterMap dbFile?

/-- `record_module::calculateTotalSize`. -/
def calculateTotalSize (files : List FileInfo) : UInt64 :=
  files.foldl (fun sum file => sum + file.size) 0

/-! ### Metadata -/

/-- The entries of the list that `modifyYamls` keeps: those with a path other than the deleted
file's name.  An entry without a path is not kept. -/
def keptFiles (deleteFile : String) : List Yaml → Except Cfg.Error (List Yaml)
  | [] => .ok []
  | file :: files => do
    let path ← file.get "path"
    if !path.isDefined then
      keptFiles deleteFile files
    else
      let name ← path.asString
      let kept ← keptFiles deleteFile files
      return if name ≠ deleteFile then file :: kept else kept

/-- `new_files`: a node that nothing was pushed into is null. -/
def newFiles (deleteFile : String) : Yaml → Except Cfg.Error Yaml
  | .seq _ files => do
    let kept ← keptFiles deleteFile files
    return if kept.isEmpty then .null else .seq "" kept
  | .map _ [] | .undefined | .null | .scalar .. => .ok .null
  | .map _ (_ :: _) => .error .invalidNode

/-- The document that `modifyYamls` writes in place of the one it read, if it gets that far. -/
def modifiedConfig (deleteFile : String) (config : Yaml) : Except Cfg.Error (Option Yaml) := do
  let information ← config.get "aimrt_bagfile_information"
  if !information.isDefined then return none
  let files ← information.get "files"
  if !files.isDefined then return none
  let files ← newFiles deleteFile files
  let config ← config.modifyField "aimrt_bagfile_information" fun information =>
    information.modifyField "files" fun _ => .ok files
  return some config

/-- What becomes of a file that is rewritten: it is not opened, the writing fails and leaves
something, or the document is written. -/
inductive Written where
  | notOpened
  | failed (left : FileData)
  | done (size : UInt64) (lastWriteTime : Int)
deriving DecidableEq, Repr

/-- The path of the `metadata.yaml` beside a file. -/
def metadataPath (fileInfo : FileInfo) : Path := fileInfo.parentDir ++ ["metadata.yaml"]

/-- `record_module::modifyYamls`: its `catch` clauses swallow every exception. -/
def modifyYamls (written : Written) (fileInfo : FileInfo) (t : Tree) : Tree :=
  let path := metadataPath fileInfo
  match (t.file? path).bind FileData.document with
  | none => t
  | some config =>
    match modifiedConfig fileInfo.filename config, written with
    | .error _, _ | .ok none, _ | .ok (some _), .notOpened => t
    | .ok (some _), .failed left => t.write path left
    | .ok (some config), .done size time => t.write path ⟨size, time, some config⟩

/-! ### Deletion -/

/-- `std::sort` by `last_write_time`: files of the same time come in any order. -/
structure TimeSort where
  sort : List FileInfo → List FileInfo
  perm : ∀ files, (sort files).Perm files
  sorted : ∀ files, (sort files).Pairwise fun a b => a.lastWriteTime ≤ b.lastWriteTime

/-- The tree, and the directories removed so far, each with the tree it was removed from. -/
structure Disk where
  tree : Tree
  removed : List (Path × Tree) := []

/-- An exception and the disk it leaves behind. -/
structure Thrown where
  error : FsError
  disk : Disk

/-- The deletion of a file in the loop, and the size that is left. -/
def deleteFile (written : Written) (file : FileInfo) (currentSize : UInt64) (disk : Disk) :
    Except Thrown (UInt64 × Disk) :=
  if disk.tree.has file.path then
    let tree := modifyYamls written file disk.tree
    match tree.remove file.path with
    | .ok tree => .ok (currentSize - file.size, { disk with tree })
    | .error error => .error ⟨error, { disk with tree }⟩
  else .ok (currentSize, disk)

/-- The removal of a file's directory in the loop.  `hasDBFile` looks at the entries right below the
directory, `remove_all` takes everything below it. -/
def deleteParentDir (file : FileInfo) (disk : Disk) : Except Thrown Disk :=
  let parentDir := file.parentDir
  match disk.tree.directoryIterator parentDir with
  | .error error => .error ⟨error, disk⟩
  | .ok entries =>
    let hasDBFile := entries.any fun entry => (dbFile? entry).isSome
    if !hasDBFile && disk.tree.has parentDir then
      .ok { tree := disk.tree.removeAll parentDir,
            removed := disk.removed ++ [(parentDir, disk.tree)] }
    else .ok disk

/-- The loop of `deleteOldestFiles`. -/
def deleteFiles (written : FileInfo → Written) (maxCapacity : UInt64) :
    UInt64 → List FileInfo → Disk → Except Thrown Disk
  | _, [], disk => .ok disk
  | currentSize, file :: files, disk =>
    if currentSize ≤ maxCapacity then .ok disk
    else do
      let (currentSize, disk) ← deleteFile (written file) file currentSize disk
      let disk ← deleteParentDir file disk
      deleteFiles written maxCapacity currentSize files disk

/-- `record_module::deleteOldestFiles`. -/
def deleteOldestFiles (std : TimeSort) (written : FileInfo → Written) (files : List FileInfo)
    (maxCapacity : UInt64) (t : Tree) : Except Thrown Disk :=
  let files := std.sort files
  deleteFiles written maxCapacity (calculateTotalSize files) files { tree := t }

end AimrtComm.RecordPlayback
