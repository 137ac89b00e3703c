import AimrtComm.Database.Wrap

/-!
# Encrypting a database

`encrypt_db` makes a new master key, writes it to the wrap file, and then brings the database under
it: a database that does not exist is created, an existing one is exported into a temporary file
beside it, which then takes its place.  `decrypt_db` opens the database with the key of the wrap
file.

What a database holds is of an arbitrary type, with the two values that the code brings about by
itself (`Contents`).  `DbCalls` says which library calls fail and what a failing call leaves; the
result of detaching is only logged.  A call cannot do what its files do not allow: a database that
is not plain is not exported, and nothing is exported into a file that holds a database already,
which another key does not open.
-/

namespace AimrtComm.Database

/-- What databases hold: nothing at first, and a table after `CREATE TABLE _encryption`. -/
structure Contents (δ : Type) where
  empty : δ
  created : δ
  created_ne_empty : created ≠ empty

/-- A database file: without any bytes, plain, or encrypted under a key. -/
inductive DbFile (δ : Type) where
  | blank
  | plain (data : δ)
  | encrypted (key : List UInt8) (data : δ)
deriving DecidableEq, Repr

/-- The files: the wrap file, the database, and the temporary file `.enc` beside it. -/
structure Files (δ : Type) where
  wrap : Option (List UInt8)
  db : Option (DbFile δ)
  temp : Option (DbFile δ) := none
deriving DecidableEq, Repr

/-- What the library calls of `encrypt_db` after `encrypt_mk` come back with. -/
structure DbCalls (δ : Type) where
  /-- `sqlite3_open`; when it fails, it may leave a file that it has made -/
  openDb : Bool := true
  openMakesFile : Bool := false
  /-- `sqlite3_key_v2` of a new database -/
  keyMain : Bool := true
  /-- `CREATE TABLE` in a new database -/
  createTable : Bool := true
  /-- `SELECT 1` -/
  select : Bool := true
  /-- `ATTACH DATABASE`, which may make the file at once, also when it fails -/
  attach : Bool := true
  attachMakesFile : Bool := false
  /-- `sqlite3_key_v2` of the attached database -/
  keyEncrypted : Bool := true
  /-- `sqlcipher_export`; when it fails, it may leave a part of the data -/
  exportData : Bool := true
  exportLeaves : Option δ := none
  /-- `std::remove` of the database -/
  remove : Bool := true
  /-- `std::rename` of the temporary file -/
  rename : Bool := true
deriving DecidableEq, Repr

/-- What the library calls of one `encrypt_db` come back with. -/
structure Calls (δ : Type) where
  wrap : WrapCalls
  db : DbCalls δ

variable {δ : Type} (contents : Contents δ)

/-- A file after it was opened, which may have made it. -/
def makeFile (makes : Bool) (file : Option (DbFile δ)) : Option (DbFile δ) :=
  if file.isNone && makes then some .blank else file

/-- What a database that is opened without a key holds. -/
def plainData : DbFile δ → Option δ
  | .blank => some contents.empty
  | .plain data => some data
  | .encrypted .. => none

/-- `sqlcipher_export` of a database into the temporary file, under a key. -/
def exportInto (calls : DbCalls δ) (key : List UInt8) (main : DbFile δ)
    (temp : Option (DbFile δ)) : Bool × Option (DbFile δ) :=
  match plainData contents main, temp with
  | some data, none | some data, some .blank =>
    if calls.exportData then (true, some (.encrypted key data))
    else
      match calls.exportLeaves with
      | some part => (false, some (.encrypted key part))
      | none => (false, temp)
  | _, _ => (false, temp)

/-- The branch of `encrypt_db` for a database that does not exist. -/
def createDb (calls : DbCalls δ) (key : List UInt8) (files : Files δ) : Bool × Files δ :=
  if !calls.openDb then (false, { files with db := makeFile calls.openMakesFile files.db })
  else
    -- opening makes the file, which has no bytes until the table is written
    let files := { files with db := makeFile true files.db }
    if !calls.keyMain then (false, files)
    else if !calls.createTable then (false, files)
    else (true, { files with db := some (.encrypted key contents.created) })

/-- The temporary file takes the place of the database. -/
def replaceDb (calls : DbCalls δ) (files : Files δ) : Bool × Files δ :=
  if !calls.remove then (false, files)
  else if !calls.rename then (false, { files with db := none })
  else (true, { files with db := files.temp, temp := none })

/-- The branch of `encrypt_db` for a database that exists. -/
def convertDb (calls : DbCalls δ) (key : List UInt8) (main : DbFile δ) (files : Files δ) :
    Bool × Files δ :=
  if !calls.openDb then (false, files)
  -- the check for an encrypted database, which does not look into the file
  else if !calls.select then (true, files)
  else
    let files := { files with temp := makeFile calls.attachMakesFile files.temp }
    if !calls.attach then (false, files)
    else if !calls.keyEncrypted then (false, files)
    else
      let exported := exportInto contents calls key main files.temp
      let files := { files with temp := exported.2 }
      if !exported.1 then (false, files) else replaceDb calls files

/-- `encrypt_db` after `encrypt_mk`. -/
def encryptFiles (calls : DbCalls δ) (key : List UInt8) (files : Files δ) : Bool × Files δ :=
  match files.db with
  | none => createDb contents calls key files
  | some main => convertDb contents calls key main files

/-- `encrypt_db`: how it is left, and the files. -/
def encryptDb (c : Crypto) (device : Device) (calls : Calls δ) (files : Files δ) :
    Exit Bool × Files δ :=
  match encryptMk c device calls.wrap files.wrap [] with
  | (.returned true, mk, wrap) =>
    let result := encryptFiles contents calls.db mk { files with wrap }
    (.returned result.1, result.2)
  | (exit, _, wrap) => (exit, { files with wrap })

/-- What opening a database with a key yields: one that does not exist is made, and a file without
bytes becomes a database under any key. -/
def openWithKey (key : List UInt8) : Option (DbFile δ) → Option δ
  | none | some .blank => some contents.empty
  | some (.plain _) => none
  | some (.encrypted key' data) => if key' = key then some data else none

/-- `decrypt_db`, when its library calls succeed: what the database that it opens holds. -/
def decryptDb (c : Crypto) (device : Device) (files : Files δ) : Option δ :=
  match decryptMk c device files.wrap [] with
  | (true, mk) => openWithKey contents mk files.db
  | (false, _) => none

end AimrtComm.Database
