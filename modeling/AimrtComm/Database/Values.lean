import Mathlib.Algebra.Group.Int.Defs
import Mathlib.Algebra.Group.Nat.Defs
import Mathlib.Data.Int.Init
import Mathlib.Data.List.Basic
import Mathlib.Data.String.Basic
import Std.Data.ExtTreeMap

/-!
# Reading and writing rows

`SecureDatabase` writes a row with `insert` and `insert_or_replace` and reads rows back with
`query`.  Every value goes through the C interface of SQLite: `bind_parameters` hands it over as a
number or as a pointer with a length, `extract_value` makes a value of what a column then says it
is.

SQLite itself is a `Sqlite` over the contents of a database file.  Texts and blobs are bytes, a
floating point number is its 64 bits.
-/

namespace AimrtComm.Database

/-- `DBValue`. -/
inductive DBValue where
  | null
  | bool (b : Bool)
  | int (i : Int32)
  | int64 (i : Int64)
  | double (bits : UInt64)
  | text (s : List UInt8)
  | blob (v : List UInt8)
  deriving DecidableEq

/-- `DBRow`: the values of a row, in the order of their columns' names. -/
abbrev DBRow : Type := Std.ExtTreeMap String DBValue

/-! ### SQLite -/

/-- A value of one of the storage classes. -/
inductive Stored where
  | null
  | integer (i : Int64)
  | real (bits : UInt64)
  | text (bytes : List UInt8)
  | blob (bytes : List UInt8)
  deriving DecidableEq

/-- What is left to the libraries as they are built: the longest text or blob a connection accepts,
what binding a blob of negative length does, and whether `data()` of an empty vector is null. -/
structure Library where
  lengthLimit : ℕ
  lengthLimit_lt : lengthLimit < 2 ^ 31
  negativeBlob : List UInt8 → Option Stored
  emptyDataNull : Bool

/-- What `sqlite3_step` comes back with. -/
inductive StepCode where
  | row
  | done
  | error
  deriving DecidableEq

/-- Running statements over the contents `Db` of a database: the number of parameters of a statement
that prepares, one step of it, the result rows it steps through, and the message of a failure. -/
structure Sqlite (Db : Type) extends Library where
  prepare : Db → String → Option ℕ
  step : Db → String → List Stored → Db × StepCode
  rows : Db → String → List Stored → List (List (String × Stored))
  errmsg : Db → String → String

/-- The bytes of a text up to the first NUL. -/
def cString (s : List UInt8) : List UInt8 := s.takeWhile (· ≠ 0)

/-- Bytes that are not too long for the connection. -/
def Library.within (lib : Library) (bytes : List UInt8) : Bool := bytes.length ≤ lib.lengthLimit

/-- `sqlite3_bind_text` of a NUL-terminated buffer: a negative length is up to the first NUL. -/
def Library.bindText (lib : Library) (s : List UInt8) (n : ℤ) : Option Stored :=
  let bytes := if n < 0 then cString s else s.take n.toNat
  if lib.within bytes then some (.text bytes) else none

/-- `sqlite3_bind_blob`: a null pointer binds NULL. -/
def Library.bindBlob (lib : Library) (data : Option (List UInt8)) (n : ℤ) : Option Stored :=
  match data with
  | none => some .null
  | some v =>
    if n < 0 then lib.negativeBlob v
    else if lib.within (v.take n.toNat) then some (.blob (v.take n.toNat)) else none

/-- `sqlite3_bind_double`: what is not a number binds NULL. -/
def bindDouble (bits : UInt64) : Stored :=
  if bits &&& 0x7FFFFFFFFFFFFFFF > 0x7FF0000000000000 then .null else .real bits

/-! ### `SecureDatabase` -/

/-- `std::vector::data`. -/
def Library.data (lib : Library) (v : List UInt8) : Option (List UInt8) :=
  if v.isEmpty && lib.emptyDataNull then none else some v

/-- `static_cast<int>` of a size. -/
def castInt (size : ℕ) : ℤ :=
  let low : ℕ := size % 2 ^ 32
  if low < 2 ^ 31 then (low : ℤ) else (low : ℤ) - (2 ^ 32 : ℕ)

/-- One turn of the loop of `bind_parameters`. -/
def bindValue (lib : Library) : DBValue → Option Stored
  | .null => some .null
  | .bool b => some (.integer (if b then 1 else 0))
  | .int i => some (.integer i.toInt64)
  | .int64 i => some (.integer i)
  | .double bits => some (bindDouble bits)
  | .text s => lib.bindText s (castInt s.length)
  | .blob v => lib.bindBlob (lib.data v) (castInt v.length)

/-- `bind_parameters`, for a statement of `count` parameters: an index behind the last parameter is
out of range, and a parameter that is not bound is NULL. -/
def bindParameters (lib : Library) (count : ℕ) (params : List DBValue) : Option (List Stored) :=
  if params.length ≤ count then
    (params.mapM (bindValue lib)).map fun values =>
      values ++ List.replicate (count - params.length) .null
  else none

/-- `extract_value`. -/
def extractValue : Stored → DBValue
  | .integer i => .int64 i
  | .real bits => .double bits
  | .text bytes => .text (cString bytes)
  | .blob bytes => .blob bytes
  | .null => .null

/-- `SecureDatabase`: the contents of the file it has open, and `last_error_`. -/
structure SecureDatabase (Db : Type) where
  db : Db
  lastError : String

variable {Db : Type} (lite : Sqlite Db)

/-- `execute`. -/
def execute (self : SecureDatabase Db) (sql : String) (params : List DBValue) :
    SecureDatabase Db × Bool :=
  match lite.prepare self.db sql with
  | none => ({ self with lastError := lite.errmsg self.db sql }, false)
  | some count =>
    match bindParameters lite.toLibrary count params with
    | none => ({ self with lastError := "Failed to bind parameters" }, false)
    | some values =>
      match lite.step self.db sql values with
      | (db, .done) => ({ self with db := db }, true)
      | (db, _) => ({ db := db, lastError := lite.errmsg db sql }, false)

/-- A row as `query` reads it. -/
def readRow (cells : List (String × Stored)) : DBRow :=
  cells.foldl (fun row cell => row.insert cell.1 (extractValue cell.2)) ∅

/-- `query`. -/
def query (self : SecureDatabase Db) (sql : String) (params : List DBValue) :
    SecureDatabase Db × List DBRow :=
  match lite.prepare self.db sql with
  | none => ({ self with lastError := lite.errmsg self.db sql }, [])
  | some count =>
    match bindParameters lite.toLibrary count params with
    | none => ({ self with lastError := "Failed to bind parameters" }, [])
    | some values => (self, (lite.rows self.db sql values).map readRow)

/-- The statement that writes a row of these columns. -/
def insertSql (verb table : String) (columns : List String) : String :=
  verb ++ " INTO " ++ table ++ " (" ++ ",".intercalate columns ++ ") VALUES (" ++
    ",".intercalate (columns.map fun _ => "?") ++ ")"

/-- What `insert` and `insert_or_replace` do alike: the columns and the parameters are collected in
the order of the map. -/
def insertWith (verb : String) (self : SecureDatabase Db) (table : String) (data : DBRow) :
    SecureDatabase Db × Bool :=
  if data.isEmpty then (self, false)
  else execute lite self (insertSql verb table (data.toList.map Prod.fst))
    (data.toList.map Prod.snd)

/-- `insert`. -/
def insert (self : SecureDatabase Db) (table : String) (data : DBRow) :
    SecureDatabase Db × Bool :=
  insertWith lite "INSERT" self table data

/-- `insert_or_replace`. -/
def insertOrReplace (self : SecureDatabase Db) (table : String) (data : DBRow) :
    SecureDatabase Db × Bool :=
  insertWith lite "INSERT OR REPLACE" self table data

end AimrtComm.Database
