import AimrtComm.Database.Values
import AimrtComm.Lib.Columns
import Mathlib.Data.List.TakeWhile

/-!
# A row survives a write and a read

`Survives row`: whenever `insert` or `insert_or_replace` of the row succeeds, in any SQLite that
stores what is bound, the query that selects the row returns it, `bool` and `int` widened.

The two sides meet in one value.  A text is written with its length and read up to its first NUL, an
empty blob has no data to point at, and a length goes through an `int`; what comes through all this
is `Kept`.  `survives_iff` says that a row survives exactly when all its values are kept, or one of
them is a text that no connection accepts.
-/

namespace AimrtComm.Database

/-- The value with `bool` and `int` widened to `int64`. -/
def widen : DBValue → DBValue
  | .bool b => .int64 (if b then 1 else 0)
  | .int i => .int64 i.toInt64
  | v => v

/-- The statement `sql` writes a row of these columns, in which what is bound is stored as it is,
and `select` is the query that selects it. -/
structure StoresBound {Db : Type} (lite : Sqlite Db) (db : Db) (sql : String)
    (columns : List String) (select : String) (params : List DBValue) : Prop where
  parameters : ∀ count, lite.prepare db sql = some count → count = columns.length
  stored : ∀ values db', values.length = columns.length →
    lite.step db sql values = (db', .done) →
      ∃ count bound cells, lite.prepare db' select = some count ∧
        bindParameters lite.toLibrary count params = some bound ∧
        lite.rows db' select bound = [cells] ∧ cells.Perm (columns.zip values)

/-- If the row was written, the query returns it. -/
def Returns {Db : Type} (lite : Sqlite Db) (row : DBRow) (select : String) (params : List DBValue)
    (written : SecureDatabase Db × Bool) : Prop :=
  written.2 = true → (query lite written.1 select params).2 = [row.map fun _ => widen]

/-- The columns of a row. -/
def columnsOf (row : DBRow) : List String := row.toList.map Prod.fst

/-- A row that is written is read back. -/
structure Survives (row : DBRow) : Prop where
  insert : ∀ (Db : Type) (lite : Sqlite Db) (self : SecureDatabase Db) (table select : String)
    (params : List DBValue),
    StoresBound lite self.db (insertSql "INSERT" table (columnsOf row)) (columnsOf row) select
      params →
    Returns lite row select params (insert lite self table row)
  insertOrReplace : ∀ (Db : Type) (lite : Sqlite Db) (self : SecureDatabase Db)
    (table select : String) (params : List DBValue),
    StoresBound lite self.db (insertSql "INSERT OR REPLACE" table (columnsOf row)) (columnsOf row)
      select params →
    Returns lite row select params (insertOrReplace lite self table row)

/-- A text without a NUL, or a blob that is not empty, whose size is an `int`; any value of another
kind. -/
def Kept : DBValue → Prop
  | .text s => 0 ∉ s ∧ s.length < 2 ^ 31
  | .blob v => v ≠ [] ∧ v.length < 2 ^ 31
  | _ => True

/-- A text whose size is a negative `int` and that goes on for `2 ^ 31` bytes before a NUL. -/
def Refused : DBValue → Prop
  | .text s => 2 ^ 31 ≤ s.length % 2 ^ 32 ∧ 2 ^ 31 ≤ (cString s).length
  | _ => False

/-- No column holds a floating point number. -/
def NoDouble (row : DBRow) : Prop :=
  ∀ (column : String) (bits : UInt64), row[column]? ≠ some (.double bits)

/-! ### One value -/

theorem castInt_of_lt {size : ℕ} (h : size < 2 ^ 31) : castInt size = size := by
  rw [castInt]
  split_ifs <;> omega

theorem castInt_neg_iff {size : ℕ} : castInt size < 0 ↔ 2 ^ 31 ≤ size % 2 ^ 32 := by
  rw [castInt]
  split_ifs <;> omega

theorem toNat_castInt_lt (size : ℕ) : (castInt size).toNat < 2 ^ 31 := by
  rw [castInt]
  split_ifs <;> omega

theorem cString_eq_self_iff {s : List UInt8} : cString s = s ↔ 0 ∉ s := by
  rw [cString]
  induction s with
  | nil => simp
  | cons b s ih =>
    rw [List.takeWhile_cons, List.mem_cons, not_or]
    by_cases hb : b = 0
    · simp [hb]
    · simpa [hb, Ne.symm hb] using ih

theorem not_mem_cString (s : List UInt8) : 0 ∉ cString s := by
  intro hmem
  have hne := List.mem_takeWhile_imp hmem
  simp at hne

/-- What `Kept` says is enough. -/
theorem extractValue_of_kept {lib : Library} {v : DBValue} {s : Stored} (hkept : Kept v)
    (hdouble : ∀ bits, v ≠ .double bits) (hbind : bindValue lib v = some s) :
    extractValue s = widen v := by
  cases v with
  | null =>
    obtain rfl := Option.some.inj hbind
    rfl
  | bool b =>
    obtain rfl := Option.some.inj hbind
    rfl
  | int i =>
    obtain rfl := Option.some.inj hbind
    rfl
  | int64 i =>
    obtain rfl := Option.some.inj hbind
    rfl
  | double bits => exact absurd rfl (hdouble bits)
  | text t =>
    have hn : ¬ castInt t.length < 0 := by
      rw [castInt_of_lt hkept.2]
      omega
    -- the size fits into an `int`, so all of the text is bound
    rw [bindValue, Library.bindText, if_neg hn, castInt_of_lt hkept.2, Int.toNat_natCast,
      List.take_length] at hbind
    split_ifs at hbind
    obtain rfl := Option.some.inj hbind
    exact congrArg DBValue.text (cString_eq_self_iff.mpr hkept.1)
  | blob b =>
    have hdata : lib.data b = some b := by
      rw [Library.data, if_neg]
      simp [hkept.1]
    have hn : ¬ castInt b.length < 0 := by
      rw [castInt_of_lt hkept.2]
      omega
    rw [bindValue, hdata, Library.bindBlob, if_neg hn, castInt_of_lt hkept.2, Int.toNat_natCast,
      List.take_length] at hbind
    split_ifs at hbind
    obtain rfl := Option.some.inj hbind
    rfl

theorem bindValue_of_refused {lib : Library} {v : DBValue} (h : Refused v) :
    bindValue lib v = none := by
  cases v with
  | text s =>
    have hlimit := lib.lengthLimit_lt
    -- a negative size stands for all up to the first NUL, which is longer than any limit
    have hlong : ¬ lib.within (cString s) := by
      have hlength := h.2
      rw [Library.within, decide_eq_true_eq]
      omega
    rw [bindValue, Library.bindText, if_pos (castInt_neg_iff.mpr h.1), if_neg hlong]
  | _ => exact h.elim

/-- Libraries that keep no more than they have to. -/
def strict : Library where
  lengthLimit := 2 ^ 31 - 1
  lengthLimit_lt := by omega
  negativeBlob := fun _ => some .null
  emptyDataNull := true

theorem within_strict {bytes : List UInt8} : strict.within bytes ↔ bytes.length < 2 ^ 31 := by
  rw [Library.within, decide_eq_true_eq]
  show bytes.length ≤ 2 ^ 31 - 1 ↔ _
  omega

theorem within_strict_take (bytes : List UInt8) (size : ℕ) :
    strict.within (bytes.take (castInt size).toNat) := by
  have hlength := List.length_take_le (castInt size).toNat bytes
  have hcast := toNat_castInt_lt size
  rw [within_strict]
  omega

theorem bindValue_strict {v : DBValue} (h : ¬ Refused v) : bindValue strict v ≠ none := by
  cases v with
  | text s =>
    rw [bindValue, Library.bindText]
    by_cases hn : castInt s.length < 0
    · have hshort : strict.within (cString s) := by
        rw [within_strict]
        by_contra hlong
        exact h ⟨castInt_neg_iff.mp hn, by omega⟩
      simp [hn, hshort]
    · simp [hn, within_strict_take]
  | blob b =>
    rw [bindValue]
    cases strict.data b with
    | none => simp [Library.bindBlob]
    | some v =>
      rw [Library.bindBlob]
      by_cases hn : castInt b.length < 0
      · simp [hn, strict]
      · simp [hn, within_strict_take]
  | _ => simp [bindValue]

/-- A size that is not an `int` does not come back as it was. -/
theorem take_castInt_ne {bytes : List UInt8} (h : 2 ^ 31 ≤ bytes.length) :
    bytes.take (castInt bytes.length).toNat ≠ bytes := by
  intro heq
  have hlength := congrArg List.length heq
  have hcast := toNat_castInt_lt bytes.length
  rw [List.length_take] at hlength
  omega

/-- What `Kept` says is necessary. -/
theorem kept_of_strict {v : DBValue} {s : Stored} (hbind : bindValue strict v = some s)
    (hsame : extractValue s = widen v) : Kept v := by
  cases v with
  | text t =>
    have hfound : ∃ bytes, s = .text bytes ∧ (castInt t.length < 0 ∧ bytes.length < 2 ^ 31 ∨
        bytes = t.take (castInt t.length).toNat) := by
      rw [bindValue, Library.bindText] at hbind
      by_cases hn : castInt t.length < 0
      · rw [if_pos hn] at hbind
        split_ifs at hbind with hwithin
        exact ⟨cString t, (Option.some.inj hbind).symm, .inl ⟨hn, within_strict.mp hwithin⟩⟩
      · rw [if_neg hn] at hbind
        split_ifs at hbind
        exact ⟨_, (Option.some.inj hbind).symm, .inr rfl⟩
    obtain ⟨bytes, rfl, hbytes⟩ := hfound
    have hread : cString bytes = t := DBValue.text.inj hsame
    -- what is read ends at the first NUL, so it has none
    have hstart : (cString bytes).length ≤ bytes.length := (List.takeWhile_prefix _).length_le
    have hnul : 0 ∉ t := by
      rw [← hread]
      exact not_mem_cString bytes
    refine ⟨hnul, ?_⟩
    rw [hread] at hstart
    rcases hbytes with ⟨-, hshort⟩ | htake
    · omega
    · have hcast := toNat_castInt_lt t.length
      rw [htake, List.length_take] at hstart
      omega
  | blob b =>
    have hne : b ≠ [] := by
      -- an empty blob is bound as NULL here
      rintro rfl
      have hnull : bindValue strict (.blob []) = some .null := rfl
      rw [hnull] at hbind
      obtain rfl := Option.some.inj hbind
      cases hsame
    have hdata : strict.data b = some b := by
      rw [Library.data, if_neg]
      simp [hne]
    refine ⟨hne, ?_⟩
    rw [bindValue, hdata, Library.bindBlob] at hbind
    by_cases hn : castInt b.length < 0
    · rw [if_pos hn] at hbind
      obtain rfl := Option.some.inj hbind
      cases hsame
    -- a size of another value as an `int` cuts the blob off
    · rw [if_neg hn, if_pos (within_strict_take _ _)] at hbind
      obtain rfl := Option.some.inj hbind
      by_contra hlong
      exact take_castInt_ne (by omega) (DBValue.blob.inj hsame)
  | _ => trivial

/-! ### One row -/

section Row

variable {Db : Type} {lite : Sqlite Db} {row : DBRow}

/-- What a successful `bind_parameters` has bound, when every parameter of the statement is
there. -/
theorem mapM_of_bindParameters {lib : Library} {params : List DBValue} {values : List Stored}
    (h : bindParameters lib params.length params = some values) :
    params.mapM (bindValue lib) = some values := by
  rw [bindParameters, if_pos (Nat.le_refl _), Nat.sub_self, List.replicate_zero] at h
  simpa using h

/-- A write that succeeds has bound every value of the row and stepped to the end. -/
theorem insertWith_true {verb table : String} {self : SecureDatabase Db}
    (hparams : ∀ count, lite.prepare self.db (insertSql verb table (columnsOf row)) = some count →
      count = (columnsOf row).length)
    (h : (insertWith lite verb self table row).2 = true) :
    ∃ values db, (row.toList.map Prod.snd).mapM (bindValue lite.toLibrary) = some values ∧
      lite.step self.db (insertSql verb table (columnsOf row)) values = (db, .done) ∧
      (insertWith lite verb self table row).1 = { self with db := db } := by
  have hsql : insertSql verb table (row.toList.map Prod.fst) =
      insertSql verb table (columnsOf row) := rfl
  rw [insertWith] at h ⊢
  split_ifs at h ⊢
  rw [execute, hsql] at h ⊢
  cases hprepare : lite.prepare self.db (insertSql verb table (columnsOf row)) with
  | none => simp [hprepare] at h
  | some count =>
    have hcount : count = (row.toList.map Prod.snd).length := by
      rw [hparams count hprepare, columnsOf, List.length_map, List.length_map]
    cases hbind : bindParameters lite.toLibrary count (row.toList.map Prod.snd) with
    | none => simp [hprepare, hbind] at h
    | some values =>
      have hmap := hbind
      rw [hcount] at hmap
      cases hstep : lite.step self.db (insertSql verb table (columnsOf row)) values with
      | mk db code =>
        cases code with
        | done =>
          refine ⟨values, db, mapM_of_bindParameters hmap, hstep, ?_⟩
          simp [hbind, hstep]
        | row => simp [hprepare, hbind, hstep] at h
        | error => simp [hprepare, hbind, hstep] at h

/-- What a query returns is what its rows decode to. -/
theorem query_snd {self : SecureDatabase Db} {select : String} {params : List DBValue} {count : ℕ}
    {bound : List Stored} {cells : List (String × Stored)}
    (hprepare : lite.prepare self.db select = some count)
    (hbind : bindParameters lite.toLibrary count params = some bound)
    (hrows : lite.rows self.db select bound = [cells]) :
    (query lite self select params).2 = [Columns.decodeAll extractValue cells] := by
  simp only [query, hprepare, hbind, hrows]
  rfl

/-- A row of kept values comes back, whatever the SQLite. -/
theorem returns_of_kept {verb table select : String} {self : SecureDatabase Db}
    {params : List DBValue} (hdouble : NoDouble row)
    (hkept : ∀ (column : String) (v : DBValue), row[column]? = some v → Kept v)
    (hstores : StoresBound lite self.db (insertSql verb table (columnsOf row)) (columnsOf row)
      select params) :
    Returns lite row select params (insertWith lite verb self table row) := by
  intro hwritten
  obtain ⟨values, db, hvalues, hstep, hself⟩ := insertWith_true hstores.parameters hwritten
  have hlength : values.length = (columnsOf row).length := by
    rw [Columns.length_of_mapM hvalues, columnsOf, List.length_map, List.length_map]
  obtain ⟨count, bound, cells, hprepare, hbind, hrows, hcells⟩ :=
    hstores.stored values db hlength hstep
  have hrow : Columns.decodeAll extractValue cells = row.map fun _ => widen := by
    rw [Columns.decodeAll_eq_map_iff hvalues hcells]
    intro column v s hv hs
    exact extractValue_of_kept (hkept column v hv)
      (fun bits hbits => hdouble column bits (hbits ▸ hv)) hs
  rw [hself, query_snd hprepare hbind hrows, hrow]

/-- A row with a refused value is not written. -/
theorem returns_of_refused {verb table select : String} {self : SecureDatabase Db}
    {params : List DBValue}
    (hrefused : ∃ (column : String) (v : DBValue), row[column]? = some v ∧ Refused v)
    (hstores : StoresBound lite self.db (insertSql verb table (columnsOf row)) (columnsOf row)
      select params) :
    Returns lite row select params (insertWith lite verb self table row) := by
  intro hwritten
  obtain ⟨values, db, hvalues, -, -⟩ := insertWith_true hstores.parameters hwritten
  obtain ⟨column, v, hv, hrefused⟩ := hrefused
  have hmem : v ∈ row.toList.map Prod.snd :=
    List.mem_map_of_mem (Std.ExtTreeMap.mem_toList_iff_getElem?_eq_some.mpr hv)
  exact absurd (bindValue_of_refused hrefused) (Columns.ne_none_of_mapM hvalues v hmem)

end Row

/-! ### A file of one row -/

/-- SQLite over a file that holds the last row written into `columns`. -/
def oneRow (columns : List String) : Sqlite (Option (List Stored)) where
  toLibrary := strict
  prepare := fun db _ => if db.isNone then some columns.length else some 0
  step := fun _ _ values => (some values, .done)
  rows := fun db _ _ => db.toList.map columns.zip
  errmsg := fun _ _ => ""

theorem storesBound_oneRow (columns : List String) (sql select : String) :
    StoresBound (oneRow columns) none sql columns select [] where
  parameters := fun _ hcount => (Option.some.inj hcount).symm
  stored := by
    intro values db' _ hstep
    obtain ⟨rfl, -⟩ := Prod.mk.inj hstep
    exact ⟨0, [], columns.zip values, rfl, rfl, rfl, List.Perm.refl _⟩

/-- A row without refused values is written there. -/
theorem insertWith_oneRow {row : DBRow} {values : List Stored} (verb table : String)
    (hne : row.isEmpty = false)
    (hvalues : (row.toList.map Prod.snd).mapM (bindValue strict) = some values) :
    insertWith (oneRow (columnsOf row)) verb ⟨none, ""⟩ table row = (⟨some values, ""⟩, true) := by
  have hlength : (row.toList.map Prod.snd).length = (columnsOf row).length := by
    rw [columnsOf, List.length_map, List.length_map]
  have hbind : bindParameters strict (columnsOf row).length (row.toList.map Prod.snd) =
      some values := by
    rw [bindParameters, hlength, if_pos (Nat.le_refl _), hvalues]
    simp
  simp [insertWith, hne, execute, oneRow, hbind]

/-- **A row that comes back from there is kept.** -/
theorem kept_of_returns {row : DBRow} (verb table select : String)
    (hrefused : ∀ (column : String) (v : DBValue), row[column]? = some v → ¬ Refused v)
    (h : Returns (oneRow (columnsOf row)) row select []
      (insertWith (oneRow (columnsOf row)) verb ⟨none, ""⟩ table row)) :
    ∀ (column : String) (v : DBValue), row[column]? = some v → Kept v := by
  intro column v hv
  have hne : row.isEmpty = false := by
    rw [Std.ExtTreeMap.isEmpty_eq_false_iff]
    rintro rfl
    simp at hv
  have hbinds : ∀ w ∈ row.toList.map Prod.snd, bindValue strict w ≠ none := by
    intro w hw
    obtain ⟨⟨k, w'⟩, hmem, rfl⟩ := List.mem_map.mp hw
    exact bindValue_strict
      (hrefused k w' (Std.ExtTreeMap.mem_toList_iff_getElem?_eq_some.mp hmem))
  obtain ⟨values, hvalues⟩ := Columns.exists_mapM hbinds
  rw [insertWith_oneRow verb table hne hvalues] at h
  have hquery : (query (oneRow (columnsOf row)) ⟨some values, ""⟩ select []).2 =
      [Columns.decodeAll extractValue ((columnsOf row).zip values)] := query_snd rfl rfl rfl
  have hsame := (List.cons.inj (hquery.symm.trans (h rfl))).1
  obtain ⟨s, hs⟩ := Option.ne_none_iff_exists'.mp (bindValue_strict (hrefused column v hv))
  exact kept_of_strict hs
    ((Columns.decodeAll_eq_map_iff hvalues (List.Perm.refl _)).mp hsame column v s hv hs)

/-! ### Every row -/

/-- **A row survives a write and a read if and only if** every value is kept, unless some text in it
is never accepted. -/
theorem survives_iff {row : DBRow} (hdouble : NoDouble row) :
    Survives row ↔
      (∃ (column : String) (v : DBValue), row[column]? = some v ∧ Refused v) ∨
        ∀ (column : String) (v : DBValue), row[column]? = some v → Kept v := by
  constructor
  · intro h
    -- the library that keeps the least decides
    by_cases hrefused : ∃ (column : String) (v : DBValue), row[column]? = some v ∧ Refused v
    · exact .inl hrefused
    · right
      apply kept_of_returns "INSERT" "t" "SELECT * FROM t"
      · intro column v hv hr
        exact hrefused ⟨column, v, hv, hr⟩
      · exact h.insert _ _ _ _ _ _ (storesBound_oneRow _ _ _)
  · rintro (hrefused | hkept)
    · constructor
      · intro Db lite self table select params hstores
        exact returns_of_refused hrefused hstores
      · intro Db lite self table select params hstores
        exact returns_of_refused hrefused hstores
    · constructor
      · intro Db lite self table select params hstores
        exact returns_of_kept hdouble hkept hstores
      · intro Db lite self table select params hstores
        exact returns_of_kept hdouble hkept hstores

/-- The row of these entries. -/
def rowOf (entries : List (String × DBValue)) : DBRow := Columns.decodeAll id entries

theorem mem_of_getElem?_rowOf {entries : List (String × DBValue)}
    (hkeys : (entries.map Prod.fst).Nodup) {column : String} {v : DBValue}
    (h : (rowOf entries)[column]? = some v) : (column, v) ∈ entries := by
  obtain ⟨w, hw, rfl⟩ := (Columns.getElem?_decodeAll hkeys).mp h
  exact hw

/-- One value of each kind. -/
def sampleEntries : List (String × DBValue) :=
  [("flag", .bool true), ("n", .int (-3)), ("name", .text [97, 98]), ("none", .null),
    ("raw", .blob [0, 255]), ("stamp", .int64 7)]

theorem survives_iff_sample : Survives (rowOf sampleEntries) := by
  have hkeys : (sampleEntries.map Prod.fst).Nodup := by decide
  have hdouble : NoDouble (rowOf sampleEntries) := by
    intro column bits h
    have hmem := mem_of_getElem?_rowOf hkeys h
    simp [sampleEntries] at hmem
  apply (survives_iff hdouble).mpr
  right
  intro column v h
  have hmem := mem_of_getElem?_rowOf hkeys h
  simp only [sampleEntries, List.mem_cons, Prod.mk.injEq, List.not_mem_nil, or_false] at hmem
  rcases hmem with ⟨-, rfl⟩ | ⟨-, rfl⟩ | ⟨-, rfl⟩ | ⟨-, rfl⟩ | ⟨-, rfl⟩ | ⟨-, rfl⟩ <;> simp [Kept]

/-- A text with a NUL inside comes back without what is behind it. -/
theorem nul_text_lost : ¬ ∀ row : DBRow, NoDouble row → Survives row := by
  intro h
  have honly : ∀ (column : String) (v : DBValue),
      (rowOf [("a", .text [97, 0, 98])])[column]? = some v → v = .text [97, 0, 98] := by
    intro column v hv
    have hmem := mem_of_getElem?_rowOf (by decide) hv
    exact (Prod.mk.inj (List.mem_singleton.mp hmem)).2
  have hdouble : NoDouble (rowOf [("a", .text [97, 0, 98])]) := by
    intro column bits hv
    cases honly column _ hv
  have hrefused : ∀ (column : String) (v : DBValue),
      (rowOf [("a", .text [97, 0, 98])])[column]? = some v → ¬ Refused v := by
    intro column v hv
    rw [honly column v hv]
    simp [Refused]
  have hkept := kept_of_returns "INSERT" "t" "SELECT * FROM t" hrefused
    ((h _ hdouble).insert _ _ _ _ _ _ (storesBound_oneRow _ _ _))
  have hget : (rowOf [("a", .text [97, 0, 98])])["a"]? = some (.text [97, 0, 98]) :=
    (Columns.getElem?_decodeAll (by decide)).mpr ⟨_, List.mem_singleton_self _, rfl⟩
  exact (hkept "a" _ hget).1 (by decide)

end AimrtComm.Database
