import AimrtComm.Database.Security
import AimrtComm.Database.Equiv.Wrap
import AimrtComm.Lib.Transition

/-!
## What `encrypt_db` does to the data

`encrypt_db` puts a new key into the wrap file before it looks at the database.  A database that is
encrypted already stays as it is, under the old key (`db_convertDb_encrypted`), so it is lost as
soon as the wrap file is opened; only the data of a database without bytes, or of one that does not
exist yet, is still there afterwards (`preserves_iff`).

A failed call can be made again as long as the failures come before anything is left: in a run of
failed calls, the files stay `Intact` up to the first call that leaves an exported file behind.  If
that call fails at the rename, the database is `Gone` and the next call makes a new one, or an empty
file when it fails as well.  In every other case the files are `Blocked`: a temporary file that
cannot be exported into again stands beside a database.  A run of failed calls leads to one of the
three (`run_left`), so the last call succeeds with the data exactly when no call before it left
anything, or only the very last one did and the data were those of a new database (`retry_iff`).
-/

namespace AimrtComm.Database

variable {δ : Type} {contents : Contents δ} {c : Crypto} {device : Device}

/-! ### The branches -/

/-- An export succeeds with the data of a plain database. -/
theorem exportInto_true {calls : DbCalls δ} {key : List UInt8} {main : DbFile δ}
    {temp : Option (DbFile δ)} (h : (exportInto contents calls key main temp).1 = true) :
    ∃ data, plainData contents main = some data ∧
      (exportInto contents calls key main temp).2 = some (.encrypted key data) := by
  unfold exportInto at h ⊢
  split
  iterate 2
    rename_i data hdata
    rw [hdata] at h
    dsimp only at h
    split_ifs at h ⊢
    · exact ⟨data, hdata, rfl⟩
    · split at h <;> exact absurd h Bool.false_ne_true
  · rename_i hnone hblank
    split at h
    · exact absurd rfl (hnone _ ‹_›)
    · exact absurd rfl (hblank _ ‹_›)
    · exact absurd h Bool.false_ne_true

/-- A database that is not plain is not exported. -/
theorem exportInto_of_not_plain {calls : DbCalls δ} {key : List UInt8} {main : DbFile δ}
    (h : plainData contents main = none) (temp : Option (DbFile δ)) :
    exportInto contents calls key main temp = (false, temp) := by
  unfold exportInto
  rw [h]

/-- An encrypted database stays as it is. -/
theorem db_convertDb_encrypted (calls : DbCalls δ) (key key' : List UInt8) (data : δ)
    (files : Files δ) :
    (convertDb contents calls key (.encrypted key' data) files).2.db = files.db := by
  unfold convertDb
  dsimp only
  rw [exportInto_of_not_plain rfl]
  split_ifs with _ _ _ _ hexport
  all_goals try rfl
  exact absurd rfl hexport

/-- A database without bytes is empty under the new key, however the conversion goes. -/
theorem openWithKey_convertDb_blank (calls : DbCalls δ) (key : List UInt8) {files : Files δ}
    (hdb : files.db = some .blank) :
    openWithKey contents key (convertDb contents calls key .blank files).2.db =
      some contents.empty := by
  have hblank : openWithKey contents key files.db = some contents.empty := by
    rw [hdb]
    rfl
  unfold convertDb replaceDb
  dsimp only
  split_ifs with _ _ _ _ hexport
  all_goals try exact hblank
  · rfl
  · -- all went well: the exported file has taken the place of the database
    rw [Bool.not_eq_true', Bool.not_eq_false] at hexport
    obtain ⟨data, hdata, htemp⟩ := exportInto_true hexport
    obtain rfl : contents.empty = data := Option.some.inj hdata
    rw [htemp]
    exact if_pos rfl

/-- A new database holds the table if all calls succeed, and nothing otherwise. -/
theorem openWithKey_createDb (calls : DbCalls δ) (key : List UInt8) {files : Files δ}
    (hdb : files.db = none) :
    openWithKey contents key (createDb contents calls key files).2.db =
      some (if calls.openDb && calls.keyMain && calls.createTable then contents.created
        else contents.empty) := by
  -- a failed call leaves no file, or one without bytes
  have hmade : ∀ makes, openWithKey contents key (makeFile makes files.db) =
      some contents.empty := by
    intro makes
    unfold makeFile
    rw [hdb]
    rcases makes <;> rfl
  unfold createDb
  rcases calls.openDb
  · exact hmade _
  rcases calls.keyMain
  · exact hmade _
  rcases calls.createTable
  · exact hmade _
  · exact if_pos rfl

/-- Neither branch writes the wrap file. -/
theorem wrap_encryptFiles (calls : DbCalls δ) (key : List UInt8) (files : Files δ) :
    (encryptFiles contents calls key files).2.wrap = files.wrap := by
  unfold encryptFiles
  split
  · unfold createDb
    split_ifs <;> rfl
  · unfold convertDb replaceDb
    dsimp only
    split_ifs <;> rfl

/-! ### Samples -/

/-- The names of the tables of a database. -/
def tables : Contents (List String) where
  empty := []
  created := ["_encryption"]
  created_ne_empty := by decide

/-- An encrypted database, and the wrap file with its key. -/
def sampleFiles : Files (List String) where
  wrap := some (sampleWrap 1)
  db := some (.encrypted (sampleKey 1).val ["users"])

/-! ### Existing data -/

/-- If `decrypt_db` yields some data before `encrypt_db`, it yields the same data after `encrypt_db`
has returned. -/
def Preserves (contents : Contents δ) (c : Crypto) (device : Device) (calls : Calls δ)
    (files : Files δ) : Prop :=
  ∀ data, decryptDb contents c device files = some data →
    ∀ ok, (encryptDb contents c device calls files).1 = .returned ok →
      decryptDb contents c device (encryptDb contents c device calls files).2 = some data

/-- All calls up to the table in a new database succeed. -/
def Calls.createsTable (calls : Calls δ) : Prop :=
  calls.wrap.write = .done ∧ (calls.db.openDb && calls.db.keyMain && calls.db.createTable) = true

/-- There is no data to lose; or the wrap file is not opened; or `fs::permissions` throws; or the
new wrap file is complete, and the database has no bytes, or does not exist and is not created. -/
def Harmless (contents : Contents δ) (c : Crypto) (device : Device) (calls : Calls δ)
    (files : Files δ) : Prop :=
  decryptDb contents c device files = none ∨ calls.wrap.opensWrap = false ∨
    calls.wrap.write = .notPermitted ∨
    (calls.wrap.write = .notSynced ∨ calls.wrap.write = .done) ∧
      (files.db = some .blank ∨ files.db = none ∧ ¬ calls.createsTable)

theorem decryptDb_of_key {files : Files δ} {mk : List UInt8}
    (h : decryptMk c device files.wrap [] = (true, mk)) :
    decryptDb contents c device files = openWithKey contents mk files.db := by
  unfold decryptDb
  rw [h]

/-- Data that `decrypt_db` yields are encrypted under the key of the wrap file, or there are
none. -/
theorem decryptDb_eq_some {files : Files δ} {data : δ}
    (h : decryptDb contents c device files = some data) :
    (files.db = none ∨ files.db = some .blank) ∧ data = contents.empty ∨
      ∃ key, files.db = some (.encrypted key data) ∧
        decryptMk c device files.wrap [] = (true, key) := by
  unfold decryptDb at h
  split at h
  · rename_i mk hmk
    unfold openWithKey at h
    split at h
    · rename_i hdb
      exact Or.inl ⟨Or.inl hdb, (Option.some.inj h).symm⟩
    · rename_i hdb
      exact Or.inl ⟨Or.inr hdb, (Option.some.inj h).symm⟩
    · exact nomatch h
    · rename_i key data' hdb
      split_ifs at h with hkey
      obtain rfl := Option.some.inj h
      exact Or.inr ⟨key, hdb, hkey ▸ hmk⟩
  · exact nomatch h

/-- An encrypted database is not opened with another key. -/
theorem openWithKey_of_ne {key key' : List UInt8} (hne : key' ≠ key) (data : δ) :
    openWithKey contents key (some (.encrypted key' data)) = none := if_neg hne

/-- A database is opened with its own key. -/
theorem openWithKey_self (key : List UInt8) (data : δ) :
    openWithKey contents key (some (.encrypted key data)) = some data := if_pos rfl

/-- A database that `decrypt_db` finds data in, under a key other than a new one. -/
def Readable (contents : Contents δ) (db : Option (DbFile δ)) (key : List UInt8) (data : δ) :
    Prop :=
  (db = none ∨ db = some .blank) ∧ data = contents.empty ∨
    ∃ key', db = some (.encrypted key' data) ∧ key' ≠ key

/-- The data are still there under the new key exactly when there are none. -/
theorem openWithKey_iff {db : Option (DbFile δ)} {key : List UInt8} {data : δ}
    (h : Readable contents db key data) :
    openWithKey contents key db = some data ↔ db = some .blank ∨ db = none := by
  rcases h with ⟨rfl | rfl, rfl⟩ | ⟨key', rfl, hne⟩
  · exact iff_of_true rfl (Or.inr rfl)
  · exact iff_of_true rfl (Or.inl rfl)
  · rw [openWithKey_of_ne hne]
    simp

/-- After the branches the data are there under the new key when there are none and no table was
made. -/
theorem openWithKey_encryptFiles_iff (calls : DbCalls δ) (files : Files δ) {key : List UInt8}
    {data : δ} (h : Readable contents files.db key data) :
    openWithKey contents key (encryptFiles contents calls key files).2.db = some data ↔
      files.db = some .blank ∨
        files.db = none ∧ ¬ (calls.openDb && calls.keyMain && calls.createTable) = true := by
  unfold encryptFiles
  rcases h with ⟨hdb | hdb, rfl⟩ | ⟨key', hdb, hne⟩
  · rw [hdb]
    dsimp only
    rw [openWithKey_createDb calls key hdb, Option.some.injEq]
    split_ifs with hcreates
    · exact iff_of_false contents.created_ne_empty (by simpa [and_assoc] using hcreates)
    · exact iff_of_true rfl (Or.inr ⟨rfl, hcreates⟩)
  · rw [hdb]
    exact iff_of_true (openWithKey_convertDb_blank calls key hdb) (Or.inl rfl)
  · -- an encrypted database stays under its key
    rw [hdb]
    dsimp only
    rw [db_convertDb_encrypted, hdb, openWithKey_of_ne hne]
    simp

/-- **The exact condition under which `encrypt_db` keeps existing data readable**, when the new
master key is not the old one. -/
theorem preserves_iff (contents : Contents δ) (c : Crypto) (device : Device) (calls : Calls δ)
    (files : Files δ)
    (hfresh : ∀ mk, calls.wrap.mkBuf = some mk →
      decryptMk c device files.wrap [] ≠ (true, mk.val)) :
    Preserves contents c device calls files ↔ Harmless contents c device calls files := by
  rcases hbefore : decryptDb contents c device files with _ | data
  · refine iff_of_true (fun data hdata => ?_) (Or.inl hbefore)
    rw [hbefore] at hdata
    exact nomatch hdata
  rcases hopens : calls.wrap.opensWrap
  · -- nothing is written
    refine iff_of_true (fun data hdata ok _ => ?_) (Or.inr (Or.inl hopens))
    unfold encryptDb
    rw [encryptMk_of_not_opensWrap c device hopens]
    exact hdata
  obtain ⟨mk, bytes, hmk, hlength, hkey, hencrypt⟩ :=
    encryptMk_of_opensWrap c device hopens files.wrap []
  have hreadable : Readable contents files.db mk.val data := by
    rcases decryptDb_eq_some hbefore with hnone | ⟨key, hdb, hold⟩
    · exact Or.inl hnone
    · exact Or.inr ⟨key, hdb, fun heq => hfresh mk hmk (heq ▸ hold)⟩
  -- what has to be shown of each way in which the wrap file is written
  have hpreserves : ∀ ok after, encryptDb contents c device calls files = (.returned ok, after) →
      (Preserves contents c device calls files ↔
        decryptDb contents c device after = some data) := by
    intro ok after hafter
    unfold Preserves
    rw [hafter, hbefore]
    constructor
    · exact fun h => h data rfl ok rfl
    · rintro h data' hdata' _ -
      rwa [← Option.some.inj hdata']
  have hharmless : Harmless contents c device calls files ↔ calls.wrap.write = .notPermitted ∨
      (calls.wrap.write = .notSynced ∨ calls.wrap.write = .done) ∧
        (files.db = some .blank ∨ files.db = none ∧ ¬ calls.createsTable) := by
    unfold Harmless
    rw [hbefore, hopens]
    simp
  rw [hharmless]
  unfold Calls.createsTable
  unfold encryptDb at hpreserves
  rw [hencrypt] at hpreserves
  rcases hwrite : calls.wrap.write with _ | written | _ | _ | _ <;>
    rw [hwrite] at hpreserves <;> dsimp only at hpreserves
  · -- the file was opened
    unfold WrapCalls.opensWrap at hopens
    rw [hwrite] at hopens
    exact absurd hopens (by simp)
  · -- a part of the new file has no key
    rw [hpreserves _ _ rfl]
    have hshort : (bytes.take written).length < 100 := by
      rw [List.length_take]
      omega
    unfold decryptDb
    rw [decryptMk_of_short hshort]
    simp
  · rw [hpreserves _ _ rfl, decryptDb_of_key (hkey []), openWithKey_iff hreadable]
    simp
  · -- the function does not return
    refine iff_of_true (fun data' _ ok hok => ?_) (Or.inl rfl)
    unfold encryptDb at hok
    rw [hencrypt, hwrite] at hok
    exact nomatch hok
  · have hafter : decryptMk c device (encryptFiles contents calls.db mk.val
        { files with wrap := some bytes }).2.wrap [] = (true, mk.val) := by
      rw [wrap_encryptFiles]
      exact hkey []
    have hiff := openWithKey_encryptFiles_iff calls.db { files with wrap := some bytes } hreadable
    rw [hpreserves _ _ rfl, decryptDb_of_key hafter, hiff]
    simp

/-- An encrypted database survives when no random bytes are to be had. -/
theorem preserves_iff_sample :
    Preserves tables plainCrypto {} ⟨{ sampleCalls 2 with salt := none }, {}⟩ sampleFiles := by
  refine (preserves_iff tables plainCrypto {} ⟨{ sampleCalls 2 with salt := none }, {}⟩ sampleFiles
    fun mk hmk => ?_).2 (Or.inr (Or.inl rfl))
  obtain rfl := Option.some.inj hmk
  decide +kernel

/-- Encrypting an encrypted database again loses it, though no call fails for an external reason. -/
theorem encryptDb_loses_encrypted :
    ¬ Preserves tables plainCrypto {} ⟨sampleCalls 2, {}⟩ sampleFiles := by
  intro h
  have hbefore : decryptDb tables plainCrypto {} sampleFiles = some ["users"] := by decide +kernel
  have hexit : (encryptDb tables plainCrypto {} ⟨sampleCalls 2, {}⟩ sampleFiles).1 =
      .returned false := by decide +kernel
  have hafter : decryptDb tables plainCrypto {}
      (encryptDb tables plainCrypto {} ⟨sampleCalls 2, {}⟩ sampleFiles).2 = none := by
    decide +kernel
  have hdata := h _ hbefore _ hexit
  rw [hafter] at hdata
  exact nomatch hdata

/-! ### Retrying -/

/-- The library calls that do not make a failed call one that can be made again: all but attaching,
keying, exporting, removing and renaming. -/
def Calls.othersSucceed (calls : Calls δ) : Bool :=
  calls.wrap.opensWrap && calls.wrap.write == .done && calls.db.openDb && calls.db.createTable &&
    calls.db.select

/-- No library call fails for an external reason. -/
def Calls.succeed (calls : Calls δ) : Bool :=
  calls.othersSucceed && calls.db.keyMain && calls.db.attach && calls.db.keyEncrypted &&
    calls.db.exportData && calls.db.remove && calls.db.rename

/-- Calls of `encrypt_db` on a plain database that fail at one of these library calls. -/
def failedCalls (contents : Contents δ) (c : Crypto) (device : Device)
    (wrap : Option (List UInt8)) (data : δ) : System (Files δ) (Calls δ) where
  init := { wrap, db := some (.plain data) }
  step files calls :=
    let result := encryptDb contents c device calls files
    if calls.othersSucceed && decide (result.1 = .returned false) then some result.2 else none

/-- A failing call that leaves no exported file: it fails at attaching or keying, or the export
leaves nothing. -/
def DbCalls.leavesNothing (calls : DbCalls δ) : Bool :=
  !calls.attach || !calls.keyEncrypted || (!calls.exportData && calls.exportLeaves.isNone)

/-- A failing call that gets as far as renaming. -/
def DbCalls.failsAtRename (calls : DbCalls δ) : Bool :=
  calls.attach && calls.keyEncrypted && calls.exportData && calls.remove && !calls.rename

/-- A temporary file that can be exported into. -/
def Exportable (temp : Option (DbFile δ)) : Prop := temp = none ∨ temp = some .blank

/-- The files before anything is left: the plain database, and nothing that hinders an export. -/
def Intact (data : δ) (files : Files δ) : Prop :=
  files.db = some (.plain data) ∧ Exportable files.temp

/-- The files after a rename failed: the exported file without a database beside it. -/
def Gone (files : Files δ) : Prop := files.db = none ∧ ¬ Exportable files.temp

/-- The files with an exported file that is left beside a database, which cannot be exported. -/
def Blocked (files : Files δ) : Prop := files.db ≠ none ∧ ¬ Exportable files.temp

theorem not_exportable_encrypted (key : List UInt8) (data : δ) :
    ¬ Exportable (some (.encrypted key data)) := by
  rintro (h | h) <;> exact nomatch h

theorem exportable_makeFile_iff {makes : Bool} {temp : Option (DbFile δ)} :
    Exportable (makeFile makes temp) ↔ Exportable temp := by
  unfold Exportable makeFile
  rcases temp with _ | temp <;> rcases makes <;> simp

/-- An export into a file that holds a database fails. -/
theorem exportInto_of_not_exportable {calls : DbCalls δ} {key : List UInt8} {main : DbFile δ}
    {temp : Option (DbFile δ)} (h : ¬ Exportable temp) :
    exportInto contents calls key main temp = (false, temp) := by
  unfold exportInto
  split
  · exact absurd (Or.inl rfl) h
  · exact absurd (Or.inr rfl) h
  · rfl

/-- An export of a plain database into a file that holds none. -/
theorem exportInto_plain {calls : DbCalls δ} {key : List UInt8} {data : δ}
    {temp : Option (DbFile δ)} (h : Exportable temp) :
    exportInto contents calls key (.plain data) temp =
      if calls.exportData then (true, some (.encrypted key data))
      else (false, match calls.exportLeaves with
        | some part => some (.encrypted key part)
        | none => temp) := by
  unfold exportInto plainData
  rcases h with rfl | rfl <;> rcases calls.exportLeaves with _ | part <;> rfl

/-! ### One call -/

/-- Converting files where nothing is left yet. -/
theorem encryptFiles_intact {calls : DbCalls δ} {key : List UInt8} {data : δ} {files : Files δ}
    (h : Intact data files) (hopen : calls.openDb = true) (hselect : calls.select = true) :
    encryptFiles contents calls key files =
      if !calls.attach || !calls.keyEncrypted then
        (false, { files with temp := makeFile calls.attachMakesFile files.temp })
      else if !calls.exportData then
        (false, { files with temp := match calls.exportLeaves with
          | some part => some (.encrypted key part)
          | none => makeFile calls.attachMakesFile files.temp })
      else replaceDb calls { files with temp := some (.encrypted key data) } := by
  rcases files with ⟨wrap, db, temp⟩
  obtain ⟨rfl, htemp⟩ : db = some (.plain data) ∧ Exportable temp := h
  unfold encryptFiles convertDb
  dsimp only
  rw [hopen, hselect, exportInto_plain (exportable_makeFile_iff.2 htemp)]
  rcases calls.attach <;> rcases calls.keyEncrypted <;> rcases calls.exportData <;> rfl

/-- Nothing is converted when an exported file is left. -/
theorem encryptFiles_blocked {calls : DbCalls δ} {key : List UInt8} {files : Files δ}
    (h : Blocked files) (hopen : calls.openDb = true) (hselect : calls.select = true) :
    (encryptFiles contents calls key files).1 = false ∧
      Blocked (encryptFiles contents calls key files).2 := by
  rcases files with ⟨wrap, db, temp⟩
  obtain ⟨hdb, htemp⟩ : db ≠ none ∧ ¬ Exportable temp := h
  obtain ⟨main, rfl⟩ := Option.ne_none_iff_exists'.1 hdb
  have hmade : ¬ Exportable (makeFile calls.attachMakesFile temp) :=
    mt exportable_makeFile_iff.1 htemp
  unfold encryptFiles convertDb
  dsimp only
  rw [hopen, hselect, exportInto_of_not_exportable hmade]
  rcases calls.attach <;> rcases calls.keyEncrypted <;> exact ⟨rfl, hdb, hmade⟩

/-- Where there is no database, a new one is made, which has no bytes without its key. -/
theorem encryptFiles_gone {calls : DbCalls δ} {key : List UInt8} {files : Files δ}
    (h : files.db = none) (hopen : calls.openDb = true) (hcreate : calls.createTable = true) :
    encryptFiles contents calls key files =
      if calls.keyMain then (true, { files with db := some (.encrypted key contents.created) })
      else (false, { files with db := some .blank }) := by
  rcases files with ⟨wrap, db, temp⟩
  obtain rfl : db = none := h
  unfold encryptFiles createDb
  dsimp only
  rw [hopen, hcreate]
  rcases calls.keyMain <;> rfl

/-- The calls that fail at most at attaching, keying, exporting, removing or renaming make a new
key, write it, and go on. -/
theorem encryptDb_of_othersSucceed (contents : Contents δ) (c : Crypto) (device : Device)
    {calls : Calls δ} (h : calls.othersSucceed = true) (files : Files δ) :
    ∃ key bytes, (∀ outMk, decryptMk c device (some bytes) outMk = (true, key)) ∧
      encryptDb contents c device calls files =
        (.returned (encryptFiles contents calls.db key { files with wrap := some bytes }).1,
          (encryptFiles contents calls.db key { files with wrap := some bytes }).2) := by
  unfold Calls.othersSucceed at h
  simp only [Bool.and_eq_true, beq_iff_eq] at h
  obtain ⟨⟨⟨⟨hopens, hwrite⟩, -⟩, -⟩, -⟩ := h
  obtain ⟨mk, bytes, -, -, hkey, hencrypt⟩ := encryptMk_of_opensWrap c device hopens files.wrap []
  rw [hwrite] at hencrypt
  refine ⟨mk.val, bytes, hkey, ?_⟩
  unfold encryptDb
  rw [hencrypt]

theorem othersSucceed_db {calls : Calls δ} (h : calls.othersSucceed = true) :
    calls.db.openDb = true ∧ calls.db.createTable = true ∧ calls.db.select = true := by
  unfold Calls.othersSucceed at h
  simp only [Bool.and_eq_true] at h
  exact ⟨h.1.1.2, h.1.2, h.2⟩

/-! ### Runs of failed calls -/

variable {wrap : Option (List UInt8)} {data : δ}

/-- What a failed call leaves, after the new key is written. -/
theorem failedCalls_step {calls : Calls δ} {files files' : Files δ}
    (h : (failedCalls contents c device wrap data).step files calls = some files') :
    calls.othersSucceed = true ∧ ∃ key bytes,
      (encryptFiles contents calls.db key { files with wrap := some bytes }).1 = false ∧
      files' = (encryptFiles contents calls.db key { files with wrap := some bytes }).2 := by
  unfold failedCalls at h
  dsimp only at h
  split_ifs at h with hfailed
  rw [Bool.and_eq_true, decide_eq_true_iff] at hfailed
  obtain ⟨key, bytes, -, hencrypt⟩ := encryptDb_of_othersSucceed contents c device hfailed.1 files
  rw [hencrypt] at hfailed h
  exact ⟨hfailed.1, key, bytes, Exit.returned.inj hfailed.2, (Option.some.inj h).symm⟩

/-- A failed call on files where nothing is left yet. -/
theorem step_intact {calls : Calls δ} {files files' : Files δ} (hfiles : Intact data files)
    (h : (failedCalls contents c device wrap data).step files calls = some files') :
    if calls.db.leavesNothing then Intact data files'
    else if calls.db.failsAtRename then Gone files' else Blocked files' := by
  obtain ⟨hothers, key, bytes, hfailed, rfl⟩ := failedCalls_step h
  obtain ⟨hopen, -, hselect⟩ := othersSucceed_db hothers
  have hintact : Intact data { files with wrap := some bytes } := hfiles
  have hmade : Intact data { files with
      wrap := some bytes, temp := makeFile calls.db.attachMakesFile files.temp } :=
    ⟨hfiles.1, exportable_makeFile_iff.2 hfiles.2⟩
  have hleft : ∀ part, Blocked { files with
      wrap := some bytes, temp := some (.encrypted key part) } := fun part =>
    ⟨by simp [hfiles.1], not_exportable_encrypted key part⟩
  rw [encryptFiles_intact hintact hopen hselect] at hfailed ⊢
  unfold replaceDb at hfailed ⊢
  unfold DbCalls.leavesNothing DbCalls.failsAtRename
  revert hfailed
  -- along the library calls, up to the first one that fails
  rcases calls.db.attach
  · exact fun _ => hmade
  rcases calls.db.keyEncrypted
  · exact fun _ => hmade
  rcases calls.db.exportData
  · rcases calls.db.exportLeaves with _ | part
    · exact fun _ => hmade
    · exact fun _ => hleft part
  rcases calls.db.remove
  · exact fun _ => hleft data
  rcases calls.db.rename
  · exact fun _ => ⟨rfl, not_exportable_encrypted key data⟩
  · exact fun hfailed => nomatch hfailed

/-- A failed call leaves blocked files blocked. -/
theorem step_blocked {calls : Calls δ} {files files' : Files δ} (hfiles : Blocked files)
    (h : (failedCalls contents c device wrap data).step files calls = some files') :
    Blocked files' := by
  obtain ⟨hothers, key, bytes, -, rfl⟩ := failedCalls_step h
  obtain ⟨hopen, -, hselect⟩ := othersSucceed_db hothers
  have hblocked : Blocked { files with wrap := some bytes } := hfiles
  exact (encryptFiles_blocked hblocked hopen hselect).2

/-- A failed call makes an empty file where the database is gone. -/
theorem step_gone {calls : Calls δ} {files files' : Files δ} (hfiles : Gone files)
    (h : (failedCalls contents c device wrap data).step files calls = some files') :
    Blocked files' := by
  obtain ⟨hothers, key, bytes, hfailed, rfl⟩ := failedCalls_step h
  obtain ⟨hopen, hcreate, -⟩ := othersSucceed_db hothers
  have hgone : ({ files with wrap := some bytes } : Files δ).db = none := hfiles.1
  rw [encryptFiles_gone hgone hopen hcreate] at hfailed ⊢
  split_ifs at hfailed ⊢
  exact ⟨Option.some_ne_none _, hfiles.2⟩

/-- None of the failed calls left anything. -/
def NothingLeft (calls : List (Calls δ)) : Prop := ∀ call ∈ calls, call.db.leavesNothing = true

/-- None of the failed calls left anything but the last one, which failed at the rename. -/
def LastAtRename (calls : List (Calls δ)) : Prop :=
  NothingLeft calls.dropLast ∧ ∃ call ∈ calls.getLast?, call.db.failsAtRename = true

theorem nothingLeft_concat {calls : List (Calls δ)} {call : Calls δ} :
    NothingLeft (calls ++ [call]) ↔ NothingLeft calls ∧ call.db.leavesNothing = true := by
  simp [NothingLeft, or_imp, forall_and]

theorem lastAtRename_concat {calls : List (Calls δ)} {call : Calls δ} :
    LastAtRename (calls ++ [call]) ↔ NothingLeft calls ∧ call.db.failsAtRename = true := by
  simp [LastAtRename]

/-- A call that got as far as renaming has left the exported file. -/
theorem DbCalls.not_leavesNothing {calls : DbCalls δ} (h : calls.failsAtRename = true) :
    ¬ calls.leavesNothing = true := by
  unfold DbCalls.failsAtRename at h
  unfold DbCalls.leavesNothing
  simp only [Bool.and_eq_true] at h
  simp [h.1.1.1.1, h.1.1.1.2, h.1.1.2]

theorem LastAtRename.not_nothingLeft {calls : List (Calls δ)} (h : LastAtRename calls) :
    ¬ NothingLeft calls := by
  obtain ⟨-, call, hcall, hfails⟩ := h
  intro hnothing
  exact DbCalls.not_leavesNothing hfails (hnothing call (List.mem_of_getLast? hcall))

/-- What a run of failed calls leaves. -/
inductive Left (data : δ) (calls : List (Calls δ)) (files : Files δ) : Prop where
  | intact : NothingLeft calls → Intact data files → Left data calls files
  | gone : LastAtRename calls → Gone files → Left data calls files
  | blocked : ¬ NothingLeft calls → ¬ LastAtRename calls → Blocked files → Left data calls files

/-- The last call of a run decides what it leaves, if the calls before it left nothing. -/
theorem run_left {calls : List (Calls δ)} {files : Files δ}
    (h : (failedCalls contents c device wrap data).run calls = some files) :
    Left data calls files := by
  refine System.run_invariant (I := Left data) ?_ (fun calls files call files' hleft hstep => ?_) h
  · exact .intact (fun _ hcall => nomatch hcall) ⟨rfl, Or.inl rfl⟩
  -- after a run that left something, the files are blocked
  have hblocked : ¬ NothingLeft calls → Blocked files' → Left data (calls ++ [call]) files' :=
    fun hnot => .blocked (fun h => hnot (nothingLeft_concat.1 h).1)
      fun h => hnot (lastAtRename_concat.1 h).1
  cases hleft with
  | intact hnothing hfiles =>
    have hkind := step_intact hfiles hstep
    split_ifs at hkind with hleaves hfails
    · exact .intact (nothingLeft_concat.2 ⟨hnothing, hleaves⟩) hkind
    · exact .gone (lastAtRename_concat.2 ⟨hnothing, hfails⟩) hkind
    · exact .blocked (fun h => hleaves (nothingLeft_concat.1 h).2)
        (fun h => hfails (lastAtRename_concat.1 h).2) hkind
  | gone hlast hfiles => exact hblocked hlast.not_nothingLeft (step_gone hfiles hstep)
  | blocked hnot _ hfiles => exact hblocked hnot (step_blocked hfiles hstep)

/-- The run of failed calls left nothing before the last call; or only the last one of them left
something, as it failed at the rename, and the data were those of a new database anyway. -/
def Retryable (contents : Contents δ) (data : δ) (calls : List (Calls δ)) : Prop :=
  NothingLeft calls ∨ LastAtRename calls ∧ data = contents.created

/-- **The exact condition under which a failed `encrypt_db` can be retried without loss.** -/
theorem retry_iff (contents : Contents δ) (c : Crypto) (device : Device)
    (wrap : Option (List UInt8)) (data : δ) (calls : List (Calls δ)) (last : Calls δ)
    (files : Files δ) (hrun : (failedCalls contents c device wrap data).run calls = some files)
    (hlast : last.succeed = true) :
    (encryptDb contents c device last files).1 = .returned true ∧
        decryptDb contents c device (encryptDb contents c device last files).2 = some data ↔
      Retryable contents data calls := by
  unfold Calls.succeed at hlast
  simp only [Bool.and_eq_true] at hlast
  obtain ⟨⟨⟨⟨⟨⟨hothers, hkeyMain⟩, hattach⟩, hkeyEnc⟩, hexport⟩, hremove⟩, hrename⟩ := hlast
  obtain ⟨hopen, hcreate, hselect⟩ := othersSucceed_db hothers
  obtain ⟨key, bytes, hkey, hencrypt⟩ :=
    encryptDb_of_othersSucceed contents c device hothers files
  -- what decides is the result of the branches, and the database under the new key
  have hresult : (encryptDb contents c device last files).1 = .returned true ∧
        decryptDb contents c device (encryptDb contents c device last files).2 = some data ↔
      (encryptFiles contents last.db key { files with wrap := some bytes }).1 = true ∧
        openWithKey contents key
          (encryptFiles contents last.db key { files with wrap := some bytes }).2.db
            = some data := by
    rw [hencrypt, decryptDb_of_key (by rw [wrap_encryptFiles]; exact hkey []), Exit.returned.injEq]
  rw [hresult]
  unfold Retryable
  cases run_left hrun with
  | intact hnothing hfiles =>
    -- nothing is left: the last call converts the database
    have hintact : Intact data { files with wrap := some bytes } := hfiles
    rw [encryptFiles_intact hintact hopen hselect, hattach, hkeyEnc, hexport]
    unfold replaceDb
    rw [hremove, hrename]
    exact iff_of_true ⟨rfl, if_pos rfl⟩ (Or.inl hnothing)
  | gone hlastAtRename hfiles =>
    -- the database is gone: the last call makes a new one
    have hgone : ({ files with wrap := some bytes } : Files δ).db = none := hfiles.1
    rw [encryptFiles_gone hgone hopen hcreate, hkeyMain, if_pos rfl]
    dsimp only
    rw [openWithKey_self, Option.some.injEq, and_iff_right rfl,
      or_iff_right hlastAtRename.not_nothingLeft, and_iff_right hlastAtRename, eq_comm]
  | blocked hnot hnotLast hfiles =>
    -- the exported file blocks the last call
    have hblocked : Blocked { files with wrap := some bytes } := hfiles
    have hfalse : (encryptFiles contents last.db key { files with wrap := some bytes }).1 = false :=
      (encryptFiles_blocked hblocked hopen hselect).1
    rw [hfalse]
    exact iff_of_false (fun h => nomatch h.1) fun h => h.elim hnot fun h => hnotLast h.1

/-- Two calls that fail before anything is exported, and one that succeeds. -/
theorem retry_iff_sample :
    (encryptDb tables plainCrypto {} ⟨sampleCalls 3, {}⟩
        ⟨some (sampleWrap 2), some (.plain ["users"]), some .blank⟩).1 = .returned true ∧
      decryptDb tables plainCrypto {} (encryptDb tables plainCrypto {} ⟨sampleCalls 3, {}⟩
        ⟨some (sampleWrap 2), some (.plain ["users"]), some .blank⟩).2 = some ["users"] :=
  (retry_iff tables plainCrypto {} none ["users"]
    [⟨sampleCalls 1, { attach := false }⟩,
      ⟨sampleCalls 2, { attachMakesFile := true, keyEncrypted := false }⟩]
    ⟨sampleCalls 3, {}⟩ ⟨some (sampleWrap 2), some (.plain ["users"]), some .blank⟩
    (by decide +kernel) (by decide +kernel)).2 (Or.inl (by unfold NothingLeft; decide))

/-- A failed renaming, and a call that succeeds: it makes a new database, and the data are left in a
file whose key is overwritten. -/
theorem retry_loses_data :
    ¬ ∀ files, (failedCalls tables plainCrypto {} none ["users"]).run
        [⟨sampleCalls 1, { rename := false }⟩] = some files →
      (encryptDb tables plainCrypto {} ⟨sampleCalls 2, {}⟩ files).1 = .returned true ∧
        decryptDb tables plainCrypto {}
            (encryptDb tables plainCrypto {} ⟨sampleCalls 2, {}⟩ files).2
          = some ["users"] := by
  intro h
  have hrun : (failedCalls tables plainCrypto {} none ["users"]).run
      [⟨sampleCalls 1, { rename := false }⟩] =
      some ⟨some (sampleWrap 1), none, some (.encrypted (sampleKey 1).val ["users"])⟩ := by
    decide +kernel
  exact absurd (h _ hrun).2 (by decide +kernel)

end AimrtComm.Database
