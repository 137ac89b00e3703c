import AimrtComm.RecordPlayback.Record
import AimrtComm.Lib.FoldExcept
import Mathlib.Data.List.Sort
import Mathlib.Order.Bounds.Basic

/-!
## What recording retention deletes

What `deleteOldestFiles` is for is said on the list of the recordings alone: with the recordings in
the order of their last write times, it has to delete the shortest prefix (`surplus`) that makes the
rest fit the capacity, and no directory may go that holds a recording (`KeepsTheRest`).

The code meets this exactly when (`keepsTheRest_iff`), as long as the size of the files left is
above the capacity, it is above it in 64 bits too, and the directory of the file to be deleted has
another recording right in it if it has one further down (`Safe`).  The proof goes along the loop.
Its invariant is that the recordings on the disk are the files still to be visited: a visit of a
safe file takes that file and nothing else (`deleteFile_spec`, `deleteParentDir_spec`), and the
directory that an unsafe one takes with it is on the list of removals for good (`removed_subset`).
-/

namespace AimrtComm.RecordPlayback

open FileTree

/-! ### Recordings in a tree -/

theorem dbFile?_eq_some {x : Path × Entry FileData} {f : FileInfo} :
    dbFile? x = some f ↔ ∃ data, x = (f.path, .file data) ∧ isDbName f.filename ∧
      f.size = data.size ∧ f.lastWriteTime = data.lastWriteTime := by
  rcases x with ⟨p, _ | data | _⟩
  · simp [dbFile?]
  · constructor
    · intro h
      unfold dbFile? at h
      dsimp only at h
      split_ifs at h with hdb
      obtain rfl := Option.some.inj h
      exact ⟨data, rfl, hdb, rfl, rfl⟩
    · rintro ⟨data', hx, hdb, hsize, htime⟩
      rcases f with ⟨q, size, time⟩
      obtain ⟨rfl, hdata⟩ := Prod.mk.inj hx
      obtain rfl := Entry.file.inj hdata
      subst hsize htime
      exact if_pos hdb
  · simp [dbFile?]

theorem mem_recordings {t : Tree} {d : Path} {f : FileInfo} :
    f ∈ recordings t d ↔ ∃ data, (f.path, .file data) ∈ t.entries ∧ d <+: f.path ∧ f.path ≠ d ∧
      isDbName f.filename ∧ f.size = data.size ∧ f.lastWriteTime = data.lastWriteTime := by
  unfold recordings
  rw [List.mem_filterMap]
  constructor
  · rintro ⟨x, hx, hf⟩
    obtain ⟨data, rfl, hdb⟩ := dbFile?_eq_some.1 hf
    obtain ⟨hmem, hd, hne⟩ := mem_below.1 hx
    exact ⟨data, hmem, hd, hne, hdb⟩
  · rintro ⟨data, hmem, hd, hne, hdb⟩
    exact ⟨_, mem_below.2 ⟨hmem, hd, hne⟩, dbFile?_eq_some.2 ⟨data, rfl, hdb⟩⟩

/-- What a recording is in is a directory. -/
theorem parentDir_mem {t : Tree} {root : Path} {f : FileInfo} (h : f ∈ recordings t root) :
    (f.parentDir, Entry.directory) ∈ t.entries := by
  obtain ⟨data, hmem, hroot, hne, -⟩ := mem_recordings.1 h
  exact t.directory_of_prefix hmem (List.dropLast_prefix _) (dropLast_ne_self hroot hne)

/-- A path leads to one recording. -/
theorem recordings_nodup (t : Tree) (d : Path) : ((recordings t d).map FileInfo.path).Nodup := by
  have key : ∀ l : List (Path × Entry FileData),
      ((l.filterMap dbFile?).map FileInfo.path).Sublist (l.map Prod.fst) := by
    intro l
    induction l with
    | nil => exact List.Sublist.slnil
    | cons x l ih =>
      rw [List.filterMap_cons]
      split
      · exact ih.cons _
      · rename_i f hf
        obtain ⟨data, rfl, -⟩ := dbFile?_eq_some.1 hf
        exact ih.cons_cons _
  exact t.nodup.sublist ((key _).trans (List.filter_sublist.map _))

/-- A directory of the tree holds no recording when nothing of it is listed. -/
theorem recordings_eq_nil_iff {t : Tree} {root d : Path} (hdir : (d, Entry.directory) ∈ t.entries)
    (hroot : root <+: d) : recordings t d = [] ↔ ∀ g ∈ recordings t root, ¬ d <+: g.path := by
  rw [List.eq_nil_iff_forall_not_mem]
  constructor
  · intro h g hg hd
    obtain ⟨data, hmem, -, -, hdb⟩ := mem_recordings.1 hg
    have hne : g.path ≠ d := by
      intro heq
      rw [heq] at hmem
      exact nomatch t.entry_unique hmem hdir
    exact h g (mem_recordings.2 ⟨data, hmem, hd, hne, hdb⟩)
  · intro h g hg
    obtain ⟨data, hmem, hd, hne, hdb⟩ := mem_recordings.1 hg
    have hgroot : g.path ≠ root := fun heq =>
      hne (hd.eq_of_length_le (by rw [heq]; exact hroot.length_le)).symm
    exact h g (mem_recordings.2 ⟨data, hmem, hroot.trans hd, hgroot, hdb⟩) hd

/-! ### The recordings after an operation -/

/-- Removing a path takes the recordings at or below it. -/
theorem recordings_removeAll (t : Tree) (p d : Path) :
    recordings (t.removeAll p) d = (recordings t d).filter fun f => ¬ p <+: f.path := by
  unfold recordings
  rw [below_removeAll, List.filterMap_filter, List.filter_filterMap]
  refine List.filterMap_congr fun x _ => ?_
  rcases hx : dbFile? x with _ | f
  · rw [ite_self]; rfl
  · obtain ⟨data, rfl, -⟩ := dbFile?_eq_some.1 hx
    rfl

/-- Removing a recording takes nothing else. -/
theorem recordings_removeAll_perm {t : Tree} {d : Path} {f : FileInfo} {rest : List FileInfo}
    (h : (recordings t d).Perm (f :: rest)) : (recordings (t.removeAll f.path) d).Perm rest := by
  rw [recordings_removeAll]
  have hnodup : ((f :: rest).map FileInfo.path).Nodup :=
    (h.map _).nodup_iff.1 (recordings_nodup t d)
  rw [List.map_cons, List.nodup_cons] at hnodup
  obtain ⟨data, hmem, -⟩ := mem_recordings.1 (h.mem_iff.2 List.mem_cons_self)
  have hrest : (f :: rest).filter (fun g => ¬ f.path <+: g.path) = rest := by
    rw [List.filter_cons_of_neg (by simp), List.filter_eq_self]
    intro g hg
    obtain ⟨data', hgmem, -⟩ := mem_recordings.1 (h.mem_iff.2 (List.mem_cons_of_mem f hg))
    -- nothing is below a file, and its path is nobody else's
    refine decide_eq_true fun hfg => hnodup.1 ?_
    rw [← t.eq_of_prefix_of_file hmem hgmem hfg]
    exact List.mem_map_of_mem hg
  exact hrest ▸ h.filter _

/-- Writing into a file that is no recording leaves the recordings alone. -/
theorem recordings_write {t : Tree} {p : Path} (hp : isDbName (p.getLastD "") = false)
    (data : FileData) (d : Path) : recordings (t.write p data) d = recordings t d := by
  unfold recordings
  rw [below_write, List.filterMap_map]
  refine List.filterMap_congr fun x _ => ?_
  by_cases hx : x.1 = p
  · rcases x with ⟨q, _ | old | _⟩
    · rfl
    · obtain rfl : q = p := hx
      unfold writeEntry dbFile?
      dsimp only [Function.comp_apply]
      rw [hp, if_neg Bool.false_ne_true, if_neg Bool.false_ne_true]
    · rfl
  · rw [Function.comp_apply, writeEntry_of_ne hx]

/-! ### Metadata -/

theorem isDbName_metadata : isDbName "metadata.yaml" = false := by decide +kernel

/-- `modifyYamls` writes the `metadata.yaml` beside the file or does nothing. -/
theorem modifyYamls_eq (written : Written) (f : FileInfo) (t : Tree) :
    modifyYamls written f t = t ∨
      ∃ data, modifyYamls written f t = t.write (metadataPath f) data := by
  unfold modifyYamls
  dsimp only
  split
  · exact Or.inl rfl
  · split
    · exact Or.inl rfl
    · exact Or.inl rfl
    · exact Or.inl rfl
    · exact Or.inr ⟨_, rfl⟩
    · exact Or.inr ⟨_, rfl⟩

/-- `modifyYamls` leaves the recordings alone, whatever becomes of its writing. -/
theorem recordings_modifyYamls (written : Written) (f : FileInfo) (t : Tree) (d : Path) :
    recordings (modifyYamls written f t) d = recordings t d := by
  rcases modifyYamls_eq written f t with h | ⟨data, h⟩
  · rw [h]
  · rw [h]
    refine recordings_write ?_ data d
    unfold metadataPath
    rw [List.getLastD_concat]
    exact isDbName_metadata

/-- `modifyYamls` keeps the directories. -/
theorem directory_mem_modifyYamls {written : Written} {f : FileInfo} {t : Tree} {p : Path} :
    (p, Entry.directory) ∈ (modifyYamls written f t).entries ↔
      (p, Entry.directory) ∈ t.entries := by
  rcases modifyYamls_eq written f t with h | ⟨data, h⟩
  · rw [h]
  · rw [h, directory_mem_write]

/-! ### Sizes -/

/-- The size of a list of files, without the overflow. -/
def totalSize (files : List FileInfo) : ℕ := (files.map fun file => file.size.toNat).sum

@[simp]
theorem totalSize_cons (f : FileInfo) (files : List FileInfo) :
    totalSize (f :: files) = f.size.toNat + totalSize files := List.sum_cons

theorem foldl_size (files : List FileInfo) (sum : UInt64) :
    files.foldl (fun sum file => sum + file.size) sum = sum + calculateTotalSize files := by
  unfold calculateTotalSize
  induction files generalizing sum with
  | nil => exact (UInt64.add_zero sum).symm
  | cons f files ih => rw [List.foldl_cons, List.foldl_cons, ih, ih (0 + f.size), UInt64.zero_add,
      UInt64.add_assoc]

theorem calculateTotalSize_cons (f : FileInfo) (files : List FileInfo) :
    calculateTotalSize (f :: files) = f.size + calculateTotalSize files := by
  conv_lhs => unfold calculateTotalSize
  rw [List.foldl_cons, foldl_size, UInt64.zero_add]

/-- `calculateTotalSize` is the size in 64 bits. -/
theorem toNat_calculateTotalSize (files : List FileInfo) :
    (calculateTotalSize files).toNat = totalSize files % 2 ^ 64 := by
  induction files with
  | nil => rfl
  | cons f files ih =>
    rw [calculateTotalSize_cons, totalSize_cons, UInt64.toNat_add, ih, Nat.add_mod_mod]

/-! ### What retention has to do -/

/-- The length of the shortest prefix that has to go for the rest to fit the capacity. -/
def surplus (capacity : ℕ) : List FileInfo → ℕ
  | [] => 0
  | f :: files => if totalSize (f :: files) ≤ capacity then 0 else surplus capacity files + 1

theorem totalSize_append (done files : List FileInfo) :
    totalSize (done ++ files) = totalSize done + totalSize files := by
  unfold totalSize
  rw [List.map_append, List.sum_append]

/-- `surplus` is what it says: the least number of files without which the rest fits. -/
theorem surplus_isLeast (capacity : ℕ) (files : List FileInfo) :
    IsLeast {k | totalSize (files.drop k) ≤ capacity} (surplus capacity files) := by
  induction files with
  | nil => exact ⟨Nat.zero_le capacity, fun _ _ => Nat.zero_le _⟩
  | cons f files ih =>
    unfold surplus
    split_ifs with hfits
    · exact ⟨hfits, fun _ _ => Nat.zero_le _⟩
    · refine ⟨ih.1, fun k hk => ?_⟩
      rcases k with _ | k
      · exact absurd hk hfits
      · exact Nat.succ_le_succ (ih.2 hk)

/-- What retention has to do, with the recordings in the order of their last write times: nothing is
thrown, the recordings left are those after the surplus, and no directory was removed from a tree
in which it held a recording. -/
def KeepsTheRest (root : Path) (capacity : UInt64) (files : List FileInfo)
    (result : Except Thrown Disk) : Prop :=
  ∃ disk, result = .ok disk ∧
    (recordings disk.tree root).Perm (files.drop (surplus capacity.toNat files)) ∧
    ∀ x ∈ disk.removed, recordings x.2 x.1 = []

/-- The directory of a file has a recording right in it, if there is one in it at all. -/
def Covered (f : FileInfo) (rest : List FileInfo) : Prop :=
  (∃ g ∈ rest, f.parentDir <+: g.path) → ∃ g ∈ rest, g.parentDir = f.parentDir

instance (f : FileInfo) (rest : List FileInfo) : Decidable (Covered f rest) :=
  inferInstanceAs (Decidable (_ → _))

/-- Whenever the files left do not fit the capacity, their size in 64 bits does not either, and the
directory of the first one is covered by the others. -/
def Safe (capacity : UInt64) (files : List FileInfo) : Prop :=
  ∀ done f rest, files = done ++ f :: rest → capacity.toNat < totalSize (f :: rest) →
    capacity.toNat < totalSize (f :: rest) % 2 ^ 64 ∧ Covered f rest

theorem safe_nil (capacity : UInt64) : Safe capacity [] := by
  intro done f rest h
  exact absurd h.symm (List.append_ne_nil_of_right_ne_nil done (List.cons_ne_nil f rest))

theorem safe_cons_iff {capacity : UInt64} {f : FileInfo} {rest : List FileInfo} :
    Safe capacity (f :: rest) ↔
      (capacity.toNat < totalSize (f :: rest) →
        capacity.toNat < totalSize (f :: rest) % 2 ^ 64 ∧ Covered f rest) ∧
      Safe capacity rest := by
  constructor
  · intro h
    refine ⟨h [] f rest rfl, fun done g rest' hrest => h (f :: done) g rest' ?_⟩
    rw [hrest, List.cons_append]
  · rintro ⟨hf, hrest⟩ done g rest' h
    rcases done with _ | ⟨f', done⟩
    · obtain ⟨rfl, rfl⟩ := List.cons.inj h
      exact hf
    · obtain ⟨-, hdone⟩ := List.cons.inj h
      exact hrest done g rest' hdone

/-- Files that fit the capacity are safe. -/
theorem safe_of_fits {capacity : UInt64} {files : List FileInfo}
    (h : totalSize files ≤ capacity.toNat) : Safe capacity files := by
  rintro done f rest rfl hover
  rw [totalSize_append] at h
  omega

/-! ### One visit -/

variable {root : Path} {f : FileInfo} {rest : List FileInfo} {disk : Disk}

/-- The tree after a recording was taken out of its metadata and removed. -/
def withoutFile (written : Written) (f : FileInfo) (t : Tree) : Tree :=
  (modifyYamls written f t).removeAll f.path

/-- Visiting a recording takes it, and leaves its directory where it is. -/
theorem deleteFile_spec (h : (recordings disk.tree root).Perm (f :: rest)) (written : Written)
    (currentSize : UInt64) :
    deleteFile written f currentSize disk
        = .ok (currentSize - f.size, { disk with tree := withoutFile written f disk.tree }) ∧
      (recordings (withoutFile written f disk.tree) root).Perm rest ∧
      (f.parentDir, Entry.directory) ∈ (withoutFile written f disk.tree).entries ∧
      root <+: f.parentDir := by
  obtain ⟨data, hmem, hroot, hne, -⟩ := mem_recordings.1 (h.mem_iff.2 List.mem_cons_self)
  have hyaml : (recordings (modifyYamls written f disk.tree) root).Perm (f :: rest) := by
    rw [recordings_modifyYamls]
    exact h
  obtain ⟨data', hmem', -⟩ := mem_recordings.1 (hyaml.mem_iff.2 List.mem_cons_self)
  refine ⟨?_, recordings_removeAll_perm hyaml, ?_, prefix_dropLast hroot hne⟩
  · unfold deleteFile
    rw [if_pos (has_iff.2 ⟨_, hmem⟩)]
    dsimp only
    rw [remove_of_file _ hmem']
    rfl
  · -- the directory is above the file, so the removal of the file does not take it
    have hdir : f.parentDir ≠ f.path := dropLast_ne_self hroot hne
    have hparent := parentDir_mem (h.mem_iff.2 List.mem_cons_self)
    exact (mem_removeAll_file hmem').2 ⟨directory_mem_modifyYamls.2 hparent, hdir⟩

/-- `hasDBFile` looks for the recordings right in the directory. -/
theorem any_children_iff {t : Tree} {d : Path} (hroot : root <+: d) :
    ((t.children d).any fun entry => (dbFile? entry).isSome) ↔
      ∃ g ∈ recordings t root, g.parentDir = d := by
  unfold children
  rw [List.any_eq_true]
  constructor
  · rintro ⟨x, hx, hsome⟩
    obtain ⟨g, hg⟩ := Option.isSome_iff_exists.1 hsome
    rw [List.mem_filter, decide_eq_true_iff, mem_below] at hx
    obtain ⟨⟨hmem, hd, hne⟩, hlast⟩ := hx
    obtain ⟨data, rfl, hdb⟩ := dbFile?_eq_some.1 hg
    have hgne : g.path ≠ root := by
      rintro hgroot
      exact hne (hd.eq_of_length_le (by rw [hgroot]; exact hroot.length_le)).symm
    exact ⟨g, mem_recordings.2 ⟨data, hmem, hroot.trans hd, hgne, hdb⟩, hlast⟩
  · rintro ⟨g, hg, rfl⟩
    obtain ⟨data, hmem, hgroot, hgne, hdb⟩ := mem_recordings.1 hg
    have hne : g.path ≠ g.parentDir := (dropLast_ne_self hgroot hgne).symm
    refine ⟨(g.path, .file data), ?_, Option.isSome_iff_exists.2
      ⟨g, dbFile?_eq_some.2 ⟨data, rfl, hdb⟩⟩⟩
    rw [List.mem_filter, decide_eq_true_iff, mem_below]
    exact ⟨⟨hmem, List.dropLast_prefix _, hne⟩, rfl⟩

/-- A directory goes exactly when no recording is right in it. -/
theorem deleteParentDir_spec (h : (recordings disk.tree root).Perm rest)
    (hdir : (f.parentDir, Entry.directory) ∈ disk.tree.entries) (hroot : root <+: f.parentDir) :
    deleteParentDir f disk = .ok (
      if ∃ g ∈ rest, g.parentDir = f.parentDir then disk
      else { tree := disk.tree.removeAll f.parentDir,
             removed := disk.removed ++ [(f.parentDir, disk.tree)] }) := by
  have hany := any_children_iff (t := disk.tree) hroot
  have hhas : disk.tree.has f.parentDir := has_iff.2 ⟨_, hdir⟩
  unfold deleteParentDir directoryIterator
  dsimp only
  rw [if_pos (isDirectory_iff.2 hdir), hhas]
  dsimp only
  simp only [h.mem_iff] at hany
  rw [Bool.and_true]
  by_cases hdb : ∃ g ∈ rest, g.parentDir = f.parentDir
  · rw [if_pos hdb, hany.2 hdb, if_neg (by decide)]
  · rw [if_neg hdb, if_pos (by rw [Bool.not_eq_true', Bool.eq_false_iff]; exact mt hany.1 hdb)]

/-! ### The loop -/

theorem deleteFile_removed {written : Written} {currentSize : UInt64} {x : UInt64 × Disk}
    (h : deleteFile written f currentSize disk = .ok x) : x.2.removed = disk.removed := by
  unfold deleteFile at h
  dsimp only at h
  split_ifs at h
  · split at h
    · obtain rfl := Except.ok.inj h
      rfl
    · exact nomatch h
  · obtain rfl := Except.ok.inj h
    rfl

theorem deleteParentDir_removed {disk' : Disk} (h : deleteParentDir f disk = .ok disk') :
    disk.removed ⊆ disk'.removed := by
  unfold deleteParentDir at h
  dsimp only at h
  split at h
  · exact nomatch h
  · split_ifs at h
    · obtain rfl := Except.ok.inj h
      exact List.subset_append_left _ _
    · obtain rfl := Except.ok.inj h
      exact List.Subset.refl _

/-- Directories stay on the list of removals. -/
theorem removed_subset {written : FileInfo → Written} {maxCapacity currentSize : UInt64}
    {files : List FileInfo} {disk disk' : Disk}
    (h : deleteFiles written maxCapacity currentSize files disk = .ok disk') :
    disk.removed ⊆ disk'.removed := by
  induction files generalizing currentSize disk with
  | nil =>
    obtain rfl := Except.ok.inj h
    exact List.Subset.refl _
  | cons f files ih =>
    unfold deleteFiles at h
    split_ifs at h
    · obtain rfl := Except.ok.inj h
      exact List.Subset.refl _
    · obtain ⟨x, hfile, h⟩ := except_bind_eq_ok.1 h
      obtain ⟨disk₂, hdir, h⟩ := except_bind_eq_ok.1 h
      rw [← deleteFile_removed hfile]
      exact List.Subset.trans (deleteParentDir_removed hdir) (ih h)

/-- Above the capacity the loop takes the first file, and its directory when no recording is right
in it any more. -/
theorem deleteFiles_cons (written : FileInfo → Written) {maxCapacity : UInt64}
    (h : (recordings disk.tree root).Perm (f :: rest))
    (hover : ¬ calculateTotalSize (f :: rest) ≤ maxCapacity) {t : Tree}
    (ht : withoutFile (written f) f disk.tree = t) :
    (recordings t root).Perm rest ∧ (f.parentDir, Entry.directory) ∈ t.entries ∧
      root <+: f.parentDir ∧
      deleteFiles written maxCapacity (calculateTotalSize (f :: rest)) (f :: rest) disk =
        deleteFiles written maxCapacity (calculateTotalSize rest) rest (
          if ∃ g ∈ rest, g.parentDir = f.parentDir then { disk with tree := t }
          else { tree := t.removeAll f.parentDir,
                 removed := disk.removed ++ [(f.parentDir, t)] }) := by
  obtain ⟨hfile, hperm, hdir, hroot⟩ :=
    deleteFile_spec h (written f) (calculateTotalSize (f :: rest))
  rw [ht] at hfile hperm hdir
  have hparent := @deleteParentDir_spec root f rest { disk with tree := t } hperm hdir hroot
  have hsize : calculateTotalSize (f :: rest) - f.size = calculateTotalSize rest := by
    rw [calculateTotalSize_cons, UInt64.add_comm, UInt64.add_sub_cancel]
  rw [hsize] at hfile
  refine ⟨hperm, hdir, hroot, ?_⟩
  conv_lhs => unfold deleteFiles
  rw [if_neg hover, hfile]
  show (deleteParentDir f { disk with tree := t } >>= _) = _
  rw [hparent]
  rfl

/-- **The loop keeps the rest exactly when its files are safe.** -/
theorem deleteFiles_iff (written : FileInfo → Written) {maxCapacity : UInt64}
    {files : List FileInfo} (h : (recordings disk.tree root).Perm files)
    (hremoved : ∀ x ∈ disk.removed, recordings x.2 x.1 = []) :
    KeepsTheRest root maxCapacity files
        (deleteFiles written maxCapacity (calculateTotalSize files) files disk) ↔
      Safe maxCapacity files := by
  -- by induction on the files still to be visited: they are the recordings on the disk
  induction files generalizing disk with
  | nil => exact iff_of_true ⟨disk, rfl, h, hremoved⟩ (safe_nil maxCapacity)
  | cons f rest ih =>
    have hsize := toNat_calculateTotalSize (f :: rest)
    by_cases hfits : totalSize (f :: rest) ≤ maxCapacity.toNat
    · -- all fits: the loop ends at once, and nothing had to go
      refine iff_of_true ⟨disk, ?_, ?_, hremoved⟩ (safe_of_fits hfits)
      · unfold deleteFiles
        refine if_pos (UInt64.le_iff_toNat_le.2 ?_)
        rw [hsize]
        exact (Nat.mod_le _ _).trans hfits
      · unfold surplus
        rw [if_pos hfits]
        exact h
    have hdrop : (f :: rest).drop (surplus maxCapacity.toNat (f :: rest)) =
        rest.drop (surplus maxCapacity.toNat rest) := by
      conv_lhs => unfold surplus
      rw [if_neg hfits]
      rfl
    by_cases hstop : calculateTotalSize (f :: rest) ≤ maxCapacity
    · -- the size overflowed: the loop ends with a file that had to go
      refine iff_of_false ?_ fun hsafe => ?_
      · rintro ⟨disk', hok, hperm, -⟩
        unfold deleteFiles at hok
        rw [if_pos hstop] at hok
        obtain rfl := Except.ok.inj hok
        have hlength := (h.symm.trans hperm).length_eq
        rw [hdrop, List.length_cons, List.length_drop] at hlength
        omega
      · have hlt := ((safe_cons_iff.1 hsafe).1 (not_le.1 hfits)).1
        rw [UInt64.le_iff_toNat_le, hsize] at hstop
        omega
    obtain ⟨t, ht⟩ : ∃ t, withoutFile (written f) f disk.tree = t := ⟨_, rfl⟩
    obtain ⟨hperm, hdir, hroot, hrun⟩ := deleteFiles_cons written h hstop ht
    have hkeeps : ∀ result, KeepsTheRest root maxCapacity (f :: rest) result ↔
        KeepsTheRest root maxCapacity rest result := by
      intro result
      unfold KeepsTheRest
      rw [hdrop]
    have hover : maxCapacity.toNat < totalSize (f :: rest) % 2 ^ 64 := by
      rw [UInt64.le_iff_toNat_le, hsize] at hstop
      omega
    rw [hrun, hkeeps, safe_cons_iff]
    split_ifs with hdb
    · -- the directory stays
      exact (@ih { disk with tree := t } hperm hremoved).trans
        (and_iff_right fun _ => ⟨hover, fun _ => hdb⟩).symm
    · have hempty : recordings t f.parentDir = [] ↔ ∀ g ∈ rest, ¬ f.parentDir <+: g.path := by
        rw [recordings_eq_nil_iff hdir hroot]
        exact forall_congr' fun g => imp_congr_left hperm.mem_iff
      by_cases hcovered : Covered f rest
      · -- the directory goes, and nothing with it
        have hnone : ∀ g ∈ rest, ¬ f.parentDir <+: g.path := fun g hg hbelow =>
          hdb (hcovered ⟨g, hg, hbelow⟩)
        refine (ih ?_ fun x hx => ?_).trans (and_iff_right fun _ => ⟨hover, hcovered⟩).symm
        · show (recordings (t.removeAll f.parentDir) root).Perm rest
          rw [recordings_removeAll, List.filter_eq_self.2 fun g hg =>
            decide_eq_true (hnone g (hperm.mem_iff.1 hg))]
          exact hperm
        · rcases List.mem_append.1 hx with hx | hx
          · exact hremoved x hx
          · obtain rfl := List.mem_singleton.1 hx
            exact hempty.2 hnone
      · -- a recording goes with the directory
        refine iff_of_false ?_ fun hsafe => hcovered (hsafe.1 (not_le.1 hfits)).2
        rintro ⟨disk', hok, -, hlog⟩
        have hnone := hempty.1 (hlog (f.parentDir, t)
          (removed_subset hok (List.mem_append_right _ (List.mem_singleton_self _))))
        exact hcovered fun ⟨g, hg, hbelow⟩ => absurd hbelow (hnone g hg)

/-- **The exact condition under which recording retention deletes only what it must.** -/
theorem keepsTheRest_iff (std : TimeSort) (written : FileInfo → Written) {t : Tree} {root : Path}
    {files : List FileInfo} (hfiles : getDbFiles t root = .ok files) (maxCapacity : UInt64) :
    KeepsTheRest root maxCapacity (std.sort files)
        (deleteOldestFiles std written files maxCapacity t) ↔
      Safe maxCapacity (std.sort files) := by
  unfold getDbFiles recursiveDirectoryIterator at hfiles
  split_ifs at hfiles
  · obtain rfl : recordings t root = files := Except.ok.inj hfiles
    exact deleteFiles_iff written (std.perm _).symm (List.forall_mem_nil _)
  · exact nomatch hfiles

/-! ### Samples -/

/-- A sort that keeps the order of files written at the same time. -/
def insertionSort : TimeSort where
  sort := List.insertionSort fun a b => a.lastWriteTime ≤ b.lastWriteTime
  perm := List.perm_insertionSort _
  sorted files :=
    haveI : Std.Total fun a b : FileInfo => a.lastWriteTime ≤ b.lastWriteTime :=
      ⟨fun a b => le_total a.lastWriteTime b.lastWriteTime⟩
    haveI : IsTrans FileInfo fun a b => a.lastWriteTime ≤ b.lastWriteTime :=
      ⟨fun _ _ _ => le_trans⟩
    List.pairwise_insertionSort _ files

/-- A recording of ten bytes, in sample trees. -/
def sampleFile (lastWriteTime : Int) : Entry FileData :=
  .file { size := 10, lastWriteTime, document := none }

/-- Two bag directories of two recordings each, written in turns. -/
def flatTree : Tree := .ofEntries
  [([], .directory), (["x"], .directory), (["x", "0.db3"], sampleFile 1),
    (["x", "1.db3"], sampleFile 3), (["y"], .directory), (["y", "0.mcap"], sampleFile 2),
    (["y", "1.mcap"], sampleFile 4)] (by decide) (by decide)

/-- Three of the four recordings have to go, and the first bag directory with them. -/
theorem keepsTheRest_iff_sample :
    KeepsTheRest [] 10 (insertionSort.sort (recordings flatTree []))
      (deleteOldestFiles insertionSort (fun _ => .notOpened) (recordings flatTree []) 10
        flatTree) := by
  have hfiles : getDbFiles flatTree [] = .ok (recordings flatTree []) := rfl
  refine (keepsTheRest_iff insertionSort _ hfiles 10).2 ?_
  have hsort : insertionSort.sort (recordings flatTree []) =
      [⟨["x", "0.db3"], 10, 1⟩, ⟨["y", "0.mcap"], 10, 2⟩, ⟨["x", "1.db3"], 10, 3⟩,
        ⟨["y", "1.mcap"], 10, 4⟩] := by
    decide +kernel
  rw [hsort]
  refine safe_cons_iff.2 ⟨by decide +kernel, safe_cons_iff.2 ⟨by decide +kernel, ?_⟩⟩
  exact safe_cons_iff.2 ⟨by decide +kernel, safe_of_fits (by decide +kernel)⟩

/-- A recording in a directory, and a later one further down. -/
def nestedTree : Tree := .ofEntries
  [([], .directory), (["0.db3"], sampleFile 1), (["x"], .directory), (["x", "1.db3"], sampleFile 2)]
  (by decide) (by decide)

/-- One recording has to go, and both do: the upper directory has no other recording right in it. -/
theorem deleteOldestFiles_takes_nested :
    ¬ KeepsTheRest [] 10 (insertionSort.sort (recordings nestedTree []))
      (deleteOldestFiles insertionSort (fun _ => .notOpened) (recordings nestedTree []) 10
        nestedTree) := by
  rintro ⟨disk, hok, hperm, -⟩
  have hnone : (deleteOldestFiles insertionSort (fun _ => .notOpened) (recordings nestedTree []) 10
      nestedTree).toOption.map (fun disk => recordings disk.tree []) = some [] := by
    decide +kernel
  rw [hok] at hnone
  have hdisk : recordings disk.tree [] = [] := Option.some.inj hnone
  rw [hdisk] at hperm
  exact absurd hperm.length_eq (by decide +kernel)

end AimrtComm.RecordPlayback
