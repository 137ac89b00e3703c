import AimrtComm.RecordPlayback.MainLoop
import AimrtComm.RecordPlayback.Equiv.Record
import Mathlib.Algebra.Order.BigOperators.Group.List

/-!
## What the main loop does over a whole run

Whatever other processes leave on the disk between the turns, and whether or not a turn ends in an
exception, what is missing or changed since they were last there is expendable (`Kept`): recordings,
the `metadata.yaml` beside a recording, and what was in the directory of a recording in which no
recording is left.  Nothing outside the directory of the recordings is touched.  And once a turn has
come to its end the recordings fit the capacity, also after an unsafe one in which nested recordings
were lost: those count as there until they are visited (`Tracks`), so the size that
`deleteOldestFiles` keeps is never too small (`disk_of_run`).

The metadata of an action is asked for in every turn until the plugin takes the request, and never
again (`metadata_of_run`).
-/

namespace AimrtComm.RecordPlayback

open FileTree

/-! ### What the loop may take -/

/-- What a path may be to go missing between two trees. -/
inductive Expendable (root : Path) (given now : Tree) (p : Path) : Prop where
  | recording {f : FileInfo} (hf : f ∈ recordings given root) (hp : p = f.path)
  | metadata {f : FileInfo} (hf : f ∈ recordings given root) (hp : p = metadataPath f)
  | emptied {f : FileInfo} (hf : f ∈ recordings given root) (hp : f.parentDir <+: p)
      (hnone : ∀ g ∈ recordings now root, g.parentDir ≠ f.parentDir)

/-- What is gone from a tree was expendable, and what is new is rewritten metadata. -/
structure Kept (root : Path) (given now : Tree) : Prop where
  lost : ∀ x ∈ given.entries, x ∉ now.entries → Expendable root given now x.1
  new : ∀ x ∈ now.entries, x ∉ given.entries →
    (∃ f ∈ recordings given root, x.1 = metadataPath f) ∧ given.has x.1

variable {root : Path} {given t t' : Tree} {f : FileInfo} {p : Path}

theorem parentDir_of_mem_recordings (h : f ∈ recordings t root) : root <+: f.parentDir := by
  obtain ⟨data, -, hroot, hne, -⟩ := mem_recordings.1 h
  exact prefix_dropLast hroot hne

/-- What may go missing is below the directory of the recordings. -/
theorem Expendable.below (h : Expendable root given t p) : root <+: p := by
  cases h with
  | recording hf hp =>
    obtain ⟨data, -, hroot, -⟩ := mem_recordings.1 hf
    exact hp ▸ hroot
  | metadata hf hp =>
    rw [hp]
    exact (parentDir_of_mem_recordings hf).trans (List.prefix_append _ _)
  | emptied hf hp => exact (parentDir_of_mem_recordings hf).trans hp

/-- It still may when more recordings go. -/
theorem Expendable.mono (h : Expendable root given t p)
    (hsub : recordings t' root ⊆ recordings t root) : Expendable root given t' p := by
  cases h with
  | recording hf hp => exact .recording hf hp
  | metadata hf hp => exact .metadata hf hp
  | emptied hf hp hnone => exact .emptied hf hp fun g hg => hnone g (hsub hg)

namespace Kept

theorem refl (root : Path) (t : Tree) : Kept root t t where
  lost _ hx hx' := absurd hx hx'
  new _ hx hx' := absurd hx hx'

/-- Outside the directory of the recordings nothing changes. -/
theorem outside (h : Kept root given t) {x : Path × Entry FileData} (hx : ¬ root <+: x.1) :
    x ∈ t.entries ↔ x ∈ given.entries := by
  constructor
  · intro hmem
    by_contra hnew
    obtain ⟨⟨f, hf, hp⟩, -⟩ := h.new x hmem hnew
    have hmetadata : Expendable root given t x.1 := .metadata hf hp
    exact hx hmetadata.below
  · intro hmem
    by_contra hlost
    exact hx (h.lost x hmem hlost).below

theorem has (h : Kept root given t) (hp : t.has p) : given.has p := by
  obtain ⟨e, he⟩ := has_iff.1 hp
  by_cases hmem : (p, e) ∈ given.entries
  · exact has_iff.2 ⟨e, hmem⟩
  · exact (h.new _ he hmem).2

/-- The loop makes no recordings. -/
theorem recordings_subset (h : Kept root given t) :
    recordings t root ⊆ recordings given root := by
  intro g hg
  obtain ⟨data, hmem, hroot, hne, hdb, hrest⟩ := mem_recordings.1 hg
  refine mem_recordings.2 ⟨data, ?_, hroot, hne, hdb, hrest⟩
  by_contra hnew
  obtain ⟨⟨f, -, hp⟩, -⟩ := h.new _ hmem hnew
  -- the metadata has no name of a recording
  have hname : g.filename = "metadata.yaml" := by
    show g.path.getLastD "" = _
    rw [show g.path = metadataPath f from hp]
    exact List.getLastD_concat ..
  rw [hname, isDbName_metadata] at hdb
  exact Bool.false_ne_true hdb

/-- A step that takes only what may go. -/
theorem of_lost (h : Kept root given t) (hsub : t'.entries ⊆ t.entries)
    (hrecordings : recordings t' root ⊆ recordings t root)
    (hlost : ∀ x ∈ t.entries, x ∉ t'.entries → Expendable root given t' x.1) :
    Kept root given t' where
  lost x hx hx' := by
    by_cases hmem : x ∈ t.entries
    · exact hlost x hmem hx'
    · exact (h.lost x hx hmem).mono hrecordings
  new x hx := h.new x (hsub hx)

end Kept

/-! ### One visit -/

theorem recordings_removeAll_subset (t : Tree) (p d : Path) :
    recordings (t.removeAll p) d ⊆ recordings t d := by
  rw [recordings_removeAll]
  exact List.filter_sublist.subset

theorem removeAll_subset (t : Tree) (p : Path) : (t.removeAll p).entries ⊆ t.entries :=
  fun _ hx => (mem_removeAll.1 hx).1

/-- The metadata beside a recording may be rewritten. -/
theorem Kept.modifyYamls (h : Kept root given t) (hf : f ∈ recordings given root)
    (written : Written) : Kept root given (modifyYamls written f t) := by
  have hrecordings := recordings_modifyYamls written f t root
  rcases modifyYamls_eq written f t with heq | ⟨data, heq⟩
  · rw [heq]
    exact h
  rw [heq] at hrecordings ⊢
  have hother : ∀ {x : Path × Entry FileData}, x.1 ≠ metadataPath f →
      (x ∈ (t.write (metadataPath f) data).entries ↔ x ∈ t.entries) := by
    intro x hx
    constructor
    · intro hmem
      obtain ⟨y, hy, rfl⟩ := List.mem_map.1 hmem
      rw [writeEntry_fst] at hx
      rwa [writeEntry_of_ne hx]
    · intro hmem
      exact List.mem_map.2 ⟨x, hmem, writeEntry_of_ne hx⟩
  constructor
  · intro x hx hx'
    by_cases hp : x.1 = metadataPath f
    · exact .metadata hf hp
    · exact (h.lost x hx (mt (hother hp).2 hx')).mono (hrecordings ▸ List.Subset.refl _)
  · intro x hx hx'
    by_cases hp : x.1 = metadataPath f
    · refine ⟨⟨f, hf, hp⟩, h.has (has_write.1 (has_iff.2 ⟨x.2, hx⟩))⟩
    · exact h.new x ((hother hp).1 hx) hx'

/-- A visited file may be removed. -/
theorem Kept.remove (h : Kept root given t) (hf : f ∈ recordings given root)
    (hremove : t.remove f.path = .ok t') : Kept root given t' := by
  unfold FileTree.remove at hremove
  split_ifs at hremove with hbelow
  obtain rfl := Except.ok.inj hremove
  refine h.of_lost (removeAll_subset t _) (recordings_removeAll_subset t _ root) ?_
  intro x hx hx'
  have hpath : f.path <+: x.1 := by
    by_contra hpath
    exact hx' (mem_removeAll.2 ⟨hx, hpath⟩)
  refine .recording hf ?_
  by_contra hne
  exact List.eq_nil_iff_forall_not_mem.1 hbelow x (mem_below.2 ⟨hx, hpath, hne⟩)

/-- The tree of a disk, whatever way the loop was left. -/
def leftTree : Except Thrown Disk → Tree
  | .ok disk => disk.tree
  | .error thrown => thrown.disk.tree

variable {written : Written} {disk : Disk} {currentSize maxCapacity : UInt64}

theorem Kept.deleteFile (h : Kept root given disk.tree) (hf : f ∈ recordings given root) :
    Kept root given (leftTree ((deleteFile written f currentSize disk).map Prod.snd)) := by
  unfold RecordPlayback.deleteFile
  split_ifs
  · have hyaml := h.modifyYamls hf written
    dsimp only
    split
    · rename_i t' hremove
      exact hyaml.remove hf hremove
    · exact hyaml
  · exact h

/-- The directory of a visited file goes only when no recording is right in it. -/
theorem Kept.deleteParentDir (h : Kept root given disk.tree) (hf : f ∈ recordings given root) :
    Kept root given (leftTree (deleteParentDir f disk)) := by
  have hroot := parentDir_of_mem_recordings hf
  unfold RecordPlayback.deleteParentDir directoryIterator
  dsimp only
  by_cases hdir : disk.tree.isDirectory f.parentDir
  · rw [if_pos hdir]
    dsimp only
    split_ifs with hempty
    · refine h.of_lost (removeAll_subset _ _) (recordings_removeAll_subset _ _ root) ?_
      intro x hx hx'
      refine .emptied hf ?_ ?_
      · by_contra hpath
        exact hx' (mem_removeAll.2 ⟨hx, hpath⟩)
      -- a recording right in the directory would have kept it
      · intro g hg hparent
        have hsome := (any_children_iff hroot).2
          ⟨g, recordings_removeAll_subset _ _ root hg, hparent⟩
        rw [hsome] at hempty
        exact absurd hempty (by simp)
    · exact h
  · rw [if_neg hdir]
    exact h

/-! ### The loop over the files -/

/-- **Whatever way the loop over the files is left, only what was expendable is gone.** -/
theorem Kept.deleteFiles {written : FileInfo → Written} {files : List FileInfo}
    (h : Kept root given disk.tree) (hfiles : ∀ f ∈ files, f ∈ recordings given root) :
    Kept root given (leftTree (deleteFiles written maxCapacity currentSize files disk)) := by
  induction files generalizing currentSize disk with
  | nil => exact h
  | cons f files ih =>
    -- the loop is left at its condition, by an exception of either deletion, or it goes on
    have hf := hfiles f List.mem_cons_self
    have hfile : Kept root given (leftTree ((RecordPlayback.deleteFile (written f) f currentSize
        disk).map Prod.snd)) := h.deleteFile hf
    unfold RecordPlayback.deleteFiles
    split_ifs
    · exact h
    cases hdelete : RecordPlayback.deleteFile (written f) f currentSize disk with
    | error thrown =>
      rw [hdelete] at hfile
      exact hfile
    | ok x =>
      rw [hdelete] at hfile
      replace hfile : Kept root given x.2.tree := hfile
      have hparent := hfile.deleteParentDir hf
      show Kept root given (leftTree (RecordPlayback.deleteParentDir f x.2 >>= _))
      cases hdir : RecordPlayback.deleteParentDir f x.2 with
      | error thrown =>
        rw [hdir] at hparent
        exact hparent
      | ok disk' =>
        rw [hdir] at hparent
        exact ih hparent fun g hg => hfiles g (List.mem_cons_of_mem f hg)

/-! ### The capacity -/

/-- The recordings on the disk are the files still to be visited, as far as they are there. -/
def Tracks (root : Path) (files : List FileInfo) (t : Tree) : Prop :=
  ∀ g, g ∈ recordings t root ↔ g ∈ files ∧ t.has g.path

theorem has_of_mem_recordings (h : f ∈ recordings t root) : t.has f.path := by
  obtain ⟨data, hmem, -⟩ := mem_recordings.1 h
  exact has_iff.2 ⟨_, hmem⟩

namespace Tracks

variable {files : List FileInfo}

theorem recordings (t : Tree) (root : Path) : Tracks root (recordings t root) t :=
  fun _ => ⟨fun h => ⟨h, has_of_mem_recordings h⟩, And.left⟩

theorem removeAll (h : Tracks root files t) (p : Path) : Tracks root files (t.removeAll p) := by
  intro g
  rw [recordings_removeAll, List.mem_filter, decide_eq_true_iff, h g, has_removeAll, and_assoc]

theorem modifyYamls (h : Tracks root files t) (written : Written) (f : FileInfo) :
    Tracks root files (modifyYamls written f t) := by
  intro g
  rw [recordings_modifyYamls, h g]
  rcases modifyYamls_eq written f t with heq | ⟨data, heq⟩
  · rw [heq]
  · rw [heq, has_write]

/-- A file that is gone need not be visited. -/
theorem tail (h : Tracks root (f :: files) t) (hf : ¬ t.has f.path) : Tracks root files t := by
  intro g
  rw [h g, List.mem_cons]
  constructor
  · rintro ⟨rfl | hg, hhas⟩
    · exact absurd hhas hf
    · exact ⟨hg, hhas⟩
  · rintro ⟨hg, hhas⟩
    exact ⟨Or.inr hg, hhas⟩

end Tracks

theorem totalSize_of_perm {files files' : List FileInfo} (h : files.Perm files') :
    totalSize files = totalSize files' := (h.map _).sum_nat

theorem totalSize_le_of_subset (h : recordings t root ⊆ recordings t' root) :
    totalSize (recordings t root) ≤ totalSize (recordings t' root) := by
  have hnodup : (recordings t root).Nodup := (recordings_nodup t root).of_map _
  obtain ⟨files, hperm, hsub⟩ := List.subperm_of_subset hnodup h
  rw [← totalSize_of_perm hperm]
  exact (hsub.map _).sum_le_sum fun _ _ => Nat.zero_le _

theorem deleteParentDir_tree {disk' : Disk} (h : deleteParentDir f disk = .ok disk') :
    disk'.tree = disk.tree ∨ disk'.tree = disk.tree.removeAll f.parentDir := by
  unfold deleteParentDir at h
  dsimp only at h
  split at h
  · cases h
  · split_ifs at h
    · obtain rfl := Except.ok.inj h
      exact Or.inr rfl
    · obtain rfl := Except.ok.inj h
      exact Or.inl rfl

/-- A visit of a file: the others are tracked, and the size that is left is not too small. -/
theorem tracks_deleteFile (written : Written) {files : List FileInfo}
    (h : Tracks root (f :: files) disk.tree)
    (hsize : totalSize (recordings disk.tree root) ≤ currentSize.toNat) :
    ∃ size t, deleteFile written f currentSize disk = .ok (size, { disk with tree := t }) ∧
      Tracks root files t ∧ totalSize (recordings t root) ≤ size.toNat := by
  by_cases hhas : disk.tree.has f.path
  · have hmem := (h f).2 ⟨List.mem_cons_self, hhas⟩
    have hperm := List.perm_cons_erase hmem
    obtain ⟨hdelete, hrest, -⟩ := deleteFile_spec hperm written currentSize
    refine ⟨_, _, hdelete, ?_, ?_⟩
    · refine ((h.modifyYamls written f).removeAll f.path).tail fun hleft => ?_
      exact (has_removeAll.1 hleft).2 List.prefix_rfl
    · rw [totalSize_of_perm hperm, totalSize_cons] at hsize
      rw [totalSize_of_perm hrest, UInt64.toNat_sub_of_le _ _ (UInt64.le_iff_toNat_le.2 (by omega))]
      omega
  · refine ⟨currentSize, disk.tree, ?_, h.tail hhas, hsize⟩
    unfold deleteFile
    exact if_neg hhas

/-- **A loop over the files that comes to its end leaves what fits the capacity.** -/
theorem fits_of_deleteFiles {written : FileInfo → Written} {files : List FileInfo} {disk' : Disk}
    (h : Tracks root files disk.tree)
    (hsize : totalSize (recordings disk.tree root) ≤ currentSize.toNat)
    (hrun : deleteFiles written maxCapacity currentSize files disk = .ok disk') :
    totalSize (recordings disk'.tree root) ≤ maxCapacity.toNat := by
  induction files generalizing currentSize disk with
  | nil =>
    obtain rfl := Except.ok.inj hrun
    -- no file is left to be visited, so no recording is left
    have hnil : recordings disk.tree root = [] :=
      List.eq_nil_iff_forall_not_mem.2 fun g hg => List.not_mem_nil ((h g).1 hg).1
    rw [hnil]
    exact Nat.zero_le _
  | cons f files ih =>
    unfold deleteFiles at hrun
    split_ifs at hrun with hfits
    · obtain rfl := Except.ok.inj hrun
      exact hsize.trans (UInt64.le_iff_toNat_le.1 hfits)
    obtain ⟨size, t, hdelete, htracks, hleft⟩ := tracks_deleteFile (written f) h hsize
    rw [hdelete] at hrun
    replace hrun : (deleteParentDir f { disk with tree := t } >>= fun disk =>
      deleteFiles written maxCapacity size files disk) = .ok disk' := hrun
    obtain ⟨disk₂, hdir, hrun⟩ := except_bind_eq_ok.1 hrun
    rcases deleteParentDir_tree hdir with htree | htree
    · refine ih ?_ ?_ hrun <;> rw [htree]
      · exact htracks
      · exact hleft
    -- recordings below the directory go with it without being counted, which leaves even less
    · refine ih ?_ ?_ hrun <;> rw [htree]
      · exact htracks.removeAll _
      · exact (totalSize_le_of_subset (recordings_removeAll_subset t _ root)).trans hleft

/-! ### A turn -/

variable {std : TimeSort} {machine : Machine} {soc : SocCfg} {answer : ℕ → Answer} {s : LoopState}

theorem eq_recordings_of_getDbFiles {files : List FileInfo} (h : getDbFiles t root = .ok files) :
    files = recordings t root := by
  unfold getDbFiles recursiveDirectoryIterator at h
  split_ifs at h
  · exact (Except.ok.inj h).symm
  · cases h

theorem kept_loopTurn {written : FileInfo → Written}
    (h : Kept soc.recordBagPath given s.tree) :
    Kept soc.recordBagPath given (loopTurn std machine soc written answer s).tree := by
  unfold loopTurn
  split_ifs
  · split
    · exact h
    · rename_i files hfiles
      obtain rfl := eq_recordings_of_getDbFiles hfiles
      have hdelete : Kept soc.recordBagPath given (leftTree (deleteOldestFiles std written
          (recordings s.tree soc.recordBagPath) soc.maxFileSize s.tree)) :=
        Kept.deleteFiles h fun f hf => h.recordings_subset ((std.perm _).mem_iff.1 hf)
      split
      · rename_i thrown hrun
        rw [hrun] at hdelete
        exact hdelete
      · rename_i disk hrun
        rw [hrun] at hdelete
        exact hdelete
  · exact h

/-- What is below something that is not there. -/
theorem recordings_eq_nil_of_not_has (h : ¬ t.has root) : recordings t root = [] := by
  rw [List.eq_nil_iff_forall_not_mem]
  intro g hg
  obtain ⟨data, hmem, hroot, hne, -⟩ := mem_recordings.1 hg
  exact h (has_iff.2 ⟨_, t.directory_of_prefix hmem hroot (Ne.symm hne)⟩)

theorem fits_loopTurn {written : FileInfo → Written}
    (h : totalSize (recordings s.tree soc.recordBagPath) < 2 ^ 64)
    (hok : (loopTurn std machine soc written answer s).status ≠ .thrown) :
    totalSize (recordings (loopTurn std machine soc written answer s).tree soc.recordBagPath) ≤
      soc.maxFileSize.toNat := by
  unfold loopTurn at hok ⊢
  split_ifs at hok ⊢ with hhas
  · split at hok
    · exact absurd rfl hok
    · rename_i files hfiles
      obtain rfl := eq_recordings_of_getDbFiles hfiles
      split at hok
      · exact absurd rfl hok
      · rename_i disk hrun
        have hperm := std.perm (recordings s.tree soc.recordBagPath)
        refine fits_of_deleteFiles (fun g => ?_) ?_ hrun
        · rw [hperm.mem_iff]
          exact Tracks.recordings s.tree soc.recordBagPath g
        · rw [toNat_calculateTotalSize, totalSize_of_perm hperm, Nat.mod_eq_of_lt h]
  · rw [recordings_eq_nil_of_not_has hhas]
    exact Nat.zero_le _

/-! ### The disk over a run -/

/-- The tree that other processes left last. -/
def lastGiven (tree : Tree) (events : List LoopEvent) : Tree :=
  events.foldl (fun last e =>
    match e with
    | .others tree => tree
    | _ => last) tree

/-- The loop took a turn since. -/
def settled (events : List LoopEvent) : Bool :=
  events.foldl (fun turned e =>
    match e with
    | .others _ => false
    | .turn .. => true
    | .shutdown => turned) false

/-- A capacity that is not negative is the number of bytes. -/
theorem toNat_maxFileSize (h : 0 ≤ soc.allBagSize.toInt) :
    (soc.maxFileSize.toNat : ℤ) = soc.allBagSize.toInt * 2 ^ 30 := by
  have hlt : soc.allBagSize.toInt < 2 ^ 31 := soc.allBagSize.toInt_lt
  have hmax : soc.maxFileSize.toNat =
      (soc.allBagSize.toInt * 1024 * 1024 * 1024 % 2 ^ 64).toNat % 2 ^ 64 := UInt64.toNat_ofNat'
  omega

/-- What holds of the disk after a list of events. -/
structure DiskInvariant (soc : SocCfg) (given : Tree) (turned : Bool) (s : LoopState) :
    Prop where
  kept : Kept soc.recordBagPath given s.tree
  fits : turned → s.status ≠ .thrown →
    totalSize (recordings given soc.recordBagPath) < 2 ^ 64 →
    totalSize (recordings s.tree soc.recordBagPath) ≤ soc.maxFileSize.toNat

theorem diskInvariant_of_run {tree : Tree} {events : List LoopEvent}
    (h : (mainLoop std machine soc tree).run events = some s) :
    DiskInvariant soc (lastGiven tree events) (settled events) s := by
  refine System.run_invariant (I := fun events s =>
    DiskInvariant soc (lastGiven tree events) (settled events) s) ?_ ?_ h
  · exact ⟨Kept.refl _ _, fun hturned => absurd hturned Bool.false_ne_true⟩
  · intro events s e s' hinv hstep
    unfold lastGiven settled
    rw [List.foldl_append, List.foldl_append]
    cases e with
    | others tree' =>
      obtain rfl := Option.some.inj hstep
      exact ⟨Kept.refl _ _, fun hturned => absurd hturned Bool.false_ne_true⟩
    | turn written answer =>
      replace hstep : (if s.status = .running then _ else none) = some s' := hstep
      split_ifs at hstep
      obtain rfl := Option.some.inj hstep
      -- the recordings are some of those that were given, so the sum does not wrap around
      refine ⟨kept_loopTurn hinv.kept, fun _ hok hsize => fits_loopTurn ?_ hok⟩
      exact (totalSize_le_of_subset hinv.kept.recordings_subset).trans_lt hsize
    | shutdown =>
      replace hstep : (if s.status = .running then _ else none) = some s' := hstep
      split_ifs at hstep with hrunning
      obtain rfl := Option.some.inj hstep
      refine ⟨hinv.kept, fun hturned _ => hinv.fits hturned ?_⟩
      rw [hrunning]
      simp

/-- **What the main loop leaves on the disk**, after any turns and whatever other processes do in
between: nothing outside the directory of the recordings is touched, only expendable entries are
gone, and after a turn the recordings fit the capacity. -/
theorem disk_of_run {tree : Tree} {events : List LoopEvent}
    (h : (mainLoop std machine soc tree).run events = some s) :
    Kept soc.recordBagPath (lastGiven tree events) s.tree ∧
      (∀ x, ¬ soc.recordBagPath <+: x.1 →
        (x ∈ s.tree.entries ↔ x ∈ (lastGiven tree events).entries)) ∧
      (settled events → s.status ≠ .thrown → 0 ≤ soc.allBagSize.toInt →
        totalSize (recordings (lastGiven tree events) soc.recordBagPath) < 2 ^ 64 →
        (totalSize (recordings s.tree soc.recordBagPath) : ℤ) ≤ soc.allBagSize.toInt * 2 ^ 30) := by
  have hinv := diskInvariant_of_run h
  refine ⟨hinv.kept, fun x hx => hinv.kept.outside hx, fun hturned hok hpositive hsize => ?_⟩
  rw [← toNat_maxFileSize hpositive]
  exact Int.ofNat_le.2 (hinv.fits hturned hok hsize)

/-- The machine of the samples. -/
def sampleMachine : Machine := ⟨"a2", "sn", 1, "1.0", "1.0"⟩

/-- The recordings in the bag directory `x`, under a capacity. -/
def sampleSoc (allBagSize : Int32) : SocCfg where
  allBagSize := allBagSize
  isFctl := true
  recordBagPath := ["x"]
  actions := [{ actionName := "bag", mode := "imd", isEnable := true }]

/-- A turn of the samples, with the answer to the request that is sent. -/
def sampleTurn (outcome : RpcOutcome) : LoopEvent :=
  .turn (fun _ => .notOpened) fun _ => ⟨"", outcome⟩

/-- Without any capacity the recordings of `x` go, and those of `y` stay. -/
theorem disk_of_run_sample :
    ∃ s, (mainLoop insertionSort sampleMachine (sampleSoc 0) flatTree).run [sampleTurn .notOk] =
        some s ∧
      totalSize (recordings s.tree ["x"]) ≤ 0 ∧
      (["y", "0.mcap"], sampleFile 2) ∈ s.tree.entries := by
  have hstatus : ((mainLoop insertionSort sampleMachine (sampleSoc 0) flatTree).run
      [sampleTurn .notOk]).map LoopState.status = some .running := by
    decide +kernel
  obtain ⟨s, hrun, hs⟩ := Option.map_eq_some_iff.1 hstatus
  obtain ⟨-, houtside, hfits⟩ := disk_of_run hrun
  refine ⟨s, hrun, ?_, (houtside _ (by decide)).2 ?_⟩
  · have hsize := hfits rfl (by rw [hs]; decide) (by decide) (by decide +kernel)
    exact Int.ofNat_le.1 hsize
  · show _ ∈ flatTree.entries
    decide +kernel

/-! ### The calls of a turn -/

/-- The calls for the action at an index. -/
def callsOf (i : ℕ) (calls : List MetadataCall) : List MetadataCall :=
  calls.filter fun call => call.index = i

theorem callsOf_append (i : ℕ) (calls calls' : List MetadataCall) :
    callsOf i (calls ++ calls') = callsOf i calls ++ callsOf i calls' := List.filter_append ..

theorem updateMetadata_index (machine : Machine) (answer : Answer) (i : ℕ) (name mode : String) :
    (updateMetadata machine answer i name mode).index = i := by
  unfold updateMetadata
  split <;> rfl

/-- The call for an action is none or one, and the action keeps what it returns. -/
def turnOfAction (machine : Machine) (answer : Answer) (i : ℕ) (action : LoopAction) :
    LoopAction × List MetadataCall :=
  let call := updateMetadata machine answer i action.actionName action.mode
  if action.due then ({ action with hasUpdateMetadata := call.ok }, [call]) else (action, [])

theorem updateActions_cons (machine : Machine) (answer : ℕ → Answer) (k : ℕ)
    (action : LoopAction) (actions : List LoopAction) :
    updateActions machine answer k (action :: actions) =
      ((turnOfAction machine (answer k) k action).1 ::
          (updateActions machine answer (k + 1) actions).1,
        (turnOfAction machine (answer k) k action).2 ++
          (updateActions machine answer (k + 1) actions).2) := by
  unfold turnOfAction
  rw [updateActions]
  split_ifs <;> rfl

theorem callsOf_turnOfAction (machine : Machine) (answer : Answer) (i k : ℕ)
    (action : LoopAction) :
    callsOf i (turnOfAction machine answer k action).2 =
      if i = k then (turnOfAction machine answer k action).2 else [] := by
  unfold turnOfAction callsOf
  dsimp only
  split_ifs with hdue hik hik
  · subst hik
    simp [updateMetadata_index]
  · simp [updateMetadata_index, Ne.symm hik]
  · rfl
  · rfl

/-- A turn asks for each action on its own. -/
theorem updateActions_getElem? (machine : Machine) (answer : ℕ → Answer) (k i : ℕ)
    {actions : List LoopAction} {a : LoopAction} (ha : actions[i]? = some a) :
    (updateActions machine answer k actions).1[i]? =
      some (turnOfAction machine (answer (k + i)) (k + i) a).1 := by
  induction actions generalizing k i with
  | nil => cases ha
  | cons action actions ih =>
    rw [updateActions_cons]
    cases i with
    | zero =>
      obtain rfl := Option.some.inj ha
      rfl
    | succ i =>
      rw [List.getElem?_cons_succ] at ha ⊢
      rw [ih (k + 1) i ha, Nat.add_right_comm]
      rfl

theorem callsOf_updateActions_of_lt (machine : Machine) (answer : ℕ → Answer) {k i : ℕ}
    (hik : i < k) (actions : List LoopAction) :
    callsOf i (updateActions machine answer k actions).2 = [] := by
  induction actions generalizing k with
  | nil => rfl
  | cons action actions ih =>
    rw [updateActions_cons, callsOf_append, callsOf_turnOfAction, if_neg (by omega),
      ih (by omega), List.nil_append]

theorem callsOf_updateActions (machine : Machine) (answer : ℕ → Answer) (k i : ℕ)
    {actions : List LoopAction} {a : LoopAction} (ha : actions[i]? = some a) :
    callsOf (k + i) (updateActions machine answer k actions).2 =
      (turnOfAction machine (answer (k + i)) (k + i) a).2 := by
  induction actions generalizing k i with
  | nil => cases ha
  | cons action actions ih =>
    rw [updateActions_cons, callsOf_append, callsOf_turnOfAction]
    cases i with
    | zero =>
      obtain rfl := Option.some.inj ha
      rw [Nat.add_zero, if_pos rfl, callsOf_updateActions_of_lt machine answer (by omega),
        List.append_nil]
    | succ i =>
      rw [List.getElem?_cons_succ] at ha
      have hnext := ih (k + 1) i ha
      rw [Nat.add_right_comm] at hnext
      rw [if_neg (by omega)]
      exact hnext

/-! ### The metadata over a run -/

/-- How the calls for an action go over some turns: they fail in all of them, or they fail in the
first ones, one succeeds, and that was the last. -/
inductive Attempted (a : LoopAction) (count : ℕ) : List MetadataCall → LoopAction → Prop where
  | pending {failed : List MetadataCall} (hfailed : ∀ call ∈ failed, call.ok = false)
      (hcount : failed.length = count) : Attempted a count failed a
  | accepted {failed : List MetadataCall} {call : MetadataCall}
      (hfailed : ∀ call ∈ failed, call.ok = false) (hok : call.ok = true)
      (hcount : failed.length < count) :
      Attempted a count (failed ++ [call]) { a with hasUpdateMetadata := true }

/-- What holds of the calls for an action. -/
structure AskedOnce (machine : Machine) (i : ℕ) (a : LoopAction) (s : LoopState) : Prop where
  attempted : a.due → ∃ a', s.actions[i]? = some a' ∧ Attempted a s.count (callsOf i s.calls) a'
  idle : ¬ a.due → s.actions[i]? = some a ∧ callsOf i s.calls = []
  request : ∀ call ∈ callsOf i s.calls, ∀ req, call.request = some req →
    ∃ bagId, req = updateMetadataReq machine bagId a.actionName a.mode
  sent : ∀ call ∈ callsOf i s.calls, call.ok → call.request.isSome

theorem not_due_of_hasUpdateMetadata {a : LoopAction} (h : a.hasUpdateMetadata = true) :
    ¬ a.due := by
  unfold LoopAction.due
  rw [h]
  simp

theorem Attempted.same {a a' : LoopAction} {count : ℕ} {calls : List MetadataCall}
    (h : Attempted a count calls a') : a'.actionName = a.actionName ∧ a'.mode = a.mode := by
  cases h with
  | pending => exact ⟨rfl, rfl⟩
  | accepted => exact ⟨rfl, rfl⟩

/-- A turn that comes to its end. -/
theorem Attempted.turn {a a' : LoopAction} {count i : ℕ} {calls : List MetadataCall}
    {reply : Answer} (h : Attempted a count calls a') (hdue : a.due) :
    Attempted a (count + 1) (calls ++ (turnOfAction machine reply i a').2)
      (turnOfAction machine reply i a').1 := by
  cases h with
  | pending hfailed hcount =>
    unfold turnOfAction
    dsimp only
    rw [if_pos hdue]
    cases hok : (updateMetadata machine reply i a.actionName a.mode).ok with
    | true => exact .accepted hfailed hok (by omega)
    | false =>
      -- the call fails, so the action stays as it is and the next turn tries again
      have hstays : { a with hasUpdateMetadata := false } = a := by
        unfold LoopAction.due at hdue
        cases a
        simp_all
      dsimp only
      rw [hstays]
      refine .pending ?_ (by rw [List.length_append, hcount]; rfl)
      intro call hcall
      rcases List.mem_append.1 hcall with hcall | hcall
      · exact hfailed call hcall
      · obtain rfl := List.mem_singleton.1 hcall
        exact hok
  | accepted hfailed hok hcount =>
    -- an action that has been asked for is not asked for again
    unfold turnOfAction
    dsimp only
    rw [if_neg (not_due_of_hasUpdateMetadata rfl), List.append_nil]
    exact .accepted hfailed hok (by omega)

/-- The requests of a turn are those of the action. -/
theorem turnOfAction_request {a : LoopAction} {reply : Answer} {i : ℕ} {call : MetadataCall}
    (h : call ∈ (turnOfAction machine reply i a).2) :
    (∀ req, call.request = some req →
      ∃ bagId, req = updateMetadataReq machine bagId a.actionName a.mode) ∧
    (call.ok → call.request.isSome) := by
  unfold turnOfAction at h
  dsimp only at h
  split_ifs at h
  · obtain rfl := List.mem_singleton.1 h
    unfold updateMetadata
    split
    · exact ⟨fun req hreq => absurd hreq (by simp), fun hok => absurd hok Bool.false_ne_true⟩
    · exact ⟨fun req hreq => ⟨reply.bagId, (Option.some.inj hreq).symm⟩, fun _ => rfl⟩
    · exact ⟨fun req hreq => ⟨reply.bagId, (Option.some.inj hreq).symm⟩, fun _ => rfl⟩
  · cases h

/-- A turn either asks for every action, or it changes nothing about them. -/
theorem loopTurn_actions (std : TimeSort) (machine : Machine) (soc : SocCfg)
    (written : FileInfo → Written) (answer : ℕ → Answer) (s : LoopState) :
    ((loopTurn std machine soc written answer s).actions =
        (updateActions machine answer 0 s.actions).1 ∧
      (loopTurn std machine soc written answer s).calls =
        s.calls ++ (updateActions machine answer 0 s.actions).2 ∧
      (loopTurn std machine soc written answer s).count = s.count + 1) ∨
    ((loopTurn std machine soc written answer s).actions = s.actions ∧
      (loopTurn std machine soc written answer s).calls = s.calls ∧
      (loopTurn std machine soc written answer s).count = s.count) := by
  unfold loopTurn
  split_ifs
  · split
    · exact Or.inr ⟨rfl, rfl, rfl⟩
    · split
      · exact Or.inr ⟨rfl, rfl, rfl⟩
      · exact Or.inl ⟨rfl, rfl, rfl⟩
  · exact Or.inr ⟨rfl, rfl, rfl⟩

namespace AskedOnce

variable {a : LoopAction} {i : ℕ} {s' : LoopState}

theorem congr (h : AskedOnce machine i a s) (hactions : s'.actions = s.actions)
    (hcalls : s'.calls = s.calls) (hcount : s'.count = s.count) : AskedOnce machine i a s' := by
  constructor
  · rw [hactions, hcalls, hcount]
    exact h.attempted
  · rw [hactions, hcalls]
    exact h.idle
  · rw [hcalls]
    exact h.request
  · rw [hcalls]
    exact h.sent

/-- A turn that asks for every action. -/
theorem turn (h : AskedOnce machine i a s)
    (hactions : s'.actions = (updateActions machine answer 0 s.actions).1)
    (hcalls : s'.calls = s.calls ++ (updateActions machine answer 0 s.actions).2)
    (hcount : s'.count = s.count + 1) : AskedOnce machine i a s' := by
  have hone : ∀ {a'}, s.actions[i]? = some a' →
      s'.actions[i]? = some (turnOfAction machine (answer i) i a').1 ∧
        callsOf i s'.calls = callsOf i s.calls ++ (turnOfAction machine (answer i) i a').2 := by
    intro a' ha'
    have hget := updateActions_getElem? machine answer 0 i ha'
    have hnew := callsOf_updateActions machine answer 0 i ha'
    rw [Nat.zero_add] at hget hnew
    rw [hactions, hcalls, callsOf_append, hnew]
    exact ⟨hget, rfl⟩
  by_cases hdue : a.due
  · obtain ⟨a', ha', hattempted⟩ := h.attempted hdue
    obtain ⟨hget, hnew⟩ := hone ha'
    have hsame := hattempted.same
    have hrequest : ∀ call ∈ (turnOfAction machine (answer i) i a').2, _ :=
      fun call hcall => turnOfAction_request hcall
    rw [hsame.1, hsame.2] at hrequest
    refine ⟨fun _ => ⟨_, hget, ?_⟩, fun hidle => absurd hdue hidle, ?_, ?_⟩
    · rw [hnew, hcount]
      exact hattempted.turn hdue
    · rw [hnew]
      intro call hcall
      rcases List.mem_append.1 hcall with hcall | hcall
      · exact h.request call hcall
      · exact (hrequest call hcall).1
    · rw [hnew]
      intro call hcall
      rcases List.mem_append.1 hcall with hcall | hcall
      · exact h.sent call hcall
      · exact (hrequest call hcall).2
  · obtain ⟨ha', hnone⟩ := h.idle hdue
    obtain ⟨hget, hnew⟩ := hone ha'
    have hturn : turnOfAction machine (answer i) i a = (a, []) := by
      unfold turnOfAction
      exact if_neg hdue
    rw [hturn] at hget hnew
    rw [hnone] at hnew
    refine ⟨fun h => absurd h hdue, fun _ => ⟨hget, hnew⟩, ?_, ?_⟩ <;> rw [hnew]
    · exact fun call hcall => absurd hcall List.not_mem_nil
    · exact fun call hcall => absurd hcall List.not_mem_nil

end AskedOnce

/-- **The metadata of an action is asked for until it is taken, and never again**, in every turn
that comes to its end; an action that is off, or of another mode, is not asked for. -/
theorem metadata_of_run {tree : Tree} {events : List LoopEvent} {i : ℕ} {a : LoopAction}
    (h : (mainLoop std machine soc tree).run events = some s) (ha : soc.actions[i]? = some a) :
    AskedOnce machine i a s := by
  refine (System.reachable_of_run events h).invariant ?_ ?_
  · refine ⟨fun _ => ⟨a, ha, .pending ?_ rfl⟩, fun _ => ⟨ha, rfl⟩, ?_, ?_⟩
    · exact fun call hcall => absurd hcall List.not_mem_nil
    · exact fun call hcall => absurd hcall List.not_mem_nil
    · exact fun call hcall => absurd hcall List.not_mem_nil
  · intro s e s' hinv hstep
    cases e with
    | others tree' =>
      obtain rfl := Option.some.inj hstep
      exact hinv.congr rfl rfl rfl
    | turn written answer =>
      replace hstep : (if s.status = .running then _ else none) = some s' := hstep
      split_ifs at hstep
      obtain rfl := Option.some.inj hstep
      rcases loopTurn_actions std machine soc written answer s with
        ⟨hactions, hcalls, hcount⟩ | ⟨hactions, hcalls, hcount⟩
      · exact hinv.turn hactions hcalls hcount
      · exact hinv.congr hactions hcalls hcount
    | shutdown =>
      replace hstep : (if s.status = .running then _ else none) = some s' := hstep
      split_ifs at hstep
      obtain rfl := Option.some.inj hstep
      exact hinv.congr rfl rfl rfl

/-- The first request fails, the second one is answered, and the third turn sends none. -/
theorem metadata_of_run_sample :
    ∃ s, (mainLoop insertionSort sampleMachine (sampleSoc 1) flatTree).run
        [sampleTurn .notOk, sampleTurn (.answered 0), sampleTurn .notOk] = some s ∧
      (callsOf 0 s.calls).map MetadataCall.ok = [false, true] ∧
      ∃ a', s.actions[0]? = some a' ∧
        Attempted { actionName := "bag", mode := "imd", isEnable := true } s.count
          (callsOf 0 s.calls) a' := by
  have hcalls : ((mainLoop insertionSort sampleMachine (sampleSoc 1) flatTree).run
      [sampleTurn .notOk, sampleTurn (.answered 0), sampleTurn .notOk]).map
        (fun s => (callsOf 0 s.calls).map MetadataCall.ok) = some [false, true] := by
    decide +kernel
  obtain ⟨s, hrun, hs⟩ := Option.map_eq_some_iff.1 hcalls
  exact ⟨s, hrun, hs, (metadata_of_run (i := 0) hrun rfl).attempted (by decide)⟩

end AimrtComm.RecordPlayback
