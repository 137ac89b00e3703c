import AimrtComm.RecordPlayback.Equiv.Record

/-!
## What recording retention leaves in the metadata

A bag directory is flat and has a `metadata.yaml` that lists its recordings (`BagDirectory`).  With
each recording that `deleteOldestFiles` removes, its entry goes from the list, and with the last one
the directory goes.  So in every directory that is left the list is the old one without the
recordings that are gone (`InStep`), in the order that it had and with nothing else changed
(`metadata_in_step`).
-/

namespace AimrtComm

/-- A map with another child. -/
def Yaml.setChild (node : Yaml) (key : String) (v : Yaml) : Yaml :=
  match node with
  | map t fs => map t (Assoc.upsert undefined key (fun _ => v) fs)
  | _ => node

namespace RecordPlayback

open FileTree Yaml

/-! ### The list of a document -/

/-- The entries of the list `files`. -/
def listedFiles (config : Yaml) : List Yaml :=
  ((config.child "aimrt_bagfile_information").child "files").items

/-- The name of the file that an entry stands for. -/
def listedName (file : Yaml) : Option String :=
  ((file.get "path").bind Yaml.asString).toOption

/-- A document with other `files`. -/
def withFiles (config files : Yaml) : Yaml :=
  config.setChild "aimrt_bagfile_information"
    ((config.child "aimrt_bagfile_information").setChild "files" files)

variable {config file : Yaml} {files : List Yaml} {name : String}

theorem exists_path_of_listedName (h : listedName file = some name) :
    ∃ path, file.get "path" = .ok path ∧ path.isDefined = true ∧ path.asString = .ok name := by
  unfold listedName at h
  cases hget : file.get "path" with
  | error e =>
    rw [hget] at h
    cases h
  | ok path =>
    rw [hget] at h
    replace h : path.asString.toOption = some name := h
    cases hname : path.asString with
    | error e =>
      rw [hname] at h
      cases h
    | ok text =>
      rw [hname] at h
      obtain rfl := Option.some.inj h
      refine ⟨path, rfl, ?_, hname⟩
      cases path with
      | undefined => cases hname
      | _ => rfl

/-- What is kept of a list whose entries all have names. -/
theorem keptFiles_eq (deleteFile : String) (h : ∀ file ∈ files, (listedName file).isSome) :
    keptFiles deleteFile files =
      .ok (files.filter fun file => listedName file ≠ some deleteFile) := by
  induction files with
  | nil => rfl
  | cons file files ih =>
    obtain ⟨name, hname⟩ := Option.isSome_iff_exists.1 (h file List.mem_cons_self)
    obtain ⟨path, hget, hdefined, htext⟩ := exists_path_of_listedName hname
    have hrest := ih fun x hx => h x (List.mem_cons_of_mem file hx)
    rw [keptFiles, hget]
    show (if !path.isDefined then _ else _) = _
    rw [hdefined, htext, hrest, List.filter_cons, hname]
    by_cases hdelete : name = deleteFile
    · subst hdelete
      simp [bind, Except.bind, pure, Except.pure]
    · simp [bind, Except.bind, pure, Except.pure, hdelete]

/-- A document that lists something has the map of the information, and in it the list. -/
theorem exists_of_listedFiles (h : listedFiles config ≠ []) :
    ∃ t fs t' fs' t'', config = .map t fs ∧
      Assoc.get .undefined "aimrt_bagfile_information" fs = .map t' fs' ∧
      Assoc.get .undefined "files" fs' = .seq t'' (listedFiles config) := by
  unfold listedFiles at h ⊢
  cases config with
  | map t fs =>
    dsimp only [child] at h ⊢
    cases hinformation : Assoc.get .undefined "aimrt_bagfile_information" fs with
    | map t' fs' =>
      rw [hinformation] at h
      dsimp only at h ⊢
      cases hfiles : Assoc.get .undefined "files" fs' with
      | seq t'' xs => exact ⟨t, fs, t', fs', t'', rfl, hinformation, hfiles⟩
      | _ =>
        rw [hfiles] at h
        exact absurd rfl h
    | _ =>
      rw [hinformation] at h
      exact absurd rfl h
  | _ => exact absurd rfl h

/-- What is put in place of a list. -/
theorem newFiles_seq {t : String} (deleteFile : String)
    (h : ∀ file ∈ files, (listedName file).isSome) :
    ∃ new, newFiles deleteFile (.seq t files) = .ok new ∧
      new.items = files.filter fun file => listedName file ≠ some deleteFile := by
  obtain ⟨kept, hkept⟩ : ∃ kept, (files.filter fun file => listedName file ≠ some deleteFile) =
      kept := ⟨_, rfl⟩
  refine ⟨if kept.isEmpty then .null else .seq "" kept, ?_, ?_⟩
  · rw [newFiles, keptFiles_eq deleteFile h, hkept]
    rfl
  · rw [hkept]
    cases kept with
    | nil => rfl
    | cons file kept => rfl

/-- **What `modifyYamls` makes of a document**: the entries of the deleted file go from the list. -/
theorem modifiedConfig_eq (deleteFile : String) (hne : listedFiles config ≠ [])
    (h : ∀ file ∈ listedFiles config, (listedName file).isSome) :
    ∃ new, modifiedConfig deleteFile config = .ok (some (withFiles config new)) ∧
      new.items = (listedFiles config).filter fun file => listedName file ≠ some deleteFile := by
  obtain ⟨t, fs, t', fs', t'', rfl, hinformation, hfiles⟩ := exists_of_listedFiles hne
  obtain ⟨new, hnew, hitems⟩ := newFiles_seq (t := t'') deleteFile h
  refine ⟨new, ?_, hitems⟩
  have hget : (Yaml.map t fs).get "aimrt_bagfile_information" = .ok (.map t' fs') :=
    congrArg Except.ok hinformation
  have hget' : (Yaml.map t' fs').get "files" =
      .ok (.seq t'' (listedFiles (.map t fs))) := congrArg Except.ok hfiles
  have hset : withFiles (.map t fs) new = .map t (Assoc.upsert .undefined
      "aimrt_bagfile_information"
      (fun _ => .map t' (Assoc.upsert .undefined "files" (fun _ => new) fs')) fs) := by
    unfold withFiles child setChild
    dsimp only
    rw [hinformation]
  rw [hset]
  unfold modifiedConfig modifyField convertToMap
  rw [hget]
  dsimp only [bind, Except.bind, isDefined]
  rw [hget']
  dsimp only [bind, Except.bind, isDefined]
  rw [hnew]
  dsimp only [bind, Except.bind]
  rw [hinformation]
  rfl

/-! ### Documents with other files -/

theorem setChild_setChild (node : Yaml) (key : String) (v w : Yaml) :
    (node.setChild key v).setChild key w = node.setChild key w := by
  cases node with
  | map t fs => exact congrArg (Yaml.map t) (Assoc.upsert_upsert undefined key _ _ fs)
  | _ => rfl

/-- The files that were put in last count. -/
theorem withFiles_withFiles (config files new : Yaml) :
    withFiles (withFiles config files) new = withFiles config new := by
  cases config with
  | map t fs =>
    have hchild : (withFiles (.map t fs) files).child "aimrt_bagfile_information" =
        ((Yaml.map t fs).child "aimrt_bagfile_information").setChild "files" files :=
      Assoc.get_upsert_self _ _ _ fs
    show (withFiles (.map t fs) files).setChild _
      (((withFiles (.map t fs) files).child _).setChild "files" new) = _
    rw [hchild, setChild_setChild]
    exact setChild_setChild (.map t fs) "aimrt_bagfile_information" _ _
  | _ => rfl

/-- The files that were put into a document are those that it lists. -/
theorem listedFiles_withFiles (hne : listedFiles config ≠ []) (new : Yaml) :
    listedFiles (withFiles config new) = new.items := by
  obtain ⟨t, fs, t', fs', -, rfl, hinformation, -⟩ := exists_of_listedFiles hne
  have hchild : (withFiles (.map t fs) new).child "aimrt_bagfile_information" =
      ((Yaml.map t fs).child "aimrt_bagfile_information").setChild "files" new :=
    Assoc.get_upsert_self _ _ _ fs
  have hchild' : (Yaml.map t fs).child "aimrt_bagfile_information" = .map t' fs' := hinformation
  unfold listedFiles
  rw [hchild, hchild']
  exact congrArg Yaml.items (Assoc.get_upsert_self _ _ _ fs')

/-! ### Bag directories -/

/-- The document of a directory's `metadata.yaml`. -/
def metadata (t : Tree) (d : Path) : Option Yaml :=
  (t.file? (d ++ ["metadata.yaml"])).bind FileData.document

/-- The names that the metadata of a directory has to list. -/
def recordingNames (t : Tree) (d : Path) : List (Option String) :=
  (recordings t d).map fun f => some f.filename

/-- The metadata of a directory lists its recordings, each once. -/
def Listed (t : Tree) (d : Path) : Prop :=
  ∃ config, metadata t d = some config ∧
    ((listedFiles config).map listedName).Perm (recordingNames t d)

/-- Every recording below a directory is right in it. -/
def Flat (t : Tree) (d : Path) : Prop := ∀ f ∈ recordings t d, f.parentDir = d

/-- A flat directory of recordings, with metadata that lists them. -/
structure BagDirectory (t : Tree) (d : Path) : Prop where
  flat : Flat t d
  listed : Listed t d

/-- The metadata of a directory is what it was without the entries of the recordings that are gone,
and it lists the recordings that are left. -/
structure InStep (t t' : Tree) (d : Path) : Prop where
  kept : ∃ config config', metadata t d = some config ∧ metadata t' d = some config' ∧
    (config' = config ∨ ∃ files, config' = withFiles config files) ∧
    listedFiles config' =
      (listedFiles config).filter fun file => listedName file ∈ recordingNames t' d
  listed : Listed t' d

/-- What holds between a tree and one that retention makes of it. -/
structure Retained (t t' : Tree) : Prop where
  has_of_has : ∀ d, t'.has d → t.has d
  recordings_subset : ∀ d, recordings t' d ⊆ recordings t d
  inStep : ∀ d, BagDirectory t d → t'.has d → InStep t t' d
  gone : ∀ d, BagDirectory t d → recordings t d ≠ [] → recordings t' d = [] → ¬ t'.has d

variable {t t' t'' : Tree} {d : Path} {f : FileInfo}

theorem path_of_mem_recordings (h : f ∈ recordings t d) : f.path = f.parentDir ++ [f.filename] := by
  obtain ⟨data, -, hd, hne, -⟩ := mem_recordings.1 h
  have hnil : f.path ≠ [] := by
    intro hnil
    rw [hnil] at hd hne
    exact hne (List.prefix_nil.1 hd).symm
  unfold FileInfo.parentDir FileInfo.filename
  rw [List.getLastD_eq_getLast?, List.getLast?_eq_getLast_of_ne_nil hnil]
  exact (List.dropLast_append_getLast hnil).symm

theorem recordingNames_subset (h : recordings t' d ⊆ recordings t d) :
    recordingNames t' d ⊆ recordingNames t d := List.map_subset _ h

namespace Flat

theorem mono (hflat : Flat t d) (h : recordings t' d ⊆ recordings t d) : Flat t' d :=
  fun f hf => hflat f (h hf)

/-- In a flat directory a recording is its name. -/
theorem path_eq (hflat : Flat t d) (h : f ∈ recordings t d) : f.path = d ++ [f.filename] := by
  rw [path_of_mem_recordings h, hflat f h]

theorem recordingNames_nodup (hflat : Flat t d) : (recordingNames t d).Nodup := by
  refine List.Nodup.map_on ?_ (List.Nodup.of_map _ (recordings_nodup t d))
  intro f hf g hg hname
  refine List.inj_on_of_nodup_map (recordings_nodup t d) hf hg ?_
  rw [hflat.path_eq hf, hflat.path_eq hg, Option.some.inj hname]

end Flat

namespace InStep

/-- The entries whose recordings are left list what is left. -/
theorem of_filter (hbag : BagDirectory t d) (hsub : recordings t' d ⊆ recordings t d)
    (h : ∃ config config', metadata t d = some config ∧ metadata t' d = some config' ∧
      (config' = config ∨ ∃ files, config' = withFiles config files) ∧
      listedFiles config' =
        (listedFiles config).filter fun file => listedName file ∈ recordingNames t' d) :
    InStep t t' d := by
  refine ⟨h, ?_⟩
  obtain ⟨config, config', hconfig, hconfig', -, hfilter⟩ := h
  obtain ⟨config₀, hconfig₀, hlisted⟩ := hbag.listed
  obtain rfl : config₀ = config := Option.some.inj (hconfig₀.symm.trans hconfig)
  refine ⟨config', hconfig', ?_⟩
  have hnodup : ((listedFiles config').map listedName).Nodup := by
    rw [hfilter]
    exact (hlisted.nodup_iff.2 hbag.flat.recordingNames_nodup).sublist
      (List.filter_sublist.map _)
  refine (List.perm_ext_iff_of_nodup hnodup (hbag.flat.mono hsub).recordingNames_nodup).2 ?_
  rw [hfilter]
  intro name
  constructor
  · intro hname
    obtain ⟨file, hfile, rfl⟩ := List.mem_map.1 hname
    exact of_decide_eq_true (List.mem_filter.1 hfile).2
  · intro hname
    obtain ⟨file, hfile, rfl⟩ :=
      List.mem_map.1 (hlisted.mem_iff.2 (recordingNames_subset hsub hname))
    exact List.mem_map_of_mem (List.mem_filter.2 ⟨hfile, decide_eq_true hname⟩)

/-- A directory that nothing was done to is in step. -/
theorem of_eq (hbag : BagDirectory t d) (hmetadata : metadata t' d = metadata t d)
    (hrecordings : recordings t' d = recordings t d) : InStep t t' d := by
  obtain ⟨config, hconfig, hlisted⟩ := hbag.listed
  have hnames : recordingNames t' d = recordingNames t d := by
    unfold recordingNames
    rw [hrecordings]
  refine of_filter hbag (hrecordings ▸ List.Subset.refl _)
    ⟨config, config, hconfig, hmetadata.trans hconfig, Or.inl rfl, ?_⟩
  rw [hnames]
  refine (List.filter_eq_self.2 fun file hfile => decide_eq_true ?_).symm
  exact hlisted.mem_iff.1 (List.mem_map_of_mem hfile)

theorem trans (h : InStep t t' d) (h' : InStep t' t'' d)
    (hsub : recordings t'' d ⊆ recordings t' d) : InStep t t'' d := by
  obtain ⟨config, config', hconfig, hconfig', hsame, hfilter⟩ := h.kept
  obtain ⟨config₀, config'', hconfig₀, hconfig'', hsame', hfilter'⟩ := h'.kept
  obtain rfl : config₀ = config' := Option.some.inj (hconfig₀.symm.trans hconfig')
  refine ⟨⟨config, config'', hconfig, hconfig'', ?_, ?_⟩, h'.listed⟩
  · rcases hsame with rfl | ⟨files, rfl⟩
    · exact hsame'
    · rcases hsame' with rfl | ⟨new, rfl⟩
      · exact Or.inr ⟨files, rfl⟩
      · exact Or.inr ⟨new, withFiles_withFiles config files new⟩
  · rw [hfilter', hfilter, List.filter_filter]
    refine List.filter_congr fun file _ => ?_
    rw [← Bool.decide_and]
    exact decide_eq_decide.2 (and_iff_left_of_imp fun hname => recordingNames_subset hsub hname)

end InStep

namespace Retained

theorem refl (t : Tree) : Retained t t where
  has_of_has _ h := h
  recordings_subset _ := List.Subset.refl _
  inStep _ hbag _ := InStep.of_eq hbag rfl rfl
  gone _ _ hne hnil := absurd hnil hne

/-- A bag directory that is left is one. -/
theorem bagDirectory (h : Retained t t') (hbag : BagDirectory t d) (hd : t'.has d) :
    BagDirectory t' d where
  flat := hbag.flat.mono (h.recordings_subset d)
  listed := (h.inStep d hbag hd).listed

theorem trans (h : Retained t t') (h' : Retained t' t'') : Retained t t'' where
  has_of_has d hd := h.has_of_has d (h'.has_of_has d hd)
  recordings_subset d := List.Subset.trans (h'.recordings_subset d) (h.recordings_subset d)
  inStep d hbag hd := by
    have hd' := h'.has_of_has d hd
    exact (h.inStep d hbag hd').trans (h'.inStep d (h.bagDirectory hbag hd') hd)
      (h'.recordings_subset d)
  gone d hbag hne hnil hd := by
    have hd' := h'.has_of_has d hd
    by_cases hnil' : recordings t' d = []
    · exact h.gone d hbag hne hnil' hd'
    · exact h'.gone d (h.bagDirectory hbag hd') hnil' hnil hd

end Retained

/-! ### One visit -/

variable {root : Path} {rest : List FileInfo}

namespace BagDirectory

/-- The metadata of a bag directory is a file. -/
theorem exists_metadata (hbag : BagDirectory t d) :
    ∃ data, (d ++ ["metadata.yaml"], Entry.file data) ∈ t.entries := by
  obtain ⟨config, hconfig, -⟩ := hbag.listed
  obtain ⟨data, hdata, -⟩ := Option.bind_eq_some_iff.1 hconfig
  exact ⟨data, file?_eq_some_iff.1 hdata⟩

theorem directory_mem (hbag : BagDirectory t d) : (d, Entry.directory) ∈ t.entries := by
  obtain ⟨data, hdata⟩ := hbag.exists_metadata
  exact t.closed _ _ _ hdata

end BagDirectory

/-- Removing something that is no recording and no metadata of a bag directory, and not the
directory itself or above it, does nothing to the directory. -/
theorem removeAll_of_not_mem {p : Path} (hflat : Flat t d) (hd : ¬ p <+: d)
    (hmetadata : p ≠ d ++ ["metadata.yaml"]) (hp : ∀ f ∈ recordings t d, p ≠ f.path) :
    metadata (t.removeAll p) d = metadata t d ∧
      recordings (t.removeAll p) d = recordings t d := by
  have hbelow : ∀ name, p ≠ d ++ [name] → ¬ p <+: d ++ [name] := by
    intro name hne habove
    rcases List.prefix_concat_iff.1 habove with h | h
    · exact hne h
    · exact hd h
  constructor
  · unfold metadata
    rw [file?_removeAll (hbelow _ hmetadata)]
  · rw [recordings_removeAll, List.filter_eq_self]
    intro f hf
    have hne := hp f hf
    rw [hflat.path_eq hf] at hne ⊢
    exact decide_eq_true (hbelow _ hne)

theorem mem_recordings_parentDir (h : f ∈ recordings t root) : f ∈ recordings t f.parentDir := by
  obtain ⟨data, hmem, hroot, hne, hdb⟩ := mem_recordings.1 h
  refine mem_recordings.2 ⟨data, hmem, List.dropLast_prefix _, ?_, hdb⟩
  exact (dropLast_ne_self hroot hne).symm

/-- The metadata of a directory is no recording. -/
theorem path_ne_metadata (h : f ∈ recordings t root) (d : Path) :
    f.path ≠ d ++ ["metadata.yaml"] := by
  obtain ⟨-, -, -, -, hdb, -⟩ := mem_recordings.1 h
  intro hpath
  unfold FileInfo.filename at hdb
  rw [hpath, List.getLastD_concat, isDbName_metadata] at hdb
  exact Bool.false_ne_true hdb

theorem withoutFile_recordings (written : Written) (hf : f ∈ recordings t root) (d : Path) :
    recordings (withoutFile written f t) d = (recordings t d).filter fun g => g.path ≠ f.path := by
  obtain ⟨data, hmem, -⟩ := mem_recordings.1 hf
  unfold withoutFile
  rw [recordings_removeAll, recordings_modifyYamls]
  refine List.filter_congr fun g hg => ?_
  obtain ⟨data', hmem', -⟩ := mem_recordings.1 hg
  refine decide_eq_decide.2 (not_congr ⟨fun hpath => t.eq_of_prefix_of_file hmem hmem' hpath, ?_⟩)
  intro hpath
  exact hpath ▸ List.prefix_rfl

/-- Taking a recording out of its directory does nothing to another one. -/
theorem withoutFile_of_ne (written : Written) (hf : f ∈ recordings t root) (hbag : BagDirectory t d)
    (hne : f.parentDir ≠ d) :
    metadata (withoutFile written f t) d = metadata t d ∧
      recordings (withoutFile written f t) d = recordings t d := by
  obtain ⟨data, hmem, -⟩ := mem_recordings.1 hf
  have hyaml : metadata (modifyYamls written f t) d = metadata t d := by
    rcases modifyYamls_eq written f t with h | ⟨written, h⟩
    · rw [h]
    · rw [h]
      unfold metadata metadataPath
      rw [file?_write_of_ne]
      intro hpath
      exact hne (List.append_cancel_right hpath).symm
  have hrecordings := recordings_modifyYamls written f t d
  have hflat : Flat (modifyYamls written f t) d := by
    unfold Flat
    rw [hrecordings]
    exact hbag.flat
  have hd : ¬ f.path <+: d := by
    intro habove
    have hd := t.eq_of_prefix_of_file hmem hbag.directory_mem habove
    have hdir := hbag.directory_mem
    rw [hd] at hdir
    exact nomatch t.entry_unique hmem hdir
  rw [← hyaml, ← hrecordings]
  refine removeAll_of_not_mem hflat hd (path_ne_metadata hf d) fun g hg hpath => hne ?_
  rw [hrecordings] at hg
  rw [← hbag.flat g hg]
  exact congrArg List.dropLast hpath

/-- An entry of the list stands for a recording. -/
theorem exists_of_mem_listed (h : (files.map listedName).Perm (recordingNames t d))
    (hfile : file ∈ files) : ∃ g ∈ recordings t d, listedName file = some g.filename := by
  obtain ⟨g, hg, hname⟩ := List.mem_map.1 (h.mem_iff.1 (List.mem_map_of_mem hfile))
  exact ⟨g, hg, hname.symm⟩

/-- The document that was written is there after the removal of the recording. -/
theorem metadata_withoutFile (size : UInt64) (time : Int) (hf : f ∈ recordings t root)
    {new : Yaml} (hconfig : metadata t f.parentDir = some config)
    (hmodified : modifiedConfig f.filename config = .ok (some new)) :
    metadata (withoutFile (.done size time) f t) f.parentDir = some new := by
  have hread : (t.file? (metadataPath f)).bind FileData.document = some config := hconfig
  obtain ⟨data, hdata, -⟩ := Option.bind_eq_some_iff.1 hread
  have hyaml : modifyYamls (.done size time) f t =
      t.write (metadataPath f) ⟨size, time, some new⟩ := by
    unfold modifyYamls
    dsimp only
    rw [hread]
    dsimp only
    rw [hmodified]
  have hbeside : ¬ f.path <+: metadataPath f := by
    intro habove
    refine path_ne_metadata hf f.parentDir (habove.eq_of_length ?_)
    unfold metadataPath
    rw [path_of_mem_recordings hf, List.length_append, List.length_append]
    rfl
  unfold withoutFile
  rw [hyaml]
  show (((t.write (metadataPath f) _).removeAll f.path).file? (metadataPath f)).bind _ = _
  rw [file?_removeAll hbeside, file?_write_self hdata]
  rfl

/-- A recording is taken out of its directory and out of its metadata. -/
theorem withoutFile_inStep (size : UInt64) (time : Int) (hf : f ∈ recordings t root)
    (hbag : BagDirectory t f.parentDir) :
    InStep t (withoutFile (.done size time) f t) f.parentDir := by
  have hmem := mem_recordings_parentDir hf
  have hpath := path_of_mem_recordings hf
  have hrecordings := withoutFile_recordings (.done size time) hf f.parentDir
  have hsub : recordings (withoutFile (.done size time) f t) f.parentDir ⊆
      recordings t f.parentDir := by
    rw [hrecordings]
    exact List.filter_sublist.subset
  obtain ⟨config, hconfig, hlisted⟩ := hbag.listed
  have hname : ∀ file ∈ listedFiles config, ∃ g ∈ recordings t f.parentDir,
      listedName file = some g.filename := fun file hfile => exists_of_mem_listed hlisted hfile
  have hsome : ∀ file ∈ listedFiles config, (listedName file).isSome := by
    intro file hfile
    obtain ⟨g, -, hg⟩ := hname file hfile
    rw [hg]
    rfl
  have hlists : listedFiles config ≠ [] := by
    intro hnil
    rw [hnil] at hlisted
    exact List.ne_nil_of_mem hmem (List.map_eq_nil_iff.1 (List.nil_perm.1 hlisted))
  obtain ⟨new, hmodified, hitems⟩ := modifiedConfig_eq f.filename hlists hsome
  have hmetadata := metadata_withoutFile size time hf hconfig hmodified
  refine InStep.of_filter hbag hsub
    ⟨config, withFiles config new, hconfig, hmetadata, Or.inr ⟨new, rfl⟩, ?_⟩
  rw [listedFiles_withFiles hlists, hitems]
  refine List.filter_congr fun file hfile => ?_
  obtain ⟨g, hg, hgname⟩ := hname file hfile
  refine decide_eq_decide.2 ?_
  rw [hgname]
  unfold recordingNames
  rw [hrecordings, List.mem_map]
  constructor
  · intro hne
    refine ⟨g, List.mem_filter.2 ⟨hg, decide_eq_true fun hgpath => hne ?_⟩, rfl⟩
    exact congrArg (fun path : Path => some (path.getLastD "")) hgpath
  · rintro ⟨g', hg', hgname'⟩ hfname
    obtain ⟨hg', hne⟩ := List.mem_filter.1 hg'
    refine of_decide_eq_true hne ?_
    rw [hbag.flat.path_eq hg', hpath, Option.some.inj (hgname'.trans hfname)]

/-- The tree after the visit of a recording: its directory goes when nothing is left in it. -/
def afterVisit (written : Written) (f : FileInfo) (rest : List FileInfo) (t : Tree) : Tree :=
  if ∃ g ∈ rest, g.parentDir = f.parentDir then withoutFile written f t
  else (withoutFile written f t).removeAll f.parentDir

/-- A visit does nothing to the other directories that it leaves. -/
theorem afterVisit_of_ne {written : Written} (hf : f ∈ recordings t root) (hbag : BagDirectory t d)
    (hne : f.parentDir ≠ d) (hd : (afterVisit written f rest t).has d) :
    metadata (afterVisit written f rest t) d = metadata t d ∧
      recordings (afterVisit written f rest t) d = recordings t d := by
  have hwithout := withoutFile_of_ne written hf hbag hne
  unfold afterVisit at hd ⊢
  split_ifs at hd ⊢ with hleft
  · exact hwithout
  · have hflat : Flat (withoutFile written f t) d := by
      unfold Flat
      rw [hwithout.2]
      exact hbag.flat
    -- the directory that goes is not one of the files of the other
    have hfile : ∀ {q data'}, (q, Entry.file data') ∈ t.entries → f.parentDir ≠ q := by
      rintro q data' hq rfl
      exact nomatch t.entry_unique hq (parentDir_mem hf)
    rw [← hwithout.1, ← hwithout.2]
    obtain ⟨data', hdata'⟩ := hbag.exists_metadata
    refine removeAll_of_not_mem hflat (has_removeAll.1 hd).2 (hfile hdata') fun g hg => ?_
    rw [hwithout.2] at hg
    obtain ⟨data', hg, -⟩ := mem_recordings.1 hg
    exact hfile hg

theorem recordings_afterVisit (written : Written) (hf : f ∈ recordings t root) (d : Path) :
    recordings (afterVisit written f rest t) d ⊆ recordings t d := by
  have hwithout : recordings (withoutFile written f t) d ⊆ recordings t d := by
    rw [withoutFile_recordings written hf d]
    exact List.filter_sublist.subset
  unfold afterVisit
  split_ifs
  · exact hwithout
  · rw [recordings_removeAll]
    exact List.Subset.trans List.filter_sublist.subset hwithout

theorem has_afterVisit {written : Written} (hd : (afterVisit written f rest t).has d) :
    t.has d := by
  have hwithout : (withoutFile written f t).has d := by
    unfold afterVisit at hd
    split_ifs at hd
    · exact hd
    · exact (has_removeAll.1 hd).1
  have hyaml := (has_removeAll.1 hwithout).1
  rcases modifyYamls_eq written f t with h | ⟨data, h⟩
  · rwa [h] at hyaml
  · rw [h] at hyaml
    exact has_write.1 hyaml

/-- A visit takes its file: in a flat directory nothing goes with it. -/
theorem recordings_afterVisit_perm {written : Written} (hf : f ∈ recordings t root)
    (hflat : Flat t f.parentDir)
    (hperm : (recordings (withoutFile written f t) root).Perm rest) :
    (recordings (afterVisit written f rest t) root).Perm rest := by
  unfold afterVisit
  split_ifs with hleft
  · exact hperm
  · rw [recordings_removeAll, List.filter_eq_self.2]
    · exact hperm
    · intro g hg
      refine decide_eq_true fun hbelow => hleft ⟨g, hperm.mem_iff.1 hg, ?_⟩
      rw [withoutFile_recordings written hf root] at hg
      obtain ⟨data, hmem, -, -, hdb⟩ := mem_recordings.1 (List.mem_filter.1 hg).1
      refine hflat g (mem_recordings.2 ⟨data, hmem, hbelow, ?_, hdb⟩)
      intro hpath
      rw [hpath] at hmem
      exact nomatch t.entry_unique hmem (parentDir_mem hf)

/-- **What one visit retains.** -/
theorem retained_afterVisit (size : UInt64) (time : Int) (hf : f ∈ recordings t root)
    (hbag : BagDirectory t f.parentDir)
    (hperm : (recordings (withoutFile (.done size time) f t) root).Perm rest) :
    Retained t (afterVisit (.done size time) f rest t) where
  has_of_has _ hd := has_afterVisit hd
  recordings_subset d := recordings_afterVisit (.done size time) hf d
  inStep d hd hhas := by
    rcases eq_or_ne f.parentDir d with rfl | hne
    · unfold afterVisit at hhas ⊢
      split_ifs at hhas ⊢ with hleft
      · exact withoutFile_inStep size time hf hbag
      · exact absurd List.prefix_rfl (has_removeAll.1 hhas).2
    · obtain ⟨hmetadata, hrecordings⟩ := afterVisit_of_ne hf hd hne hhas
      exact InStep.of_eq hd hmetadata hrecordings
  gone d hd hsome hnone hhas := by
    rcases eq_or_ne f.parentDir d with rfl | hne
    · unfold afterVisit at hnone hhas
      split_ifs at hnone hhas with hleft
      · obtain ⟨g, hg, hparent⟩ := hleft
        have hmem := mem_recordings_parentDir (hperm.mem_iff.2 hg)
        rw [hparent, hnone] at hmem
        exact List.not_mem_nil hmem
      · exact (has_removeAll.1 hhas).2 List.prefix_rfl
    · rw [(afterVisit_of_ne hf hd hne hhas).2] at hnone
      exact hsome hnone

/-! ### The loop -/

/-- What the loop retains of a tree of bag directories. -/
theorem retained_deleteFiles (size : FileInfo → UInt64) (time : FileInfo → Int)
    (maxCapacity : UInt64) {files : List FileInfo} {disk : Disk}
    (h : (recordings disk.tree root).Perm files)
    (hbags : ∀ f ∈ files, BagDirectory disk.tree f.parentDir) :
    ∃ disk', deleteFiles (fun f => .done (size f) (time f)) maxCapacity
        (calculateTotalSize files) files disk = .ok disk' ∧ Retained disk.tree disk'.tree := by
  -- by induction on the files still to be visited: they are the recordings on the disk
  induction files generalizing disk with
  | nil => exact ⟨disk, rfl, Retained.refl disk.tree⟩
  | cons f rest ih =>
    by_cases hfits : calculateTotalSize (f :: rest) ≤ maxCapacity
    · refine ⟨disk, ?_, Retained.refl disk.tree⟩
      unfold deleteFiles
      exact if_pos hfits
    have hf : f ∈ recordings disk.tree root := h.mem_iff.2 List.mem_cons_self
    have hbag := hbags f List.mem_cons_self
    obtain ⟨hperm, -, -, hrun⟩ :=
      deleteFiles_cons (fun f => .done (size f) (time f)) h hfits rfl
    have hvisit := retained_afterVisit (size f) (time f) hf hbag hperm
    obtain ⟨next, hnext⟩ : ∃ next, (if ∃ g ∈ rest, g.parentDir = f.parentDir then
        { disk with tree := withoutFile (.done (size f) (time f)) f disk.tree }
      else { tree := (withoutFile (.done (size f) (time f)) f disk.tree).removeAll f.parentDir,
             removed := disk.removed ++
              [(f.parentDir, withoutFile (.done (size f) (time f)) f disk.tree)] } : Disk) = next :=
      ⟨_, rfl⟩
    have htree : next.tree = afterVisit (.done (size f) (time f)) f rest disk.tree := by
      rw [← hnext]
      unfold afterVisit
      split_ifs
      · rfl
      · rfl
    have hperm' := recordings_afterVisit_perm hf hbag.flat hperm
    rw [← htree] at hvisit hperm'
    -- the directories of the files that are left are bag directories still
    have hbags' : ∀ g ∈ rest, BagDirectory next.tree g.parentDir := by
      intro g hg
      refine hvisit.bagDirectory (hbags g (List.mem_cons_of_mem f hg)) (has_iff.2 ?_)
      exact ⟨_, parentDir_mem (hperm'.mem_iff.2 hg)⟩
    obtain ⟨disk', hrest, hretained⟩ := ih hperm' hbags'
    refine ⟨disk', ?_, hvisit.trans hretained⟩
    rw [hrun, hnext]
    exact hrest

/-- **Recording retention keeps the metadata in step**: in every bag directory that is left the
metadata lists what is left of it, and a directory that nothing is left of is gone. -/
theorem metadata_in_step (std : TimeSort) (size : FileInfo → UInt64) (time : FileInfo → Int)
    {t : Tree} {root : Path} {files : List FileInfo} (hfiles : getDbFiles t root = .ok files)
    (hbags : ∀ f ∈ files, BagDirectory t f.parentDir) (maxCapacity : UInt64) :
    ∃ disk, deleteOldestFiles std (fun f => .done (size f) (time f)) files maxCapacity t =
        .ok disk ∧
      ∀ d, BagDirectory t d → (disk.tree.has d → InStep t disk.tree d) ∧
        (recordings t d ≠ [] → recordings disk.tree d = [] → ¬ disk.tree.has d) := by
  unfold getDbFiles recursiveDirectoryIterator at hfiles
  split_ifs at hfiles
  · obtain rfl : recordings t root = files := Except.ok.inj hfiles
    have hsort := std.perm (recordings t root)
    have hperm : (recordings (Disk.mk t []).tree root).Perm (std.sort (recordings t root)) :=
      hsort.symm
    obtain ⟨disk, hrun, hretained⟩ := retained_deleteFiles size time maxCapacity hperm
      fun f hf => hbags f (hsort.mem_iff.1 hf)
    exact ⟨disk, hrun, fun d hbag => ⟨hretained.inStep d hbag, hretained.gone d hbag⟩⟩
  · exact nomatch hfiles

/-- The metadata of recordings, in sample trees. -/
def sampleMetadata (names : List String) : Entry FileData :=
  .file
    { size := 1
      lastWriteTime := 0
      document := some (.map "" [("version", .scalar "" "1"),
        ("aimrt_bagfile_information", .map "" [("files", .seq "" (names.map fun name =>
          .map "" [("path", .scalar "" name), ("message_count", .scalar "" "7")]))])]) }

/-- Two bag directories of two recordings each, written in turns, with their metadata. -/
def bagTree : Tree := .ofEntries
  [([], .directory), (["x"], .directory), (["x", "0.db3"], sampleFile 1),
    (["x", "1.db3"], sampleFile 3), (["x", "metadata.yaml"], sampleMetadata ["0.db3", "1.db3"]),
    (["y"], .directory), (["y", "0.mcap"], sampleFile 2), (["y", "1.mcap"], sampleFile 4),
    (["y", "metadata.yaml"], sampleMetadata ["1.mcap", "0.mcap"])] (by decide) (by decide)

/-- Three of the four recordings go: the first directory with them, and one entry of the second. -/
theorem metadata_in_step_sample :
    ∃ disk, deleteOldestFiles insertionSort (fun _ => .done 1 0) (recordings bagTree []) 10
        bagTree = .ok disk ∧
      ∀ d, BagDirectory bagTree d → (disk.tree.has d → InStep bagTree disk.tree d) ∧
        (recordings bagTree d ≠ [] → recordings disk.tree d = [] → ¬ disk.tree.has d) := by
  have hfiles : getDbFiles bagTree [] = .ok (recordings bagTree []) := rfl
  refine metadata_in_step insertionSort (fun _ => 1) (fun _ => 0) hfiles ?_ 10
  have hx : BagDirectory bagTree ["x"] :=
    ⟨by unfold Flat; decide +kernel, _, rfl, by decide +kernel⟩
  have hy : BagDirectory bagTree ["y"] :=
    ⟨by unfold Flat; decide +kernel, _, rfl, by decide +kernel⟩
  have hparent : ∀ f ∈ recordings bagTree [], f.parentDir = ["x"] ∨ f.parentDir = ["y"] := by
    decide +kernel
  intro f hf
  rcases hparent f hf with h | h
  · rw [h]
    exact hx
  · rw [h]
    exact hy

end RecordPlayback

end AimrtComm
