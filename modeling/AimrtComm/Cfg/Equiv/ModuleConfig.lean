import AimrtComm.Cfg.Equiv.MergeTree
import AimrtComm.Cfg.ModuleConfig

/-!
## One module, two views of its parameters

A module reads the node of the external file alone, while the file that the framework loads has the
preset parameters with the external ones merged into them.  The two are compared by what a reader
finds at each path (`SameParameters`).  Merging goes down both trees as long as both have maps
(`nodeAt_deepMerge_of_isMap`), so the external node is the merged one exactly when no preset
parameter is left there for lack of an external one (`sameParameters_deepMerge_iff`).
-/

namespace AimrtComm

namespace Yaml

open Cfg

/-! ### Copies -/

@[simp]
theorem isMap_clone (node : Yaml) : (clone node).isMap = node.isMap := by
  cases node <;> rfl

@[simp]
theorem isUndefined_clone (node : Yaml) : IsUndefined (clone node) = IsUndefined node := by
  cases node <;> rfl

mutual

/-- A copy has nothing that a second copy would leave out. -/
theorem clone_clone : ∀ node : Yaml, clone (clone node) = clone node
  | .undefined | .null | .scalar .. => rfl
  | .seq t xs => by rw [clone, clone, cloneItems_cloneItems xs]
  | .map t fs => by rw [clone, clone, cloneFields_cloneFields fs]

theorem cloneItems_cloneItems : ∀ xs : List Yaml, cloneItems (cloneItems xs) = cloneItems xs
  | [] => rfl
  | x :: xs => by rw [cloneItems, cloneItems, clone_clone x, cloneItems_cloneItems xs]

theorem cloneFields_cloneFields : ∀ fs : List (String × Yaml),
    cloneFields (cloneFields fs) = cloneFields fs
  | [] => rfl
  | (k, v) :: fs => by
    rw [cloneFields]
    split_ifs with hdef
    · rw [cloneFields, isDefined_clone, if_pos hdef, clone_clone v, cloneFields_cloneFields fs]
    · exact cloneFields_cloneFields fs

end

theorem keys_cloneFields_sublist (fs : List (String × Yaml)) :
    (Assoc.keys (cloneFields fs)).Sublist (Assoc.keys fs) := by
  induction fs with
  | nil => exact List.Sublist.slnil
  | cons f fs ih =>
    obtain ⟨k, v⟩ := f
    rw [cloneFields]
    split_ifs
    · exact ih.cons_cons k
    · exact ih.cons k

mutual

theorem wellFormed_clone : ∀ {node : Yaml}, node.WellFormed → (clone node).WellFormed
  | .undefined, h | .null, h | .scalar .., h => h
  | .seq _ _, h => wellFormedItems_clone h
  | .map _ fs, h => ⟨h.1.sublist (keys_cloneFields_sublist fs), wellFormedFields_clone h.2⟩

theorem wellFormedItems_clone : ∀ {xs : List Yaml}, WellFormedItems xs →
    WellFormedItems (cloneItems xs)
  | [], h => h
  | _ :: _, h => ⟨wellFormed_clone h.1, wellFormedItems_clone h.2⟩

theorem wellFormedFields_clone : ∀ {fs : List (String × Yaml)}, WellFormedFields fs →
    WellFormedFields (cloneFields fs)
  | [], h => h
  | (_, _) :: _, h => by
    rw [cloneFields]
    split_ifs
    · exact ⟨wellFormed_clone h.1, wellFormedFields_clone h.2⟩
    · exact wellFormedFields_clone h.2

end

/-- The fields of a copy are the copies of the fields. -/
theorem get_cloneFields {fs : List (String × Yaml)} (h : (Assoc.keys fs).Nodup) (k : String) :
    Assoc.get .undefined k (cloneFields fs) = clone (Assoc.get .undefined k fs) := by
  induction fs with
  | nil => rfl
  | cons f fs ih =>
    obtain ⟨l, v⟩ := f
    rw [Assoc.keys, List.map_cons, List.nodup_cons] at h
    rw [cloneFields]
    by_cases hkl : l = k
    · -- the other fields have other keys
      subst hkl
      have hrest : Assoc.get .undefined l fs = Yaml.undefined := Assoc.get_of_not_mem h.1
      split_ifs with hdef
      · rw [Assoc.get, Assoc.get, if_pos rfl, if_pos rfl]
      · rw [ih h.2, hrest, Assoc.get, if_pos rfl]
        cases v <;> simp_all [isDefined, clone]
    · split_ifs
      · rw [Assoc.get, Assoc.get, if_neg hkl, if_neg hkl, ih h.2]
      · rw [ih h.2, Assoc.get, if_neg hkl]

theorem WellFormed.nodeAt_clone {p : List String} {node : Yaml} (h : node.WellFormed) :
    (clone node).nodeAt p = clone (node.nodeAt p) := by
  induction p generalizing node with
  | nil => rfl
  | cons k p ih =>
    have hchild : (clone node).child k = clone (node.child k) := by
      cases node with
      | map t fs => exact get_cloneFields h.1 k
      | _ => rfl
    rw [nodeAt, nodeAt, hchild]
    exact ih (h.child k)

theorem WellFormed.nodeAt {node : Yaml} (h : node.WellFormed) (p : List String) :
    (node.nodeAt p).WellFormed := by
  induction p generalizing node with
  | nil => exact h
  | cons k p ih => exact ih (h.child k)

/-! ### What is found at a path -/

/-- A node as it is written out, without what is inside if it is a map. -/
def outline : Yaml → Yaml
  | map .. => map "" []
  | node => clone node

/-- The same is found at every path: the same value, or a map. -/
def SameParameters (a b : Yaml) : Prop :=
  ∀ p : List String, (a.nodeAt p).outline = (b.nodeAt p).outline

theorem outline_of_isMap {node : Yaml} (h : node.isMap = true) : node.outline = map "" [] := by
  cases node with
  | map => rfl
  | _ => cases h

/-- A node without a value is known by its outline. -/
theorem eq_of_outline_eq {a b : Yaml} (hb : IsUndefined b = true) (h : a.outline = b.outline) :
    a = b := by
  cases b with
  | undefined | null => cases a <;> simp_all [outline, clone]
  | _ => cases hb

@[simp]
theorem outline_clone (node : Yaml) : (clone node).outline = node.outline := by
  cases node with
  | seq t xs => exact clone_clone (seq t xs)
  | _ => rfl

/-- A copy has the same parameters. -/
theorem WellFormed.sameParameters_clone {node : Yaml} (h : node.WellFormed) :
    SameParameters (clone node) node := by
  intro p
  rw [h.nodeAt_clone, outline_clone]

theorem nodeAt_concat (node : Yaml) (p : List String) (k : String) :
    node.nodeAt (p ++ [k]) = (node.nodeAt p).child k := by
  induction p generalizing node with
  | nil => rfl
  | cons l p ih => exact ih (node.child l)

end Yaml

namespace Cfg

open Yaml

/-! ### Merging loses nothing -/

/-- Wherever both trees have a map, a key without a value in `ext` is the same in `res`: missing, or
null. -/
def NothingLost (res ext : Yaml) : Prop :=
  ∀ p k, (res.nodeAt p).isMap = true → (ext.nodeAt p).isMap = true →
    IsUndefined ((ext.nodeAt p).child k) = true →
      (res.nodeAt p).child k = (ext.nodeAt p).child k

theorem NothingLost.child {res ext : Yaml} (h : NothingLost res ext) (k : String) :
    NothingLost (res.child k) (ext.child k) :=
  fun p => h (k :: p)

/-- A path that leads to a map leads through maps. -/
theorem isMap_of_nodeAt_cons {node : Yaml} {k : String} {p : List String}
    (h : (node.nodeAt (k :: p)).isMap = true) : node.isMap = true := by
  by_contra hmap
  rw [nodeAt_cons_of_not_isMap (Bool.eq_false_iff.mpr hmap)] at h
  cases h

/-- Merging goes down both trees as long as both have maps. -/
theorem nodeAt_deepMerge_of_isMap {p : List String} {res ext : Yaml} (he : ext.WellFormed)
    (hres : (res.nodeAt p).isMap = true) (hext : (ext.nodeAt p).isMap = true) :
    (deepMerge res ext).nodeAt p = deepMerge (res.nodeAt p) (ext.nodeAt p) := by
  induction p generalizing res ext with
  | nil => rfl
  | cons k p ih =>
    rw [nodeAt, child_deepMerge (isMap_of_nodeAt_cons hres) (isMap_of_nodeAt_cons hext) he]
    exact ih (he.child k) hres hext

/-- If nothing is lost, the merged tree has the parameters of the external one. -/
theorem outline_nodeAt_deepMerge {p : List String} {res ext : Yaml} (he : ext.WellFormed)
    (hroot : IsUndefined ext = true → res = ext) (h : NothingLost res ext) :
    ((deepMerge res ext).nodeAt p).outline = (ext.nodeAt p).outline := by
  induction p generalizing res ext with
  | nil =>
    by_cases hu : IsUndefined ext = true
    · rw [deepMerge_of_isUndefined hu, hroot hu]
    by_cases hmaps : (!res.isMap || !ext.isMap) = true
    · rw [deepMerge_of_not_isMap (Bool.eq_false_iff.mpr hu) hmaps]
    -- two maps make a map
    obtain ⟨hres, hext⟩ : res.isMap = true ∧ ext.isMap = true := by simpa using hmaps
    rw [nodeAt, nodeAt, outline_of_isMap hext]
    cases res with
    | map tr rs =>
      cases ext with
      | map t fs => rfl
      | _ => cases hext
    | _ => cases hres
  | cons k p ih =>
    by_cases hu : IsUndefined ext = true
    · rw [deepMerge_of_isUndefined hu, hroot hu]
    by_cases hmaps : (!res.isMap || !ext.isMap) = true
    · rw [deepMerge_of_not_isMap (Bool.eq_false_iff.mpr hu) hmaps]
    obtain ⟨hres, hext⟩ : res.isMap = true ∧ ext.isMap = true := by simpa using hmaps
    rw [nodeAt, child_deepMerge hres hext he, nodeAt]
    exact ih (he.child k) (h [] k hres hext) (h.child k)

/-- **The merged tree has the parameters of the external tree exactly when nothing is lost.** -/
theorem sameParameters_deepMerge_iff {res ext : Yaml} (he : ext.WellFormed)
    (hext : ext.isMap = true) :
    SameParameters ext (deepMerge res ext) ↔ NothingLost res ext := by
  constructor
  · intro hsame p k hres hmap hu
    have hnode : (deepMerge res ext).nodeAt (p ++ [k]) = (res.nodeAt p).child k := by
      rw [nodeAt_concat, nodeAt_deepMerge_of_isMap he hres hmap,
        child_deepMerge hres hmap (he.nodeAt p), deepMerge_of_isUndefined hu]
    have hp := hsame (p ++ [k])
    rw [hnode, nodeAt_concat] at hp
    exact eq_of_outline_eq hu hp.symm
  · intro h p
    refine (outline_nodeAt_deepMerge he (fun hu => ?_) h).symm
    cases ext with
    | map => cases hu
    | _ => cases hext

/-- A copy of the external tree loses the same. -/
theorem nothingLost_clone_iff {res ext : Yaml} (he : ext.WellFormed) :
    NothingLost res (clone ext) ↔ NothingLost res ext := by
  unfold NothingLost
  refine forall_congr' fun p => forall_congr' fun k => ?_
  have hchild : ((clone ext).nodeAt p).child k = clone ((ext.nodeAt p).child k) := by
    rw [← nodeAt_concat, he.nodeAt_clone, nodeAt_concat]
  rw [hchild, he.nodeAt_clone, isMap_clone, isUndefined_clone]
  refine imp_congr_right fun _ => imp_congr_right fun _ => forall_congr' fun hu => ?_
  cases hnode : (ext.nodeAt p).child k with
  | undefined | null => rfl
  | _ =>
    rw [hnode] at hu
    cases hu

/-! ### The generated file -/

/-- The entries of the external file that `MergeCustomNodes` merges, each with what it does. -/
def customEntries (extYaml : Yaml) : List (String × (Yaml → Yaml)) :=
  (extYaml.fields.filter fun it => it.1 ≠ "aimrt").map fun it =>
    (it.1, fun res => mergeMapNode res (if it.1 = "aimrte" then clone it.2 else it.2))

theorem mergeCustomNodes_eq (yaml : List (String × Yaml)) (extYaml : Yaml) :
    mergeCustomNodes yaml extYaml =
      Assoc.upsertAll .undefined (fun f res => f res) yaml (customEntries extYaml) := by
  unfold mergeCustomNodes Assoc.upsertAll customEntries
  rw [List.foldl_map, List.foldl_filter]
  congr 1
  funext yaml it
  by_cases h : it.1 = "aimrt"
  · simp [h]
  · simp [h]

/-- The preset parameters are in the new file, also in the place of the node `aimrt`. -/
theorem get_makeYamlFromCfg (aimrt : Yaml) {cfg : ModuleSources} {name : String}
    (hcfg : cfg.modulesConfig.WellFormed) (h : (cfg.modulesConfig.child name).isDefined = true) :
    Assoc.get .undefined name (makeYamlFromCfg aimrt cfg) = cfg.modulesConfig.child name := by
  cases hnode : cfg.modulesConfig with
  | map t fs =>
    rw [hnode] at h hcfg
    have hmem : (name, (map t fs).child name) ∈ (map t fs).fields := mem_fields_of_isDefined h
    have hget := Assoc.get_upsertAll_of_mem (d := undefined) (g := fun (v : Yaml) (_ : Yaml) => v)
      hcfg.fields_nodup hmem [("aimrt", aimrt)]
    unfold makeYamlFromCfg
    rw [hnode]
    exact hget
  | _ =>
    rw [hnode] at h
    cases h

variable {aimrt extYaml preset ext : Yaml} {cfg : ModuleSources} {name : String}

/-- The node of a module in the generated file is the preset one with the external one merged into
it. -/
theorem generatedModuleYaml_eq (hcfg : cfg.modulesConfig.WellFormed) (hext : extYaml.WellFormed)
    (hpreset : (cfg.modulesConfig.child name).isDefined = true)
    (hdef : (extYaml.child name).isDefined = true) (hname : name ≠ "aimrt") :
    generatedModuleYaml aimrt extYaml cfg name =
      deepMerge (cfg.modulesConfig.child name)
        (if name = "aimrte" then clone (extYaml.child name) else extYaml.child name) := by
  have hmem : (name, extYaml.child name) ∈ extYaml.fields := by
    cases extYaml with
    | map t fs => exact mem_fields_of_isDefined hdef
    | _ => cases hdef
  have hentry : (name, fun res => mergeMapNode res
      (if name = "aimrte" then clone (extYaml.child name) else extYaml.child name)) ∈
        customEntries extYaml :=
    List.mem_map.mpr ⟨_, List.mem_filter.mpr ⟨hmem, decide_eq_true hname⟩, rfl⟩
  have hkeys : (Assoc.keys (customEntries extYaml)).Nodup := by
    have hsub : (Assoc.keys (customEntries extYaml)).Sublist (Assoc.keys extYaml.fields) := by
      unfold customEntries
      rw [Assoc.keys, List.map_map]
      exact List.Sublist.map Prod.fst List.filter_sublist
    exact hext.fields_nodup.sublist hsub
  have hwf : (if name = "aimrte" then clone (extYaml.child name)
      else extYaml.child name).WellFormed := by
    split_ifs
    · exact wellFormed_clone (hext.child name)
    · exact hext.child name
  unfold generatedModuleYaml
  rw [mergeCustomNodes_eq, Assoc.get_upsertAll_of_mem hkeys hentry,
    get_makeYamlFromCfg aimrt hcfg hpreset]
  exact mergeMapNode_eq_deepMerge _ hwf

/-- The external node `aimrt` is not merged into a module of this name. -/
theorem generatedModuleYaml_aimrt (hcfg : cfg.modulesConfig.WellFormed)
    (hpreset : (cfg.modulesConfig.child "aimrt").isDefined = true) :
    generatedModuleYaml aimrt extYaml cfg "aimrt" = cfg.modulesConfig.child "aimrt" := by
  have hkey : "aimrt" ∉ Assoc.keys (customEntries extYaml) := by
    intro hmem
    obtain ⟨entry, hentry, hname⟩ := List.mem_map.mp hmem
    obtain ⟨it, hit, rfl⟩ := List.mem_map.mp hentry
    exact of_decide_eq_true (List.mem_filter.mp hit).2 hname
  unfold generatedModuleYaml
  rw [mergeCustomNodes_eq, Assoc.get_upsertAll_of_not_mem hkey]
  exact get_makeYamlFromCfg aimrt hcfg hpreset

/-! ### What the module reads -/

/-- The modules of the root file can be listed, and each has a name. -/
def NamesReadable (cfgFile : Yaml) : Prop :=
  ∃ modules, moduleList cfgFile = .ok modules ∧ ∀ i ∈ modules.items, ∃ text, moduleName i = .ok text

/-- The root file has no file of its own for the module. -/
def NoCfgFilePath (cfgFile : Yaml) (name : String) : Prop :=
  ∀ modules, moduleList cfgFile = .ok modules → ∀ i ∈ modules.items,
    moduleName i = .ok name → i.get "cfg_file_path" = .ok .undefined

section

variable {loadFile : String → Except Error Yaml} {reload : Yaml → Except Error Yaml}

/-- Without a file of its own for the module, the loop reads all names. -/
theorem findModule_eq {name : String} {items : List Yaml} (h : ∀ i ∈ items,
    moduleName i = .ok name → i.get "cfg_file_path" = .ok .undefined) :
    (∃ e, findModule loadFile name items = .error e) ∧ ¬ (∀ i ∈ items, ∃ t, moduleName i = .ok t) ∨
      findModule loadFile name items = .ok none ∧ ∀ i ∈ items, ∃ t, moduleName i = .ok t := by
  induction items with
  | nil => exact Or.inr ⟨rfl, by simp⟩
  | cons i rest ih =>
    have ih := ih fun j hj => h j (List.mem_cons_of_mem i hj)
    rw [List.forall_mem_cons, findModule]
    cases hname : moduleName i with
    | error e => exact Or.inl ⟨⟨e, rfl⟩, by simp⟩
    | ok text =>
      have hstep : (do
          if (← Except.ok text) ≠ name then findModule loadFile name rest
          else
            let path ← i.get "cfg_file_path"
            if path.isDefined then return some (← loadFile (← path.asString))
            else findModule loadFile name rest : Except Error (Option Yaml)) =
            findModule loadFile name rest := by
        by_cases htext : text = name
        · subst htext
          rw [h i List.mem_cons_self hname]
          simp [bind, Except.bind, isDefined]
        · simp [bind, Except.bind, htext]
      rw [hstep]
      simpa using ih

/-- The module reads the external node alone, as long as the modules of the root file can be
listed. -/
theorem getModuleConfigYaml_eq_ok_iff (hpath : cfg.cfgFilePath ≠ "")
    (hload : loadFile cfg.cfgFilePath = .ok extYaml) (hmap : (extYaml.child name).isMap = true)
    (hreload : reload (extYaml.child name) = .ok (extYaml.child name))
    (hown : NoCfgFilePath extYaml name) (node : Yaml) :
    getModuleConfigYaml loadFile reload cfg name = .ok node ↔
      NamesReadable extYaml ∧ node = extYaml.child name := by
  have hget : extYaml.get name = .ok (extYaml.child name) := by
    cases extYaml with
    | map => rfl
    | _ => cases hmap
  have hdef : (extYaml.child name).isDefined = true ∧
      IsUndefined (extYaml.child name) = false := by
    cases hnode : extYaml.child name with
    | map => exact ⟨rfl, rfl⟩
    | _ =>
      rw [hnode] at hmap
      cases hmap
  have hempty : cfg.cfgFilePath.isEmpty = false := by simpa using hpath
  unfold getModuleConfigYaml getModuleConfigYamlFromRootFile NamesReadable
  rw [hempty, hload]
  cases hmodules : moduleList extYaml with
  | error e => simp [bind, Except.bind, hmodules]
  | ok modules =>
    have hfound := @findModule_eq loadFile _ _ (hown modules hmodules)
    rcases hfound with ⟨⟨e, he⟩, hnames⟩ | ⟨hfind, hnames⟩
    · simp only [bind, Except.bind, hmodules, he]
      simpa using fun h => absurd h hnames
    · simp only [bind, Except.bind, hmodules, hfind, hget, hdef, pure, Except.pure]
      simpa [hreload, hdef.2, eq_comm] using fun _ => hnames

/-- **The module sees the parameters of the generated file exactly when no preset parameter is
missing in the external file** (and the modules of that file can be listed).  A module with the name
`aimrt` sees them when the two sources are the same. -/
theorem sameParameters_iff (aimrt : Yaml) (hpath : cfg.cfgFilePath ≠ "")
    (hload : loadFile cfg.cfgFilePath = .ok extYaml)
    (hcfg : cfg.modulesConfig.WellFormed) (hext : extYaml.WellFormed)
    (hpreset : cfg.modulesConfig.child name = preset) (hpresetMap : preset.isMap = true)
    (hnode : extYaml.child name = ext) (hextMap : ext.isMap = true)
    (hreload : reload ext = .ok ext) (hown : NoCfgFilePath extYaml name) :
    (∃ node, getModuleConfigYaml loadFile reload cfg name = .ok node ∧
        SameParameters node (generatedModuleYaml aimrt extYaml cfg name)) ↔
      NamesReadable extYaml ∧
        if name = "aimrt" then SameParameters ext preset else NothingLost preset ext := by
  subst hpreset hnode
  have hdefined : ∀ {node : Yaml}, node.isMap = true → node.isDefined = true := by
    intro node hmap
    cases node with
    | undefined => cases hmap
    | _ => rfl
  have hsame : SameParameters (extYaml.child name) (generatedModuleYaml aimrt extYaml cfg name) ↔
      if name = "aimrt" then SameParameters (extYaml.child name) (cfg.modulesConfig.child name)
      else NothingLost (cfg.modulesConfig.child name) (extYaml.child name) := by
    split_ifs with hname
    · subst hname
      rw [generatedModuleYaml_aimrt hcfg (hdefined hpresetMap)]
    · rw [generatedModuleYaml_eq hcfg hext (hdefined hpresetMap) (hdefined hextMap) hname]
      have hchild := hext.child name
      split_ifs
      · -- the copy of the external node has its parameters
        have hcopy : (clone (extYaml.child name)).isMap = true := by rw [isMap_clone, hextMap]
        rw [← nothingLost_clone_iff hchild,
          ← sameParameters_deepMerge_iff (wellFormed_clone hchild) hcopy]
        exact forall_congr' fun p => by rw [hchild.sameParameters_clone p]
      · exact sameParameters_deepMerge_iff hchild hextMap
  rw [← hsame]
  constructor
  · rintro ⟨node, hget, hparams⟩
    rw [getModuleConfigYaml_eq_ok_iff hpath hload hextMap hreload hown] at hget
    obtain ⟨hnames, rfl⟩ := hget
    exact ⟨hnames, hparams⟩
  · rintro ⟨hnames, hparams⟩
    exact ⟨extYaml.child name, (getModuleConfigYaml_eq_ok_iff hpath hload hextMap hreload hown
      (extYaml.child name)).mpr ⟨hnames, rfl⟩, hparams⟩

end

/-! ### Two parameters, one of them in the external file -/

/-- The parameters of a module `m`. -/
def parametersSample : Yaml := .map "" [("a", .scalar "" "1"), ("b", .scalar "" "2")]

/-- They are preset, and there is an external file. -/
def sourcesSample : ModuleSources where
  cfgFilePath := "cfg.yaml"
  modulesConfig := .map "" [("m", parametersSample)]

/-- The external file sets `b` only, so the module does not see `a`, which the generated file
has. -/
theorem module_loses_preset :
    let root : Yaml := .map "" [("m", .map "" [("b", .scalar "" "3")])]
    getModuleConfigYaml (fun _ => .ok root) .ok sourcesSample "m" =
        .ok (.map "" [("b", .scalar "" "3")]) ∧
      generatedModuleYaml .null root sourcesSample "m" =
        .map "" [("a", .scalar "" "1"), ("b", .scalar "" "3")] ∧
      ¬ SameParameters (.map "" [("b", .scalar "" "3")])
        (generatedModuleYaml .null root sourcesSample "m") := by
  intro root
  have hgenerated : generatedModuleYaml .null root sourcesSample "m" =
      .map "" [("a", .scalar "" "1"), ("b", .scalar "" "3")] := by
    rw [generatedModuleYaml_eq
      (by simp [sourcesSample, parametersSample, WellFormed, WellFormedFields])
      (by simp [root, WellFormed, WellFormedFields]) rfl rfl (by decide)]
    decide
  refine ⟨by decide, hgenerated, fun hsame => ?_⟩
  have ha := hsame ["a"]
  rw [hgenerated] at ha
  revert ha
  decide

/-- The external file sets both parameters. -/
theorem sameParameters_iff_sample :
    let root : Yaml := .map "" [("m", parametersSample)]
    ∃ node, getModuleConfigYaml (fun _ => .ok root) .ok sourcesSample "m" = .ok node ∧
      SameParameters node (generatedModuleYaml .null root sourcesSample "m") := by
  intro root
  have hmodules : moduleList root = .ok .undefined := rfl
  refine (sameParameters_iff .null (by decide) rfl
    (by simp [sourcesSample, parametersSample, WellFormed, WellFormedFields])
    (by simp [root, parametersSample, WellFormed, WellFormedFields]) rfl rfl rfl rfl rfl
    (fun modules h i hi => ?_)).mpr ⟨⟨_, hmodules, by simp [items]⟩, ?_⟩
  · -- there is no list of modules
    obtain rfl : Yaml.undefined = modules := Except.ok.inj (hmodules.symm.trans h)
    cases hi
  · rw [if_neg (by decide)]
    exact fun p k _ _ _ => rfl

end Cfg

end AimrtComm
