import AimrtComm.Cfg.DumpFile
import AimrtComm.Cfg.Equiv.ModuleConfig
import AimrtComm.Cfg.Equiv.ModuleResources
import AimrtComm.Lib.FoldExcept

/-!
# `DumpFile` is two pipelines

`frameworkNode` says what becomes of the node `aimrt`: it is merged, injected and patched, with the
patches in one list, each with the file it is in.  It knows nothing of the modules' parameters and
has no variable that is changed.  `dumpFile_splits` says that `DumpFile` computes it, from the
configuration object to the directory of the file (`frameworkPipeline`), that the nodes of the
modules are what they would be without it, and that the file that a message names is the one whose
patch was being applied.  The first step fails for one reason only (`makeYaml_ok_iff`).
-/

namespace AimrtComm.Cfg

open Yaml

variable {readFile : String → Option (Except Error Yaml)}
  {write : AimRTConfig → Yaml} {inject : Yaml → Except Error (Yaml × String)}
  {makeDirectory : String → Bool}

/-! ### The node of the framework -/

/-- Work on behalf of a file. -/
def inFile {α : Type} (path : String) (x : Except Error α) : Except DumpError α :=
  x.mapError fun error => .stopped error path

/-- The content of a file. -/
def fileContent (readFile : String → Option (Except Error Yaml)) (path : String) :
    Except DumpError Yaml :=
  match readFile path with
  | none => .error (.notOpened path)
  | some node => inFile path node

/-- A patch: the file that it is in, and what reading that file gives. -/
abbrev Patch := String × Except DumpError Yaml

/-- Apply a patch to the node of the framework. -/
def applyPatch (aimrt : Yaml) (patch : Patch) : Except DumpError Yaml := do
  let node ← patch.2
  inFile patch.1 do patchAimRTNode aimrt (← node.get "aimrte")

/-- The patches of a list of files. -/
def patchesOf (readFile : String → Option (Except Error Yaml)) (paths : List String) :
    List Patch :=
  paths.map fun path => (path, fileContent readFile path)

/-- All patches, in the order in which they are applied. -/
def allPatches (readFile : String → Option (Except Error Yaml)) (p : DumpInput) (extYaml : Yaml) :
    List Patch :=
  patchesOf readFile p.patchBeforeConfigFiles ++ [(p.cfg.cfgFilePath, .ok extYaml)]
    ++ patchesOf readFile p.userPatchConfigFilePaths
    ++ patchesOf readFile p.patchAfterConfigFiles

/-- The user's file, an empty map if there is none. -/
def externalYaml (readFile : String → Option (Except Error Yaml)) (path : String) :
    Except DumpError Yaml := do
  let node ← if path.isEmpty then .ok .null else fileContent readFile path
  inFile path (toMap node)

/-- What becomes of the node of the framework, which starts as `aimrt`, if there is a directory for
the file. -/
def frameworkNode (readFile : String → Option (Except Error Yaml))
    (inject : Yaml → Except Error (Yaml × String)) (makeDirectory : String → Bool) (p : DumpInput)
    (aimrt extYaml : Yaml) : Except DumpError Yaml := do
  let aimrt ← inFile p.cfg.cfgFilePath (mergeAimRTNode aimrt (extYaml.child "aimrt"))
  let (aimrt, fileRoot) ← inFile p.cfg.cfgFilePath (inject aimrt)
  let aimrt ← (allPatches readFile p extYaml).foldlM applyPatch aimrt
  writeFile makeDirectory fileRoot aimrt

/-- The pipeline of the framework, from the configuration object on. -/
def frameworkPipeline (readFile : String → Option (Except Error Yaml)) (write : AimRTConfig → Yaml)
    (inject : Yaml → Except Error (Yaml × String)) (makeDirectory : String → Bool)
    (p : DumpInput) : Except DumpError Yaml := do
  let yaml ← makeYaml write p
  let extYaml ← externalYaml readFile p.cfg.cfgFilePath
  frameworkNode readFile inject makeDirectory p (Assoc.get .undefined "aimrt" yaml) extYaml

/-! ### The state of `DumpFile` -/

/-- The map `ys` with another node for the framework. -/
def setAimrt (ys : List (String × Yaml)) (aimrt : Yaml) : List (String × Yaml) :=
  Assoc.upsert .undefined "aimrt" (fun _ => aimrt) ys

variable {ys : List (String × Yaml)} {s : Dump} {aimrt extYaml : Yaml} {p : DumpInput}

/-- Work on the node of the framework. -/
theorem onAimrt_eq (hs : s.yaml = setAimrt ys aimrt) (f : Yaml → Except Error Yaml) :
    s.onAimrt f = (inFile s.currentProcessingYamlFilePath (f aimrt)).map fun aimrt' =>
      { s with yaml := setAimrt ys aimrt' } := by
  unfold Dump.onAimrt
  rw [hs, setAimrt, Assoc.get_upsert_self]
  cases f aimrt with
  | error e => rfl
  | ok aimrt' =>
    show Except.ok _ = Except.ok _
    rw [Assoc.upsert_upsert]
    rfl

/-- The defaults are injected into the node of the framework. -/
theorem injectDefaultCfg_eq (hs : s.yaml = setAimrt ys aimrt) :
    injectDefaultCfg inject s =
      (inFile s.currentProcessingYamlFilePath (inject aimrt)).map fun injected =>
        ({ s with yaml := setAimrt ys injected.1 }, injected.2) := by
  unfold injectDefaultCfg
  rw [hs, setAimrt, Assoc.get_upsert_self]
  cases inject aimrt with
  | error e => rfl
  | ok injected =>
    show Except.ok _ = Except.ok _
    rw [Assoc.upsert_upsert]
    rfl

theorem patch_eq (hs : s.yaml = setAimrt ys aimrt) (patch : Yaml) :
    (s.patch patch).map Dump.yaml =
      (applyPatch aimrt (s.currentProcessingYamlFilePath, .ok patch)).map (setAimrt ys) := by
  unfold Dump.patch
  rw [onAimrt_eq hs]
  show _ = (inFile s.currentProcessingYamlFilePath _).map _
  cases inFile s.currentProcessingYamlFilePath (do patchAimRTNode aimrt (← patch.get "aimrte")) <;>
    rfl

theorem patchFile_eq (hs : s.yaml = setAimrt ys aimrt) (i : String) :
    (patchFile readFile s i).map Dump.yaml =
      (applyPatch aimrt (i, fileContent readFile i)).map (setAimrt ys) := by
  unfold patchFile readYaml fileContent
  cases readFile i with
  | none => rfl
  | some node =>
    cases node with
    | error e => rfl
    | ok patch => exact patch_eq (s := { s with currentProcessingYamlFilePath := i }) hs patch

/-- The loops over patch files. -/
theorem foldlM_patchFile_eq (hs : s.yaml = setAimrt ys aimrt) (paths : List String) :
    (paths.foldlM (patchFile readFile) s).map Dump.yaml =
      ((patchesOf readFile paths).foldlM applyPatch aimrt).map (setAimrt ys) :=
  foldlM_map_congr (fun i _ _ _ hs => patchFile_eq hs i) hs

/-- The user's file, and what reading it leaves in the state. -/
theorem bind_readExtYaml {α : Type} (path : String) (ys : List (String × Yaml))
    (k : Yaml → Dump → Except DumpError α) :
    (do
      let (extYaml, s) ← readExtYaml readFile { yaml := ys } path
      k (← s.run (toMap extYaml)) s) =
      externalYaml readFile path >>= fun extYaml =>
        k extYaml { yaml := ys, currentProcessingYamlFilePath := path } := by
  unfold readExtYaml externalYaml
  split_ifs with hempty
  · rw [String.isEmpty_iff.mp hempty]
    rfl
  · unfold readYaml fileContent
    cases readFile path with
    | none => rfl
    | some node => cases node <;> rfl

/-- The phases change the node of the framework, and at the end the nodes of the modules. -/
theorem applyPhases_eq (p : DumpInput) (extYaml : Yaml) (hs : s.yaml = setAimrt ys aimrt)
    (hpath : s.currentProcessingYamlFilePath = p.cfg.cfgFilePath) :
    applyPhases readFile inject makeDirectory p extYaml s = do
      let aimrt' ← frameworkNode readFile inject makeDirectory p aimrt extYaml
      return mergeCustomNodes (setAimrt ys aimrt') extYaml := by
  unfold applyPhases frameworkNode allPatches
  simp only [List.foldlM_append, List.foldlM_cons, List.foldlM_nil, bind_assoc, pure_bind]
  rw [onAimrt_eq hs, except_map_bind, hpath]
  congr 1
  funext merged
  rw [injectDefaultCfg_eq rfl, except_map_bind]
  congr 1
  funext injected
  apply except_bind_congr (foldlM_patchFile_eq rfl p.patchBeforeConfigFiles)
  intro s₁ patched₁ hs₁
  apply except_bind_congr (patch_eq (s := { s₁ with
    currentProcessingYamlFilePath := p.cfg.cfgFilePath }) hs₁ extYaml)
  intro s₂ patched₂ hs₂
  apply except_bind_congr (foldlM_patchFile_eq hs₂ p.userPatchConfigFilePaths)
  intro s₃ patched₃ hs₃
  apply except_bind_congr (foldlM_patchFile_eq hs₃ p.patchAfterConfigFiles)
  intro s₄ patched₄ hs₄
  rw [hs₄]
  unfold writeFile
  split_ifs <;> rfl

theorem mem_keys_makeYamlFromCfg (aimrt : Yaml) (cfg : ModuleSources) :
    "aimrt" ∈ Assoc.keys (makeYamlFromCfg aimrt cfg) :=
  Assoc.mem_keys_upsertAll (d := .undefined) (g := fun (v : Yaml) (_ : Yaml) => v)
    [("aimrt", aimrt)] (.inl (by simp))

/-- The configuration object is written exactly when no executor is defined or the default type is
the one that there is. -/
theorem makeYaml_ok_iff (p : DumpInput) :
    (∃ yaml, makeYaml write p = .ok yaml) ↔
      p.defaultExecutorType = "asio_thread" ∨ p.processor.exes = ∅ := by
  rw [← makeYamlFromCfg_ok_iff]
  unfold makeYaml
  cases p.processor.makeYamlFromCfg p.defaultExecutorType <;> simp

/-- What is written has a node for the framework. -/
theorem makeYaml_eq_ok {p : DumpInput} {yaml : List (String × Yaml)}
    (h : makeYaml write p = .ok yaml) :
    ∃ aimrt, yaml = makeYamlFromCfg aimrt p.cfg := by
  unfold makeYaml at h
  cases hmade : p.processor.makeYamlFromCfg p.defaultExecutorType with
  | error e =>
    rw [hmade] at h
    cases h
  | ok aimrtConfig =>
    rw [hmade] at h
    exact ⟨_, (Except.ok.inj h).symm⟩

/-- **`DumpFile` without its variables.** -/
theorem dumpFile_eq (p : DumpInput) :
    dumpFile readFile write inject makeDirectory p = do
      let yaml ← makeYaml write p
      let extYaml ← externalYaml readFile p.cfg.cfgFilePath
      let aimrt ← frameworkNode readFile inject makeDirectory p
        (Assoc.get .undefined "aimrt" yaml) extYaml
      return mergeCustomNodes (setAimrt yaml aimrt) extYaml := by
  unfold dumpFile
  cases hmade : makeYaml write p with
  | error e => rfl
  | ok yaml =>
    obtain ⟨aimrt, rfl⟩ := makeYaml_eq_ok hmade
    refine (bind_readExtYaml p.cfg.cfgFilePath _
      (applyPhases readFile inject makeDirectory p)).trans ?_
    show _ = externalYaml readFile p.cfg.cfgFilePath >>= _
    congr 1
    funext extYaml
    refine applyPhases_eq p extYaml ?_ rfl
    exact (Assoc.upsert_eq_self (mem_keys_makeYamlFromCfg aimrt p.cfg) rfl).symm

/-! ### The nodes of the file -/

/-- The merged nodes of the modules do not touch the node of the framework. -/
theorem get_aimrt_mergeCustomNodes (yaml : List (String × Yaml)) (extYaml : Yaml) :
    Assoc.get .undefined "aimrt" (mergeCustomNodes yaml extYaml) =
      Assoc.get .undefined "aimrt" yaml := by
  rw [mergeCustomNodes_eq]
  apply Assoc.get_upsertAll_of_not_mem
  intro hmem
  obtain ⟨entry, hentry, hname⟩ := List.mem_map.mp hmem
  obtain ⟨it, hit, rfl⟩ := List.mem_map.mp hentry
  exact of_decide_eq_true (List.mem_filter.mp hit).2 hname

/-- The node of a module is made from that node alone. -/
theorem get_mergeCustomNodes_congr {yaml yaml' : List (String × Yaml)} (extYaml : Yaml)
    {name : String} (h : Assoc.get .undefined name yaml = Assoc.get .undefined name yaml') :
    Assoc.get .undefined name (mergeCustomNodes yaml extYaml) =
      Assoc.get .undefined name (mergeCustomNodes yaml' extYaml) := by
  rw [mergeCustomNodes_eq, mergeCustomNodes_eq]
  exact Assoc.get_upsertAll_congr h

/-- The preset parameters of a module are written whatever the node of the framework is. -/
theorem get_makeYamlFromCfg_congr (aimrt aimrt' : Yaml) (cfg : ModuleSources) {name : String}
    (hname : name ≠ "aimrt") :
    Assoc.get .undefined name (makeYamlFromCfg aimrt cfg) =
      Assoc.get .undefined name (makeYamlFromCfg aimrt' cfg) := by
  unfold makeYamlFromCfg
  apply Assoc.get_upsertAll_congr (g := fun (v : Yaml) (_ : Yaml) => v)
  simp [Assoc.get, Ne.symm hname]

/-- The node of a module does not depend on that of the framework. -/
theorem generatedModuleYaml_congr (aimrt aimrt' extYaml : Yaml) (cfg : ModuleSources)
    {name : String} (hname : name ≠ "aimrt") :
    generatedModuleYaml aimrt extYaml cfg name = generatedModuleYaml aimrt' extYaml cfg name :=
  get_mergeCustomNodes_congr extYaml (get_makeYamlFromCfg_congr aimrt aimrt' cfg hname)

/-- **`DumpFile` is two pipelines that do not meet.**  It fails exactly when the pipeline of the
framework does, with the same message, which names the file whose patch was being applied.
Otherwise the node `aimrt` of the file is what that pipeline gives, and the node of every module is
the preset one with the user's one merged in, whatever becomes of the framework's. -/
theorem dumpFile_splits (p : DumpInput) :
    (∀ error, dumpFile readFile write inject makeDirectory p = .error error ↔
      frameworkPipeline readFile write inject makeDirectory p = .error error) ∧
    ∀ yaml, dumpFile readFile write inject makeDirectory p = .ok yaml →
      frameworkPipeline readFile write inject makeDirectory p =
          .ok (Assoc.get .undefined "aimrt" yaml) ∧
        ∃ extYaml, externalYaml readFile p.cfg.cfgFilePath = .ok extYaml ∧
          ∀ name, name ≠ "aimrt" → name ≠ "aimrte" → ∀ aimrt,
            Assoc.get .undefined name yaml = generatedModuleYaml aimrt extYaml p.cfg name := by
  have herror : ∀ {e error : DumpError},
      (Except.error e : Except DumpError (List (String × Yaml))) = .error error ↔
        (Except.error e : Except DumpError Yaml) = .error error := by
    intro e error
    rw [Except.error.injEq, Except.error.injEq]
  rw [dumpFile_eq]
  unfold frameworkPipeline
  cases hmade : makeYaml write p with
  | error e => exact ⟨fun error => herror, fun yaml h => nomatch h⟩
  | ok start =>
    obtain ⟨written, rfl⟩ := makeYaml_eq_ok hmade
    cases hext : externalYaml readFile p.cfg.cfgFilePath with
    | error e => exact ⟨fun error => herror, fun yaml h => nomatch h⟩
    | ok extYaml =>
      show (∀ error, (frameworkNode readFile inject makeDirectory p _ extYaml >>= _) = _ ↔
        frameworkNode readFile inject makeDirectory p _ extYaml = _) ∧
        ∀ yaml, (frameworkNode readFile inject makeDirectory p _ extYaml >>= _) = _ →
          frameworkNode readFile inject makeDirectory p _ extYaml = _ ∧ _
      cases hnode : frameworkNode readFile inject makeDirectory p
          (Assoc.get .undefined "aimrt" (makeYamlFromCfg written p.cfg)) extYaml with
      | error e => exact ⟨fun error => herror, fun yaml h => nomatch h⟩
      | ok aimrt =>
        refine ⟨fun error => iff_of_false (fun h => nomatch h) (fun h => nomatch h), ?_⟩
        intro yaml h
        obtain rfl := Except.ok.inj h
        refine ⟨?_, extYaml, rfl, ?_⟩
        · rw [get_aimrt_mergeCustomNodes, setAimrt, Assoc.get_upsert_self]
        · intro name hname _ aimrt'
          rw [generatedModuleYaml_congr aimrt' written extYaml p.cfg hname]
          exact get_mergeCustomNodes_congr extYaml (Assoc.get_upsert_of_ne hname _ _)

/-- A patch file that overrides the section `configurator`. -/
def patchFiles (path : String) : Option (Except Error Yaml) :=
  if path = "p.yaml" then
    some (.ok (.map "" [("aimrte", .map "" [("configurator",
      .map "tag:yaml.org,2002:override" [("temp_cfg_path", .scalar "" "b")])])]))
  else none

/-- A program with the preset parameters of one module, started with that patch file. -/
def dumpSample : DumpInput where
  processor := .start {}
  cfg := { modulesConfig := .map "" [("m", .map "" [("x", .scalar "" "1")])] }
  userPatchConfigFilePaths := ["p.yaml"]

/-- The node that the configuration object is written as. -/
def writeSample (_ : AimRTConfig) : Yaml :=
  .map "" [("configurator", .map "" [("temp_cfg_path", .scalar "" "a")])]

theorem dumpFile_splits_sample :
    ∃ yaml, dumpFile patchFiles writeSample (fun node => .ok (node, "a")) (· = "a") dumpSample =
        .ok yaml ∧
      ((Assoc.get .undefined "aimrt" yaml).child "configurator").child "temp_cfg_path" =
        .scalar "" "b" ∧
      Assoc.get .undefined "m" yaml =
        generatedModuleYaml .null (.map "" []) dumpSample.cfg "m" := by
  have hdump : ∃ yaml,
      dumpFile patchFiles writeSample (fun node => .ok (node, "a")) (· = "a") dumpSample =
        .ok yaml ∧
      ((Assoc.get .undefined "aimrt" yaml).child "configurator").child "temp_cfg_path" =
        .scalar "" "b" := ⟨_, rfl, by decide⟩
  obtain ⟨yaml, hyaml, hpath⟩ := hdump
  obtain ⟨-, extYaml, hext, hmodules⟩ := (dumpFile_splits dumpSample).2 yaml hyaml
  obtain rfl := Except.ok.inj hext
  exact ⟨yaml, hyaml, hpath, hmodules "m" (by decide) (by decide) .null⟩

end AimrtComm.Cfg
