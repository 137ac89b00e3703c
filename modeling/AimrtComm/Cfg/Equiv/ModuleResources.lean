import AimrtComm.Cfg.ModuleResources
import Mathlib.Tactic.Common

/-!
## The resources of all modules are a union

`recordModuleResourceCfg` adds pairs of names and methods to a relation, so that neither the order
of the modules nor repetitions show, and a method belongs to a name when its bit is set in the
union of all masks of the name.  `moduleResources_union` puts the four maps together with the map
of executors, in which every full name may be defined once, and says when there is an object to
write (`makeYamlFromCfg_ok_iff`).  For modules that are made by the calls of `ModuleCfg`, the
backends of a topic are those that the calls name, or the default ones where they name none
(`backends_of_calls`).
-/

namespace AimrtComm.Cfg

theorem Ch.value_injective : Function.Injective Ch.value := by
  intro a b h
  cases a <;> cases b <;> first | rfl | exact absurd h (by decide)

theorem Rpc.value_injective : Function.Injective Rpc.value := by
  intro a b h
  cases a <;> cases b <;> first | rfl | exact absurd h (by decide)

instance : Std.LawfulEqOrd Ch where
  eq_of_compare h := Ch.value_injective (Std.LawfulEqOrd.eq_of_compare (α := BitVec 64) h)

instance : Std.LawfulEqOrd Rpc where
  eq_of_compare h := Rpc.value_injective (Std.LawfulEqOrd.eq_of_compare (α := BitVec 64) h)

theorem ordered_chTypes : chTypes.Pairwise (fun a b => compare a b = .lt) := by decide

theorem ordered_rpcTypes : rpcTypes.Pairwise (fun a b => compare a b = .lt) := by decide

/-! ### Masks -/

section Masks

variable {τ : Type*} (value : τ → BitVec 64) (types : List τ)

/-- The methods whose bit is set in a mask. -/
def methodsOf (mask : BitVec 64) : List τ := types.filter fun t => value t &&& mask ≠ 0

/-- The union of all masks that are given to a name. -/
def maskOf (decls : List ResourceConfig) (name : String) : BitVec 64 :=
  (decls.filter fun i => i.name = name).foldr (fun i mask => i.methods ||| mask) 0

variable {value types}

theorem mem_methodsOf_or {t : τ} {mask mask' : BitVec 64} :
    t ∈ methodsOf value types (mask ||| mask') ↔
      t ∈ methodsOf value types mask ∨ t ∈ methodsOf value types mask' := by
  have hbits : value t &&& (mask ||| mask') = 0 ↔
      value t &&& mask = 0 ∧ value t &&& mask' = 0 := by
    rw [BitVec.and_or_distrib_left]
    exact BitVec.or_eq_zero_iff
  simp only [methodsOf, List.mem_filter, decide_eq_true_eq, ne_eq, hbits]
  tauto

theorem mem_methodsOf_maskOf {t : τ} {decls : List ResourceConfig} {name : String} :
    t ∈ methodsOf value types (maskOf decls name) ↔
      ∃ i ∈ decls, i.name = name ∧ t ∈ methodsOf value types i.methods := by
  induction decls with
  | nil => simp [maskOf, methodsOf]
  | cons i decls ih =>
    rw [maskOf, List.filter_cons]
    by_cases hname : i.name = name
    · rw [if_pos (by simpa using hname), List.foldr_cons, mem_methodsOf_or, ← maskOf, ih]
      simp [hname]
    · rw [if_neg (by simpa using hname), ← maskOf, ih]
      simp [hname]

end Masks

/-! ### Recording -/

section Record

variable {τ : Type*} [Ord τ] [Std.TransOrd τ] {value : τ → BitVec 64} {types : List τ}

/-- The pairs that a list of declarations stands for. -/
def pairsOf (value : τ → BitVec 64) (types : List τ) (decls : List ResourceConfig) :
    List (String × τ) :=
  decls.flatMap fun i => (methodsOf value types i.methods).map fun t => (i.name, t)

theorem recordModuleResourceCfg_eq (src : List ResourceConfig) (dst : MultiMap String τ) :
    recordModuleResourceCfg value types src dst = dst.addAll (pairsOf value types src) := by
  induction src generalizing dst with
  | nil => rfl
  | cons i src ih =>
    have hinner : ∀ (ts : List τ) (dst : MultiMap String τ),
        ts.foldl (fun dst type => if value type &&& i.methods ≠ 0 then dst.add i.name type
          else dst) dst
        = dst.addAll ((methodsOf value ts i.methods).map fun t => (i.name, t)) := by
      intro ts
      induction ts with
      | nil => exact fun _ => rfl
      | cons t ts iht =>
        intro dst
        rw [List.foldl_cons, iht, methodsOf, methodsOf, List.filter_cons]
        by_cases hbit : value t &&& i.methods ≠ 0
        · rw [if_pos hbit, if_pos (by simpa using hbit)]
          rfl
        · rw [if_neg hbit, if_neg (by simpa using hbit)]
    rw [recordModuleResourceCfg, List.foldl_cons, ← recordModuleResourceCfg, ih, hinner,
      ← MultiMap.addAll_append]
    rfl

theorem recordModuleResourceCfg_append (src src' : List ResourceConfig)
    (dst : MultiMap String τ) :
    recordModuleResourceCfg value types (src ++ src') dst
      = recordModuleResourceCfg value types src' (recordModuleResourceCfg value types src dst) :=
  List.foldl_append

variable [Std.LawfulEqOrd τ]

/-- A method belongs to a name when the union of the masks of the name has its bit. -/
theorem holds_recordModuleResourceCfg {src : List ResourceConfig} {name : String} {t : τ} :
    (recordModuleResourceCfg value types src .empty).Holds name t ↔
      t ∈ methodsOf value types (maskOf src name) := by
  rw [recordModuleResourceCfg_eq, MultiMap.holds_addAll, mem_methodsOf_maskOf, pairsOf]
  simp only [MultiMap.not_holds_empty, or_false, List.mem_flatMap, List.mem_map, Prod.mk.injEq]
  constructor
  · rintro ⟨i, hi, t', ht, hname, rfl⟩
    exact ⟨i, hi, hname, ht⟩
  · rintro ⟨i, hi, hname, ht⟩
    exact ⟨i, hi, t, ht, hname, rfl⟩

/-- What is recorded does not depend on the order of the declarations. -/
theorem recordModuleResourceCfg_perm {src src' : List ResourceConfig} (h : src.Perm src') :
    recordModuleResourceCfg value types src .empty
      = recordModuleResourceCfg value types src' .empty := by
  apply MultiMap.ext_holds
  intro name t
  rw [holds_recordModuleResourceCfg, holds_recordModuleResourceCfg, mem_methodsOf_maskOf,
    mem_methodsOf_maskOf]
  simp only [h.mem_iff]

/-- The entries are the union of the declarations: every name that is given the bit of a method
comes once, with the methods whose bit is set in the union of its masks. -/
structure IsUnion (value : τ → BitVec 64) (types : List τ) (decls : List ResourceConfig)
    (entries : List (String × List τ)) : Prop where
  once : (entries.map Prod.fst).Nodup
  names : ∀ name, name ∈ entries.map Prod.fst ↔
    ∃ i ∈ decls, i.name = name ∧ methodsOf value types i.methods ≠ []
  backends : ∀ name backends, (name, backends) ∈ entries →
    backends = methodsOf value types (maskOf decls name)

theorem isUnion_entries (htypes : types.Pairwise (fun a b => compare a b = .lt))
    (decls : List ResourceConfig) :
    IsUnion value types decls (recordModuleResourceCfg value types decls .empty).entries where
  once := MultiMap.nodup_keys_entries _
  names name := by
    rw [MultiMap.mem_keys_entries]
    simp only [holds_recordModuleResourceCfg, mem_methodsOf_maskOf, ne_eq,
      List.eq_nil_iff_forall_not_mem, not_forall, not_not]
    constructor
    · rintro ⟨t, i, hi, hname, ht⟩
      exact ⟨i, hi, hname, t, ht⟩
    · rintro ⟨i, hi, hname, t, ht⟩
      exact ⟨t, i, hi, hname, ht⟩
  backends name backends hmem := by
    apply eq_of_ordered_of_mem_iff (MultiMap.ordered_of_mem_entries hmem)
      (htypes.sublist List.filter_sublist)
    intro t
    rw [MultiMap.mem_of_mem_entries hmem, holds_recordModuleResourceCfg]
    rfl

end Record

/-! ### Executors -/

/-- The executors that are defined, not only declared. -/
def defined (exes : List ExeConfig) : List ExeConfig := exes.filter fun i => i.option.isSome

/-- The map holds the executors of a list under their names. -/
def HoldsExes (t : Std.ExtTreeMap String ExeConfig) (seen : List ExeConfig) : Prop :=
  ∀ name i, t[name]? = some i ↔ i ∈ seen ∧ i.name = name

theorem HoldsExes.insert {t : Std.ExtTreeMap String ExeConfig} {seen : List ExeConfig}
    (h : HoldsExes t seen) {src : ExeConfig} (hsrc : src.name ∉ seen.map ExeConfig.name) :
    HoldsExes (t.insert src.name src) (seen ++ [src]) := by
  intro name i
  rw [Std.ExtTreeMap.getElem?_insert, List.mem_append, List.mem_singleton]
  by_cases hname : src.name = name
  · rw [if_pos (Std.LawfulEqOrd.compare_eq_iff_eq.mpr hname), Option.some.injEq]
    constructor
    · rintro rfl
      exact ⟨.inr rfl, hname⟩
    · rintro ⟨hi | rfl, hiname⟩
      · exact absurd (List.mem_map.mpr ⟨i, hi, hiname.trans hname.symm⟩) hsrc
      · rfl
  · rw [if_neg (mt Std.LawfulEqOrd.compare_eq_iff_eq.mp hname), h]
    constructor
    · exact fun ⟨hi, hiname⟩ => ⟨.inl hi, hiname⟩
    · rintro ⟨hi | rfl, hiname⟩
      · exact ⟨hi, hiname⟩
      · exact absurd hiname hname

/-- The loop over the executors: it stops at the second definition of a name. -/
theorem foldlM_addExe (src : List ExeConfig) (t : Std.ExtTreeMap String ExeConfig)
    (seen : List ExeConfig) (hseen : defined seen = seen) (ht : HoldsExes t seen)
    (hnd : (seen.map ExeConfig.name).Nodup) :
    (∃ t', src.foldlM addExe t = .ok t' ∧ HoldsExes t' (seen ++ defined src) ∧
        ((seen ++ defined src).map ExeConfig.name).Nodup) ∨
      (∃ e, src.foldlM addExe t = .error e) ∧
        ¬((seen ++ defined src).map ExeConfig.name).Nodup := by
  induction src generalizing t seen with
  | nil => exact .inl ⟨t, rfl, by simpa [defined] using ht, by simpa [defined] using hnd⟩
  | cons i src ih =>
    rw [List.foldlM_cons, addExe]
    cases hoption : i.option with
    | none =>
      -- a mere declaration
      have hdefined : defined (i :: src) = defined src := by simp [defined, hoption]
      rw [hdefined]
      exact ih t seen hseen ht hnd
    | some option =>
      have hdefined : defined (i :: src) = i :: defined src := by simp [defined, hoption]
      rw [hdefined, ← List.singleton_append, ← List.append_assoc]
      by_cases hmem : i.name ∈ seen.map ExeConfig.name
      · -- the name has been defined before
        right
        obtain ⟨j, hj, hname⟩ := List.mem_map.mp hmem
        have hfound : t[i.name]? = some j := (ht _ _).mpr ⟨hj, hname⟩
        have hsome : j.option.isSome := by
          rw [← hseen, defined, List.mem_filter] at hj
          exact hj.2
        refine ⟨⟨.multipleDefined i.name, ?_⟩, fun h => ?_⟩
        · rw [if_neg (by simp), hfound, Option.bind_some, if_pos hsome]
          rfl
        · rw [List.map_append, List.map_append, List.append_assoc] at h
          exact (List.disjoint_of_nodup_append h) hmem (by simp)
      · have hnone : t[i.name]? = none := by
          rw [Option.eq_none_iff_forall_ne_some]
          intro j hj
          exact hmem (List.mem_map.mpr ⟨j, (ht _ _).mp hj⟩)
        rw [if_neg (by simp), hnone, if_neg (by simp)]
        refine ih (t.insert i.name i) (seen ++ [i]) ?_ (ht.insert hmem) ?_
        · rw [defined, List.filter_append, ← defined, hseen]
          simp [hoption]
        · rw [List.map_append, List.map_singleton]
          exact List.nodup_append.mpr ⟨hnd, List.nodup_singleton _, by
            intro a ha b hb hab
            rw [List.mem_singleton] at hb
            exact hmem (hb ▸ hab ▸ ha)⟩

/-- The map is empty when no executor was defined. -/
theorem HoldsExes.eq_empty_iff {t : Std.ExtTreeMap String ExeConfig} {seen : List ExeConfig}
    (h : HoldsExes t seen) : t = ∅ ↔ seen = [] := by
  constructor
  · rintro rfl
    refine List.eq_nil_iff_forall_not_mem.mpr fun i hi => ?_
    have hget := (h i.name i).mpr ⟨hi, rfl⟩
    simp at hget
  · rintro rfl
    apply Std.ExtTreeMap.ext_getElem?
    intro name
    rw [Std.ExtTreeMap.getElem?_empty, Option.eq_none_iff_forall_ne_some]
    intro i hi
    exact List.not_mem_nil ((h name i).mp hi).1

theorem HoldsExes.unique {t t' : Std.ExtTreeMap String ExeConfig} {seen seen' : List ExeConfig}
    (h : HoldsExes t seen) (h' : HoldsExes t' seen') (hperm : seen.Perm seen') : t = t' := by
  apply Std.ExtTreeMap.ext_getElem?
  intro name
  apply Option.ext
  intro i
  rw [h, h', hperm.mem_iff]

/-! ### All modules -/

/-- What is recorded for all modules, with the executors that have been collected. -/
def Processor.record (p : Processor) (modules : List ModuleCfg)
    (exes : Std.ExtTreeMap String ExeConfig) : Processor :=
  { p with
    pubs := recordModuleResourceCfg Ch.value chTypes (modules.flatMap ModuleCfg.pubs) p.pubs
    subs := recordModuleResourceCfg Ch.value chTypes (modules.flatMap ModuleCfg.subs) p.subs
    clis := recordModuleResourceCfg Rpc.value rpcTypes (modules.flatMap ModuleCfg.clis) p.clis
    srvs := recordModuleResourceCfg Rpc.value rpcTypes (modules.flatMap ModuleCfg.srvs) p.srvs
    exes }

/-- Adding the modules one by one is adding their lists as a whole. -/
theorem addModuleConfigs_eq (p : Processor) (modules : List ModuleCfg) :
    p.addModuleConfigs modules
      = ((modules.flatMap ModuleCfg.exes).foldlM addExe p.exes).map (p.record modules) := by
  induction modules generalizing p with
  | nil => rfl
  | cons cfg modules ih =>
    rw [Processor.addModuleConfigs, List.foldlM_cons, Processor.addModuleConfig,
      List.flatMap_cons, List.foldlM_append]
    cases cfg.exes.foldlM addExe p.exes with
    | error e => rfl
    | ok exes =>
      refine (ih _).trans ?_
      show Except.map _ (List.foldlM addExe exes _) = Except.map _ (List.foldlM addExe exes _)
      congr 1
      funext exes'
      simp only [Processor.record, List.flatMap_cons, recordModuleResourceCfg_append]

theorem foldlM_addExecutor {defaultExecutorType : String} {cfg cfg' : AimRTConfig}
    {exes : List (String × ExeConfig)}
    (h : exes.foldlM (fun cfg entry => addExecutor defaultExecutorType cfg entry.2) cfg
      = .ok cfg') :
    { cfg' with executors := cfg.executors } = cfg := by
  induction exes generalizing cfg with
  | nil =>
    cases h
    rfl
  | cons entry exes ih =>
    rw [List.foldlM_cons, addExecutor] at h
    split_ifs at h with htype
    · have hrest := ih h
      rw [AimRTConfig.mk.injEq] at hrest ⊢
      simpa using hrest
    · cases h

/-- The executors can be added exactly when there are none or the default type is the one that there
is. -/
theorem foldlM_addExecutor_ok_iff {defaultExecutorType : String} {cfg : AimRTConfig}
    {exes : List (String × ExeConfig)} :
    (∃ cfg', exes.foldlM (fun cfg entry => addExecutor defaultExecutorType cfg entry.2) cfg
      = .ok cfg') ↔ defaultExecutorType = "asio_thread" ∨ exes = [] := by
  by_cases htype : defaultExecutorType = "asio_thread"
  · refine iff_of_true ?_ (.inl htype)
    induction exes generalizing cfg with
    | nil => exact ⟨cfg, rfl⟩
    | cons entry exes ih =>
      rw [List.foldlM_cons, addExecutor, if_pos htype]
      exact ih
  · cases exes with
    | nil => exact iff_of_true ⟨cfg, rfl⟩ (.inr rfl)
    | cons entry exes =>
      rw [List.foldlM_cons, addExecutor, if_neg htype]
      simp [htype, bind, Except.bind]

theorem makeYamlFromCfg_ok_iff {defaultExecutorType : String} {p : Processor} :
    (∃ cfg', p.makeYamlFromCfg defaultExecutorType = .ok cfg') ↔
      defaultExecutorType = "asio_thread" ∨ p.exes = ∅ := by
  unfold Processor.makeYamlFromCfg
  rw [foldlM_addExecutor_ok_iff, Std.ExtTreeMap.toList_eq_nil_iff]

/-- The full names of the executors that the modules define. -/
def definedNames (modules : List ModuleCfg) : List String :=
  (defined (modules.flatMap ModuleCfg.exes)).map ExeConfig.name

/-- The collection stops, or it ends in the state that holds all executors. -/
theorem addModuleConfigs_start (cfg : AimRTConfig) (modules : List ModuleCfg) :
    (∃ exes, (Processor.start cfg).addModuleConfigs modules
          = .ok ((Processor.start cfg).record modules exes) ∧
        HoldsExes exes (defined (modules.flatMap ModuleCfg.exes)) ∧
        (definedNames modules).Nodup) ∨
      (∃ e, (Processor.start cfg).addModuleConfigs modules = .error e) ∧
        ¬(definedNames modules).Nodup := by
  rw [addModuleConfigs_eq]
  rcases foldlM_addExe (modules.flatMap ModuleCfg.exes) (Processor.start cfg).exes [] rfl
    (by simp [HoldsExes, Processor.start]) List.nodup_nil with
    ⟨exes, hok, hholds, hnd⟩ | ⟨⟨e, he⟩, hnd⟩
  · left
    refine ⟨exes, ?_, hholds, hnd⟩
    rw [hok]
    rfl
  · right
    refine ⟨⟨e, ?_⟩, hnd⟩
    rw [he]
    rfl

/-- **The modules' resources are collected as a union.**  `AddModuleConfig` panics exactly when two
definitions of executors share a full name.  Where it does not, it ends in the same state for every
order of the modules; `MakeYamlFromCfg` then returns unless there is an executor to define and the
default type is unusable, and appends to each of the four lists of options the union of the
declarations in the corresponding lists of the modules. -/
theorem moduleResources_union (cfg : AimRTConfig) (modules : List ModuleCfg)
    (defaultExecutorType : String) :
    ((∃ e, (Processor.start cfg).addModuleConfigs modules = .error e) ↔
      ¬(definedNames modules).Nodup) ∧
    ∀ p, (Processor.start cfg).addModuleConfigs modules = .ok p →
      (∀ modules', modules'.Perm modules →
        (Processor.start cfg).addModuleConfigs modules' = .ok p) ∧
      ((∃ cfg', p.makeYamlFromCfg defaultExecutorType = .ok cfg') ↔
        defaultExecutorType = "asio_thread" ∨ definedNames modules = []) ∧
      ∀ cfg', p.makeYamlFromCfg defaultExecutorType = .ok cfg' →
        ∃ pubs subs clis srvs,
          cfg'.pubTopicsOptions
              = cfg.pubTopicsOptions ++ pubs.map (fun e => PubOption.ofTypes e.1 e.2) ∧
            IsUnion Ch.value chTypes (modules.flatMap ModuleCfg.pubs) pubs ∧
          cfg'.subTopicsOptions
              = cfg.subTopicsOptions ++ subs.map (fun e => PubOption.ofTypes e.1 e.2) ∧
            IsUnion Ch.value chTypes (modules.flatMap ModuleCfg.subs) subs ∧
          cfg'.clientsOptions
              = cfg.clientsOptions ++ clis.map (fun e => CliOption.ofTypes e.1 e.2) ∧
            IsUnion Rpc.value rpcTypes (modules.flatMap ModuleCfg.clis) clis ∧
          cfg'.serversOptions
              = cfg.serversOptions ++ srvs.map (fun e => CliOption.ofTypes e.1 e.2) ∧
            IsUnion Rpc.value rpcTypes (modules.flatMap ModuleCfg.srvs) srvs := by
  refine ⟨?_, fun p hp => ⟨fun modules' hperm => ?_, ?_, fun cfg' hcfg' => ?_⟩⟩
  · rcases addModuleConfigs_start cfg modules with ⟨exes, hok, -, hnd⟩ | ⟨herror, hnd⟩
    · simp [hok, hnd]
    · exact iff_of_true herror hnd
  · rcases addModuleConfigs_start cfg modules with ⟨exes, hok, hholds, hnd⟩ | ⟨⟨e, he⟩, -⟩
    · have hexes := hperm.flatMap_right ModuleCfg.exes
      rcases addModuleConfigs_start cfg modules' with ⟨exes', hok', hholds', -⟩ | ⟨-, hnd'⟩
      · -- both orders collect the same executors and the same pairs
        rw [hok']
        rw [hok, Except.ok.injEq] at hp
        rw [← hp, hholds'.unique hholds (hexes.filter _)]
        show Except.ok (Processor.record _ _ _) = Except.ok (Processor.record _ _ _)
        simp only [Processor.record, Processor.start,
          recordModuleResourceCfg_perm (hperm.flatMap_right _)]
      · exact absurd ((((hexes.filter _).map _).nodup_iff).mpr hnd) hnd'
    · rw [he] at hp
      cases hp
  · rcases addModuleConfigs_start cfg modules with ⟨exes, hok, hholds, -⟩ | ⟨⟨e, he⟩, -⟩
    · rw [hok, Except.ok.injEq] at hp
      subst hp
      rw [makeYamlFromCfg_ok_iff, definedNames, List.map_eq_nil_iff, ← hholds.eq_empty_iff]
      rfl
    · rw [he] at hp
      cases hp
  · rcases addModuleConfigs_start cfg modules with ⟨exes, hok, -, -⟩ | ⟨⟨e, he⟩, -⟩
    · rw [hok, Except.ok.injEq] at hp
      subst hp
      have hkeep := foldlM_addExecutor hcfg'
      rw [AimRTConfig.mk.injEq] at hkeep
      obtain ⟨-, -, -, hpub, hsub, -, hcli, hsrv, -⟩ := hkeep
      exact ⟨_, _, _, _, hpub, isUnion_entries ordered_chTypes _, hsub,
        isUnion_entries ordered_chTypes _, hcli, isUnion_entries ordered_rpcTypes _, hsrv,
        isUnion_entries ordered_rpcTypes _⟩
    · rw [he] at hp
      cases hp

/-- Two modules publish one topic, over different backends, and each has an executor `~/x`. -/
def sharingModules : List ModuleCfg :=
  [(({ name := "a" } : ModuleCfg).defPub 3 "t").doDef "~/x" {},
    (({ name := "b" } : ModuleCfg).defPub 257 "t").doDef "~/x" {}]

/-- In both orders the topic gets the backends of both modules. -/
theorem moduleResources_union_sample :
    ∃ p cfg', (Processor.start {}).addModuleConfigs sharingModules = .ok p ∧
      (Processor.start {}).addModuleConfigs sharingModules.reverse = .ok p ∧
      p.makeYamlFromCfg "asio_thread" = .ok cfg' ∧
      { topicName := "t", enableBackends := [.ros2, .mqtt, .iceoryx] } ∈ cfg'.pubTopicsOptions := by
  obtain ⟨hpanic, hall⟩ := moduleResources_union {} sharingModules "asio_thread"
  cases hadded : (Processor.start {}).addModuleConfigs sharingModules with
  | error e => exact absurd (by decide) (hpanic.mp ⟨e, hadded⟩)
  | ok p =>
    obtain ⟨hperm, hmade, hunion⟩ := hall p hadded
    obtain ⟨cfg', hcfg'⟩ := hmade.mpr (.inl rfl)
    obtain ⟨pubs, -, -, -, hpubs, hisUnion, -⟩ := hunion cfg' hcfg'
    refine ⟨p, cfg', rfl, hperm _ (List.reverse_perm _), hcfg', ?_⟩
    -- the topic is among the names, and its backends are those of the union of the masks
    obtain ⟨⟨name, backends⟩, hentry, rfl⟩ := List.mem_map.mp ((hisUnion.names "t").mpr
      ⟨{ methods := 3, name := "t" }, by decide, rfl, by decide⟩)
    have hbackends := hisUnion.backends _ _ hentry
    rw [hpubs]
    refine List.mem_append_right _ (List.mem_map.mpr ⟨_, hentry, ?_⟩)
    rw [hbackends]
    decide

/-! ### Declaring resources -/

section Calls

variable {defaults : DefaultBackends}

/-- A backend is in the union of some masks that are single bits when it is one of them. -/
theorem mem_methodsOf_part {τ : Type*} {value : τ → BitVec 64} {types : List τ} {default t : τ}
    (hbits : ∀ t t', value t &&& value t' ≠ 0 ↔ t = t' ∧ t ≠ default)
    (hdefault : value default = 0) (ht : t ∈ types) (defaultBackends : List τ)
    (methods : BitVec 64) :
    t ∈ methodsOf value types (ModuleCfg.part value default defaultBackends methods) ↔
      if methods = 0 then t ∈ defaultBackends ∧ t ≠ default
      else t ∈ methodsOf value types methods := by
  unfold ModuleCfg.part
  rw [hdefault]
  split_ifs with hnone
  · have hfold : ∀ (mask : BitVec 64),
        t ∈ methodsOf value types (defaultBackends.foldl (fun m i => m ||| value i) mask) ↔
          t ∈ methodsOf value types mask ∨ t ∈ defaultBackends ∧ t ≠ default := by
      induction defaultBackends with
      | nil => simp
      | cons i defaultBackends ih =>
        intro mask
        have hone : t ∈ methodsOf value types (value i) ↔ t = i ∧ t ≠ default := by
          rw [← hbits, methodsOf, List.mem_filter]
          simp [ht]
        rw [List.foldl_cons, ih, mem_methodsOf_or, hone, List.mem_cons]
        tauto
    rw [hfold, hnone]
    simp [methodsOf]
  · rfl

theorem Ch.bits (t t' : Ch) : t.value &&& t'.value ≠ 0 ↔ t = t' ∧ t ≠ .default := by
  cases t <;> cases t' <;> decide

theorem Rpc.bits (t t' : Rpc) : t.value &&& t'.value ≠ 0 ↔ t = t' ∧ t ≠ .default := by
  cases t <;> cases t' <;> decide

theorem Ch.mem_chTypes (t : Ch) : t ∈ chTypes := by
  cases t <;> decide

theorem Rpc.mem_rpcTypes (t : Rpc) : t ∈ rpcTypes := by
  cases t <;> decide

/-- A call with these methods asks for the backend: it names it, or it names none and the backend is
a default one. -/
def AsksFor {τ : Type*} (value : τ → BitVec 64) (types : List τ) (default : τ)
    (defaultBackends : List τ) (methods : BitVec 64) (t : τ) : Prop :=
  if methods = 0 then t ∈ defaultBackends ∧ t ≠ default else t ∈ methodsOf value types methods

/-- One kind of call appends to a list what it declares, and no other call changes the list. -/
structure Declares {τ : Type*} (value : τ → BitVec 64) (default : τ) (defaultBackends : List τ)
    (defaults : DefaultBackends) (list : ModuleCfg → List ResourceConfig)
    (kind : BitVec 64 → String → Declaration) : Prop where
  start : ∀ name : String, list { name } = []
  made : ∀ cfg methods name, list (ModuleCfg.apply defaults cfg (kind methods name))
    = list cfg ++ [⟨ModuleCfg.part value default defaultBackends methods, name⟩]
  other : ∀ cfg call, (∀ methods name, call ≠ kind methods name) →
    list (ModuleCfg.apply defaults cfg call) = list cfg
  given : ∀ methods name methods' name', kind methods name = kind methods' name' →
    methods = methods' ∧ name = name'

/-- The list holds what the calls of its kind declare. -/
theorem Declares.mem_cfg {τ : Type*} {value : τ → BitVec 64} {default : τ}
    {defaultBackends : List τ} {list : ModuleCfg → List ResourceConfig}
    {kind : BitVec 64 → String → Declaration}
    (h : Declares value default defaultBackends defaults list kind) (m : DeclaredModule)
    (i : ResourceConfig) :
    i ∈ list (m.cfg defaults) ↔ ∃ methods, kind methods i.name ∈ m.calls ∧
      i.methods = ModuleCfg.part value default defaultBackends methods := by
  have hrun : ∀ (calls : List Declaration) (cfg : ModuleCfg),
      i ∈ list (calls.foldl (ModuleCfg.apply defaults) cfg) ↔
        i ∈ list cfg ∨ ∃ methods, kind methods i.name ∈ calls ∧
          i.methods = ModuleCfg.part value default defaultBackends methods := by
    intro calls
    induction calls with
    | nil => simp
    | cons call calls ih =>
      intro cfg
      rw [List.foldl_cons, ih]
      by_cases hkind : ∃ methods name, call = kind methods name
      · obtain ⟨methods, name, rfl⟩ := hkind
        have hhead : i = ⟨ModuleCfg.part value default defaultBackends methods, name⟩ ↔
            ∃ methods', kind methods' i.name = kind methods name ∧
              i.methods = ModuleCfg.part value default defaultBackends methods' := by
          constructor
          · rintro rfl
            exact ⟨methods, rfl, rfl⟩
          · rintro ⟨methods', hcall, hmethods⟩
            obtain ⟨rfl, hname⟩ := h.given _ _ _ _ hcall
            rw [← hmethods, ← hname]
        rw [h.made, List.mem_append, List.mem_singleton, hhead]
        simp only [List.mem_cons, or_and_right, exists_or, or_assoc]
      · have hother : ∀ methods name, call ≠ kind methods name :=
          fun methods name hcall => hkind ⟨methods, name, hcall⟩
        rw [h.other cfg call hother]
        simp only [List.mem_cons, (hother _ _).symm, false_or]
  rw [DeclaredModule.cfg, hrun, h.start]
  simp

/-- The backends of a name, from the calls of all modules that declare it in a list. -/
theorem Declares.mem_methodsOf {τ : Type*} {value : τ → BitVec 64} {types : List τ} {default t : τ}
    {defaultBackends : List τ} {list : ModuleCfg → List ResourceConfig}
    {kind : BitVec 64 → String → Declaration}
    (h : Declares value default defaultBackends defaults list kind)
    (hbits : ∀ t t', value t &&& value t' ≠ 0 ↔ t = t' ∧ t ≠ default)
    (hdefault : value default = 0) (ht : t ∈ types) (modules : List DeclaredModule)
    (name : String) :
    t ∈ methodsOf value types
        (maskOf ((modules.map (DeclaredModule.cfg defaults)).flatMap list) name) ↔
      ∃ m ∈ modules, ∃ methods, kind methods name ∈ m.calls ∧
        AsksFor value types default defaultBackends methods t := by
  rw [mem_methodsOf_maskOf]
  simp only [List.mem_flatMap, List.mem_map]
  constructor
  · rintro ⟨i, ⟨_, ⟨m, hm, rfl⟩, hi⟩, rfl, hmem⟩
    obtain ⟨methods, hcall, hmethods⟩ := (h.mem_cfg m i).mp hi
    rw [hmethods] at hmem
    exact ⟨m, hm, methods, hcall,
      (mem_methodsOf_part hbits hdefault ht defaultBackends methods).mp hmem⟩
  · rintro ⟨m, hm, methods, hcall, hasks⟩
    exact ⟨⟨ModuleCfg.part value default defaultBackends methods, name⟩,
      ⟨_, ⟨m, hm, rfl⟩, (h.mem_cfg m _).mpr ⟨methods, hcall, rfl⟩⟩, rfl,
      (mem_methodsOf_part hbits hdefault ht defaultBackends methods).mpr hasks⟩

theorem declares_pubs (defaults : DefaultBackends) :
    Declares Ch.value .default defaults.channel defaults ModuleCfg.pubs .pub where
  start _ := rfl
  made _ _ _ := rfl
  other cfg call hcall := by
    cases call with
    | pub methods name => exact absurd rfl (hcall methods name)
    | _ => rfl
  given _ _ _ _ h := by simpa using h

theorem declares_subs (defaults : DefaultBackends) :
    Declares Ch.value .default defaults.channel defaults ModuleCfg.subs .sub where
  start _ := rfl
  made _ _ _ := rfl
  other cfg call hcall := by
    cases call with
    | sub methods name => exact absurd rfl (hcall methods name)
    | _ => rfl
  given _ _ _ _ h := by simpa using h

theorem declares_clis (defaults : DefaultBackends) :
    Declares Rpc.value .default defaults.rpc defaults ModuleCfg.clis .cli where
  start _ := rfl
  made _ _ _ := rfl
  other cfg call hcall := by
    cases call with
    | cli methods name => exact absurd rfl (hcall methods name)
    | _ => rfl
  given _ _ _ _ h := by simpa using h

theorem declares_srvs (defaults : DefaultBackends) :
    Declares Rpc.value .default defaults.rpc defaults ModuleCfg.srvs .srv where
  start _ := rfl
  made _ _ _ := rfl
  other cfg call hcall := by
    cases call with
    | srv methods name => exact absurd rfl (hcall methods name)
    | _ => rfl
  given _ _ _ _ h := by simpa using h

/-- **The backends of a name, from the calls.**  For modules that are made by calls, a backend is
collected for a name when one of the calls that declare the name in this list asks for it. -/
theorem backends_of_calls (modules : List DeclaredModule) (name : String) :
    (∀ t, t ∈ methodsOf Ch.value chTypes
        (maskOf ((modules.map (DeclaredModule.cfg defaults)).flatMap ModuleCfg.pubs) name) ↔
      ∃ m ∈ modules, ∃ methods, .pub methods name ∈ m.calls ∧
        AsksFor Ch.value chTypes .default defaults.channel methods t) ∧
    (∀ t, t ∈ methodsOf Ch.value chTypes
        (maskOf ((modules.map (DeclaredModule.cfg defaults)).flatMap ModuleCfg.subs) name) ↔
      ∃ m ∈ modules, ∃ methods, .sub methods name ∈ m.calls ∧
        AsksFor Ch.value chTypes .default defaults.channel methods t) ∧
    (∀ t, t ∈ methodsOf Rpc.value rpcTypes
        (maskOf ((modules.map (DeclaredModule.cfg defaults)).flatMap ModuleCfg.clis) name) ↔
      ∃ m ∈ modules, ∃ methods, .cli methods name ∈ m.calls ∧
        AsksFor Rpc.value rpcTypes .default defaults.rpc methods t) ∧
    (∀ t, t ∈ methodsOf Rpc.value rpcTypes
        (maskOf ((modules.map (DeclaredModule.cfg defaults)).flatMap ModuleCfg.srvs) name) ↔
      ∃ m ∈ modules, ∃ methods, .srv methods name ∈ m.calls ∧
        AsksFor Rpc.value rpcTypes .default defaults.rpc methods t) :=
  ⟨fun t => (declares_pubs defaults).mem_methodsOf Ch.bits rfl t.mem_chTypes modules name,
    fun t => (declares_subs defaults).mem_methodsOf Ch.bits rfl t.mem_chTypes modules name,
    fun t => (declares_clis defaults).mem_methodsOf Rpc.bits rfl t.mem_rpcTypes modules name,
    fun t => (declares_srvs defaults).mem_methodsOf Rpc.bits rfl t.mem_rpcTypes modules name⟩

end Calls

end AimrtComm.Cfg
