import AimrtComm.Cfg.Equiv.MergeTree
import AimrtComm.Cfg.Equiv.PatchBackend

/-!
# When an option list is patched

After `PatchAimRTChannelNode` and `PatchAimRTRpcNode` an option list of a backend is the list of
the patch wherever both sides have one.  `patch_optionList_iff` compares that with what
`PatchListNode` makes of the two lists: the outcomes agree when one of the lists is missing, when
the patch list overrides, or when it lists every entry as `PatchListNode` would leave it.
-/

namespace AimrtComm.Cfg

open Yaml KeyedList

/-! ### The two sections -/

/-- The sections with communication backends. -/
inductive CommSection where
  | channel
  | rpc
deriving DecidableEq, Repr

namespace CommSection

/-- The function that patches the section. -/
def patch : CommSection → Yaml → Yaml → Except Error Yaml
  | channel => patchAimRTChannelNode
  | rpc => patchAimRTRpcNode

/-- The option lists of a backend of the section, with their keys. -/
def possibleList : CommSection → List (String × String)
  | channel => channelPossibleList
  | rpc => rpcPossibleList

end CommSection

theorem lookup_possibleList (s : CommSection) {name : String}
    (h : name = "type" ∨ name = "options") : s.possibleList.lookup name = none := by
  rcases h with rfl | rfl <;> cases s <;> decide

/-- Patching one list of a section. -/
theorem patchSubList_eq_ok {name idKey : String} {handler : Handler} {ext res r : Yaml}
    (hext : ext.isMap = true) (hres : res.isMap = true)
    (h : patchSubList name idKey handler ext res = .ok r) :
    r.isMap = true ∧ patchListNode (res.child name) (ext.child name) idKey handler
        = .ok (r.child name) ∧
      ∀ n ≠ name, r.child n = res.child n := by
  match ext, res, hext, hres with
  | map te es, map tr rs, _, _ =>
    obtain ⟨v, hv, h⟩ := except_bind_eq_ok.mp h
    obtain rfl : Assoc.get undefined name es = v := Except.ok.inj hv
    obtain ⟨⟨t', rs₀⟩, hc, h⟩ := except_bind_eq_ok.mp h
    obtain ⟨rfl, rfl⟩ : tr = t' ∧ rs = rs₀ := by simpa [convertToMap] using hc
    obtain ⟨w, hw, h⟩ := except_bind_eq_ok.mp h
    obtain rfl := Except.ok.inj h
    refine ⟨rfl, ?_, fun n hn => Assoc.get_upsert_of_ne hn _ _⟩
    show patchListNode _ _ _ _ = .ok (Assoc.get undefined name (Assoc.upsert _ _ _ _))
    rw [Assoc.get_upsert_self]
    exact hw

/-- The backends of a section are patched by `PatchListNode`. -/
theorem patch_backends (s : CommSection) {res ext r : Yaml} (hext : ext.isMap = true)
    (htag : extractCustomTag ext = "") (hres : res.isMap = true) (h : s.patch res ext = .ok r) :
    patchListNode (res.child "backends") (ext.child "backends") "type"
      (backendHandler s.possibleList) = .ok (r.child "backends") := by
  have hdef : IsUndefined ext = false := by
    cases ext <;> simp_all [isMap, IsUndefined, isDefined, isNull]
  have hover : hasExplicitOverridePatchMode ext = .ok false := by
    simp [hasExplicitOverridePatchMode, htag]
  -- three lists are patched, the backends first
  have hthree : ∀ {h₁ h₂ : Handler} {n₁ n₂ k₁ k₂ : String}, n₁ ≠ "backends" → n₂ ≠ "backends" →
      (patchSection fun ext res => do
        let res ← patchSubList "backends" "type" (backendHandler s.possibleList) ext res
        let res ← patchSubList n₁ k₁ h₁ ext res
        patchSubList n₂ k₂ h₂ ext res) res ext = .ok r →
      patchListNode (res.child "backends") (ext.child "backends") "type"
        (backendHandler s.possibleList) = .ok (r.child "backends") := by
    intro h₁ h₂ n₁ n₂ k₁ k₂ hn₁ hn₂ h
    rw [patchSection, hdef, hover] at h
    obtain ⟨o, ho, h⟩ := except_bind_eq_ok.mp h
    rw [← Except.ok.inj ho, if_neg (by decide)] at h
    obtain ⟨res₁, hres₁, h⟩ := except_bind_eq_ok.mp h
    obtain ⟨res₂, hres₂, h⟩ := except_bind_eq_ok.mp h
    obtain ⟨hm₁, hb, -⟩ := patchSubList_eq_ok hext hres hres₁
    obtain ⟨hm₂, -, hother₁⟩ := patchSubList_eq_ok hext hm₁ hres₂
    obtain ⟨-, -, hother₂⟩ := patchSubList_eq_ok hext hm₂ h
    rw [hb, hother₂ _ hn₂.symm, hother₁ _ hn₁.symm]
  cases s with
  | channel => exact hthree (by decide) (by decide) h
  | rpc => exact hthree (by decide) (by decide) h

/-! ### Option lists -/

/-- The option list `name` of a backend. -/
def optionList (backend : Yaml) (name : String) : Yaml := (backend.child "options").child name

/-- What a node holds as a list: the tag of a sequence is left out, and a null is a missing
list. -/
def listContent : Yaml → Yaml
  | .undefined | .null => .undefined
  | .seq _ items => .seq "" items
  | node => node

/-- The option list `name` of `b'` is that of `b` patched with that of `e`. -/
def OptionListPatched (name idKey : String) (b e b' : Yaml) : Prop :=
  (patchListNode (optionList b name) (optionList e name) idKey mergeHandler).map listContent
    = .ok (listContent (optionList b' name))

/-- Replacing the option list `name` of `b` by that of `e` patches it.  Options that are not a map
replace nothing; the list of the patch is missing, meets no list, is not a sequence, overrides, or
reproduces itself when its entries are applied one by one. -/
def ReplacingPatches (name idKey : String) (b e : Yaml) : Prop :=
  (IsUndefined (e.child "options") = true ∨ (e.child "options").isMap = true ∨
      IsUndefined (optionList b name) = true) ∧
    (IsUndefined (optionList e name) = true ∨ IsUndefined (optionList b name) = true ∨
      (optionList e name).isSequence = false ∨
      extractCustomTag (optionList e name) = "override" ∨
      extractCustomTag (optionList e name) = "" ∧
        Keyed idKey (optionList b name).items ∧
        Distinct (itemKey idKey) (optionList b name).items ∧
        Keyed idKey (optionList e name).items ∧
        Reproduces (itemKey idKey) (itemEffect mergeHandler) (optionList b name).items
          (optionList e name).items)

/-! ### The outcome of `PatchListNode` -/

section Outcome

variable {idKey : String} {handler : Handler} {old patch : Yaml}

theorem patchListNode_of_missing_patch (h : IsUndefined patch = true) :
    patchListNode old patch idKey handler = .ok old := by
  unfold patchListNode
  rw [if_pos h]

theorem patchListNode_of_missing_old (hp : IsUndefined patch = false)
    (h : IsUndefined old = true) : patchListNode old patch idKey handler = .ok patch := by
  unfold patchListNode
  rw [if_neg (by simp [hp]), if_pos (by simp [h])]

theorem exists_seq_of_isSequence {y : Yaml} (h : y.isSequence = true) :
    ∃ t items, y = .seq t items := by
  cases y with
  | seq t items => exact ⟨t, items, rfl⟩
  | _ => cases h

theorem patchListNode_of_not_isSequence (hp : IsUndefined patch = false)
    (h : patch.isSequence = false) : patchListNode old patch idKey handler = .ok patch := by
  unfold patchListNode
  rw [if_neg (by simp [hp]), if_pos (by simp [h])]

/-- On two sequences the patch list is the outcome exactly when it overrides or its items, one by
one, produce it. -/
theorem patchListNode_seq_eq_patch_iff {tr te : String} {items ext : List Yaml} :
    (patchListNode (.seq tr items) (.seq te ext) idKey handler).map listContent
        = .ok (listContent (.seq te ext)) ↔
      extractCustomTag (.seq te ext) = "override" ∨
        extractCustomTag (.seq te ext) = "" ∧
          ext.foldlM (patchItem idKey handler) items = .ok ext := by
  by_cases hnone : extractCustomTag (.seq te ext) = ""
  -- without a tag the items are applied one by one, with one only `override` succeeds
  · rw [patchListNode_seq hnone]
    cases ext.foldlM (patchItem idKey handler) items with
    | error err => simp [Except.map, hnone]
    | ok ys => simp [Except.map, hnone, listContent]
  · rw [except_map_eq_ok]
    constructor
    · rintro ⟨r, hr, -⟩
      exact .inl ((patchListNode_of_tagged hnone).mp hr).1
    · rintro (hover | ⟨hempty, -⟩)
      · exact ⟨_, (patchListNode_of_tagged hnone).mpr ⟨hover, rfl⟩, rfl⟩
      · exact absurd hempty hnone

end Outcome

/-! ### The option list of a patched backend -/

section Merge

variable {name idKey : String} {b e b' : Yaml}

theorem child_of_not_isMap {node : Yaml} (h : node.isMap = false) (key : String) :
    node.child key = .undefined := by
  cases node <;> simp_all [isMap, child]

/-- A list of the patch, met by a list or by none, replaces it. -/
theorem optionList_of_patch (hw : e.WellFormed)
    (h : b'.child "options" = deepMerge (b.child "options") (e.child "options"))
    (hold : IsUndefined (optionList b name) = true ∨ (optionList b name).isSequence = true)
    (hp : IsUndefined (optionList e name) = false) : optionList b' name = optionList e name := by
  have hwo := hw.child "options"
  have hemap : (e.child "options").isMap = true := by
    by_contra hne
    rw [optionList, child_of_not_isMap (by simpa using hne)] at hp
    simp [IsUndefined, isDefined] at hp
  -- a map meeting a map would be merged, but the old list is no map
  have hnot : (optionList b name).isMap = false := by
    cases ho : optionList b name <;> simp_all [IsUndefined, isDefined, isNull, isSequence, isMap]
  by_cases hbmap : (b.child "options").isMap = true
  · rw [optionList, h, child_deepMerge hbmap hemap hwo]
    have hchild : ((b.child "options").child name).isMap = false := hnot
    exact deepMerge_of_not_isMap hp (by simp [hchild])
  · have heopt : IsUndefined (e.child "options") = false := by
      cases ho : e.child "options" <;> simp_all [isMap, IsUndefined, isDefined, isNull]
    rw [optionList, h, deepMerge_of_not_isMap heopt (by simp [hbmap])]
    rfl

/-- Without a list in the patch the old one stays, unless options that are not a map replace the
old options. -/
theorem optionList_of_no_patch (hw : e.WellFormed)
    (h : b'.child "options" = deepMerge (b.child "options") (e.child "options"))
    (hold : IsUndefined (optionList b name) = true ∨ (optionList b name).isSequence = true)
    (hp : IsUndefined (optionList e name) = true) :
    listContent (optionList b' name) = listContent (optionList b name) ↔
      IsUndefined (e.child "options") = true ∨ (e.child "options").isMap = true ∨
        IsUndefined (optionList b name) = true := by
  have hwo := hw.child "options"
  by_cases heopt : IsUndefined (e.child "options") = true
  · rw [optionList, h, deepMerge_of_isUndefined heopt]
    simp [heopt, optionList]
  · have hmissing : ∀ node : Yaml, IsUndefined node = true → listContent node = .undefined := by
      intro node hn
      cases node <;> simp_all [IsUndefined, isDefined, isNull, listContent]
    by_cases hemap : (e.child "options").isMap = true
    · simp only [hemap, true_or, or_true, iff_true]
      by_cases hbmap : (b.child "options").isMap = true
      · rw [optionList, h, child_deepMerge hbmap hemap hwo]
        exact congrArg listContent (deepMerge_of_isUndefined hp)
      · have hbo : optionList b name = .undefined := child_of_not_isMap (by simpa using hbmap) name
        rw [optionList, h, deepMerge_of_not_isMap (by simpa using heopt) (by simp [hbmap]), hbo]
        exact hmissing _ hp
    -- options that are not a map replace the old ones, and their list is gone
    · have hnew : optionList b' name = .undefined := by
        rw [optionList, h, deepMerge_of_not_isMap (by simpa using heopt) (by simp [hemap])]
        exact child_of_not_isMap (by simpa using hemap) name
      rw [hnew]
      simp only [heopt, hemap, false_or, Bool.false_eq_true]
      constructor
      · intro hc
        rcases hold with ho | ho
        · exact ho
        · cases hb : optionList b name <;> simp_all [isSequence, listContent]
      · exact fun ho => (hmissing _ ho).symm

/-- **When replacing an option list patches it.** -/
theorem optionListPatched_iff (hid : idKey ≠ "") (hw : e.WellFormed)
    (h : b'.child "options" = deepMerge (b.child "options") (e.child "options"))
    (hold : IsUndefined (optionList b name) = true ∨ (optionList b name).isSequence = true) :
    (ReplacingPatches name idKey b e → OptionListPatched name idKey b e b') ∧
      (Keyed idKey (optionList b name).items →
        Distinct (itemKey idKey) (optionList b name).items →
        OptionListPatched name idKey b e b' → ReplacingPatches name idKey b e) := by
  have hwo := hw.child "options"
  unfold OptionListPatched ReplacingPatches
  cases hp : IsUndefined (optionList e name) with
  | true =>
    rw [patchListNode_of_missing_patch hp]
    have hiff := optionList_of_no_patch hw h hold hp
    simp only [Except.map, Except.ok.injEq]
    exact ⟨fun hc => (hiff.mpr hc.1).symm, fun _ _ hc => ⟨hiff.mp hc.symm, .inl trivial⟩⟩
  | false =>
    have hemap : (e.child "options").isMap = true := by
      by_contra hne
      rw [optionList, child_of_not_isMap (by simpa using hne)] at hp
      simp [IsUndefined, isDefined] at hp
    rw [optionList_of_patch hw h hold hp]
    simp only [hemap, true_or, or_true, true_and]
    cases ho : IsUndefined (optionList b name) with
    | true =>
      rw [patchListNode_of_missing_old hp ho]
      exact ⟨fun _ => rfl, fun _ _ _ => .inr (.inl rfl)⟩
    | false =>
      have hseq : (optionList b name).isSequence = true := by simpa [ho] using hold
      cases hpseq : (optionList e name).isSequence with
      | false =>
        rw [patchListNode_of_not_isSequence hp hpseq]
        exact ⟨fun _ => rfl, fun _ _ _ => .inr (.inr (.inl rfl))⟩
      | true =>
        have hwl : (optionList e name).WellFormed := hwo.child name
        obtain ⟨tr, items, hb⟩ := exists_seq_of_isSequence hseq
        obtain ⟨te, ext, he⟩ := exists_seq_of_isSequence hpseq
        rw [he, WellFormed] at hwl
        rw [hb, he, patchListNode_seq_eq_patch_iff]
        simp only [Yaml.items, Bool.false_eq_true, false_or, reduceCtorEq]
        have hfold := fun (hi : Keyed idKey items) (hd : Distinct (itemKey idKey) items) =>
          foldlM_patchItem_eq_self_iff hid (keepsKey_mergeHandler idKey) hi hd
            fun (x : Yaml) (hx : x ∈ ext) => hwl.of_mem hx
        constructor
        · rintro (hover | ⟨hnone, hi, hd, hrep⟩)
          · exact .inl hover
          · exact .inr ⟨hnone, (hfold hi hd).mpr hrep⟩
        · rintro hi hd (hover | ⟨hnone, hrep⟩)
          · exact .inl hover
          · exact .inr ⟨hnone, hi, hd, (hfold hi hd).mp hrep⟩

end Merge

/-! ### The sections -/

variable {res ext r b e : Yaml} {tr te ty : String} {items before after : List Yaml}

/-- **When an option list is patched.**  After `PatchAimRTChannelNode` or `PatchAimRTRpcNode` the
backend of a type that one untagged patch element names is there, and each of its option lists is
what `PatchListNode` makes of the old list and the list of the patch exactly when replacing the
old list patches it. -/
theorem patch_optionList_iff (s : CommSection) (hext : extractCustomTag ext = "")
    (hres : res.child "backends" = .seq tr items) (hi : Keyed "type" items)
    (hb : slot (itemKey "type") (some ty) items = some b)
    (hlist : ext.child "backends" = .seq te (before ++ e :: after))
    (htag : extractCustomTag (.seq te (before ++ e :: after)) = "")
    (hw : ∀ x ∈ before ++ e :: after, x.WellFormed)
    (hk : getKey "type" e = .ok ty) (hu : extractCustomTag e = "")
    (hne : ∀ x ∈ before ++ after, getKey "type" x ≠ .ok ty) (hr : s.patch res ext = .ok r) :
    ∃ b', slot (itemKey "type") (some ty) (r.child "backends").items = some b' ∧
      ∀ name idKey, (name, idKey) ∈ s.possibleList →
        IsUndefined (optionList b name) = true ∨ (optionList b name).isSequence = true →
        (ReplacingPatches name idKey b e → OptionListPatched name idKey b e b') ∧
          (Keyed idKey (optionList b name).items →
            Distinct (itemKey idKey) (optionList b name).items →
            OptionListPatched name idKey b e b' → ReplacingPatches name idKey b e) := by
  have hmap : ∀ {node : Yaml} {t : String} {xs : List Yaml}, node.child "backends" = .seq t xs →
      node.isMap = true := by
    intro node t xs h
    by_contra hnot
    rw [child_of_not_isMap (by simpa using hnot)] at h
    cases h
  have hback := patch_backends s (hmap hlist) hext (hmap hres) hr
  rw [hres, hlist, patchListNode_seq htag, except_map_eq_ok] at hback
  obtain ⟨items', hfold, hitems⟩ := hback
  have htype := lookup_possibleList s (.inl rfl)
  obtain ⟨b', hhandler, hslot⟩ := slot_foldlM_patchItem (by decide) (keepsKey_backendHandler htype)
    hi hw hk hu hne hb hfold
  refine ⟨b', by rw [← hitems]; exact hslot, ?_⟩
  intro name idKey hname hold
  have hwe : e.WellFormed := hw e (by simp)
  have hbmap : b.isMap = true := by
    obtain ⟨-, hbk⟩ := itemKey_eq_some_iff.mp (key_of_slot hb)
    obtain ⟨t, fs, rfl, -⟩ := exists_map_of_getKey (by decide) hbk
    rfl
  have hemap : e.isMap = true := by
    obtain ⟨t, fs, rfl, -⟩ := exists_map_of_getKey (by decide) hk
    rfl
  have hid : idKey ≠ "" := by
    rintro rfl
    cases s <;> exact absurd hname (by simp [CommSection.possibleList, channelPossibleList,
      rpcPossibleList])
  exact optionListPatched_iff hid hwe (child_patchMapNodeWithSubList hbmap hemap hwe
    (lookup_possibleList s (.inr rfl)) hhandler).2 hold

/-- The options of one topic. -/
def sampleTopic (tag topic qos : String) : Yaml :=
  .map tag [("topic_name", .scalar "?" topic), ("qos", .scalar "?" qos)]

/-- A backend with options for publishing. -/
def sampleBackend (topics : List Yaml) : Yaml :=
  .map "?" [("type", .scalar "?" "mqtt"),
    ("options", .map "?" [("pub_topics_options", .seq "?" topics)])]

/-- A channel section with that backend. -/
def sampleChannel (topics : List Yaml) : Yaml :=
  .map "?" [("backends", .seq "?" [sampleBackend topics])]

/-- A patch that mentions one of two topics drops the other one. -/
theorem patchAimRTChannelNode_drops_topic :
    (patchAimRTChannelNode (sampleChannel [sampleTopic "?" "a" "1", sampleTopic "?" "b" "2"])
        (sampleChannel [sampleTopic "?" "a" "0"])).map
        (fun r => slot (itemKey "type") (some "mqtt") (r.child "backends").items)
      = .ok (some (sampleBackend [sampleTopic "?" "a" "0"])) ∧
    ¬ OptionListPatched "pub_topics_options" "topic_name"
        (sampleBackend [sampleTopic "?" "a" "1", sampleTopic "?" "b" "2"])
        (sampleBackend [sampleTopic "?" "a" "0"]) (sampleBackend [sampleTopic "?" "a" "0"]) := by
  unfold OptionListPatched
  decide +kernel

/-- A patch that lists all topics, in their order, is applied to them. -/
theorem patch_optionList_iff_sample :
    ∃ b', OptionListPatched "pub_topics_options" "topic_name"
      (sampleBackend [sampleTopic "?" "a" "1", sampleTopic "?" "b" "2"])
      (sampleBackend [sampleTopic "?" "a" "0", sampleTopic "?" "b" "2"]) b' := by
  have hpatched : CommSection.channel.patch
      (sampleChannel [sampleTopic "?" "a" "1", sampleTopic "?" "b" "2"])
      (sampleChannel [sampleTopic "?" "a" "0", sampleTopic "?" "b" "2"])
      = .ok (.map "?" [("backends", .seq "?" [sampleBackend [sampleTopic "?" "a" "0",
          sampleTopic "?" "b" "2"]]), ("pub_topics_options", .undefined),
        ("sub_topics_options", .undefined)]) := by decide +kernel
  have hslot : slot (itemKey "type") (some "mqtt")
      [sampleBackend [sampleTopic "?" "a" "1", sampleTopic "?" "b" "2"]]
      = some (sampleBackend [sampleTopic "?" "a" "1", sampleTopic "?" "b" "2"]) := by decide
  have hlist : (sampleChannel [sampleTopic "?" "a" "0", sampleTopic "?" "b" "2"]).child "backends"
      = .seq "?" ([] ++ sampleBackend [sampleTopic "?" "a" "0", sampleTopic "?" "b" "2"] :: []) :=
    rfl
  obtain ⟨b', -, hlists⟩ := patch_optionList_iff .channel (by decide) rfl
    (fun x hx => ⟨"mqtt", List.mem_singleton.mp hx ▸ by decide⟩) hslot hlist (by decide)
    (fun x hx => by
      obtain rfl := List.mem_singleton.mp hx
      simp [sampleBackend, sampleTopic, WellFormed, WellFormedFields, WellFormedItems, Assoc.keys])
    (by decide) (by decide) (by simp) hpatched
  refine ⟨b', (hlists _ _ (by decide) (by decide)).1 ⟨by decide, .inr (.inr (.inr (.inr ?_)))⟩⟩
  refine ⟨by decide, ?_, by decide, ?_, by decide, [],
    [sampleTopic "?" "a" "0", sampleTopic "?" "b" "2"], [], by decide, by decide, by simp, ?_,
    by simp, by decide⟩
  · intro x hx
    rcases List.mem_pair.mp hx with rfl | rfl
    exacts [⟨"a", by decide⟩, ⟨"b", by decide⟩]
  · intro x hx
    rcases List.mem_pair.mp hx with rfl | rfl
    exacts [⟨"a", by decide⟩, ⟨"b", by decide⟩]
  · intro x hx
    rcases List.mem_pair.mp hx with rfl | rfl <;> decide +kernel

end AimrtComm.Cfg
