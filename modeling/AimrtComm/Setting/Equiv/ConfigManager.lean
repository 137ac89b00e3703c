import AimrtComm.Lib.FirstLast
import AimrtComm.Setting.ConfigManager

/-!
## When the settings do not depend on the order of the files

The scan keeps all pairs, of which `GetConfig` takes the first of a key, while the site is the last
one that was seen (`foldl_scanEntry`).  The two agree, in whatever order the directory is listed,
exactly when no key has two values in the directory: two files with different values can change
places.  The exception are files that make every scan throw (`NeverReturns`), since then there is
nothing to compare: a scan throws for a site (`SiteFails`), and every scan does when this is so of
all sites that can be the last one (`neverReturns_iff`).  See `selfConsistent_iff`.
-/

namespace AimrtComm.Setting

open FirstLast

variable {dump : Json → String} {files : SiteFiles} {entries listing listing' : List Entry}

/-! ### What the scan reads -/

/-- The pairs of a json document, with the texts of the values. -/
def Document.pairs (dump : Json → String) (document : Document) : List (String × String) :=
  document.root.items.map fun item => (item.1, valueTmp dump item.2)

/-- The pairs that the scan takes from an entry. -/
def Entry.pairs (dump : Json → String) (entry : Entry) : List (String × String) :=
  if !entry.isRegularFile || entry.extension ≠ ".json" then []
  else
    match entry.content.parse with
    | .error _ => []
    | .ok cfgfile => cfgfile.pairs dump

/-- The pairs of all files. -/
def allPairs (dump : Json → String) (entries : List Entry) : List (String × String) :=
  entries.flatMap (Entry.pairs dump)

theorem foldl_scanPair (state : ScanState) (items : List (String × Json)) :
    items.foldl (scanPair dump) state =
      let pairs := items.map fun item => (item.1, valueTmp dump item.2)
      { configMap := state.configMap ++ pairs
        siteId := last state.siteId siteIdKey pairs
        siteFile := last state.siteFile siteFileKey pairs } := by
  induction items generalizing state with
  | nil => simp [last]
  | cons item items ih =>
    rw [List.foldl_cons, ih]
    simp [scanPair, last]

theorem scanEntry_eq (state : ScanState) (entry : Entry) :
    scanEntry dump state entry =
      { configMap := state.configMap ++ entry.pairs dump
        siteId := last state.siteId siteIdKey (entry.pairs dump)
        siteFile := last state.siteFile siteFileKey (entry.pairs dump) } := by
  unfold scanEntry Entry.pairs
  split_ifs
  · simp [last]
  · cases entry.content.parse with
    | error e => simp [last]
    | ok cfgfile => exact foldl_scanPair state cfgfile.root.items

/-- The loop over the directory keeps all pairs, and the last values of the two site keys. -/
theorem foldl_scanEntry (state : ScanState) (listing : List Entry) :
    listing.foldl (scanEntry dump) state =
      { configMap := state.configMap ++ allPairs dump listing
        siteId := last state.siteId siteIdKey (allPairs dump listing)
        siteFile := last state.siteFile siteFileKey (allPairs dump listing) } := by
  induction listing generalizing state with
  | nil => simp [allPairs, last]
  | cons entry listing ih =>
    rw [List.foldl_cons, ih, scanEntry_eq]
    simp [allPairs, last_append]

theorem allPairs_perm (h : listing.Perm entries) :
    (allPairs dump listing).Perm (allPairs dump entries) :=
  h.flatMap_right (Entry.pairs dump)

/-- The keys of one entry are distinct. -/
theorem Entry.singleValued_pairs (dump : Json → String) (entry : Entry) :
    SingleValued (entry.pairs dump) := by
  have hdocument : ∀ document : Document, SingleValued (document.pairs dump) := by
    intro document k v w hv hw
    have hkeys : (Assoc.keys (document.pairs dump)).Nodup := by
      have hmap : Assoc.keys (document.pairs dump) = Assoc.keys document.root.items := by
        rw [Document.pairs, Assoc.keys, List.map_map]
        rfl
      rw [hmap]
      exact document.distinct
    have hget := Assoc.get_of_mem (d := v) hkeys hv
    rw [Assoc.get_of_mem hkeys hw] at hget
    exact hget.symm
  unfold Entry.pairs
  split_ifs
  · exact fun _ _ _ hv => absurd hv List.not_mem_nil
  · cases entry.content.parse with
    | error e => exact fun _ _ _ hv => absurd hv List.not_mem_nil
    | ok cfgfile => exact hdocument cfgfile

/-! ### The site -/

/-- The rest of the scan alone: the check of the site, and the pairs of the dns file. -/
def siteLookup (dump : Json → String) (files : SiteFiles) (siteId siteFile : String) :
    Except Thrown ScanResult :=
  scanSite dump files { siteId, siteFile }

/-- The last values of the two site keys. -/
abbrev lastSiteId (dump : Json → String) (listing : List Entry) : String :=
  last "" siteIdKey (allPairs dump listing)

abbrev lastSiteFile (dump : Json → String) (listing : List Entry) : String :=
  last "" siteFileKey (allPairs dump listing)

/-- The rest of the scan puts its pairs behind those that are there. -/
theorem scanSite_eq (dump : Json → String) (files : SiteFiles) (state : ScanState) :
    scanSite dump files state =
      (siteLookup dump files state.siteId state.siteFile).map
        fun result => { result with configMap := state.configMap ++ result.configMap } := by
  have hdns : scanDns dump files state =
      (scanDns dump files { siteId := state.siteId, siteFile := state.siteFile }).map
        fun result => { result with configMap := state.configMap ++ result.configMap } := by
    unfold scanDns
    dsimp only
    cases files.dnsConfig state.siteFile with
    | noStatus => rfl
    | missing => simp [Except.map]
    | file content => cases hparse : content.parse <;> simp [hparse, Except.map]
  unfold siteLookup scanSite
  dsimp only
  split_ifs
  · simp [Except.map]
  cases files.globalConfig with
  | none => simp [Except.map]
  | some content =>
    dsimp only
    cases content.parse with
    | error e => cases e <;> simp [Except.map]
    | ok globalConfig =>
      dsimp only
      cases checkSite globalConfig.root state.siteId with
      | error e => rfl
      | ok expected => exact hdns

/-- The scan puts the pairs of the dns file behind those of the directory. -/
theorem scanConfigMap_eq (dump : Json → String) (files : SiteFiles) (listing : List Entry) :
    scanConfigMap dump files (some listing) =
      (siteLookup dump files (lastSiteId dump listing) (lastSiteFile dump listing)).map
        fun result => { result with configMap := allPairs dump listing ++ result.configMap } := by
  unfold scanConfigMap
  dsimp only
  rw [scanSite_eq, foldl_scanEntry]
  rfl

/-- The global config throws for this site, or the dns config for this site file. -/
def SiteFails (files : SiteFiles) (siteId siteFile : String) : Prop :=
  siteId ≠ "" ∧ siteFile ≠ "" ∧ ∃ content, files.globalConfig = some content ∧
    (content.parse = .error .outOfRange ∨ ∃ globalConfig, content.parse = .ok globalConfig ∧
      ((∃ e, checkSite globalConfig.root siteId = .error e) ∨
        files.dnsConfig siteFile = .noStatus))

/-- Parsing throws nothing else. -/
theorem parse_eq_error {content : Content} {e : Thrown} (h : content.parse = .error e) :
    e = .parseError ∨ e = .outOfRange := by
  unfold Content.parse at h
  split at h
  · split_ifs at h
    · exact .inr (Except.error.inj h).symm
    · exact .inl (Except.error.inj h).symm
  · split_ifs at h
    exact .inr (Except.error.inj h).symm

theorem scanDns_eq_error_iff {state : ScanState} :
    (∃ e, scanDns dump files state = .error e) ↔ files.dnsConfig state.siteFile = .noStatus := by
  unfold scanDns
  cases files.dnsConfig state.siteFile with
  | noStatus => simp
  | missing => simp
  | file content => cases hparse : content.parse <;> simp [hparse]

/-- The rest of the scan throws exactly when the site fails. -/
theorem scanSite_eq_error_iff {state : ScanState} :
    (∃ e, scanSite dump files state = .error e) ↔ SiteFails files state.siteId state.siteFile := by
  unfold scanSite SiteFails
  by_cases hid : state.siteId = ""
  · simp [hid]
  by_cases hfile : state.siteFile = ""
  · simp [hfile]
  rw [if_neg (by simp [hid, hfile])]
  simp only [ne_eq, hid, hfile, not_false_eq_true, true_and]
  cases files.globalConfig with
  | none => simp
  | some content =>
    simp only [Option.some.injEq, exists_eq_left']
    cases hparse : content.parse with
    | error e => rcases parse_eq_error hparse with rfl | rfl <;> simp
    | ok globalConfig =>
      rw [← @scanDns_eq_error_iff dump]
      cases hcheck : checkSite globalConfig.root state.siteId with
      | error e => simp [bind, Except.bind, hcheck]
      | ok expected => simp [bind, Except.bind, hcheck]

theorem siteLookup_eq_error_iff {siteId siteFile : String} :
    (∃ e, siteLookup dump files siteId siteFile = .error e) ↔ SiteFails files siteId siteFile :=
  scanSite_eq_error_iff

/-- What the pairs of the dns file are taken for. -/
theorem scanDns_eq_ok {state : ScanState} {result : ScanResult}
    (h : scanDns dump files state = .ok result) :
    (∀ site, result.checkedSite = some site → site = state.siteId) ∧
      ∀ file, result.appendedDns = some file → file = state.siteFile := by
  unfold scanDns at h
  dsimp only at h
  cases hconfig : files.dnsConfig state.siteFile with
  | noStatus => simp [hconfig] at h
  | missing =>
    rw [hconfig] at h
    obtain rfl := Except.ok.inj h
    simp
  | file content =>
    rw [hconfig] at h
    dsimp only at h
    cases hparse : content.parse <;> rw [hparse] at h <;> obtain rfl := Except.ok.inj h <;> simp

/-- What a lookup that succeeds says about the site and the dns file. -/
theorem siteLookup_eq_ok {siteId siteFile : String} {result : ScanResult}
    (h : siteLookup dump files siteId siteFile = .ok result) :
    (∀ site, result.checkedSite = some site → site = siteId ∧ siteId ≠ "") ∧
      ∀ file, result.appendedDns = some file → file = siteFile ∧ siteFile ≠ "" := by
  unfold siteLookup scanSite at h
  dsimp only at h
  split_ifs at h with hempty
  · obtain rfl := Except.ok.inj h
    simp
  have hand : siteId ≠ "" ∧ siteFile ≠ "" := by simpa using hempty
  cases hglobal : files.globalConfig with
  | none =>
    rw [hglobal] at h
    obtain rfl := Except.ok.inj h
    simp
  | some content =>
    rw [hglobal] at h
    dsimp only at h
    cases hparse : content.parse with
    | error e =>
      rw [hparse] at h
      rcases parse_eq_error hparse with rfl | rfl
      · obtain rfl := Except.ok.inj h
        simp
      · cases h
    | ok globalConfig =>
      rw [hparse] at h
      dsimp only at h
      cases hcheck : checkSite globalConfig.root siteId with
      | error e =>
        rw [hcheck] at h
        cases h
      | ok expected =>
        rw [hcheck] at h
        obtain ⟨hsite, hfile⟩ := scanDns_eq_ok h
        exact ⟨fun site h => ⟨hsite site h, hand.1⟩, fun file h => ⟨hfile file h, hand.2⟩⟩

/-! ### What `GetConfig` finds -/

/-- The answer of `GetConfig` from a config map. -/
def answer (configMap : List (String × String)) (configs : List RobotConfig) :
    Bool × List RobotConfig :=
  if configMap.isEmpty then (false, configs)
  else (true, configs.map fun cfg => { cfg with value := (first cfg.key configMap).getD cfg.value })

theorem getConfig_eq (dump : Json → String) (files : SiteFiles) (listing : List Entry)
    (configs : List RobotConfig) :
    getConfig dump files (some listing) configs =
      (siteLookup dump files (lastSiteId dump listing) (lastSiteFile dump listing)).map
        fun result => answer (allPairs dump listing ++ result.configMap) configs := by
  unfold getConfig answer
  rw [scanConfigMap_eq]
  cases siteLookup dump files (lastSiteId dump listing) (lastSiteFile dump listing) with
  | error e => rfl
  | ok result =>
    simp only [Except.map, bind, Except.bind, pure, Except.pure]
    split_ifs
    · rfl
    · refine congrArg (fun configs => Except.ok (true, configs)) (List.map_congr_left ?_)
      intro cfg _
      unfold first
      cases (allPairs dump listing ++ result.configMap).find? fun kv => kv.1 = cfg.key <;> rfl

/-- `GetConfig` returns this value for a key. -/
def Gets (dump : Json → String) (files : SiteFiles) (listing : List Entry) (key value : String) :
    Prop :=
  ∀ cfg : RobotConfig, cfg.key = key →
    getConfig dump files (some listing) [cfg] = .ok (true, [{ cfg with value }])

/-- A value that stands first in the files of the directory is the one that `GetConfig` returns. -/
theorem gets_of_first {key value : String} {result : ScanResult}
    (hlookup : siteLookup dump files (lastSiteId dump listing) (lastSiteFile dump listing) =
      .ok result)
    (hfirst : first key (allPairs dump listing) = some value) :
    Gets dump files listing key value := by
  rintro cfg rfl
  have hne : (allPairs dump listing ++ result.configMap).isEmpty = false := by
    have hmem := mem_of_first_eq_some hfirst
    cases hpairs : allPairs dump listing with
    | nil =>
      rw [hpairs] at hmem
      cases hmem
    | cons => rfl
  rw [getConfig_eq, hlookup]
  simp [Except.map, answer, hne, first_append, hfirst]

/-! ### The consistency of the lookup -/

/-- The dns file that is appended and the site that is checked are those that `GetConfig` returns,
and what it returns does not depend on the order in which the directory is listed. -/
structure SelfConsistent (dump : Json → String) (files : SiteFiles) (entries : List Entry) :
    Prop where
  dns : ∀ listing, listing.Perm entries → ∀ result,
    scanConfigMap dump files (some listing) = .ok result →
      ∀ file, result.appendedDns = some file → Gets dump files listing siteFileKey file
  site : ∀ listing, listing.Perm entries → ∀ result,
    scanConfigMap dump files (some listing) = .ok result →
      ∀ site, result.checkedSite = some site → Gets dump files listing siteIdKey site
  order : ∀ listing listing', listing.Perm entries → listing'.Perm entries → ∀ configs,
    (getConfig dump files (some listing) configs).toOption =
      (getConfig dump files (some listing') configs).toOption

/-- There is a site and a site file, and those that stand last together in some order of the
directory fail. -/
structure NeverReturns (dump : Json → String) (files : SiteFiles) (entries : List Entry) :
    Prop where
  siteId : ∃ site, (siteIdKey, site) ∈ allPairs dump entries
  siteFile : ∃ file, (siteFileKey, file) ∈ allPairs dump entries
  fails : ∀ site file,
    LastTogether (Entry.pairs dump) siteIdKey siteFileKey entries site file →
      SiteFails files site file

/-- A last value that is not empty stands beside its key. -/
theorem mem_last_of_ne {key : String} (h : last "" key (allPairs dump listing) ≠ "") :
    (key, last "" key (allPairs dump listing)) ∈ allPairs dump listing :=
  (last_cases "" key (allPairs dump listing)).resolve_right fun hnone => h hnone.1

/-- Every scan fails exactly when there is always a site that fails. -/
theorem neverReturns_iff : NeverReturns dump files entries ↔ ∀ listing, listing.Perm entries →
    ∃ e, siteLookup dump files (lastSiteId dump listing) (lastSiteFile dump listing) =
      .error e := by
  constructor
  · rintro ⟨⟨site, hsite⟩, ⟨file, hfile⟩, hfails⟩ listing hperm
    have hpairs := @allPairs_perm dump _ _ hperm
    have hlast := lastTogether_last "" ⟨site, hpairs.mem_iff.mpr hsite⟩
      ⟨file, hpairs.mem_iff.mpr hfile⟩
    exact siteLookup_eq_error_iff.mpr (hfails _ _ (hlast.perm hperm))
  · intro h
    obtain ⟨hid, hfile, -⟩ := siteLookup_eq_error_iff.mp (h entries (List.Perm.refl _))
    refine ⟨⟨_, mem_last_of_ne hid⟩, ⟨_, mem_last_of_ne hfile⟩, ?_⟩
    intro site file htogether
    obtain ⟨listing, hperm, rfl, rfl⟩ :=
      htogether.exists_perm (Entry.singleValued_pairs dump) ""
    exact siteLookup_eq_error_iff.mp (h listing hperm)

/-- No key has different values in the directory. -/
abbrev Consistent (dump : Json → String) (entries : List Entry) : Prop :=
  SingleValued (allPairs dump entries)

/-- A scan that returns has looked up its site. -/
theorem scanConfigMap_eq_ok {result : ScanResult}
    (h : scanConfigMap dump files (some listing) = .ok result) :
    ∃ result', siteLookup dump files (lastSiteId dump listing) (lastSiteFile dump listing) =
      .ok result' ∧ result.checkedSite = result'.checkedSite ∧
        result.appendedDns = result'.appendedDns := by
  rw [scanConfigMap_eq] at h
  cases hlookup : siteLookup dump files (lastSiteId dump listing) (lastSiteFile dump listing) with
  | error e =>
    rw [hlookup] at h
    cases h
  | ok result' =>
    rw [hlookup] at h
    obtain rfl := Except.ok.inj h
    exact ⟨result', rfl, rfl, rfl⟩

/-- In a consistent directory the last value of a key is the one that is returned. -/
theorem gets_last (h : Consistent dump listing) {key : String} {result : ScanResult}
    (hlookup : siteLookup dump files (lastSiteId dump listing) (lastSiteFile dump listing) =
      .ok result)
    (hne : last "" key (allPairs dump listing) ≠ "") :
    Gets dump files listing key (last "" key (allPairs dump listing)) :=
  gets_of_first hlookup (h.first_eq_some_iff.mpr (mem_last_of_ne hne))

/-- The order of consistent pairs does not matter to the answer. -/
theorem answer_perm {pairs pairs' : List (String × String)} (hsingle : SingleValued pairs')
    (hpairs : pairs.Perm pairs') (configMap : List (String × String))
    (configs : List RobotConfig) :
    answer (pairs ++ configMap) configs = answer (pairs' ++ configMap) configs := by
  have hempty : (pairs ++ configMap).isEmpty = (pairs' ++ configMap).isEmpty := by
    have hnil : pairs = [] ↔ pairs' = [] := by
      rw [← List.length_eq_zero_iff, ← List.length_eq_zero_iff, hpairs.length_eq]
    rw [Bool.eq_iff_iff, List.isEmpty_iff, List.isEmpty_iff, List.append_eq_nil_iff,
      List.append_eq_nil_iff, hnil]
  unfold answer
  rw [hempty]
  simp only [first_append, hsingle.first_perm hpairs]

theorem selfConsistent_of_consistent (h : Consistent dump entries) :
    SelfConsistent dump files entries := by
  have hlisting : ∀ listing, listing.Perm entries → Consistent dump listing :=
    fun listing hperm => h.perm (allPairs_perm hperm)
  constructor
  · intro listing hperm result hresult file hfile
    obtain ⟨result', hlookup, -, hdns⟩ := scanConfigMap_eq_ok hresult
    rw [hdns] at hfile
    obtain ⟨rfl, hne⟩ := (siteLookup_eq_ok hlookup).2 file hfile
    exact gets_last (hlisting listing hperm) hlookup hne
  · intro listing hperm result hresult site hsite
    obtain ⟨result', hlookup, hchecked, -⟩ := scanConfigMap_eq_ok hresult
    rw [hchecked] at hsite
    obtain ⟨rfl, hne⟩ := (siteLookup_eq_ok hlookup).1 site hsite
    exact gets_last (hlisting listing hperm) hlookup hne
  · intro listing listing' hperm hperm' configs
    have hpairs := @allPairs_perm dump _ _ (hperm.trans hperm'.symm)
    have hsingle := hlisting listing' hperm'
    rw [getConfig_eq, getConfig_eq, lastSiteId, lastSiteFile, hsingle.last_perm hpairs,
      hsingle.last_perm hpairs]
    simp only [answer_perm hsingle hpairs]

/-- When no scan returns there is nothing to compare. -/
theorem selfConsistent_of_neverReturns (h : NeverReturns dump files entries) :
    SelfConsistent dump files entries := by
  have hfails := neverReturns_iff.mp h
  have hscan : ∀ listing, listing.Perm entries → ∀ result,
      scanConfigMap dump files (some listing) ≠ .ok result := by
    intro listing hperm result hresult
    obtain ⟨e, he⟩ := hfails listing hperm
    rw [scanConfigMap_eq, he] at hresult
    cases hresult
  constructor
  · exact fun listing hperm result hresult => absurd hresult (hscan listing hperm result)
  · exact fun listing hperm result hresult => absurd hresult (hscan listing hperm result)
  · intro listing listing' hperm hperm' configs
    obtain ⟨e, he⟩ := hfails listing hperm
    obtain ⟨e', he'⟩ := hfails listing' hperm'
    rw [getConfig_eq, getConfig_eq, he, he']
    rfl

/-- The file that is listed first decides. -/
theorem first_allPairs_cons {entry : Entry} {key value : String}
    (h : (key, value) ∈ entry.pairs dump) (listing : List Entry) :
    first key (allPairs dump (entry :: listing)) = some value := by
  have hcons : allPairs dump (entry :: listing) = entry.pairs dump ++ allPairs dump listing := rfl
  rw [hcons, first_append, (entry.singleValued_pairs dump).first_eq_some_iff.mpr h, Option.some_or]

/-- Two files with different values of a key can be listed either way. -/
theorem exists_perm_cons {key v w : String} (hne : v ≠ w) (hv : (key, v) ∈ allPairs dump entries)
    (hw : (key, w) ∈ allPairs dump entries) : ∃ a b rest, (key, v) ∈ a.pairs dump ∧
      (key, w) ∈ b.pairs dump ∧ (a :: b :: rest).Perm entries := by
  obtain ⟨a, ha, hav⟩ := List.mem_flatMap.mp hv
  obtain ⟨b, hb, hbw⟩ := List.mem_flatMap.mp hw
  have hab : a ≠ b := by
    rintro rfl
    exact hne (a.singleValued_pairs dump key v w hav hbw)
  obtain ⟨rest, hperm⟩ := exists_perm_pair ha hb hab
  exact ⟨a, b, rest, hav, hbw, List.perm_append_comm.trans hperm⟩

/-- **The lookup is self-consistent exactly when no key has different values in the files of the
directory**, or when every scan throws. -/
theorem selfConsistent_iff (dump : Json → String) (files : SiteFiles) (entries : List Entry) :
    SelfConsistent dump files entries ↔
      Consistent dump entries ∨ NeverReturns dump files entries := by
  constructor
  · intro hself
    by_cases hnever : NeverReturns dump files entries
    · exact .inr hnever
    left
    -- one scan returns, so all do
    have hreturns : ∀ listing, listing.Perm entries → ∃ result,
        siteLookup dump files (lastSiteId dump listing) (lastSiteFile dump listing) =
          .ok result := by
      rw [neverReturns_iff] at hnever
      push Not at hnever
      obtain ⟨listing₀, hperm₀, hlookup₀⟩ := hnever
      intro listing hperm
      have horder := hself.order listing₀ listing hperm₀ hperm []
      rw [getConfig_eq, getConfig_eq] at horder
      cases hlookup : siteLookup dump files (lastSiteId dump listing)
        (lastSiteFile dump listing) with
      | ok result => exact ⟨result, rfl⟩
      | error e =>
        rw [hlookup] at horder
        cases hcase : siteLookup dump files (lastSiteId dump listing₀)
            (lastSiteFile dump listing₀) with
        | error e₀ => exact absurd hcase (hlookup₀ e₀)
        | ok result₀ =>
          rw [hcase] at horder
          cases horder
    intro key v w hv hw
    by_contra hne
    obtain ⟨a, b, rest, ha, hb, hperm⟩ := exists_perm_cons hne hv hw
    have hperm' : (b :: a :: rest).Perm entries := (List.Perm.swap a b rest).trans hperm
    obtain ⟨result, hlookup⟩ := hreturns _ hperm
    obtain ⟨result', hlookup'⟩ := hreturns _ hperm'
    have horder := hself.order _ _ hperm hperm' [{ key }]
    rw [gets_of_first hlookup (first_allPairs_cons ha _) { key } rfl,
      gets_of_first hlookup' (first_allPairs_cons hb _) { key } rfl] at horder
    simp only [Except.toOption, Option.some.injEq, Prod.mk.injEq, true_and, List.cons.injEq,
      and_true, RobotConfig.mk.injEq] at horder
    exact hne horder
  · rintro (hconsistent | hnever)
    · exact selfConsistent_of_consistent hconsistent
    · exact selfConsistent_of_neverReturns hnever

/-! ### Two site files -/

/-- A file with a site. -/
def siteEntry : Entry where
  content := .document
    ⟨.object [(siteFileKey, .string "a"), (siteIdKey, .string "1")], by decide⟩

/-- A file with another site file. -/
def otherEntry : Entry where
  content := .document ⟨.object [(siteFileKey, .string "b")], by decide⟩

/-- A global config without sites, and a dns file for each name. -/
def filesSample : SiteFiles where
  globalConfig := some (.document ⟨.object [("site-configs", .array [])], by decide⟩)
  dnsConfig name :=
    .file (.document ⟨.object [("dns", .string name)], by simp [Json.items]⟩)

/-- `GetConfig` returns the site file `a`, and the dns file `b` is appended. -/
theorem getConfig_not_selfConsistent :
    getConfig (fun _ => "") filesSample (some [siteEntry, otherEntry]) [{ key := siteFileKey }] =
        .ok (true, [{ key := siteFileKey, value := "a" }]) ∧
      (∃ result,
        scanConfigMap (fun _ => "") filesSample (some [siteEntry, otherEntry]) = .ok result ∧
          result.appendedDns = some "b") ∧
      ¬ SelfConsistent (fun _ => "") filesSample [siteEntry, otherEntry] := by
  have hget : getConfig (fun _ => "") filesSample (some [siteEntry, otherEntry])
      [{ key := siteFileKey }] = .ok (true, [{ key := siteFileKey, value := "a" }]) := by
    decide +kernel
  obtain ⟨result, hscan, hdns⟩ : ∃ result,
      scanConfigMap (fun _ => "") filesSample (some [siteEntry, otherEntry]) = .ok result ∧
        result.appendedDns = some "b" := ⟨_, rfl, by decide +kernel⟩
  refine ⟨hget, ⟨result, hscan, hdns⟩, fun hself => ?_⟩
  have hgets := hself.dns _ (List.Perm.refl _) result hscan "b" hdns { key := siteFileKey } rfl
  rw [hget] at hgets
  revert hgets
  decide

end AimrtComm.Setting
