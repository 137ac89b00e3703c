import AimrtComm.Setting.Equiv.ConfigManager

/-!
# Bad files

A scan is to return, with the pairs of every good file of the setting directory, whatever the files
are (`Robust`).  It returns exactly when it does not come to a global config, or comes to one that
can be read up to the site and to a dns file with a possible name (`scanConfigMap_ok_iff`).  The
pairs of the directory are then all there but those of a file with a number that is too large, which
is lost as a whole (`robust_iff`).
-/

namespace AimrtComm.Setting

open FirstLast

/-- A pair is in what is returned: its value has a text and stands beside the key.  There is no text
for a number that is too large. -/
def HasPair (dump : Json → String) (configMap : List (String × String)) (field : String × Json) :
    Prop :=
  field.2.fits = true ∧ (field.1, valueTmp dump field.2) ∈ configMap

/-- The scan returns, and what it returns has all pairs of every json file whose top level is an
object. -/
def Robust (dump : Json → String) (files : SiteFiles) (settingConfig : Option (List Entry)) :
    Prop :=
  ∃ result, scanConfigMap dump files settingConfig = .ok result ∧
    ∀ listing, settingConfig = some listing → ∀ entry ∈ listing,
      entry.isRegularFile = true → entry.extension = ".json" →
        ∀ cfgfile fields, entry.content = .document cfgfile → cfgfile.root = .object fields →
          ∀ field ∈ fields, HasPair dump result.configMap field

/-! ### What can be read of a global config -/

/-- An object whose field of this key is this text, or is missing and the text is empty. -/
def HasText (json : Json) (key text : String) : Prop :=
  ∃ fields, json = .object fields ∧
    ((∃ name, (fields.find? fun field => field.1 = key) = some (name, .string text)) ∨
      (fields.find? fun field => field.1 = key) = none ∧ text = "")

/-- Every site up to the one of this id can be read. -/
def SitesReadable (siteId : String) (sites : List Json) : Prop :=
  ∀ before site after, sites = before ++ site :: after →
    (∀ earlier ∈ before, ¬ HasText earlier "site_id" siteId) →
      ∃ text, HasText site "site_id" text ∧
        (text = siteId → ∃ file, HasText site "site_file" file)

/-- The sites are there, and can be read up to the one of this id. -/
def SiteReadable (siteId : String) (globalConfig : Json) : Prop :=
  ∃ fields name sites, globalConfig = .object fields ∧
    (fields.find? fun field => field.1 = "site-configs") = some (name, sites) ∧
      SitesReadable siteId sites.elements

/-- The global config and the dns files do no harm to the scan of these entries. -/
inductive Harmless (dump : Json → String) (files : SiteFiles) (listing : List Entry) : Prop where
  | noSiteId (h : lastSiteId dump listing = "")
  | noSiteFile (h : lastSiteFile dump listing = "")
  | missing (h : files.globalConfig = none)
  | malformed (h : files.globalConfig = some (.malformed false))
  | readable (globalConfig : Document) (h : files.globalConfig = some (.document globalConfig))
      (hfits : globalConfig.root.fits = true)
      (hsite : SiteReadable (lastSiteId dump listing) globalConfig.root)
      (hdns : files.dnsConfig (lastSiteFile dump listing) ≠ .noStatus)

/-- No json file of the directory is an object with a number that is too large. -/
def NoHugeNumber (listing : List Entry) : Prop :=
  ∀ entry ∈ listing, entry.isRegularFile = true → entry.extension = ".json" →
    ∀ cfgfile fields, entry.content = .document cfgfile → cfgfile.root = .object fields →
      cfgfile.root.fits = true

theorem value_eq_ok_iff (json : Json) (key text : String) :
    json.value key = .ok text ↔ HasText json key text := by
  unfold Json.value HasText
  cases json with
  | object fields =>
    simp only [Json.object.injEq, exists_eq_left']
    cases hfield : fields.find? fun field => field.1 = key with
    | none => simp [eq_comm]
    | some field =>
      obtain ⟨name, value⟩ := field
      cases value <;> simp
  | _ => simp

theorem HasText.unique {json : Json} {key text text' : String} (h : HasText json key text)
    (h' : HasText json key text') : text = text' := by
  rw [← value_eq_ok_iff] at h h'
  exact Except.ok.inj (h.symm.trans h')

theorem sitesReadable_cons (siteId : String) (site : Json) (sites : List Json) :
    SitesReadable siteId (site :: sites) ↔
      ∃ text, HasText site "site_id" text ∧
        (text = siteId → ∃ file, HasText site "site_file" file) ∧
          (text ≠ siteId → SitesReadable siteId sites) := by
  constructor
  · intro h
    obtain ⟨text, htext, hfile⟩ := h [] site sites rfl (by simp)
    refine ⟨text, htext, hfile, ?_⟩
    intro hne before site' after heq hbefore
    refine h (site :: before) site' after (by rw [heq]; rfl) ?_
    intro earlier hearlier
    obtain rfl | hearlier := List.mem_cons.mp hearlier
    · intro hid
      exact hne (htext.unique hid)
    · exact hbefore earlier hearlier
  · rintro ⟨text, htext, hfile, hrest⟩ before site' after heq hbefore
    cases before with
    | nil =>
      obtain ⟨rfl, rfl⟩ := List.cons.inj heq
      exact ⟨text, htext, hfile⟩
    | cons first before =>
      obtain ⟨rfl, rfl⟩ := List.cons.inj heq
      have hne : text ≠ siteId := by
        rintro rfl
        exact hbefore site List.mem_cons_self htext
      exact hrest hne before site' after rfl fun earlier hearlier =>
        hbefore earlier (List.mem_cons_of_mem _ hearlier)

/-- The loop over the sites comes to its end exactly when it can read what it comes to. -/
theorem expectedSiteFile_ok_iff (siteId : String) (sites : List Json) :
    (∃ expected, expectedSiteFile siteId sites = .ok expected) ↔ SitesReadable siteId sites := by
  induction sites with
  | nil =>
    refine iff_of_true ⟨none, rfl⟩ ?_
    intro before site after heq
    simp at heq
  | cons site sites ih =>
    rw [sitesReadable_cons, expectedSiteFile]
    cases hid : site.value "site_id" with
    | error e =>
      have hnone : ¬ ∃ text, HasText site "site_id" text := by
        rintro ⟨text, htext⟩
        rw [← value_eq_ok_iff, hid] at htext
        cases htext
      refine iff_of_false ?_ ?_
      · rintro ⟨expected, hexpected⟩
        cases hexpected
      · rintro ⟨text, htext, -⟩
        exact hnone ⟨text, htext⟩
    | ok text =>
      have htext := (value_eq_ok_iff _ _ _).mp hid
      have hunique : ∀ P : String → Prop,
          (∃ text', HasText site "site_id" text' ∧ P text') ↔ P text := by
        intro P
        constructor
        · rintro ⟨text', htext', hP⟩
          rwa [htext.unique htext']
        · intro hP
          exact ⟨text, htext, hP⟩
      rw [hunique]
      show (∃ expected, (if text = siteId then do return some (← site.value "site_file")
        else expectedSiteFile siteId sites) = .ok expected) ↔ _
      by_cases heq : text = siteId
      · rw [if_pos heq]
        simp only [heq, ne_eq, not_true, false_implies, and_true, true_implies,
          ← value_eq_ok_iff]
        cases site.value "site_file" with
        | error e => simp [bind, Except.bind]
        | ok file => simp [bind, Except.bind, pure, Except.pure]
      · rw [if_neg heq, ih]
        simp [heq]

/-- The check of a site succeeds exactly when the global config can be read. -/
theorem checkSite_ok_iff (globalConfig : Json) (siteId : String) :
    (∃ expected, checkSite globalConfig siteId = .ok expected) ↔
      SiteReadable siteId globalConfig := by
  unfold checkSite Json.at? SiteReadable
  cases globalConfig with
  | object fields =>
    simp only [Json.object.injEq]
    cases hfield : fields.find? fun field => field.1 = "site-configs" with
    | none => simp [bind, Except.bind, hfield]
    | some field =>
      obtain ⟨name, sites⟩ := field
      simp only [bind, Except.bind, expectedSiteFile_ok_iff]
      constructor
      · intro hread
        exact ⟨fields, name, sites, rfl, hfield, hread⟩
      · rintro ⟨_, name', sites', rfl, hfield', hread⟩
        obtain ⟨rfl, rfl⟩ : name = name' ∧ sites = sites' := by
          simpa using hfield.symm.trans hfield'
        exact hread
  | _ => simp [bind, Except.bind]

theorem checkSite_error_iff (siteId : String) (globalConfig : Json) :
    (∃ e, checkSite globalConfig siteId = .error e) ↔ ¬ SiteReadable siteId globalConfig := by
  rw [← checkSite_ok_iff]
  cases checkSite globalConfig siteId <;> simp

/-! ### When a scan returns -/

section

variable {dump : Json → String} {files : SiteFiles} {listing : List Entry}

/-- Other files that do no harm let the site of a scan not fail. -/
theorem Harmless.not_siteFails (h : Harmless dump files listing) :
    ¬ SiteFails files (lastSiteId dump listing) (lastSiteFile dump listing) := by
  rintro ⟨hid, hfile, content, hcontent, hfails⟩
  cases h with
  | noSiteId hempty => exact hid hempty
  | noSiteFile hempty => exact hfile hempty
  | missing hglobal => simp [hglobal] at hcontent
  | malformed hglobal =>
    obtain rfl := Option.some.inj (hglobal.symm.trans hcontent)
    simp [Content.parse] at hfails
  | readable globalConfig hglobal hfits hsite hdns =>
    obtain rfl := Option.some.inj (hglobal.symm.trans hcontent)
    have hparse : (Content.document globalConfig).parse = .ok globalConfig := if_pos hfits
    rw [hparse] at hfails
    rcases hfails with hrange | ⟨_, hok, herror | hnoStatus⟩
    · exact nomatch hrange
    · obtain rfl := Except.ok.inj hok
      exact (checkSite_error_iff _ _).mp herror hsite
    · exact hdns hnoStatus

/-- A global config that lets no site of a scan fail does no harm. -/
theorem harmless_of_not_siteFails
    (h : ¬ SiteFails files (lastSiteId dump listing) (lastSiteFile dump listing)) :
    Harmless dump files listing := by
  by_cases hid : lastSiteId dump listing = ""
  · exact .noSiteId hid
  by_cases hfile : lastSiteFile dump listing = ""
  · exact .noSiteFile hfile
  cases hglobal : files.globalConfig with
  -- the site is looked for, so all depends on the global config and on the dns path
  | none => exact .missing hglobal
  | some content =>
    have hrange : content.parse ≠ .error .outOfRange :=
      fun hparse => h ⟨hid, hfile, content, hglobal, .inl hparse⟩
    cases content with
    | malformed afterHugeNumber =>
      cases afterHugeNumber with
      | false => exact .malformed hglobal
      | true => exact absurd rfl hrange
    | document globalConfig =>
      have hfits : globalConfig.root.fits = true := by
        by_contra hhuge
        exact hrange (if_neg hhuge)
      have hread : ¬ ((∃ e, checkSite globalConfig.root (lastSiteId dump listing) = .error e) ∨
          files.dnsConfig (lastSiteFile dump listing) = .noStatus) :=
        fun hfails => h ⟨hid, hfile, _, hglobal, .inr ⟨globalConfig, if_pos hfits, hfails⟩⟩
      rw [not_or, checkSite_error_iff, not_not] at hread
      exact .readable globalConfig hglobal hfits hread.1 hread.2

/-- The site of a scan does not fail exactly when the other files do no harm. -/
theorem not_siteFails_iff :
    ¬ SiteFails files (lastSiteId dump listing) (lastSiteFile dump listing) ↔
      Harmless dump files listing :=
  ⟨harmless_of_not_siteFails, Harmless.not_siteFails⟩

/-- A scan of a directory returns exactly when the other files do no harm. -/
theorem scanConfigMap_ok_iff :
    (∃ result, scanConfigMap dump files (some listing) = .ok result) ↔
      Harmless dump files listing := by
  rw [← not_siteFails_iff, ← @siteLookup_eq_error_iff dump, scanConfigMap_eq]
  cases siteLookup dump files (lastSiteId dump listing) (lastSiteFile dump listing) with
  | error e => simp [Except.map]
  | ok result => simp [Except.map]

/-- Whatever a scan returns begins with the pairs of the directory. -/
theorem exists_dns_of_scanConfigMap {result : ScanResult}
    (h : scanConfigMap dump files (some listing) = .ok result) :
    ∃ dns, result.configMap = allPairs dump listing ++ dns := by
  rw [scanConfigMap_eq] at h
  cases hlookup : siteLookup dump files (lastSiteId dump listing) (lastSiteFile dump listing) with
  | error e =>
    rw [hlookup] at h
    cases h
  | ok result' =>
    rw [hlookup] at h
    obtain rfl := Except.ok.inj h
    exact ⟨result'.configMap, rfl⟩

theorem fitsFields_iff {fields : List (String × Json)} :
    Json.fitsFields fields = true ↔ ∀ field ∈ fields, field.2.fits = true := by
  induction fields with
  | nil => simp [Json.fitsFields]
  | cons field fields ih =>
    obtain ⟨key, value⟩ := field
    rw [Json.fitsFields, Bool.and_eq_true, ih]
    simp

/-- All pairs of a file without a number that is too large are pairs of the directory. -/
theorem mem_allPairs {entry : Entry} (hentry : entry ∈ listing)
    (hregular : entry.isRegularFile = true) (hextension : entry.extension = ".json")
    {cfgfile : Document} {fields : List (String × Json)}
    (hcontent : entry.content = .document cfgfile) (hroot : cfgfile.root = .object fields)
    (hfits : cfgfile.root.fits = true) {field : String × Json} (hfield : field ∈ fields) :
    (field.1, valueTmp dump field.2) ∈ allPairs dump listing := by
  have hparse : (Content.document cfgfile).parse = .ok cfgfile := if_pos hfits
  refine List.mem_flatMap.mpr ⟨entry, hentry, ?_⟩
  unfold Entry.pairs
  rw [hregular, hextension, hcontent, hparse]
  simp only [Bool.not_true, Bool.false_or, ne_eq, not_true, decide_false, Bool.false_eq_true,
    if_false]
  unfold Document.pairs
  rw [hroot]
  exact List.mem_map_of_mem hfield

end

/-- **A scan is robust exactly when the global config and the dns files do no harm to it, and no
object of the directory has a number that is too large.** -/
theorem robust_iff (dump : Json → String) (files : SiteFiles)
    (settingConfig : Option (List Entry)) :
    Robust dump files settingConfig ↔ ∀ listing, settingConfig = some listing →
      Harmless dump files listing ∧ NoHugeNumber listing := by
  constructor
  · rintro ⟨result, hscan, hpairs⟩ listing rfl
    refine ⟨scanConfigMap_ok_iff.mp ⟨result, hscan⟩, ?_⟩
    intro entry hentry hregular hextension cfgfile fields hcontent hroot
    rw [hroot]
    refine fitsFields_iff.mpr fun field hfield => ?_
    exact (hpairs listing rfl entry hentry hregular hextension cfgfile fields hcontent hroot
      field hfield).1
  · intro hgood
    cases settingConfig with
    | none => exact ⟨_, rfl, fun listing hsome => nomatch hsome⟩
    | some listing =>
      obtain ⟨hharmless, hhuge⟩ := hgood listing rfl
      obtain ⟨result, hscan⟩ := scanConfigMap_ok_iff.mpr hharmless
      refine ⟨result, hscan, ?_⟩
      intro listing' hlisting' entry hentry hregular hextension cfgfile fields hcontent hroot
        field hfield
      obtain rfl := Option.some.inj hlisting'
      obtain ⟨dns, hdns⟩ := exists_dns_of_scanConfigMap hscan
      have hfits := hhuge entry hentry hregular hextension cfgfile fields hcontent hroot
      have hfields : Json.fitsFields fields = true := by rwa [hroot] at hfits
      refine ⟨fitsFields_iff.mp hfields field hfield, ?_⟩
      rw [hdns]
      exact List.mem_append_left dns
        (mem_allPairs hentry hregular hextension hcontent hroot hfits hfield)

/-- A global config that is `{}`. -/
def noSites : SiteFiles where
  globalConfig := some (.document ⟨.object [], by decide⟩)
  dnsConfig _ := .missing

/-- A site and a global config that is `{}`. -/
theorem scan_throws_without_sites :
    scanConfigMap (fun _ => "") noSites (some [siteEntry]) = .error .outOfRange ∧
      ¬ ∀ dump files settingConfig, Robust dump files settingConfig := by
  have hthrows : scanConfigMap (fun _ => "") noSites (some [siteEntry]) = .error .outOfRange := by
    decide
  refine ⟨hthrows, ?_⟩
  intro hall
  obtain ⟨result, hscan, -⟩ := hall (fun _ => "") noSites (some [siteEntry])
  rw [hthrows] at hscan
  cases hscan

end AimrtComm.Setting
