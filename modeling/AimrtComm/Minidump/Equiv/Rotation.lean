import AimrtComm.Minidump.Equiv.Pattern
import Mathlib.Data.List.Perm.Subperm

/-!
# Rotation keeps the newest dumps of the program, and those of all others

`Rotates rest prog`: whatever dumps are in the directory, of this program and of others, a
`DumpCallback` of `prog` leaves its new dump, the newest of its earlier ones and all of the others.

It does so exactly when the pattern made of the program name is read as it is meant
(`rotates_iff`).
-/

namespace AimrtComm.Minidump

open Regex (regex)

/-- What `after` holds when the `k - 1` newest of the earlier dumps of `prog` are kept. -/
structure Rotated (prog : String) (k : ℕ) (dumps removed kept : List DumpName) (new : String)
    (after : List String) : Prop where
  split : (removed ++ kept).Perm (dumps.filter fun d => d.prog = prog)
  length_kept : kept.length = min (k - 1) (dumps.filter fun d => d.prog = prog).length
  newest : ∀ d ∈ removed, ∀ d' ∈ kept, d.stamp ≤ d'.stamp
  mem_iff : ∀ name, name ∈ after ↔
    name = new ∨ (∃ d ∈ kept, d.text = name) ∨ ∃ d ∈ dumps, d.prog ≠ prog ∧ d.text = name
  at_most : ∀ own : List DumpName, own.Nodup → (∀ d ∈ own, d.prog = prog ∧ d.text ∈ after) →
    own.length ≤ k

/-- `DumpCallback` of `prog` leaves the dumps it is to leave, for every set of dumps and every count
of at least one.  The file that breakpad wrote has no underscore in its name. -/
def Rotates (rest : String → Option (String → Bool)) (prog : String) : Prop :=
  ∀ (α : Type) (dumps : List DumpName) (descriptor : String) (dir : DumpDir α)
    (maxDumpCount : Int32) (succeeded : Bool) (tvSec pid : ℕ),
    1 ≤ maxDumpCount.toInt → '_' ∉ descriptor.toList → (dir.map Prod.fst).Nodup →
    (dir.map Prod.fst).Perm (descriptor :: dumps.map DumpName.text) →
    ∃ after removed kept,
      dumpCallback rest prog maxDumpCount descriptor succeeded tvSec pid dir =
          some (after, succeeded) ∧
        Rotated prog maxDumpCount.toInt.toNat dumps removed kept (dumpFileName prog tvSec pid)
          (after.map Prod.fst)

/-- A name that a program file can have. -/
def LegalName (prog : String) : Prop :=
  prog ≠ "" ∧ prog ≠ "." ∧ prog ≠ ".." ∧ '/' ∉ prog.toList ∧ '\x00' ∉ prog.toList

/-! ### Removing and renaming -/

section Directory

variable {α : Type} {dir : DumpDir α}

theorem foldl_removeFile (victims : List String) :
    victims.foldl (fun dir name => removeFile name dir) dir =
      dir.filter fun file => file.1 ∉ victims := by
  induction victims generalizing dir with
  | nil => simp
  | cons name victims ih =>
    rw [List.foldl_cons, ih, removeFile, List.filter_filter]
    congr 1
    funext file
    simp [Bool.and_comm]

theorem mem_removeFile {name victim : String} :
    name ∈ (removeFile victim dir).map Prod.fst ↔ name ∈ dir.map Prod.fst ∧ name ≠ victim := by
  simp only [removeFile, List.mem_map, List.mem_filter, decide_eq_true_eq]
  constructor
  · rintro ⟨file, ⟨hfile, hne⟩, rfl⟩
    exact ⟨⟨file, hfile, rfl⟩, hne⟩
  · rintro ⟨⟨file, hfile, rfl⟩, hne⟩
    exact ⟨file, ⟨hfile, hne⟩, rfl⟩

theorem mem_renameFile {old new name : String} (h : old ∈ dir.map Prod.fst) :
    name ∈ (renameFile old new dir).map Prod.fst ↔
      name = new ∨ name ∈ dir.map Prod.fst ∧ name ≠ old := by
  obtain ⟨file, hfile, hold⟩ := List.mem_map.mp h
  have hfound : ∃ found, dir.find? (fun file => file.1 = old) = some found := by
    rw [← Option.isSome_iff_exists, List.find?_isSome]
    exact ⟨file, hfile, by simpa using hold⟩
  obtain ⟨found, hfound⟩ := hfound
  rw [renameFile, hfound]
  simp only [List.map_append, List.map_cons, List.map_nil, List.mem_append, List.mem_singleton,
    mem_removeFile]
  by_cases hnew : name = new
  · simp [hnew]
  · simp [hnew]

theorem renameFile_of_not_mem {old new : String} (h : old ∉ dir.map Prod.fst) :
    renameFile old new dir = dir := by
  have hnone : dir.find? (fun file => file.1 = old) = none := by
    rw [List.find?_eq_none]
    intro file hfile heq
    rw [decide_eq_true_eq] at heq
    exact h (List.mem_map.mpr ⟨file, hfile, heq⟩)
  rw [renameFile, hnone]

end Directory

theorem dumpPath_injective : Function.Injective dumpPath := DumpName.dumpPath_strictMono.injective

theorem keepCountOf_eq {k : Int32} (h : 1 ≤ k.toInt) : keepCountOf k = k.toInt.toNat - 1 := by
  have hlt := k.toInt_lt
  rw [keepCountOf]
  omega

/-! ### The dumps of the program in order -/

/-- The dumps of the program, the oldest path first. -/
def ownSorted (prog : String) (dumps : List DumpName) : List DumpName :=
  (dumps.filter fun d => d.prog = prog).insertionSort fun d d' =>
    dumpPath d.text ≤ dumpPath d'.text

theorem perm_ownSorted (prog : String) (dumps : List DumpName) :
    (ownSorted prog dumps).Perm (dumps.filter fun d => d.prog = prog) :=
  List.perm_insertionSort _ _

theorem mem_ownSorted {prog : String} {dumps : List DumpName} {d : DumpName} :
    d ∈ ownSorted prog dumps ↔ d ∈ dumps ∧ d.prog = prog := by
  rw [(perm_ownSorted prog dumps).mem_iff, List.mem_filter, decide_eq_true_eq]

/-- Sorting by the path of something sorts. -/
theorem pairwise_sortPath {β : Type} (name : β → String) (l : List β) :
    (l.insertionSort fun b b' => dumpPath (name b) ≤ dumpPath (name b')).Pairwise fun b b' =>
      dumpPath (name b) ≤ dumpPath (name b') := by
  have htotal : Std.Total fun b b' : β => dumpPath (name b) ≤ dumpPath (name b') :=
    ⟨fun _ _ => le_total _ _⟩
  have htrans : IsTrans β fun b b' => dumpPath (name b) ≤ dumpPath (name b') :=
    ⟨fun _ _ _ h h' => le_trans h h'⟩
  exact List.pairwise_insertionSort _ _

/-- What the pattern finds among the files is the dumps of the program. -/
theorem perm_matchingFiles {prog : String} {dumps : List DumpName} {descriptor : String}
    {names : List String} {pattern : String → Bool}
    (hown : ∀ d : DumpName, pattern d.text = decide (d.prog = prog))
    (hdescriptor : pattern descriptor = false)
    (hnames : names.Perm (descriptor :: dumps.map DumpName.text)) :
    (names.filter pattern).Perm ((ownSorted prog dumps).map DumpName.text) := by
  have hfilter : (descriptor :: dumps.map DumpName.text).filter pattern =
      (dumps.filter fun d => d.prog = prog).map DumpName.text := by
    rw [List.filter_cons_of_neg (by simp [hdescriptor]), List.filter_map]
    congr 2
    funext d
    exact hown d
  have hfound := hnames.filter pattern
  rw [hfilter] at hfound
  exact hfound.trans ((perm_ownSorted prog dumps).map DumpName.text).symm

/-- The files that are going to be removed are the oldest dumps of the program. -/
theorem oldestDumps_eq {α : Type} {rest : String → Option (String → Bool)} {prog : String}
    {dumps : List DumpName} {descriptor : String} {dir : DumpDir α} {pattern : String → Bool}
    (hpattern : regex rest (dumpPattern prog) = some pattern)
    (hown : ∀ d : DumpName, pattern d.text = decide (d.prog = prog))
    (hdescriptor : pattern descriptor = false)
    (hnames : (dir.map Prod.fst).Perm (descriptor :: dumps.map DumpName.text)) (keepCount : ℕ) :
    oldestDumps rest prog keepCount dir =
      some (((ownSorted prog dumps).take ((ownSorted prog dumps).length - keepCount)).map
        DumpName.text) := by
  have hperm := perm_matchingFiles hown hdescriptor hnames
  have hsorted : ((dir.map Prod.fst).filter pattern).insertionSort
      (fun name name' => dumpPath name ≤ dumpPath name') =
        (ownSorted prog dumps).map DumpName.text := by
    apply List.Perm.eq_of_pairwise
      (fun _ _ _ _ h h' => dumpPath_injective (le_antisymm h h'))
      (pairwise_sortPath id _) _ ((List.perm_insertionSort _ _).trans hperm)
    rw [List.pairwise_map]
    exact pairwise_sortPath DumpName.text _
  rw [oldestDumps, matchingFiles, hpattern]
  simp only [Option.map_some, hsorted, List.length_map, List.map_take]

/-- Dumps whose names are distinct are distinct themselves. -/
theorem nodup_of_map_text {dumps : List DumpName} (h : (dumps.map DumpName.text).Nodup) :
    dumps.Nodup := h.of_map

/-- A directory with some dumps of a program, a new one and dumps of other programs has no more
dumps of the program. -/
theorem length_own_le {prog new : String} {dumps kept own : List DumpName} {after : List String}
    (hafter : ∀ name, name ∈ after ↔ name = new ∨ (∃ d ∈ kept, d.text = name) ∨
      ∃ d ∈ dumps, d.prog ≠ prog ∧ d.text = name)
    (hnodup : own.Nodup) (hmem : ∀ d ∈ own, d.prog = prog ∧ d.text ∈ after) :
    own.length ≤ kept.length + 1 := by
  have hsub : own.map DumpName.text ⊆ new :: kept.map DumpName.text := by
    intro name hname
    obtain ⟨d, hd, rfl⟩ := List.mem_map.mp hname
    obtain ⟨hprog, hin⟩ := hmem d hd
    -- a dump of the program is the new one or a kept one: other programs have other names
    rcases (hafter _).mp hin with heq | ⟨d', hd', htext⟩ | ⟨d', -, hother, htext⟩
    · rw [heq]
      exact List.mem_cons_self
    · exact List.mem_cons_of_mem _ (List.mem_map.mpr ⟨d', hd', htext⟩)
    · rw [DumpName.text_inj htext] at hother
      exact absurd hprog hother
  have hnames : (own.map DumpName.text).Nodup :=
    hnodup.map fun _ _ heq => DumpName.text_inj heq
  have hle := (List.subperm_of_subset hnames hsub).length_le
  rwa [List.length_map, List.length_cons, List.length_map] at hle

/-- The oldest dumps removed and the new one added is a rotation. -/
theorem rotated_of_split {prog new : String} {k : ℕ} {dumps removed kept : List DumpName}
    {after : List String} (hk : 1 ≤ k) (hnodup : (dumps.map DumpName.text).Nodup)
    (hsplit : removed ++ kept = ownSorted prog dumps)
    (hlength : kept.length = min (k - 1) (ownSorted prog dumps).length)
    (hmem : ∀ name, name ∈ after ↔ name = new ∨
      ∃ d ∈ dumps, d ∉ removed ∧ d.text = name) :
    Rotated prog k dumps removed kept new after := by
  have hperm := perm_ownSorted prog dumps
  have hown : ∀ d, d ∈ removed ∨ d ∈ kept ↔ d ∈ dumps ∧ d.prog = prog := by
    intro d
    rw [← List.mem_append, hsplit, mem_ownSorted]
  have hdisjoint : ∀ d ∈ kept, d ∉ removed := by
    have hown := hperm.nodup_iff.mpr ((nodup_of_map_text hnodup).filter _)
    rw [← hsplit, List.nodup_append] at hown
    intro d hkept hremoved
    exact hown.2.2 d hremoved d hkept rfl
  have hafter : ∀ name, name ∈ after ↔
      name = new ∨ (∃ d ∈ kept, d.text = name) ∨ ∃ d ∈ dumps, d.prog ≠ prog ∧ d.text = name := by
    intro name
    rw [hmem]
    refine or_congr_right ?_
    constructor
    · rintro ⟨d, hd, hremoved, htext⟩
      by_cases hprog : d.prog = prog
      · exact .inl ⟨d, ((hown d).mpr ⟨hd, hprog⟩).resolve_left hremoved, htext⟩
      · exact .inr ⟨d, hd, hprog, htext⟩
    · rintro (⟨d, hd, htext⟩ | ⟨d, hd, hprog, htext⟩)
      · exact ⟨d, ((hown d).mp (.inr hd)).1, hdisjoint d hd, htext⟩
      · exact ⟨d, hd, fun hremoved => hprog ((hown d).mp (.inl hremoved)).2, htext⟩
  exact
    { split := by
        rw [hsplit]
        exact hperm
      length_kept := by rw [hlength, hperm.length_eq]
      newest := by
        intro d hd d' hd'
        -- the removed ones stand before the kept ones in the sorted list
        have hsorted : (removed ++ kept).Pairwise fun d d' =>
            dumpPath d.text ≤ dumpPath d'.text := by
          rw [hsplit]
          exact pairwise_sortPath DumpName.text _
        apply DumpName.stamp_le_of_dumpPath_le
        · rw [((hown d).mp (.inl hd)).2, ((hown d').mp (.inr hd')).2]
        · exact (List.pairwise_append.mp hsorted).2.2 d hd d' hd'
      mem_iff := hafter
      at_most := by
        intro own hnodup hmem
        have hle := length_own_le hafter hnodup hmem
        omega }

/-- What is in the directory after files were removed. -/
theorem mem_foldl_removeFile {α : Type} {removed : List String} {dir : DumpDir α} (name : String) :
    name ∈ (removed.foldl (fun dir name => removeFile name dir) dir).map Prod.fst ↔
      name ∈ dir.map Prod.fst ∧ name ∉ removed := by
  rw [foldl_removeFile]
  simp only [List.mem_map, List.mem_filter, decide_eq_true_eq]
  constructor
  · rintro ⟨file, ⟨hfile, hnot⟩, rfl⟩
    exact ⟨⟨file, hfile, rfl⟩, hnot⟩
  · rintro ⟨⟨file, hfile, rfl⟩, hnot⟩
    exact ⟨file, ⟨hfile, hnot⟩, rfl⟩

/-- What is in the directory after the dumps were removed and the new one was renamed. -/
theorem mem_after {α : Type} {dumps removed : List DumpName} {descriptor new : String}
    {dir : DumpDir α} (hdescriptor : '_' ∉ descriptor.toList)
    (hnames : (dir.map Prod.fst).Perm (descriptor :: dumps.map DumpName.text)) (name : String) :
    name ∈ (renameFile descriptor new ((removed.map DumpName.text).foldl
        (fun dir name => removeFile name dir) dir)).map Prod.fst ↔
      name = new ∨ ∃ d ∈ dumps, d ∉ removed ∧ d.text = name := by
  have hne : ∀ d : DumpName, d.text ≠ descriptor := by
    -- a dump has an underscore in its name, the descriptor has none
    rintro d rfl
    exact hdescriptor d.underscore_mem_text
  have hthere : descriptor ∈ ((removed.map DumpName.text).foldl
      (fun dir name => removeFile name dir) dir).map Prod.fst := by
    rw [mem_foldl_removeFile, hnames.mem_iff]
    refine ⟨List.mem_cons_self, ?_⟩
    intro hremoved
    obtain ⟨d, -, htext⟩ := List.mem_map.mp hremoved
    exact hne d htext
  rw [mem_renameFile hthere, mem_foldl_removeFile, hnames.mem_iff, List.mem_cons]
  refine or_congr_right ?_
  constructor
  · rintro ⟨⟨rfl | hmem, hnot⟩, hother⟩
    · exact absurd rfl hother
    · obtain ⟨d, hd, rfl⟩ := List.mem_map.mp hmem
      exact ⟨d, hd, fun hremoved => hnot (List.mem_map_of_mem hremoved), rfl⟩
  · rintro ⟨d, hd, hremoved, rfl⟩
    refine ⟨⟨.inr (List.mem_map_of_mem hd), ?_⟩, hne d⟩
    intro hmem
    obtain ⟨d', hd', htext⟩ := List.mem_map.mp hmem
    exact hremoved (DumpName.text_inj htext ▸ hd')

/-- **With its pattern read as it is meant, a program rotates its dumps.** -/
theorem rotates_of_ownPattern {rest : String → Option (String → Bool)} {prog : String}
    (h : OwnPattern rest prog) : Rotates rest prog := by
  intro α dumps descriptor dir k succeeded tvSec pid hk hdescriptor hnodup hnames
  obtain ⟨pattern, hpattern, hown, hother⟩ := h
  have hold := oldestDumps_eq hpattern hown (hother descriptor hdescriptor) hnames
    (k.toInt.toNat - 1)
  have hk0 : k ≠ 0 := by
    rintro rfl
    exact absurd hk (by decide)
  have htexts : (dumps.map DumpName.text).Nodup :=
    (List.nodup_cons.mp (hnames.nodup_iff.mp hnodup)).2
  have hcallback : dumpCallback rest prog k descriptor succeeded tvSec pid dir =
      some (renameFile descriptor (dumpFileName prog tvSec pid)
        ((((ownSorted prog dumps).take ((ownSorted prog dumps).length - (k.toInt.toNat - 1))).map
          DumpName.text).foldl (fun dir name => removeFile name dir) dir), succeeded) := by
    rw [dumpCallback, if_neg hk0, removeOldestDumps, keepCountOf_eq hk, hold]
    rfl
  refine ⟨_, _, _, hcallback, rotated_of_split (by omega) htexts (List.take_append_drop _ _) ?_
    (mem_after hdescriptor hnames)⟩
  rw [List.length_drop]
  omega

/-! ### Rotating makes the pattern right -/

section Necessary

variable {rest : String → Option (String → Bool)} {prog : String}

/-- With one dump to keep, every file that matches is removed. -/
theorem dumpCallback_one {pattern : String → Bool} {descriptor : String} {dir : DumpDir Unit}
    (hpattern : regex rest (dumpPattern prog) = some pattern) (tvSec pid : ℕ) :
    dumpCallback rest prog 1 descriptor true tvSec pid dir =
      some (renameFile descriptor (dumpFileName prog tvSec pid)
        (dir.filter fun file => !pattern file.1), true) := by
  have hkeep : keepCountOf 1 = 0 := by decide
  have hstays : ∀ file ∈ dir, decide (file.1 ∉ ((dir.map Prod.fst).filter pattern).insertionSort
      fun name name' => dumpPath name ≤ dumpPath name') = !pattern file.1 := by
    intro file hfile
    have hname : file.1 ∈ dir.map Prod.fst := List.mem_map_of_mem hfile
    rw [Bool.eq_iff_iff, decide_eq_true_eq, (List.perm_insertionSort _ _).mem_iff,
      List.mem_filter, and_iff_right hname]
    simp
  rw [dumpCallback, if_neg (by decide), removeOldestDumps, hkeep, oldestDumps, matchingFiles,
    hpattern]
  simp only [Option.map_some, Nat.sub_zero, List.take_length, foldl_removeFile]
  rw [List.filter_congr hstays]

theorem exists_pattern_of_rotates (h : Rotates rest prog) :
    ∃ pattern, regex rest (dumpPattern prog) = some pattern := by
  obtain ⟨after, -, -, hcallback, -⟩ := h Unit [] "x" [("x", ())] 1 true 0 0 (by decide) (by decide)
    (by decide) (List.Perm.refl _)
  cases hpattern : regex rest (dumpPattern prog) with
  | some pattern => exact ⟨pattern, rfl⟩
  | none =>
    rw [dumpCallback, if_neg (by decide), removeOldestDumps, oldestDumps, matchingFiles,
      hpattern] at hcallback
    cases hcallback

/-- What breakpad has written is not matched, or it would be removed. -/
theorem not_match_descriptor (h : Rotates rest prog) {pattern : String → Bool}
    (hpattern : regex rest (dumpPattern prog) = some pattern) {name : String}
    (hname : '_' ∉ name.toList) : pattern name = false := by
  obtain ⟨after, removed, kept, hcallback, hrotated⟩ := h Unit [] name [(name, ())] 1 true 0 0
    (by decide) hname (List.nodup_singleton _) (List.Perm.refl _)
  rw [dumpCallback_one hpattern] at hcallback
  have hafter := (Prod.mk.inj (Option.some.inj hcallback)).1
  by_contra hmatch
  rw [Bool.not_eq_false] at hmatch
  have hgone : ([(name, ())] : DumpDir Unit).filter (fun file => !pattern file.1) = [] := by
    simp [hmatch]
  rw [hgone, renameFile_of_not_mem (by simp)] at hafter
  have hnew := (hrotated.mem_iff (dumpFileName prog 0 0)).mpr (.inl rfl)
  rw [← hafter] at hnew
  cases hnew

/-- A dump is matched when it is removed to make place for a new one. -/
theorem match_text_iff (h : Rotates rest prog) {pattern : String → Bool}
    (hpattern : regex rest (dumpPattern prog) = some pattern) (d : DumpName) :
    pattern d.text = decide (d.prog = prog) := by
  -- a new dump of another name
  obtain ⟨pid, hpid⟩ : ∃ pid, d.text ≠ dumpFileName prog 1700000000 pid := by
    by_contra hall
    rw [not_exists] at hall
    have heq := (not_not.mp (hall 0)).symm.trans (not_not.mp (hall 1))
    simp only [dumpFileName, String.append_left_inj, String.append_right_inj] at heq
    exact absurd heq (by decide)
  have hx : pattern "x" = false := not_match_descriptor h hpattern (by decide)
  have hne : d.text ≠ "x" := by
    intro heq
    have hmem := d.underscore_mem_text
    rw [heq] at hmem
    revert hmem
    decide
  obtain ⟨after, removed, kept, hcallback, hrotated⟩ := h Unit [d] "x" [("x", ()), (d.text, ())] 1
    true 1700000000 pid (by decide) (by decide) (by simp [Ne.symm hne]) (List.Perm.refl _)
  rw [dumpCallback_one hpattern] at hcallback
  have hafter := (Prod.mk.inj (Option.some.inj hcallback)).1
  have hkept : kept = [] := by
    apply List.length_eq_zero_iff.mp
    rw [hrotated.length_kept]
    rfl
  have hin := hrotated.mem_iff d.text
  rw [← hafter, mem_renameFile (by simp [hx, Ne.symm hne]), hkept] at hin
  have hstays : d.text ∈ (([("x", ()), (d.text, ())] : DumpDir Unit).filter fun file =>
      !pattern file.1).map Prod.fst ↔ pattern d.text = false := by
    cases hmatch : pattern d.text with
    | false => simp [hx, hmatch]
    | true => simp [hx, hmatch, hne]
  have hothers : (∃ d' ∈ [d], d'.prog ≠ prog ∧ d'.text = d.text) ↔ d.prog ≠ prog := by
    simp
  rw [hstays, hothers, or_iff_right hpid, or_iff_right hpid, and_iff_left hne] at hin
  rw [Bool.eq_iff_iff, decide_eq_true_eq, ← not_iff_not, Bool.not_eq_true]
  simpa using hin

/-- **A program rotates its dumps exactly when its pattern is read as it is meant**; for a name of
simple characters this is when it has no dot. -/
theorem rotates_iff (rest : String → Option (String → Bool)) (prog : String) :
    (Rotates rest prog ↔ OwnPattern rest prog) ∧
      ((∀ c ∈ prog.toList, Regex.Simple c) → (Rotates rest prog ↔ '.' ∉ prog.toList)) := by
  have hiff : Rotates rest prog ↔ OwnPattern rest prog := by
    constructor
    · intro h
      obtain ⟨pattern, hpattern⟩ := exists_pattern_of_rotates h
      exact ⟨pattern, hpattern, match_text_iff h hpattern, fun name hname =>
        not_match_descriptor h hpattern hname⟩
    · exact rotates_of_ownPattern
  exact ⟨hiff, fun hsimple => hiff.trans (ownPattern_iff_of_simple hsimple)⟩

theorem rotates_iff_sample : Rotates (fun _ => none) "hz_calc-node" := by
  apply ((rotates_iff (fun _ => none) "hz_calc-node").2 _).mpr
  · decide
  · simp [Regex.Simple, Regex.isSyntax]

/-- The dumps of `axb` are removed by `a.b`. -/
theorem rotates_dotted_fails :
    ¬ ∀ (rest : String → Option (String → Bool)) (prog : String), LegalName prog →
      Rotates rest prog := by
  intro h
  have hrotates := h (fun _ => none) "a.b" ⟨by decide, by decide, by decide, by decide, by decide⟩
  obtain ⟨pattern, hpattern⟩ := exists_pattern_of_rotates hrotates
  have hmatch := match_text_iff hrotates hpattern (sampleDump "axb")
  have hregex : (regex (fun _ => none) (dumpPattern "a.b")).map
      (fun pattern => pattern (sampleDump "axb").text) = some true := by decide
  rw [hpattern, Option.map_some, hmatch] at hregex
  revert hregex
  decide

end Necessary

end AimrtComm.Minidump
