import AimrtComm.Program.AppMode
import Mathlib.Data.Fintype.Basic
import Mathlib.Data.Fintype.Defs

/-!
# Whose configuration a process reads

A process waits for its file from the moment it opens it until `Initialize` reads it, or with
`--dump_only` until it has written it.  The name of the file is all that keeps it from the others,
and it is drawn from eleven names.  In every run in
which no step empties or removes a file that another process waits for, `Initialize` reads what its
process has dumped (`reads_own_dump`).  Any other step can cost the process its file
(`disturbed_reads_other`).
-/

namespace AimrtComm.Program

open Disk Function

variable {τ : Type*}

/-- The file that a process waits for. -/
def Phase.awaited (dumpOnly : Bool) : Phase → Option String
  | dumping name _ _ => some name
  | dumped name => if dumpOnly then none else some name
  | _ => none

theorem Phase.awaited_dumped {dumpOnly : Bool} {found name : String}
    (h : (dumped found).awaited dumpOnly = some name) : dumpOnly = false ∧ found = name := by
  cases dumpOnly with
  | true => cases h
  | false => exact ⟨rfl, Option.some.inj h⟩

/-- The file that a step empties or removes. -/
def ProcStep.cleared (tempCfgPath : String) (s : Machine τ) : ProcStep τ → Option String
  | openFile _ draw => some (cfgFileName tempCfgPath draw)
  | removeFile p =>
    match s.procs p with
    | .dumped name => some name
    | .initialized name _ => some name
    | _ => none
  | _ => none

/-- The process that makes a step. -/
def ProcStep.process : ProcStep τ → τ
  | openFile p _ => p
  | writeFile p _ => p
  | closeFile p => p
  | copyDump p => p
  | initializeCore p => p
  | removeFile p => p
  | exit p => p

/-- The step leaves the files alone that other processes wait for. -/
def Considerate (tempCfgPath : String) (dumpOnly : τ → Bool) (s : Machine τ) (e : ProcStep τ) :
    Prop :=
  ∀ q name, q ≠ e.process → (s.procs q).awaited (dumpOnly q) = some name →
    e.cleared tempCfgPath s ≠ some name

/-- Every process that has read its file has read what it dumped. -/
def ReadsOwnDump (yaml : τ → List Char) (s : Machine τ) : Prop :=
  ∀ p name text, s.procs p = .initialized name text → text = some (yaml p)

/-! ### What a process finds in its file -/

/-- A process finds what it has written, and has read what it dumped. -/
def Phase.Sound (disk : Disk String Char) (dumpOnly : Bool) (yaml : List Char) : Phase → Prop
  | dumping name file written =>
    written ≤ yaml.length ∧ disk.Holds name file (yaml.take written)
  | dumped name => dumpOnly = false → ∃ file, disk.Holds name file yaml
  | initialized _ text => text = some yaml
  | _ => True

/-- This is so for every process, and no two processes wait for one file. -/
structure Machine.Sound (dumpOnly : τ → Bool) (yaml : τ → List Char) (s : Machine τ) : Prop where
  phases : ∀ p, (s.procs p).Sound s.disk (dumpOnly p) (yaml p)
  apart : ∀ p q name, (s.procs p).awaited (dumpOnly p) = some name →
    (s.procs q).awaited (dumpOnly q) = some name → p = q

variable {dumpOnly : τ → Bool} {yaml : τ → List Char} {s : Machine τ} {disk : Disk String Char}

/-- What becomes of the file that a process waits for. -/
theorem Phase.Sound.mono {disk' : Disk String Char} {once : Bool} {text : List Char}
    {phase : Phase} (h : phase.Sound disk once text)
    (hholds : ∀ name file found, phase.awaited once = some name → disk.Holds name file found →
      disk'.Holds name file found) : phase.Sound disk' once text := by
  cases phase with
  | dumping name file written => exact ⟨h.1, hholds name file _ rfl h.2⟩
  | dumped name =>
    intro hinit
    obtain ⟨file, hfile⟩ := h hinit
    exact ⟨file, hholds name file _ (by rw [awaited, hinit]; rfl) hfile⟩
  | start => trivial
  | initialized name found => exact h
  | ended => trivial

section Steps

variable [DecidableEq τ] {tempCfgPath : String} {p : τ}

/-- The machine after a process has gone on that leaves the files of the others alone. -/
theorem Machine.Sound.setPhase (h : s.Sound dumpOnly yaml) {phase : Phase}
    {disk' : Disk String Char}
    (hphase : phase.Sound disk' (dumpOnly p) (yaml p))
    (hothers : ∀ q name file found, q ≠ p → (s.procs q).awaited (dumpOnly q) = some name →
      s.disk.Holds name file found → disk'.Holds name file found)
    (hawaited : ∀ name, phase.awaited (dumpOnly p) = some name →
      ∀ q, q ≠ p → (s.procs q).awaited (dumpOnly q) ≠ some name) :
    (s.setPhase p phase disk').Sound dumpOnly yaml := by
  have hself : (s.setPhase p phase disk').procs p = phase := update_self ..
  have hne : ∀ q, q ≠ p → (s.setPhase p phase disk').procs q = s.procs q :=
    fun q hq => update_of_ne hq ..
  constructor
  · intro q
    by_cases hq : q = p
    · subst hq
      rw [hself]
      exact hphase
    · rw [hne q hq]
      exact (h.phases q).mono fun name file found hname => hothers q name file found hq hname
  · intro q q' name hq hq'
    -- either of the two can be the process that has gone on
    by_cases h₁ : q = p
    · by_cases h₂ : q' = p
      · rw [h₁, h₂]
      · subst h₁
        rw [hself] at hq
        rw [hne q' h₂] at hq'
        exact absurd hq' (hawaited name hq q' h₂)
    · by_cases h₂ : q' = p
      · subst h₂
        rw [hself] at hq'
        rw [hne q h₁] at hq
        exact absurd hq (hawaited name hq' q h₁)
      · rw [hne q h₁] at hq
        rw [hne q' h₂] at hq'
        exact h.apart q q' name hq hq'

/-- A process that goes on with the file that it waits for. -/
theorem Machine.Sound.goOn (h : s.Sound dumpOnly yaml) {phase : Phase} {disk' : Disk String Char}
    (hphase : phase.Sound disk' (dumpOnly p) (yaml p))
    (hothers : ∀ q name file found, q ≠ p → (s.procs q).awaited (dumpOnly q) = some name →
      s.disk.Holds name file found → disk'.Holds name file found)
    (hawaited : ∀ name, phase.awaited (dumpOnly p) = some name →
      (s.procs p).awaited (dumpOnly p) = some name) :
    (s.setPhase p phase disk').Sound dumpOnly yaml := by
  refine h.setPhase hphase hothers ?_
  intro name hname q hq hq'
  exact hq (h.apart q p name hq' (hawaited name hname))

theorem Machine.Sound.openFile (h : s.Sound dumpOnly yaml) {name : String}
    (hfree : ∀ q, q ≠ p → (s.procs q).awaited (dumpOnly q) ≠ some name) :
    (s.setPhase p (.dumping name (s.disk.opened name) 0) (s.disk.openTruncated name)).Sound
      dumpOnly yaml := by
  refine h.setPhase ⟨Nat.zero_le _, holds_openTruncated s.disk name⟩ ?_ ?_
  · intro q other file found hq hother hholds
    refine hholds.openTruncated ?_
    rintro rfl
    exact hfree q hq hother
  · intro other hother
    obtain rfl := Option.some.inj hother
    exact hfree

theorem Machine.Sound.writeFile (h : s.Sound dumpOnly yaml) {name : String} {file written : ℕ}
    (hp : s.procs p = .dumping name file written) (count : ℕ) :
    (s.setPhase p
      (.dumping name file (written + (((yaml p).drop written).take count).length))
      (s.disk.write file written (((yaml p).drop written).take count))).Sound dumpOnly yaml := by
  obtain ⟨hle, hholds⟩ : (Phase.dumping name file written).Sound s.disk (dumpOnly p) (yaml p) :=
    hp ▸ h.phases p
  have hlength : (((yaml p).drop written).take count).length ≤ (yaml p).length - written := by
    rw [List.length_take, List.length_drop]
    exact Nat.min_le_right ..
  have htext : (yaml p).take written ++ ((yaml p).drop written).take count =
      (yaml p).take (written + (((yaml p).drop written).take count).length) := by
    rw [List.take_add, List.length_take, List.length_drop]
    congr 1
    rw [List.take_eq_take_iff, List.length_drop]
    omega
  refine h.goOn ⟨by omega, ?_⟩ ?_ ?_
  · -- the data goes where the text in the file ends
    rw [← htext]
    exact hholds.write_self (by rw [List.length_take]; omega) _
  · intro q other file' found hq hother hfound
    refine hfound.write_other hholds.names_eq ?_ _ _
    rintro rfl
    exact hq (h.apart q p other hother (by rw [hp]; rfl))
  · intro other hother
    rw [hp]
    exact hother

/-- Nothing happens to the files. -/
theorem Machine.Sound.keepFiles (h : s.Sound dumpOnly yaml) {phase : Phase}
    (hphase : phase.Sound s.disk (dumpOnly p) (yaml p))
    (hawaited : ∀ name, phase.awaited (dumpOnly p) = some name →
      (s.procs p).awaited (dumpOnly p) = some name) :
    (s.setPhase p phase s.disk).Sound dumpOnly yaml :=
  h.goOn hphase (fun _ _ _ _ _ _ hholds => hholds) hawaited

theorem Machine.Sound.removeFile (h : s.Sound dumpOnly yaml) {name : String}
    (hfree : ∀ q, q ≠ p → (s.procs q).awaited (dumpOnly q) ≠ some name) :
    (s.setPhase p .ended (s.disk.unlink name)).Sound dumpOnly yaml := by
  refine h.goOn trivial ?_ fun _ hnone => absurd hnone (Option.some_ne_none _).symm
  intro q other file found hq hother hholds
  refine hholds.unlink ?_
  rintro rfl
  exact hfree q hq hother

/-- A considerate step keeps it. -/
theorem Machine.Sound.step (h : s.Sound dumpOnly yaml) {e : ProcStep τ} {s' : Machine τ}
    (hguard : Considerate tempCfgPath dumpOnly s e)
    (hstep : s.step tempCfgPath dumpOnly yaml e = some s') : s'.Sound dumpOnly yaml := by
  cases e with
  | openFile p draw =>
    have hfree : ∀ q, q ≠ p →
        (s.procs q).awaited (dumpOnly q) ≠ some (cfgFileName tempCfgPath draw) :=
      fun q hq hawaited => hguard q _ hq hawaited rfl
    cases hp : s.procs p with
    | start =>
      simp only [Machine.step, hp, Option.some.injEq] at hstep
      exact hstep ▸ h.openFile hfree
    | _ => simp [Machine.step, hp] at hstep
  | writeFile p count =>
    cases hp : s.procs p with
    | dumping name file written =>
      simp only [Machine.step, hp, Option.some.injEq] at hstep
      exact hstep ▸ h.writeFile hp count
    | _ => simp [Machine.step, hp] at hstep
  | closeFile p =>
    cases hp : s.procs p with
    | dumping name file written =>
      obtain ⟨-, hholds⟩ : (Phase.dumping name file written).Sound s.disk (dumpOnly p) (yaml p) :=
        hp ▸ h.phases p
      simp only [Machine.step, hp] at hstep
      by_cases hend : written = (yaml p).length
      · rw [if_pos hend, Option.some.injEq] at hstep
        rw [hend, List.take_length] at hholds
        refine hstep ▸ h.keepFiles (fun _ => ⟨file, hholds⟩) fun other hother => ?_
        rw [hp]
        exact congrArg some (Phase.awaited_dumped hother).2
      · rw [if_neg hend] at hstep
        cases hstep
    | _ => simp [Machine.step, hp] at hstep
  | copyDump p =>
    cases hp : s.procs p with
    | dumped name =>
      simp only [Machine.step, hp] at hstep
      -- the file is there in fact, but either way nothing happens to the files
      by_cases hthere : (s.disk.read name).isSome = true
      · rw [if_pos hthere, Option.some.injEq] at hstep
        exact hstep ▸ h
      · rw [if_neg hthere, Option.some.injEq] at hstep
        exact hstep ▸ h.keepFiles trivial fun _ hnone => absurd hnone (Option.some_ne_none _).symm
    | _ => simp [Machine.step, hp] at hstep
  | initializeCore p =>
    cases hp : s.procs p with
    | dumped name =>
      have hdumped : (Phase.dumped name).Sound s.disk (dumpOnly p) (yaml p) := hp ▸ h.phases p
      simp only [Machine.step, hp, Option.ite_none_left_eq_some, Option.some.injEq,
        Bool.not_eq_true] at hstep
      obtain ⟨hinit, rfl⟩ := hstep
      obtain ⟨file, hholds⟩ := hdumped hinit
      exact h.keepFiles hholds.read_eq fun _ hnone => absurd hnone (Option.some_ne_none _).symm
    | _ => simp [Machine.step, hp] at hstep
  | removeFile p =>
    have hfree : ∀ name, (ProcStep.removeFile p).cleared tempCfgPath s = some name →
        ∀ q, q ≠ p → (s.procs q).awaited (dumpOnly q) ≠ some name :=
      fun name hname q hq hawaited => hguard q name hq hawaited hname
    cases hp : s.procs p with
    | dumped name =>
      simp only [Machine.step, hp, Option.some.injEq] at hstep
      exact hstep ▸ h.removeFile (hfree name (by simp [ProcStep.cleared, hp]))
    | initialized name text =>
      simp only [Machine.step, hp, Option.some.injEq] at hstep
      exact hstep ▸ h.removeFile (hfree name (by simp [ProcStep.cleared, hp]))
    | _ => simp [Machine.step, hp] at hstep
  | exit p =>
    simp only [Machine.step, Option.some.injEq] at hstep
    exact hstep ▸ h.keepFiles trivial fun _ hnone => absurd hnone (Option.some_ne_none _).symm

/-! ### All runs -/

/-- **In a run of considerate steps every process reads what it dumped.** -/
theorem reads_own_dump {s : Machine τ} (hs : (machine tempCfgPath dumpOnly yaml disk).ReachableUnder
    (Considerate tempCfgPath dumpOnly) s) : ReadsOwnDump yaml s := by
  have hsound : s.Sound dumpOnly yaml := by
    refine hs.invariant ⟨fun p => trivial, ?_⟩ fun _ _ _ h hguard hstep => h.step hguard hstep
    intro p q name hname
    cases hname
  intro p name text hp
  have hphase := hsound.phases p
  rw [hp] at hphase
  exact hphase

/-- The next step of a process that has dumped its configuration. -/
theorem not_readsOwnDump_of_read_ne {q : τ} {name : String} (hq : s.procs q = .dumped name)
    (hinit : dumpOnly q = false) (hread : s.disk.read name ≠ some (yaml q)) :
    ∃ s', s.step tempCfgPath dumpOnly yaml (.initializeCore q) = some s' ∧
      ¬ ReadsOwnDump yaml s' := by
  refine ⟨s.setPhase q (.initialized name (s.disk.read name)) s.disk, ?_, ?_⟩
  · simp [Machine.step, hq, hinit]
  · intro hown
    exact hread (hown q name _ (update_self ..))

/-- A step that is not considerate costs a process that has dumped its configuration this
configuration: if `Initialize` comes next, it reads something else. -/
theorem disturbed_reads_other {e : ProcStep τ} {s' : Machine τ} {q : τ} {name : String}
    (hother : q ≠ e.process) (hq : s.procs q = .dumped name) (hinit : dumpOnly q = false)
    (hcleared : e.cleared tempCfgPath s = some name) (hyaml : yaml q ≠ [])
    (hstep : s.step tempCfgPath dumpOnly yaml e = some s') :
    ∃ s'', s'.step tempCfgPath dumpOnly yaml (.initializeCore q) = some s'' ∧
      ¬ ReadsOwnDump yaml s'' := by
  cases e with
  | openFile p draw =>
    obtain rfl := Option.some.inj hcleared
    cases hp : s.procs p with
    | start =>
      simp only [Machine.step, hp, Option.some.injEq] at hstep
      subst hstep
      apply not_readsOwnDump_of_read_ne ((update_of_ne hother ..).trans hq) hinit
      show (s.disk.openTruncated _).read _ ≠ _
      rw [read_openTruncated]
      exact fun heq => hyaml (Option.some.inj heq).symm
    | _ => simp [Machine.step, hp] at hstep
  | removeFile p =>
    have hunlinked : s' = s.setPhase p .ended (s.disk.unlink name) := by
      cases hp : s.procs p <;> simp_all [Machine.step, ProcStep.cleared]
    subst hunlinked
    apply not_readsOwnDump_of_read_ne ((update_of_ne hother ..).trans hq) hinit
    show (s.disk.unlink _).read _ ≠ _
    rw [read_unlink]
    exact (Option.some_ne_none _).symm
  | _ => cases hcleared

end Steps

/-! ### Two processes -/

instance [Fintype τ] [DecidableEq τ] (tempCfgPath : String) (dumpOnly : τ → Bool)
    (s : Machine τ) (e : ProcStep τ) : Decidable (Considerate tempCfgPath dumpOnly s e) :=
  decidable_of_iff
    (∀ q, q = e.process ∨ (s.procs q).awaited (dumpOnly q) = none ∨
      e.cleared tempCfgPath s ≠ (s.procs q).awaited (dumpOnly q)) <| by
    constructor
    · intro h q name hne hq
      have hor := (h q).resolve_left hne
      rw [hq] at hor
      exact hor.resolve_left (Option.some_ne_none name)
    · intro h q
      by_cases hne : q = e.process
      · exact .inl hne
      · cases hq : (s.procs q).awaited (dumpOnly q) with
        | none => exact .inr (.inl rfl)
        | some name => exact .inr (.inr (h q name hne hq))

/-- A directory without files. -/
def emptyDisk : Disk String Char where
  names _ := none
  contents _ := []
  next := 0
  bounded := by simp
  injective := by simp

/-- What two processes dump. -/
def twoDumps (p : Bool) : List Char := if p then "a: 1".toList else "b: 2".toList

/-- One process starts while the other one does. -/
def twoStarts (draw draw' : Fin 11) : List (ProcStep Bool) :=
  [.openFile true draw, .writeFile true 4, .openFile false draw', .closeFile true,
    .writeFile false 4, .initializeCore true]

/-- The one process only dumps its configuration, before the other one starts. -/
def startAfterDump (draw : Fin 11) : List (ProcStep Bool) :=
  [.openFile false draw, .writeFile false 4, .closeFile false, .openFile true draw,
    .copyDump false, .writeFile true 4, .closeFile true, .exit false, .initializeCore true]

/-- With different names, and with one name after the other process has dumped its configuration. -/
theorem reads_own_dump_sample :
    (∃ s, (machine "cfg" (fun _ => false) twoDumps emptyDisk).run (twoStarts 3 7) = some s ∧
      ReadsOwnDump twoDumps s) ∧
    ∃ s, (machine "cfg" not twoDumps emptyDisk).run (startAfterDump 3) = some s ∧
      ReadsOwnDump twoDumps s := by
  have hrun : ((machine "cfg" (fun _ => false) twoDumps emptyDisk).run
      (twoStarts 3 7)).isSome = true := by decide
  have hrun' : ((machine "cfg" not twoDumps emptyDisk).run
      (startAfterDump 3)).isSome = true := by decide
  obtain ⟨s, hs⟩ := Option.isSome_iff_exists.mp hrun
  obtain ⟨s', hs'⟩ := Option.isSome_iff_exists.mp hrun'
  constructor
  · exact ⟨s, hs, reads_own_dump (System.reachableUnder_of_run (twoStarts 3 7) (by decide) hs)⟩
  · exact ⟨s', hs', reads_own_dump
      (System.reachableUnder_of_run (startAfterDump 3) (by decide) hs')⟩

/-- With one name the first process reads what the second one has dumped. -/
theorem reads_foreign_dump :
    ((machine "cfg" (fun _ => false) twoDumps emptyDisk).run (twoStarts 3 3)).map
        (fun s => s.procs true) = some (.initialized "cfg/tmp3.yaml" (some "b: 2".toList)) ∧
      ¬ ∀ s, (machine "cfg" (fun _ => false) twoDumps emptyDisk).Reachable s →
        ReadsOwnDump twoDumps s := by
  have hrun : ((machine "cfg" (fun _ => false) twoDumps emptyDisk).run (twoStarts 3 3)).map
      (fun s => s.procs true) = some (.initialized "cfg/tmp3.yaml" (some "b: 2".toList)) := by
    decide
  refine ⟨hrun, ?_⟩
  intro hall
  obtain ⟨s, hs, hread⟩ := Option.map_eq_some_iff.mp hrun
  have hown := hall s (System.reachable_of_run _ hs) true _ _ hread
  exact absurd hown (by decide)

end AimrtComm.Program
