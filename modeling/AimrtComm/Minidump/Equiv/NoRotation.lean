import AimrtComm.Minidump.Processes

/-!
# Dumps that are kept without rotation

With rotation disabled the number of dumps is checked once, in `Initialize`.  The crash of a process
removes the oldest dumps all the same, so a dump is kept as long as every crash finds fewer dumps
than the count (`dumps_kept`), and a crash that finds no room goes on to remove one (`dump_lost`).
-/

namespace AimrtComm.Minidump

variable {α τ : Type*} [DecidableEq τ] {rest : String → Option (String → Bool)} {progname : String}
  {maxDumpCount : τ → Int32} {pid : τ → ℕ} {dir : DumpDir α} {s s' : Machine α τ}

/-- A crash finds fewer matching files than the count, and the new name of its dump is unused. -/
def Room (rest : String → Option (String → Bool)) (progname : String) (pid : τ → ℕ)
    (s : Machine α τ) : ProcStep α τ → Prop
  | .scan p => ∀ count ∈ getCurrentDumpCount rest progname s.dir,
      count ≤ keepCountOf (s.procs p).manager.maxDumpCount
  | .rename p tvSec => dumpFileName progname tvSec (pid p) ∉ s.dir.map Prod.fst
  | _ => True

instance (s : Machine α τ) : ∀ e, Decidable (Room rest progname pid s e)
  | .startUp _ => .isTrue trivial
  | .crash _ _ _ => .isTrue trivial
  | .scan p => inferInstanceAs (Decidable (∀ count ∈ getCurrentDumpCount rest progname s.dir,
      count ≤ keepCountOf (s.procs p).manager.maxDumpCount))
  | .remove _ => .isTrue trivial
  | .rename p tvSec => inferInstanceAs
      (Decidable (dumpFileName progname tvSec (pid p) ∉ s.dir.map Prod.fst))

/-- No process is about to remove a file, and what it is to rename is not a dump yet. -/
structure Quiet (s : Machine α τ) : Prop where
  written : ∀ p descriptor, (s.procs p).phase = .written descriptor → '_' ∉ descriptor.toList
  removing : ∀ p descriptor dumpFiles, (s.procs p).phase = .removing descriptor dumpFiles →
    '_' ∉ descriptor.toList ∧ dumpFiles = []

theorem Quiet.of_phase {p : τ} {phase : Phase} {dir' : DumpDir α} (h : Quiet s)
    (hwritten : ∀ descriptor, phase = .written descriptor → '_' ∉ descriptor.toList)
    (hremoving : ∀ descriptor dumpFiles, phase = .removing descriptor dumpFiles →
      '_' ∉ descriptor.toList ∧ dumpFiles = []) : Quiet (s.setPhase p phase dir') where
  written := by
    intro q descriptor hq
    by_cases hqp : q = p
    · subst hqp
      exact hwritten descriptor (by simpa [Machine.setPhase] using hq)
    · exact h.written q descriptor (by simpa [Machine.setPhase, hqp] using hq)
  removing := by
    intro q descriptor dumpFiles hq
    by_cases hqp : q = p
    · subst hqp
      exact hremoving descriptor dumpFiles (by simpa [Machine.setPhase] using hq)
    · exact h.removing q descriptor dumpFiles (by simpa [Machine.setPhase, hqp] using hq)

omit [DecidableEq τ] in
theorem Quiet.of_same_phase (h : Quiet s)
    (hphase : ∀ p, (s'.procs p).phase = (s.procs p).phase) : Quiet s' where
  written := by
    intro p descriptor hp
    exact h.written p descriptor (hphase p ▸ hp)
  removing := by
    intro p descriptor dumpFiles hp
    exact h.removing p descriptor dumpFiles (hphase p ▸ hp)

theorem Quiet.of_ended {p : τ} {dir' : DumpDir α} (h : Quiet s) :
    Quiet (s.setPhase p .ended dir') :=
  h.of_phase (by simp) (by simp)

omit [DecidableEq τ] in
/-- Nothing is to be removed when there is room. -/
theorem oldestDumps_of_room {p : τ} {dumpFiles : List String}
    (hroom : Room rest progname pid s (.scan p))
    (h : oldestDumps rest progname (keepCountOf (s.procs p).manager.maxDumpCount) s.dir =
      some dumpFiles) : dumpFiles = [] := by
  rw [oldestDumps, Option.map_eq_some_iff] at h
  obtain ⟨names, hnames, rfl⟩ := h
  have hcount := hroom names.length (by rw [getCurrentDumpCount, hnames]; rfl)
  have hlength := List.length_insertionSort (fun name name' => dumpPath name ≤ dumpPath name') names
  show (names.insertionSort _).take ((names.insertionSort _).length - _) = []
  rw [hlength, Nat.sub_eq_zero_of_le hcount, List.take_zero]

/-- Renaming to an unused name keeps what has another name. -/
theorem mem_renameFile_of_ne {old new : String} {file : String × α} (h : file ∈ dir)
    (hold : file.1 ≠ old) (hnew : file.1 ≠ new) : file ∈ renameFile old new dir := by
  unfold renameFile
  split
  · exact h
  · apply List.mem_append_left
    simp [removeFile, h, hold, hnew]

/-- What a start can do: nothing to the phases and to the directory. -/
theorem step_startUp {p : τ} (h : s.step rest progname maxDumpCount pid (.startUp p) = some s') :
    (∀ q, (s'.procs q).phase = (s.procs q).phase) ∧ s'.dir = s.dir := by
  rw [Machine.step] at h
  split_ifs at h
  rw [Option.map_eq_some_iff] at h
  obtain ⟨result, -, rfl⟩ := h
  refine ⟨?_, rfl⟩
  intro q
  by_cases hqp : q = p
  · subst hqp
    simp
  · simp [hqp]

/-- What a crash can do: it writes a dump under a name without an underscore. -/
theorem step_crash {p : τ} {descriptor : String} {dump : α}
    (h : s.step rest progname maxDumpCount pid (.crash p descriptor dump) = some s') :
    '_' ∉ descriptor.toList ∧
      s' = s.setPhase p (.written descriptor) (s.dir ++ [(descriptor, dump)]) := by
  rw [Machine.step] at h
  split_ifs at h with hcrash
  exact ⟨hcrash.2.2.1, (Option.some.inj h).symm⟩

/-- What a scan can do: it ends the process, or finds the files that are to be removed. -/
theorem step_scan {p : τ} (h : s.step rest progname maxDumpCount pid (.scan p) = some s') :
    ∃ descriptor, (s.procs p).phase = .written descriptor ∧
      (s' = s.setPhase p .ended s.dir ∨
        ∃ dumpFiles,
          oldestDumps rest progname (keepCountOf (s.procs p).manager.maxDumpCount) s.dir =
            some dumpFiles ∧
          s' = s.setPhase p (.removing descriptor dumpFiles) s.dir) := by
  rw [Machine.step] at h
  cases hphase : (s.procs p).phase with
  | written descriptor =>
    refine ⟨descriptor, rfl, ?_⟩
    simp only [hphase] at h
    split_ifs at h with hzero
    · exact .inl (Option.some.inj h).symm
    · cases hold : oldestDumps rest progname (keepCountOf (s.procs p).manager.maxDumpCount)
        s.dir with
      | none =>
        simp only [hold] at h
        exact .inl (Option.some.inj h).symm
      | some dumpFiles =>
        simp only [hold] at h
        exact .inr ⟨dumpFiles, rfl, (Option.some.inj h).symm⟩
  | running => simp [hphase] at h
  | removing descriptor dumpFiles => simp [hphase] at h
  | ended => simp [hphase] at h

/-- What a removal can do: it removes the first of the files that are left to remove. -/
theorem step_remove {p : τ} (h : s.step rest progname maxDumpCount pid (.remove p) = some s') :
    ∃ descriptor name dumpFiles, (s.procs p).phase = .removing descriptor (name :: dumpFiles) ∧
      s' = s.setPhase p (.removing descriptor dumpFiles) (removeFile name s.dir) := by
  rw [Machine.step] at h
  cases hphase : (s.procs p).phase with
  | removing descriptor dumpFiles =>
    cases dumpFiles with
    | nil => simp [hphase] at h
    | cons name dumpFiles =>
      simp only [hphase] at h
      exact ⟨descriptor, name, dumpFiles, rfl, (Option.some.inj h).symm⟩
  | running => simp [hphase] at h
  | written descriptor => simp [hphase] at h
  | ended => simp [hphase] at h

/-- What a renaming can do: it gives the dump its name when nothing is left to remove. -/
theorem step_rename {p : τ} {tvSec : ℕ}
    (h : s.step rest progname maxDumpCount pid (.rename p tvSec) = some s') :
    ∃ descriptor, (s.procs p).phase = .removing descriptor [] ∧
      s' = s.setPhase p .ended
        (renameFile descriptor (dumpFileName progname tvSec (pid p)) s.dir) := by
  rw [Machine.step] at h
  cases hphase : (s.procs p).phase with
  | removing descriptor dumpFiles =>
    cases dumpFiles with
    | nil =>
      simp only [hphase] at h
      exact ⟨descriptor, rfl, (Option.some.inj h).symm⟩
    | cons name dumpFiles => simp [hphase] at h
  | running => simp [hphase] at h
  | written descriptor => simp [hphase] at h
  | ended => simp [hphase] at h

theorem Quiet.step {e : ProcStep α τ} (h : Quiet s) (hroom : Room rest progname pid s e)
    (hstep : s.step rest progname maxDumpCount pid e = some s') :
    Quiet s' ∧ ∀ dump ∈ s.dumps, dump ∈ s'.dumps := by
  cases e with
  | startUp p =>
    obtain ⟨hphase, hdir⟩ := step_startUp hstep
    refine ⟨h.of_same_phase hphase, ?_⟩
    intro dump hdump
    rwa [Machine.dumps, hdir]
  | crash p descriptor dump =>
    obtain ⟨hdescriptor, rfl⟩ := step_crash hstep
    refine ⟨h.of_phase ?_ (by simp), ?_⟩
    · rintro _ ⟨rfl⟩
      exact hdescriptor
    · intro old hold
      rw [Machine.dumps, List.mem_filter] at hold ⊢
      exact ⟨List.mem_append_left _ hold.1, hold.2⟩
  | scan p =>
    obtain ⟨descriptor, hphase, rfl | ⟨dumpFiles, hold, rfl⟩⟩ := step_scan hstep
    · exact ⟨h.of_ended, fun dump hdump => hdump⟩
    · obtain rfl := oldestDumps_of_room hroom hold
      refine ⟨h.of_phase (by simp) ?_, fun dump hdump => hdump⟩
      rintro _ _ ⟨rfl, rfl⟩
      exact ⟨h.written p descriptor hphase, rfl⟩
  | remove p =>
    -- there is nothing to remove
    obtain ⟨descriptor, name, dumpFiles, hphase, -⟩ := step_remove hstep
    exact absurd (h.removing p descriptor _ hphase).2 (List.cons_ne_nil _ _)
  | rename p tvSec =>
    obtain ⟨descriptor, hphase, rfl⟩ := step_rename hstep
    have hdescriptor := (h.removing p descriptor [] hphase).1
    refine ⟨h.of_ended, ?_⟩
    intro dump hdump
    rw [Machine.dumps, List.mem_filter, decide_eq_true_eq] at hdump ⊢
    refine ⟨mem_renameFile_of_ne hdump.1 ?_ ?_, hdump.2⟩
    · intro hold
      exact hdescriptor (hold ▸ hdump.2)
    · intro hnew
      exact hroom (hnew ▸ List.mem_map_of_mem hdump.1)

theorem quiet_init : Quiet (machine rest progname maxDumpCount pid dir).init where
  written := by
    intro p descriptor hp
    cases hp
  removing := by
    intro p descriptor dumpFiles hp
    cases hp

/-- A crash that finds no room removes a file next. -/
theorem dump_lost {p : τ} {descriptor : String} {count : ℕ}
    (hphase : (s.procs p).phase = .written descriptor)
    (hmax : (s.procs p).manager.maxDumpCount ≠ 0)
    (hcount : getCurrentDumpCount rest progname s.dir = some count)
    (hfull : keepCountOf (s.procs p).manager.maxDumpCount < count) :
    ∃ s₁ s₂ file, s.step rest progname maxDumpCount pid (.scan p) = some s₁ ∧
      s₁.step rest progname maxDumpCount pid (.remove p) = some s₂ ∧
      file ∈ s.dir ∧ file ∉ s₂.dir := by
  rw [getCurrentDumpCount, Option.map_eq_some_iff] at hcount
  obtain ⟨names, hnames, rfl⟩ := hcount
  have hold : oldestDumps rest progname (keepCountOf (s.procs p).manager.maxDumpCount) s.dir =
      some ((names.insertionSort fun name name' => dumpPath name ≤ dumpPath name').take
        (names.length - keepCountOf (s.procs p).manager.maxDumpCount)) := by
    rw [oldestDumps, hnames]
    simp
  cases hvictims : (names.insertionSort fun name name' => dumpPath name ≤ dumpPath name').take
      (names.length - keepCountOf (s.procs p).manager.maxDumpCount) with
  | nil =>
    have hlength := congrArg List.length hvictims
    rw [List.length_take, List.length_insertionSort, List.length_nil] at hlength
    omega
  | cons name victims =>
    rw [hvictims] at hold
    have hmem : name ∈ names := by
      rw [← (List.perm_insertionSort (fun name name' => dumpPath name ≤ dumpPath name')
        names).mem_iff]
      apply List.mem_of_mem_take
      rw [hvictims]
      exact List.mem_cons_self
    obtain ⟨pattern, -, rfl⟩ := Option.map_eq_some_iff.mp hnames
    obtain ⟨file, hfile, rfl⟩ := List.mem_map.mp (List.mem_filter.mp hmem).1
    have hscan : s.step rest progname maxDumpCount pid (.scan p) =
        some (s.setPhase p (.removing descriptor (file.1 :: victims)) s.dir) := by
      simp [Machine.step, hphase, hmax, hold]
    have hremove : (s.setPhase p (.removing descriptor (file.1 :: victims)) s.dir).step rest
        progname maxDumpCount pid (.remove p) =
        some ((s.setPhase p (.removing descriptor (file.1 :: victims)) s.dir).setPhase p
          (.removing descriptor victims) (removeFile file.1 s.dir)) := by
      simp [Machine.step, Machine.setPhase]
    exact ⟨_, _, file, hscan, hremove, hfile, by simp [Machine.setPhase, removeFile]⟩

/-- **Every dump stays when every crash finds room**: what is there at some time of such a run is
there at any later time. -/
theorem dumps_kept (hs : (machine rest progname maxDumpCount pid dir).ReachableUnder
      (Room rest progname pid) s) {steps : List (ProcStep α τ)}
    (hroom : (machine rest progname maxDumpCount pid dir).Guarded (Room rest progname pid) s steps)
    (hrun : steps.foldlM (machine rest progname maxDumpCount pid dir).step s = some s') :
    ∀ dump ∈ s.dumps, dump ∈ s'.dumps := by
  have hquiet : Quiet s := by
    apply hs.invariant quiet_init
    intro s e s' hs hroom hstep
    exact (hs.step hroom hstep).1
  clear hs
  induction steps generalizing s with
  | nil =>
    obtain rfl := Option.some.inj hrun
    exact fun dump hdump => hdump
  | cons e steps ih =>
    rw [List.foldlM_cons, Option.bind_eq_bind, Option.bind_eq_some_iff] at hrun
    obtain ⟨s₁, hstep, hrun⟩ := hrun
    obtain ⟨hquiet₁, hkept⟩ := hquiet.step hroom.1 hstep
    intro dump hdump
    exact ih (hroom.2 s₁ hstep) hrun hquiet₁ dump (hkept dump hdump)

/-- A crash with an older dump and a count of two. -/
def roomyCrash : List (ProcStep Unit Bool) :=
  [.startUp true, .crash true "5f3c-01.dmp" (), .scan true, .rename true 1700000000]

/-- The machine on which it happens. -/
def roomyMachine : System (Machine Unit Bool) (ProcStep Unit Bool) :=
  machine (fun _ => none) "node" (fun _ => 2) (fun p => if p then 41 else 42)
    [("node_1600000000_40.dmp", ())]

theorem dumps_kept_sample :
    ("node_1600000000_40.dmp", ()) ∈
      ((roomyMachine.run roomyCrash).getD roomyMachine.init).dumps := by
  have hroom : roomyMachine.Guarded (Room (fun _ => none) "node" fun p => if p then 41 else 42)
      roomyMachine.init roomyCrash := by
    decide +kernel
  have hruns : (roomyMachine.run roomyCrash).isSome := by decide +kernel
  obtain ⟨s, hrun⟩ := Option.isSome_iff_exists.mp hruns
  have hold : ("node_1600000000_40.dmp", ()) ∈ roomyMachine.init.dumps := by decide +kernel
  rw [hrun]
  exact dumps_kept .init hroom hrun _ hold

/-- Two processes that are started before the first one crashes, with a count of one. -/
def firstCrash : List (ProcStep Unit Bool) :=
  [.startUp true, .startUp false, .crash true "5f3c-01.dmp" (), .scan true,
    .rename true 1700000000]

def secondCrash : List (ProcStep Unit Bool) :=
  [.crash false "5f3c-02.dmp" (), .scan false, .remove false, .rename false 1700000001]

/-- The machine on which they run. -/
def sampleMachine : System (Machine Unit Bool) (ProcStep Unit Bool) :=
  machine (fun _ => none) "node" (fun _ => 1) (fun p => if p then 41 else 42) []

/-- The second crash removes the dump of the first one. -/
theorem second_crash_removes :
    ¬ ∀ (progname : String) (maxDumpCount : Bool → Int32) (pid : Bool → ℕ) (dir : DumpDir Unit),
      (∀ p, 1 ≤ (maxDumpCount p).toInt) →
      ∀ (s s' : Machine Unit Bool) (steps : List (ProcStep Unit Bool)),
        (machine (fun _ => none) progname maxDumpCount pid dir).Reachable s →
        steps.foldlM (machine (fun _ => none) progname maxDumpCount pid dir).step s = some s' →
        ∀ dump ∈ s.dumps, dump ∈ s'.dumps := by
  intro h
  have htrace : ((sampleMachine.run firstCrash).bind fun s =>
      (secondCrash.foldlM sampleMachine.step s).map fun s' =>
        (decide (("node_1700000000_41.dmp", ()) ∈ s.dumps),
          decide (("node_1700000000_41.dmp", ()) ∈ s'.dumps))) = some (true, false) := by
    decide +kernel
  obtain ⟨s, hfirst, hrest⟩ := Option.bind_eq_some_iff.mp htrace
  obtain ⟨s', hsecond, hdumps⟩ := Option.map_eq_some_iff.mp hrest
  rw [Prod.mk.injEq, decide_eq_true_eq, decide_eq_false_iff_not] at hdumps
  exact hdumps.2 (h "node" (fun _ => 1) (fun p => if p then 41 else 42) [] (by decide) s s'
    secondCrash (System.reachable_of_run firstCrash hfirst) hsecond _ hdumps.1)

end AimrtComm.Minidump
