import AimrtComm.Executor.Equiv.TimeWheel
import Mathlib.Algebra.BigOperators.Group.List.Lemmas
import Mathlib.Algebra.Order.BigOperators.Group.List

/-!
# The schedule of the time wheel

* `iterate_earliest`: only a worker whose time has come is run, one that wakes up first, and the
  loop sleeps only when no worker is due.
* `runs_le_of_period`: no worker is run more often than its period allows.
* `due_worker_runs`: when all periods are positive, a worker that is due is run within twice as
  many turns as there are workers.
* `zero_period_starves`: a worker of period zero that is due stops the clock of the loop, and no
  other worker is run more than twice from then on.
* `deleted_perm_added`: `Shutdown` deletes every worker once.
-/

namespace AimrtComm.Executor

open Timespec

variable {Ptr : Type*} [DecidableEq Ptr] {clock : ℕ → Timespec}

namespace TimeWheel

/-- A clock that is read once a second. -/
def sampleClock (k : ℕ) : Timespec := ⟨k, 0⟩

theorem isMonotonic_sampleClock : IsMonotonic sampleClock where
  normal _ := ⟨le_refl _, by show (0 : ℤ) < 1000000000; decide⟩
  nonneg := le_refl _
  mono k := by
    show (k : ℤ) * 1000000000 + 0 ≤ ((k + 1 : ℕ) : ℤ) * 1000000000 + 0
    omega

/-- The loop begins with two workers. -/
def sampleEvents (periodNs periodNs' : UInt64) : List (Event ℕ) :=
  [.addWorker 7 "w" periodNs, .addWorker 8 "v" periodNs', .start, .begin]

/-- The state at the beginning of the loop. -/
def sampleState (periodNs periodNs' : UInt64) : TimeWheel ℕ :=
  ((timeWheelSystem sampleClock).run (sampleEvents periodNs periodNs')).getD
    (timeWheelSystem sampleClock).init

/-- Workers with periods of two seconds and of one. -/
def sampleStart : TimeWheel ℕ := sampleState 2000000000 1000000000

theorem reachable_sampleStart : (timeWheelSystem sampleClock).ReachableUnder FitsLong sampleStart :=
  System.reachableUnder_of_run (sampleEvents 2000000000 1000000000) (by decide) rfl

theorem queue_sampleStart : sampleStart.queue = #[7, 8] := by decide

/-- **The earliest worker that is due.**  A turn of the loop either runs a worker whose time has
come, and then no worker in the queue wakes up before it, or it runs none, and then no worker in
the queue is due unless the loop ends. -/
theorem iterate_earliest (hclock : IsMonotonic clock) {s s' : TimeWheel Ptr}
    (hs : (timeWheelSystem clock).ReachableUnder FitsLong s)
    (h : s.step clock .iterate = some s') :
    (∃ p ∈ s.queue, s'.runs = p :: s.runs ∧ (s.worker p).wakeAbsTime.ns ≤ s.now.ns ∧
        s.now.ns ≤ (clock s.reads).ns ∧
        ∀ q ∈ s.queue, (s.worker p).wakeAbsTime.ns ≤ (s.worker q).wakeAbsTime.ns) ∨
      (s'.runs = s.runs ∧
        (s.isRunning = true → ∀ q ∈ s.queue, s.now.ns < (s.worker q).wakeAbsTime.ns)) := by
  have hi := inv_of_reachable hclock hs
  unfold step at h
  dsimp only at h
  split_ifs at h with hpc
  rcases iterate_cases hclock hi.sound h with ⟨hrun, rfl⟩ | ⟨-, p, hran⟩ | ⟨-, hnone, rfl⟩
  · exact .inr ⟨rfl, fun hrun' => absurd (hrun.symm.trans hrun') (by decide)⟩
  · exact .inl ⟨p, Array.mem_of_getElem? hran.front, hran.runs, hran.due, hi.sound.le,
      fun q hq => hi.sound.wake_front_le hran.front hq⟩
  · exact .inr ⟨rfl, fun _ => hnone⟩

theorem iterate_earliest_sample :
    ∃ s', sampleStart.step sampleClock .iterate = some s' ∧ s'.runs = [7] ∧
      ∀ q ∈ sampleStart.queue,
        (sampleStart.worker 7).wakeAbsTime.ns ≤ (sampleStart.worker q).wakeAbsTime.ns := by
  refine ⟨_, rfl, by decide, ?_⟩
  rcases iterate_earliest isMonotonic_sampleClock reachable_sampleStart
      (s := sampleStart) rfl with ⟨p, -, hran, -, -, hearliest⟩ | ⟨hnone, -⟩
  · obtain rfl : 7 = p := (List.cons.inj hran).1
    exact hearliest
  · exact absurd hnone (List.cons_ne_self _ _)

/-- `Shutdown` deletes every worker once that was added. -/
theorem deleted_perm_added (hclock : IsMonotonic clock) {s : TimeWheel Ptr}
    (hs : (timeWheelSystem clock).ReachableUnder FitsLong s) :
    s.deleted.Nodup ∧ (∀ p ∈ s.deleted, s.pc = .shutDown ∧ p ∉ s.queue) ∧
      (s.pc = .shutDown → s.deleted.Perm s.added) := by
  have hi := inv_of_reachable hclock hs
  have hnodup : (s.queue.toList ++ s.deleted).Nodup := hi.added.nodup_iff.mp hi.added_nodup
  refine ⟨(List.nodup_append.mp hnodup).2.1, ?_, ?_⟩
  · intro p hp
    have hpc : s.pc = .shutDown := by
      by_contra hne
      rw [hi.deleted hne] at hp
      cases hp
    rw [hi.queue hpc]
    exact ⟨hpc, by simp⟩
  · intro hpc
    have hadded := hi.added
    rw [hi.queue hpc] at hadded
    exact hadded.symm

theorem deleted_perm_added_sample :
    ∃ s, (timeWheelSystem sampleClock).run
        (sampleEvents 2000000000 1000000000 ++ [.iterate, .shutdown, .iterate, .complete])
      = some s ∧ s.deleted.Perm [8, 7] := by
  have hs : (timeWheelSystem sampleClock).ReachableUnder FitsLong _ :=
    System.reachableUnder_of_run
      (sampleEvents 2000000000 1000000000 ++ [.iterate, .shutdown, .iterate, .complete])
      (by decide) rfl
  exact ⟨_, rfl, (deleted_perm_added isMonotonic_sampleClock hs).2.2 rfl⟩

/-! ### Once the loop has begun -/

/-- The loop has begun. -/
def Begun (s : TimeWheel Ptr) : Prop := s.pc ≠ .idle ∧ s.pc ≠ .spawned

/-- What an event does after the loop has begun. -/
inductive Turn (clock : ℕ → Timespec) (s s' : TimeWheel Ptr) : Prop where
  | ran (p : Ptr) : s.pc = .loop → Ran clock s p s' → Turn clock s s'
  | slept : s.pc = .loop → s.isRunning = true →
    (∀ q ∈ s.queue, s.now.ns < (s.worker q).wakeAbsTime.ns) → s' = s.readNow clock → Turn clock s s'
  | other : s'.runs = s.runs → s'.worker = s.worker → s'.now = s.now →
    (s'.pc = .loop → s'.queue = s.queue ∧ s.pc = .loop) → Turn clock s s'

theorem turn_of_step (hclock : IsMonotonic clock) {s s' : TimeWheel Ptr} {e : Event Ptr}
    (hi : s.Inv clock) (hbegun : s.Begun) (h : s.step clock e = some s') :
    s'.Inv clock ∧ s'.Begun ∧ Turn clock s s' := by
  have hfits : FitsLong s e := by
    -- no worker is added once the loop has begun
    cases e with
    | addWorker p name periodNs =>
      unfold step at h
      dsimp only at h
      rw [if_neg fun hidle => hbegun.1 hidle.1] at h
      cases h
    | start | begin | iterate | shutdown | complete => exact trivial
  refine ⟨inv_step hclock hi hfits h, ?_⟩
  unfold step at h
  cases e with
  | addWorker p name periodNs => simp [hbegun.1] at h
  | start => simp [hbegun.1] at h
  | begin => simp [hbegun.2] at h
  | iterate =>
    dsimp only at h
    split_ifs at h with hpc
    rcases iterate_cases hclock hi.sound h with ⟨-, rfl⟩ | ⟨-, p, hran⟩ | ⟨hrun, hnone, rfl⟩
    · exact ⟨⟨nofun, nofun⟩, .other rfl rfl rfl nofun⟩
    · refine ⟨?_, .ran p hpc hran⟩
      unfold Begun
      rw [hran.pc]
      exact hbegun
    · exact ⟨hbegun, .slept hpc hrun hnone rfl⟩
  | shutdown =>
    dsimp only at h
    split_ifs at h
    obtain rfl := Option.some.inj h
    exact ⟨hbegun, .other rfl rfl rfl fun hpc => ⟨rfl, hpc⟩⟩
  | complete =>
    dsimp only at h
    split_ifs at h
    obtain rfl := Option.some.inj h
    exact ⟨⟨nofun, nofun⟩, .other rfl rfl rfl nofun⟩

/-- What the turns of the loop keep is kept by all events after the loop has begun. -/
theorem foldlM_turn (hclock : IsMonotonic clock) {J : TimeWheel Ptr → Prop}
    (hturn : ∀ s s', s.Inv clock → J s → Turn clock s s' → J s') {s s' : TimeWheel Ptr}
    {events : List (Event Ptr)} (hi : s.Inv clock) (hbegun : s.Begun) (hJ : J s)
    (h : events.foldlM (timeWheelSystem clock).step s = some s') : J s' := by
  have hkeep : ∀ s e s', (s.Inv clock ∧ s.Begun ∧ J s) →
      (timeWheelSystem clock).step s e = some s' → s'.Inv clock ∧ s'.Begun ∧ J s' := by
    rintro s e s' ⟨hi, hbegun, hJ⟩ he
    obtain ⟨hi', hbegun', ht⟩ := turn_of_step hclock hi hbegun he
    exact ⟨hi', hbegun', hturn s s' hi hJ ht⟩
  exact (System.foldlM_invariant_step hkeep ⟨hi, hbegun, hJ⟩ h).2.2

omit [DecidableEq Ptr] in
theorem Turn.now_le {s s' : TimeWheel Ptr} (hi : s.Inv clock) (h : Turn clock s s') :
    s.now.ns ≤ s'.now.ns := by
  cases h with
  | ran p _ hran => rw [hran.now]
  | slept _ _ _ heq => rw [heq]; exact hi.sound.le
  | other _ _ hnow _ => rw [hnow]

/-- Between a state in the loop and a later one the worker was run `n` times. -/
structure Rate (s : TimeWheel Ptr) (p : Ptr) (n : ℕ) (t : TimeWheel Ptr) : Prop where
  periodNs : (t.worker p).periodNs = (s.worker p).periodNs
  runs : t.runs.count p = s.runs.count p + n
  wake : (s.worker p).wakeAbsTime.ns + n * (s.worker p).periodNs.toNat
    ≤ (t.worker p).wakeAbsTime.ns
  now : n ≠ 0 → (s.worker p).wakeAbsTime.ns + (n - 1) * (s.worker p).periodNs.toNat ≤ t.now.ns

theorem Rate.refl (s : TimeWheel Ptr) (p : Ptr) : Rate s p 0 s :=
  ⟨rfl, rfl, by simp, fun hn => absurd rfl hn⟩

/-- Where the worker is not run, only time goes by. -/
theorem Rate.wait {s t t' : TimeWheel Ptr} {p : Ptr} {n : ℕ} (h : Rate s p n t)
    (hworker : t'.worker p = t.worker p) (hruns : t'.runs.count p = t.runs.count p)
    (hnow : t.now.ns ≤ t'.now.ns) : Rate s p n t' where
  periodNs := by rw [hworker]; exact h.periodNs
  runs := hruns.trans h.runs
  wake := by rw [hworker]; exact h.wake
  now hn := (h.now hn).trans hnow

/-- A run moves the wake time on by at least a period, and the worker was due. -/
theorem Rate.ran {s t t' : TimeWheel Ptr} {p : Ptr} {n : ℕ} (h : Rate s p n t)
    (hran : Ran clock t p t') : Rate s p (n + 1) t' := by
  have hnext : (t.worker p).wakeAbsTime.ns + (s.worker p).periodNs.toNat
      ≤ (t'.worker p).wakeAbsTime.ns := by
    rw [← h.periodNs]
    by_cases hzero : (t.worker p).periodNs = 0
    -- a period of zero leaves the wake time as it is
    · rw [hran.of_zero hzero, hzero]
      simp
    · exact (hran.of_pos hzero).1
  have hwake := h.wake
  have hdue := hran.due
  refine ⟨hran.periodNs.trans h.periodNs, ?_, ?_, fun _ => ?_⟩
  · rw [hran.runs, List.count_cons_self, h.runs, Nat.add_assoc]
  · push_cast
    linarith
  · rw [hran.now]
    push_cast
    linarith

theorem Rate.turn {s t t' : TimeWheel Ptr} {p : Ptr} {n : ℕ} (hi : t.Inv clock)
    (h : Rate s p n t) (hturn : Turn clock t t') : ∃ n', Rate s p n' t' := by
  have hle := hturn.now_le hi
  cases hturn with
  | ran q hpc hran =>
    by_cases hq : q = p
    · subst hq
      -- only its own runs count
      exact ⟨n + 1, h.ran hran⟩
    · refine ⟨n, h.wait (hran.worker p (Ne.symm hq)) ?_ hle⟩
      rw [hran.runs, List.count_cons_of_ne hq]
  | slept _ _ _ heq =>
    subst heq
    exact ⟨n, h.wait rfl rfl hle⟩
  | other hruns hworker _ _ => exact ⟨n, h.wait (by rw [hworker]) (by rw [hruns]) hle⟩

/-- **The rate of a worker.**  After `n` runs of a worker since some time in the loop, its wake
time has moved on by `n` periods, and the clock by `n - 1` periods from the wake time then. -/
theorem runs_le_of_period (hclock : IsMonotonic clock) {s s' : TimeWheel Ptr}
    (hs : (timeWheelSystem clock).ReachableUnder FitsLong s) (hbegun : s.Begun)
    {events : List (Event Ptr)} (h : events.foldlM (timeWheelSystem clock).step s = some s')
    (p : Ptr) :
    ∃ n : ℕ, s'.runs.count p = s.runs.count p + n ∧
      (s.worker p).wakeAbsTime.ns + n * (s.worker p).periodNs.toNat
        ≤ (s'.worker p).wakeAbsTime.ns ∧
      (n ≠ 0 →
        (s.worker p).wakeAbsTime.ns + (n - 1) * (s.worker p).periodNs.toNat ≤ s'.now.ns) := by
  have hturn : ∀ t t', t.Inv clock → (∃ n, Rate s p n t) → Turn clock t t' →
      ∃ n, Rate s p n t' := fun t t' hi ⟨_, hrate⟩ hT => hrate.turn hi hT
  obtain ⟨n, hrate⟩ := foldlM_turn hclock hturn (inv_of_reachable hclock hs) hbegun
    ⟨0, Rate.refl s p⟩ h
  exact ⟨n, hrate.runs, hrate.wake, hrate.now⟩

theorem runs_le_of_period_sample :
    ∃ s', (List.replicate 8 Event.iterate).foldlM (timeWheelSystem sampleClock).step sampleStart
        = some s' ∧
      s'.runs.count 7 = 3 ∧ (4000000000 : ℤ) + 2 * 2000000000 ≤ s'.now.ns := by
  have hrun : ((List.replicate 8 Event.iterate).foldlM (timeWheelSystem sampleClock).step
      sampleStart).map (fun s' => s'.runs.count 7) = some 3 := by decide +kernel
  obtain ⟨s', hs', hruns⟩ := Option.map_eq_some_iff.mp hrun
  obtain ⟨n, hcount, -, hnow⟩ := runs_le_of_period isMonotonic_sampleClock reachable_sampleStart
    ⟨by decide, by decide⟩ hs' 7
  obtain rfl : 3 = n := by
    rw [hruns, show sampleStart.runs.count 7 = 0 by decide] at hcount
    omega
  exact ⟨s', hs', hruns, hnow (by decide)⟩

/-! ### How often a worker can run without a look at the clock -/

/-- A worker that is late is run at most twice, and one that is due just now at most once. -/
def level (now : Timespec) (w : BaseWorker) : ℕ :=
  if w.wakeAbsTime.ns < now.ns then 2 else if w.wakeAbsTime.ns = now.ns then 1 else 0

theorem level_le_two (now : Timespec) (w : BaseWorker) : level now w ≤ 2 := by
  unfold level
  split_ifs <;> omega

theorem level_pos {now : Timespec} {w : BaseWorker} (h : w.wakeAbsTime.ns ≤ now.ns) :
    0 < level now w := by
  unfold level
  split_ifs <;> omega

omit [DecidableEq Ptr] in
/-- A run of a worker with a period lowers its level. -/
theorem Ran.level_lt {s s' : TimeWheel Ptr} {p : Ptr} (h : Ran clock s p s')
    (hpos : (s.worker p).periodNs ≠ 0) :
    level s'.now (s'.worker p) < level s.now (s.worker p) := by
  obtain ⟨hnext, hle, -⟩ := h.of_pos hpos
  have hdue := h.due
  have hperiod : 0 < (s.worker p).periodNs.toNat := by
    apply Nat.pos_of_ne_zero
    intro hzero
    exact hpos (UInt64.toNat_inj.mp hzero)
  rw [h.now]
  unfold level
  split_ifs <;> omega

/-- A worker of period zero that was due in an earlier state of the loop still stops its clock, and
the runs and the levels of the others add up to no more than two runs since then. -/
structure Starved (s : TimeWheel Ptr) (p : Ptr) (t : TimeWheel Ptr) : Prop where
  worker : t.worker p = s.worker p
  now : t.now = s.now
  queue : t.pc = .loop → p ∈ t.queue
  periodNs : ∀ q, (t.worker q).periodNs = (s.worker q).periodNs
  runs : ∀ q, (s.worker q).periodNs ≠ 0 →
    t.runs.count q + level t.now (t.worker q) ≤ s.runs.count q + 2

theorem Starved.refl {s : TimeWheel Ptr} {p : Ptr} (hp : p ∈ s.queue) : Starved s p s where
  worker := rfl
  now := rfl
  queue _ := hp
  periodNs _ := rfl
  runs q _ := Nat.add_le_add_left (level_le_two s.now (s.worker q)) _

/-- A run of any worker. -/
theorem Starved.ran {s t t' : TimeWheel Ptr} {p r : Ptr} (h : Starved s p t)
    (hzero : (s.worker p).periodNs = 0) (hpc : t.pc = .loop) (hran : Ran clock t r t') :
    Starved s p t' where
  worker := by
    by_cases hr : r = p
    · subst hr
      rw [hran.of_zero (by rw [h.worker]; exact hzero), h.worker]
    · rw [hran.worker p (Ne.symm hr), h.worker]
  now := hran.now.trans h.now
  queue _ := Array.mem_toList_iff.mp
    (hran.queue.symm.mem_iff.mp (Array.mem_toList_iff.mpr (h.queue hpc)))
  periodNs q := by
    by_cases hq : q = r
    · subst hq
      exact hran.periodNs.trans (h.periodNs q)
    · rw [hran.worker q hq, h.periodNs]
  runs q hq := by
    have hle := h.runs q hq
    by_cases hr : r = q
    · subst hr
      have hlevel := hran.level_lt (by rw [h.periodNs]; exact hq)
      rw [hran.runs, List.count_cons_self]
      omega
    · rw [hran.worker q (Ne.symm hr), hran.runs, List.count_cons_of_ne hr, hran.now]
      exact hle

theorem Starved.turn {s t t' : TimeWheel Ptr} {p : Ptr} (hzero : (s.worker p).periodNs = 0)
    (hdue : (s.worker p).wakeAbsTime.ns ≤ s.now.ns) (h : Starved s p t)
    (hturn : Turn clock t t') : Starved s p t' := by
  cases hturn with
  | ran r hpc hran => exact h.ran hzero hpc hran
  | slept hpc _ hnone _ =>
    -- the worker is in the queue and due
    have hlate := hnone p (h.queue hpc)
    rw [h.worker, h.now] at hlate
    omega
  | other hruns hworker hnow hpc =>
    refine ⟨?_, hnow.trans h.now, fun hloop => ?_, fun q => ?_, fun q hq => ?_⟩
    · rw [hworker, h.worker]
    · rw [(hpc hloop).1]
      exact h.queue (hpc hloop).2
    · rw [hworker, h.periodNs]
    · rw [hworker, hruns, hnow]
      exact h.runs q hq

/-- **A worker of period zero starves the others**: when it is due, the loop never sleeps again,
its `now` stays as it is, and every worker with a period is run at most twice from then on. -/
theorem zero_period_starves (hclock : IsMonotonic clock) {s s' : TimeWheel Ptr}
    (hs : (timeWheelSystem clock).ReachableUnder FitsLong s) (hbegun : s.Begun) {p : Ptr}
    (hp : p ∈ s.queue) (hzero : (s.worker p).periodNs = 0)
    (hdue : (s.worker p).wakeAbsTime.ns ≤ s.now.ns) {events : List (Event Ptr)}
    (h : events.foldlM (timeWheelSystem clock).step s = some s') :
    s'.now = s.now ∧
      ∀ q, (s.worker q).periodNs ≠ 0 → s'.runs.count q ≤ s.runs.count q + 2 := by
  have hend : Starved s p s' := foldlM_turn hclock (fun _ _ _ hJ hT => hJ.turn hzero hdue hT)
    (inv_of_reachable hclock hs) hbegun (Starved.refl hp) h
  refine ⟨hend.now, fun q hq => ?_⟩
  have := hend.runs q hq
  omega

theorem zero_period_starves_sample :
    ∃ s', (List.replicate 6 Event.iterate).foldlM (timeWheelSystem sampleClock).step
        (sampleState 1 0) = some s' ∧
      s'.now = (sampleState 1 0).now ∧ s'.runs.count 7 ≤ 2 := by
  obtain ⟨s', hs'⟩ := Option.isSome_iff_exists.mp (show ((List.replicate 6 Event.iterate).foldlM
    (timeWheelSystem sampleClock).step (sampleState 1 0)).isSome = true by decide +kernel)
  have hreach : (timeWheelSystem sampleClock).ReachableUnder FitsLong (sampleState 1 0) :=
    System.reachableUnder_of_run (sampleEvents 1 0) (by decide) rfl
  have hqueue : 8 ∈ (sampleState 1 0).queue := by
    rw [show (sampleState 1 0).queue = #[7, 8] by decide]
    simp
  obtain ⟨hnow, hruns⟩ := zero_period_starves isMonotonic_sampleClock hreach
    ⟨by decide, by decide⟩ hqueue (by decide) (by decide) hs'
  exact ⟨s', hs', hnow, hruns 7 (by decide)⟩

/-- How many runs there can be without a look at the clock. -/
def backlog (s : TimeWheel Ptr) : ℕ :=
  (s.queue.toList.map fun q => level s.now (s.worker q)).sum

omit [DecidableEq Ptr] in
theorem backlog_le (s : TimeWheel Ptr) : s.backlog ≤ 2 * s.queue.size := by
  have h := List.sum_le_card_nsmul (s.queue.toList.map fun q => level s.now (s.worker q)) 2 (by
    intro n hn
    obtain ⟨q, -, rfl⟩ := List.mem_map.mp hn
    exact level_le_two _ _)
  rw [List.length_map, Array.length_toList, nsmul_eq_mul, Nat.cast_id, Nat.mul_comm] at h
  exact h

/-- A run of a worker with a period lowers the backlog. -/
theorem Ran.backlog_lt {s s' : TimeWheel Ptr} {p : Ptr} (hs : s.Sound clock)
    (h : Ran clock s p s') (hpos : (s.worker p).periodNs ≠ 0) : s'.backlog < s.backlog := by
  have hmem : p ∈ s.queue.toList := Array.mem_toList_iff.mpr (Array.mem_of_getElem? h.front)
  have hperm : s.queue.toList.Perm (p :: s.queue.toList.erase p) := List.perm_cons_erase hmem
  have hsplit : ∀ f : Ptr → ℕ, (s.queue.toList.map f).sum
      = f p + ((s.queue.toList.erase p).map f).sum := by
    intro f
    rw [(hperm.map f).sum_eq, List.map_cons, List.sum_cons]
  have hrest : (s.queue.toList.erase p).map (fun q => level s'.now (s'.worker q))
      = (s.queue.toList.erase p).map fun q => level s.now (s.worker q) := by
    apply List.map_congr_left
    intro q hq
    have hne : q ≠ p := by
      rintro rfl
      exact (hs.nodup.mem_erase_iff.mp hq).1 rfl
    rw [h.worker q hne, h.now]
  unfold backlog
  rw [(h.queue.map _).sum_eq, hsplit, hsplit, hrest]
  have := h.level_lt hpos
  omega

omit [DecidableEq Ptr] in
theorem backlog_pos {s : TimeWheel Ptr} {p : Ptr} (hp : p ∈ s.queue)
    (hdue : (s.worker p).wakeAbsTime.ns ≤ s.now.ns) : 0 < s.backlog := by
  apply List.sum_pos_iff_exists_pos_nat.mpr
  exact ⟨_, List.mem_map_of_mem (Array.mem_toList_iff.mpr hp), level_pos hdue⟩

/-- The state after some turns of a running loop in which a worker was due: the worker was run, or
the others used up a part of the backlog. -/
structure Waiting (clock : ℕ → Timespec) (s : TimeWheel Ptr) (p : Ptr) (n : ℕ)
    (s' : TimeWheel Ptr) : Prop where
  inv : s'.Inv clock
  pc : s'.pc = .loop
  isRunning : s'.isRunning = true
  served : s.runs.count p < s'.runs.count p ∨
    (s'.runs.count p = s.runs.count p ∧ s'.now = s.now ∧ s'.worker p = s.worker p ∧
      s'.queue.toList.Perm s.queue.toList ∧
      (∀ q, (s'.worker q).periodNs = (s.worker q).periodNs) ∧ s'.backlog + n ≤ s.backlog)

theorem waiting_succ (hclock : IsMonotonic clock) {s t : TimeWheel Ptr} {p : Ptr} {n : ℕ}
    (hp : p ∈ s.queue) (hdue : (s.worker p).wakeAbsTime.ns ≤ s.now.ns)
    (hperiods : ∀ q ∈ s.queue, (s.worker q).periodNs ≠ 0) (h : Waiting clock s p n t) :
    ∃ t', t.step clock .iterate = some t' ∧ Waiting clock s p (n + 1) t' := by
  obtain ⟨t', heq⟩ := iterate_isSome hclock h.inv.sound (h.inv.size (.inr h.pc))
  have hstep : t.step clock .iterate = some t' := by
    unfold step
    dsimp only
    rw [if_pos h.pc, heq]
  refine ⟨t', hstep, ?_⟩
  have hinv := inv_step (e := .iterate) hclock h.inv trivial hstep
  rcases iterate_cases hclock h.inv.sound heq with ⟨hrun, -⟩ | ⟨-, r, hran⟩ | ⟨-, hnone, rfl⟩
  · exact absurd (hrun.symm.trans h.isRunning) (by decide)
  · refine ⟨hinv, hran.pc.trans h.pc, hran.isRunning.trans h.isRunning, ?_⟩
    rcases h.served with hserved | ⟨hcount, hnow, hworker, hqueue, hperiod, hbacklog⟩
    · left
      rw [hran.runs]
      exact lt_of_lt_of_le hserved (List.count_le_count_cons)
    · by_cases hr : r = p
      · left
        rw [hran.runs, hr, List.count_cons_self]
        omega
      · right
        have hmem : r ∈ s.queue := by
          have := Array.mem_toList_iff.mpr (Array.mem_of_getElem? hran.front)
          exact Array.mem_toList_iff.mp (hqueue.mem_iff.mp this)
        have hlt := hran.backlog_lt h.inv.sound (by rw [hperiod r]; exact hperiods r hmem)
        refine ⟨?_, hran.now.trans hnow, ?_, hran.queue.trans hqueue, fun q => ?_, by omega⟩
        · rw [hran.runs, List.count_cons_of_ne hr, hcount]
        · rw [hran.worker p (Ne.symm hr), hworker]
        · by_cases hq : q = r
          · rw [hq, hran.periodNs, hperiod]
          · rw [hran.worker q hq, hperiod]
  · -- the loop does not sleep while the worker is due
    refine ⟨hinv, h.pc, h.isRunning, ?_⟩
    rcases h.served with hserved | ⟨-, hnow, hworker, hqueue, -, -⟩
    · exact .inl hserved
    · have hmem : p ∈ t.queue :=
        Array.mem_toList_iff.mp (hqueue.symm.mem_iff.mp (Array.mem_toList_iff.mpr hp))
      have hlate := hnone p hmem
      rw [hworker, hnow] at hlate
      omega

/-- **No worker starves** when all periods are positive: a running loop runs a worker that is due
within twice as many turns as there are workers, and it does not get stuck. -/
theorem due_worker_runs (hclock : IsMonotonic clock) {s : TimeWheel Ptr}
    (hs : (timeWheelSystem clock).ReachableUnder FitsLong s) (hpc : s.pc = .loop)
    (hrun : s.isRunning = true) (hperiods : ∀ q ∈ s.queue, (s.worker q).periodNs ≠ 0) {p : Ptr}
    (hp : p ∈ s.queue) (hdue : (s.worker p).wakeAbsTime.ns ≤ s.now.ns) :
    ∃ s', (List.replicate (2 * s.queue.size) Event.iterate).foldlM
        (timeWheelSystem clock).step s = some s' ∧
      s.runs.count p < s'.runs.count p := by
  have hrun : ∀ n, ∃ t, (List.replicate n Event.iterate).foldlM
      (timeWheelSystem clock).step s = some t ∧ Waiting clock s p n t := by
    intro n
    induction n with
    | zero =>
      exact ⟨s, rfl, inv_of_reachable hclock hs, hpc, hrun,
        .inr ⟨rfl, rfl, rfl, .refl _, fun _ => rfl, le_refl _⟩⟩
    | succ n ih =>
      obtain ⟨t, heq, ht⟩ := ih
      obtain ⟨t', hstep, ht'⟩ := waiting_succ hclock hp hdue hperiods ht
      refine ⟨t', ?_, ht'⟩
      rw [List.replicate_succ', List.foldlM_append, heq]
      show [Event.iterate].foldlM (timeWheelSystem clock).step t = some t'
      rw [List.foldlM_cons]
      show (TimeWheel.step clock t .iterate).bind _ = some t'
      rw [hstep]
      rfl
  obtain ⟨t, heq, ht⟩ := hrun (2 * s.queue.size)
  refine ⟨t, heq, ?_⟩
  rcases ht.served with hserved | ⟨-, hnow, hworker, hqueue, -, hbacklog⟩
  · exact hserved
  · have hmem : p ∈ t.queue :=
      Array.mem_toList_iff.mp (hqueue.symm.mem_iff.mp (Array.mem_toList_iff.mpr hp))
    have hpos := backlog_pos hmem (by rw [hworker, hnow]; exact hdue)
    have := backlog_le s
    omega

theorem due_worker_runs_sample :
    ∃ s', (List.replicate 4 Event.iterate).foldlM (timeWheelSystem sampleClock).step sampleStart
        = some s' ∧ sampleStart.runs.count 8 < s'.runs.count 8 := by
  have hperiods : ∀ q ∈ sampleStart.queue, (sampleStart.worker q).periodNs ≠ 0 := by
    intro q hq
    rw [queue_sampleStart] at hq
    obtain rfl | rfl : q = 7 ∨ q = 8 := by simpa using hq
    · decide
    · decide
  have h := due_worker_runs isMonotonic_sampleClock reachable_sampleStart (by decide) (by decide)
    hperiods (p := 8) (by rw [queue_sampleStart]; simp) (by decide)
  rw [queue_sampleStart] at h
  exact h

end TimeWheel

end AimrtComm.Executor
