import AimrtComm.Executor.Equiv.Worker
import AimrtComm.Executor.TimeWheel

/-!
# The invariant of the time wheel

The queue is a heap in the order of the wake times although `Loop` changes the wake time of the
worker at the front while it is in the queue: no other element of the queue is that worker, and
`pop` does not look at the front (`BinaryHeap.ordered_pop`).
-/

namespace AimrtComm.Executor

open Function Timespec

variable {Ptr : Type*} [DecidableEq Ptr] {clock : ℕ → Timespec}

omit [DecidableEq Ptr] in
theorem strictWeak_baseWorkerCompare (worker : Ptr → BaseWorker) :
    BinaryHeap.StrictWeak (baseWorkerCompare worker) where
  asymm := BaseWorker.less_asymm
  trans := BaseWorker.less_eq_false_trans

/-- Another key for the front leaves the order of the others as it is. -/
theorem orderedBelow_update {worker : Ptr → BaseWorker} {queue : Array Ptr} {p : Ptr}
    (w : BaseWorker) (hqueue : BinaryHeap.Ordered (baseWorkerCompare worker) queue)
    (hnodup : queue.toList.Nodup) (hp : queue[0]? = some p) :
    BinaryHeap.OrderedBelow (baseWorkerCompare (update worker p w)) queue := by
  have hother : ∀ i x, i ≠ 0 → queue[i]? = some x → x ≠ p := by
    intro i x hi hx hxp
    subst hxp
    have hlt : i < queue.toList.length := by
      rw [Array.length_toList]
      exact (Array.getElem?_eq_some_iff.mp hx).1
    apply hi
    apply (List.getElem?_inj hlt hnodup).mp
    rw [Array.getElem?_toList, Array.getElem?_toList, hx, hp]
  intro i c hic hi x y hx hy
  have hc : c ≠ 0 := by unfold BinaryHeap.Child at hic; omega
  unfold baseWorkerCompare
  rw [update_of_ne (hother i x hi hx), update_of_ne (hother c y hc hy)]
  exact hqueue i c hic x y hx hy

namespace TimeWheel

/-- What holds of the queue, the workers and the clock. -/
structure Sound (clock : ℕ → Timespec) (s : TimeWheel Ptr) : Prop where
  ordered : BinaryHeap.Ordered (baseWorkerCompare s.worker) s.queue
  nodup : s.queue.toList.Nodup
  normal : ∀ p, (s.worker p).wakeAbsTime.Normal
  fits : ∀ p, Fits (s.worker p).periodNs
  now : s.now.Normal
  le : s.now.ns ≤ (clock s.reads).ns

/-- Only the queue, the workers and how often the clock was read may differ. -/
structure Frame (s s' : TimeWheel Ptr) : Prop where
  isRunning : s'.isRunning = s.isRunning
  now : s'.now = s.now
  pc : s'.pc = s.pc
  runs : s'.runs = s.runs
  added : s'.added = s.added
  deleted : s'.deleted = s.deleted
  periodNs : ∀ q, (s'.worker q).periodNs = (s.worker q).periodNs

omit [DecidableEq Ptr] in
theorem Frame.refl (s : TimeWheel Ptr) : Frame s s := ⟨rfl, rfl, rfl, rfl, rfl, rfl, fun _ => rfl⟩

omit [DecidableEq Ptr] in
theorem Frame.trans {s s' s'' : TimeWheel Ptr} (h : Frame s s') (h' : Frame s' s'') :
    Frame s s'' where
  isRunning := h'.isRunning.trans h.isRunning
  now := h'.now.trans h.now
  pc := h'.pc.trans h.pc
  runs := h'.runs.trans h.runs
  added := h'.added.trans h.added
  deleted := h'.deleted.trans h.deleted
  periodNs q := (h'.periodNs q).trans (h.periodNs q)

omit [DecidableEq Ptr] in
theorem push_perm (s : TimeWheel Ptr) (p : Ptr) :
    (s.push p).queue.toList.Perm (p :: s.queue.toList) := BinaryHeap.push_perm s.queue p

omit [DecidableEq Ptr] in
theorem frame_push (s : TimeWheel Ptr) (p : Ptr) : Frame s (s.push p) :=
  ⟨rfl, rfl, rfl, rfl, rfl, rfl, fun _ => rfl⟩

omit [DecidableEq Ptr] in
theorem Sound.push {s : TimeWheel Ptr} (h : s.Sound clock) {p : Ptr} (hp : p ∉ s.queue) :
    (s.push p).Sound clock where
  ordered := BinaryHeap.ordered_push (strictWeak_baseWorkerCompare s.worker) h.ordered p
  nodup := (push_perm s p).nodup_iff.mpr (List.nodup_cons.mpr ⟨by simpa using hp, h.nodup⟩)
  normal := h.normal
  fits := h.fits
  now := h.now
  le := h.le

omit [DecidableEq Ptr] in
/-- The front wakes up first. -/
theorem Sound.wake_front_le {s : TimeWheel Ptr} (h : s.Sound clock) {p q : Ptr}
    (hp : s.queue[0]? = some p) (hq : q ∈ s.queue) :
    (s.worker p).wakeAbsTime.ns ≤ (s.worker q).wakeAbsTime.ns :=
  (BaseWorker.less_eq_false_iff (h.normal p) (h.normal q)).mp
    (BinaryHeap.comp_front (strictWeak_baseWorkerCompare s.worker) h.ordered hp hq)

/-! ### The worker at the front -/

/-- `s'` is `s` with another wake time for `p` and a later clock. -/
structure Rescheduled (clock : ℕ → Timespec) (s : TimeWheel Ptr) (p : Ptr) (s' : TimeWheel Ptr) :
    Prop where
  frame : Frame s s'
  queue : s'.queue = s.queue
  worker : ∀ q, q ≠ p → s'.worker q = s.worker q
  normal : (s'.worker p).wakeAbsTime.Normal
  reads : s.reads ≤ s'.reads

/-- A worker with another wake time can be taken out of the front. -/
theorem Rescheduled.pop {s s' : TimeWheel Ptr} {p : Ptr} (hclock : IsMonotonic clock)
    (hs : s.Sound clock) (h : Rescheduled clock s p s') (hp : s.queue[0]? = some p) :
    s'.pop.Sound clock ∧ s.queue.toList.Perm (p :: s'.pop.queue.toList) := by
  have hworker : s'.worker = update s.worker p (s'.worker p) := by
    funext q
    by_cases hq : q = p
    · subst hq
      rw [update_self]
    · rw [update_of_ne hq, h.worker q hq]
  -- the key of the front has changed in the queue, so only the order below it is left
  have hbelow : BinaryHeap.OrderedBelow (baseWorkerCompare s'.worker) s'.queue := by
    rw [hworker, h.queue]
    exact orderedBelow_update _ hs.ordered hs.nodup hp
  have hperm : s.queue.toList.Perm (p :: s'.pop.queue.toList) := by
    rw [← h.queue] at hp ⊢
    exact BinaryHeap.pop_perm hp
  refine ⟨⟨?_, ?_, ?_, ?_, ?_, ?_⟩, hperm⟩
  · exact BinaryHeap.ordered_pop (strictWeak_baseWorkerCompare s'.worker) hbelow
  · exact (List.nodup_cons.mp (hperm.nodup_iff.mp hs.nodup)).2
  · intro q
    by_cases hq : q = p
    · subst hq
      exact h.normal
    · show (s'.worker q).wakeAbsTime.Normal
      rw [h.worker q hq]
      exact hs.normal q
  · intro q
    show Fits (s'.worker q).periodNs
    rw [h.frame.periodNs q]
    exact hs.fits q
  · show s'.now.Normal
    rw [h.frame.now]
    exact hs.now
  · show s'.now.ns ≤ (clock s'.reads).ns
    rw [h.frame.now]
    exact hs.le.trans (hclock.le h.reads)

theorem resetWakeTime_rescheduled (hclock : IsMonotonic clock) (s : TimeWheel Ptr) (p : Ptr) :
    Rescheduled clock s p (s.resetWakeTime clock p) where
  frame := by
    refine ⟨rfl, rfl, rfl, rfl, rfl, rfl, fun q => ?_⟩
    unfold resetWakeTime
    by_cases hq : q = p
    · subst hq
      simp
    · simp [hq]
  queue := rfl
  worker q hq := by simp [resetWakeTime, hq]
  normal := by simp [resetWakeTime, hclock.normal]
  reads := Nat.le_succ _

/-- `UpdateWorkerTime` returns, and what it makes of the wake time. -/
theorem updateWorkerTime_rescheduled (hclock : IsMonotonic clock) {s : TimeWheel Ptr} {p : Ptr}
    {now : Timespec} (hnormal : (s.worker p).wakeAbsTime.Normal)
    (hfits : Fits (s.worker p).periodNs) (hnow : now.Normal) (hle : now.ns ≤ (clock s.reads).ns) :
    ∃ s', s.updateWorkerTime clock p now = some s' ∧ Rescheduled clock s p s' ∧
      ((s.worker p).periodNs = 0 → s' = s) ∧
      ((s.worker p).periodNs ≠ 0 →
        (s.worker p).wakeAbsTime.ns + (s.worker p).periodNs.toNat
          ≤ (s'.worker p).wakeAbsTime.ns ∧
        now.ns ≤ (s'.worker p).wakeAbsTime.ns ∧
        ((s.worker p).wakeAbsTime.ns + (s.worker p).periodNs.toNat < now.ns →
          now.ns + (s.worker p).periodNs.toNat ≤ (s'.worker p).wakeAbsTime.ns)) := by
  unfold updateWorkerTime
  by_cases hzero : (s.worker p).periodNs = 0
  · rw [BaseWorker.updateWorkerTime_of_periodNs_eq_zero (by decide) hzero, Option.map_some]
    have hself : ({ s with worker := update s.worker p (s.worker p) } : TimeWheel Ptr) = s := by
      rw [update_eq_self]
    refine ⟨_, rfl, ?_, fun _ => hself, fun hpos => absurd hzero hpos⟩
    show Rescheduled clock s p { s with worker := update s.worker p (s.worker p) }
    rw [hself]
    exact ⟨Frame.refl s, rfl, fun _ _ => rfl, hnormal, le_refl _⟩
  · obtain ⟨w', k', heq, hw'⟩ := BaseWorker.updateWorkerTime_eq hclock (le_refl 2) hnormal hnow hle
      hzero hfits
    rw [heq, Option.map_some]
    refine ⟨_, rfl, ⟨?_, rfl, ?_, ?_, ?_⟩, fun h => absurd h hzero, fun _ => ?_⟩
    · refine ⟨rfl, rfl, rfl, rfl, rfl, rfl, fun q => ?_⟩
      by_cases hq : q = p
      · subst hq
        simp [hw'.periodNs]
      · simp [hq]
    · intro q hq
      simp [hq]
    · simp [hw'.normal]
    · show s.reads ≤ k'
      rcases hw'.ns with ⟨-, rfl, -⟩ | ⟨-, rfl, -⟩
      · exact le_refl _
      · exact Nat.le_succ _
    · show _ ≤ (update s.worker p w' p).wakeAbsTime.ns ∧
        _ ≤ (update s.worker p w' p).wakeAbsTime.ns ∧
          (_ → _ ≤ (update s.worker p w' p).wakeAbsTime.ns)
      rw [update_self]
      -- the wake time is moved on by a period, or is more than one behind and set from the clock
      rcases hw'.ns with ⟨hle', -, hns⟩ | ⟨hlt, -, hns⟩
      · omega
      · omega

/-! ### `ResetWorkerTime` -/

/-- One turn of the first loop of `ResetWorkerTime`. -/
theorem takeOut_turn (hclock : IsMonotonic clock) {s : TimeWheel Ptr} {p : Ptr}
    (hs : s.Sound clock) (hp : s.queue[0]? = some p) (fuel : ℕ) (workers : List Ptr) :
    ∃ s', takeOut clock (fuel + 1) s workers = takeOut clock fuel s'.pop (workers ++ [p]) ∧
      Rescheduled clock s p s' := by
  let reset := s.resetWakeTime clock p
  have hreset : Rescheduled clock s p reset := resetWakeTime_rescheduled hclock s p
  have hfits : Fits (reset.worker p).periodNs := by
    rw [hreset.frame.periodNs p]
    exact hs.fits p
  have hle : (clock reset.reads).ns ≤ (clock (reset.reads + 1)).ns := hclock.mono _
  obtain ⟨s', heq, hs', -⟩ :=
    updateWorkerTime_rescheduled (s := { reset with reads := reset.reads + 1 }) hclock
      hreset.normal hfits (hclock.normal _) hle
  have hread : Frame reset { reset with reads := reset.reads + 1 } :=
    ⟨rfl, rfl, rfl, rfl, rfl, rfl, fun _ => rfl⟩
  refine ⟨s', ?_, ?_⟩
  · rw [takeOut, hp]
    dsimp only
    rw [heq]
    rfl
  · refine ⟨?_, hs'.queue, ?_, hs'.normal, hreset.reads.trans ((Nat.le_succ _).trans hs'.reads)⟩
    · exact hreset.frame.trans (hread.trans hs'.frame)
    · intro q hq
      exact (hs'.worker q hq).trans (hreset.worker q hq)

omit [DecidableEq Ptr] in
theorem frame_pop (s : TimeWheel Ptr) : Frame s s.pop :=
  ⟨rfl, rfl, rfl, rfl, rfl, rfl, fun _ => rfl⟩

/-- The first loop of `ResetWorkerTime` takes all workers out. -/
theorem takeOut_eq (hclock : IsMonotonic clock) {fuel : ℕ} {s : TimeWheel Ptr}
    {workers : List Ptr} (hs : s.Sound clock) (hfuel : s.queue.size ≤ fuel) :
    ∃ s' out, takeOut clock fuel s workers = some (s', workers ++ out) ∧ s'.Sound clock ∧
      s'.queue = #[] ∧ out.Perm s.queue.toList ∧ Frame s s' := by
  have hdone : s.queue = #[] → ∃ s' out, some (s, workers) = some (s', workers ++ out) ∧
      s'.Sound clock ∧ s'.queue = #[] ∧ out.Perm s.queue.toList ∧ Frame s s' := by
    intro hempty
    exact ⟨s, [], by rw [List.append_nil], hs, hempty, by rw [hempty], Frame.refl s⟩
  induction fuel generalizing s workers with
  | zero => exact hdone (Array.eq_empty_of_size_eq_zero (by omega))
  | succ fuel ih =>
    cases hp : s.queue[0]? with
    | none =>
      rw [takeOut, hp]
      exact hdone (Array.eq_empty_of_size_eq_zero (by simpa using hp))
    | some p =>
      obtain ⟨s₁, heq, hs₁⟩ := takeOut_turn hclock hs hp fuel workers
      obtain ⟨hsound, hperm⟩ := hs₁.pop hclock hs hp
      -- the queue gets shorter, so the fuel is enough
      have hsize : s₁.pop.queue.size + 1 = s.queue.size := by
        have := hperm.length_eq
        simpa using this.symm
      have hdone₁ : s₁.pop.queue = #[] → ∃ s' out,
          some (s₁.pop, workers ++ [p]) = some (s', workers ++ [p] ++ out) ∧ s'.Sound clock ∧
            s'.queue = #[] ∧ out.Perm s₁.pop.queue.toList ∧ Frame s₁.pop s' := by
        intro hempty
        exact ⟨s₁.pop, [], by rw [List.append_nil], hsound, hempty, by rw [hempty], Frame.refl _⟩
      obtain ⟨s', out, heq', hsound', hempty, hout, hframe⟩ := ih hsound (by omega) hdone₁
      refine ⟨s', p :: out, ?_, hsound', hempty, (hout.cons p).trans hperm.symm, ?_⟩
      · rw [heq, heq', List.append_assoc, List.singleton_append]
      · exact hs₁.frame.trans ((frame_pop s₁).trans hframe)

omit [DecidableEq Ptr] in
/-- The second loop of `ResetWorkerTime` puts them in again. -/
theorem foldl_push {workers : List Ptr} {s : TimeWheel Ptr} (hs : s.Sound clock)
    (hnodup : (workers ++ s.queue.toList).Nodup) :
    (workers.foldl push s).Sound clock ∧
      (workers.foldl push s).queue.toList.Perm (workers ++ s.queue.toList) ∧
      Frame s (workers.foldl push s) := by
  induction workers generalizing s with
  | nil => exact ⟨hs, .refl _, Frame.refl s⟩
  | cons p workers ih =>
    rw [List.cons_append, List.nodup_cons] at hnodup
    have hp : p ∉ s.queue := by
      intro h
      exact hnodup.1 (List.mem_append_right _ (by simpa using h))
    have hperm : (workers ++ (s.push p).queue.toList).Perm (p :: (workers ++ s.queue.toList)) :=
      ((push_perm s p).append_left workers).trans List.perm_middle
    obtain ⟨hsound, hqueue, hframe⟩ :=
      ih (hs.push hp) (hperm.nodup_iff.mpr (List.nodup_cons.mpr hnodup))
    exact ⟨hsound, hqueue.trans hperm, (frame_push s p).trans hframe⟩

/-- **`ResetWorkerTime` returns, with the same workers in the queue.** -/
theorem resetWorkerTime_eq (hclock : IsMonotonic clock) {s : TimeWheel Ptr}
    (hs : s.Sound clock) :
    ∃ s', s.resetWorkerTime clock = some s' ∧ s'.Sound clock ∧
      s'.queue.toList.Perm s.queue.toList ∧ Frame s s' := by
  obtain ⟨s₁, out, heq, hsound, hempty, hout, hframe⟩ := takeOut_eq hclock hs (le_refl _)
  have hnodup : (out ++ s₁.queue.toList).Nodup := by
    rw [hempty, List.append_nil]
    exact hout.nodup_iff.mpr hs.nodup
  obtain ⟨hsound', hqueue, hframe'⟩ := foldl_push hsound hnodup
  rw [hempty, List.append_nil] at hqueue
  refine ⟨out.foldl push s₁, ?_, hsound', hqueue.trans hout, hframe.trans hframe'⟩
  unfold resetWorkerTime
  rw [heq]
  rfl

/-! ### `Loop` -/

/-- What a turn of `Loop` does that runs the worker `p`. -/
structure Ran (clock : ℕ → Timespec) (s : TimeWheel Ptr) (p : Ptr) (s' : TimeWheel Ptr) :
    Prop where
  sound : s'.Sound clock
  front : s.queue[0]? = some p
  due : (s.worker p).wakeAbsTime.ns ≤ s.now.ns
  isRunning : s'.isRunning = s.isRunning
  queue : s'.queue.toList.Perm s.queue.toList
  now : s'.now = s.now
  pc : s'.pc = s.pc
  runs : s'.runs = p :: s.runs
  added : s'.added = s.added
  deleted : s'.deleted = s.deleted
  worker : ∀ q, q ≠ p → s'.worker q = s.worker q
  periodNs : (s'.worker p).periodNs = (s.worker p).periodNs
  of_zero : (s.worker p).periodNs = 0 → s'.worker p = s.worker p
  of_pos : (s.worker p).periodNs ≠ 0 →
    (s.worker p).wakeAbsTime.ns + (s.worker p).periodNs.toNat ≤ (s'.worker p).wakeAbsTime.ns ∧
      s.now.ns ≤ (s'.worker p).wakeAbsTime.ns ∧
      ((s.worker p).wakeAbsTime.ns + (s.worker p).periodNs.toNat < s.now.ns →
        s.now.ns + (s.worker p).periodNs.toNat ≤ (s'.worker p).wakeAbsTime.ns)

theorem runFront_eq (hclock : IsMonotonic clock) {s : TimeWheel Ptr} {p : Ptr}
    (hs : s.Sound clock) (hp : s.queue[0]? = some p)
    (hdue : (s.worker p).isExpired s.now = true) :
    ∃ s', s.runFront clock p = some s' ∧ Ran clock s p s' := by
  obtain ⟨s₁, heq, hs₁, hzero, hpos⟩ :=
    updateWorkerTime_rescheduled hclock (hs.normal p) (hs.fits p) hs.now hs.le
  obtain ⟨hsound, hperm⟩ := hs₁.pop hclock hs hp
  -- it was in the queue once, so it can be pushed again
  have hnotMem : p ∉ s₁.pop.queue := by
    intro h
    exact (List.nodup_cons.mp (hperm.nodup_iff.mp hs.nodup)).1 (by simpa using h)
  have hsound' : ({ s₁ with runs := p :: s₁.runs }.pop).Sound clock :=
    ⟨hsound.ordered, hsound.nodup, hsound.normal, hsound.fits, hsound.now, hsound.le⟩
  refine ⟨({ s₁ with runs := p :: s₁.runs }.pop).push p, ?_, ?_⟩
  · unfold runFront
    rw [heq]
    rfl
  · exact
      { sound := hsound'.push hnotMem
        front := hp
        due := (BaseWorker.isExpired_iff (hs.normal p) hs.now).mp hdue
        isRunning := hs₁.frame.isRunning
        queue := (push_perm _ p).trans hperm.symm
        now := hs₁.frame.now
        pc := hs₁.frame.pc
        runs := congrArg (p :: ·) hs₁.frame.runs
        added := hs₁.frame.added
        deleted := hs₁.frame.deleted
        worker := hs₁.worker
        periodNs := hs₁.frame.periodNs p
        of_zero := fun h => congrArg (fun s => s.worker p) (hzero h)
        of_pos := hpos }

omit [DecidableEq Ptr] in
theorem sound_readNow (hclock : IsMonotonic clock) {s : TimeWheel Ptr} (hs : s.Sound clock) :
    (s.readNow clock).Sound clock :=
  ⟨hs.ordered, hs.nodup, hs.normal, hs.fits, hclock.normal _, hclock.mono _⟩

/-- **The turns of `Loop`**: it ends, runs the front that is due, or reads the clock when nothing
in the queue is due. -/
theorem iterate_cases (hclock : IsMonotonic clock) {s s' : TimeWheel Ptr} (hs : s.Sound clock)
    (h : s.iterate clock = some s') :
    (s.isRunning = false ∧ s' = { s with pc := .finished }) ∨
      (s.isRunning = true ∧ ∃ p, Ran clock s p s') ∨
      (s.isRunning = true ∧ (∀ q ∈ s.queue, s.now.ns < (s.worker q).wakeAbsTime.ns) ∧
        s' = s.readNow clock) := by
  unfold iterate at h
  split_ifs at h with hrun
  · right
    cases hp : s.queue[0]? with
    | none => simp [hp] at h
    | some p =>
      rw [hp] at h
      dsimp only at h
      split_ifs at h with hdue
      · obtain ⟨s₁, heq, hran⟩ := runFront_eq hclock hs hp hdue
        obtain rfl : s₁ = s' := Option.some.inj (heq.symm.trans h)
        exact .inl ⟨hrun, p, hran⟩
      -- the front is not due, and no worker is before it
      · refine .inr ⟨hrun, fun q hq => ?_, (Option.some.inj h).symm⟩
        rw [BaseWorker.isExpired_iff (hs.normal p) hs.now, not_le] at hdue
        exact lt_of_lt_of_le hdue (hs.wake_front_le hp hq)
  · exact .inl ⟨by simpa using hrun, (Option.some.inj h).symm⟩

/-- A turn of `Loop` does not get stuck while there is a worker. -/
theorem iterate_isSome (hclock : IsMonotonic clock) {s : TimeWheel Ptr} (hs : s.Sound clock)
    (hpos : 0 < s.queue.size) : ∃ s', s.iterate clock = some s' := by
  unfold iterate
  split_ifs
  · rw [Array.getElem?_eq_getElem hpos]
    dsimp only
    split_ifs with hdue
    · obtain ⟨s', heq, -⟩ := runFront_eq hclock hs (Array.getElem?_eq_getElem hpos) hdue
      exact ⟨s', heq⟩
    · exact ⟨_, rfl⟩
  · exact ⟨_, rfl⟩

/-! ### The whole executor -/

/-- The invariant of the executor. -/
structure Inv (clock : ℕ → Timespec) (s : TimeWheel Ptr) : Prop where
  sound : s.Sound clock
  added_nodup : s.added.Nodup
  /-- Every worker is in the queue or was deleted. -/
  added : s.added.Perm (s.queue.toList ++ s.deleted)
  deleted : s.pc ≠ .shutDown → s.deleted = []
  queue : s.pc = .shutDown → s.queue = #[]
  size : s.pc = .spawned ∨ s.pc = .loop → 0 < s.queue.size

/-- The periods that workers are added with are less than 292 years. -/
def FitsLong (_ : TimeWheel Ptr) : Event Ptr → Prop
  | .addWorker _ _ periodNs => Fits periodNs
  | _ => True

instance (s : TimeWheel Ptr) : ∀ e : Event Ptr, Decidable (FitsLong s e)
  | .addWorker _ _ periodNs => inferInstanceAs (Decidable (Fits periodNs))
  | .start | .begin | .iterate | .shutdown | .complete => .isTrue trivial

theorem sound_addWorker (hclock : IsMonotonic clock) {s : TimeWheel Ptr} (hs : s.Sound clock)
    {p : Ptr} (hp : p ∉ s.queue) (name : String) {periodNs : UInt64} (hfits : Fits periodNs)
    (added : List Ptr) :
    ({ s with
        worker := update s.worker p { name, periodNs, wakeAbsTime := clock s.reads }
        reads := s.reads + 1, added } : TimeWheel Ptr).Sound clock where
  ordered := by
    intro i c hic x y hx hy
    -- the new worker is not in the queue yet
    have hne : ∀ (i : ℕ) x, s.queue[i]? = some x → x ≠ p := by
      intro j z hz hzp
      rw [hzp] at hz
      exact hp (Array.mem_of_getElem? hz)
    show (update s.worker p _ x).less (update s.worker p _ y) = false
    rw [update_of_ne (hne i x hx), update_of_ne (hne c y hy)]
    exact hs.ordered i c hic x y hx hy
  nodup := hs.nodup
  normal q := by
    show (update s.worker p _ q).wakeAbsTime.Normal
    rw [update_apply]
    split_ifs
    · exact hclock.normal _
    · exact hs.normal q
  fits q := by
    show Fits (update s.worker p _ q).periodNs
    rw [update_apply]
    split_ifs
    · exact hfits
    · exact hs.fits q
  now := hs.now
  le := hs.le.trans (hclock.mono _)

theorem inv_addWorker (hclock : IsMonotonic clock) {s s' : TimeWheel Ptr} (hi : s.Inv clock)
    {p : Ptr} {name : String} {periodNs : UInt64} (hfits : Fits periodNs)
    (h : s.step clock (.addWorker p name periodNs) = some s') : s'.Inv clock := by
  unfold step at h
  dsimp only at h
  split_ifs at h with hidle
  obtain ⟨hpc, hp⟩ := hidle
  obtain rfl := Option.some.inj h
  have hdel : s.deleted = [] := hi.deleted (by rw [hpc]; decide)
  have hperm : s.added.Perm s.queue.toList := by simpa [hdel] using hi.added
  have hqueue : p ∉ s.queue := fun hmem => hp (hperm.mem_iff.mpr (by simpa using hmem))
  have hsound := sound_addWorker hclock hi.sound hqueue name hfits (p :: s.added)
  refine ⟨hsound.push hqueue, List.nodup_cons.mpr ⟨hp, hi.added_nodup⟩, ?_, fun _ => hdel, ?_, ?_⟩
  · have hpush := push_perm { s with
        worker := update s.worker p { name, periodNs, wakeAbsTime := clock s.reads }
        reads := s.reads + 1, added := p :: s.added } p
    show (p :: s.added).Perm (_ ++ s.deleted)
    rw [hdel, List.append_nil]
    rw [hdel] at hpush
    exact (hperm.cons p).trans hpush.symm
  · intro hshut
    exact absurd (hpc.symm.trans hshut) (by decide)
  · rintro (hspawned | hloop)
    · exact absurd (hpc.symm.trans hspawned) (by decide)
    · exact absurd (hpc.symm.trans hloop) (by decide)

theorem inv_iterate (hclock : IsMonotonic clock) {s s' : TimeWheel Ptr} (hi : s.Inv clock)
    (hpc : s.pc = .loop) (h : s.iterate clock = some s') : s'.Inv clock := by
  have hdel : s.deleted = [] := hi.deleted (by rw [hpc]; decide)
  rcases iterate_cases hclock hi.sound h with ⟨-, rfl⟩ | ⟨-, p, hran⟩ | ⟨-, -, rfl⟩
  · refine ⟨⟨hi.sound.ordered, hi.sound.nodup, hi.sound.normal, hi.sound.fits, hi.sound.now,
      hi.sound.le⟩, hi.added_nodup, hi.added, fun _ => hdel, nofun, nofun⟩
  · refine ⟨hran.sound, ?_, ?_, ?_, ?_, ?_⟩
    · rw [hran.added]
      exact hi.added_nodup
    · rw [hran.added, hran.deleted]
      exact hi.added.trans (hran.queue.symm.append_right _)
    · intro _
      rw [hran.deleted]
      exact hdel
    · intro hshut
      rw [hran.pc, hpc] at hshut
      cases hshut
    · intro _
      rw [← Array.length_toList, hran.queue.length_eq, Array.length_toList]
      exact hi.size (.inr hpc)
  · exact ⟨sound_readNow hclock hi.sound, hi.added_nodup, hi.added, hi.deleted, hi.queue, hi.size⟩

theorem inv_begin (hclock : IsMonotonic clock) {s s' : TimeWheel Ptr} (hi : s.Inv clock)
    (h : s.step clock .begin = some s') : s'.Inv clock := by
  unfold step at h
  dsimp only at h
  split_ifs at h with hpc
  obtain ⟨s₁, heq, hsound, hperm, hframe⟩ := resetWorkerTime_eq hclock hi.sound
  rw [heq, Option.map_some] at h
  obtain rfl := Option.some.inj h
  refine ⟨⟨hsound.ordered, hsound.nodup, hsound.normal, hsound.fits, hclock.normal _,
    hclock.mono _⟩, ?_, ?_, ?_, nofun, ?_⟩
  · show s₁.added.Nodup
    rw [hframe.added]
    exact hi.added_nodup
  · show s₁.added.Perm (s₁.queue.toList ++ s₁.deleted)
    rw [hframe.added, hframe.deleted]
    exact hi.added.trans (hperm.symm.append_right _)
  · intro _
    show s₁.deleted = []
    rw [hframe.deleted]
    exact hi.deleted (by rw [hpc]; decide)
  · intro _
    show 0 < s₁.queue.size
    rw [← Array.length_toList, hperm.length_eq, Array.length_toList]
    exact hi.size (.inl hpc)

/-- The invariant is kept by every event. -/
theorem inv_step (hclock : IsMonotonic clock) {s s' : TimeWheel Ptr} {e : Event Ptr}
    (hi : s.Inv clock) (hfits : FitsLong s e) (h : s.step clock e = some s') : s'.Inv clock := by
  -- the steps that leave the queue, the workers and the clock alone
  have hsame : ∀ {s' : TimeWheel Ptr}, s'.queue = s.queue → s'.worker = s.worker →
      s'.now = s.now → s'.reads = s.reads → s'.Sound clock := by
    intro s' hqueue hworker hnow hreads
    refine ⟨?_, ?_, ?_, ?_, ?_, ?_⟩
    · rw [hqueue, hworker]; exact hi.sound.ordered
    · rw [hqueue]; exact hi.sound.nodup
    · rw [hworker]; exact hi.sound.normal
    · rw [hworker]; exact hi.sound.fits
    · rw [hnow]; exact hi.sound.now
    · rw [hnow, hreads]; exact hi.sound.le
  cases e with
  | addWorker p name periodNs => exact inv_addWorker hclock hi hfits h
  | start =>
    unfold step at h
    dsimp only at h
    have hdel : s.pc = .idle → s.deleted = [] := fun hpc => hi.deleted (by rw [hpc]; decide)
    split_ifs at h with hpc hempty
    · obtain rfl := Option.some.inj h
      exact ⟨hsame rfl rfl rfl rfl, hi.added_nodup, hi.added, fun _ => hdel hpc, nofun, nofun⟩
    · obtain rfl := Option.some.inj h
      have hsize : 0 < s.queue.size := by
        rw [Array.isEmpty_iff_size_eq_zero] at hempty
        exact Nat.pos_of_ne_zero hempty
      exact ⟨hsame rfl rfl rfl rfl, hi.added_nodup, hi.added, fun _ => hdel hpc, nofun,
        fun _ => hsize⟩
  | begin => exact inv_begin hclock hi h
  | iterate =>
    unfold step at h
    dsimp only at h
    split_ifs at h with hpc
    exact inv_iterate hclock hi hpc h
  | shutdown =>
    unfold step at h
    dsimp only at h
    split_ifs at h
    obtain rfl := Option.some.inj h
    exact ⟨hsame rfl rfl rfl rfl, hi.added_nodup, hi.added, hi.deleted, hi.queue, hi.size⟩
  | complete =>
    unfold step at h
    dsimp only at h
    split_ifs at h
    obtain rfl := Option.some.inj h
    -- the loop has ended, so all workers are still in the queue and go over to `deleted`
    refine ⟨⟨?_, List.nodup_nil, hi.sound.normal, hi.sound.fits, hi.sound.now, hi.sound.le⟩,
      hi.added_nodup, hi.added, fun hne => absurd rfl hne, fun _ => rfl, nofun⟩
    intro i c _
    exact BinaryHeap.inOrder_of_size_le (Nat.zero_le _)

/-- **The invariant holds whatever happens.** -/
theorem inv_of_reachable (hclock : IsMonotonic clock) {s : TimeWheel Ptr}
    (h : (timeWheelSystem clock).ReachableUnder FitsLong s) : s.Inv clock := by
  refine h.invariant ⟨⟨?_, List.nodup_nil, ?_, ?_, ?_, hclock.nonneg⟩, List.nodup_nil, .refl _,
    fun _ => rfl, nofun, nofun⟩ fun s e s' hi hfits he => inv_step hclock hi hfits he
  · intro i c _
    exact BinaryHeap.inOrder_of_size_le (Nat.zero_le _)
  · intro _
    show Normal ⟨0, 0⟩
    decide
  · intro _
    show Fits 0
    decide
  · show Normal ⟨0, 0⟩
    decide

end TimeWheel

end AimrtComm.Executor
