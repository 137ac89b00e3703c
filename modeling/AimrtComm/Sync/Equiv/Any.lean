import AimrtComm.Sync.Any

/-!
## Who continues the coroutine of `sync::any`

The winner is the first task that calls `TryResume` (`Stage`): it alone runs its handler and stores
its result, and then it either posts a resumption or sets `inline_resume`, by the guess that
`DoSuspend` made when it spawned the task.  The guess is right as long as `await_suspend` still
runs.  A task without an executor that was suspended in between sets the flag when nobody reads it
any more, and the coroutine is lost (`Lost`).
-/

namespace AimrtComm.Sync.Any

open Function

variable {n : ℕ} {μ ρ : Fin n → Type*} {a : Any n μ ρ} {s s' : State n μ ρ}

/-! ### The steps -/

@[simp]
theorem progress_goto (i : Fin n) (progress : Progress (μ i) (ρ i)) :
    (s.goto i progress).progress i = progress := update_self ..

theorem progress_goto_of_ne {i j : Fin n} (h : j ≠ i) (progress : Progress (μ i) (ρ i)) :
    (s.goto i progress).progress j = s.progress j := update_of_ne h ..

/-- What `await_suspend` can do next. -/
theorem next_cases (h : s.next = some s') :
    (∃ k, ∃ hk : k < n, s.phase = .starting k ∧
        s' = { s with phase := .starting (k + 1) }.goto ⟨k, hk⟩ .started) ∨
      (s.used = true ∧ s' = { s with phase := .done }) ∨
      (s.used = false ∧ s' = { s with phase := .returned true }) ∨
      (s.phase = .done ∧ s' = { s with phase := .returned !s.inlineResume }) := by
  rw [State.next] at h
  split at h
  case h_1 k hphase =>
    split_ifs at h with hk hused
    · exact .inl ⟨k, hk, hphase, (Option.some.inj h).symm⟩
    · exact .inr (.inl ⟨hused, (Option.some.inj h).symm⟩)
    · exact .inr (.inr (.inl ⟨by simpa using hused, (Option.some.inj h).symm⟩))
  case h_2 hphase => exact .inr (.inr (.inr ⟨hphase, (Option.some.inj h).symm⟩))
  case h_3 => cases h

/-- A task that completes was started. -/
theorem complete_cases {i : Fin n} {value : μ i} (h : s.complete i value = some s') :
    s.progress i = .started ∧
      s' = { s with used := true }.goto i (if s.used then .lost else .won value) := by
  rw [State.complete] at h
  split at h
  case h_1 hprogress => exact ⟨hprogress, (Option.some.inj h).symm⟩
  case h_2 => cases h

/-- What a task can do after its `TryResume`. -/
theorem advance_cases {i : Fin n} (h : s.advance a i = some s') :
    (∃ value, s.progress i = .won value ∧
        s' = { s with handlers := s.handlers ++ [i] }.goto i
          (.handled ((a.tasks i).finalHandler value))) ∨
      (∃ result, s.progress i = .handled result ∧
        s' = { s with result := some ⟨i, result⟩ }.goto i .stored) ∨
      (s.progress i = .stored ∧ s' = (s.continueAwaiter a i).goto i .finished) := by
  rw [State.advance] at h
  split at h
  case h_1 value hprogress => exact .inl ⟨value, hprogress, (Option.some.inj h).symm⟩
  case h_2 result hprogress => exact .inr (.inl ⟨result, hprogress, (Option.some.inj h).symm⟩)
  case h_3 hprogress => exact .inr (.inr ⟨hprogress, (Option.some.inj h).symm⟩)
  case h_4 => cases h

/-! ### The winner -/

/-- The task is not the winner, or not yet. -/
def Behind {μ ρ : Type*} (progress : Progress μ ρ) : Prop :=
  progress = .created ∨ progress = .started ∨ progress = .lost

/-- What the context holds when the winner, which completed with `value`, has come so far. -/
def Reached (a : Any n μ ρ) (s : State n μ ρ) (i : Fin n) (value : μ i) :
    Progress (μ i) (ρ i) → Prop
  | .won v => v = value ∧ s.handlers = [] ∧ s.result = none ∧ s.inlineResume = false ∧
      s.posted + s.resumed = 0
  | .handled r => r = (a.tasks i).finalHandler value ∧ s.handlers = [i] ∧ s.result = none ∧
      s.inlineResume = false ∧ s.posted + s.resumed = 0
  | .stored => s.handlers = [i] ∧ s.result = some ⟨i, (a.tasks i).finalHandler value⟩ ∧
      s.inlineResume = false ∧ s.posted + s.resumed = 0
  | .finished => s.handlers = [i] ∧ s.result = some ⟨i, (a.tasks i).finalHandler value⟩ ∧
      s.inlineResume = a.isInline i ∧ s.posted + s.resumed = if a.isInline i then 0 else 1
  | _ => False

/-- No task has completed. -/
structure Untaken (s : State n μ ρ) : Prop where
  used : s.used = false
  progress : ∀ i, s.progress i = .created ∨ s.progress i = .started
  handlers : s.handlers = []
  result : s.result = none
  inlineResume : s.inlineResume = false
  resumptions : s.posted + s.resumed = 0
  phase : s.phase ≠ .done ∧ s.phase ≠ .returned false

/-- The task `i` was the first to complete. -/
structure Taken (a : Any n μ ρ) (s : State n μ ρ) (i : Fin n) (value : μ i) : Prop where
  used : s.used = true
  others : ∀ j, j ≠ i → Behind (s.progress j)
  winner : Reached a s i value (s.progress i)
  phase : s.phase = .returned false → s.inlineResume = true

/-- Whether and by whom `used` was taken. -/
inductive Stage (a : Any n μ ρ) (s : State n μ ρ) : Option (Σ i, μ i) → Prop where
  | untaken (h : Untaken s) : Stage a s none
  | taken {i : Fin n} {value : μ i} (h : Taken a s i value) : Stage a s (some ⟨i, value⟩)

/-- What holds in every state, `first` being the first `TryResume`. -/
structure Inv (a : Any n μ ρ) (first : Option (Σ i, μ i)) (s : State n μ ρ) : Prop where
  stage : Stage a s first
  /-- Tasks are started in their order. -/
  created : ∀ k, s.phase = .starting k → ∀ i : Fin n, k ≤ i → s.progress i = .created

theorem inv_init (a : Any n μ ρ) : Inv a none (system a).init where
  stage := .untaken
    { used := rfl, progress := fun _ => .inl rfl, handlers := rfl, result := rfl,
      inlineResume := rfl, resumptions := rfl, phase := ⟨nofun, nofun⟩ }
  created _ _ _ _ := rfl

/-- A task that is behind is not the winner. -/
theorem Reached.not_behind {i : Fin n} {value : μ i} {progress : Progress (μ i) (ρ i)}
    (h : Reached a s i value progress) : ¬Behind progress := by
  rintro (rfl | rfl | rfl) <;> exact h

/-- Only the winner has more to do. -/
theorem Taken.eq_of_not_behind {i j : Fin n} {value : μ i} (h : Taken a s i value)
    (hj : ¬Behind (s.progress j)) : j = i :=
  by_contra fun hne => hj (h.others j hne)

/-- The steps of `await_suspend` keep the invariant. -/
theorem inv_next {first : Option (Σ i, μ i)} (hinv : Inv a first s) (h : s.next = some s') :
    Inv a first s' := by
  rcases next_cases h with ⟨k, hk, hphase, rfl⟩ | ⟨hused, rfl⟩ | ⟨hused, rfl⟩ | ⟨hphase, rfl⟩
  · -- the task `k` is started, which was not
    have hcreated : s.progress ⟨k, hk⟩ = .created := hinv.created k hphase ⟨k, hk⟩ (Nat.le_refl k)
    constructor
    · cases hinv.stage with
      | untaken hs =>
        refine .untaken { hs with progress := fun i => ?_, phase := ⟨nofun, nofun⟩ }
        by_cases hi : i = ⟨k, hk⟩
        · subst hi
          exact .inr (progress_goto ..)
        · rw [progress_goto_of_ne hi]
          exact hs.progress i
      | @taken i value hs =>
        have hi : i ≠ ⟨k, hk⟩ := by
          rintro rfl
          exact hs.winner.not_behind (.inl hcreated)
        refine .taken { used := hs.used, others := fun j hj => ?_, winner := ?_, phase := nofun }
        · by_cases hjk : j = ⟨k, hk⟩
          · subst hjk
            exact .inr (.inl (progress_goto ..))
          · rw [progress_goto_of_ne hjk]
            exact hs.others j hj
        · rw [progress_goto_of_ne hi]
          exact hs.winner
    · intro k' hk' i hi
      obtain rfl : k + 1 = k' := Phase.starting.inj hk'
      have hne : i ≠ ⟨k, hk⟩ := by
        rintro rfl
        exact absurd hi (Nat.not_succ_le_self k)
      rw [progress_goto_of_ne hne]
      exact hinv.created k hphase i (by omega)
  · refine ⟨?_, nofun⟩
    cases hinv.stage with
    | untaken hs =>
      rw [hs.used] at hused
      cases hused
    | taken hs => exact .taken { hs with phase := nofun }
  · refine ⟨?_, nofun⟩
    cases hinv.stage with
    | untaken hs => exact .untaken { hs with phase := ⟨nofun, nofun⟩ }
    | taken hs => exact .taken { hs with phase := nofun }
  · refine ⟨?_, nofun⟩
    cases hinv.stage with
    | untaken hs => exact absurd hphase hs.phase.1
    | taken hs =>
      -- `await_suspend` returns `false` when it has read the flag
      refine .taken { hs with phase := fun hreturned => ?_ }
      simpa using hreturned

/-- The first task that completes is the winner. -/
theorem inv_complete {first : Option (Σ i, μ i)} {i : Fin n} {value : μ i} (hinv : Inv a first s)
    (h : s.complete i value = some s') : Inv a (first.or (some ⟨i, value⟩)) s' := by
  obtain ⟨hprogress, rfl⟩ := complete_cases h
  constructor
  · cases hinv.stage with
    | untaken hs =>
      -- this task takes the flag
      refine .taken { used := rfl, others := fun j hj => ?_, winner := ?_, phase := ?_ }
      · rw [progress_goto_of_ne hj]
        exact (hs.progress j).imp_right .inl
      · rw [progress_goto, if_neg (by simp [hs.used])]
        exact ⟨rfl, hs.handlers, hs.result, hs.inlineResume, hs.resumptions⟩
      · intro hphase
        exact absurd hphase hs.phase.2
    | @taken k value' hs =>
      -- the flag is gone, and the winner is another task
      have hk : k ≠ i := by
        rintro rfl
        exact hs.winner.not_behind (.inr (.inl hprogress))
      refine .taken { used := rfl, others := fun j hj => ?_, winner := ?_, phase := hs.phase }
      · by_cases hji : j = i
        · subst hji
          rw [progress_goto, if_pos hs.used]
          exact .inr (.inr rfl)
        · rw [progress_goto_of_ne hji]
          exact hs.others j hj
      · rw [progress_goto_of_ne hk]
        exact hs.winner
  · intro k hk j hj
    have hcreated := hinv.created k hk j hj
    have hji : j ≠ i := by
      rintro rfl
      rw [hcreated] at hprogress
      cases hprogress
    rw [progress_goto_of_ne hji]
    exact hcreated

/-- The winner goes on. -/
theorem inv_advance {first : Option (Σ i, μ i)} {i : Fin n} (hinv : Inv a first s)
    (h : s.advance a i = some s') : Inv a first s' := by
  have hcases := advance_cases h
  have hnot : ¬Behind (s.progress i) := by
    rcases hcases with ⟨_, hi, -⟩ | ⟨_, hi, -⟩ | ⟨hi, -⟩ <;> simp [Behind, hi]
  have hcreated : ∀ (t : State n μ ρ) (progress : Progress (μ i) (ρ i)), t.progress = s.progress →
      t.phase = s.phase → ∀ k, (t.goto i progress).phase = .starting k → ∀ j : Fin n, k ≤ j →
        (t.goto i progress).progress j = .created := by
    intro t progress hprogress hphase k hk j hj
    have hj := hinv.created k (hphase ▸ hk) j hj
    have hji : j ≠ i := by
      rintro rfl
      exact hnot (.inl hj)
    rw [progress_goto_of_ne hji, hprogress]
    exact hj
  cases hinv.stage with
  | untaken hs => exact absurd ((hs.progress i).imp_right .inl) hnot
  | @taken k value hs =>
    obtain rfl : i = k := hs.eq_of_not_behind hnot
    have hothers : ∀ (t : State n μ ρ) (progress : Progress (μ i) (ρ i)),
        t.progress = s.progress → ∀ j, j ≠ i → Behind ((t.goto i progress).progress j) := by
      intro t progress hprogress j hj
      rw [progress_goto_of_ne hj, hprogress]
      exact hs.others j hj
    have hwinner := hs.winner
    rcases hcases with ⟨v, hi, rfl⟩ | ⟨r, hi, rfl⟩ | ⟨hi, rfl⟩
    · -- the handler runs
      rw [hi] at hwinner
      obtain ⟨rfl, hhandlers, hresult, hinline, hcount⟩ := hwinner
      refine ⟨.taken ?_, hcreated _ _ rfl rfl⟩
      refine { used := hs.used, others := hothers _ _ rfl, winner := ?_, phase := hs.phase }
      rw [progress_goto]
      exact ⟨rfl, by simp [State.goto, hhandlers], hresult, hinline, hcount⟩
    · -- its result is stored
      rw [hi] at hwinner
      obtain ⟨rfl, hhandlers, -, hinline, hcount⟩ := hwinner
      refine ⟨.taken ?_, hcreated _ _ rfl rfl⟩
      refine { used := hs.used, others := hothers _ _ rfl, winner := ?_, phase := hs.phase }
      rw [progress_goto]
      exact ⟨hhandlers, rfl, hinline, hcount⟩
    · -- the coroutine is posted, or the flag is set
      rw [hi] at hwinner
      obtain ⟨hhandlers, hresult, hinline, hcount⟩ := hwinner
      rw [State.continueAwaiter, a.currExe_isValid, if_pos rfl]
      cases hguess : a.isInline i with
      | false =>
        refine ⟨.taken ?_, hcreated _ _ rfl rfl⟩
        refine { used := hs.used, others := hothers _ _ rfl, winner := ?_, phase := hs.phase }
        rw [progress_goto]
        refine ⟨hhandlers, hresult, hinline.trans hguess.symm, ?_⟩
        show s.posted + 1 + s.resumed = _
        rw [hguess, if_neg (by simp)]
        omega
      | true =>
        refine ⟨.taken ?_, hcreated _ _ rfl rfl⟩
        refine { used := hs.used, others := hothers _ _ rfl, winner := ?_, phase := fun _ => rfl }
        rw [progress_goto]
        refine ⟨hhandlers, hresult, hguess.symm, ?_⟩
        rw [hguess, if_pos rfl]
        exact hcount

/-- A resumption that was posted is run once. -/
theorem inv_resume {first : Option (Σ i, μ i)} (hinv : Inv a first s) (hposted : 0 < s.posted) :
    Inv a first { s with posted := s.posted - 1, resumed := s.resumed + 1 } := by
  have hcount : s.posted - 1 + (s.resumed + 1) = s.posted + s.resumed := by omega
  refine ⟨?_, hinv.created⟩
  cases hinv.stage with
  | untaken hs => exact .untaken { hs with resumptions := hcount.trans hs.resumptions }
  | @taken i value hs =>
    refine .taken { hs with winner := ?_ }
    have hwinner := hs.winner
    show Reached a _ i value (s.progress i)
    cases hi : s.progress i <;> rw [hi] at hwinner <;> simp only [Reached, hcount] at hwinner ⊢ <;>
      exact hwinner

theorem inv_step {first : Option (Σ i, μ i)} {e : Event n μ} (hinv : Inv a first s)
    (h : s.step a e = some s') : Inv a (first.or e.tryResume?) s' := by
  cases e with
  | complete i value => exact inv_complete hinv h
  | next =>
    show Inv a (first.or none) s'
    rw [Option.or_none]
    exact inv_next hinv h
  | advance i =>
    show Inv a (first.or none) s'
    rw [Option.or_none]
    exact inv_advance hinv h
  | resume =>
    show Inv a (first.or none) s'
    rw [Option.or_none]
    rw [State.step] at h
    split_ifs at h with hposted
    cases h
    exact inv_resume hinv hposted

/-- The invariant of every run. -/
theorem inv_of_run {events : List (Event n μ)} (h : (system a).run events = some s) :
    Inv a (firstTryResume events) s := by
  refine System.run_invariant (I := fun events s => Inv a (firstTryResume events) s)
    (inv_init a) ?_ h
  intro events s e s' hinv hstep
  have hfirst : firstTryResume (events ++ [e]) = (firstTryResume events).or e.tryResume? := by
    rw [firstTryResume, List.findSome?_append]
    cases e <;> rfl
  rw [hfirst]
  exact inv_step hinv hstep

/-! ### The coroutine that nobody continues -/

/-- The winner has set `inline_resume`, and `await_suspend` has returned without reading it. -/
def Lost (a : Any n μ ρ) (s : State n μ ρ) : Prop :=
  s.phase = .returned true ∧ ∃ i, s.progress i = .finished ∧ a.isInline i = true

/-- A task that was taken for inline ends its `SetResultAndResume` while `await_suspend` runs. -/
def InTime (a : Any n μ ρ) (s : State n μ ρ) : Event n μ → Prop
  | .advance i => s.progress i = .stored → a.isInline i = true → ∀ b, s.phase ≠ .returned b
  | _ => True

instance [∀ i, DecidableEq (μ i)] [∀ i, DecidableEq (ρ i)] (a : Any n μ ρ) (s : State n μ ρ) :
    ∀ e : Event n μ, Decidable (InTime a s e)
  | .advance i => inferInstanceAs (Decidable
      (s.progress i = .stored → a.isInline i = true → ∀ b, s.phase ≠ .returned b))
  | .next | .complete _ _ | .resume => .isTrue trivial

/-- The first task is the only one that can be finished. -/
theorem Inv.eq_of_finished {first : Option (Σ i, μ i)} (hinv : Inv a first s) {i : Fin n}
    (hi : s.progress i = .finished) : ∃ value, first = some ⟨i, value⟩ ∧ Taken a s i value := by
  have hnot : ¬Behind (s.progress i) := by simp [Behind, hi]
  cases hinv.stage with
  | untaken hs => exact absurd ((hs.progress i).imp_right .inl) hnot
  | @taken k value hs =>
    obtain rfl : i = k := hs.eq_of_not_behind hnot
    exact ⟨value, rfl, hs⟩

/-- `await_suspend` suspends the coroutine before there is a winner, or after it has seen that the
flag is not set. -/
theorem not_lost_of_next {first : Option (Σ i, μ i)} (hinv : Inv a first s)
    (h : s.next = some s') : ¬Lost a s' := by
  rintro ⟨hphase, i, hi, hguess⟩
  rcases next_cases h with ⟨k, hk, -, rfl⟩ | ⟨-, rfl⟩ | ⟨hused, rfl⟩ | ⟨-, rfl⟩
  · cases hphase
  · cases hphase
  · obtain ⟨value, -, hs⟩ := hinv.eq_of_finished hi
    rw [hs.used] at hused
    cases hused
  · obtain ⟨value, -, hs⟩ := hinv.eq_of_finished hi
    have hwinner := hs.winner
    rw [show s.progress i = .finished from hi] at hwinner
    have hflag : (!s.inlineResume) = true := Phase.returned.inj hphase
    rw [hwinner.2.2.1, hguess] at hflag
    cases hflag

/-- A task that is not finished by a step does not lose the coroutine. -/
theorem lost_goto_iff {t : State n μ ρ} {i : Fin n} {progress : Progress (μ i) (ρ i)}
    (hphase : t.phase = s.phase) (hprogress : t.progress = s.progress)
    (hold : s.progress i ≠ .finished) (hnew : progress ≠ .finished) :
    Lost a (t.goto i progress) ↔ Lost a s := by
  refine and_congr (by rw [← hphase]; rfl) (exists_congr fun j => and_congr_left fun _ => ?_)
  by_cases hj : j = i
  · subst hj
    rw [progress_goto]
    exact iff_of_false hnew hold
  · rw [progress_goto_of_ne hj, hprogress]

/-- **The coroutine gets lost exactly when an inline task is late.** -/
theorem not_lost_step {first : Option (Σ i, μ i)} {e : Event n μ} (hinv : Inv a first s)
    (h : s.step a e = some s') : ¬Lost a s' ↔ ¬Lost a s ∧ InTime a s e := by
  cases e with
  | next =>
    refine iff_of_true (not_lost_of_next hinv h) ⟨fun hlost => ?_, trivial⟩
    -- `await_suspend` has returned
    have h : s.next = some s' := h
    rw [State.next, hlost.1] at h
    cases h
  | complete i value =>
    obtain ⟨hi, rfl⟩ := complete_cases h
    rw [lost_goto_iff rfl rfl (by simp [hi]) (by split_ifs <;> simp)]
    exact (and_iff_left trivial).symm
  | advance i =>
    rcases advance_cases h with ⟨v, hi, rfl⟩ | ⟨r, hi, rfl⟩ | ⟨hi, rfl⟩
    · rw [lost_goto_iff rfl rfl (by simp [hi]) (by simp)]
      exact (and_iff_left fun hstored => by simp [hi] at hstored).symm
    · rw [lost_goto_iff rfl rfl (by simp [hi]) (by simp)]
      exact (and_iff_left fun hstored => by simp [hi] at hstored).symm
    · have hphase : ((s.continueAwaiter a i).goto i .finished).phase = s.phase := by
        rw [State.continueAwaiter]
        split_ifs <;> rfl
      constructor
      · intro hlost
        refine ⟨fun hs => ?_, fun _ hguess b hb => ?_⟩
        · -- the winner is the one task that can be finished
          obtain ⟨-, j, hj, -⟩ := hs
          obtain ⟨value, -, hs⟩ := hinv.eq_of_finished hj
          have hij : i = j := hs.eq_of_not_behind (by simp [Behind, hi])
          subst hij
          rw [hi] at hj
          cases hj
        · cases b with
          | true => exact hlost ⟨hphase.trans hb, i, progress_goto .., hguess⟩
          | false =>
            cases hinv.stage with
            | untaken hs => exact hs.phase.2 hb
            | taken hs =>
              -- the flag that `await_suspend` has read is not set before this step
              obtain rfl := hs.eq_of_not_behind (j := i) (by simp [Behind, hi])
              have hwinner := hs.winner
              rw [hi] at hwinner
              exact absurd ((hs.phase hb).symm.trans hwinner.2.2.1) (by simp)
      · rintro ⟨hs, htime⟩ ⟨hreturned, j, hj, hguess⟩
        by_cases hji : j = i
        · subst hji
          exact htime hi hguess true (hphase.symm.trans hreturned)
        · rw [progress_goto_of_ne hji] at hj
          have hprogress : (s.continueAwaiter a i).progress = s.progress := by
            rw [State.continueAwaiter]
            split_ifs <;> rfl
          rw [hprogress] at hj
          exact hs ⟨hphase.symm.trans hreturned, j, hj, hguess⟩
  | resume =>
    rw [State.step] at h
    split_ifs at h
    cases h
    exact (and_iff_left trivial).symm

/-! ### The coroutine goes on exactly once -/

/-- Before the winner is finished the coroutine does not go on. -/
theorem Taken.continuations_of_ne {i : Fin n} {value : μ i} (hs : Taken a s i value)
    (hi : s.progress i ≠ .finished) : s.continuations = 0 := by
  have hwinner := hs.winner
  -- until it is finished, the winner has neither set the flag nor arranged for a resumption
  have hflag : s.inlineResume = false ∧ s.posted + s.resumed = 0 := by
    cases hprogress : s.progress i with
    | won v =>
      rw [hprogress] at hwinner
      exact hwinner.2.2.2
    | handled r =>
      rw [hprogress] at hwinner
      exact hwinner.2.2.2
    | stored =>
      rw [hprogress] at hwinner
      exact hwinner.2.2
    | finished => exact absurd hprogress hi
    | _ =>
      rw [hprogress] at hwinner
      exact hwinner.elim
  have hphase : s.phase ≠ .returned false := fun hphase => by
    rw [hs.phase hphase] at hflag
    cases hflag.1
  rw [State.continuations, if_neg hphase]
  omega

/-- Afterwards it does once, unless the flag is set and not read. -/
theorem Taken.continuations_of_finished {i : Fin n} {value : μ i} (hs : Taken a s i value)
    (hi : s.progress i = .finished) : s.continuations =
      if a.isInline i = true ∧ s.phase ≠ .returned false then 0 else 1 := by
  have hwinner := hs.winner
  rw [hi] at hwinner
  obtain ⟨-, -, hflag, hcount⟩ := hwinner
  rw [State.continuations]
  cases hguess : a.isInline i with
  | true =>
    rw [hguess, if_pos rfl] at hcount
    by_cases hphase : s.phase = .returned false <;> simp [hphase] <;> omega
  | false =>
    rw [hguess, if_neg (by simp)] at hcount
    have hphase : s.phase ≠ .returned false := fun hphase => by
      rw [hs.phase hphase, hguess] at hflag
      cases hflag
    simp [hphase]
    omega

/-- What was stored is the result of the winner. -/
theorem Taken.eq_of_result {i : Fin n} {value : μ i} (hs : Taken a s i value) {r : Σ i, ρ i}
    (hr : s.result = some r) : r = ⟨i, (a.tasks i).finalHandler value⟩ := by
  have hwinner := hs.winner
  cases hprogress : s.progress i <;> rw [hprogress] at hwinner <;>
    simp only [Reached, hr, reduceCtorEq, false_and, and_false, Option.some.injEq] at hwinner
  · exact hwinner.2.1
  · exact hwinner.2.1

/-- No handler but the winner's was called. -/
theorem Taken.handlers {i : Fin n} {value : μ i} (hs : Taken a s i value) :
    s.handlers = [] ∨ s.handlers = [i] := by
  have hwinner := hs.winner
  cases hprogress : s.progress i <;> rw [hprogress] at hwinner <;> simp only [Reached] at hwinner
  · exact .inl hwinner.2.1
  · exact .inr hwinner.2.1
  · exact .inr hwinner.1
  · exact .inr hwinner.1

/-- The coroutine goes on exactly once unless it is lost. -/
theorem Inv.continuesOnce_iff_not_lost {events : List (Event n μ)}
    (hinv : Inv a (firstTryResume events) s) : ContinuesOnce a events s ↔ ¬Lost a s := by
  constructor
  · rintro h ⟨hphase, i, hi, hguess⟩
    obtain ⟨value, -, hs⟩ := hinv.eq_of_finished hi
    have hone := h.goesOn i true hi hphase
    rw [hs.continuations_of_finished hi, if_pos ⟨hguess, by simp [hphase]⟩] at hone
    omega
  · intro hlost
    generalize hfirst : firstTryResume events = first at hinv
    cases hinv.stage with
    | untaken hs =>
      have hzero : s.continuations = 0 := by
        rw [State.continuations, if_neg hs.phase.2]
        have := hs.resumptions
        omega
      constructor
      · omega
      · intro i _ hi
        rcases hs.progress i with h | h <;> rw [h] at hi <;> cases hi
      · exact fun h => absurd hzero h
      · intro r hr
        rw [State.awaitResume, hs.result] at hr
        cases hr
      · simp [hs.handlers]
    | @taken i value hs =>
      have hcases : s.progress i = .finished ∨ s.progress i ≠ .finished := em _
      constructor
      · rcases hcases with hi | hi
        · rw [hs.continuations_of_finished hi]
          split_ifs <;> omega
        · rw [hs.continuations_of_ne hi]
          omega
      · intro j suspended hj hphase
        have hji : j = i := hs.eq_of_not_behind (by simp [Behind, hj])
        subst hji
        rw [hs.continuations_of_finished hj, if_neg]
        -- otherwise the coroutine would be lost
        rintro ⟨hguess, hreturned⟩
        cases suspended with
        | true => exact hlost ⟨hphase, j, hj, hguess⟩
        | false => exact hreturned hphase
      · intro hcontinued
        have hi : s.progress i = .finished := by
          by_contra hi
          exact hcontinued (hs.continuations_of_ne hi)
        have hwinner := hs.winner
        rw [hi] at hwinner
        rw [State.awaitResume, hwinner.2.1]
        rfl
      · exact fun r hr => ⟨i, value, hfirst, hs.eq_of_result hr⟩
      · intro j hj
        rcases hs.handlers with hnone | hone
        · rw [hnone] at hj
          cases hj
        · rw [hone, List.mem_singleton] at hj
          subst hj
          exact ⟨value, hfirst⟩

/-- A run loses the coroutine exactly when an inline task is late in it. -/
theorem not_lost_iff_guarded {events : List (Event n μ)} (h : (system a).run events = some s) :
    ¬Lost a s ↔ (system a).Guarded (InTime a) (system a).init events := by
  have hstart : ¬Lost a (system a).init := fun hlost => nomatch hlost.1
  have hguarded := System.foldlM_iff_guarded (M := system a) (I := fun s => ∃ first, Inv a first s)
    (P := fun s => ¬Lost a s) (fun s e s' ⟨first, hinv⟩ hstep => ⟨_, inv_step hinv hstep⟩)
    (fun s e s' ⟨first, hinv⟩ hstep => not_lost_step hinv hstep) ⟨none, inv_init a⟩ h
  rw [hguarded, and_iff_right hstart]

/-- **When `sync::any` continues its coroutine**: in a run it does so exactly once, with the result
of the first task, exactly when no task that was taken for inline ends its `SetResultAndResume`
after `await_suspend` has returned. -/
theorem continuesOnce_iff {events : List (Event n μ)} (h : (system a).run events = some s) :
    ContinuesOnce a events s ↔ (system a).Guarded (InTime a) (system a).init events :=
  (inv_of_run h).continuesOnce_iff_not_lost.trans (not_lost_iff_guarded h)

/-- A plain task next to one with an executor of its own. -/
def twoTasks : Any 2 (fun _ => ℕ) (fun _ => ℕ) where
  tasks i := { hasExecutor := i = 1, finalHandler := fun value => value + 1 }
  currExe := { idx := some 0, contextId := some 0 }
  currExe_isValid := rfl

/-- Under an invalid executor the plain task runs to its end where it is started, and the other one
completes later. -/
def inlineWins : List (Event 2 fun _ => ℕ) :=
  [.next, .complete 0 7, .advance 0, .advance 0, .advance 0, .next, .next, .next, .complete 1 9]

theorem continuesOnce_iff_sample : ∃ s, (system (twoTasks.via {})).run inlineWins = some s ∧
    s.awaitResume = some ⟨0, 8⟩ ∧ ContinuesOnce (twoTasks.via {}) inlineWins s :=
  ⟨_, rfl, rfl, (continuesOnce_iff rfl).mpr (by decide)⟩

/-- A plain task under an invalid executor that is suspended and completes later is lost. -/
theorem suspended_task_is_lost :
    ∃ s, (system (twoTasks.via {})).run [.next, .next, .next, .complete 0 7, .advance 0,
        .advance 0, .advance 0] = some s ∧
      ¬ContinuesOnce (twoTasks.via {}) [.next, .next, .next, .complete 0 7, .advance 0,
        .advance 0, .advance 0] s := by
  refine ⟨_, rfl, fun h => ?_⟩
  have hone := h.goesOn 0 true rfl rfl
  revert hone
  decide

/-- **The coroutine goes on exactly once in every run** when no task is taken for inline: with the
executor around it or a valid one given by `Via`, or when every task brings its own. -/
theorem continuesOnce_of_not_inline {events : List (Event n μ)}
    (hexe : a.exe.isValid = true ∨ ∀ i, (a.tasks i).hasExecutor = true)
    (h : (system a).run events = some s) : ContinuesOnce a events s := by
  have hguess : ∀ i, a.isInline i = false := by
    intro i
    rcases hexe with hexe | hexe
    · simp [isInline, hexe]
    · simp [isInline, hexe i]
  apply (inv_of_run h).continuesOnce_iff_not_lost.mpr
  apply (not_lost_iff_guarded h).mpr
  apply System.guarded_of_forall
  intro s e
  cases e with
  | advance i =>
    intro _ hinline
    rw [hguess i] at hinline
    cases hinline
  | _ => exact trivial

end AimrtComm.Sync.Any
