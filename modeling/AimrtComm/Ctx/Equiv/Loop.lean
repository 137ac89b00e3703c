import AimrtComm.Ctx.Loop
import Mathlib.Tactic.Linarith

/-!
## The pace of `ctx::Loop`

A loop that keeps its pace returns `max p w` after its last return, when the work takes `w`.
`Loop::Ok` compares the clock with a stored time point, so what it does depends on how far that
time point is behind the last return, the *lag* of the loop.  It starts at zero, every call that
sleeps adds the work done before it, and a call that does not sleep resets it (`ok_lag`).

A loop therefore keeps its pace exactly when no work shorter than the period starts with a lag
(`neverFaster_iff_lag`), and since a lag is left by every short nonempty piece of work, exactly when
each of these is followed by one that fills the period (`neverFaster_iff`).
-/

namespace AimrtComm.Ctx.Loop

variable {running : Int → Bool} {p first : Int} {w : ℕ → Int}

/-! ### The lag -/

/-- How far the stored time point is behind the time of the return. -/
def Return.lag (r : Return) : Int := r.time - r.loop.tp

/-- `Ok` never changes the period. -/
@[simp]
theorem ok_period (l : Loop) (now : Int) : (l.ok running now).loop.period = l.period := by
  unfold ok
  dsimp only
  split_ifs <;> rfl

/-- The return of the next call: a call that sleeps returns the period less the lag later, one that
does not sleep returns after the work. -/
theorem ok_time (running : Int → Bool) {r : Return} (hp : r.loop.period ≠ 0) (work : Int) :
    (r.loop.ok running (r.time + work)).time =
      r.time + if r.lag + work < r.loop.period then r.loop.period - r.lag else work := by
  unfold ok Return.lag sleep
  dsimp only
  rw [if_neg hp]
  split_ifs <;> dsimp only <;> omega

/-- The lag of the next call: a call that sleeps adds the work to it, one that does not resets
it. -/
theorem ok_lag (running : Int → Bool) {r : Return} (hp : r.loop.period ≠ 0) (work : Int) :
    (r.loop.ok running (r.time + work)).lag =
      if r.lag + work < r.loop.period then r.lag + work else 0 := by
  unfold ok Return.lag sleep
  dsimp only
  rw [if_neg hp]
  split_ifs <;> dsimp only <;> omega

/-! ### Runs -/

@[simp]
theorem calls_period (n : ℕ) : (calls running p first w n).loop.period = p := by
  induction n with
  | zero => unfold calls; rw [ok_period]; rfl
  | succ n ih => unfold calls; dsimp only; rw [ok_period, ih]

/-- The lag after call number `n`, counted from zero. -/
def lag (running : Int → Bool) (p first : Int) (w : ℕ → Int) (n : ℕ) : Int :=
  (calls running p first w n).lag

/-- The first call does not sleep when the clock is already past the period. -/
theorem lag_zero (hp : 0 < p) (hfirst : p ≤ first) : lag running p first w 0 = 0 := by
  unfold lag calls ok ofPeriod Return.lag
  dsimp only
  rw [if_neg hp.ne', if_neg (by omega)]
  exact sub_self first

theorem lag_succ (hp : 0 < p) (n : ℕ) :
    lag running p first w (n + 1) =
      if lag running p first w n + w n < p then lag running p first w n + w n else 0 := by
  have hne : (calls running p first w n).loop.period ≠ 0 := by
    rw [calls_period]
    exact hp.ne'
  have h := ok_lag running hne (w n)
  rw [calls_period] at h
  exact h

/-- The time between two returns. -/
def gap (running : Int → Bool) (p first : Int) (w : ℕ → Int) (n : ℕ) : Int :=
  (calls running p first w (n + 1)).time - (calls running p first w n).time

theorem gap_eq (hp : 0 < p) (n : ℕ) :
    gap running p first w n =
      if lag running p first w n + w n < p then p - lag running p first w n else w n := by
  have hne : (calls running p first w n).loop.period ≠ 0 := by
    rw [calls_period]
    exact hp.ne'
  have h := ok_time running hne (w n)
  rw [calls_period] at h
  unfold gap
  rw [show (calls running p first w (n + 1)).time = _ from h]
  exact add_sub_cancel_left _ _

/-- The lag is never negative and stays below the period. -/
theorem lag_bounds (running : Int → Bool) (hp : 0 < p) (hfirst : p ≤ first)
    (hw : ∀ n, 0 ≤ w n) (n : ℕ) :
    0 ≤ lag running p first w n ∧ lag running p first w n < p := by
  induction n with
  | zero => rw [lag_zero hp hfirst]; exact ⟨le_rfl, hp⟩
  | succ n ih =>
    rw [lag_succ hp]
    have := hw n
    split_ifs <;> omega

/-- `Ok` is never late: the time between two returns is at most that of a loop that keeps its
pace. -/
theorem gap_le (hp : 0 < p) (hfirst : p ≤ first) (hw : ∀ n, 0 ≤ w n) (n : ℕ) :
    gap running p first w n ≤ max p (w n) := by
  have hlag := (lag_bounds running hp hfirst hw n).1
  rw [gap_eq hp]
  split_ifs <;> omega

/-- A call is early exactly when the work before it is shorter than the period and starts with a
lag. -/
theorem gap_eq_max_iff (hp : 0 < p) (hfirst : p ≤ first) (hw : ∀ n, 0 ≤ w n) (n : ℕ) :
    gap running p first w n = max p (w n) ↔ lag running p first w n = 0 ∨ p ≤ w n := by
  have hlag := (lag_bounds running hp hfirst hw n).1
  rw [gap_eq hp]
  split_ifs <;> omega

/-! ### The pace -/

/-- The loop never runs faster than its period: returns are at least a period apart when the work
between them takes at most a period, and exactly a period when all the work is shorter. -/
def NeverFaster (running : Int → Bool) (p first : Int) (w : ℕ → Int) : Prop :=
  (∀ n, w n ≤ p → p ≤ gap running p first w n) ∧
    ((∀ n, w n < p) → ∀ n, gap running p first w n = p)

/-- A loop never runs faster than its period exactly when all its returns are in pace. -/
theorem neverFaster_iff_gap (hp : 0 < p) (hfirst : p ≤ first) (hw : ∀ n, 0 ≤ w n) :
    NeverFaster running p first w ↔ ∀ n, gap running p first w n = max p (w n) := by
  constructor
  · rintro ⟨h, -⟩ n
    rw [gap_eq_max_iff hp hfirst hw]
    by_contra hn
    push Not at hn
    -- an early call is at odds with the first half already
    have hgap := h n hn.2.le
    have hlag := (lag_bounds running hp hfirst hw n).1
    rw [gap_eq hp] at hgap
    split_ifs at hgap <;> omega
  · intro h
    refine ⟨fun n _ => ?_, fun hlt n => ?_⟩
    · rw [h]; exact le_max_left _ _
    · rw [h]; exact max_eq_left (hlt n).le

theorem neverFaster_iff_lag (hp : 0 < p) (hfirst : p ≤ first) (hw : ∀ n, 0 ≤ w n) :
    NeverFaster running p first w ↔ ∀ n, lag running p first w n = 0 ∨ p ≤ w n := by
  rw [neverFaster_iff_gap hp hfirst hw]
  exact forall_congr' (gap_eq_max_iff hp hfirst hw)

/-- **The exact condition under which the loop never runs faster than its period**: each piece of
work that takes some time, but less than a period, is followed by one that takes at least a
period. -/
theorem neverFaster_iff (hp : 0 < p) (hfirst : p ≤ first) (hw : ∀ n, 0 ≤ w n) :
    NeverFaster running p first w ↔ ∀ n, 0 < w n → w n < p → p ≤ w (n + 1) := by
  rw [neverFaster_iff_lag hp hfirst hw]
  constructor
  · intro h n hpos hlt
    -- the work starts without a lag, hence leaves one
    have hzero : lag running p first w n = 0 := (h n).resolve_right (by omega)
    refine (h (n + 1)).resolve_left ?_
    rw [lag_succ hp, hzero, zero_add, if_pos hlt]
    exact hpos.ne'
  · intro h n
    -- by induction on the calls: a lag is left by the short work just before, and by nothing else
    induction n with
    | zero => exact Or.inl (lag_zero hp hfirst)
    | succ n ih =>
      rw [lag_succ hp]
      rcases ih with hzero | hfull
      · have hnext := h n
        have hnonneg := hw n
        rw [hzero, zero_add]
        split_ifs <;> omega
      · have hlag := (lag_bounds running hp hfirst hw n).1
        rw [if_neg (by omega)]
        exact Or.inl rfl

/-- Short work followed by work of at least a period, over and over: the loop keeps its pace. -/
theorem neverFaster_iff_sample :
    NeverFaster (fun _ => true) 100 100 fun n => if n % 2 = 0 then 30 else 100 := by
  refine (neverFaster_iff (by decide) (by decide) fun n => ?_).2 fun n hpos hlt => ?_
  · split_ifs <;> decide
  · -- only the even pieces are short, and an odd one follows each
    by_cases hn : n % 2 = 0
    · rw [if_neg (by omega)]
    · rw [if_neg hn] at hlt
      exact absurd hlt (by decide)

/-- A loop of one second whose body takes half a second returns half a second after it returned: the
second call forgets the half second before its sleep. -/
theorem ok_runs_faster :
    ¬ NeverFaster (fun _ => true) 1000000000 1000000000 fun _ => 500000000 := by
  intro h
  have hgap : gap (fun _ => true) 1000000000 1000000000 (fun _ => 500000000) 1 = 500000000 := by
    decide
  have hle := h.1 1 (by decide)
  rw [hgap] at hle
  exact absurd hle (by decide)

end AimrtComm.Ctx.Loop
