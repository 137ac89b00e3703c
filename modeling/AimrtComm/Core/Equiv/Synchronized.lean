import AimrtComm.Core.Synchronized

/-!
## When the synchronized flag is right

A thread is waited on as long as a `Sync` is active on it, and these may be nested: `depth` counts
them.  One boolean cannot count, so that the flag is cleared by the first `Sync` that returns.  It
is right all along a run exactly when every `Sync` that returns is the only one on its thread
(`flagRight_iff`).
-/

namespace AimrtComm.Core

open Function

variable {T R : Type*}

/-! ### Nested calls -/

/-- A frame of a `Sync`. -/
def Frame.isSync : Frame R → Bool
  | .syncWait _ => true
  | .body _ => false

/-- How many calls of `Sync` are active on the thread. -/
def Thread.depth (t : Thread R) : ℕ := t.stack.countP Frame.isSync

/-- The flag of every thread says whether a `Sync` is active on it, and no `Yield` schedules away
from a thread that is waited on. -/
structure SyncState.FlagRight (s : SyncState T R) : Prop where
  flag : ∀ θ, s.synchronized θ = true ↔ 0 < (s.coroutines.threads θ).depth
  stays : ∀ θ, 0 < (s.coroutines.threads θ).depth → s.yieldSchedules θ = false

/-- A `Sync` that returns is the only one on its thread. -/
def ReturnsOutermost (s : SyncState T R) : Event T R → Prop
  | .return θ => (s.coroutines.threads θ).depth ≤ 1
  | _ => True

instance (s : SyncState T R) : ∀ e : Event T R, Decidable (ReturnsOutermost s e)
  | .return θ => inferInstanceAs (Decidable ((s.coroutines.threads θ).depth ≤ 1))
  | .enter _ _ | .create _ | .await _ _ | .ready _ | .suspend _ | .resume _ _ | .post _ _
  | .inline _ _ | .sync _ _ | .finish _ => .isTrue trivial

/-- How many calls of `Sync` are active after an event on a thread with `depth` of them. -/
def depthAfter [DecidableEq T] (depth : T → ℕ) : Event T R → T → ℕ
  | .sync θ _ | .inline θ _ => update depth θ (depth θ + 1)
  | .return θ => update depth θ (depth θ - 1)
  | _ => depth

/-- The flag follows from the depth. -/
theorem SyncState.flagRight_iff_flag {s : SyncState T R} :
    s.FlagRight ↔ ∀ θ, s.synchronized θ = true ↔ 0 < (s.coroutines.threads θ).depth := by
  constructor
  · exact FlagRight.flag
  · intro h
    refine ⟨h, fun θ hdepth => ?_⟩
    rw [yieldSchedules, (h θ).mpr hdepth]
    rfl

variable [DecidableEq T] {s s' : State T R} {θ : T}

/-- A step that changes the stack of one thread. -/
theorem depth_setThread {depth : ℕ} {t : Thread R} (hthreads : s'.threads = update s.threads θ t)
    (hdepth : t.depth = depth) :
    (fun θ => (s'.threads θ).depth) = update (fun θ => (s.threads θ).depth) θ depth := by
  rw [hthreads]
  funext θ'
  by_cases hθ : θ' = θ
  · rw [hθ, update_self, update_self, hdepth]
  · rw [update_of_ne hθ, update_of_ne hθ]

/-- A step that does not change the depth of any thread. -/
theorem depth_setThread_same {t : Thread R} (hthreads : s'.threads = update s.threads θ t)
    (hdepth : t.depth = (s.threads θ).depth) :
    (fun θ => (s'.threads θ).depth) = fun θ => (s.threads θ).depth := by
  rw [depth_setThread hthreads hdepth]
  exact update_eq_self θ _

theorem depth_run (c : Coroutine R) (stack : List (Frame R)) :
    (Thread.run c stack).depth = stack.countP Frame.isSync := by
  show (Frame.body c :: stack).countP Frame.isSync = _
  exact List.countP_cons_of_neg (by simp [Frame.isSync])

theorem depth_body {t : Thread R} {c : Coroutine R} {stack : List (Frame R)}
    (hstack : t.stack = .body c :: stack) : t.depth = stack.countP Frame.isSync := by
  rw [Thread.depth, hstack]
  exact List.countP_cons_of_neg (by simp [Frame.isSync])

theorem depth_syncWait {t : Thread R} {c : Coroutine R} {stack : List (Frame R)}
    (hstack : t.stack = .syncWait c :: stack) : t.depth = stack.countP Frame.isSync + 1 := by
  rw [Thread.depth, hstack]
  exact List.countP_cons_of_pos rfl

variable [DecidableEq R]

/-- **What an event does to the depths**: `Sync` and `Inline` nest one deeper, a return goes back,
and nothing else counts. -/
theorem depth_step {e : Event T R} (h : s.step e = some s') :
    (fun θ => (s'.threads θ).depth) = depthAfter (fun θ => (s.threads θ).depth) e := by
  cases e with
  | enter θ ctx =>
    rw [State.step] at h
    split_ifs at h with hstack
    cases h
    exact depth_setThread_same rfl rfl
  | create θ =>
    rw [State.step] at h
    split_ifs at h
    cases h
    rfl
  | await θ c =>
    rw [State.step] at h
    split at h
    case h_1 awaiter stack hstack =>
      split_ifs at h
      cases h
      exact depth_setThread_same rfl ((depth_run c stack).trans (depth_body hstack).symm)
    case h_2 => cases h
  | ready θ =>
    rw [State.step] at h
    split at h
    case h_1 c stack hstack =>
      cases h
      exact depth_setThread_same rfl ((depth_run c stack).trans (depth_body hstack).symm)
    case h_2 => cases h
  | suspend θ =>
    rw [State.step] at h
    split at h
    case h_1 c stack hstack =>
      cases h
      exact depth_setThread_same rfl (depth_body hstack).symm
    case h_2 => cases h
  | resume θ c =>
    rw [State.step] at h
    split_ifs at h
    cases h
    exact depth_setThread_same rfl (depth_run c _)
  | post θ exe =>
    rw [State.step] at h
    split_ifs at h
    obtain ⟨ctx, -, rfl⟩ := Option.map_eq_some_iff.mp h
    exact depth_setThread_same rfl rfl
  | inline θ exe =>
    rw [State.step] at h
    split_ifs at h
    obtain ⟨ctx, -, rfl⟩ := Option.map_eq_some_iff.mp h
    exact depth_setThread rfl ((depth_run _ _).trans (List.countP_cons_of_pos rfl))
  | sync θ c =>
    rw [State.step] at h
    split_ifs at h
    cases h
    exact depth_setThread rfl ((depth_run c _).trans (List.countP_cons_of_pos rfl))
  | finish θ =>
    rw [State.step] at h
    split at h
    case h_1 c stack hstack =>
      cases h
      rw [State.finish]
      -- the awaiter takes the place of the body that has finished
      cases s.continuation c.id with
      | some awaiter =>
        exact depth_setThread_same rfl ((depth_run awaiter stack).trans (depth_body hstack).symm)
      | none => exact depth_setThread_same rfl (depth_body hstack).symm
    case h_2 => cases h
  | «return» θ =>
    rw [State.step] at h
    split at h
    case h_1 c stack hstack =>
      split_ifs at h
      cases h
      refine depth_setThread rfl ?_
      show stack.countP Frame.isSync = (s.threads θ).depth - 1
      rw [depth_syncWait hstack, Nat.add_sub_cancel]
    case h_2 => cases h

/-- A `Sync` that returns was active. -/
theorem depth_pos_of_return (h : s.step (.return θ) = some s') : 0 < (s.threads θ).depth := by
  rw [State.step] at h
  split at h
  case h_1 c stack hstack =>
    rw [depth_syncWait hstack]
    exact Nat.succ_pos _
  case h_2 => cases h

/-! ### The flag -/

variable {r r' : SyncState T R}

/-- **A step leaves the flags right exactly when it returns from no inner call.** -/
theorem SyncState.FlagRight.step_iff {e : Event T R} (hr : r.FlagRight)
    (h : r.step e = some r') : r'.FlagRight ↔ ReturnsOutermost r e := by
  rw [SyncState.step, Option.map_eq_some_iff] at h
  obtain ⟨coroutines, hstep, rfl⟩ := h
  have hdepth : ∀ θ, (coroutines.threads θ).depth =
      depthAfter (fun θ => (r.coroutines.threads θ).depth) e θ :=
    fun θ => congrFun (depth_step hstep) θ
  have hset : ∀ θ θ', update r.synchronized θ true θ' = true ↔
      0 < update (fun θ => (r.coroutines.threads θ).depth) θ
        ((r.coroutines.threads θ).depth + 1) θ' := by
    intro θ θ'
    by_cases hθ : θ' = θ
    · rw [hθ, update_self, update_self]
      exact iff_of_true rfl (Nat.succ_pos _)
    · rw [update_of_ne hθ, update_of_ne hθ]
      exact hr.flag θ'
  rw [flagRight_iff_flag]
  simp only [hdepth]
  cases e with
  | sync θ c => exact iff_of_true (hset θ) trivial
  | inline θ exe => exact iff_of_true (hset θ) trivial
  | «return» θ =>
    have hpos := depth_pos_of_return hstep
    show (∀ θ', update r.synchronized θ false θ' = true ↔
      0 < update (fun θ => (r.coroutines.threads θ).depth) θ
        ((r.coroutines.threads θ).depth - 1) θ') ↔ (r.coroutines.threads θ).depth ≤ 1
    constructor
    · -- an outer call still waits on the thread, but the flag is cleared
      intro hflag
      have hθ := hflag θ
      rw [update_self, update_self] at hθ
      by_contra hinner
      exact Bool.false_ne_true (hθ.mpr (by omega))
    · intro houter θ'
      by_cases hθ : θ' = θ
      · rw [hθ, update_self, update_self]
        exact iff_of_false Bool.false_ne_true (by omega)
      · rw [update_of_ne hθ, update_of_ne hθ]
        exact hr.flag θ'
  | _ => exact iff_of_true hr.flag trivial

theorem flagRight_init (ctx : T → ThreadContext R) : (syncSystem ctx).init.FlagRight :=
  SyncState.flagRight_iff_flag.mpr fun _ => iff_of_false Bool.false_ne_true (Nat.lt_irrefl 0)

/-- **When the synchronized flag is right**: it is in all states of a run, and with it `Yield` stays
on the threads that are waited on, exactly when no `Sync` returns inside of another one. -/
theorem flagRight_iff {ctx : T → ThreadContext R} {events : List (Event T R)}
    (h : (syncSystem ctx).run events = some r) :
    (syncSystem ctx).Always SyncState.FlagRight (syncSystem ctx).init events ↔
      (syncSystem ctx).Guarded ReturnsOutermost (syncSystem ctx).init events :=
  System.always_iff_guarded (fun _ hr => hr) (fun _ _ _ hr he => (hr.step_iff he).mp)
    (fun _ _ _ hr he => (hr.step_iff he).mpr) (flagRight_init ctx) h

/-- A context with an executor. -/
def executorContext : ThreadContext Unit :=
  { ctxPtr := some 1, exe := { idx := some 0, contextId := some 1 } }

/-- A thread that waits for one task and then for another one. -/
def syncsTwice : List (Event Unit Unit) :=
  [.create (), .sync () ⟨0, executorContext⟩, .finish (), .return (),
    .create (), .sync () ⟨1, executorContext⟩, .finish (), .return ()]

/-- A thread that waits for a task which waits for another one. -/
def syncsNested : List (Event Unit Unit) :=
  [.create (), .sync () ⟨0, executorContext⟩, .create (), .sync () ⟨1, executorContext⟩,
    .finish (), .return ()]

theorem flagRight_iff_sample :
    (syncSystem fun _ : Unit => executorContext).Always SyncState.FlagRight
        (syncSystem fun _ => executorContext).init syncsTwice ∧
      ¬(syncSystem fun _ : Unit => executorContext).Always SyncState.FlagRight
        (syncSystem fun _ => executorContext).init syncsNested := by
  obtain ⟨s, hs⟩ : ∃ s, (syncSystem fun _ : Unit => executorContext).run syncsTwice = some s :=
    ⟨_, rfl⟩
  obtain ⟨s', hs'⟩ : ∃ s, (syncSystem fun _ : Unit => executorContext).run syncsNested = some s :=
    ⟨_, rfl⟩
  exact ⟨(flagRight_iff hs).mpr (by decide), fun h => absurd ((flagRight_iff hs').mp h) (by decide)⟩

/-- A task that is waited for and itself waits for another one goes on with the flag cleared, so
that `Yield` schedules it away from the thread. -/
theorem nested_sync_clears_flag :
    ¬ ∀ (ctx : Unit → ThreadContext Unit) (events : List (Event Unit Unit))
      (s : SyncState Unit Unit), (syncSystem ctx).run events = some s →
        (syncSystem ctx).Always SyncState.FlagRight (syncSystem ctx).init events := by
  intro h
  have halways := h (fun _ => executorContext)
    [.create (), .sync () ⟨0, executorContext⟩, .create (), .sync () ⟨1, executorContext⟩,
      .finish (), .return ()] _ rfl
  have hlast := (((((halways.2 _ rfl).2 _ rfl).2 _ rfl).2 _ rfl).2 _ rfl).2 _ rfl
  have hyield := hlast.stays () (by decide)
  revert hyield
  decide

end AimrtComm.Core
