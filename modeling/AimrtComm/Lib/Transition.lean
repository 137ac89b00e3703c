import Mathlib.Data.List.Basic
import Mathlib.Data.List.Induction

/-!
# Transition systems

A system has an initial state and a partial step function: `step s e` is the state after the
event `e`, if `e` can happen in `s`.  What holds initially and is kept by every step holds in
every reachable state (`Reachable.invariant`), also of the runs whose events all happen under some
condition (`ReachableUnder.invariant`).  When a step keeps or gives a property exactly under a
condition, a run has it exactly when all its events happen under the condition
(`foldlM_iff_guarded`, `always_iff_guarded`); and when the steps of one system are matched by those
of another one, reachable states are matched by reachable states (`Refines.reachable`).
-/

namespace AimrtComm

/-- A transition system with states `σ` and events `ε`. -/
structure System (σ ε : Type*) where
  init : σ
  step : σ → ε → Option σ

namespace System

variable {σ ε τ δ : Type*} (M : System σ ε)

/-- The state after a list of events, if they can happen one after the other. -/
def run (events : List ε) : Option σ := events.foldlM M.step M.init

/-- The states that events lead to. -/
inductive Reachable : σ → Prop where
  | init : Reachable M.init
  | step {s s' : σ} {e : ε} : Reachable s → M.step s e = some s' → Reachable s'

/-- The states that events lead to which all happen under a condition. -/
inductive ReachableUnder (guard : σ → ε → Prop) : σ → Prop where
  | init : ReachableUnder guard M.init
  | step {s s' : σ} {e : ε} : ReachableUnder guard s → guard s e → M.step s e = some s' →
    ReachableUnder guard s'

/-- All events of a list that happen one after the other happen under a condition. -/
def Guarded (guard : σ → ε → Prop) : σ → List ε → Prop
  | _, [] => True
  | s, e :: events => guard s e ∧ ∀ s', M.step s e = some s' → Guarded guard s' events

/-- A property holds in every state that a list of events leads through. -/
def Always (P : σ → Prop) : σ → List ε → Prop
  | s, [] => P s
  | s, e :: events => P s ∧ ∀ s', M.step s e = some s' → Always P s' events

variable {M}

/-- What every step of a list of events keeps is kept by the list. -/
theorem foldlM_invariant_step {I : σ → Prop}
    (hstep : ∀ s e s', I s → M.step s e = some s' → I s') {s s' : σ} {events : List ε} (hs : I s)
    (h : events.foldlM M.step s = some s') : I s' := by
  induction events generalizing s with
  | nil =>
    obtain rfl : s = s' := Option.some.inj h
    exact hs
  | cons e events ih =>
    rw [List.foldlM_cons, Option.bind_eq_bind, Option.bind_eq_some_iff] at h
    obtain ⟨s₁, he, h⟩ := h
    exact ih (hstep s e s₁ hs he) h

/-- When a step keeps a property exactly under a condition, a list of events does so exactly when
all of them happen under it. -/
theorem foldlM_iff_guarded {I P : σ → Prop} {guard : σ → ε → Prop}
    (hI : ∀ s e s', I s → M.step s e = some s' → I s')
    (hstep : ∀ s e s', I s → M.step s e = some s' → (P s' ↔ P s ∧ guard s e)) {s s' : σ}
    {events : List ε} (hs : I s) (h : events.foldlM M.step s = some s') :
    P s' ↔ P s ∧ M.Guarded guard s events := by
  induction events generalizing s with
  | nil =>
    obtain rfl : s = s' := Option.some.inj h
    simp [Guarded]
  | cons e events ih =>
    rw [List.foldlM_cons, Option.bind_eq_bind, Option.bind_eq_some_iff] at h
    obtain ⟨s₁, he, h⟩ := h
    have hnext : (∀ s₂, M.step s e = some s₂ → M.Guarded guard s₂ events)
        ↔ M.Guarded guard s₁ events := by
      simp [he]
    rw [ih (hI s e s₁ hs he) h, hstep s e s₁ hs he, Guarded, hnext, and_assoc]

/-- When a property holds after a step exactly under a condition, and the steps under it keep an
invariant, the property holds all along a list of events exactly when all of them happen under the
condition. -/
theorem always_iff_guarded {I P : σ → Prop} {guard : σ → ε → Prop} (hP : ∀ s, I s → P s)
    (hguard : ∀ s e s', I s → M.step s e = some s' → P s' → guard s e)
    (hstep : ∀ s e s', I s → M.step s e = some s' → guard s e → I s') {s s' : σ}
    {events : List ε} (hs : I s) (h : events.foldlM M.step s = some s') :
    M.Always P s events ↔ M.Guarded guard s events := by
  induction events generalizing s with
  | nil => exact iff_of_true (hP s hs) trivial
  | cons e events ih =>
    rw [List.foldlM_cons, Option.bind_eq_bind, Option.bind_eq_some_iff] at h
    obtain ⟨s₁, he, h⟩ := h
    have hnext : ∀ Q : σ → Prop, (∀ s₂, M.step s e = some s₂ → Q s₂) ↔ Q s₁ := by
      intro Q
      simp [he]
    rw [Always, Guarded, hnext, hnext]
    constructor
    · rintro ⟨-, hrest⟩
      have hP₁ : P s₁ := by
        cases events with
        | nil => exact hrest
        | cons => exact hrest.1
      have hg := hguard s e s₁ hs he hP₁
      exact ⟨hg, (ih (hstep s e s₁ hs he hg) h).mp hrest⟩
    · rintro ⟨hg, hrest⟩
      exact ⟨hP s hs, (ih (hstep s e s₁ hs he hg) h).mpr hrest⟩

/-- Events that go on after others. -/
theorem Guarded.append {guard : σ → ε → Prop} {s s' : σ} {events events' : List ε}
    (h : M.Guarded guard s events) (hs : events.foldlM M.step s = some s')
    (h' : M.Guarded guard s' events') : M.Guarded guard s (events ++ events') := by
  induction events generalizing s with
  | nil =>
    obtain rfl : s = s' := Option.some.inj hs
    exact h'
  | cons e events ih =>
    rw [List.foldlM_cons, Option.bind_eq_bind, Option.bind_eq_some_iff] at hs
    obtain ⟨s₁, he, hs⟩ := hs
    refine ⟨h.1, fun s₂ he₂ => ?_⟩
    obtain rfl : s₁ = s₂ := Option.some.inj (he.symm.trans he₂)
    exact ih (h.2 s₁ he) hs

/-- Whether the events happen under a condition can be tried out. -/
instance decidableGuarded {guard : σ → ε → Prop} [∀ s e, Decidable (guard s e)] :
    ∀ (s : σ) (events : List ε), Decidable (M.Guarded guard s events)
  | _, [] => .isTrue trivial
  | s, e :: events =>
    match h : M.step s e with
    | none => decidable_of_iff (guard s e) (by simp [Guarded, h])
    | some s' =>
      have : Decidable (M.Guarded guard s' events) := decidableGuarded s' events
      decidable_of_iff (guard s e ∧ M.Guarded guard s' events) (by simp [Guarded, h])

/-- A condition that every event meets. -/
theorem guarded_of_forall {guard : σ → ε → Prop} (h : ∀ s e, guard s e) (s : σ)
    (events : List ε) : M.Guarded guard s events := by
  induction events generalizing s with
  | nil => exact trivial
  | cons e events ih => exact ⟨h s e, fun s' _ => ih s'⟩

theorem reachable_of_run {s : σ} (events : List ε) (h : M.run events = some s) :
    M.Reachable s :=
  foldlM_invariant_step (fun _ _ _ hs he => hs.step he) .init h

theorem run_concat (events : List ε) (e : ε) :
    M.run (events ++ [e]) = (M.run events).bind fun s => M.step s e := by
  simp [run]

/-- What holds initially, of no events, and is kept by every step is true of every run. -/
theorem run_invariant {I : List ε → σ → Prop} (hinit : I [] M.init)
    (hstep : ∀ events s e s', I events s → M.step s e = some s' → I (events ++ [e]) s')
    {events : List ε} {s : σ} (h : M.run events = some s) : I events s := by
  induction events using List.reverseRecOn generalizing s with
  | nil =>
    obtain rfl : M.init = s := Option.some.inj h
    exact hinit
  | append_singleton events e ih =>
    rw [run_concat, Option.bind_eq_some_iff] at h
    obtain ⟨s₁, hs₁, h⟩ := h
    exact hstep events s₁ e s (ih hs₁) h

/-- What holds initially and is kept by every step holds in every reachable state. -/
theorem Reachable.invariant {I : σ → Prop} (hinit : I M.init)
    (hstep : ∀ s e s', I s → M.step s e = some s' → I s') {s : σ} (h : M.Reachable s) : I s := by
  induction h with
  | init => exact hinit
  | step _ he ih => exact hstep _ _ _ ih he

/-- What holds initially and is kept by the steps under a condition holds in every state that such
steps lead to. -/
theorem ReachableUnder.invariant {guard : σ → ε → Prop} {I : σ → Prop} (hinit : I M.init)
    (hstep : ∀ s e s', I s → guard s e → M.step s e = some s' → I s') {s : σ}
    (h : M.ReachableUnder guard s) : I s := by
  induction h with
  | init => exact hinit
  | step _ hg he ih => exact hstep _ _ _ ih hg he

/-- Steps under a condition are steps. -/
theorem ReachableUnder.reachable {guard : σ → ε → Prop} {s : σ} (h : M.ReachableUnder guard s) :
    M.Reachable s := by
  induction h with
  | init => exact .init
  | step _ _ he ih => exact ih.step he

theorem reachableUnder_of_guarded {guard : σ → ε → Prop} {s s' : σ} {events : List ε}
    (hs : M.ReachableUnder guard s) (hguarded : M.Guarded guard s events)
    (h : events.foldlM M.step s = some s') : M.ReachableUnder guard s' := by
  induction events generalizing s with
  | nil =>
    obtain rfl : s = s' := Option.some.inj h
    exact hs
  | cons e events ih =>
    rw [List.foldlM_cons, Option.bind_eq_bind, Option.bind_eq_some_iff] at h
    obtain ⟨s₁, he, h⟩ := h
    exact ih (hs.step hguarded.1 he) (hguarded.2 s₁ he) h

/-- A run of events that all happen under a condition. -/
theorem reachableUnder_of_run {guard : σ → ε → Prop} {s : σ} (events : List ε)
    (hguarded : M.Guarded guard M.init events) (h : M.run events = some s) :
    M.ReachableUnder guard s :=
  reachableUnder_of_guarded .init hguarded h

/-! ### Refinement -/

/-- The steps of `M` are matched by those of `A`: related states stay related when `A` makes a
step of its own or none. -/
structure Refines (M : System σ ε) (A : System τ δ) (R : σ → τ → Prop) : Prop where
  init : R M.init A.init
  step : ∀ s t e s', R s t → M.step s e = some s' →
    R s' t ∨ ∃ d t', A.step t d = some t' ∧ R s' t'

/-- **Reachable states are matched by reachable states.** -/
theorem Refines.reachable {A : System τ δ} {R : σ → τ → Prop} (h : M.Refines A R) {s : σ}
    (hs : M.Reachable s) : ∃ t, A.Reachable t ∧ R s t := by
  induction hs with
  | init => exact ⟨_, .init, h.init⟩
  | step _ he ih =>
    obtain ⟨t, ht, hR⟩ := ih
    rcases h.step _ t _ _ hR he with hR' | ⟨d, t', hd, hR'⟩
    · exact ⟨t, ht, hR'⟩
    · exact ⟨t', ht.step hd, hR'⟩

end System

end AimrtComm
