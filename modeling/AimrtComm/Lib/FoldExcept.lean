import Mathlib.Data.List.Basic

/-!
# Folds that may fail

Rules for `List.foldlM` in `Except`: an invariant kept by the steps holds at the end, and two
step functions that agree under an invariant give the same fold.  A fold that can only fail where it
reads an element is a `List.mapM` and a plain fold (`foldlM_read`).
-/

namespace AimrtComm

universe u

variable {σ τ : Type u} {α ε : Type*} {f g : σ → α → Except ε σ}

theorem except_bind_eq_ok {x : Except ε σ} {k : σ → Except ε τ} {t : τ} :
    x >>= k = .ok t ↔ ∃ s, x = .ok s ∧ k s = .ok t := by
  cases x with
  | error e => simp [bind, Except.bind]
  | ok s => simp [bind, Except.bind]

theorem except_map_eq_ok {x : Except ε σ} {k : σ → τ} {t : τ} :
    x.map k = .ok t ↔ ∃ s, x = .ok s ∧ k s = t := by
  cases x with
  | error e => simp [Except.map]
  | ok s => simp [Except.map]

/-- A state reached by a fold satisfies an invariant that the steps keep. -/
theorem foldlM_invariant {I : σ → Prop} {xs : List α} {s t : σ} (h : xs.foldlM f s = .ok t)
    (hs : I s) (hstep : ∀ x ∈ xs, ∀ s s', I s → f s x = .ok s' → I s') : I t := by
  induction xs generalizing s with
  | nil =>
    rw [List.foldlM_nil] at h
    obtain rfl : s = t := by simpa [pure, Except.pure] using h
    exact hs
  | cons x xs ih =>
    rw [List.foldlM_cons, except_bind_eq_ok] at h
    obtain ⟨s', hx, ht⟩ := h
    exact ih ht (hstep x List.mem_cons_self s s' hs hx)
      fun y hy => hstep y (List.mem_cons_of_mem _ hy)

/-- Folds of step functions that agree on the states of an invariant are equal. -/
theorem foldlM_congr {I : σ → Prop} {xs : List α} {s : σ} (hs : I s)
    (hfg : ∀ x ∈ xs, ∀ s, I s → f s x = g s x)
    (hstep : ∀ x ∈ xs, ∀ s s', I s → g s x = .ok s' → I s') :
    xs.foldlM f s = xs.foldlM g s := by
  induction xs generalizing s with
  | nil => rfl
  | cons x xs ih =>
    rw [List.foldlM_cons, List.foldlM_cons, hfg x List.mem_cons_self s hs]
    cases hx : g s x with
    | error e => rfl
    | ok s' =>
      exact ih (hstep x List.mem_cons_self s s' hs hx)
        (fun y hy => hfg y (List.mem_cons_of_mem _ hy))
        fun y hy => hstep y (List.mem_cons_of_mem _ hy)

/-- A fold that succeeds is also one of steps that agree where the first ones succeed. -/
theorem foldlM_of_imp {xs : List α} {s t : σ} (h : xs.foldlM f s = .ok t)
    (hfg : ∀ x ∈ xs, ∀ s s', f s x = .ok s' → g s x = .ok s') : xs.foldlM g s = .ok t := by
  induction xs generalizing s with
  | nil => exact h
  | cons x xs ih =>
    rw [List.foldlM_cons, except_bind_eq_ok] at h ⊢
    obtain ⟨s', hx, ht⟩ := h
    exact ⟨s', hfg x List.mem_cons_self s s' hx,
      ih ht fun y hy => hfg y (List.mem_cons_of_mem _ hy)⟩

/-! ### Reading the elements -/

/-- A fold that reads each element and then adds it reads all of them first. -/
theorem foldlM_read {read : α → Except ε τ} {add : σ → τ → σ} (xs : List α) (s : σ) :
    xs.foldlM (fun s x => do return add s (← read x)) s
      = (xs.mapM read).map fun ys => ys.foldl add s := by
  induction xs generalizing s with
  | nil => rfl
  | cons x xs ih =>
    rw [List.foldlM_cons, List.mapM_cons]
    cases hx : read x with
    | error e => rfl
    | ok y =>
      show xs.foldlM (fun s x => do return add s (← read x)) (add s y) = _
      rw [ih]
      cases xs.mapM read <;> rfl

/-- What reading a list yields: nothing is left out, and everything was read somewhere. -/
theorem mem_of_mapM {read : α → Except ε τ} {xs : List α} {ys : List τ}
    (h : xs.mapM read = .ok ys) :
    (∀ x ∈ xs, ∃ y, read x = .ok y) ∧ ∀ y, y ∈ ys ↔ ∃ x ∈ xs, read x = .ok y := by
  induction xs generalizing ys with
  | nil =>
    obtain rfl : ys = [] := (Except.ok.inj h).symm
    simp
  | cons x xs ih =>
    rw [List.mapM_cons, except_bind_eq_ok] at h
    obtain ⟨y, hx, h⟩ := h
    rw [except_bind_eq_ok] at h
    obtain ⟨rest, hrest, h⟩ := h
    obtain rfl : ys = y :: rest := (Except.ok.inj h).symm
    obtain ⟨hread, hmem⟩ := ih hrest
    refine ⟨List.forall_mem_cons.mpr ⟨⟨y, hx⟩, hread⟩, fun z => ?_⟩
    rw [List.mem_cons, hmem, List.exists_mem_cons_iff, hx, Except.ok.injEq, eq_comm]

/-- Reading a list fails at an element. -/
theorem exists_of_mapM {read : α → Except ε τ} {xs : List α} {e : ε}
    (h : xs.mapM read = .error e) : ∃ x ∈ xs, read x = .error e := by
  induction xs with
  | nil => cases h
  | cons x xs ih =>
    rw [List.mapM_cons] at h
    cases hx : read x with
    | error e' =>
      rw [hx] at h
      exact ⟨x, List.mem_cons_self, by rw [hx, Except.error.inj h]⟩
    | ok y =>
      cases hrest : xs.mapM read with
      | error e' =>
        rw [hx, hrest] at h
        obtain ⟨z, hz, he⟩ := ih (by rw [hrest, Except.error.inj h])
        exact ⟨z, List.mem_cons_of_mem _ hz, he⟩
      | ok rest =>
        rw [hx, hrest] at h
        cases h

/-! ### Two computations that show the same -/

variable {ρ : Type u}

theorem except_map_bind {x : Except ε ρ} {h : ρ → σ} {k : σ → Except ε τ} :
    x.map h >>= k = x >>= fun r => k (h r) := by
  cases x <;> rfl

theorem except_bind_map {x : Except ε ρ} {k : ρ → Except ε σ} {h : σ → τ} :
    (x >>= k).map h = x >>= fun r => (k r).map h := by
  cases x <;> rfl

/-- Computations that show the same can be followed by the same. -/
theorem except_bind_congr {x : Except ε σ} {y : Except ε ρ} {p : σ → τ} {q : ρ → τ} {υ : Type u}
    {k : σ → Except ε υ} {l : ρ → Except ε υ} (hxy : x.map p = y.map q)
    (hkl : ∀ s r, p s = q r → k s = l r) : x >>= k = y >>= l := by
  cases x with
  | error e =>
    cases y with
    | error e' => exact congrArg _ (Except.error.inj hxy)
    | ok r => cases hxy
  | ok s =>
    cases y with
    | error e => cases hxy
    | ok r => exact hkl s r (Except.ok.inj hxy)

/-- Folds whose steps show the same show the same. -/
theorem foldlM_map_congr {β : Type*} {k : σ → α → Except ε σ} {l : ρ → β → Except ε ρ}
    {p : σ → τ} {q : ρ → τ} {h : α → β} {xs : List α}
    (hkl : ∀ x ∈ xs, ∀ s r, p s = q r → (k s x).map p = (l r (h x)).map q) {s : σ} {r : ρ}
    (hsr : p s = q r) : (xs.foldlM k s).map p = ((xs.map h).foldlM l r).map q := by
  induction xs generalizing s r with
  | nil => exact congrArg _ hsr
  | cons x xs ih =>
    rw [List.map_cons, List.foldlM_cons, List.foldlM_cons, except_bind_map, except_bind_map]
    apply except_bind_congr (hkl x List.mem_cons_self s r hsr)
    intro s' r' hsr'
    exact ih (fun y hy => hkl y (List.mem_cons_of_mem _ hy)) hsr'

end AimrtComm
