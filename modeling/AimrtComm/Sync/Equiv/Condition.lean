import AimrtComm.Sync.Condition

/-!
# What `Wait` returns

The two flags say what the last setting was (`Inv`), so `Wait` answers with it
(`wait_of_reachable`), and no thread sleeps behind a `Satisfy` or a `Fail` that is still in force.
-/

namespace AimrtComm.Sync.Condition

open Function

variable {Th : Type*} [DecidableEq Th] {s s' : State Th} {value : Bool} {t : Th}

/-- The flags are those of the last setting, and a `Satisfy` or a `Fail` has woken up everybody. -/
structure Inv (s : State Th) : Prop where
  value : s.value = (s.last.answer == some true)
  failed : s.failed = (s.last.answer == some false)
  awake : s.last = .satisfy ∨ s.last = .fail → ∀ t, s.pc t ≠ .asleep

omit [DecidableEq Th] in
theorem notifyAll_pc_ne (s : State Th) (t : Th) : s.notifyAll.pc t ≠ .asleep := by
  show (if s.pc t = .asleep then Pc.check else s.pc t) ≠ .asleep
  split_ifs with h
  · decide
  · exact h

omit [DecidableEq Th] in
theorem Inv.set (setting : Setting) : Inv (s.set setting) := by
  cases setting with
  | init value => cases value <;> exact ⟨rfl, rfl, nofun⟩
  | satisfy => exact ⟨rfl, rfl, fun _ => notifyAll_pc_ne _⟩
  | fail => exact ⟨rfl, rfl, fun _ => notifyAll_pc_ne _⟩

/-- A thread goes somewhere else than to sleep. -/
theorem Inv.goto (h : Inv s) {pc : Pc} (hpc : pc ≠ .asleep) : Inv (s.goto t pc) := by
  refine ⟨h.value, h.failed, fun hlast u => ?_⟩
  show update s.pc t pc u ≠ .asleep
  by_cases hu : u = t
  · subst hu
    rw [update_self]
    exact hpc
  · rw [update_of_ne hu]
    exact h.awake hlast u

omit [DecidableEq Th] in
/-- The flags let a thread pass exactly when the last setting has an answer. -/
theorem Inv.waits_iff (h : Inv s) : (!s.failed && !s.value) = s.last.answer.isNone := by
  rw [h.failed, h.value]
  cases s.last with
  | init value => cases value <;> rfl
  | satisfy => rfl
  | fail => rfl

/-- What a look at the flags does. -/
theorem Inv.next_eq (h : Inv s) (hpc : s.pc t = .check) :
    s.next t = some (match s.last.answer with
      | none => s.goto t .asleep
      | some answer => { s.goto t .idle with results := (t, answer) :: s.results }) := by
  unfold State.next
  rw [if_pos hpc, h.waits_iff, h.value]
  cases s.last with
  | init value => cases value <;> rfl
  | satisfy => rfl
  | fail => rfl

theorem inv_step (h : Inv s) {e : Event Th} (hs : s.step e = some s') : Inv s' := by
  cases e with
  | set setting =>
    rw [← Option.some.inj hs]
    exact Inv.set setting
  | wait t =>
    simp only [State.step, Option.ite_none_right_eq_some] at hs
    rw [← Option.some.inj hs.2]
    exact h.goto (by decide)
  | wake t =>
    simp only [State.step, Option.ite_none_right_eq_some] at hs
    rw [← Option.some.inj hs.2]
    exact h.goto (by decide)
  | next t =>
    have hpc : s.pc t = .check := by
      by_contra hne
      simp [State.step, State.next, hne] at hs
    rw [show s.step (.next t) = s.next t from rfl, h.next_eq hpc] at hs
    rw [← Option.some.inj hs]
    cases hanswer : s.last.answer with
    | none =>
      -- the thread goes to sleep, which nobody does under a `Satisfy` or a `Fail`
      refine ⟨h.value, h.failed, fun hlast => ?_⟩
      rcases hlast with hlast | hlast
      all_goals
        rw [show s.last = _ from hlast] at hanswer
        cases hanswer
    | some answer =>
      have hgoto : Inv (s.goto t .idle) := h.goto (by decide)
      exact ⟨hgoto.value, hgoto.failed, hgoto.awake⟩

theorem inv_of_reachable (h : (system Th value).Reachable s) : Inv s := by
  refine h.invariant (I := Inv) ?_ fun s e s' hs he => inv_step hs he
  cases value <;> exact ⟨rfl, rfl, nofun⟩

/-- **What `Wait` returns.**  Whatever the threads do, a thread in `Wait` that looks at the flags
returns false exactly when the last setting was a `Fail`, and true exactly when it was a `Satisfy`
or an `Init(true)`; otherwise it sleeps.  No thread sleeps behind a `Satisfy` or a `Fail`, and none
returns in any other way. -/
theorem wait_of_reachable (h : (system Th value).Reachable s) :
    (∀ t, s.pc t = .check → ∃ s', s.step (.next t) = some s' ∧
      (s'.results = (t, false) :: s.results ∧ s'.pc t = .idle ↔ s.last = .fail) ∧
      (s'.results = (t, true) :: s.results ∧ s'.pc t = .idle ↔
        s.last = .satisfy ∨ s.last = .init true) ∧
      (s'.results = s.results ∧ s'.pc t = .asleep ↔ s.last = .init false)) ∧
      (s.last = .satisfy ∨ s.last = .fail → ∀ t, s.pc t ≠ .asleep) ∧
      ∀ e s', s.step e = some s' → s'.results ≠ s.results → ∃ t, e = .next t ∧ s.pc t = .check := by
  have hi := inv_of_reachable h
  refine ⟨fun t ht => ?_, hi.awake, fun e s' hs hne => ?_⟩
  · refine ⟨_, hi.next_eq ht, ?_⟩
    have hself : ∀ pc, (s.goto t pc).pc t = pc := fun pc => update_self ..
    cases hlast : s.last with
    | init value =>
      cases value with
      | false => simp [Setting.answer, State.goto]
      | true => simp [Setting.answer, hself]
    | satisfy => simp [Setting.answer, hself]
    | fail => simp [Setting.answer, hself]
  · cases e with
    | next t =>
      refine ⟨t, rfl, ?_⟩
      by_contra hpc
      simp [State.step, State.next, hpc] at hs
    | set setting =>
      rw [← Option.some.inj hs] at hne
      cases setting <;> exact absurd rfl hne
    | wait t | wake t =>
      simp only [State.step, Option.ite_none_right_eq_some] at hs
      rw [← Option.some.inj hs.2] at hne
      exact absurd rfl hne

theorem wait_of_reachable_sample :
    ∃ s : State ℕ, (system ℕ false).run [.wait 0, .next 0, .set .satisfy] = some s ∧
      ∀ t, s.pc t ≠ .asleep := by
  have h : (system ℕ false).Reachable _ :=
    System.reachable_of_run [.wait 0, .next 0, .set .satisfy] rfl
  exact ⟨_, rfl, (wait_of_reachable h).2.1 (.inl rfl)⟩

end AimrtComm.Sync.Condition
