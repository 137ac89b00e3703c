import AimrtComm.Sync.Barrier
import Mathlib.Data.Fintype.Card

/-!
## When `sync::Barrier` separates rounds

The condition of the barrier stays satisfied from the first `Satisfy` on, so that from the second
round on `Condition::Wait` does not wait.  `separates_iff` says what is left: every interleaving
keeps the rounds apart exactly when there is one thread only or no second round.  In one direction
the invariant `FirstRound` ties `count_` to the number of threads that have arrived; in the other
one the last arriver of the first round overtakes everyone in the second (`reachable_arrived`).
-/

namespace AimrtComm.Sync.Barrier

open Function

variable {n rounds : ℕ} {s s' : State n} {i j : Fin n}

/-! ### What a step does -/

@[simp] theorem goto_calls (pc : Pc) : (s.goto i pc).calls = s.calls := rfl
@[simp] theorem goto_returns (pc : Pc) : (s.goto i pc).returns = s.returns := rfl
@[simp] theorem goto_count (pc : Pc) : (s.goto i pc).count = s.count := rfl
@[simp] theorem goto_value (pc : Pc) : (s.goto i pc).value = s.value := rfl
@[simp] theorem goto_failed (pc : Pc) : (s.goto i pc).failed = s.failed := rfl
theorem goto_pc_self (s : State n) (i : Fin n) (pc : Pc) : (s.goto i pc).pc i = pc :=
  update_self ..
theorem leave_pc_self (s : State n) (i : Fin n) : (s.leave i).pc i = .idle := update_self ..
@[simp] theorem goto_pc (pc : Pc) : (s.goto i pc).pc = update s.pc i pc := rfl

theorem decrement_of_pos {c : ℕ} (h : 0 < c) : decrement c = c - 1 := if_neg (by omega)

/-- The steps of the system, one case each. -/
inductive Steps (rounds : ℕ) (s : State n) : State n → Prop where
  | call {i : Fin n} (hpc : s.pc i = .idle) (hlt : s.calls i < rounds) :
    Steps rounds s ({ s with calls := update s.calls i (s.calls i + 1) }.goto i .decrement)
  | last {i : Fin n} (hpc : s.pc i = .decrement) (h : decrement s.count = 0) :
    Steps rounds s ({ s with count := 0 }.goto i .reset)
  | arrive {i : Fin n} (hpc : s.pc i = .decrement) (h : decrement s.count ≠ 0) :
    Steps rounds s ({ s with count := decrement s.count }.goto i .check)
  | reset {i : Fin n} (hpc : s.pc i = .reset) :
    Steps rounds s ({ s with count := n }.goto i .satisfy)
  | satisfy {i : Fin n} (hpc : s.pc i = .satisfy) :
    Steps rounds s (({ s with value := true, failed := false }.notifyAll).leave i)
  | sleep {i : Fin n} (hpc : s.pc i = .check) (hf : s.failed = false) (hv : s.value = false) :
    Steps rounds s (s.goto i .asleep)
  | pass {i : Fin n} (hpc : s.pc i = .check) (h : s.failed = true ∨ s.value = true) :
    Steps rounds s (s.leave i)
  | wake {i : Fin n} (hpc : s.pc i = .asleep) : Steps rounds s (s.goto i .check)

theorem steps_of_step {e : Event n} (h : s.step rounds e = some s') : Steps rounds s s' := by
  cases e with
  | call i =>
    rw [State.step] at h
    split_ifs at h with hc
    exact Option.some.inj h ▸ .call hc.1 hc.2
  | wake i =>
    rw [State.step] at h
    split_ifs at h with hc
    exact Option.some.inj h ▸ .wake hc
  | next i =>
    rw [State.step, State.next] at h
    cases hpc : s.pc i <;> simp only [hpc] at h
    case decrement =>
      split_ifs at h with hc
      · rw [hc] at h
        exact Option.some.inj h ▸ .last hpc hc
      · exact Option.some.inj h ▸ .arrive hpc hc
    case reset => exact Option.some.inj h ▸ .reset hpc
    case satisfy => exact Option.some.inj h ▸ .satisfy hpc
    case check =>
      split_ifs at h with hc
      · rw [Bool.and_eq_true, Bool.not_eq_true', Bool.not_eq_true'] at hc
        exact Option.some.inj h ▸ .sleep hpc hc.1 hc.2
      · have hflags : s.failed = true ∨ s.value = true := by
          cases hf : s.failed <;> cases hv : s.value <;> simp [hf, hv] at hc ⊢
        exact Option.some.inj h ▸ .pass hpc hflags
    all_goals nomatch h

/-- Each of the cases can happen. -/
theorem reachable_of_steps (hs : (system n rounds).Reachable s) (h : Steps rounds s s') :
    (system n rounds).Reachable s' := by
  cases h with
  | @call i hpc hlt => exact hs.step (e := .call i) (if_pos ⟨hpc, hlt⟩)
  | @wake i hpc => exact hs.step (e := .wake i) (if_pos hpc)
  | @last i hpc hz =>
    apply hs.step (e := .next i)
    simp only [system, State.step, State.next, hpc, hz, if_true]
  | @arrive i hpc hz =>
    apply hs.step (e := .next i)
    simp only [system, State.step, State.next, hpc, hz, if_false]
  | @reset i hpc | @satisfy i hpc =>
    apply hs.step (e := .next i)
    simp only [system, State.step, State.next, hpc]
  | @sleep i hpc hf hv =>
    apply hs.step (e := .next i)
    simp [system, State.step, State.next, hpc, hf, hv]
  | @pass i hpc hflag =>
    apply hs.step (e := .next i)
    rcases hflag with hf | hv
    · simp [system, State.step, State.next, hpc, hf]
    · simp [system, State.step, State.next, hpc, hv]

/-! ### Calls and returns -/

/-- A thread has called `Wait` once more than it has returned from it while it is in `Wait`, and no
more often than there are rounds. -/
def Counted (rounds : ℕ) (s : State n) : Prop :=
  ∀ i, s.calls i = s.returns i + (if s.pc i = .idle then 0 else 1) ∧ s.calls i ≤ rounds

theorem counted_of_steps (hc : Counted rounds s) (h : Steps rounds s s') : Counted rounds s' := by
  intro j
  have hj := hc j
  -- only the thread that steps is counted anew, and only a call or a return counts
  cases h with
  | @call i hpc hlt =>
    by_cases hji : j = i
    · subst hji
      simp [hpc] at hj ⊢
      omega
    · simpa [hji] using hj
  | @last i hpc _ | @arrive i hpc _ | @reset i hpc | @sleep i hpc _ _ | @wake i hpc =>
    by_cases hji : j = i
    · subst hji
      simpa [hpc] using hj
    · simpa [hji] using hj
  | @pass i hpc _ =>
    by_cases hji : j = i
    · subst hji
      simp [hpc, State.leave] at hj ⊢
      omega
    · simpa [State.leave, hji] using hj
  | @satisfy i hpc =>
    by_cases hji : j = i
    · subst hji
      simp [hpc, State.leave, State.notifyAll] at hj ⊢
      omega
    · by_cases hs : s.pc j = .asleep
      · simpa [State.leave, State.notifyAll, hji, hs] using hj
      · simpa [State.leave, State.notifyAll, hji, hs] using hj

theorem counted_of_reachable (h : (system n rounds).Reachable s) : Counted rounds s := by
  apply h.invariant
  · intro i
    simp [system]
  · intro s e s' hs he
    exact counted_of_steps hs (steps_of_step he)

/-! ### The first round -/

/-- The thread has done the decrement of its first call. -/
def Arrived (s : State n) (i : Fin n) : Prop := 0 < s.calls i ∧ s.pc i ≠ .decrement

instance (s : State n) (i : Fin n) : Decidable (Arrived s i) :=
  inferInstanceAs (Decidable (_ ∧ _))

/-- The threads that have arrived. -/
def arrived (s : State n) : Finset (Fin n) := Finset.univ.filter (Arrived s)

/-- As long as somebody has not arrived in the first round, `count_` is the number of those, the
condition is not satisfied, and nobody is past it. -/
structure FirstRound (s : State n) : Prop where
  count : s.count = n - (arrived s).card
  value : s.value = false
  failed : s.failed = false
  last : ∀ i, s.pc i ≠ .reset ∧ s.pc i ≠ .satisfy
  returns : ∀ i, s.returns i = 0

theorem arrived_congr (h : ∀ j, Arrived s' j ↔ Arrived s j) : arrived s' = arrived s := by
  unfold arrived
  simp only [h]

/-- The number of threads that have not arrived, when there is one. -/
theorem card_arrived_lt (hj : ¬ Arrived s j) : (arrived s).card < n := by
  have hss : arrived s ⊂ Finset.univ :=
    Finset.filter_ssubset.mpr ⟨j, Finset.mem_univ j, hj⟩
  simpa using Finset.card_lt_card hss

theorem arrived_of_steps (h1 : rounds ≤ 1) (h : Steps rounds s s') (hj : Arrived s j) :
    Arrived s' j := by
  obtain ⟨hcalls, hpc'⟩ := hj
  cases h with
  | @call i hpc hlt =>
    -- with one round, a thread that has arrived does not call again
    have hji : j ≠ i := by
      rintro rfl
      omega
    simpa [Arrived, hji] using ⟨hcalls, hpc'⟩
  | @last i hpc _ | @arrive i hpc _ | @reset i hpc | @sleep i hpc _ _ | @wake i hpc =>
    by_cases hji : j = i
    · subst hji
      simpa [Arrived] using hcalls
    · simpa [Arrived, hji] using ⟨hcalls, hpc'⟩
  | @pass i hpc _ =>
    by_cases hji : j = i
    · subst hji
      simpa [Arrived, State.leave] using hcalls
    · simpa [Arrived, State.leave, hji] using ⟨hcalls, hpc'⟩
  | @satisfy i hpc =>
    by_cases hji : j = i
    · subst hji
      simpa [Arrived, State.leave, State.notifyAll] using hcalls
    · by_cases hs : s.pc j = .asleep
      · simpa [Arrived, State.leave, State.notifyAll, hji, hs] using hcalls
      · simpa [Arrived, State.leave, State.notifyAll, hji, hs] using And.intro hcalls hpc'

/-- A decrement makes one thread arrive. -/
theorem card_arrived_decrement (hpc : s.pc i = .decrement) (hcalls : 0 < s.calls i) (c : ℕ)
    {pc : Pc} (hne : pc ≠ .decrement) :
    (arrived ({ s with count := c }.goto i pc)).card = (arrived s).card + 1 := by
  have hi : i ∉ arrived s := by
    simp [arrived, Arrived, hpc]
  rw [← Finset.card_insert_of_notMem hi]
  congr 1
  ext j
  by_cases hj : j = i
  · subst hj
    simp [arrived, Arrived, hcalls, hne]
  · simp [arrived, Arrived, hj]

theorem firstRound_of_steps (h1 : rounds ≤ 1) (hc : Counted rounds s)
    (hj : ¬ Arrived s j) (hs : FirstRound s) (h : Steps rounds s s') (hj' : ¬ Arrived s' j) :
    FirstRound s' := by
  have hcard := card_arrived_lt hj
  have hcount := hs.count
  -- the decrement does not wrap around
  have hdec : decrement s.count = s.count - 1 := decrement_of_pos (by omega)
  cases h with
  | @call i hpc hlt =>
    have hcall : s.calls i = 0 := by omega
    have harr : arrived ({ s with calls := update s.calls i (s.calls i + 1) }.goto i .decrement)
        = arrived s := by
      apply arrived_congr
      intro l
      by_cases hl : l = i
      · subst hl
        simp [Arrived, hcall]
      · simp [Arrived, hl]
    refine ⟨by rw [harr]; exact hs.count, hs.value, hs.failed, ?_, hs.returns⟩
    intro l
    by_cases hl : l = i
    · subst hl
      simp
    · simpa [hl] using hs.last l
  | @last i hpc hz =>
    -- the last one arrives, against `hj'`
    have hcalls : 0 < s.calls i := by
      have hi := (hc i).1
      simp only [hpc, reduceCtorEq, if_false] at hi
      omega
    have hcard' := card_arrived_lt hj'
    rw [card_arrived_decrement hpc hcalls 0 (by decide)] at hcard'
    omega
  | @arrive i hpc hz =>
    have hcalls : 0 < s.calls i := by
      have hi := (hc i).1
      simp only [hpc, reduceCtorEq, if_false] at hi
      omega
    refine ⟨?_, hs.value, hs.failed, ?_, hs.returns⟩
    · rw [card_arrived_decrement hpc hcalls _ (by decide)]
      rw [goto_count, hdec, hcount, Nat.sub_sub]
    · intro l
      by_cases hl : l = i
      · subst hl
        simp
      · simpa [hl] using hs.last l
  | @reset i hpc => exact absurd hpc (hs.last i).1
  | @satisfy i hpc => exact absurd hpc (hs.last i).2
  | @pass i hpc hflag =>
    rw [hs.value, hs.failed] at hflag
    simp at hflag
  | @sleep i hpc _ _ | @wake i hpc =>
    refine ⟨?_, hs.value, hs.failed, ?_, hs.returns⟩
    · rw [goto_count, hcount]
      congr 2
      refine (arrived_congr fun l => ?_).symm
      by_cases hl : l = i
      · subst hl
        simp [Arrived, hpc]
      · simp [Arrived, hl]
    · intro l
      by_cases hl : l = i
      · subst hl
        simp
      · simpa [hl] using hs.last l

theorem firstRound_of_reachable (h1 : rounds ≤ 1)
    (h : (system n rounds).Reachable s) (hj : ¬ Arrived s j) : FirstRound s := by
  induction h generalizing j with
  | init =>
    refine ⟨?_, rfl, rfl, fun _ => ⟨nofun, nofun⟩, fun _ => rfl⟩
    have hnone : arrived (system n rounds).init = ∅ :=
      Finset.filter_false_of_mem fun i _ h => absurd h.1 (Nat.lt_irrefl 0)
    rw [hnone, Finset.card_empty, Nat.sub_zero]
    rfl
  | step hs he ih =>
    have hsteps := steps_of_step he
    have hj₀ := fun harr => hj (arrived_of_steps h1 hsteps harr)
    exact firstRound_of_steps h1 (counted_of_reachable hs) hj₀ (ih hj₀) hsteps hj

/-- In a single round nobody returns before everyone has called. -/
theorem separated_of_rounds_le_one (h1 : rounds ≤ 1)
    (h : (system n rounds).Reachable s) : s.Separated := by
  intro i j
  have hi := counted_of_reachable h i
  by_cases hj : Arrived s j
  · have hcalls := hj.1
    omega
  · rw [(firstRound_of_reachable h1 h hj).returns i]
    exact Nat.zero_le _

/-- A single thread has nobody to wait for. -/
theorem separated_of_one_thread {s : State 1} (h : (system 1 rounds).Reachable s) :
    s.Separated := by
  intro i j
  obtain rfl := Subsingleton.elim i j
  have hi := (counted_of_reachable h i).1
  omega

/-! ### The second round -/

/-- The state in which the threads from `1` to `k` wait in the first round. -/
def arrivedState (n k : ℕ) : State n :=
  { count := n - k, value := false, failed := false,
    pc := fun i => if 0 < i.val ∧ i.val ≤ k then .check else .idle,
    calls := fun i => if 0 < i.val ∧ i.val ≤ k then 1 else 0,
    returns := fun _ => 0 }

theorem reachable_arrived (hr : 2 ≤ rounds) {k : ℕ} (hk : k < n) :
    (system n rounds).Reachable (arrivedState n k) := by
  induction k with
  | zero =>
    have hno : ∀ i : Fin n, ¬ (0 < i.val ∧ i.val ≤ 0) := by omega
    rw [arrivedState]
    simp only [hno, if_false, Nat.sub_zero]
    exact .init
  | succ k ih =>
    -- thread `k + 1` calls `Wait` and decrements
    let i : Fin n := ⟨k + 1, hk⟩
    have hi : ¬ (0 < i.val ∧ i.val ≤ k) := by
      show ¬ (0 < k + 1 ∧ k + 1 ≤ k)
      omega
    have hcall := reachable_of_steps (ih (by omega)) (.call (i := i) (by simp [arrivedState, hi])
      (by simp only [arrivedState, hi, if_false]; omega))
    have hdec : decrement (n - k) = n - (k + 1) := by
      rw [decrement_of_pos (by omega), Nat.sub_sub]
    have hnext := reachable_of_steps hcall (.arrive (i := i) (update_self ..) (by
      show decrement (n - k) ≠ 0
      omega))
    have hval : ∀ l : Fin n, l ≠ i →
        ((0 < l.val ∧ l.val ≤ k) ↔ (0 < l.val ∧ l.val ≤ k + 1)) := by
      intro l hl
      have hne : l.val ≠ k + 1 := fun h => hl (Fin.ext h)
      omega
    have hself : 0 < i.val ∧ i.val ≤ k + 1 := by
      show 0 < k + 1 ∧ k + 1 ≤ k + 1
      omega
    convert hnext using 1
    simp only [State.goto, arrivedState, hdec, update_idem, hi, if_false, Nat.zero_add]
    congr 1
    · funext l
      by_cases hl : l = i
      · subst hl
        rw [update_self, if_pos hself]
      · rw [update_of_ne hl]
        simp only [hval l hl]
    · funext l
      by_cases hl : l = i
      · subst hl
        rw [update_self, if_pos hself]
      · rw [update_of_ne hl]
        simp only [hval l hl]

/-- The last arriver of the first round passes through the second one while the others have called
`Wait` once. -/
theorem exists_not_separated (hn : 2 ≤ n) (hr : 2 ≤ rounds) :
    ∃ s, (system n rounds).Reachable s ∧ ¬ s.Separated := by
  have hreach := reachable_arrived (n := n) hr (k := n - 1) (by omega)
  let i : Fin n := ⟨0, by omega⟩
  let j : Fin n := ⟨1, by omega⟩
  have hij : j ≠ i := by simp [i, j]
  have hi : ¬ (0 < i.val ∧ i.val ≤ n - 1) := by simp [i]
  have hj : 0 < j.val ∧ j.val ≤ n - 1 := ⟨Nat.one_pos, Nat.le_sub_of_add_le hn⟩
  -- the first round: thread `0` arrives last and satisfies the condition
  have h1 := reachable_of_steps hreach (.call (i := i) (by simp [arrivedState, hi])
    (by simp only [arrivedState, hi, if_false]; omega))
  have h2 := reachable_of_steps h1 (.last (i := i) (goto_pc_self _ i _) (by
    show decrement (n - (n - 1)) = 0
    rw [decrement_of_pos] <;> omega))
  have h3 := reachable_of_steps h2 (.reset (i := i) (goto_pc_self _ i _))
  have h4 := reachable_of_steps h3 (.satisfy (i := i) (goto_pc_self _ i _))
  -- the second round: nobody else has called, but the condition is still satisfied
  have h5 := reachable_of_steps h4 (.call (i := i) (leave_pc_self _ i) (by
    simp only [State.leave, State.notifyAll, State.goto, arrivedState, hi, if_false, update_self]
    omega))
  have h6 := reachable_of_steps h5 (.arrive (i := i) (goto_pc_self _ i _) (by
    show decrement n ≠ 0
    rw [decrement_of_pos] <;> omega))
  have h7 := reachable_of_steps h6 (.pass (i := i) (goto_pc_self _ i _) (.inr rfl))
  refine ⟨_, h7, fun h => ?_⟩
  have hlt := h i j
  simp [State.leave, State.notifyAll, State.goto, arrivedState, hij, hj] at hlt

/-! ### The headline -/

/-- **`sync::Barrier` separates rounds only if there is one.**  `n ≥ 1` threads that call `Wait`
up to `rounds` times are kept apart in every interleaving exactly when `n` is one or `rounds` is at
most one. -/
theorem separates_iff (n rounds : ℕ) (hn : 1 ≤ n) :
    (∀ s, (system n rounds).Reachable s → s.Separated) ↔ n = 1 ∨ rounds ≤ 1 := by
  constructor
  · intro h
    by_contra hne
    obtain ⟨s, hs, hns⟩ : ∃ s, (system n rounds).Reachable s ∧ ¬s.Separated :=
      exists_not_separated (by omega) (by omega)
    exact hns (h s hs)
  · rintro (rfl | h1) s hs
    · exact separated_of_one_thread hs
    · exact separated_of_rounds_le_one h1 hs

/-- Three threads are kept apart in one round, and not in two. -/
theorem separates_iff_sample :
    (∀ s, (system 3 1).Reachable s → s.Separated) ∧
      ¬ ∀ s, (system 3 2).Reachable s → s.Separated :=
  ⟨(separates_iff 3 1 (by decide)).mpr (by decide), fun h =>
    absurd ((separates_iff 3 2 (by decide)).mp h) (by decide)⟩

/-- Two threads and two rounds: thread `0` returns from its second call of `Wait` while thread `1`
has called it once. -/
theorem two_threads_not_separated :
    ∃ s, (system 2 2).run
        [.call 1, .next 1, .call 0, .next 0, .next 0, .next 0, .call 0, .next 0, .next 0] = some s ∧
      s.returns 0 = 2 ∧ s.calls 1 = 1 ∧ ¬ s.Separated := by
  refine ⟨_, rfl, ?_⟩
  decide

end AimrtComm.Sync.Barrier
