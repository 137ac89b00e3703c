import AimrtComm.Sync.PlainLock
import AimrtComm.Sync.SpinMutex

/-!
# The spin mutex is a lock

`refines`: every step of the mutex is a step of a `PlainLock` or none.  From the refinement follows
`exclusive_of_reachable`: at most one coroutine owns the mutex, `locked_` says whether one does, and
a coroutine in `Lock` that finds the mutex free has it after three steps of its own.
-/

namespace AimrtComm.Sync.SpinMutex

open Function

variable {Co : Type*} [DecidableEq Co] {s s' : State Co} {t : PlainLock Co} {spinCounter : ℤ}
  {c : Co}

/-- The state `s` stands for the lock `t`. -/
structure Rel (s : State Co) (t : PlainLock Co) : Prop where
  owner : ∀ c, s.pc c = .owner ↔ t.owner = some c
  locked : s.locked = t.owner.isSome

/-- A coroutine goes from a place where it does not own the mutex to another one. -/
theorem Rel.goto (h : Rel s t) {pc : Pc} (hc : s.pc c ≠ .owner) (hpc : pc ≠ .owner) :
    Rel (s.goto c pc) t := by
  refine ⟨fun d => ?_, h.locked⟩
  rw [← h.owner d]
  show update s.pc c pc d = .owner ↔ _
  by_cases hd : d = c
  · subst hd
    rw [update_self]
    exact iff_of_false hpc hc
  · rw [update_of_ne hd]

/-- The exchange acquires the lock when it is free, and changes nothing when it is not. -/
theorem Rel.exchange (h : Rel s t) {other : Pc} (hc : s.pc c ≠ .owner) (hother : other ≠ .owner) :
    Rel (s.exchange c other) t ∨
      ∃ t', t.step (.acquire c) = some t' ∧ Rel (s.exchange c other) t' := by
  have hlocked := h.locked
  unfold State.exchange
  by_cases hs : s.locked = true
  · left
    rw [if_pos hs]
    have hsame : ({ s with locked := true } : State Co) = s := by
      rw [← hs]
    rw [hsame]
    exact h.goto hc hother
  · right
    have howner : t.owner = none := by
      rw [Bool.not_eq_true] at hs
      rw [hs] at hlocked
      simpa using hlocked.symm
    refine ⟨{ owner := some c }, by simp [PlainLock.step, howner], fun d => ?_, rfl⟩
    rw [if_neg hs]
    show update s.pc c .owner d = .owner ↔ some c = some d
    by_cases hd : d = c
    · subst hd
      rw [update_self]
      exact iff_of_true rfl rfl
    · rw [update_of_ne hd, h.owner d, howner]
      exact iff_of_false nofun fun heq => hd (Option.some.inj heq).symm

theorem Rel.unlock (h : Rel s t) (hc : s.pc c = .owner) :
    ∃ t', t.step (.release c) = some t' ∧ Rel ({ s with locked := false }.goto c .idle) t' := by
  have howner : t.owner = some c := (h.owner c).mp hc
  refine ⟨{ owner := none }, by simp [PlainLock.step, howner], fun d => ?_, rfl⟩
  show update s.pc c .idle d = .owner ↔ none = some d
  by_cases hd : d = c
  · subst hd
    rw [update_self]
    exact iff_of_false nofun nofun
  · rw [update_of_ne hd, h.owner d, howner]
    exact iff_of_false (fun heq => hd (Option.some.inj heq).symm) nofun

variable (Co) in
/-- **The spin mutex is a lock.** -/
theorem refines (spinCounter : ℤ) : (system Co spinCounter).Refines (PlainLock.system Co) Rel where
  init := ⟨fun _ => iff_of_false nofun nofun, rfl⟩
  step s t e s' h hs := by
    have hkeep : ∀ {c pc}, some (s.goto c pc) = some s' → s.pc c ≠ .owner → pc ≠ .owner →
        Rel s' t := by
      intro c pc hs hc hpc
      rw [← Option.some.inj hs]
      exact h.goto hc hpc
    have hexchange : ∀ {c other}, some (s.exchange c other) = some s' → s.pc c ≠ .owner →
        other ≠ .owner →
        Rel s' t ∨ ∃ d t', (PlainLock.system Co).step t d = some t' ∧ Rel s' t' := by
      intro c other hs hc hother
      rw [← Option.some.inj hs]
      exact (h.exchange hc hother).imp_right fun hacquire => ⟨.acquire c, hacquire⟩
    cases e with
    | tryLock c =>
      simp only [system, State.step, Option.ite_none_right_eq_some] at hs
      exact hexchange hs.2 (by rw [hs.1]; decide) (by decide)
    | lock c =>
      simp only [system, State.step, Option.ite_none_right_eq_some] at hs
      exact .inl (hkeep hs.2 (by rw [hs.1]; decide) (by decide))
    | unlock c =>
      simp only [system, State.step, Option.ite_none_right_eq_some] at hs
      rw [← Option.some.inj hs.2]
      exact .inr ⟨.release c, h.unlock hs.1⟩
    | next c =>
      simp only [system, State.step] at hs
      unfold State.next at hs
      split at hs
      case h_1 hc => exact hexchange hs (by rw [hc]; decide) nofun
      case h_2 counter hc =>
        have hne : s.pc c ≠ .owner := by
          rw [hc]
          nofun
        split_ifs at hs with hlocked hspin
        · exact .inl (hkeep hs hne (by decide))
        · exact .inl (hkeep hs hne nofun)
        · exact .inl (hkeep hs hne (by decide))
      case h_3 hc => exact .inl (hkeep hs (by rw [hc]; decide) nofun)
      case h_4 => cases hs
      case h_5 => cases hs

/-! ### Progress -/

/-- A coroutine is in `Lock`. -/
def Pc.Waits (pc : Pc) : Prop := pc ≠ .idle ∧ pc ≠ .owner

/-- From the head of the loop one step locks a free mutex. -/
theorem next_of_tryLock (spinCounter : ℤ) (hfree : s.locked = false) (hc : s.pc c = .tryLock) :
    ∃ s', s.next spinCounter c = some s' ∧ s'.pc c = .owner := by
  refine ⟨s.exchange c (.load spinCounter), by unfold State.next; rw [hc], ?_⟩
  simp [State.exchange, State.goto, hfree]

/-- A spinning coroutine leaves the inner loop when the mutex is free. -/
theorem next_of_load (spinCounter : ℤ) (hfree : s.locked = false) {counter : ℤ}
    (hc : s.pc c = .load counter) :
    ∃ s', s.next spinCounter c = some s' ∧ s'.locked = false ∧ s'.pc c = .tryLock := by
  refine ⟨s.goto c .tryLock, ?_, hfree, update_self ..⟩
  unfold State.next
  rw [hc]
  dsimp only
  rw [hfree]
  rfl

/-- **A free mutex is taken**: a coroutine in `Lock` has it after at most three steps. -/
theorem lock_of_free (hfree : s.locked = false) (hc : (s.pc c).Waits) :
    ∃ n ≤ 3, ∃ s', (List.replicate n (Event.next c)).foldlM (system Co spinCounter).step s
      = some s' ∧ s'.pc c = .owner := by
  have hcons : ∀ {s s₁ : State Co} (n : ℕ), s.next spinCounter c = some s₁ →
      (List.replicate (n + 1) (Event.next c)).foldlM (system Co spinCounter).step s
        = (List.replicate n (Event.next c)).foldlM (system Co spinCounter).step s₁ := by
    intro s s₁ n hs
    rw [List.replicate_succ, List.foldlM_cons]
    show (s.next spinCounter c).bind _ = _
    rw [hs]
    rfl
  have htry : ∀ {s : State Co}, s.locked = false → s.pc c = .tryLock →
      ∃ s', (List.replicate 1 (Event.next c)).foldlM (system Co spinCounter).step s = some s' ∧
        s'.pc c = .owner := by
    intro s hfree hc
    obtain ⟨s', hs, hpc⟩ := next_of_tryLock spinCounter hfree hc
    exact ⟨s', (hcons 0 hs).trans rfl, hpc⟩
  have hload : ∀ {s : State Co} {counter : ℤ}, s.locked = false → s.pc c = .load counter →
      ∃ s', (List.replicate 2 (Event.next c)).foldlM (system Co spinCounter).step s = some s' ∧
        s'.pc c = .owner := by
    intro s counter hfree hc
    obtain ⟨s₁, hs, hfree₁, hc₁⟩ := next_of_load spinCounter hfree hc
    obtain ⟨s', hs', hpc⟩ := htry hfree₁ hc₁
    exact ⟨s', (hcons 1 hs).trans hs', hpc⟩
  cases hpc : s.pc c with
  | idle => exact absurd hpc hc.1
  | owner => exact absurd hpc hc.2
  | tryLock => exact ⟨1, by omega, htry hfree hpc⟩
  | load counter => exact ⟨2, by omega, hload hfree hpc⟩
  | yield =>
    have hs : s.next spinCounter c = some (s.goto c (.load spinCounter)) := by
      unfold State.next
      rw [hpc]
    obtain ⟨s', hs', hpc'⟩ := hload (s := s.goto c (.load spinCounter)) hfree (update_self ..)
    exact ⟨3, Nat.le_refl _, s', (hcons 2 hs).trans hs', hpc'⟩

/-- **The spin mutex excludes, and is never lost.**  In every state that any interleaving leads to,
at most one coroutine owns the mutex and `locked_` says whether one does, so that a coroutine in
`Lock` gets a mutex that nobody owns within three steps of its own. -/
theorem exclusive_of_reachable (h : (system Co spinCounter).Reachable s) :
    (∀ c d, s.pc c = .owner → s.pc d = .owner → c = d) ∧
      (s.locked = true ↔ ∃ c, s.pc c = .owner) ∧
      ∀ c, (s.pc c).Waits → (∀ d, s.pc d ≠ .owner) →
        ∃ n ≤ 3, ∃ s', (List.replicate n (Event.next c)).foldlM (system Co spinCounter).step s
          = some s' ∧ s'.pc c = .owner := by
  obtain ⟨t, -, hrel⟩ := (refines Co spinCounter).reachable h
  have hlocked : s.locked = true ↔ ∃ c, s.pc c = .owner := by
    rw [hrel.locked, Option.isSome_iff_exists]
    exact exists_congr fun c => (hrel.owner c).symm
  refine ⟨fun c d hc hd => ?_, hlocked, fun c hc hnone => ?_⟩
  · have hc' := (hrel.owner c).mp hc
    rw [(hrel.owner d).mp hd] at hc'
    exact (Option.some.inj hc').symm
  · have hfree : s.locked = false := by
      rw [← Bool.not_eq_true, hlocked]
      rintro ⟨d, hd⟩
      exact hnone d hd
    exact lock_of_free hfree hc

theorem exclusive_of_reachable_sample :
    ∃ s : State ℕ, (system ℕ 1).run [.lock 0, .next 0, .lock 1, .next 1, .next 1] = some s ∧
      ∀ c d, s.pc c = .owner → s.pc d = .owner → c = d :=
  ⟨_, rfl, (exclusive_of_reachable
    (System.reachable_of_run [.lock 0, .next 0, .lock 1, .next 1, .next 1] rfl)).1⟩

end AimrtComm.Sync.SpinMutex
