import AimrtComm.Sync.AtomData
import Mathlib.Data.List.Perm.Subperm

/-!
## When `sync::AtomData` hands out every value once

Between the two sections of `GetAndClear` another thread may take or clear the data, or it may
time out, and the second section does not look again.  `handedOutOnce_iff` says that this is all
that can go wrong: a run hands out every value at most once exactly when each of its second
sections happens while `Has` would still return true.  The invariant `Tracked` says what `has_`
means: the last `Set` was neither cleared nor taken since.
-/

namespace AimrtComm.Sync.AtomData

open Function

variable {Th T : Type*} [DecidableEq Th] {s s' : State Th T}

/-! ### What `has_` means -/

/-- `has_` is true when there was a `Set`, and neither a `Clear` nor a `GetAndClear` came after the
last one; a thread that is about to take saw a `Set`. -/
structure Tracked (s : State Th T) : Prop where
  has_iff : s.has = true ↔ 0 < s.sets.length ∧ s.cleared = false ∧
    ∀ x ∈ s.taken, x.source ≠ s.sets.length
  source_le : ∀ x ∈ s.taken, x.source ≤ s.sets.length
  obj : 0 < s.sets.length → s.sets[s.sets.length - 1]? = some s.obj

theorem tracked_of_step {obj : T} {timeout : BitVec 64} (hs : Tracked s) {e : Event Th T}
    (h : (system Th obj timeout).step s e = some s') : Tracked s' := by
  replace h : s.step e = some s' := h
  cases e with
  | set a now =>
    obtain rfl := Option.some.inj h
    refine ⟨?_, ?_, ?_⟩
    · simp only [List.length_append, List.length_singleton, true_iff]
      refine ⟨by omega, trivial, fun x hx => ?_⟩
      have hle := hs.source_le x hx
      omega
    · intro x hx
      have hle := hs.source_le x hx
      rw [List.length_append, List.length_singleton]
      omega
    · intro _
      simp
  | has now =>
    obtain rfl := Option.some.inj h
    exact hs
  | clear =>
    obtain rfl := Option.some.inj h
    exact ⟨by simp, hs.source_le, hs.obj⟩
  | check t now =>
    rw [State.step] at h
    split_ifs at h
    obtain rfl := Option.some.inj h
    exact ⟨hs.has_iff, hs.source_le, hs.obj⟩
  | take t now =>
    rw [State.step] at h
    split_ifs at h
    obtain rfl := Option.some.inj h
    refine ⟨?_, ?_, hs.obj⟩
    · -- the `GetAndClear` has now taken the last `Set`
      simp
    · intro x hx
      rw [List.mem_append, List.mem_singleton] at hx
      rcases hx with hx | rfl
      · exact hs.source_le x hx
      · exact Nat.le_refl _

theorem tracked_init (obj : T) (timeout : BitVec 64) : Tracked (system Th obj timeout).init :=
  ⟨by simp [system], by simp [system], by simp [system]⟩

/-! ### One step -/

/-- The second section of `GetAndClear` happens while `Has` would still return true. -/
def StillThere (s : State Th T) : Event Th T → Prop
  | .take _ now => s.hasData now = true
  | _ => True

omit [DecidableEq Th] in
theorem hasData_eq_true_iff (now : BitVec 64) :
    s.hasData now = true ↔ s.timedOut now = false ∧ s.has = true := by
  rw [State.hasData]
  cases s.timedOut now <;> simp

/-- A second section keeps the values handed out once exactly when the data is still there. -/
theorem handedOutOnce_take (hs : Tracked s) (t : Th) (now : BitVec 64) :
    State.HandedOutOnce { s with
        has := false
        taking := update s.taking t false
        taken := s.taken ++ [⟨s.sets.length, s.obj, s.cleared, s.timedOut now⟩] }
      ↔ s.HandedOutOnce ∧ s.hasData now = true := by
  rw [hasData_eq_true_iff, hs.has_iff]
  constructor
  · intro h
    -- what holds of the value handed out last says that the data was still there
    have hlast := List.mem_append_right s.taken
      (List.mem_singleton_self (Taken.mk s.sets.length s.obj s.cleared (s.timedOut now)))
    have honce := h.once
    simp only [List.map_append, List.map_singleton, List.nodup_append, List.mem_map,
      List.mem_singleton] at honce
    refine ⟨⟨?_, honce.1, ?_, ?_⟩, h.not_timedOut _ hlast, (h.source _ hlast).1,
      h.not_cleared _ hlast, ?_⟩
    · exact fun x hx => h.source x (List.mem_append_left _ hx)
    · exact fun x hx => h.not_cleared x (List.mem_append_left _ hx)
    · exact fun x hx => h.not_timedOut x (List.mem_append_left _ hx)
    · exact fun x hx => honce.2.2 _ ⟨x, hx, rfl⟩ _ rfl
  · rintro ⟨h, htime, hpos, hclear, hne⟩
    refine ⟨?_, ?_, ?_, ?_⟩
    · intro x hx
      rw [List.mem_append, List.mem_singleton] at hx
      rcases hx with hx | rfl
      · exact h.source x hx
      · exact ⟨hpos, hs.obj hpos⟩
    · simp only [List.map_append, List.map_singleton, List.nodup_append, List.mem_map,
        List.mem_singleton]
      refine ⟨h.once, by simp, ?_⟩
      rintro _ ⟨x, hx, rfl⟩ _ rfl
      exact hne x hx
    · intro x hx
      rw [List.mem_append, List.mem_singleton] at hx
      rcases hx with hx | rfl
      · exact h.not_cleared x hx
      · exact hclear
    · intro x hx
      rw [List.mem_append, List.mem_singleton] at hx
      rcases hx with hx | rfl
      · exact h.not_timedOut x hx
      · exact htime

omit [DecidableEq Th] in
/-- A new value leaves what was handed out alone. -/
theorem handedOutOnce_set (hs : Tracked s) {a : T} {time : BitVec 64} :
    State.HandedOutOnce { s with
        lastRecvTime := time, obj := a, has := true, sets := s.sets ++ [a], cleared := false }
      ↔ s.HandedOutOnce := by
  -- the values handed out came from earlier calls of `Set`
  have hget : ∀ x ∈ s.taken, 0 < x.source →
      (s.sets ++ [a])[x.source - 1]? = s.sets[x.source - 1]? := by
    intro x hx hpos
    have hle := hs.source_le x hx
    exact List.getElem?_append_left (by omega)
  constructor
  · intro h
    refine ⟨fun x hx => ?_, h.once, h.not_cleared, h.not_timedOut⟩
    obtain ⟨hpos, hval⟩ := h.source x hx
    exact ⟨hpos, hget x hx hpos ▸ hval⟩
  · intro h
    refine ⟨fun x hx => ?_, h.once, h.not_cleared, h.not_timedOut⟩
    obtain ⟨hpos, hval⟩ := h.source x hx
    exact ⟨hpos, (hget x hx hpos).trans hval⟩

/-- A step keeps the values handed out once exactly when it is no second section that comes too
late. -/
theorem handedOutOnce_step {obj : T} {timeout : BitVec 64} (hs : Tracked s) {e : Event Th T}
    (h : (system Th obj timeout).step s e = some s') :
    s'.HandedOutOnce ↔ s.HandedOutOnce ∧ StillThere s e := by
  replace h : s.step e = some s' := h
  cases e with
  | set a now =>
    obtain rfl := Option.some.inj h
    exact (handedOutOnce_set hs).trans (iff_of_eq (and_true _).symm)
  | has now =>
    obtain rfl := Option.some.inj h
    exact iff_of_eq (and_true _).symm
  | clear =>
    obtain rfl := Option.some.inj h
    exact ⟨fun h => ⟨⟨h.1, h.2, h.3, h.4⟩, trivial⟩, fun ⟨h, _⟩ => ⟨h.1, h.2, h.3, h.4⟩⟩
  | check t now =>
    rw [State.step] at h
    split_ifs at h
    obtain rfl := Option.some.inj h
    exact ⟨fun h => ⟨⟨h.1, h.2, h.3, h.4⟩, trivial⟩, fun ⟨h, _⟩ => ⟨h.1, h.2, h.3, h.4⟩⟩
  | take t now =>
    rw [State.step] at h
    split_ifs at h
    obtain rfl := Option.some.inj h
    exact handedOutOnce_take hs t now

/-! ### Whole runs -/

omit [DecidableEq Th] in
/-- When every value is handed out at most once, `GetAndClear` succeeds at most once for each
`Set`. -/
theorem length_taken_le (hs : Tracked s) (h : s.HandedOutOnce) :
    s.taken.length ≤ s.sets.length := by
  have hsub : s.taken.map Taken.source ⊆ List.range' 1 s.sets.length := by
    intro k hk
    obtain ⟨x, hx, rfl⟩ := List.mem_map.mp hk
    have hpos := (h.source x hx).1
    have hle := hs.source_le x hx
    rw [List.mem_range'_1]
    omega
  have hlen := (List.subperm_of_subset h.once hsub).length_le
  rwa [List.length_map, List.length_range'] at hlen

/-- **`sync::AtomData` hands out every value once if no second section comes too late.**  After any
run of any number of threads, every successful `GetAndClear` has returned the value of a `Set` of
its own that was neither cleared nor timed out, so that there were no more of them than `Set`s,
exactly when `Has` would still have returned true at the second section of each `GetAndClear`. -/
theorem handedOutOnce_iff (obj : T) (timeout : BitVec 64) (events : List (Event Th T))
    (s : State Th T) (h : (system Th obj timeout).run events = some s) :
    (s.HandedOutOnce ∧ s.taken.length ≤ s.sets.length) ↔
      (system Th obj timeout).Guarded StillThere (system Th obj timeout).init events := by
  have hs : Tracked s := System.foldlM_invariant_step (fun _ _ _ hs he => tracked_of_step hs he)
    (tracked_init obj timeout) h
  have hinit : (system Th obj timeout).init.HandedOutOnce :=
    ⟨by simp [system], by simp [system], by simp [system], by simp [system]⟩
  have hrun := System.foldlM_iff_guarded (M := system Th obj timeout) (I := Tracked)
    (P := State.HandedOutOnce) (fun _ _ _ hs he => tracked_of_step hs he)
    (fun _ _ _ hs he => handedOutOnce_step hs he) (tracked_init obj timeout) h
  rw [and_iff_left_of_imp (length_taken_le hs), hrun]
  exact and_iff_right hinit

/-- A thread sets, another one takes, with a timeout of five milliseconds. -/
theorem handedOutOnce_iff_sample :
    ∃ s, (system (Fin 2) 0 5).run [.set 7 100, .check 1 103, .take 1 104] = some s ∧
      s.HandedOutOnce ∧ s.taken.length ≤ s.sets.length := by
  refine ⟨_, rfl, ?_⟩
  apply (handedOutOnce_iff 0 5 [.set 7 100, .check 1 103, .take 1 104] _ rfl).mpr
  exact ⟨trivial, fun _ h => Option.some.inj h ▸
    ⟨trivial, fun _ h => Option.some.inj h ▸ ⟨rfl, fun _ _ => trivial⟩⟩⟩

/-- Both threads find the data before either takes it: one `Set`, two successful `GetAndClear`. -/
theorem two_threads_take_one_value :
    ∃ s, (system (Fin 2) 0 0).run
        [.set 7 100, .check 0 101, .check 1 101, .take 0 102, .take 1 103] = some s ∧
      s.taken.map Taken.value = [7, 7] ∧ s.sets.length = 1 ∧ ¬ s.HandedOutOnce := by
  refine ⟨_, rfl, rfl, rfl, fun h => ?_⟩
  exact absurd h.once (by decide)

end AimrtComm.Sync.AtomData
