import AimrtComm.Lib.Blocks
import AimrtComm.Utils.Uuid

/-!
# Ids are unique until the block ids wrap around

The calls of a process hand out positions of blocks: the 16 bits of a thread's id are the number of
its block, the 16 bits of its counter the position (`refines_allocator`).  Positions are never
handed out twice, so the ids are distinct as long as the numbers of the blocks fit into 16 bits, and
not any longer: the first id of block 65537 is the one of block 1 (`unique_iff`).
-/

namespace AimrtComm.Utils

variable {τ : Type*} [DecidableEq τ] {pid : UInt32}

/-! ### The bits of an id -/

theorem toUInt16_uid (pid : UInt32) (threadId count : UInt16) :
    (uid pid threadId count).toUInt16 = count := by
  apply UInt16.toBitVec_inj.mp
  apply BitVec.eq_of_getLsbD_eq
  intro i hi
  simp [uid]

theorem toUInt16_uid_shift (pid : UInt32) (threadId count : UInt16) :
    (uid pid threadId count >>> 16).toUInt16 = threadId := by
  apply UInt16.toBitVec_inj.mp
  apply BitVec.eq_of_getLsbD_eq
  intro i hi
  have hlow : 16 + i < 32 := by omega
  have hword : 16 + i < 64 := by omega
  have hbyte : i < 64 := by omega
  simp [uid, hi, hlow, hword, hbyte]

theorem uid_inj {threadId threadId' count count' : UInt16}
    (h : uid pid threadId count = uid pid threadId' count') :
    threadId = threadId' ∧ count = count' := by
  constructor
  · rw [← toUInt16_uid_shift pid threadId count, h, toUInt16_uid_shift]
  · rw [← toUInt16_uid pid threadId count, h, toUInt16_uid]

/-- The id that stands for a position of a block. -/
def idOf (pid : UInt32) (token : ℕ × ℕ) : UInt64 :=
  uid pid (UInt16.ofNat token.1) (UInt16.ofNat token.2)

theorem ofNat_eq_iff {a b : ℕ} : UInt16.ofNat a = UInt16.ofNat b ↔ a % 65536 = b % 65536 := by
  rw [← UInt16.toNat_inj, UInt16.toNat_ofNat', UInt16.toNat_ofNat']

/-- The ids of the first 65536 blocks are distinct. -/
theorem idOf_inj {token token' : ℕ × ℕ} (hpos : 0 < token.1 ∧ token.1 ≤ 65536)
    (hpos' : 0 < token'.1 ∧ token'.1 ≤ 65536) (hsmall : token.2 < 65536)
    (hsmall' : token'.2 < 65536) (h : idOf pid token = idOf pid token') : token = token' := by
  obtain ⟨hblock, hcount⟩ := uid_inj h
  rw [ofNat_eq_iff] at hblock hcount
  exact Prod.ext (by omega) (by omega)

/-! ### Calls hand out positions -/

/-- A process whose threads hold these blocks. -/
structure Holds (pid : UInt32) (s : Process τ) (a : Blocks.State τ) : Prop where
  next_eq : s.nextThreadId = UInt16.ofNat a.drawn
  drawn_eq : s.drawn = a.drawn
  threadId_eq : ∀ t, (s.threads t).threadId = UInt16.ofNat (a.holding t).block
  count_eq : ∀ t, (s.threads t).count.toNat = (a.holding t).pos
  drawing_iff : ∀ t, s.drawing t = true ↔ (a.holding t).block ≠ 0 ∧ (a.holding t).pos = 0
  small : ∀ token ∈ a.tokens, token.2 < 65536
  ids_eq : s.ids = a.tokens.map (idOf pid)

variable {s s' : Process τ} {a : Blocks.State τ} {t : τ}

theorem needsBlock_eq_false_iff {self : ThreadLocal} :
    self.needsBlock = false ↔ self.threadId ≠ 0 ∧ self.count ≠ 65535 := by
  simp [ThreadLocal.needsBlock]

theorem Holds.draw (h : Holds pid s a)
    (hstep : s.step pid (.draw t) = some s') :
    ∃ a', Blocks.step a (.draw t) = some a' ∧ Holds pid s' a' := by
  rw [Process.step] at hstep
  split_ifs at hstep with hneeds
  obtain rfl := Option.some.inj hstep
  have hused : (a.holding t).block = 0 ∨ (a.holding t).pos ≠ 0 := by
    -- a thread that is drawing has not finished yet, so it does not draw again
    by_contra hfresh
    have hdrawing := (h.drawing_iff t).mpr (by omega)
    rw [hneeds.1] at hdrawing
    cases hdrawing
  refine ⟨_, by rw [Blocks.step, if_pos hused], ?_⟩
  exact
    { next_eq := by
        show s.nextThreadId + 1 = UInt16.ofNat (a.drawn + 1)
        rw [h.next_eq, UInt16.ofNat_add]
        rfl
      drawn_eq := by
        show s.drawn + 1 = a.drawn + 1
        rw [h.drawn_eq]
      threadId_eq := by
        intro t'
        by_cases ht : t' = t
        · subst ht
          simp [h.next_eq, UInt16.ofNat_add]
        · simpa [ht] using h.threadId_eq t'
      count_eq := by
        intro t'
        by_cases ht : t' = t
        · subst ht
          simp
        · simpa [ht] using h.count_eq t'
      drawing_iff := by
        intro t'
        by_cases ht : t' = t
        · subst ht
          simp
        · simpa [ht] using h.drawing_iff t'
      small := h.small
      ids_eq := h.ids_eq }

theorem Holds.finish (h : Holds pid s a)
    (hstep : s.step pid (.finish t) = some s') :
    ∃ a', Blocks.step a (.hand t) = some a' ∧ Holds pid s' a' := by
  rw [Process.step] at hstep
  split_ifs at hstep with hready
  obtain rfl := Option.some.inj hstep
  have hcount := h.count_eq t
  -- the counter is not at its limit, be it new or be it not in need of a block
  have hholds : (a.holding t).block ≠ 0 ∧ (a.holding t).pos < 65535 := by
    rcases hready with hdrawing | hneeds
    · have hfresh := (h.drawing_iff t).mp hdrawing
      omega
    · obtain ⟨hid, hlimit⟩ := needsBlock_eq_false_iff.mp hneeds
      constructor
      · intro hzero
        rw [h.threadId_eq, hzero] at hid
        exact hid rfl
      · have hlt := (s.threads t).count.toNat_lt
        have hne : (s.threads t).count.toNat ≠ 65535 := fun heq =>
          hlimit (UInt16.toNat_inj.mp heq)
        omega
  refine ⟨_, by rw [Blocks.step, if_neg hholds.1], ?_⟩
  exact
    { next_eq := h.next_eq
      drawn_eq := h.drawn_eq
      threadId_eq := by
        intro t'
        by_cases ht : t' = t
        · subst ht
          simpa [takeId] using h.threadId_eq t'
        · simpa [ht] using h.threadId_eq t'
      count_eq := by
        intro t'
        by_cases ht : t' = t
        · subst ht
          simp only [Function.update_self, UInt16.toNat_add, hcount]
          show ((a.holding t').pos + 1) % 65536 = (a.holding t').pos + 1
          omega
        · simpa [ht] using h.count_eq t'
      drawing_iff := by
        intro t'
        by_cases ht : t' = t
        · subst ht
          simp
        · simpa [ht] using h.drawing_iff t'
      small := by
        intro token htoken
        rcases List.mem_cons.mp htoken with rfl | htoken
        · show (a.holding t).pos < 65536
          omega
        · exact h.small token htoken
      ids_eq := by
        have hofNat : UInt16.ofNat (a.holding t).pos = (s.threads t).count := by
          rw [← hcount, UInt16.ofNat_toNat]
        show (takeId pid (s.threads t)).1 :: s.ids = _
        rw [h.ids_eq, List.map_cons, takeId, idOf, hofNat, ← h.threadId_eq] }

/-- **The calls of a process hand out positions of blocks.** -/
theorem refines_allocator (pid : UInt32) (τ : Type*) [DecidableEq τ] :
    (process pid τ).Refines (Blocks.allocator τ) (Holds pid) where
  init :=
    { next_eq := rfl
      drawn_eq := rfl
      threadId_eq := fun _ => rfl
      count_eq := fun _ => rfl
      drawing_iff := by simp [process, Blocks.allocator]
      small := by simp [Blocks.allocator]
      ids_eq := rfl }
  step := by
    intro s a e s' h hstep
    right
    cases e with
    | draw t =>
      obtain ⟨a', ha', h'⟩ := h.draw hstep
      exact ⟨.draw t, a', ha', h'⟩
    | finish t =>
      obtain ⟨a', ha', h'⟩ := h.finish hstep
      exact ⟨.hand t, a', ha', h'⟩

/-! ### One call -/

/-- The steps of a call of `t` that no other thread comes between. -/
def callSteps (s : Process τ) (t : τ) : List (CallStep τ) :=
  if (s.threads t).needsBlock then [.draw t, .finish t] else [.finish t]

/-- What they do is `generateUniqueID`. -/
theorem run_callSteps (pid : UInt32) (hidle : s.drawing t = false) :
    ∃ s', (callSteps s t).foldlM (process pid τ).step s = some s' ∧
      s'.ids = (generateUniqueID pid s.nextThreadId (s.threads t)).1 :: s.ids ∧
      s'.nextThreadId = (generateUniqueID pid s.nextThreadId (s.threads t)).2.1 ∧
      s'.threads =
        Function.update s.threads t (generateUniqueID pid s.nextThreadId (s.threads t)).2.2 ∧
      s'.drawing = s.drawing ∧
      s'.drawn = s.drawn + (if (s.threads t).needsBlock then 1 else 0) := by
  have hback : ∀ b, Function.update (Function.update s.drawing t b) t false = s.drawing := by
    intro b
    rw [Function.update_idem, ← hidle, Function.update_eq_self]
  cases hneeds : (s.threads t).needsBlock with
  | true => simp [callSteps, generateUniqueID, process, Process.step, hneeds, hidle, hback]
  | false =>
    have hsame : Function.update s.drawing t false = s.drawing := by
      rw [← hidle, Function.update_eq_self]
    simp [callSteps, generateUniqueID, process, Process.step, hneeds, hsame]

/-! ### Every run -/

theorem nodup_of_drawn_le (h : (process pid τ).Reachable s) (hdrawn : s.drawn ≤ 65536) :
    s.ids.Nodup := by
  obtain ⟨a, ha, hholds⟩ := (refines_allocator pid τ).reachable h
  have hsound := Blocks.sound_of_reachable ha
  rw [hholds.ids_eq]
  apply List.Nodup.map_on _ (Blocks.nodup_tokens ha)
  intro token htoken token' htoken' heq
  have hle := hsound.token_le token htoken
  have hle' := hsound.token_le token' htoken'
  rw [hholds.drawn_eq] at hdrawn
  exact idOf_inj ⟨hsound.token_pos token htoken, by omega⟩
    ⟨hsound.token_pos token' htoken', by omega⟩ (hholds.small token htoken)
    (hholds.small token' htoken') heq

theorem drawn_le_of_nodup (h : (process pid τ).Reachable s)
    (hquiet : ∀ t, s.drawing t = false) (hnodup : s.ids.Nodup) : s.drawn ≤ 65536 := by
  obtain ⟨a, ha, hholds⟩ := (refines_allocator pid τ).reachable h
  have hfirst : ∀ block, 0 < block → block ≤ a.drawn → (block, 0) ∈ a.tokens := by
    intro block hpos hle
    apply Blocks.first_mem_tokens ha hpos hle
    intro t ht
    have hdrawing := (hholds.drawing_iff t).mpr (by simp [ht, Nat.ne_of_gt hpos])
    rw [hquiet t] at hdrawing
    cases hdrawing
  rw [hholds.ids_eq] at hnodup
  rw [hholds.drawn_eq]
  by_contra hmore
  have hsame : idOf pid (1, 0) = idOf pid (65537, 0) := rfl
  have heq := List.inj_on_of_nodup_map hnodup (hfirst 1 (by omega) (by omega))
    (hfirst 65537 (by omega) (by omega)) hsame
  cases heq

/-- **The ids of a process are distinct as long as at most 65536 blocks were drawn**, and once all
calls have returned, only then. -/
theorem unique_iff (h : (process pid τ).Reachable s) :
    (s.drawn ≤ 65536 → s.ids.Nodup) ∧
      ((∀ t, s.drawing t = false) → (s.ids.Nodup ↔ s.drawn ≤ 65536)) :=
  ⟨nodup_of_drawn_le h, fun hquiet => ⟨drawn_le_of_nodup h hquiet, nodup_of_drawn_le h⟩⟩

/-- Two threads, the first of which calls again after the second. -/
def sampleSteps : List (CallStep Bool) :=
  [.draw true, .draw false, .finish true, .finish false, .finish true]

def sampleProcess : Process Bool := ((process 7 Bool).run sampleSteps).getD (process 7 Bool).init

theorem unique_iff_sample :
    sampleProcess.ids = [uid 7 1 1, uid 7 2 0, uid 7 1 0] ∧ sampleProcess.ids.Nodup := by
  have hreach : (process 7 Bool).Reachable sampleProcess := System.reachable_of_run sampleSteps rfl
  exact ⟨rfl, (unique_iff hreach).1 (by decide)⟩

/-- Any number of threads can call once each. -/
theorem exists_run (pid : UInt32) (n : ℕ) :
    ∃ s : Process ℕ, (process pid ℕ).Reachable s ∧ s.drawn = n ∧
      (∀ t, s.drawing t = false) ∧ ∀ t, n ≤ t → s.threads t = {} := by
  induction n with
  | zero => exact ⟨_, .init, rfl, fun _ => rfl, fun _ _ => rfl⟩
  | succ n ih =>
    obtain ⟨s, hreach, hdrawn, hquiet, hfresh⟩ := ih
    have hneeds : (s.threads n).needsBlock = true := by
      rw [hfresh n (Nat.le_refl n)]
      rfl
    obtain ⟨s', hrun, -, -, hthreads, hdrawing, hdrawn'⟩ := run_callSteps pid (hquiet n)
    refine ⟨s', ?_, ?_, ?_, ?_⟩
    · exact System.foldlM_invariant_step (fun _ _ _ hs he => hs.step he) hreach hrun
    · rw [hdrawn', hdrawn, if_pos hneeds]
    · rw [hdrawing]
      exact hquiet
    · intro t ht
      rw [hthreads, Function.update_of_ne (by omega)]
      exact hfresh t (by omega)

/-- Of 65537 threads that call once each, two get the same id. -/
theorem ids_repeat :
    ¬ ∀ (pid : UInt32) (s : Process ℕ), (process pid ℕ).Reachable s → s.ids.Nodup := by
  intro h
  obtain ⟨s, hreach, hdrawn, hquiet, -⟩ := exists_run 1 65537
  have hle := drawn_le_of_nodup hreach hquiet (h 1 s hreach)
  omega

end AimrtComm.Utils
