import AimrtComm.Lib.Transition
import Mathlib.Data.List.Nodup
import Mathlib.Logic.Function.Basic

/-!
# Handing out positions of numbered blocks

Holders draw blocks, which are numbered from one in the order they are drawn, and hand out the
positions of their block one after the other.  A block is given up for a new one only after it was
used.  Then no position of a block is ever handed out twice (`nodup_tokens`), and the first position
of every block was handed out, or its holder is about to do so (`first_mem_tokens`).
-/

namespace AimrtComm.Blocks

variable {τ : Type*} [DecidableEq τ]

/-- The block of a holder, zero before the first, and the next position in it. -/
structure Holding where
  block : ℕ := 0
  pos : ℕ := 0
  deriving DecidableEq

/-- The blocks drawn so far, who holds which, and what was handed out, the last one first. -/
structure State (τ : Type*) where
  drawn : ℕ
  holding : τ → Holding
  tokens : List (ℕ × ℕ)

/-- What a holder can do. -/
inductive Event (τ : Type*) where
  | draw (t : τ)
  | hand (t : τ)

/-- The state after an event, if it can happen. -/
def step (s : State τ) : Event τ → Option (State τ)
  | .draw t =>
    if (s.holding t).block = 0 ∨ (s.holding t).pos ≠ 0 then
      some
        { s with
          drawn := s.drawn + 1
          holding := Function.update s.holding t ⟨s.drawn + 1, 0⟩ }
    else none
  | .hand t =>
    if (s.holding t).block = 0 then none
    else
      some
        { s with
          holding := Function.update s.holding t ⟨(s.holding t).block, (s.holding t).pos + 1⟩
          tokens := ((s.holding t).block, (s.holding t).pos) :: s.tokens }

/-- Any holders, at any time. -/
def allocator (τ : Type*) [DecidableEq τ] : System (State τ) (Event τ) where
  init := ⟨0, fun _ => {}, []⟩
  step := step

/-- The invariant of the allocator. -/
structure Sound (s : State τ) : Prop where
  block_le : ∀ t, (s.holding t).block ≤ s.drawn
  unique : ∀ t t', (s.holding t).block = (s.holding t').block → (s.holding t).block ≠ 0 → t = t'
  token_pos : ∀ token ∈ s.tokens, 0 < token.1
  token_le : ∀ token ∈ s.tokens, token.1 ≤ s.drawn
  behind : ∀ token ∈ s.tokens, ∀ t, (s.holding t).block = token.1 → token.2 < (s.holding t).pos
  nodup : s.tokens.Nodup
  first : ∀ block, 0 < block → block ≤ s.drawn →
    (block, 0) ∈ s.tokens ∨ ∃ t, s.holding t = ⟨block, 0⟩

variable {s s' : State τ}

theorem sound_init : Sound (allocator τ).init where
  block_le := fun _ => Nat.le_refl 0
  unique := fun _ _ _ hne => absurd rfl hne
  token_pos := by simp [allocator]
  token_le := by simp [allocator]
  behind := by simp [allocator]
  nodup := List.nodup_nil
  first := by
    intro block hpos hle
    exact absurd hle (Nat.not_le_of_lt hpos)

theorem Sound.draw {t : τ} (h : Sound s) (hused : (s.holding t).block = 0 ∨ (s.holding t).pos ≠ 0) :
    Sound
      { s with drawn := s.drawn + 1, holding := Function.update s.holding t ⟨s.drawn + 1, 0⟩ } where
  block_le := by
    intro t'
    show (Function.update s.holding t ⟨s.drawn + 1, 0⟩ t').block ≤ s.drawn + 1
    by_cases ht : t' = t
    · subst ht
      simp
    · rw [Function.update_of_ne ht]
      exact Nat.le_succ_of_le (h.block_le t')
  unique := by
    intro t₁ t₂ heq hne
    have hle₁ := h.block_le t₁
    have hle₂ := h.block_le t₂
    by_cases h₁ : t₁ = t <;> by_cases h₂ : t₂ = t
    · rw [h₁, h₂]
    -- the new block is behind all that were drawn, so no other holder has it
    · subst h₁
      simp only [Function.update_self, Function.update_of_ne h₂] at heq
      omega
    · subst h₂
      simp only [Function.update_self, Function.update_of_ne h₁] at heq
      omega
    · simp only [Function.update_of_ne h₁, Function.update_of_ne h₂] at heq hne
      exact h.unique t₁ t₂ heq hne
  token_pos := h.token_pos
  token_le := fun token htoken => Nat.le_succ_of_le (h.token_le token htoken)
  behind := by
    intro token htoken t' heq
    have hle := h.token_le token htoken
    by_cases ht : t' = t
    · subst ht
      simp only [Function.update_self] at heq
      omega
    · simp only [Function.update_of_ne ht] at heq ⊢
      exact h.behind token htoken t' heq
  nodup := h.nodup
  first := by
    intro block hpos hle
    by_cases hnew : block = s.drawn + 1
    · exact .inr ⟨t, by simp [hnew]⟩
    · have hold : block ≤ s.drawn := by
        have hle : block ≤ s.drawn + 1 := hle
        omega
      rcases h.first block hpos hold with hmem | ⟨t', ht'⟩
      · exact .inl hmem
      · have hne : t' ≠ t := by
          -- the holder that draws has used the first position of its block
          rintro rfl
          rw [ht'] at hused
          rcases hused with hzero | hfresh
          · exact absurd hzero (Nat.ne_of_gt hpos)
          · exact hfresh rfl
        exact .inr ⟨t', (Function.update_of_ne hne _ _).trans ht'⟩

theorem Sound.hand {t : τ} (h : Sound s) (hblock : (s.holding t).block ≠ 0) :
    Sound
      { s with
        holding := Function.update s.holding t ⟨(s.holding t).block, (s.holding t).pos + 1⟩
        tokens := ((s.holding t).block, (s.holding t).pos) :: s.tokens } where
  block_le := by
    intro t'
    by_cases ht : t' = t
    · subst ht
      simpa using h.block_le t'
    · simpa only [Function.update_of_ne ht] using h.block_le t'
  unique := by
    have hsame : ∀ t', (Function.update s.holding t
        ⟨(s.holding t).block, (s.holding t).pos + 1⟩ t').block = (s.holding t').block := by
      intro t'
      by_cases ht : t' = t
      · subst ht
        simp
      · rw [Function.update_of_ne ht]
    intro t₁ t₂ heq hne
    simp only [hsame] at heq hne
    exact h.unique t₁ t₂ heq hne
  token_pos := by
    intro token htoken
    rcases List.mem_cons.mp htoken with rfl | htoken
    · exact Nat.pos_of_ne_zero hblock
    · exact h.token_pos token htoken
  token_le := by
    intro token htoken
    rcases List.mem_cons.mp htoken with rfl | htoken
    · exact h.block_le t
    · exact h.token_le token htoken
  behind := by
    intro token htoken t' heq
    by_cases ht : t' = t
    · subst ht
      simp only [Function.update_self] at heq ⊢
      rcases List.mem_cons.mp htoken with rfl | htoken
      · exact Nat.lt_succ_self _
      · exact Nat.lt_succ_of_lt (h.behind token htoken t' heq)
    · simp only [Function.update_of_ne ht] at heq ⊢
      rcases List.mem_cons.mp htoken with rfl | htoken
      -- a position of `t` is in a block that no other holder has
      · exact absurd (h.unique t t' heq.symm hblock).symm ht
      · exact h.behind token htoken t' heq
  nodup := by
    refine List.nodup_cons.mpr ⟨?_, h.nodup⟩
    intro hmem
    exact Nat.lt_irrefl _ (h.behind _ hmem t rfl)
  first := by
    intro block hpos hle
    rcases h.first block hpos hle with hmem | ⟨t', ht'⟩
    · exact .inl (List.mem_cons_of_mem _ hmem)
    · by_cases ht : t' = t
      · subst ht
        left
        rw [ht']
        exact List.mem_cons_self
      · exact .inr ⟨t', (Function.update_of_ne ht _ _).trans ht'⟩

theorem Sound.step {e : Event τ} (h : Sound s) (hstep : step s e = some s') : Sound s' := by
  cases e with
  | draw t =>
    rw [Blocks.step] at hstep
    split_ifs at hstep with hused
    obtain rfl := Option.some.inj hstep
    exact h.draw hused
  | hand t =>
    rw [Blocks.step] at hstep
    split_ifs at hstep with hblock
    obtain rfl := Option.some.inj hstep
    exact h.hand hblock

theorem sound_of_reachable (h : (allocator τ).Reachable s) : Sound s :=
  h.invariant sound_init fun _ _ _ hs hstep => hs.step hstep

/-- **No position of a block is handed out twice.** -/
theorem nodup_tokens (h : (allocator τ).Reachable s) : s.tokens.Nodup :=
  (sound_of_reachable h).nodup

/-- The first position of a block that was drawn was handed out, if no holder is about to do so. -/
theorem first_mem_tokens (h : (allocator τ).Reachable s) {block : ℕ} (hpos : 0 < block)
    (hle : block ≤ s.drawn) (hquiet : ∀ t, s.holding t ≠ ⟨block, 0⟩) : (block, 0) ∈ s.tokens := by
  rcases (sound_of_reachable h).first block hpos hle with hmem | ⟨t, ht⟩
  · exact hmem
  · exact absurd ht (hquiet t)

end AimrtComm.Blocks
