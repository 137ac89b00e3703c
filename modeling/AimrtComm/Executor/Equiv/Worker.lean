import AimrtComm.Executor.Worker
import Mathlib.Algebra.Order.Ring.Int
import Mathlib.Tactic.Linarith

/-!
# Wake times as nanoseconds

A normalised `timespec` is a number of nanoseconds, and what `BaseWorker` computes with its two
fields is what that number says (`updateWorkerTime_eq`): the wake time moves on by whole periods,
unless a whole period was missed.
-/

namespace AimrtComm.Executor

namespace Timespec

/-- The nanoseconds of a `timespec`. -/
def ns (t : Timespec) : ℤ := t.tvSec * 1000000000 + t.tvNsec

/-- `tv_nsec` is a fraction of a second. -/
structure Normal (t : Timespec) : Prop where
  nonneg : 0 ≤ t.tvNsec
  lt : t.tvNsec < 1000000000

instance (t : Timespec) : Decidable t.Normal :=
  decidable_of_iff (0 ≤ t.tvNsec ∧ t.tvNsec < 1000000000)
    ⟨fun h => ⟨h.1, h.2⟩, fun h => ⟨h.1, h.2⟩⟩

theorem before_iff {t u : Timespec} (ht : t.Normal) (hu : u.Normal) :
    t.before u = true ↔ t.ns < u.ns := by
  have := ht.nonneg
  have := ht.lt
  have := hu.nonneg
  have := hu.lt
  simp only [before, ns, Bool.or_eq_true, Bool.and_eq_true, decide_eq_true_eq, beq_iff_eq]
  omega

/-- The periods whose sum with a fraction of a second is a `long`. -/
def Fits (periodNs : UInt64) : Prop := periodNs.toNat + 1000000000 ≤ 2 ^ 63

instance (periodNs : UInt64) : Decidable (Fits periodNs) :=
  inferInstanceAs (Decidable (_ ≤ _))

theorem bmod_add {t : Timespec} {periodNs : UInt64} (ht : t.Normal) (hp : Fits periodNs) :
    (t.tvNsec + periodNs.toNat).bmod UInt64.size = t.tvNsec + periodNs.toNat := by
  have := ht.nonneg
  have := ht.lt
  unfold Fits at hp
  have hsize : UInt64.size = 18446744073709551616 := rfl
  apply Int.bmod_eq_of_le <;> omega

/-- **The carry keeps the fraction below a second.** -/
theorem normal_advance {t : Timespec} {periodNs : UInt64} (ht : t.Normal) (hp : Fits periodNs) :
    (t.advance periodNs).Normal := by
  have hnonneg := ht.nonneg
  unfold advance
  rw [bmod_add ht hp]
  dsimp only
  split_ifs with hcarry
  · exact ⟨Int.emod_nonneg _ (by omega), Int.emod_lt_of_pos _ (by omega)⟩
  · exact ⟨by show 0 ≤ t.tvNsec + periodNs.toNat; omega,
      by show t.tvNsec + periodNs.toNat < 1000000000; omega⟩

/-- The carry is of whole seconds. -/
theorem ns_advance {t : Timespec} {periodNs : UInt64} (ht : t.Normal) (hp : Fits periodNs) :
    (t.advance periodNs).ns = t.ns + periodNs.toNat := by
  unfold advance ns
  rw [bmod_add ht hp]
  dsimp only
  split_ifs with hcarry
  · have hdiv := Int.mul_ediv_add_emod (t.tvNsec + periodNs.toNat) 1000000000
    show (t.tvSec + (t.tvNsec + periodNs.toNat) / 1000000000) * 1000000000
      + (t.tvNsec + periodNs.toNat) % 1000000000 = _
    linarith
  · show t.tvSec * 1000000000 + (t.tvNsec + periodNs.toNat) = _
    omega

end Timespec

open Timespec

/-- What `CLOCK_MONOTONIC` promises. -/
structure IsMonotonic (clock : ℕ → Timespec) : Prop where
  normal : ∀ k, (clock k).Normal
  nonneg : 0 ≤ (clock 0).ns
  mono : ∀ k, (clock k).ns ≤ (clock (k + 1)).ns

theorem IsMonotonic.le {clock : ℕ → Timespec} (h : IsMonotonic clock) {j k : ℕ} (hjk : j ≤ k) :
    (clock j).ns ≤ (clock k).ns := by
  induction k, hjk using Nat.le_induction with
  | base => exact le_refl _
  | succ k _ ih => exact ih.trans (h.mono k)

namespace BaseWorker

theorem isExpired_iff {w : BaseWorker} {now : Timespec} (hw : w.wakeAbsTime.Normal)
    (hnow : now.Normal) : w.isExpired now = true ↔ w.wakeAbsTime.ns ≤ now.ns := by
  have := hw.nonneg
  have := hw.lt
  have := hnow.nonneg
  have := hnow.lt
  simp only [isExpired, ns, Bool.or_eq_true, Bool.and_eq_true, decide_eq_true_eq, beq_iff_eq]
  omega

theorem less_eq_false_iff {w x : BaseWorker} (hw : w.wakeAbsTime.Normal)
    (hx : x.wakeAbsTime.Normal) :
    w.less x = false ↔ w.wakeAbsTime.ns ≤ x.wakeAbsTime.ns := by
  have := hw.nonneg
  have := hw.lt
  have := hx.nonneg
  have := hx.lt
  rw [← Bool.not_eq_true]
  simp only [less, ns, Bool.or_eq_true, Bool.and_eq_true, decide_eq_true_eq, beq_iff_eq]
  omega

theorem less_asymm {w x : BaseWorker} (h : w.less x = true) : x.less w = false := by
  rw [← Bool.not_eq_true]
  simp only [less, Bool.or_eq_true, Bool.and_eq_true, decide_eq_true_eq, beq_iff_eq] at h ⊢
  omega

theorem less_eq_false_trans {w x y : BaseWorker} (hwx : w.less x = false)
    (hxy : x.less y = false) : w.less y = false := by
  rw [← Bool.not_eq_true] at hwx hxy ⊢
  simp only [less, Bool.or_eq_true, Bool.and_eq_true, decide_eq_true_eq, beq_iff_eq]
    at hwx hxy ⊢
  omega

variable {clock : ℕ → Timespec}

/-- What `UpdateWorkerTime` makes of a wake time: one period more, if that has not passed yet, and
otherwise one period after the time that it reads from the clock. -/
structure Updated (clock : ℕ → Timespec) (now : Timespec) (w : BaseWorker) (k : ℕ)
    (w' : BaseWorker) (k' : ℕ) : Prop where
  name : w'.name = w.name
  periodNs : w'.periodNs = w.periodNs
  normal : w'.wakeAbsTime.Normal
  ns : now.ns ≤ w.wakeAbsTime.ns + w.periodNs.toNat ∧ k' = k ∧
        w'.wakeAbsTime.ns = w.wakeAbsTime.ns + w.periodNs.toNat ∨
      w.wakeAbsTime.ns + w.periodNs.toNat < now.ns ∧ k' = k + 1 ∧
        w'.wakeAbsTime.ns = (clock k).ns + w.periodNs.toNat

/-- **`UpdateWorkerTime` ends after at most one call of itself**, when the clock does not go back
behind `now`. -/
theorem updateWorkerTime_eq (hclock : IsMonotonic clock) {now : Timespec} {w : BaseWorker}
    {k fuel : ℕ} (hfuel : 2 ≤ fuel) (hw : w.wakeAbsTime.Normal) (hnow : now.Normal)
    (hle : now.ns ≤ (clock k).ns) (hpos : w.periodNs ≠ 0) (hfits : Fits w.periodNs) :
    ∃ w' k', w.updateWorkerTime clock now fuel k = some (w', k') ∧
      Updated clock now w k w' k' := by
  obtain ⟨fuel, rfl⟩ : ∃ f, fuel = f + 1 + 1 := ⟨fuel - 2, by omega⟩
  have hadvance : ∀ t : Timespec, t.Normal → ((t.advance w.periodNs).before now = true ↔
      t.ns + w.periodNs.toNat < now.ns) := by
    intro t ht
    rw [before_iff (normal_advance ht hfits) hnow, ns_advance ht hfits]
  rw [updateWorkerTime, if_neg hpos]
  dsimp only
  by_cases hmissed : w.wakeAbsTime.ns + w.periodNs.toNat < now.ns
  · -- the clock reading is not before `now`, so that a period after it has not passed
    have hnext : ¬ (clock k).ns + w.periodNs.toNat < now.ns := by omega
    rw [if_pos ((hadvance _ hw).mpr hmissed), updateWorkerTime, if_neg hpos]
    dsimp only
    rw [if_neg (mt (hadvance _ (hclock.normal k)).mp hnext)]
    exact ⟨_, _, rfl, rfl, rfl, normal_advance (hclock.normal k) hfits,
      .inr ⟨hmissed, rfl, ns_advance (hclock.normal k) hfits⟩⟩
  · rw [if_neg (mt (hadvance _ hw).mp hmissed)]
    exact ⟨_, _, rfl, rfl, rfl, normal_advance hw hfits,
      .inl ⟨by omega, rfl, ns_advance hw hfits⟩⟩

theorem updateWorkerTime_of_periodNs_eq_zero {now : Timespec} {w : BaseWorker} {k fuel : ℕ}
    (hfuel : 1 ≤ fuel) (hzero : w.periodNs = 0) :
    w.updateWorkerTime clock now fuel k = some (w, k) := by
  obtain ⟨fuel, rfl⟩ : ∃ f, fuel = f + 1 := ⟨fuel - 1, by omega⟩
  rw [updateWorkerTime, if_pos hzero]

end BaseWorker

end AimrtComm.Executor
