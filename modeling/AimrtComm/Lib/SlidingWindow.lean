import Mathlib.Algebra.BigOperators.Group.List.Basic
import Mathlib.Algebra.Group.Int.Defs
import Mathlib.Algebra.Order.Group.Defs
import Mathlib.Algebra.Order.Group.Unbundled.Basic
import Mathlib.Data.List.DropRight
import Mathlib.Tactic.Abel

/-!
# Sliding windows of gaps

`gaps as` lists the distances between neighbours.  The gaps of a suffix are a suffix of the gaps,
they sum to the distance from end to end, and they are not negative when the list does not decrease.

`slide w ts g` puts a value behind a window and takes the oldest one out when there are more than
`w`.  Sliding over all values of a list leaves its last `w` values (`slide_rtake`).
-/

namespace AimrtComm.SlidingWindow

variable {α : Type*}

/-! ### Gaps -/

/-- The distances between neighbours. -/
def gaps [Sub α] : List α → List α
  | a :: b :: as => (b - a) :: gaps (b :: as)
  | _ => []

theorem length_gaps [Sub α] (as : List α) : (gaps as).length = as.length - 1 := by
  induction as with
  | nil => rfl
  | cons a as ih =>
    cases as with
    | nil => rfl
    | cons b as =>
      rw [gaps, List.length_cons, ih]
      rfl

/-- A new last element adds its distance to the old one. -/
theorem gaps_concat [Sub α] {as : List α} {last : α} (h : as.getLast? = some last) (a : α) :
    gaps (as ++ [a]) = gaps as ++ [a - last] := by
  induction as with
  | nil => simp at h
  | cons b as ih =>
    cases as with
    | nil =>
      obtain rfl : b = last := by simpa using h
      rfl
    | cons c as =>
      rw [List.getLast?_cons_cons] at h
      show (c - b) :: gaps (c :: as ++ [a]) = (c - b) :: gaps (c :: as) ++ [a - last]
      rw [ih h]
      rfl

theorem gaps_drop [Sub α] (n : ℕ) (as : List α) : gaps (as.drop n) = (gaps as).drop n := by
  induction n generalizing as with
  | zero => rfl
  | succ n ih =>
    cases as with
    | nil => rfl
    | cons a as =>
      rw [List.drop_succ_cons, ih]
      cases as with
      | nil => simp [gaps]
      | cons b as => rfl

theorem sum_gaps [AddCommGroup α] {first last : α} {as : List α}
    (hlast : (first :: as).getLast? = some last) : (gaps (first :: as)).sum = last - first := by
  induction as generalizing first with
  | nil =>
    obtain rfl : first = last := by simpa using hlast
    rw [gaps, List.sum_nil, sub_self]
    simp
  | cons b as ih =>
    rw [List.getLast?_cons_cons] at hlast
    rw [gaps, List.sum_cons, ih hlast]
    abel

theorem nonneg_of_mem_gaps [AddCommGroup α] [PartialOrder α] [IsOrderedAddMonoid α] {as : List α}
    (h : as.Pairwise (· ≤ ·)) : ∀ g ∈ gaps as, 0 ≤ g := by
  induction as with
  | nil => simp [gaps]
  | cons a as ih =>
    cases as with
    | nil => simp [gaps]
    | cons b as =>
      rw [List.pairwise_cons] at h
      intro g hg
      rcases List.mem_cons.mp hg with rfl | hg
      · exact sub_nonneg.mpr (h.1 b List.mem_cons_self)
      · exact ih h.2 g hg

/-! ### Windows -/

/-- A new value is put behind the window, and the oldest one leaves when there are too many. -/
def slide (w : ℕ) (ts : List α) (t : α) : List α :=
  if w < (ts ++ [t]).length then (ts ++ [t]).drop 1 else ts ++ [t]

theorem length_rtake (w : ℕ) (ts : List α) : (ts.rtake w).length = min w ts.length := by
  rw [List.rtake, List.length_drop]
  omega

theorem rtake_min (w : ℕ) (ts : List α) : ts.rtake (min ts.length w) = ts.rtake w := by
  rw [List.rtake, List.rtake]
  congr 1
  omega

theorem slide_rtake (w : ℕ) (ts : List α) (t : α) :
    slide w (ts.rtake w) t = (ts ++ [t]).rtake w := by
  have hlength := length_rtake w ts
  rw [slide, List.length_append, List.length_singleton, hlength]
  cases w with
  | zero =>
    rw [List.rtake_zero, List.rtake_zero]
    simp
  | succ w =>
    rw [List.rtake_concat_succ]
    split_ifs with hfull
    · have hdrop : (ts.rtake (w + 1)).drop 1 = ts.rtake w := by
        rw [List.rtake, List.rtake, List.drop_drop]
        congr 1
        omega
      rw [List.drop_append_of_le_length (by omega), hdrop]
    · rw [List.rtake, List.rtake]
      have hstart : ts.length - (w + 1) = ts.length - w := by omega
      rw [hstart]

end AimrtComm.SlidingWindow
