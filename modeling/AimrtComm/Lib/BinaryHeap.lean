import Mathlib.Data.List.Basic

/-!
# Binary heaps

An array whose element at `i` has its children at `2 * i + 1` and `2 * i + 2`, with no parent
before one of its children in the order `comp`: the element at the front is one after which
nothing comes.  `push` appends an element and moves it up; `pop` puts the last element in the place
of the first one and moves it down.  `pop` compares the front with nothing, so it gives a heap
again also when the key of the front was changed in place (`ordered_pop`).
-/

namespace AimrtComm.BinaryHeap

variable {α : Type*}

/-- `comp` is a strict order in which being not comparable is transitive. -/
structure StrictWeak (comp : α → α → Bool) : Prop where
  asymm : ∀ {a b}, comp a b = true → comp b a = false
  trans : ∀ {a b c}, comp a b = false → comp b c = false → comp a c = false

variable (comp : α → α → Bool)

/-- Exchange the element at `i` with its parent as long as the parent is before it. -/
def siftUp : ℕ → Array α → ℕ → Array α
  | 0, a, _ => a
  | fuel + 1, a, i =>
    if h : 0 < i ∧ i < a.size then
      if comp a[(i - 1) / 2] a[i] then
        siftUp fuel (a.swap ((i - 1) / 2) i) ((i - 1) / 2)
      else a
    else a

/-- The child of `i` that comes last, given that there is one. -/
def lastChild (a : Array α) (i : ℕ) (h : 2 * i + 1 < a.size) : ℕ :=
  if hr : 2 * i + 2 < a.size then
    if comp a[2 * i + 1] a[2 * i + 2] then 2 * i + 2 else 2 * i + 1
  else 2 * i + 1

variable {comp} in
theorem lastChild_lt {a : Array α} {i : ℕ} (h : 2 * i + 1 < a.size) :
    lastChild comp a i h < a.size := by
  unfold lastChild
  split_ifs <;> omega

/-- Exchange the element at `i` with its last child as long as it is before it. -/
def siftDown : ℕ → Array α → ℕ → Array α
  | 0, a, _ => a
  | fuel + 1, a, i =>
    if h : 2 * i + 1 < a.size then
      have hc : lastChild comp a i h < a.size := lastChild_lt h
      if comp a[i] a[lastChild comp a i h] then
        siftDown fuel (a.swap i (lastChild comp a i h)) (lastChild comp a i h)
      else a
    else a

/-- `push` -/
def push (a : Array α) (x : α) : Array α := siftUp comp a.size (a.push x) a.size

/-- `pop` -/
def pop (a : Array α) : Array α :=
  if h : 0 < a.size then
    let rest := (a.swap 0 (a.size - 1)).pop
    siftDown comp rest.size rest 0
  else a

/-! ### The order -/

/-- `c` is a child of `p`. -/
def Child (p c : ℕ) : Prop := c = 2 * p + 1 ∨ c = 2 * p + 2

/-- The parent at `p` and the child at `c` are in order. -/
def InOrder (a : Array α) (p c : ℕ) : Prop :=
  ∀ x y, a[p]? = some x → a[c]? = some y → comp x y = false

/-- No element is before a child of it. -/
def Ordered (a : Array α) : Prop := ∀ p c, Child p c → InOrder comp a p c

/-- No element but the front is before a child of it. -/
def OrderedBelow (a : Array α) : Prop := ∀ p c, Child p c → p ≠ 0 → InOrder comp a p c

/-- Only the element at `i` may come after its parent. -/
structure OrderedUpTo (a : Array α) (i : ℕ) : Prop where
  except : ∀ p c, Child p c → c ≠ i → InOrder comp a p c
  grand : ∀ g c, Child g i → Child i c → InOrder comp a g c

/-- Only the element at `i` may be before a child of it. -/
structure OrderedFrom (a : Array α) (i : ℕ) : Prop where
  except : ∀ p c, Child p c → p ≠ i → InOrder comp a p c
  grand : ∀ g c, Child g i → Child i c → InOrder comp a g c

variable {comp}

theorem inOrder_iff {a : Array α} {p c : ℕ} (hp : p < a.size) (hc : c < a.size) :
    InOrder comp a p c ↔ comp a[p] a[c] = false := by
  simp [InOrder, hp, hc]

theorem inOrder_of_size_le {a : Array α} {p c : ℕ} (hc : a.size ≤ c) : InOrder comp a p c := by
  intro x y _ hy
  rw [Array.getElem?_eq_none hc] at hy
  cases hy

/-- Whether two elements are in order depends on them only. -/
theorem InOrder.congr {a b : Array α} {p c q d : ℕ} (h : InOrder comp a p c) (hp : b[q]? = a[p]?)
    (hc : b[d]? = a[c]?) : InOrder comp b q d := by
  intro x y hx hy
  exact h x y (hp ▸ hx) (hc ▸ hy)

variable (hcomp : StrictWeak comp)

include hcomp

theorem StrictWeak.irrefl (x : α) : comp x x = false := by
  by_contra h
  rw [Bool.not_eq_false] at h
  exact absurd (hcomp.asymm h) (by rw [h]; decide)

theorem InOrder.trans {a : Array α} {i j k : ℕ} (hj : j < a.size) (hij : InOrder comp a i j)
    (hjk : InOrder comp a j k) : InOrder comp a i k := by
  intro x y hx hy
  have hmid : a[j]? = some a[j] := Array.getElem?_eq_getElem hj
  exact hcomp.trans (hij x _ hx hmid) (hjk _ y hmid hy)

/-- **The front of a heap**: nothing comes after it. -/
theorem comp_front {a : Array α} (h : Ordered comp a) {x y : α} (hx : a[0]? = some x)
    (hy : y ∈ a) : comp x y = false := by
  obtain ⟨i, hi, rfl⟩ := Array.mem_iff_getElem.mp hy
  have hfront : ∀ i, InOrder comp a 0 i := by
    intro i
    induction i using Nat.strongRecOn with
    | ind i ih =>
      by_cases hi0 : i = 0
      · subst hi0
        intro x y hx hy
        obtain rfl : x = y := Option.some.inj (hx.symm.trans hy)
        exact hcomp.irrefl x
      · by_cases hlt : i < a.size
        · have hchild : Child ((i - 1) / 2) i := by unfold Child; omega
          exact (ih ((i - 1) / 2) (by omega)).trans hcomp (by omega) (h _ _ hchild)
        · exact inOrder_of_size_le (by omega)
  exact hfront i x _ hx (Array.getElem?_eq_getElem hi)

/-! ### Moving up -/

theorem OrderedUpTo.swap {a : Array α} {g i : ℕ} (h : OrderedUpTo comp a i) (hgi : Child g i)
    (hgl : g < a.size) (hlt : i < a.size) (hc : comp a[g] a[i] = true) :
    OrderedUpTo comp (a.swap g i) g := by
  have hget : ∀ k, (a.swap g i)[k]? =
      if i = k then a[g]? else if g = k then a[i]? else a[k]? := by
    intro k
    rw [Array.getElem?_swap, Array.getElem?_eq_getElem hgl, Array.getElem?_eq_getElem hlt]
  have hdown : InOrder comp a i g := (inOrder_iff hlt hgl).mpr (hcomp.asymm hc)
  constructor
  · intro p c hpc hcg
    by_cases hci : c = i
    · -- the exchanged pair
      obtain rfl : p = g := by unfold Child at hpc hgi; omega
      subst hci
      apply hdown.congr
      · rw [hget, if_neg (by unfold Child at hgi; omega), if_pos rfl]
      · rw [hget, if_pos rfl]
    · by_cases hpi : p = i
      · -- a child of `i`, below the former parent of `i`
        subst hpi
        apply (h.grand g c hgi hpc).congr
        · rw [hget, if_pos rfl]
        · rw [hget, if_neg (Ne.symm hci), if_neg (Ne.symm hcg)]
      · by_cases hpg : p = g
        · -- the other child of the parent
          subst hpg
          apply (hdown.trans hcomp hgl (h.except p c hpc hci)).congr
          · rw [hget, if_neg (Ne.symm hpi), if_pos rfl]
          · rw [hget, if_neg (Ne.symm hci), if_neg (Ne.symm hcg)]
        · apply (h.except p c hpc hci).congr
          · rw [hget, if_neg (Ne.symm hpi), if_neg (Ne.symm hpg)]
          · rw [hget, if_neg (Ne.symm hci), if_neg (Ne.symm hcg)]
  · intro f c hfg hgc
    have hfl : f ≠ i ∧ f ≠ g := by unfold Child at hfg hgi; omega
    have hf : (a.swap g i)[f]? = a[f]? := by
      rw [hget, if_neg (Ne.symm hfl.1), if_neg (Ne.symm hfl.2)]
    have hup : InOrder comp a f g := h.except f g hfg (by unfold Child at hgi; omega)
    by_cases hci : c = i
    · subst hci
      exact hup.congr hf (by rw [hget, if_pos rfl])
    · have hcg : g ≠ c := by unfold Child at hgc; omega
      apply (hup.trans hcomp hgl (h.except g c hgc hci)).congr hf
      rw [hget, if_neg (Ne.symm hci), if_neg hcg]

omit hcomp in
theorem OrderedUpTo.finish {a : Array α} {i : ℕ} (h : OrderedUpTo comp a i)
    (hi : ∀ p, Child p i → InOrder comp a p i) : Ordered comp a := by
  intro p c hpc
  by_cases hci : c = i
  · subst hci
    exact hi p hpc
  · exact h.except p c hpc hci

/-- Moving up gives a heap. -/
theorem ordered_siftUp {fuel : ℕ} {a : Array α} {i : ℕ} (hfuel : i ≤ fuel)
    (h : OrderedUpTo comp a i) : Ordered comp (siftUp comp fuel a i) := by
  induction fuel generalizing a i with
  | zero =>
    apply h.finish
    intro p hp
    unfold Child at hp
    omega
  | succ fuel ih =>
    rw [siftUp]
    split_ifs with hi hc
    · have hchild : Child ((i - 1) / 2) i := by unfold Child; omega
      exact ih (by omega) (h.swap hcomp hchild (by omega) hi.2 hc)
    · apply h.finish
      intro p hp
      obtain rfl : p = (i - 1) / 2 := by unfold Child at hp; omega
      exact (inOrder_iff (by omega) hi.2).mpr (Bool.eq_false_iff.mpr hc)
    · apply h.finish
      intro p hp
      exact inOrder_of_size_le (by unfold Child at hp; omega)

/-- **`push` keeps the order of a heap.** -/
theorem ordered_push {a : Array α} (h : Ordered comp a) (x : α) :
    Ordered comp (push comp a x) := by
  apply ordered_siftUp hcomp (Nat.le_refl _)
  constructor
  · intro p c hpc hc
    by_cases hlt : c < a.size
    · have hget : ∀ k, k < a.size → (a.push x)[k]? = a[k]? := fun k hk =>
        Array.getElem?_push_lt hk |>.trans (Array.getElem?_eq_getElem hk).symm
      exact (h p c hpc).congr (hget p (by unfold Child at hpc; omega)) (hget c hlt)
    · exact inOrder_of_size_le (by rw [Array.size_push]; omega)
  · intro g c _ hc
    exact inOrder_of_size_le (by rw [Array.size_push]; unfold Child at hc; omega)

/-! ### Moving down -/

omit hcomp in
theorem child_lastChild {a : Array α} {i : ℕ} (h : 2 * i + 1 < a.size) :
    Child i (lastChild comp a i h) := by
  unfold Child lastChild
  split_ifs <;> omega

/-- The other child is not after the last child. -/
theorem inOrder_lastChild {a : Array α} {i c : ℕ} (h : 2 * i + 1 < a.size) (hc : Child i c) :
    InOrder comp a (lastChild comp a i h) c := by
  have hrefl : ∀ k, InOrder comp a k k := by
    intro k x y hx hy
    obtain rfl : x = y := Option.some.inj (hx.symm.trans hy)
    exact hcomp.irrefl x
  unfold lastChild
  split_ifs with hr hlt
  · rcases hc with rfl | rfl
    · exact (inOrder_iff hr h).mpr (hcomp.asymm hlt)
    · exact hrefl _
  · rcases hc with rfl | rfl
    · exact hrefl _
    · exact (inOrder_iff h hr).mpr (Bool.eq_false_iff.mpr hlt)
  · rcases hc with rfl | rfl
    · exact hrefl _
    · exact inOrder_of_size_le (by omega)

theorem OrderedFrom.swap {a : Array α} {i : ℕ} (h : OrderedFrom comp a i)
    (hlt : 2 * i + 1 < a.size) (hl : lastChild comp a i hlt < a.size)
    (hc : comp a[i] a[lastChild comp a i hlt] = true) :
    OrderedFrom comp (a.swap i (lastChild comp a i hlt)) (lastChild comp a i hlt) := by
  have hmax := fun d (hd : Child i d) => inOrder_lastChild hcomp hlt hd
  have hic : Child i (lastChild comp a i hlt) := child_lastChild hlt
  generalize lastChild comp a i hlt = c at *
  have hil : i < a.size := by omega
  have hlic : i < c := by unfold Child at hic; omega
  have hget : ∀ k, (a.swap i c)[k]? =
      if c = k then a[i]? else if i = k then a[c]? else a[k]? := by
    intro k
    rw [Array.getElem?_swap, Array.getElem?_eq_getElem hil, Array.getElem?_eq_getElem hl]
  have hdown : InOrder comp a c i := (inOrder_iff hl hil).mpr (hcomp.asymm hc)
  have hi : (a.swap i c)[i]? = a[c]? := by rw [hget, if_neg (by omega), if_pos rfl]
  constructor
  · intro p d hpd hpc
    by_cases hpi : p = i
    · subst hpi
      by_cases hdc : d = c
      · -- the exchanged pair
        subst hdc
        exact hdown.congr hi (by rw [hget, if_pos rfl])
      · -- the other child
        apply (hmax d hpd).congr hi
        rw [hget, if_neg (Ne.symm hdc), if_neg (by unfold Child at hpd; omega)]
    · have hp : (a.swap i c)[p]? = a[p]? := by
        rw [hget, if_neg (Ne.symm hpc), if_neg (Ne.symm hpi)]
      by_cases hdi : d = i
      · -- the parent of `i`, above the former child of `i`
        subst hdi
        exact (h.grand p c hpd hic).congr hp hi
      · have hdc : d ≠ c := by unfold Child at hpd hic; omega
        apply (h.except p d hpd hpi).congr hp
        rw [hget, if_neg (Ne.symm hdc), if_neg (Ne.symm hdi)]
  · intro g d hgc hcd
    obtain rfl : g = i := by unfold Child at hgc hic; omega
    apply (h.except c d hcd (by omega)).congr hi
    rw [hget, if_neg (by unfold Child at hcd; omega), if_neg (by unfold Child at hcd; omega)]

omit hcomp in
theorem OrderedFrom.finish {a : Array α} {i : ℕ} (h : OrderedFrom comp a i)
    (hi : ∀ c, Child i c → InOrder comp a i c) : Ordered comp a := by
  intro p c hpc
  by_cases hpi : p = i
  · subst hpi
    exact hi c hpc
  · exact h.except p c hpc hpi

/-- Moving down gives a heap. -/
theorem ordered_siftDown {fuel : ℕ} {a : Array α} {i : ℕ} (hfuel : a.size ≤ fuel + i)
    (h : OrderedFrom comp a i) : Ordered comp (siftDown comp fuel a i) := by
  induction fuel generalizing a i with
  | zero =>
    apply h.finish
    intro c hc
    exact inOrder_of_size_le (by unfold Child at hc; omega)
  | succ fuel ih =>
    rw [siftDown]
    split_ifs with hi
    · have hl : lastChild comp a i hi < a.size := lastChild_lt hi
      have hchild : Child i (lastChild comp a i hi) := child_lastChild hi
      dsimp only
      split_ifs with hc
      · apply ih _ (h.swap hcomp hi hl hc)
        rw [Array.size_swap]
        unfold Child at hchild
        omega
      · apply h.finish
        intro c hic
        have hstop : InOrder comp a i (lastChild comp a i hi) :=
          (inOrder_iff (by omega) hl).mpr (Bool.eq_false_iff.mpr hc)
        exact hstop.trans hcomp hl (inOrder_lastChild hcomp hi hic)
    · apply h.finish
      intro c hc
      exact inOrder_of_size_le (by unfold Child at hc; omega)

/-- **`pop` gives a heap, whatever the front is.** -/
theorem ordered_pop {a : Array α} (h : OrderedBelow comp a) : Ordered comp (pop comp a) := by
  unfold pop
  split_ifs with hpos
  · apply ordered_siftDown hcomp (by omega)
    have hget : ∀ k, 0 < k → k < a.size - 1 →
        (a.swap 0 (a.size - 1)).pop[k]? = a[k]? := by
      intro k hk hlt
      rw [Array.getElem?_pop, Array.size_swap, if_pos (by omega), Array.getElem?_swap,
        if_neg (by omega), if_neg (by omega)]
    constructor
    · intro p c hpc hp
      by_cases hlt : c < a.size - 1
      · apply (h p c hpc hp).congr
        · exact hget p (by omega) (by unfold Child at hpc; omega)
        · exact hget c (by unfold Child at hpc; omega) hlt
      · exact inOrder_of_size_le (by rw [Array.size_pop, Array.size_swap]; omega)
    · intro g c hg _
      unfold Child at hg
      omega
  · intro p c hpc
    exact inOrder_of_size_le (by omega)

omit hcomp

/-! ### The elements -/

theorem siftUp_perm (fuel : ℕ) (a : Array α) (i : ℕ) : (siftUp comp fuel a i).Perm a := by
  induction fuel generalizing a i with
  | zero => exact .refl a
  | succ fuel ih =>
    rw [siftUp]
    split_ifs
    · exact (ih _ _).trans (Array.swap_perm _ _)
    · exact .refl a
    · exact .refl a

theorem siftDown_perm (fuel : ℕ) (a : Array α) (i : ℕ) : (siftDown comp fuel a i).Perm a := by
  induction fuel generalizing a i with
  | zero => exact .refl a
  | succ fuel ih =>
    rw [siftDown]
    split_ifs
    · dsimp only
      split_ifs
      · exact (ih _ _).trans (Array.swap_perm _ _)
      · exact .refl a
    · exact .refl a

/-- `push` adds one element. -/
theorem push_perm (a : Array α) (x : α) : (push comp a x).toList.Perm (x :: a.toList) := by
  have h : (push comp a x).toList.Perm (a.push x).toList := (siftUp_perm _ _ _).toList
  rw [Array.toList_push] at h
  exact h.trans (List.perm_append_singleton x a.toList)

/-- `pop` takes the front away. -/
theorem pop_perm {a : Array α} {x : α} (hx : a[0]? = some x) :
    a.toList.Perm (x :: (pop comp a).toList) := by
  obtain ⟨hpos, hx⟩ := Array.getElem?_eq_some_iff.mp hx
  unfold pop
  rw [dif_pos hpos]
  have hswap : (a.swap 0 (a.size - 1)).toList.Perm a.toList :=
    (Array.swap_perm hpos (by omega)).toList
  have hrest : ∀ fuel, (siftDown comp fuel (a.swap 0 (a.size - 1)).pop 0).toList.Perm
      (a.swap 0 (a.size - 1)).pop.toList := fun fuel => (siftDown_perm fuel _ 0).toList
  have hback : (a.swap 0 (a.size - 1)).toList
      = (a.swap 0 (a.size - 1)).pop.toList ++ [x] := by
    have hlast : (a.swap 0 (a.size - 1))[a.size - 1]? = some x := by
      rw [Array.getElem?_swap, if_pos rfl, hx]
    have hsize : (a.swap 0 (a.size - 1)).size = a.size - 1 + 1 := by rw [Array.size_swap]; omega
    obtain ⟨rest, y, hrest⟩ := Array.exists_push_of_size_eq_add_one hsize
    rw [hrest, Array.size_push, Nat.add_right_cancel_iff] at hsize
    rw [hrest, ← hsize, Array.getElem?_push_size] at hlast
    rw [hrest, Array.pop_push, Array.toList_push, Option.some.inj hlast]
  rw [hback] at hswap
  exact hswap.symm.trans ((List.perm_append_singleton x _).trans ((hrest _).symm.cons x))

end AimrtComm.BinaryHeap
