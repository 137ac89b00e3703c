import AimrtComm.Lib.FoldExcept
import AimrtComm.Lib.KeyedList
import Mathlib.Data.List.Induction

/-!
# Sequences of edits at distinct keys

An edit looks at the element of its key, if there is one, and says what becomes of it: an element
at the head of the list, at the tail, in the old place, or nothing.  `stepAt` carries out one
edit.  When the edits of a sequence have pairwise distinct keys, they do not see each other, and
the list at the end has a closed form in terms of the original list (`foldlM_stepAt_eq_ok_iff`):
the elements put at the head, the last one first, then the original elements with the edits in
place, then the elements put at the tail.

Where the edits are themselves elements, `foldlM_stepAt_eq_self_iff` says when a sequence of edits
produces exactly the list of the edits (`Reproduces`).
-/

namespace AimrtComm.KeyedList

/-- What becomes of the element an edit is about. -/
inductive Place (α : Type*) where
  | head (x : α)
  | tail (x : α)
  | here (x : α)
  | gone
deriving DecidableEq, Repr

namespace Place

variable {α : Type*}

/-- The list after an edit of a key that no element has; there is no old place to stay in. -/
def applyAbsent (xs : List α) : Place α → List α
  | head x => x :: xs
  | tail x => xs ++ [x]
  | here _ | gone => xs

/-- The list after an edit of the element between `pre` and `post`. -/
def apply (pre post : List α) : Place α → List α
  | head x => x :: (pre ++ post)
  | tail x => pre ++ post ++ [x]
  | here x => pre ++ x :: post
  | gone => pre ++ post

def head? : Place α → Option α
  | head x => some x
  | _ => none

def tail? : Place α → Option α
  | tail x => some x
  | _ => none

def here? : Place α → Option α
  | here x => some x
  | _ => none

/-- The element placed, if any. -/
def elem? : Place α → Option α
  | head x | tail x | here x => some x
  | gone => none

end Place

variable {α κ ι ε : Type*} [DecidableEq κ] (key : α → κ)

/-- The element of key `k`. -/
def slot (k : κ) (xs : List α) : Option α := (splitAtKey key k xs).map fun s => s.2.1

/-- Carry out an edit at the key `k`. -/
def stepAt (k : κ) (eff : Option α → Except ε (Place α)) (xs : List α) : Except ε (List α) :=
  match splitAtKey key k xs with
  | none => (eff none).map (Place.applyAbsent xs)
  | some (pre, r, post) => (eff (some r)).map (Place.apply pre post)

section Sequence

variable (ik : ι → κ) (eff : ι → Option α → Except ε (Place α)) (old : List α)

/-- What an edit does to the original list. -/
def place (e : ι) : Place α :=
  match eff e (slot key (ik e) old) with
  | .ok p => p
  | .error _ => .gone

/-- What the edits `es` leave of an original element in its place. -/
def edited (es : List ι) (r : α) : Option α :=
  match es.find? fun e => ik e = key r with
  | none => some r
  | some e => (place key ik eff old e).here?

/-- The original elements with the edits in place. -/
def middle (es : List ι) : List α := old.filterMap (edited key ik eff old es)

/-- The elements put at the head, as they stand in the list. -/
def heads (es : List ι) : List α := (es.filterMap fun e => (place key ik eff old e).head?).reverse

/-- The elements put at the tail. -/
def tails (es : List ι) : List α := es.filterMap fun e => (place key ik eff old e).tail?

/-- The list after the edits `es`. -/
def editedList (es : List ι) : List α :=
  heads key ik eff old es ++ middle key ik eff old es ++ tails key ik eff old es

variable {key ik eff old}

/-- The edits place elements of their own key. -/
def KeepsKeys (key : α → κ) (ik : ι → κ) (eff : ι → Option α → Except ε (Place α)) (old : List α)
    (es : List ι) : Prop :=
  ∀ e ∈ es, ∀ x, (place key ik eff old e).elem? = some x → key x = ik e

/-! ### Keys of the parts -/

theorem Place.head?_eq_some_iff {p : Place α} {x : α} : p.head? = some x ↔ p = head x := by
  cases p <;> simp [Place.head?]

theorem Place.tail?_eq_some_iff {p : Place α} {x : α} : p.tail? = some x ↔ p = tail x := by
  cases p <;> simp [Place.tail?]

theorem Place.here?_eq_some_iff {p : Place α} {x : α} : p.here? = some x ↔ p = here x := by
  cases p <;> simp [Place.here?]

theorem Place.elem?_of_head? {p : Place α} {x : α} (h : p.head? = some x) : p.elem? = some x := by
  rw [head?_eq_some_iff.mp h, elem?]

theorem Place.elem?_of_tail? {p : Place α} {x : α} (h : p.tail? = some x) : p.elem? = some x := by
  rw [tail?_eq_some_iff.mp h, elem?]

theorem Place.elem?_of_here? {p : Place α} {x : α} (h : p.here? = some x) : p.elem? = some x := by
  rw [here?_eq_some_iff.mp h, elem?]

theorem mem_heads {es : List ι} {x : α} :
    x ∈ heads key ik eff old es ↔ ∃ e ∈ es, (place key ik eff old e).head? = some x := by
  simp [heads]

theorem mem_tails {es : List ι} {x : α} :
    x ∈ tails key ik eff old es ↔ ∃ e ∈ es, (place key ik eff old e).tail? = some x := by
  simp [tails]

/-- An edit in place keeps the key of the element. -/
theorem key_of_edited {es : List ι} (hk : KeepsKeys key ik eff old es) {r x : α}
    (h : edited key ik eff old es r = some x) : key x = key r := by
  unfold edited at h
  split at h
  · rw [Option.some.inj h]
  · next e he =>
    have hmem := List.mem_of_find?_eq_some he
    rw [hk e hmem x (Place.elem?_of_here? h)]
    simpa using List.find?_some he

theorem ne_key_of_mem_heads {es : List ι} (hk : KeepsKeys key ik eff old es) {k : κ}
    (hfresh : ∀ e ∈ es, ik e ≠ k) : ∀ x ∈ heads key ik eff old es, key x ≠ k := by
  intro x hx
  obtain ⟨e, he, hp⟩ := mem_heads.mp hx
  rw [hk e he x (Place.elem?_of_head? hp)]
  exact hfresh e he

theorem ne_key_of_mem_tails {es : List ι} (hk : KeepsKeys key ik eff old es) {k : κ}
    (hfresh : ∀ e ∈ es, ik e ≠ k) : ∀ x ∈ tails key ik eff old es, key x ≠ k := by
  intro x hx
  obtain ⟨e, he, hp⟩ := mem_tails.mp hx
  rw [hk e he x (Place.elem?_of_tail? hp)]
  exact hfresh e he

/-- Edits at other keys leave an element alone. -/
theorem edited_of_fresh {es : List ι} {r : α} (hfresh : ∀ e ∈ es, ik e ≠ key r) :
    edited key ik eff old es r = some r := by
  unfold edited
  rw [List.find?_eq_none.mpr fun e he => by simpa using hfresh e he]

theorem edited_concat_of_ne {es : List ι} {e : ι} {r : α} (h : ik e ≠ key r) :
    edited key ik eff old (es ++ [e]) r = edited key ik eff old es r := by
  unfold edited
  rw [List.find?_append]
  cases es.find? fun e => ik e = key r <;> simp [h]

theorem edited_concat_self {es : List ι} {e : ι} {r : α} (h : ik e = key r)
    (hfresh : ∀ e' ∈ es, ik e' ≠ ik e) :
    edited key ik eff old (es ++ [e]) r = (place key ik eff old e).here? := by
  unfold edited
  rw [List.find?_append, List.find?_eq_none.mpr fun e' he' => by simpa [← h] using hfresh e' he']
  simp [h]

/-! ### One more edit -/

/-- The cut of the edited list at a key that no edit was about. -/
theorem splitAtKey_editedList {es : List ι} (hk : KeepsKeys key ik eff old es) {k : κ}
    (hfresh : ∀ e ∈ es, ik e ≠ k) {pre post : List α} {r : α} (hold : old = pre ++ r :: post)
    (hr : key r = k) (hpre : ∀ x ∈ pre, key x ≠ k) :
    splitAtKey key k (editedList key ik eff old es)
      = some (heads key ik eff old es ++ pre.filterMap (edited key ik eff old es), r,
          post.filterMap (edited key ik eff old es) ++ tails key ik eff old es) := by
  have hmid : middle key ik eff old es
      = pre.filterMap (edited key ik eff old es) ++ r ::
          post.filterMap (edited key ik eff old es) := by
    conv_lhs => rw [middle, hold]
    rw [List.filterMap_append, List.filterMap_cons, edited_of_fresh (r := r) (by rwa [hr])]
    rw [← hold]
  have hlist : editedList key ik eff old es
      = (heads key ik eff old es ++ pre.filterMap (edited key ik eff old es)) ++ r ::
          (post.filterMap (edited key ik eff old es) ++ tails key ik eff old es) := by
    rw [editedList, hmid]
    simp
  rw [hlist]
  refine splitAtKey_append ?_ hr
  intro x hx
  rcases List.mem_append.mp hx with hx | hx
  · exact ne_key_of_mem_heads hk hfresh x hx
  · obtain ⟨y, hy, hyx⟩ := List.mem_filterMap.mp hx
    rw [key_of_edited hk hyx]
    exact hpre y hy

/-- A key that neither the original list nor an edit has is not in the edited list. -/
theorem splitAtKey_editedList_none {es : List ι} (hk : KeepsKeys key ik eff old es) {k : κ}
    (hfresh : ∀ e ∈ es, ik e ≠ k) (hold : ∀ x ∈ old, key x ≠ k) :
    splitAtKey key k (editedList key ik eff old es) = none := by
  rw [splitAtKey_eq_none_iff]
  intro x hx
  rw [editedList, List.mem_append, List.mem_append] at hx
  rcases hx with (hx | hx) | hx
  · exact ne_key_of_mem_heads hk hfresh x hx
  · obtain ⟨y, hy, hyx⟩ := List.mem_filterMap.mp hx
    rw [key_of_edited hk hyx]
    exact hold y hy
  · exact ne_key_of_mem_tails hk hfresh x hx

theorem heads_concat (es : List ι) (e : ι) :
    heads key ik eff old (es ++ [e])
      = (place key ik eff old e).head?.toList ++ heads key ik eff old es := by
  unfold heads
  rw [List.filterMap_append, List.reverse_append]
  cases h : (place key ik eff old e).head? <;> simp [h]

theorem tails_concat (es : List ι) (e : ι) :
    tails key ik eff old (es ++ [e])
      = tails key ik eff old es ++ (place key ik eff old e).tail?.toList := by
  unfold tails
  rw [List.filterMap_append]
  cases h : (place key ik eff old e).tail? <;> simp [h]

theorem filterMap_edited_concat {es : List ι} {e : ι} {xs : List α}
    (h : ∀ x ∈ xs, key x ≠ ik e) :
    xs.filterMap (edited key ik eff old (es ++ [e]))
      = xs.filterMap (edited key ik eff old es) :=
  List.filterMap_congr fun x hx => edited_concat_of_ne (h x hx).symm

/-- The original elements after an edit of an element between `pre` and `post`. -/
theorem middle_concat {es : List ι} {e : ι} {pre post : List α} {r : α}
    (hold : old = pre ++ r :: post) (hr : key r = ik e) (hpre : ∀ x ∈ pre, key x ≠ ik e)
    (hpost : ∀ x ∈ post, key x ≠ ik e) (hfresh : ∀ e' ∈ es, ik e' ≠ ik e) :
    middle key ik eff old (es ++ [e])
      = pre.filterMap (edited key ik eff old es) ++
          ((place key ik eff old e).here?.toList ++
            post.filterMap (edited key ik eff old es)) := by
  have hsplit : ∀ f : α → Option α, old.filterMap f
      = pre.filterMap f ++ ((f r).toList ++ post.filterMap f) := by
    intro f
    rw [hold, List.filterMap_append, List.filterMap_cons]
    cases f r <;> rfl
  rw [middle, hsplit, filterMap_edited_concat hpre, filterMap_edited_concat hpost,
    edited_concat_self hr.symm hfresh]

/-- An edit at a new key acts on the edited list as on the original one. -/
theorem stepAt_editedList {es : List ι} {e : ι} (hd : Distinct key old)
    (hk : KeepsKeys key ik eff old es) (hfresh : ∀ e' ∈ es, ik e' ≠ ik e) :
    stepAt key (ik e) (eff e) (editedList key ik eff old es)
      = (eff e (slot key (ik e) old)).map fun _ => editedList key ik eff old (es ++ [e]) := by
  cases hs : splitAtKey key (ik e) old with
  | none =>
    have hold := splitAtKey_eq_none_iff.mp hs
    have hslot : slot key (ik e) old = none := by rw [slot, hs]; rfl
    have hmid : middle key ik eff old (es ++ [e]) = middle key ik eff old es :=
      filterMap_edited_concat hold
    rw [stepAt, splitAtKey_editedList_none hk hfresh hold, hslot]
    cases he : eff e none with
    | error err => rfl
    | ok p =>
      have hp : place key ik eff old e = p := by rw [place, hslot, he]
      simp only [Except.map, editedList, heads_concat, tails_concat, hmid, hp]
      cases p <;> simp [Place.applyAbsent, Place.head?, Place.tail?]
  | some s =>
    obtain ⟨pre, r, post⟩ := s
    obtain ⟨hold, hr, hpre⟩ := splitAtKey_eq_some hs
    have hpost := Distinct.not_mem_post (hold ▸ hd) hr
    have hslot : slot key (ik e) old = some r := by rw [slot, hs]; rfl
    rw [stepAt, splitAtKey_editedList hk hfresh hold hr hpre, hslot]
    cases he : eff e (some r) with
    | error err => simp only [he, Except.map]
    | ok p =>
      have hp : place key ik eff old e = p := by rw [place, hslot, he]
      simp only [he, Except.map, editedList, heads_concat, tails_concat,
        middle_concat hold hr hpre hpost hfresh, hp]
      cases p <;> simp [Place.apply, Place.head?, Place.tail?, Place.here?]

theorem KeepsKeys.mono {es es' : List ι} (h : KeepsKeys key ik eff old es') (hs : es ⊆ es') :
    KeepsKeys key ik eff old es := fun e he => h e (hs he)

/-- **Edits at distinct keys**: their fold succeeds exactly when each of them succeeds on the
original element of its key, and then it gives the edited list. -/
theorem foldlM_stepAt_eq_ok_iff {es : List ι} (hd : Distinct key old)
    (hk : KeepsKeys key ik eff old es) (hes : (es.map ik).Nodup) {ys : List α} :
    es.foldlM (fun xs e => stepAt key (ik e) (eff e) xs) old = .ok ys ↔
      (∀ e ∈ es, ∃ p, eff e (slot key (ik e) old) = .ok p) ∧
        ys = editedList key ik eff old es := by
  induction es using List.reverseRecOn generalizing ys with
  | nil =>
    have hnil : editedList key ik eff old [] = old := by
      have : edited key ik eff old [] = some := by funext r; rfl
      simp [editedList, heads, tails, middle, this]
    simp [hnil, pure, Except.pure, eq_comm]
  | append_singleton es e ih =>
    have hsub : es ⊆ es ++ [e] := List.subset_append_left _ _
    rw [List.map_append, List.nodup_append] at hes
    have hfresh : ∀ e' ∈ es, ik e' ≠ ik e := fun e' he' =>
      hes.2.2 _ (List.mem_map_of_mem he') _ (by simp)
    rw [List.foldlM_append, except_bind_eq_ok]
    have hstep : ∀ xs, (List.foldlM (fun xs e => stepAt key (ik e) (eff e) xs) xs [e])
        = stepAt key (ik e) (eff e) xs := by
      intro xs
      rw [List.foldlM_cons]
      cases stepAt key (ik e) (eff e) xs <;> rfl
    simp only [hstep, ih (hk.mono hsub) hes.1]
    constructor
    · rintro ⟨xs, ⟨hok, rfl⟩, hlast⟩
      rw [stepAt_editedList hd (hk.mono hsub) hfresh, except_map_eq_ok] at hlast
      obtain ⟨p, hp, rfl⟩ := hlast
      refine ⟨?_, rfl⟩
      intro e' he'
      rcases List.mem_append.mp he' with he' | he'
      · exact hok e' he'
      · exact List.mem_singleton.mp he' ▸ ⟨p, hp⟩
    · rintro ⟨hok, rfl⟩
      refine ⟨_, ⟨fun e' he' => hok e' (hsub he'), rfl⟩, ?_⟩
      obtain ⟨p, hp⟩ := hok e (by simp)
      rw [stepAt_editedList hd (hk.mono hsub) hfresh, hp]
      rfl

/-! ### Distinct keys -/

variable (key ik eff) in
/-- Whatever element of its key an edit meets, it places elements of that key only. -/
def RespectsKey (es : List ι) : Prop :=
  ∀ e ∈ es, ∀ s : Option α, (∀ r, s = some r → key r = ik e) → ∀ p, eff e s = .ok p →
    ∀ x, p.elem? = some x → key x = ik e

theorem key_of_slot {k : κ} {xs : List α} {r : α} (h : slot key k xs = some r) : key r = k := by
  rw [slot, Option.map_eq_some_iff] at h
  obtain ⟨⟨pre, r', post⟩, hs, rfl⟩ := h
  exact (splitAtKey_eq_some hs).2.1

theorem mem_of_slot {k : κ} {xs : List α} {r : α} (h : slot key k xs = some r) : r ∈ xs := by
  rw [slot, Option.map_eq_some_iff] at h
  obtain ⟨⟨pre, r', post⟩, hs, rfl⟩ := h
  obtain ⟨rfl, -, -⟩ := splitAtKey_eq_some hs
  exact List.mem_append_right pre List.mem_cons_self

theorem slot_of_splitAtKey {k : κ} {xs pre post : List α} {r : α}
    (h : splitAtKey key k xs = some (pre, r, post)) : slot key k xs = some r := by
  rw [slot, h]
  rfl

theorem slot_eq_none_iff {k : κ} {xs : List α} :
    slot key k xs = none ↔ ∀ x ∈ xs, key x ≠ k := by
  rw [slot, Option.map_eq_none_iff, splitAtKey_eq_none_iff]

theorem slot_append_cons {k : κ} {pre post : List α} {x : α} (hpre : ∀ y ∈ pre, key y ≠ k)
    (hx : key x = k) : slot key k (pre ++ x :: post) = some x :=
  slot_of_splitAtKey (splitAtKey_append hpre hx)

/-- Distinct keys lead to every element. -/
theorem slot_of_mem {xs : List α} (hd : Distinct key xs) {x : α} (hx : x ∈ xs) :
    slot key (key x) xs = some x := by
  obtain ⟨pre, post, rfl⟩ := List.append_of_mem hx
  exact slot_append_cons (hd.not_mem_pre rfl) rfl

theorem RespectsKey.keepsKeys {es : List ι} (h : RespectsKey key ik eff es) :
    KeepsKeys key ik eff old es := by
  intro e he x hx
  rw [place] at hx
  split at hx
  · next p hp => exact h e he _ (fun r hr => key_of_slot hr) p hp x hx
  · simp [Place.elem?] at hx

theorem stepAt_editsAt {es : List ι} (h : RespectsKey key ik eff es) {e : ι} (he : e ∈ es)
    {xs ys : List α} (hd : Distinct key xs) (hs : stepAt key (ik e) (eff e) xs = .ok ys) :
    EditsAt key (ik e) xs ys := by
  rw [stepAt] at hs
  split at hs
  · next hnone =>
    have hx := splitAtKey_eq_none_iff.mp hnone
    rw [except_map_eq_ok] at hs
    obtain ⟨p, hp, rfl⟩ := hs
    have hkey := h e he none (by simp) p hp
    cases p with
    | head x => exact .cons hx (hkey x rfl)
    | tail x => exact .snoc hx (hkey x rfl)
    | here x => exact .refl hd
    | gone => exact .refl hd
  · next pre r post hsome =>
    obtain ⟨rfl, hr, -⟩ := splitAtKey_eq_some hsome
    rw [except_map_eq_ok] at hs
    obtain ⟨p, hp, rfl⟩ := hs
    have hkey := h e he (some r) (by rintro _ ⟨⟩; exact hr) p hp
    cases p with
    | head x => exact .toFront hd hr (hkey x rfl)
    | tail x => exact .toBack hd hr (hkey x rfl)
    | here x => exact .replace hd hr (hkey x rfl)
    | gone => exact .remove hd hr

/-! ### Elements of other keys -/

theorem slot_others {k l : κ} (h : l ≠ k) (xs : List α) :
    slot key l (others key k xs) = slot key l xs := by
  have hcons : ∀ x (ys : List α), slot key l (x :: ys)
      = if key x = l then some x else slot key l ys := by
    intro x ys
    rw [slot, splitAtKey]
    split_ifs
    · rfl
    · rw [slot, Option.map_map]
      rfl
  induction xs with
  | nil => rfl
  | cons x xs ih =>
    by_cases hx : key x = k
    · rw [others_cons_self hx, ih, hcons, if_neg (by rw [hx]; exact h.symm)]
    · have ho : others key k (x :: xs) = x :: others key k xs := by simp [others, hx]
      rw [ho, hcons, hcons, ih]

/-- An edit leaves the elements of the other keys alone. -/
theorem others_stepAt {es : List ι} (h : RespectsKey key ik eff es) {e : ι} (he : e ∈ es)
    {xs ys : List α} (hs : stepAt key (ik e) (eff e) xs = .ok ys) :
    others key (ik e) ys = others key (ik e) xs := by
  rw [stepAt] at hs
  split at hs
  · rw [except_map_eq_ok] at hs
    obtain ⟨p, hp, rfl⟩ := hs
    have hkey := h e he none (by simp) p hp
    cases p with
    | head x => exact others_cons_self (hkey x rfl) xs
    | tail x => simp [Place.applyAbsent, others_cons_self (hkey x rfl)]
    | here x => rfl
    | gone => rfl
  · next pre r post hsome =>
    obtain ⟨rfl, hr, -⟩ := splitAtKey_eq_some hsome
    rw [except_map_eq_ok] at hs
    obtain ⟨p, hp, rfl⟩ := hs
    have hkey := h e he (some r) (by rintro _ ⟨⟩; exact hr) p hp
    cases p with
    | head x => simp [Place.apply, others_cons_self (hkey x rfl), others_cons_self hr]
    | tail x => simp [Place.apply, others_cons_self (hkey x rfl), others_cons_self hr]
    | here x => simp [Place.apply, others_cons_self (hkey x rfl), others_cons_self hr]
    | gone => simp [Place.apply, others_cons_self hr]

theorem slot_stepAt_of_ne {es : List ι} (h : RespectsKey key ik eff es) {e : ι} (he : e ∈ es)
    {xs ys : List α} (hs : stepAt key (ik e) (eff e) xs = .ok ys) {l : κ} (hl : l ≠ ik e) :
    slot key l ys = slot key l xs := by
  rw [← slot_others hl ys, others_stepAt h he hs, slot_others hl]

theorem mem_stepAt_iff {es : List ι} (h : RespectsKey key ik eff es) {e : ι} (he : e ∈ es)
    {xs ys : List α} (hs : stepAt key (ik e) (eff e) xs = .ok ys) {x : α} (hx : key x ≠ ik e) :
    x ∈ ys ↔ x ∈ xs := by
  have hys : x ∈ others key (ik e) ys ↔ x ∈ ys ∧ key x ≠ ik e := mem_others
  have hxs : x ∈ others key (ik e) xs ↔ x ∈ xs ∧ key x ≠ ik e := mem_others
  rw [others_stepAt h he hs] at hys
  tauto

/-- An edit in place of the element of its key. -/
theorem slot_stepAt_here {e : ι} {xs ys : List α} {r x : α}
    (hr : slot key (ik e) xs = some r) (hp : eff e (some r) = .ok (.here x)) (hx : key x = ik e)
    (hs : stepAt key (ik e) (eff e) xs = .ok ys) : slot key (ik e) ys = some x := by
  rw [slot, Option.map_eq_some_iff] at hr
  obtain ⟨⟨pre, r', post⟩, hcut, rfl⟩ := hr
  obtain ⟨-, -, hpre⟩ := splitAtKey_eq_some hcut
  rw [stepAt, hcut] at hs
  simp only [hp, Except.map, Except.ok.injEq] at hs
  rw [← hs, slot, Place.apply, splitAtKey_append hpre hx]
  rfl

theorem foldlM_stepAt_distinct {es : List ι} (h : RespectsKey key ik eff es) (hd : Distinct key old)
    {ys : List α} (hs : es.foldlM (fun xs e => stepAt key (ik e) (eff e) xs) old = .ok ys) :
    Distinct key ys :=
  foldlM_invariant (I := Distinct key) hs hd
    fun _ he _ _ hx hstep => (stepAt_editsAt h he hx hstep).distinct hx

end Sequence

/-! ### Edits that reproduce themselves -/

section Reproduces

variable {key} (eff : α → Option α → Except ε (Place α)) {old es : List α}

variable (key) in
/-- The edits `es` produce exactly `es`: their keys are distinct, at most one of them puts itself
at the head, then come those that put themselves in the place of an old element, in the order of
these, then those that put themselves at the tail; and every old key is named. -/
def Reproduces (old es : List α) : Prop :=
  Distinct key es ∧ ∃ front same back, es = front ++ same ++ back ∧ front.length ≤ 1 ∧
    (∀ e ∈ front, eff e (slot key (key e) old) = .ok (.head e)) ∧
    (∀ e ∈ same, eff e (slot key (key e) old) = .ok (.here e)) ∧
    (∀ e ∈ back, eff e (slot key (key e) old) = .ok (.tail e)) ∧
    same.map key = (old.map key).filter fun k => k ∉ (front ++ back).map key

variable {eff}

omit [DecidableEq κ] in
theorem Distinct.eq_of_key_eq {xs : List α} (h : Distinct key xs) {x y : α} (hx : x ∈ xs)
    (hy : y ∈ xs) (he : key x = key y) : x = y :=
  List.inj_on_of_nodup_map h hx hy he

omit [DecidableEq κ] in
/-- Elements of a list of distinct keys are determined by their keys. -/
theorem Distinct.eq_of_map_key_eq {xs : List α} (h : Distinct key xs) : ∀ {ys zs : List α},
    (∀ y ∈ ys, y ∈ xs) → (∀ z ∈ zs, z ∈ xs) → ys.map key = zs.map key → ys = zs
  | [], [], _, _, _ => rfl
  | [], _ :: _, _, _, he => by simp at he
  | _ :: _, [], _, _, he => by simp at he
  | y :: ys, z :: zs, hy, hz, he => by
    rw [List.map_cons, List.map_cons, List.cons.injEq] at he
    rw [h.eq_of_key_eq (hy y List.mem_cons_self) (hz z List.mem_cons_self) he.1,
      h.eq_of_map_key_eq (fun y' h' => hy y' (List.mem_cons_of_mem _ h'))
        (fun z' h' => hz z' (List.mem_cons_of_mem _ h')) he.2]

theorem length_le_one_of_reverse_eq {xs : List α} (h : xs.Nodup) (hr : xs.reverse = xs) :
    xs.length ≤ 1 := by
  by_contra hlen
  have h0 : xs[0]? = xs[xs.length - 1]? := by
    conv_lhs => rw [← hr, List.getElem?_reverse (by omega)]
    rfl
  rw [List.getElem?_eq_getElem (by omega), List.getElem?_eq_getElem (by omega),
    Option.some.injEq, h.getElem_inj_iff] at h0
  omega

/-- The keys other than `ks`, element by element. -/
theorem filter_keys_not_mem (xs : List α) (ks : List κ) :
    (xs.map key).filter (fun k => k ∉ ks)
      = xs.filterMap fun r => if key r ∈ ks then none else some (key r) := by
  induction xs with
  | nil => rfl
  | cons x xs ih =>
    rw [List.map_cons, List.filter_cons, ih, List.filterMap_cons]
    by_cases h : key x ∈ ks <;> simp [h]

theorem place_eq_of_ok {e : α} {p : Place α} (h : eff e (slot key (key e) old) = .ok p) :
    place key key eff old e = p := by
  rw [place, h]

/-- In a list that its edits produce, what an edit places is the edit itself. -/
theorem elem_eq_of_editedList (hes : Distinct key es) (hk : KeepsKeys key key eff old es)
    {e x : α} (he : e ∈ es) (hx : x ∈ es) (hp : (place key key eff old e).elem? = some x) :
    x = e :=
  hes.eq_of_key_eq hx he (hk e he x hp)

/-- The edit found for an old element, in a list of edits of distinct keys. -/
theorem find?_key_eq (hes : Distinct key es) {e : α} (he : e ∈ es) :
    es.find? (fun e' => key e' = key e) = some e := by
  cases hf : es.find? fun e' => key e' = key e with
  | none => simpa using List.find?_eq_none.mp hf e he
  | some e' =>
    have hkey : key e' = key e := by simpa using List.find?_some hf
    rw [hes.eq_of_key_eq (List.mem_of_find?_eq_some hf) he hkey]

theorem edited_of_mem (hes : Distinct key es) {e r : α} (he : e ∈ es) (hr : key r = key e) :
    edited key key eff old es r = (place key key eff old e).here? := by
  rw [edited, hr, find?_key_eq hes he]

/-- Edits that reproduce themselves have their closed form. -/
theorem Reproduces.eq_editedList (h : Reproduces key eff old es) :
    es = editedList key key eff old es := by
  obtain ⟨hes, front, same, back, hsplit, hlen, hfront, hsame, hback, hkeys⟩ := h
  have hhere : ∀ e ∈ front ++ back, (place key key eff old e).here? = none := by
    intro e he
    rcases List.mem_append.mp he with he | he
    · rw [place_eq_of_ok (hfront e he)]; rfl
    · rw [place_eq_of_ok (hback e he)]; rfl
  have hheads : heads key key eff old es = front := by
    have h1 : front.filterMap (fun e => (place key key eff old e).head?) = front := by
      rw [List.filterMap_congr (g := some) fun e he => by rw [place_eq_of_ok (hfront e he)]; rfl,
        List.filterMap_some]
    have h2 : same.filterMap (fun e => (place key key eff old e).head?) = [] :=
      List.filterMap_eq_nil_iff.mpr fun e he => by rw [place_eq_of_ok (hsame e he)]; rfl
    have h3 : back.filterMap (fun e => (place key key eff old e).head?) = [] :=
      List.filterMap_eq_nil_iff.mpr fun e he => by rw [place_eq_of_ok (hback e he)]; rfl
    rw [heads, hsplit, List.filterMap_append, List.filterMap_append, h1, h2, h3]
    match front, hlen with
    | [], _ => rfl
    | [_], _ => rfl
  have htails : tails key key eff old es = back := by
    have h1 : front.filterMap (fun e => (place key key eff old e).tail?) = [] :=
      List.filterMap_eq_nil_iff.mpr fun e he => by rw [place_eq_of_ok (hfront e he)]; rfl
    have h2 : same.filterMap (fun e => (place key key eff old e).tail?) = [] :=
      List.filterMap_eq_nil_iff.mpr fun e he => by rw [place_eq_of_ok (hsame e he)]; rfl
    have h3 : back.filterMap (fun e => (place key key eff old e).tail?) = back := by
      rw [List.filterMap_congr (g := some) fun e he => by rw [place_eq_of_ok (hback e he)]; rfl,
        List.filterMap_some]
    rw [tails, hsplit, List.filterMap_append, List.filterMap_append, h1, h2, h3]
    rfl
  -- an old element is edited in place exactly when its key is not at the head or the tail
  have hedited : ∀ r ∈ old, (edited key key eff old es r).map key
      = if key r ∈ (front ++ back).map key then none else some (key r) := by
    intro r hr
    by_cases hmem : key r ∈ (front ++ back).map key
    · rw [if_pos hmem]
      obtain ⟨e, he, her⟩ := List.mem_map.mp hmem
      have hein : e ∈ es := by
        rw [hsplit]
        rcases List.mem_append.mp he with he | he <;> simp [he]
      rw [edited_of_mem hes hein her.symm, hhere e he]
      rfl
    · rw [if_neg hmem]
      have hsameKey : key r ∈ same.map key := by
        rw [hkeys, List.mem_filter]
        exact ⟨List.mem_map_of_mem hr, decide_eq_true hmem⟩
      obtain ⟨e, he, her⟩ := List.mem_map.mp hsameKey
      rw [edited_of_mem hes (by rw [hsplit]; simp [he]) her.symm, place_eq_of_ok (hsame e he)]
      exact congrArg some her
  have hmiddle : middle key key eff old es = same := by
    refine hes.eq_of_map_key_eq ?_ ?_ ?_
    · intro x hx
      obtain ⟨r, hr, hrx⟩ := List.mem_filterMap.mp hx
      have hkey := hedited r hr
      rw [hrx] at hkey
      split_ifs at hkey with hmem
      · simp at hkey
      · have hin : key r ∈ same.map key := by
          rw [hkeys, List.mem_filter]
          exact ⟨List.mem_map_of_mem hr, decide_eq_true hmem⟩
        obtain ⟨e, he, her⟩ := List.mem_map.mp hin
        have hein : e ∈ es := by rw [hsplit]; simp [he]
        rw [edited_of_mem hes hein her.symm, place_eq_of_ok (hsame e he)] at hrx
        exact Option.some.inj hrx ▸ hein
    · intro x hx
      rw [hsplit]
      simp [hx]
    · rw [middle, List.map_filterMap, List.filterMap_congr hedited, hkeys, filter_keys_not_mem]
  rw [editedList, hheads, htails, hmiddle]
  exact hsplit

/-- Edits that have their closed form reproduce themselves. -/
theorem reproduces_of_eq_editedList (hes : Distinct key es)
    (hk : KeepsKeys key key eff old es)
    (hok : ∀ e ∈ es, ∃ p, eff e (slot key (key e) old) = .ok p)
    (heq : es = editedList key key eff old es) : Reproduces key eff old es := by
  have hsplit : es = heads key key eff old es ++ middle key key eff old es ++
      tails key key eff old es := heq
  have hin : ∀ {x}, x ∈ heads key key eff old es ∨ x ∈ middle key key eff old es ∨
      x ∈ tails key key eff old es → x ∈ es := by
    intro x hx
    rw [hsplit]
    simpa [or_assoc] using hx
  have heff : ∀ {e p}, e ∈ es → place key key eff old e = p →
      eff e (slot key (key e) old) = .ok p := by
    intro e p he hp
    obtain ⟨q, hq⟩ := hok e he
    rw [hq, ← hp, place_eq_of_ok hq]
  have hheads : ∀ e ∈ heads key key eff old es, place key key eff old e = .head e := by
    intro x hx
    obtain ⟨e, he, hp⟩ := mem_heads.mp hx
    obtain rfl := elem_eq_of_editedList hes hk he (hin (.inl hx)) (Place.elem?_of_head? hp)
    exact Place.head?_eq_some_iff.mp hp
  have htails : ∀ e ∈ tails key key eff old es, place key key eff old e = .tail e := by
    intro x hx
    obtain ⟨e, he, hp⟩ := mem_tails.mp hx
    obtain rfl := elem_eq_of_editedList hes hk he (hin (.inr (.inr hx))) (Place.elem?_of_tail? hp)
    exact Place.tail?_eq_some_iff.mp hp
  have hmiddle : ∀ e ∈ middle key key eff old es, place key key eff old e = .here e := by
    intro x hx
    have hxin := hin (.inr (.inl hx))
    obtain ⟨r, hr, hrx⟩ := List.mem_filterMap.mp hx
    rw [edited_of_mem hes hxin (key_of_edited hk hrx).symm] at hrx
    exact Place.here?_eq_some_iff.mp hrx
  refine ⟨hes, _, _, _, hsplit, ?_, fun e he => heff (hin (.inl he)) (hheads e he),
    fun e he => heff (hin (.inr (.inl he))) (hmiddle e he),
    fun e he => heff (hin (.inr (.inr he))) (htails e he), ?_⟩
  · -- the elements at the head are put there in both orders
    have hrev : (heads key key eff old es).reverse = heads key key eff old es := by
      have h1 : (heads key key eff old es).filterMap (fun e => (place key key eff old e).head?)
          = heads key key eff old es := by
        rw [List.filterMap_congr (g := some) fun e he => by rw [hheads e he]; rfl,
          List.filterMap_some]
      have h2 : (middle key key eff old es).filterMap (fun e => (place key key eff old e).head?)
          = [] := List.filterMap_eq_nil_iff.mpr fun e he => by rw [hmiddle e he]; rfl
      have h3 : (tails key key eff old es).filterMap (fun e => (place key key eff old e).head?)
          = [] := List.filterMap_eq_nil_iff.mpr fun e he => by rw [htails e he]; rfl
      have hall : es.filterMap (fun e => (place key key eff old e).head?)
          = heads key key eff old es := by
        conv_lhs => rw [hsplit]
        rw [List.filterMap_append, List.filterMap_append, h1, h2, h3]
        simp
      conv_lhs => rw [heads, List.reverse_reverse, hall]
    refine length_le_one_of_reverse_eq ?_ hrev
    have hnodup : es.Nodup := List.Nodup.of_map key hes
    rw [hsplit] at hnodup
    exact ((List.nodup_append.mp hnodup).1 |> List.nodup_append.mp).1
  · rw [middle, List.map_filterMap, filter_keys_not_mem]
    refine List.filterMap_congr fun r hr => ?_
    have hkeys : Distinct key (heads key key eff old es ++ middle key key eff old es ++
        tails key key eff old es) := hsplit ▸ hes
    cases hrx : edited key key eff old es r with
    | some x =>
      -- `x` is in the middle, so its key is not at the head or the tail
      have hx : x ∈ middle key key eff old es := List.mem_filterMap.mpr ⟨r, hr, hrx⟩
      have hkey := key_of_edited hk hrx
      have hmem : key r ∉ (heads key key eff old es ++ tails key key eff old es).map key := by
        rw [← hkey]
        intro hmem
        obtain ⟨y, hy, hyx⟩ := List.mem_map.mp hmem
        rcases List.mem_append.mp hy with hy' | hy'
        · have hxy := hes.eq_of_key_eq (hin (.inl hy')) (hin (.inr (.inl hx))) hyx
          have := hheads y hy'
          rw [hxy, hmiddle x hx] at this
          simp at this
        · have hxy := hes.eq_of_key_eq (hin (.inr (.inr hy'))) (hin (.inr (.inl hx))) hyx
          have := htails y hy'
          rw [hxy, hmiddle x hx] at this
          simp at this
      rw [if_neg hmem, ← hkey]
      rfl
    | none =>
      -- an edit takes `r` out of its place
      have hmem : key r ∈ (heads key key eff old es ++ tails key key eff old es).map key := by
        unfold edited at hrx
        split at hrx
        · simp at hrx
        · next e he =>
          have hein := List.mem_of_find?_eq_some he
          have hkey : key e = key r := by simpa using List.find?_some he
          rw [← hkey]
          refine List.mem_map_of_mem ?_
          rw [hsplit] at hein
          rcases List.mem_append.mp hein with hein | hein
          · rcases List.mem_append.mp hein with hein | hein
            · exact List.mem_append_left _ hein
            · rw [hmiddle e hein] at hrx
              simp [Place.here?] at hrx
          · exact List.mem_append_right _ hein
      rw [if_pos hmem]
      rfl

/-- **When the edits of a list produce the list of the edits.** -/
theorem foldlM_stepAt_eq_self_iff (hd : Distinct key old) (hr : RespectsKey key key eff es) :
    es.foldlM (fun xs e => stepAt key (key e) (eff e) xs) old = .ok es ↔
      Reproduces key eff old es := by
  constructor
  · intro h
    have hes := foldlM_stepAt_distinct hr hd h
    obtain ⟨hok, heq⟩ := (foldlM_stepAt_eq_ok_iff hd hr.keepsKeys hes).mp h
    exact reproduces_of_eq_editedList hes hr.keepsKeys hok heq
  · intro h
    refine (foldlM_stepAt_eq_ok_iff hd hr.keepsKeys h.1).mpr ⟨?_, h.eq_editedList⟩
    obtain ⟨-, front, same, back, hsplit, -, hfront, hsame, hback, -⟩ := h
    intro e he
    rw [hsplit] at he
    rcases List.mem_append.mp he with he | he
    · rcases List.mem_append.mp he with he | he
      · exact ⟨_, hfront e he⟩
      · exact ⟨_, hsame e he⟩
    · exact ⟨_, hback e he⟩

end Reproduces

end AimrtComm.KeyedList
