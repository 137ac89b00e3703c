import Mathlib.Data.List.Basic
import Mathlib.Data.List.Nodup

/-!
# Association lists with a first-match rule

`modify k f` rewrites the first entry of key `k`, `ensure d k` appends an entry `(k, d)` when
there is none, and `upsert d k f` does both: this is how an insertion-ordered map behaves when
`m[k]` creates missing entries.  The lemmas say how the three compose on distinct keys; the main
one is `foldr_modify_foldl_ensure`: creating all slots first and then filling them from the last
to the first gives the same list as inserting the entries one by one.
-/

namespace AimrtComm.Assoc

variable {κ ν : Type*} [DecidableEq κ]

/-- The keys of an association list, in order. -/
abbrev keys (fs : List (κ × ν)) : List κ := fs.map Prod.fst

/-- Apply `f` to the value of the first entry of key `k`; nothing happens if there is none. -/
def modify (k : κ) (f : ν → ν) : List (κ × ν) → List (κ × ν)
  | [] => []
  | (l, v) :: fs => if l = k then (l, f v) :: fs else (l, v) :: modify k f fs

/-- Append `(k, d)` unless the key `k` is there. -/
def ensure (d : ν) (k : κ) (fs : List (κ × ν)) : List (κ × ν) :=
  if k ∈ keys fs then fs else fs ++ [(k, d)]

/-- Apply `f` to the value of key `k`, which is created as `d` if it is missing. -/
def upsert (d : ν) (k : κ) (f : ν → ν) (fs : List (κ × ν)) : List (κ × ν) :=
  modify k f (ensure d k fs)

/-- The value of key `k`, `d` if there is none. -/
def get (d : ν) (k : κ) : List (κ × ν) → ν
  | [] => d
  | (l, v) :: fs => if l = k then v else get d k fs

/-! ### `modify` -/

@[simp] theorem keys_modify (k : κ) (f : ν → ν) (fs : List (κ × ν)) :
    keys (modify k f fs) = keys fs := by
  induction fs with
  | nil => rfl
  | cons e fs ih =>
    obtain ⟨l, v⟩ := e
    rw [modify]
    split_ifs with h
    · rfl
    · simp only [List.map_cons, ih]

theorem modify_of_not_mem {k : κ} {f : ν → ν} {fs : List (κ × ν)} (h : k ∉ keys fs) :
    modify k f fs = fs := by
  induction fs with
  | nil => rfl
  | cons e fs ih =>
    obtain ⟨l, v⟩ := e
    simp only [List.map_cons, List.mem_cons, not_or] at h
    rw [modify, if_neg (Ne.symm h.1), ih h.2]

@[simp] theorem modify_id (k : κ) (fs : List (κ × ν)) : modify k (fun v => v) fs = fs := by
  induction fs with
  | nil => rfl
  | cons e fs ih =>
    obtain ⟨l, v⟩ := e
    rw [modify, ih]
    split_ifs <;> rfl

theorem modify_modify (k : κ) (f g : ν → ν) (fs : List (κ × ν)) :
    modify k f (modify k g fs) = modify k (fun v => f (g v)) fs := by
  induction fs with
  | nil => rfl
  | cons e fs ih =>
    obtain ⟨l, v⟩ := e
    by_cases h : l = k
    · simp [modify, h]
    · simp [modify, h, ih]

theorem modify_comm {k l : κ} (hkl : k ≠ l) (f g : ν → ν) (fs : List (κ × ν)) :
    modify k f (modify l g fs) = modify l g (modify k f fs) := by
  induction fs with
  | nil => rfl
  | cons e fs ih =>
    obtain ⟨m, v⟩ := e
    by_cases hk : m = k
    · subst hk
      simp [modify, hkl]
    · by_cases hl : m = l
      · subst hl
        simp [modify, hk]
      · simp [modify, hk, hl, ih]

theorem modify_append_of_mem {k : κ} {fs : List (κ × ν)} (h : k ∈ keys fs) (f : ν → ν)
    (gs : List (κ × ν)) : modify k f (fs ++ gs) = modify k f fs ++ gs := by
  induction fs with
  | nil => simp at h
  | cons e fs ih =>
    obtain ⟨l, v⟩ := e
    rw [List.cons_append, modify, modify]
    split_ifs with hl
    · rfl
    · rw [ih (by simpa [Ne.symm hl] using h), List.cons_append]

/-- `modify k` depends on its function only at the value it is applied to. -/
theorem modify_congr {k : κ} {d : ν} {f g : ν → ν} {fs : List (κ × ν)}
    (h : f (get d k fs) = g (get d k fs)) : modify k f fs = modify k g fs := by
  induction fs with
  | nil => rfl
  | cons e fs ih =>
    obtain ⟨l, v⟩ := e
    by_cases hl : l = k
    · simp_all [modify, get]
    · simp_all [modify, get]

theorem get_of_not_mem {d : ν} {k : κ} {fs : List (κ × ν)} (h : k ∉ keys fs) :
    get d k fs = d := by
  induction fs with
  | nil => rfl
  | cons e fs ih =>
    obtain ⟨l, v⟩ := e
    simp only [List.map_cons, List.mem_cons, not_or] at h
    rw [get, if_neg (Ne.symm h.1), ih h.2]

omit [DecidableEq κ] in
theorem mem_keys_of_mem {k : κ} {v : ν} {fs : List (κ × ν)} (h : (k, v) ∈ fs) : k ∈ keys fs :=
  List.mem_map.mpr ⟨_, h, rfl⟩

/-- The value of a field, when the keys are distinct. -/
theorem get_of_mem {d : ν} {k : κ} {v : ν} {fs : List (κ × ν)} (hd : (keys fs).Nodup)
    (h : (k, v) ∈ fs) : get d k fs = v := by
  induction fs with
  | nil => simp at h
  | cons e fs ih =>
    obtain ⟨l, w⟩ := e
    rw [keys, List.map_cons, List.nodup_cons] at hd
    rcases List.mem_cons.mp h with he | h
    · cases he
      rw [get, if_pos rfl]
    · have hne : l ≠ k := by
        rintro rfl
        exact hd.1 (mem_keys_of_mem h)
      rw [get, if_neg hne, ih hd.2 h]

theorem get_modify_self {d : ν} {k : κ} {fs : List (κ × ν)} (h : k ∈ keys fs) (f : ν → ν) :
    get d k (modify k f fs) = f (get d k fs) := by
  induction fs with
  | nil => simp at h
  | cons e fs ih =>
    obtain ⟨l, v⟩ := e
    by_cases hl : l = k
    · simp [modify, get, hl]
    · simp [modify, get, hl, ih (by simpa [Ne.symm hl] using h)]

theorem get_modify_of_ne {d : ν} {k l : κ} (hkl : l ≠ k) (f : ν → ν) (fs : List (κ × ν)) :
    get d l (modify k f fs) = get d l fs := by
  induction fs with
  | nil => rfl
  | cons e fs ih =>
    obtain ⟨m, v⟩ := e
    by_cases hm : m = k
    · subst hm
      simp [modify, get, hkl.symm]
    · simp [modify, get, hm, ih]

/-! ### `ensure` and `upsert` -/

theorem ensure_of_mem {d : ν} {k : κ} {fs : List (κ × ν)} (h : k ∈ keys fs) :
    ensure d k fs = fs := if_pos h

theorem mem_keys_ensure_self (d : ν) (k : κ) (fs : List (κ × ν)) : k ∈ keys (ensure d k fs) := by
  unfold ensure
  split_ifs with h
  · exact h
  · simp

theorem mem_keys_ensure_of_mem {d : ν} {k l : κ} {fs : List (κ × ν)} (h : l ∈ keys fs) :
    l ∈ keys (ensure d k fs) := by
  unfold ensure
  split_ifs
  · exact h
  · rw [keys, List.map_append]; exact List.mem_append_left _ h

theorem nodup_keys_ensure {d : ν} {k : κ} {fs : List (κ × ν)} (h : (keys fs).Nodup) :
    (keys (ensure d k fs)).Nodup := by
  unfold ensure
  split_ifs with hk
  · exact h
  · rw [keys, List.map_append, List.nodup_append]
    refine ⟨h, by simp, ?_⟩
    rintro a ha b hb rfl
    rw [List.map_singleton, List.mem_singleton] at hb
    subst hb
    exact hk ha

theorem get_ensure (d : ν) (k l : κ) (fs : List (κ × ν)) :
    get d l (ensure d k fs) = get d l fs := by
  unfold ensure
  split_ifs with h
  · rfl
  · clear h
    induction fs with
    | nil => simp [get]
    | cons e fs ih =>
      obtain ⟨m, v⟩ := e
      simp only [List.cons_append, get, ih]

theorem modify_ensure_comm {d : ν} {k l : κ} {fs : List (κ × ν)} (h : k ∈ keys fs) (f : ν → ν) :
    modify k f (ensure d l fs) = ensure d l (modify k f fs) := by
  unfold ensure
  rw [keys_modify]
  split_ifs with hl
  · rfl
  · exact modify_append_of_mem h f _

theorem mem_keys_upsert_of_mem {d : ν} {k l : κ} {f : ν → ν} {fs : List (κ × ν)}
    (h : l ∈ keys fs) : l ∈ keys (upsert d k f fs) := by
  rw [upsert, keys_modify]
  exact mem_keys_ensure_of_mem h

theorem mem_keys_upsert_self (d : ν) (k : κ) (f : ν → ν) (fs : List (κ × ν)) :
    k ∈ keys (upsert d k f fs) := by
  rw [upsert, keys_modify]
  exact mem_keys_ensure_self d k fs

theorem get_upsert_self (d : ν) (k : κ) (f : ν → ν) (fs : List (κ × ν)) :
    get d k (upsert d k f fs) = f (get d k fs) := by
  rw [upsert, get_modify_self (mem_keys_ensure_self d k fs), get_ensure]

theorem get_upsert_of_ne {d : ν} {k l : κ} (hkl : l ≠ k) (f : ν → ν) (fs : List (κ × ν)) :
    get d l (upsert d k f fs) = get d l fs := by
  rw [upsert, get_modify_of_ne hkl, get_ensure]

theorem upsert_upsert (d : ν) (k : κ) (f g : ν → ν) (fs : List (κ × ν)) :
    upsert d k f (upsert d k g fs) = upsert d k (fun v => f (g v)) fs := by
  have hk : k ∈ keys (upsert d k g fs) := by
    rw [upsert, keys_modify]
    exact mem_keys_ensure_self d k fs
  conv_lhs => rw [upsert, ensure_of_mem hk, upsert, modify_modify]
  rfl

/-- Giving a key the value that it has changes nothing. -/
theorem upsert_eq_self {d : ν} {k : κ} {f : ν → ν} {fs : List (κ × ν)} (hk : k ∈ keys fs)
    (hf : f (get d k fs) = get d k fs) : upsert d k f fs = fs := by
  rw [upsert, ensure_of_mem hk, modify_congr (d := d) (g := fun v => v) hf, modify_id]

/-- Once the slot of `k` exists, rewriting it commutes with inserting another key. -/
theorem modify_upsert_comm {d : ν} {k l : κ} (hkl : k ≠ l) {fs : List (κ × ν)}
    (h : k ∈ keys fs) (f g : ν → ν) :
    modify k f (upsert d l g fs) = upsert d l g (modify k f fs) := by
  rw [upsert, modify_comm hkl, modify_ensure_comm h, upsert]

/-! ### Inserting a whole list -/

/-- Insert the entries of `es` one by one, merging each value with `g`. -/
def upsertAll {ε : Type*} (d : ν) (g : ε → ν → ν) (fs : List (κ × ν)) (es : List (κ × ε)) :
    List (κ × ν) :=
  es.foldl (fun acc e => upsert d e.1 (g e.2) acc) fs

/-- Create the slots of all keys of `es`. -/
def ensureAll {ε : Type*} (d : ν) (fs : List (κ × ν)) (es : List (κ × ε)) : List (κ × ν) :=
  es.foldl (fun acc e => ensure d e.1 acc) fs

section Insert

variable {ε : Type*} {d : ν} {g : ε → ν → ν}

theorem modify_upsertAll {k : κ} {es : List (κ × ε)} (hk : k ∉ keys es) (f : ν → ν)
    {fs : List (κ × ν)} (h : k ∈ keys fs) :
    modify k f (upsertAll d g fs es) = upsertAll d g (modify k f fs) es := by
  induction es generalizing fs with
  | nil => rfl
  | cons e es ih =>
    simp only [List.map_cons, List.mem_cons, not_or] at hk
    simp only [upsertAll, List.foldl_cons] at ih ⊢
    rw [ih hk.2 (mem_keys_upsert_of_mem h), modify_upsert_comm hk.1 h]

/-- Creating all slots and then filling them from the last entry to the first is inserting the
entries one by one, when the keys are distinct. -/
theorem foldr_modify_foldl_ensure {es : List (κ × ε)} (hes : (keys es).Nodup)
    (fs : List (κ × ν)) :
    es.foldr (fun e acc => modify e.1 (g e.2) acc) (ensureAll d fs es)
      = upsertAll d g fs es := by
  induction es generalizing fs with
  | nil => rfl
  | cons e es ih =>
    rw [keys, List.map_cons, List.nodup_cons] at hes
    have ih' := ih hes.2 (ensure d e.1 fs)
    simp only [ensureAll, List.foldl_cons, List.foldr_cons] at ih' ⊢
    rw [ih', modify_upsertAll hes.1 _ (mem_keys_ensure_self d e.1 fs)]
    rfl

theorem get_upsertAll_of_not_mem {l : κ} {es : List (κ × ε)} (hl : l ∉ keys es)
    (fs : List (κ × ν)) : get d l (upsertAll d g fs es) = get d l fs := by
  induction es generalizing fs with
  | nil => rfl
  | cons e es ih =>
    simp only [List.map_cons, List.mem_cons, not_or] at hl
    simp only [upsertAll, List.foldl_cons] at ih ⊢
    rw [ih hl.2, get_upsert_of_ne hl.1]

/-- The value of a key after updates is made from its value before. -/
theorem get_upsertAll_congr {k : κ} {es : List (κ × ε)} {fs fs' : List (κ × ν)}
    (h : get d k fs = get d k fs') :
    get d k (upsertAll d g fs es) = get d k (upsertAll d g fs' es) := by
  unfold upsertAll
  induction es generalizing fs fs' with
  | nil => exact h
  | cons e es ih =>
    apply ih
    by_cases hkey : k = e.1
    · rw [hkey] at h ⊢
      rw [get_upsert_self, get_upsert_self, h]
    · rw [get_upsert_of_ne hkey, get_upsert_of_ne hkey, h]

/-- With distinct keys, the value of an inserted key is the old one merged with the new one. -/
theorem get_upsertAll_of_mem {es : List (κ × ε)} (hes : (keys es).Nodup) {k : κ} {v : ε}
    (h : (k, v) ∈ es) (fs : List (κ × ν)) :
    get d k (upsertAll d g fs es) = g v (get d k fs) := by
  induction es generalizing fs with
  | nil => simp at h
  | cons e es ih =>
    rw [keys, List.map_cons, List.nodup_cons] at hes
    rcases List.mem_cons.mp h with rfl | h'
    · show get d k (upsertAll d g (upsert d k (g v) fs) es) = _
      rw [get_upsertAll_of_not_mem hes.1, get_upsert_self]
    · have hne : k ≠ e.1 := fun hk => hes.1 (hk ▸ List.mem_map_of_mem (f := Prod.fst) h')
      show get d k (upsertAll d g (upsert d e.1 (g e.2) fs) es) = _
      rw [ih hes.2 h', get_upsert_of_ne hne]

theorem mem_keys_upsertAll {l : κ} {es : List (κ × ε)} (fs : List (κ × ν))
    (h : l ∈ keys fs ∨ l ∈ keys es) : l ∈ keys (upsertAll d g fs es) := by
  induction es generalizing fs with
  | nil => simpa [upsertAll] using h
  | cons e es ih =>
    apply ih (upsert d e.1 (g e.2) fs)
    simp only [List.map_cons, List.mem_cons] at h
    rcases h with h | rfl | h
    · exact .inl (mem_keys_upsert_of_mem h)
    · left
      rw [upsert, keys_modify]
      exact mem_keys_ensure_self d e.1 fs
    · exact .inr h

/-- Inserting entries that the list already absorbed changes nothing. -/
theorem upsertAll_eq_self {es : List (κ × ε)} {fs : List (κ × ν)}
    (h : ∀ e ∈ es, e.1 ∈ keys fs ∧ g e.2 (get d e.1 fs) = get d e.1 fs) :
    upsertAll d g fs es = fs := by
  induction es with
  | nil => rfl
  | cons e es ih =>
    obtain ⟨hk, hv⟩ := h e List.mem_cons_self
    show upsertAll d g (upsert d e.1 (g e.2) fs) es = fs
    rw [upsert_eq_self hk hv]
    exact ih fun e' he => h e' (List.mem_cons_of_mem _ he)

/-- Inserting the same entries again changes nothing when merging a value twice does not. -/
theorem upsertAll_upsertAll {es : List (κ × ε)} (hes : (keys es).Nodup) (fs : List (κ × ν))
    (h : ∀ e ∈ es, ∀ v, g e.2 (g e.2 v) = g e.2 v) :
    upsertAll d g (upsertAll d g fs es) es = upsertAll d g fs es := by
  apply upsertAll_eq_self
  intro e he
  refine ⟨mem_keys_upsertAll fs (.inr (List.mem_map_of_mem he)), ?_⟩
  rw [get_upsertAll_of_mem hes (k := e.1) (v := e.2) he]
  exact h e he _

/-- The value of key `k` merged with the entry of that key, if there is one. -/
def mergeEntry (g : ε → ν → ν) (es : List (κ × ε)) (k : κ) (v : ν) : ν :=
  match es.find? fun e => e.1 = k with
  | some e => g e.2 v
  | none => v

theorem mergeEntry_cons (e : κ × ε) (es : List (κ × ε)) (k : κ) (v : ν) :
    mergeEntry g (e :: es) k v = if e.1 = k then g e.2 v else mergeEntry g es k v := by
  unfold mergeEntry
  rw [List.find?_cons]
  by_cases h : e.1 = k <;> simp [h]

theorem mergeEntry_of_not_mem {es : List (κ × ε)} {k : κ} (h : k ∉ keys es) (v : ν) :
    mergeEntry g es k v = v := by
  have hnone : (es.find? fun e => e.1 = k) = none := by
    rw [List.find?_eq_none]
    intro e he
    simp only [decide_eq_true_eq]
    rintro rfl
    exact h (List.mem_map_of_mem he)
  rw [mergeEntry, hnone]

theorem modify_eq_map {k : κ} {f : ν → ν} {fs : List (κ × ν)} (h : (keys fs).Nodup) :
    modify k f fs = fs.map fun e => (e.1, if k = e.1 then f e.2 else e.2) := by
  induction fs with
  | nil => rfl
  | cons e fs ih =>
    obtain ⟨l, v⟩ := e
    rw [keys, List.map_cons, List.nodup_cons] at h
    rw [modify, List.map_cons, ← ih h.2]
    by_cases hl : l = k
    · subst hl
      simp [modify_of_not_mem h.1]
    · simp [hl, Ne.symm hl]

/-- Inserting entries of distinct keys one by one: the old entries stay in their order, each
merged with the new entry of its key, and the entries of new keys follow. -/
theorem upsertAll_eq_append {es : List (κ × ε)} (hes : (keys es).Nodup) {fs : List (κ × ν)}
    (hfs : (keys fs).Nodup) :
    upsertAll d g fs es
      = (fs.map fun e => (e.1, mergeEntry g es e.1 e.2))
        ++ (es.filter fun e => e.1 ∉ keys fs).map fun e => (e.1, g e.2 d) := by
  induction es generalizing fs with
  | nil => simp [upsertAll, mergeEntry]
  | cons e es ih =>
    rw [keys, List.map_cons, List.nodup_cons] at hes
    show upsertAll d g (upsert d e.1 (g e.2) fs) es = _
    by_cases hk : e.1 ∈ keys fs
    · -- the key is there: its entry is merged in place
      have hkeys : keys (upsert d e.1 (g e.2) fs) = keys fs := by
        rw [upsert, keys_modify, ensure_of_mem hk]
      rw [ih hes.2 (hkeys ▸ hfs), hkeys, upsert, ensure_of_mem hk, modify_eq_map hfs,
        List.map_map, List.filter_cons_of_neg (by simpa using hk)]
      congr 1
      apply List.map_congr_left
      intro f _
      simp only [Function.comp_apply, mergeEntry_cons]
      by_cases hf : e.1 = f.1
      · simp [← hf, mergeEntry_of_not_mem hes.1]
      · simp [hf]
    · -- a new key: its entry goes to the end, where no later one touches it
      have hne : ∀ f ∈ fs, e.1 ≠ f.1 := fun f hf h => hk (h ▸ List.mem_map_of_mem hf)
      have hnd : (keys (fs ++ [(e.1, d)])).Nodup := by
        have h := nodup_keys_ensure (d := d) (k := e.1) hfs
        rwa [ensure, if_neg hk] at h
      have hins : upsert d e.1 (g e.2) fs = fs ++ [(e.1, g e.2 d)] := by
        rw [upsert, ensure, if_neg hk, modify_eq_map hnd, List.map_append]
        congr 1
        · conv_rhs => rw [← List.map_id fs]
          apply List.map_congr_left
          intro f hf
          simp [hne f hf]
        · simp
      have hnd' : (keys (fs ++ [(e.1, g e.2 d)])).Nodup := by
        simpa only [keys, List.map_append, List.map_singleton] using hnd
      rw [hins, ih hes.2 hnd', List.map_append, List.append_assoc,
        List.filter_cons_of_pos (by simpa using hk)]
      congr 1
      · apply List.map_congr_left
        intro f hf
        rw [mergeEntry_cons, if_neg (hne f hf)]
      · rw [List.map_singleton, mergeEntry_of_not_mem hes.1, List.singleton_append, List.map_cons]
        congr 2
        apply List.filter_congr
        intro f hf
        have hf' : f.1 ≠ e.1 := fun h => hes.1 (h ▸ List.mem_map_of_mem hf)
        simp [hf']

end Insert

end AimrtComm.Assoc
