import Mathlib.Data.List.Basic
import Mathlib.Data.List.Nodup
import Mathlib.Data.List.Perm.Basic
import Std.Data.ExtTreeMap

/-!
# Maps written out as columns and read back

A map goes through a channel of columns: its values are coded one by one, the keys stay beside them,
and what arrives is decoded into a new map.  The order of the columns does not matter to the new map
(`getElem?_decodeAll`), and it is the old one under `g` exactly when decoding what was coded is `g`
at every entry (`decodeAll_eq_map_iff`).
-/

namespace AimrtComm.Columns

variable {κ ν ω μ : Type*}

/-! ### Coding -/

section Coding

variable {code : ν → Option ω}

theorem length_of_mapM {vs : List ν} {ws : List ω} (h : vs.mapM code = some ws) :
    ws.length = vs.length := by
  induction vs generalizing ws with
  | nil =>
    obtain rfl := Option.some.inj h
    rfl
  | cons v vs ih =>
    rw [List.mapM_cons] at h
    obtain ⟨w, -, ws', hws, rfl⟩ :
        ∃ w, code v = some w ∧ ∃ ws', vs.mapM code = some ws' ∧ w :: ws' = ws := by
      simpa [Option.bind_eq_some_iff] using h
    rw [List.length_cons, List.length_cons, ih hws]

/-- The coded values stand beside the keys of the values they are the codes of. -/
theorem mem_zip_of_mapM {es : List (κ × ν)} {ws : List ω}
    (h : (es.map Prod.snd).mapM code = some ws) {k : κ} {w : ω} :
    (k, w) ∈ (es.map Prod.fst).zip ws ↔ ∃ v, (k, v) ∈ es ∧ code v = some w := by
  induction es generalizing ws with
  | nil => simp
  | cons e es ih =>
    rw [List.map_cons, List.mapM_cons] at h
    obtain ⟨w', hw', ws', hws, rfl⟩ : ∃ w', code e.2 = some w' ∧
        ∃ ws', (es.map Prod.snd).mapM code = some ws' ∧ w' :: ws' = ws := by
      simpa [Option.bind_eq_some_iff] using h
    rw [List.map_cons, List.zip_cons_cons, List.mem_cons, ih hws]
    constructor
    · rintro (heq | ⟨v, hv, hw⟩)
      · obtain ⟨rfl, rfl⟩ := Prod.mk.inj heq
        exact ⟨e.2, List.mem_cons_self, hw'⟩
      · exact ⟨v, List.mem_cons_of_mem _ hv, hw⟩
    · rintro ⟨v, hv, hw⟩
      rcases List.mem_cons.mp hv with rfl | hv
      · rw [hw] at hw'
        exact .inl (by rw [Option.some.inj hw'])
      · exact .inr ⟨v, hv, hw⟩

theorem exists_mapM {vs : List ν} (h : ∀ v ∈ vs, code v ≠ none) :
    ∃ ws, vs.mapM code = some ws := by
  induction vs with
  | nil => exact ⟨[], rfl⟩
  | cons v vs ih =>
    obtain ⟨w, hw⟩ := Option.ne_none_iff_exists'.mp (h v List.mem_cons_self)
    obtain ⟨ws, hws⟩ := ih fun v hv => h v (List.mem_cons_of_mem _ hv)
    exact ⟨w :: ws, by rw [List.mapM_cons, hw, hws]; rfl⟩

theorem ne_none_of_mapM {vs : List ν} {ws : List ω} (h : vs.mapM code = some ws) :
    ∀ v ∈ vs, code v ≠ none := by
  induction vs generalizing ws with
  | nil => simp
  | cons v vs ih =>
    rw [List.mapM_cons] at h
    obtain ⟨w, hw, ws', hws, -⟩ :
        ∃ w, code v = some w ∧ ∃ ws', vs.mapM code = some ws' ∧ w :: ws' = ws := by
      simpa [Option.bind_eq_some_iff] using h
    intro v' hv'
    rcases List.mem_cons.mp hv' with rfl | hv'
    · rw [hw]
      exact Option.some_ne_none w
    · exact ih hws v' hv'

end Coding

/-! ### Decoding -/

section Decoding

variable [Ord κ] [Std.TransOrd κ]

/-- The map read from columns, one assignment after the other. -/
def decodeAll (decode : ω → μ) (cells : List (κ × ω)) : Std.ExtTreeMap κ μ :=
  cells.foldl (fun row cell => row.insert cell.1 (decode cell.2)) ∅

variable [Std.LawfulEqOrd κ] {decode : ω → μ} {cells : List (κ × ω)}

theorem getElem?_decodeAll (h : (cells.map Prod.fst).Nodup) {k : κ} {x : μ} :
    (decodeAll decode cells)[k]? = some x ↔ ∃ w, (k, w) ∈ cells ∧ decode w = x := by
  have hfold : ∀ (row : Std.ExtTreeMap κ μ),
      (cells.foldl (fun row cell => row.insert cell.1 (decode cell.2)) row)[k]? = some x ↔
        (∃ w, (k, w) ∈ cells ∧ decode w = x) ∨ k ∉ cells.map Prod.fst ∧ row[k]? = some x := by
    induction cells with
    | nil => simp
    | cons cell cells ih =>
      rw [List.map_cons, List.nodup_cons] at h
      intro row
      rw [List.foldl_cons, ih h.2, Std.ExtTreeMap.getElem?_insert]
      by_cases hk : cell.1 = k
      · subst hk
        have hnone : ∀ w, (cell.1, w) ∉ cells := by
          intro w hw
          exact h.1 (List.mem_map.mpr ⟨_, hw, rfl⟩)
        have hself : ∀ w, (cell.1, w) ∈ cell :: cells ↔ w = cell.2 := by
          intro w
          rw [List.mem_cons, or_iff_left (hnone w), Prod.ext_iff, and_iff_right rfl]
        simp [hnone, hself, h.1]
      · have hmem : ∀ w, (k, w) ∈ cell :: cells ↔ (k, w) ∈ cells := by
          intro w
          rw [List.mem_cons, or_iff_right fun heq => hk (congrArg Prod.fst heq).symm]
        simp only [Std.LawfulEqCmp.compare_eq_iff_eq, hk, if_false, hmem, List.map_cons,
          List.mem_cons, Ne.symm hk, false_or]
  rw [decodeAll, hfold ∅]
  simp

variable {code : ν → Option ω} {m : Std.ExtTreeMap κ ν} {ws : List ω}

/-- **The channel keeps a map up to `g` exactly when it keeps every entry up to `g`.** -/
theorem decodeAll_eq_map_iff {g : ν → μ} (hcode : (m.toList.map Prod.snd).mapM code = some ws)
    (hcells : cells.Perm ((m.toList.map Prod.fst).zip ws)) :
    decodeAll decode cells = m.map (fun _ => g) ↔
      ∀ (k : κ) (v : ν) (w : ω), m[k]? = some v → code v = some w → decode w = g v := by
  have hlength : (m.toList.map Prod.fst).length ≤ ws.length := by
    refine Nat.le_of_eq ?_
    rw [length_of_mapM hcode, List.length_map, List.length_map]
  have hkeys : (cells.map Prod.fst).Nodup := by
    rw [(hcells.map Prod.fst).nodup_iff, List.map_fst_zip hlength,
      Std.ExtTreeMap.map_fst_toList_eq_keys]
    exact Std.ExtTreeMap.nodup_keys
  have hmem : ∀ k w, (k, w) ∈ cells ↔ ∃ v, m[k]? = some v ∧ code v = some w := by
    intro k w
    rw [hcells.mem_iff, mem_zip_of_mapM hcode]
    simp only [Std.ExtTreeMap.mem_toList_iff_getElem?_eq_some]
  constructor
  · intro heq k v w hv hw
    have hread : (decodeAll decode cells)[k]? = some (decode w) :=
      (getElem?_decodeAll hkeys).mpr ⟨w, (hmem k w).mpr ⟨v, hv, hw⟩, rfl⟩
    rw [heq, Std.ExtTreeMap.getElem?_map, hv] at hread
    exact (Option.some.inj hread).symm
  · intro h
    apply Std.ExtTreeMap.ext_getElem?
    intro k
    apply Option.ext
    intro x
    rw [getElem?_decodeAll hkeys, Std.ExtTreeMap.getElem?_map, Option.map_eq_some_iff]
    constructor
    · rintro ⟨w, hw, rfl⟩
      obtain ⟨v, hv, hcodev⟩ := (hmem k w).mp hw
      exact ⟨v, hv, (h k v w hv hcodev).symm⟩
    · rintro ⟨v, hv, rfl⟩
      have hvalue : v ∈ m.toList.map Prod.snd := List.mem_map_of_mem
        (Std.ExtTreeMap.mem_toList_iff_getElem?_eq_some.mpr hv)
      obtain ⟨w, hw⟩ := Option.ne_none_iff_exists'.mp (ne_none_of_mapM hcode v hvalue)
      exact ⟨w, (hmem k w).mpr ⟨v, hv, hw⟩, h k v w hv hw⟩

end Decoding

end AimrtComm.Columns
