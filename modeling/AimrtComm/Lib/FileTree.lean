import Mathlib.Data.List.Basic
import Mathlib.Data.List.Induction
import Mathlib.Data.List.Nodup
import Mathlib.Data.List.Perm.Basic

/-!
# File trees

A file tree is the list of its entries, each under its path from the top, in the order in which a
recursive iteration visits them.  A path names one entry, and the path above an entry is a
directory (`nodup`, `closed`); what hangs below an entry therefore hangs below a directory
(`directory_of_prefix`), and a file has nothing below it (`eq_of_prefix_of_file`).

The operations are those of `std::filesystem`, with the errors that they throw on a tree that
nobody else touches: iterating over something that is not a directory, and removing a directory that
is not empty.
-/

namespace AimrtComm

/-- The names from the top of the tree down to an entry. -/
abbrev Path := List String

/-- What a path leads to; `α` is what a regular file carries. -/
inductive Entry (α : Type*) where
  | directory
  | file (data : α)
  | other
deriving DecidableEq, Repr

/-- What makes an operation on the tree throw. -/
inductive FsError where
  | notDirectory (path : Path)
  | notEmpty (path : Path)
deriving DecidableEq, Repr

/-- A tree of directories and files. -/
structure FileTree (α : Type*) where
  entries : List (Path × Entry α)
  nodup : (entries.map Prod.fst).Nodup
  closed : ∀ p n e, (p ++ [n], e) ∈ entries → (p, Entry.directory) ∈ entries

namespace FileTree

variable {α : Type*}

/-- The tree of a list of entries: that it is one can be decided. -/
def ofEntries (entries : List (Path × Entry α)) (nodup : (entries.map Prod.fst).Nodup)
    (closed : ∀ x ∈ entries, x.1 = [] ∨ (x.1.dropLast, Entry.directory) ∈ entries) :
    FileTree α where
  entries := entries
  nodup := nodup
  closed p n e h := by
    rcases closed _ h with hnil | hdir
    · exact absurd hnil (List.append_ne_nil_of_right_ne_nil p (List.cons_ne_nil n []))
    · rwa [List.dropLast_concat] at hdir

/-! ### Queries -/

/-- `exists(path)`. -/
def has (t : FileTree α) (p : Path) : Bool := t.entries.any fun x => x.1 == p

/-- The regular file at a path. -/
def file? (t : FileTree α) (p : Path) : Option α :=
  t.entries.findSome? fun
    | (q, .file data) => if q = p then some data else none
    | _ => none

/-- `is_directory(path)`. -/
def isDirectory (t : FileTree α) (p : Path) : Bool :=
  t.entries.any fun
    | (q, .directory) => q == p
    | _ => false

/-- The entries below a path, at any depth. -/
def below (t : FileTree α) (d : Path) : List (Path × Entry α) :=
  t.entries.filter fun x => d <+: x.1 ∧ x.1 ≠ d

/-- The entries right below a path. -/
def children (t : FileTree α) (d : Path) : List (Path × Entry α) :=
  (t.below d).filter fun x => x.1.dropLast = d

/-- `directory_iterator(path)`. -/
def directoryIterator (t : FileTree α) (d : Path) : Except FsError (List (Path × Entry α)) :=
  if t.isDirectory d then .ok (t.children d) else .error (.notDirectory d)

/-- `recursive_directory_iterator(path)`. -/
def recursiveDirectoryIterator (t : FileTree α) (d : Path) :
    Except FsError (List (Path × Entry α)) :=
  if t.isDirectory d then .ok (t.below d) else .error (.notDirectory d)

/-! ### Paths -/

theorem has_iff {t : FileTree α} {p : Path} : t.has p ↔ ∃ e, (p, e) ∈ t.entries := by
  unfold has
  rw [List.any_eq_true]
  constructor
  · rintro ⟨⟨q, e⟩, hx, hq⟩
    rw [beq_iff_eq] at hq
    exact ⟨e, hq ▸ hx⟩
  · rintro ⟨e, he⟩
    exact ⟨(p, e), he, beq_self_eq_true p⟩

theorem isDirectory_iff {t : FileTree α} {p : Path} :
    t.isDirectory p ↔ (p, Entry.directory) ∈ t.entries := by
  unfold isDirectory
  rw [List.any_eq_true]
  constructor
  · rintro ⟨⟨q, _ | data | _⟩, hx, hq⟩
    · rw [beq_iff_eq] at hq
      exact hq ▸ hx
    · exact absurd hq (by simp)
    · exact absurd hq (by simp)
  · intro h
    exact ⟨(p, .directory), h, beq_self_eq_true p⟩

theorem mem_below {t : FileTree α} {d : Path} {x : Path × Entry α} :
    x ∈ t.below d ↔ x ∈ t.entries ∧ d <+: x.1 ∧ x.1 ≠ d := by
  unfold below
  rw [List.mem_filter, decide_eq_true_iff]

/-- A path names one entry. -/
theorem entry_unique (t : FileTree α) {p : Path} {e e' : Entry α} (h : (p, e) ∈ t.entries)
    (h' : (p, e') ∈ t.entries) : e = e' :=
  congrArg Prod.snd (List.inj_on_of_nodup_map t.nodup h h' rfl)

/-- A path leads to the regular file that is there. -/
theorem file?_eq_some_iff {t : FileTree α} {p : Path} {data : α} :
    t.file? p = some data ↔ (p, Entry.file data) ∈ t.entries := by
  constructor
  · intro h
    obtain ⟨⟨q, _ | found | _⟩, hx, hq⟩ := List.exists_of_findSome?_eq_some h
    · cases hq
    · dsimp only at hq
      split_ifs at hq with heq
      obtain rfl := Option.some.inj hq
      exact heq ▸ hx
    · cases hq
  · intro h
    have hsome : (t.file? p).isSome := by
      unfold file?
      rw [List.findSome?_isSome_iff]
      exact ⟨_, h, by simp⟩
    obtain ⟨found, hfound⟩ := Option.isSome_iff_exists.1 hsome
    rw [hfound]
    obtain ⟨⟨q, _ | other | _⟩, hx, hq⟩ := List.exists_of_findSome?_eq_some hfound
    · cases hq
    · dsimp only at hq
      split_ifs at hq with heq
      obtain rfl := Option.some.inj hq
      obtain rfl := heq
      exact congrArg some (Entry.file.inj (t.entry_unique hx h))
    · cases hq

/-- What is above an entry is a directory. -/
theorem directory_of_prefix (t : FileTree α) {p q : Path} {e : Entry α} (hq : (q, e) ∈ t.entries)
    (hpq : p <+: q) (hne : p ≠ q) : (p, Entry.directory) ∈ t.entries := by
  rcases hpq with ⟨s, rfl⟩
  -- from the entry upwards, one name at a time
  induction s using List.reverseRecOn generalizing e with
  | nil => exact absurd (List.append_nil p).symm hne
  | append_singleton s n ih =>
    rw [← List.append_assoc] at hq
    have hdir := t.closed _ _ _ hq
    rcases eq_or_ne s [] with rfl | hs
    · rwa [List.append_nil] at hdir
    · refine ih hdir fun h => hs ?_
      exact List.append_cancel_left ((List.append_nil p).trans h).symm

/-- Nothing is below a file. -/
theorem eq_of_prefix_of_file (t : FileTree α) {p q : Path} {data : α} {e : Entry α}
    (hp : (p, Entry.file data) ∈ t.entries) (hq : (q, e) ∈ t.entries) (hpq : p <+: q) : q = p := by
  by_contra hne
  have hdir := t.directory_of_prefix hq hpq (Ne.symm hne)
  exact nomatch t.entry_unique hp hdir

theorem prefix_dropLast {d q : Path} (h : d <+: q) (hne : q ≠ d) : d <+: q.dropLast := by
  rcases h with ⟨s, rfl⟩
  have hs : s ≠ [] := by
    rintro rfl
    exact hne (List.append_nil d)
  rw [List.dropLast_append_of_ne_nil hs]
  exact List.prefix_append d _

/-- What is below something is not the path above itself. -/
theorem dropLast_ne_self {d q : Path} (h : d <+: q) (hne : q ≠ d) : q.dropLast ≠ q := by
  intro heq
  have hlength := congrArg List.length heq
  rw [List.length_dropLast] at hlength
  -- only the top is above itself, and nothing else is above it
  obtain rfl : q = [] := List.length_eq_zero_iff.1 (by omega)
  exact hne (List.prefix_nil.1 h).symm

/-! ### Removal -/

/-- `remove_all(path)`. -/
def removeAll (t : FileTree α) (p : Path) : FileTree α where
  entries := t.entries.filter fun x => ¬ p <+: x.1
  nodup := t.nodup.sublist (List.filter_sublist.map _)
  closed q n e h := by
    rw [List.mem_filter, decide_eq_true_iff] at h ⊢
    exact ⟨t.closed q n e h.1, fun hpq => h.2 (hpq.trans (List.prefix_append q [n]))⟩

/-- `remove(path)`: a file or an empty directory. -/
def remove (t : FileTree α) (p : Path) : Except FsError (FileTree α) :=
  if t.below p = [] then .ok (t.removeAll p) else .error (.notEmpty p)

theorem mem_removeAll {t : FileTree α} {p : Path} {x : Path × Entry α} :
    x ∈ (t.removeAll p).entries ↔ x ∈ t.entries ∧ ¬ p <+: x.1 := by
  unfold removeAll
  rw [List.mem_filter, decide_eq_true_iff]

/-- Removing a file never throws. -/
theorem remove_of_file (t : FileTree α) {p : Path} {data : α}
    (hp : (p, Entry.file data) ∈ t.entries) : t.remove p = .ok (t.removeAll p) := by
  unfold remove
  refine if_pos (List.eq_nil_iff_forall_not_mem.2 fun x hx => ?_)
  obtain ⟨hx, hpx, hne⟩ := mem_below.1 hx
  exact hne (t.eq_of_prefix_of_file hp hx hpx)

/-- Removing a file leaves every other entry alone. -/
theorem mem_removeAll_file {t : FileTree α} {p : Path} {data : α}
    (hp : (p, Entry.file data) ∈ t.entries) {x : Path × Entry α} :
    x ∈ (t.removeAll p).entries ↔ x ∈ t.entries ∧ x.1 ≠ p := by
  rw [mem_removeAll]
  refine and_congr_right fun hx => not_congr ⟨fun hpx => t.eq_of_prefix_of_file hp hx hpx, ?_⟩
  rintro rfl
  exact List.prefix_rfl

theorem has_removeAll {t : FileTree α} {p q : Path} :
    (t.removeAll p).has q ↔ t.has q ∧ ¬ p <+: q := by
  rw [has_iff, has_iff]
  simp only [mem_removeAll, exists_and_right]

/-- A removal leaves the files alone that are not below it. -/
theorem file?_removeAll {t : FileTree α} {p q : Path} (h : ¬ p <+: q) :
    (t.removeAll p).file? q = t.file? q := by
  apply Option.ext
  intro data
  rw [file?_eq_some_iff, file?_eq_some_iff, mem_removeAll]
  exact and_iff_left h

/-- What is below a directory after a removal. -/
theorem below_removeAll (t : FileTree α) (p d : Path) :
    (t.removeAll p).below d = (t.below d).filter fun x => ¬ p <+: x.1 := by
  unfold below removeAll
  exact List.filter_comm _ _ _

/-! ### Writing -/

/-- What writing into the regular file at a path leaves of an entry. -/
def writeEntry (p : Path) (data : α) : Path × Entry α → Path × Entry α
  | (q, .file old) => (q, .file (if q = p then data else old))
  | x => x

@[simp]
theorem writeEntry_fst (p : Path) (data : α) (x : Path × Entry α) :
    (writeEntry p data x).1 = x.1 := by
  rcases x with ⟨q, _ | old | _⟩ <;> rfl

theorem writeEntry_of_ne {p : Path} {data : α} {x : Path × Entry α} (h : x.1 ≠ p) :
    writeEntry p data x = x := by
  rcases x with ⟨q, _ | old | _⟩
  · rfl
  · exact congrArg (fun y => (q, Entry.file y)) (if_neg h)
  · rfl

theorem writeEntry_eq_directory {p q : Path} {data : α} {x : Path × Entry α} :
    writeEntry p data x = (q, Entry.directory) ↔ x = (q, Entry.directory) := by
  rcases x with ⟨r, _ | old | _⟩ <;> simp [writeEntry]

/-- Writing into the regular file at a path: nothing happens when there is none. -/
def write (t : FileTree α) (p : Path) (data : α) : FileTree α where
  entries := t.entries.map (writeEntry p data)
  nodup := by
    rw [List.map_map, show Prod.fst ∘ writeEntry p data = Prod.fst from
      funext (writeEntry_fst p data)]
    exact t.nodup
  closed q n e h := by
    obtain ⟨⟨r, e'⟩, hx, hr⟩ := List.mem_map.1 h
    have hrq : r = q ++ [n] := (writeEntry_fst p data (r, e')).symm.trans (congrArg Prod.fst hr)
    exact List.mem_map.2 ⟨_, t.closed q n e' (hrq ▸ hx), writeEntry_eq_directory.2 rfl⟩

theorem has_write {t : FileTree α} {p q : Path} {data : α} :
    (t.write p data).has q ↔ t.has q := by
  unfold has write
  rw [List.any_map]
  show (t.entries.any fun x => (writeEntry p data x).1 == q) = true ↔ _
  simp only [writeEntry_fst]

/-- What was written is found. -/
theorem file?_write_self {t : FileTree α} {p : Path} {old : α} (h : t.file? p = some old)
    (data : α) : (t.write p data).file? p = some data := by
  refine file?_eq_some_iff.2 (List.mem_map.2 ⟨_, file?_eq_some_iff.1 h, ?_⟩)
  exact congrArg (fun x => (p, Entry.file x)) (if_pos rfl)

theorem file?_write_of_ne {t : FileTree α} {p q : Path} (h : q ≠ p) (data : α) :
    (t.write p data).file? q = t.file? q := by
  apply Option.ext
  intro found
  rw [file?_eq_some_iff, file?_eq_some_iff]
  constructor
  · intro hmem
    obtain ⟨x, hx, heq⟩ := List.mem_map.1 hmem
    have hne : x.1 ≠ p := by
      rw [← writeEntry_fst p data x, heq]
      exact h
    rw [writeEntry_of_ne hne] at heq
    exact heq ▸ hx
  · intro hmem
    exact List.mem_map.2 ⟨_, hmem, writeEntry_of_ne h⟩

/-- What is below a directory after a write. -/
theorem below_write (t : FileTree α) (p d : Path) (data : α) :
    (t.write p data).below d = (t.below d).map (writeEntry p data) := by
  unfold below write
  rw [List.filter_map]
  congr 1
  refine List.filter_congr fun x _ => ?_
  simp only [Function.comp_apply, writeEntry_fst]

/-- Writing keeps the directories. -/
theorem directory_mem_write {t : FileTree α} {p q : Path} {data : α} :
    (q, Entry.directory) ∈ (t.write p data).entries ↔ (q, Entry.directory) ∈ t.entries := by
  constructor
  · intro h
    obtain ⟨x, hx, hq⟩ := List.mem_map.1 h
    exact writeEntry_eq_directory.1 hq ▸ hx
  · intro h
    exact List.mem_map.2 ⟨_, h, writeEntry_eq_directory.2 rfl⟩

end FileTree

end AimrtComm
