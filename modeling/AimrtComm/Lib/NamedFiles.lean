import Mathlib.Data.List.Basic
import Mathlib.Logic.Function.Basic
import Mathlib.Tactic.ByContra

/-!
# Files and their names

A directory gives names to files; whoever has opened a file keeps it when its name is gone.  No file
has two names, and the numbers of files are not used again.  `Holds disk name file text` says what
is found under a name, and each operation has one lemma for the name that it is about and one for
the others.
-/

namespace AimrtComm

/-- The files of a directory. -/
structure Disk (ν α : Type*) where
  names : ν → Option ℕ
  contents : ℕ → List α
  /-- The number of the next new file. -/
  next : ℕ
  bounded : ∀ name file, names name = some file → file < next
  injective : ∀ name name' file, names name = some file → names name' = some file → name = name'

namespace Disk

open Function

variable {ν α : Type*}

/-- What is read under a name. -/
def read (disk : Disk ν α) (name : ν) : Option (List α) := (disk.names name).map disk.contents

/-- The file that `openTruncated` opens. -/
def opened (disk : Disk ν α) (name : ν) : ℕ := (disk.names name).getD disk.next

/-- A text with data written into it at an offset; a gap is filled. -/
def overwrite [Inhabited α] (text : List α) (offset : ℕ) (data : List α) : List α :=
  text.take offset ++ List.replicate (offset - text.length) default ++ data ++
    text.drop (offset + data.length)

/-- Write into a file at an offset. -/
def write [Inhabited α] (disk : Disk ν α) (file offset : ℕ) (data : List α) : Disk ν α :=
  { disk with contents := update disk.contents file (overwrite (disk.contents file) offset data) }

section Names

variable [DecidableEq ν]

/-- Open a file to write it from the start: it is created, or what it had is lost.  The next number
is passed over in either case. -/
def openTruncated (disk : Disk ν α) (name : ν) : Disk ν α where
  names := update disk.names name (some (disk.opened name))
  contents := update disk.contents (disk.opened name) []
  next := disk.next + 1
  bounded := by
    intro other file hfile
    by_cases hname : other = name
    · subst hname
      rw [update_self] at hfile
      obtain rfl := Option.some.inj hfile
      unfold opened
      cases hold : disk.names other with
      | none => simp
      | some file =>
        have hlt := disk.bounded other file hold
        simp only [Option.getD_some]
        omega
    · rw [update_of_ne hname] at hfile
      have hlt := disk.bounded other file hfile
      omega
  injective := by
    -- the opened file is new or has had this name before
    have hnew : ∀ other, other ≠ name → disk.names other ≠ some (disk.opened name) := by
      intro other hname hother
      unfold opened at hother
      cases hold : disk.names name with
      | none =>
        rw [hold] at hother
        exact absurd (disk.bounded other _ hother) (Nat.lt_irrefl _)
      | some file =>
        rw [hold] at hother
        exact hname (disk.injective other name file hother hold)
    intro first second file hfirst hsecond
    by_cases h₁ : first = name
    · by_cases h₂ : second = name
      · rw [h₁, h₂]
      · subst h₁
        rw [update_self] at hfirst
        rw [update_of_ne h₂, ← hfirst] at hsecond
        exact absurd hsecond (hnew second h₂)
    · by_cases h₂ : second = name
      · subst h₂
        rw [update_self] at hsecond
        rw [update_of_ne h₁, ← hsecond] at hfirst
        exact absurd hfirst (hnew first h₁)
      · rw [update_of_ne h₁] at hfirst
        rw [update_of_ne h₂] at hsecond
        exact disk.injective first second file hfirst hsecond

/-- Remove a name. -/
def unlink (disk : Disk ν α) (name : ν) : Disk ν α where
  names := update disk.names name none
  contents := disk.contents
  next := disk.next
  bounded := by
    intro other file hfile
    by_cases hname : other = name
    · subst hname
      rw [update_self] at hfile
      cases hfile
    · rw [update_of_ne hname] at hfile
      exact disk.bounded other file hfile
  injective := by
    intro first second file hfirst hsecond
    by_cases h₁ : first = name
    · subst h₁
      rw [update_self] at hfirst
      cases hfirst
    · by_cases h₂ : second = name
      · subst h₂
        rw [update_self] at hsecond
        cases hsecond
      · rw [update_of_ne h₁] at hfirst
        rw [update_of_ne h₂] at hsecond
        exact disk.injective first second file hfirst hsecond

end Names

/-! ### What is found under a name -/

/-- Under the name there is this file, with this text. -/
structure Holds (disk : Disk ν α) (name : ν) (file : ℕ) (text : List α) : Prop where
  names_eq : disk.names name = some file
  contents_eq : disk.contents file = text

variable {disk : Disk ν α} {name other : ν} {file : ℕ} {text data : List α}

theorem Holds.read_eq (h : disk.Holds name file text) : disk.read name = some text := by
  rw [read, h.names_eq, Option.map_some, h.contents_eq]

/-- Writing goes on where the text ends. -/
theorem Holds.write_self [Inhabited α] (h : disk.Holds name file text) {offset : ℕ}
    (hoffset : offset = text.length) (data : List α) :
    (disk.write file offset data).Holds name file (text ++ data) := by
  refine ⟨h.names_eq, (update_self ..).trans ?_⟩
  rw [h.contents_eq, hoffset]
  unfold overwrite
  simp

/-- Writing into the file of another name changes nothing. -/
theorem Holds.write_other [Inhabited α] (h : disk.Holds other file text) {file' : ℕ}
    (hfile : disk.names name = some file') (hname : other ≠ name) (offset : ℕ) (data : List α) :
    (disk.write file' offset data).Holds other file text := by
  have hne : file ≠ file' := by
    rintro rfl
    exact hname (disk.injective other name file h.names_eq hfile)
  exact ⟨h.names_eq, (update_of_ne hne ..).trans h.contents_eq⟩

variable [DecidableEq ν]

theorem holds_openTruncated (disk : Disk ν α) (name : ν) :
    (disk.openTruncated name).Holds name (disk.opened name) [] :=
  ⟨update_self .., update_self ..⟩

/-- Opening another name changes nothing. -/
theorem Holds.openTruncated (h : disk.Holds other file text) (hname : other ≠ name) :
    (disk.openTruncated name).Holds other file text := by
  have hfile : file ≠ disk.opened name := by
    rintro rfl
    have hself := (holds_openTruncated disk name).names_eq
    have hother : (disk.openTruncated name).names other = some (disk.opened name) :=
      (update_of_ne hname ..).trans h.names_eq
    exact hname ((disk.openTruncated name).injective other name _ hother hself)
  exact ⟨(update_of_ne hname ..).trans h.names_eq, (update_of_ne hfile ..).trans h.contents_eq⟩

/-- Removing another name changes nothing. -/
theorem Holds.unlink (h : disk.Holds other file text) (hname : other ≠ name) :
    (disk.unlink name).Holds other file text :=
  ⟨(update_of_ne hname ..).trans h.names_eq, h.contents_eq⟩

theorem read_openTruncated (disk : Disk ν α) (name : ν) :
    (disk.openTruncated name).read name = some [] :=
  (holds_openTruncated disk name).read_eq

theorem read_unlink (disk : Disk ν α) (name : ν) : (disk.unlink name).read name = none := by
  unfold read
  rw [show (disk.unlink name).names name = none from update_self ..]
  rfl

end Disk

end AimrtComm
