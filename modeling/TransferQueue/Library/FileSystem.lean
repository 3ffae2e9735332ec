import Mathlib.Data.Nat.Basic
import Mathlib.Logic.Function.Basic

/-! A directory of names for inodes. An open file is its inode: it outlives the
name, and a file created anew under an old name keeps the inode only if the name
is still there. -/

/-- `origin` is the name an inode was created under; nothing is renamed or linked twice. -/
structure FileSystem (ν β : Type*) where
  directory : ν → Option ℕ
  contents : ℕ → List β
  origin : ℕ → Option ν
  inodes : ℕ
  linked : ∀ {name : ν} {i : ℕ}, directory name = some i → i < inodes ∧ origin i = some name

namespace FileSystem

variable {ν β : Type*}

def empty : FileSystem ν β where
  directory _ := none
  contents _ := []
  origin _ := none
  inodes := 0
  linked h := nomatch h

def read (fs : FileSystem ν β) (name : ν) : Option (List β) := (fs.directory name).map fs.contents

def write (fs : FileSystem ν β) (i : ℕ) (buffer : List β) : FileSystem ν β :=
  { fs with
    contents := Function.update fs.contents i (buffer ++ (fs.contents i).drop buffer.length) }

variable {fs : FileSystem ν β} {name other : ν} {i j : ℕ}

theorem directory_inj (h : fs.directory name = some i) (h' : fs.directory other = some i) :
    name = other :=
  Option.some.inj ((fs.linked h).2.symm.trans (fs.linked h').2)

theorem read_of_directory (h : fs.directory name = some i) :
    fs.read name = some (fs.contents i) := by
  rw [read, h]
  rfl

@[simp] theorem directory_write (buffer : List β) :
    (fs.write i buffer).directory = fs.directory := rfl

theorem contents_write_self (buffer : List β) :
    (fs.write i buffer).contents i = buffer ++ (fs.contents i).drop buffer.length :=
  Function.update_self ..

theorem contents_write_of_ne (buffer : List β) (h : j ≠ i) :
    (fs.write i buffer).contents j = fs.contents j := Function.update_of_ne h ..

@[simp] theorem write_nil : fs.write i [] = fs := by
  rw [write, List.nil_append, List.length_nil, List.drop_zero, Function.update_eq_self]

theorem contents_write_empty (buffer : List β) (h : fs.contents i = []) :
    (fs.write i buffer).contents i = buffer := by
  rw [contents_write_self, h, List.drop_nil, List.append_nil]

section Names
variable [DecidableEq ν]

/-- Open with `create` and `truncate`. -/
def openCreate (fs : FileSystem ν β) (name : ν) : ℕ × FileSystem ν β :=
  match fs.directory name with
  | some i => (i, { fs with contents := Function.update fs.contents i [] })
  | none =>
    (fs.inodes, {
      directory := Function.update fs.directory name (some fs.inodes)
      contents := Function.update fs.contents fs.inodes []
      origin := Function.update fs.origin fs.inodes (some name)
      inodes := fs.inodes + 1
      linked := by
        intro other i h
        rcases eq_or_ne other name with rfl | hne
        · rw [Function.update_self] at h
          cases h
          exact ⟨Nat.lt_succ_self _, Function.update_self ..⟩
        · rw [Function.update_of_ne hne] at h
          obtain ⟨hlt, horigin⟩ := fs.linked h
          refine ⟨Nat.lt_succ_of_lt hlt, ?_⟩
          rw [Function.update_of_ne (Nat.ne_of_lt hlt), horigin] })

/-- The name goes; files opened under it stay. -/
def unlink (fs : FileSystem ν β) (name : ν) : FileSystem ν β where
  directory := Function.update fs.directory name none
  contents := fs.contents
  origin := fs.origin
  inodes := fs.inodes
  linked := by
    intro other i h
    rcases eq_or_ne other name with rfl | hne
    · rw [Function.update_self] at h
      nomatch h
    · rw [Function.update_of_ne hne] at h
      exact fs.linked h

/-- What an open for writing does: an empty file stands under the name, made of an
inode of that name or of a new one. -/
theorem openCreate_cases (fs : FileSystem ν β) (name : ν) :
    ∃ i fs', fs.openCreate name = (i, fs') ∧ fs'.directory name = some i ∧
      (∀ other, other ≠ name → fs'.directory other = fs.directory other) ∧
      fs'.contents i = [] ∧ (∀ j, j ≠ i → fs'.contents j = fs.contents j) ∧
      fs'.origin i = some name ∧
      (fs.directory name = some i ∧ fs'.origin = fs.origin ∧ fs'.inodes = fs.inodes ∨
        i = fs.inodes ∧ (∀ j, j ≠ i → fs'.origin j = fs.origin j) ∧
          fs'.inodes = fs.inodes + 1) := by
  cases hd : fs.directory name with
  | some i =>
    refine ⟨i, { fs with contents := Function.update fs.contents i [] }, ?_, hd, fun _ _ => rfl,
      Function.update_self .., fun j hj => Function.update_of_ne hj .., (fs.linked hd).2,
      .inl ⟨rfl, rfl, rfl⟩⟩
    rw [openCreate, hd]
  | none =>
    refine ⟨fs.inodes, (fs.openCreate name).2, ?_, ?_⟩
    · rw [openCreate, hd]
    · rw [openCreate, hd]
      exact ⟨Function.update_self .., fun other hne => Function.update_of_ne hne ..,
        Function.update_self .., fun j hj => Function.update_of_ne hj ..,
        Function.update_self .., .inr ⟨rfl, fun j hj => Function.update_of_ne hj .., rfl⟩⟩

/-- The directory after a file was opened for writing and written. -/
theorem read_write_openCreate (buffer : List β) :
    ((fs.openCreate name).2.write (fs.openCreate name).1 buffer).read other =
      if other = name then some buffer else fs.read other := by
  obtain ⟨i, fs', hopen, hdir, hother, hempty, hcontents, -⟩ := fs.openCreate_cases name
  rw [hopen]
  by_cases h : other = name
  · have hlinked : (fs'.write i buffer).directory other = some i := h ▸ hdir
    rw [if_pos h, read_of_directory hlinked, contents_write_empty buffer hempty]
  · rw [if_neg h, read, read, directory_write, hother other h]
    cases hd : fs.directory other with
    | none => rfl
    | some j =>
      have hne : j ≠ i := by
        rintro rfl
        exact h (directory_inj ((hother other h).trans hd) hdir)
      rw [Option.map_some, Option.map_some, contents_write_of_ne _ hne, hcontents j hne]

theorem read_openCreate : (fs.openCreate name).2.read other =
    if other = name then some [] else fs.read other := by
  rw [← read_write_openCreate, write_nil]

theorem directory_unlink_self : (fs.unlink name).directory name = none := Function.update_self ..

theorem directory_unlink_of_ne (h : other ≠ name) :
    (fs.unlink name).directory other = fs.directory other := Function.update_of_ne h ..

end Names

end FileSystem
