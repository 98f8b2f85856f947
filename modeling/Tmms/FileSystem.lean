import Mathlib.Logic.Function.Basic
import Mathlib.Data.List.Basic

/-! Files and the names they are under. Opening a name that is free makes an empty file,
renaming takes the place of whatever was under the new name, and a file that is open can be
appended to under any name, or none. -/

structure FileSystem (Path Byte : Type) where
  entry : Path → Option Nat
  content : Nat → List Byte
  files : Nat

namespace FileSystem

variable {Path Byte : Type}

def append (file : Nat) (bytes : List Byte) (fs : FileSystem Path Byte) : FileSystem Path Byte :=
  { fs with content := Function.update fs.content file (fs.content file ++ bytes) }

def Named (fs : FileSystem Path Byte) (file : Nat) : Prop := ∃ path, fs.entry path = some file

def Holds (fs : FileSystem Path Byte) (byte : Byte) (path : Path) : Prop :=
  ∃ file, fs.entry path = some file ∧ byte ∈ fs.content file

/-- A file has one name at most, no byte is in two files, and what is in a file has a name. -/
structure Intact (fs : FileSystem Path Byte) : Prop where
  known : ∀ path file, fs.entry path = some file → file < fs.files
  alone : ∀ path other file, fs.entry path = some file → fs.entry other = some file → path = other
  apart : ∀ file other byte, byte ∈ fs.content file → byte ∈ fs.content other → file = other
  kept : ∀ file byte, byte ∈ fs.content file → fs.Named file

section Contents
variable {fs : FileSystem Path Byte} {path : Path} {file : Nat}

theorem Intact.holds_unique (intact : fs.Intact) {byte : Byte} {other : Path}
    (first : fs.Holds byte path) (second : fs.Holds byte other) : path = other := by
  obtain ⟨i,named,among⟩ := first
  obtain ⟨j,also,inside⟩ := second
  have same := intact.apart i j byte among inside
  rw [← same] at also
  exact intact.alone path other i named also

theorem Intact.content_new (intact : fs.Intact) : fs.content fs.files = [] := by
  rw [List.eq_nil_iff_forall_not_mem]
  intro byte among
  obtain ⟨name,entry⟩ := intact.kept fs.files byte among
  exact Nat.lt_irrefl _ (intact.known name fs.files entry)

theorem append_content (file : Nat) (bytes : List Byte) (i : Nat) (byte : Byte) :
    byte ∈ (fs.append file bytes).content i ↔ byte ∈ fs.content i ∨ i = file ∧ byte ∈ bytes := by
  by_cases same : i = file
  · subst same
    simp [append]
  · simp [append,same]

/-- Bytes never seen before may be written to a file that has a name. -/
theorem Intact.append (intact : fs.Intact) (named : fs.Named file) (bytes : List Byte)
    (fresh : ∀ byte ∈ bytes, ∀ i, byte ∉ fs.content i) : (fs.append file bytes).Intact := by
  constructor
  · exact intact.known
  · exact intact.alone
  · intro i j byte first second
    rcases (append_content file bytes i byte).mp first with before | ⟨rfl,among⟩
    · rcases (append_content file bytes j byte).mp second with also | ⟨_,among⟩
      · exact intact.apart i j byte before also
      · exact absurd before (fresh byte among i)
    · rcases (append_content _ bytes j byte).mp second with also | ⟨rfl,_⟩
      · exact absurd also (fresh byte among j)
      · rfl
  · intro i byte among
    rcases (append_content file bytes i byte).mp among with before | ⟨rfl,_⟩
    · exact intact.kept i byte before
    · exact named

end Contents

section Names
variable [DecidableEq Path]

/-- The file under `path`, made if there is none, and what the directory is then. -/
def openAppend (path : Path) (fs : FileSystem Path Byte) : Nat × FileSystem Path Byte :=
  match fs.entry path with
  | some file => (file,fs)
  | none => (fs.files,
    { fs with
      entry := Function.update fs.entry path (some fs.files),
      content := Function.update fs.content fs.files [],
      files := fs.files + 1 })

/-- `none` if there is nothing under `old`. Two names of one file are left as they are. -/
def rename (old new : Path) (fs : FileSystem Path Byte) : Option (FileSystem Path Byte) :=
  match fs.entry old with
  | none => none
  | some file =>
    if fs.entry new = some file then some fs
    else some { fs with
      entry := Function.update (Function.update fs.entry old none) new (some file) }

variable {fs after : FileSystem Path Byte} {path old new : Path} {file : Nat}

theorem openAppend_entry (path : Path) (fs : FileSystem Path Byte) :
    (fs.openAppend path).2.entry path = some (fs.openAppend path).1 := by
  unfold openAppend
  split
  · next found => exact found
  · simp

theorem openAppend_named (named : fs.Named file) : (fs.openAppend path).2.Named file := by
  obtain ⟨name,entry⟩ := named
  refine ⟨name,?_⟩
  unfold openAppend
  split
  · exact entry
  · next free =>
    have other : name ≠ path := by
      rintro rfl
      rw [free] at entry
      cases entry
    simp only [Function.update_of_ne other]
    exact entry

/-- Opening changes no content. -/
theorem Intact.openAppend_content (intact : fs.Intact) : (fs.openAppend path).2.content = fs.content := by
  unfold openAppend
  split
  · rfl
  · funext i
    by_cases fresh : i = fs.files
    · subst fresh
      simp [intact.content_new]
    · simp [fresh]

theorem Intact.openAppend (intact : fs.Intact) : (fs.openAppend path).2.Intact := by
  have content : (fs.openAppend path).2.content = fs.content := intact.openAppend_content
  have entries : ∀ name i, (fs.openAppend path).2.entry name = some i →
      fs.entry name = some i ∨ name = path ∧ i = fs.files ∧ (fs.openAppend path).2.files = fs.files + 1 := by
    intro name i
    unfold FileSystem.openAppend
    split
    · exact Or.inl
    · intro entry
      by_cases same : name = path
      · subst same
        right
        simpa [eq_comm] using entry
      · left
        simpa [Function.update_of_ne same] using entry
  have grows : fs.files ≤ (fs.openAppend path).2.files := by
    unfold FileSystem.openAppend
    split
    · exact Nat.le_refl _
    · exact Nat.le_succ _
  constructor
  · intro name i entry
    rcases entries name i entry with before | ⟨_,rfl,more⟩
    · exact Nat.lt_of_lt_of_le (intact.known name i before) grows
    · rw [more]
      exact Nat.lt_succ_self _
  · intro name other i first second
    rcases entries name i first with before | ⟨rfl,rfl,_⟩
    · rcases entries other i second with also | ⟨rfl,rfl,_⟩
      · exact intact.alone name other i before also
      · exact absurd (intact.known name _ before) (Nat.lt_irrefl _)
    · rcases entries other _ second with also | ⟨rfl,_⟩
      · exact absurd (intact.known other _ also) (Nat.lt_irrefl _)
      · rfl
  · rw [content]
    exact intact.apart
  · rw [content]
    exact fun i byte among => openAppend_named (intact.kept i byte among)

/-- What is under a name after a renaming. -/
theorem rename_entry (renamed : fs.rename old new = some after) (differ : fs.entry new ≠ fs.entry old)
    (path : Path) :
    after.entry path = if path = new then fs.entry old else if path = old then none else fs.entry path := by
  unfold rename at renamed
  split at renamed
  · cases renamed
  · next file found =>
    rw [found] at differ
    rw [if_neg differ] at renamed
    cases renamed
    by_cases target : path = new
    · simp [target,found]
    · by_cases source : path = old
      · subst source
        simp [target]
      · simp [target,source]

theorem rename_none_iff : fs.rename old new = none ↔ fs.entry old = none := by
  unfold rename
  split
  · next absent => simp [absent]
  · next file found =>
    rw [found]
    split <;> simp

theorem rename_same (renamed : fs.rename old new = some after) :
    after.content = fs.content ∧ after.files = fs.files := by
  unfold rename at renamed
  split at renamed
  · cases renamed
  · split at renamed
    · cases renamed
      exact ⟨rfl,rfl⟩
    · cases renamed
      exact ⟨rfl,rfl⟩

theorem rename_alias (renamed : fs.rename old new = some after) (same : fs.entry new = fs.entry old) :
    after = fs := by
  unfold rename at renamed
  split at renamed
  · cases renamed
  · next file found =>
    rw [if_pos (same.trans found)] at renamed
    cases renamed
    rfl

/-- A file keeps its name or gets the new one, unless it was the one under the new name. -/
theorem rename_named (renamed : fs.rename old new = some after) (named : fs.Named file)
    (spared : fs.entry new ≠ some file) : after.Named file := by
  by_cases differ : fs.entry new = fs.entry old
  · rw [rename_alias renamed differ]
    exact named
  · obtain ⟨name,entry⟩ := named
    by_cases source : name = old
    · subst source
      exact ⟨new,by rw [rename_entry renamed differ,if_pos rfl,entry]⟩
    · have other : name ≠ new := by
        rintro rfl
        exact spared entry
      exact ⟨name,by rw [rename_entry renamed differ,if_neg other,if_neg source,entry]⟩

/-- Renaming loses nothing if there is nothing in the file under the new name. -/
theorem Intact.rename (intact : fs.Intact) (renamed : fs.rename old new = some after)
    (clear : ∀ file, fs.entry new = some file → fs.content file = []) : after.Intact := by
  by_cases differ : fs.entry new = fs.entry old
  · rw [rename_alias renamed differ]
    exact intact
  · obtain ⟨content,files⟩ := rename_same renamed
    have from_ : ∀ path i, after.entry path = some i →
        path = new ∧ fs.entry old = some i ∨ path ≠ new ∧ path ≠ old ∧ fs.entry path = some i := by
      intro path i entry
      rw [rename_entry renamed differ] at entry
      split at entry
      · next target => exact Or.inl ⟨target,entry⟩
      · next target =>
        split at entry
        · cases entry
        · next source => exact Or.inr ⟨target,source,entry⟩
    constructor
    · intro path i entry
      rw [files]
      rcases from_ path i entry with ⟨_,before⟩ | ⟨_,_,before⟩
      · exact intact.known _ i before
      · exact intact.known _ i before
    · intro path other i first second
      rcases from_ path i first with ⟨rfl,before⟩ | ⟨_,source,before⟩
      · rcases from_ other i second with ⟨rfl,_⟩ | ⟨_,source,also⟩
        · rfl
        · exact absurd (intact.alone _ _ i also before) source
      · rcases from_ other i second with ⟨_,also⟩ | ⟨_,_,also⟩
        · exact absurd (intact.alone _ _ i before also) source
        · exact intact.alone _ _ i before also
    · rw [content]
      exact intact.apart
    · rw [content]
      intro i byte among
      apply rename_named renamed (intact.kept i byte among)
      intro target
      rw [clear i target] at among
      cases among

end Names
end FileSystem
