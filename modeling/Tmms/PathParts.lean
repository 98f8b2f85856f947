import Mathlib.Data.List.Induction
import Tmms.StringUtils

/-! Whether a path can be put together again from its parts. A path that ends with a separator is
given as its own file name, and a file name without an extension as its own extension. -/
namespace Tmms.Base.StringUtils

def Without (chars s : List Char) : Prop := ∀ c ∈ s, c ∉ chars

section Last
variable {chars before after : List Char} {c : Char}

theorem find_last_of_append (among : c ∈ chars) (without : Without chars after) :
    find_last_of chars (before ++ c :: after) = some before.length := by
  have behind : after.reverse.findIdx? (· ∈ chars) = none := by
    rw [List.findIdx?_eq_none_iff]
    exact fun d inside => decide_eq_false (without d (List.mem_reverse.mp inside))
  have back : (before ++ c :: after).reverse.findIdx? (· ∈ chars) = some after.length := by
    rw [List.reverse_append,List.reverse_cons,List.append_assoc,List.findIdx?_append,behind]
    simp [List.findIdx?_cons,among]
  rw [find_last_of,back,Option.map_some]
  simp only [List.length_append,List.length_cons]
  congr 1
  omega

theorem find_last_of_without {s : List Char} (without : Without chars s) : find_last_of chars s = none := by
  rw [find_last_of,Option.map_eq_none_iff,List.findIdx?_eq_none_iff]
  exact fun d inside => decide_eq_false (without d (List.mem_reverse.mp inside))

theorem drop_past (before : List Char) (c : Char) (after : List Char) :
    (before ++ c :: after).drop (before.length + 1) = after := by
  rw [← List.drop_drop,List.drop_left]
  rfl

/-- A string has none of the characters, or the last of them somewhere. -/
theorem without_or_last (chars s : List Char) : Without chars s ∨
    ∃ before c after, s = before ++ c :: after ∧ c ∈ chars ∧ Without chars after := by
  induction s using List.reverseRecOn with
  | nil => exact Or.inl fun _ none => absurd none List.not_mem_nil
  | append_singleton s d ih =>
    by_cases among : d ∈ chars
    · exact Or.inr ⟨s,d,[],rfl,among,fun _ none => absurd none List.not_mem_nil⟩
    rcases ih with without | ⟨before,c,after,rfl,inside,without⟩
    · refine Or.inl fun e inside => ?_
      rcases List.mem_append.mp inside with earlier | itself
      · exact without e earlier
      · exact List.mem_singleton.mp itself ▸ among
    · refine Or.inr ⟨before,c,after ++ [d],by rw [List.append_assoc,List.cons_append],inside,fun e later => ?_⟩
      rcases List.mem_append.mp later with earlier | itself
      · exact without e earlier
      · exact List.mem_singleton.mp itself ▸ among

end Last

abbrev separators : List Char := ['/','\\']

section Directory
variable {path dir name : List Char} {separator : Char}

theorem fileNameExt_without (without : Without separators path) : fileNameExt path = path := by
  rw [fileNameExt,find_last_of_without without]

theorem filePath_append (among : separator ∈ separators) (without : Without separators name) :
    filePath (dir ++ separator :: name) = dir := by
  rw [filePath,find_last_of_append among without]
  exact List.take_left

theorem fileNameExt_append (among : separator ∈ separators) (without : Without separators name) (some_ : name ≠ []) :
    fileNameExt (dir ++ separator :: name) = name := by
  have positive := List.length_pos_of_ne_nil some_
  have inside : dir.length + 1 < (dir ++ separator :: name).length := by
    rw [List.length_append,List.length_cons]
    omega
  rw [fileNameExt,find_last_of_append among without]
  dsimp only
  rw [if_pos inside,drop_past]

/-- A path that ends with a separator is returned whole. -/
theorem fileNameExt_trailing (among : separator ∈ separators) :
    fileNameExt (dir ++ [separator]) = dir ++ [separator] := by
  have outside : ¬dir.length + 1 < (dir ++ [separator]).length := by
    rw [List.length_append,List.length_singleton]
    omega
  rw [fileNameExt,find_last_of_append among fun _ none => absurd none List.not_mem_nil]
  exact if_neg outside

end Directory
section Name
variable {path stem ext : List Char}

theorem fileName_without (without : Without ['.'] (fileNameExt path)) : fileName path = fileNameExt path := by
  rw [fileName]
  rw [find_last_of_without without]

/-- Without a dot the file name is given again. -/
theorem extension_without (without : Without ['.'] (fileNameExt path)) : extension path = fileNameExt path := by
  rw [extension]
  rw [find_last_of_without without]

/-- A dot at the beginning does not begin an extension. -/
theorem parts_leading (name : fileNameExt path = '.' :: ext) (without : Without ['.'] ext) :
    fileName path = fileNameExt path ∧ extension path = fileNameExt path := by
  have first : find_last_of ['.'] (fileNameExt path) = some 0 := by
    rw [name,← List.nil_append ('.' :: ext)]
    exact find_last_of_append (List.mem_singleton_self _) without
  constructor
  · rw [fileName]
    rw [first]
    exact if_neg fun other => other rfl
  · rw [extension]
    rw [first]
    exact if_neg fun other => other.1 rfl

theorem parts_dotted (name : fileNameExt path = stem ++ '.' :: ext) (some_ : stem ≠ [])
    (without : Without ['.'] ext) :
    fileName path = stem ∧ extension path = ext := by
  have last : find_last_of ['.'] (fileNameExt path) = some stem.length := by
    rw [name]
    exact find_last_of_append (List.mem_singleton_self _) without
  have positive : stem.length ≠ 0 := fun none => some_ (List.eq_nil_of_length_eq_zero none)
  have inside : stem.length < (fileNameExt path).length := by
    rw [name,List.length_append,List.length_cons]
    omega
  constructor
  · rw [fileName]
    rw [last]
    dsimp only
    rw [if_pos positive,name,List.take_left]
  · rw [extension]
    rw [last]
    dsimp only
    rw [if_pos ⟨positive,inside⟩,name,drop_past]

end Name

def Dotted (name : List Char) : Prop := '.' ∈ name.tail

instance (name : List Char) : Decidable (Dotted name) := inferInstanceAs (Decidable ('.' ∈ name.tail))

/-- The path is its directory, a separator and its file name, and the file name is its stem, a dot
and its extension if it has one. -/
structure Recomposes (path : List Char) : Prop where
  name : Without separators (fileNameExt path)
  joined : (∃ separator ∈ separators, path = filePath path ++ separator :: fileNameExt path) ∨
    Without separators path ∧ path = fileNameExt path
  dotted : Dotted (fileNameExt path) →
    fileNameExt path = fileName path ++ '.' :: extension path ∧ '.' ∉ extension path
  plain : ¬Dotted (fileNameExt path) → fileName path = fileNameExt path ∧ extension path = []

/-- After the last separator there is a dot, and something before it. -/
def Suffixed (path : List Char) : Prop :=
  ∃ before c after, path = before ++ c :: '.' :: after ∧ c ∉ separators ∧ Without separators after

theorem dotted_iff {name : List Char} : Dotted name ↔ ∃ before c after, name = before ++ c :: '.' :: after := by
  constructor
  · intro dotted
    cases name with
    | nil => cases dotted
    | cons d name =>
      obtain ⟨before,after,rfl⟩ := List.append_of_mem dotted
      induction before using List.reverseRecOn with
      | nil => exact ⟨[],d,after,rfl⟩
      | append_singleton before c _ => exact ⟨d :: before,c,after,by simp⟩
  · rintro ⟨before,c,after,rfl⟩
    cases before <;> simp [Dotted]

section Suffixed
variable {path dir name : List Char} {separator : Char}

theorem suffixed_without (without : Without separators path) : Suffixed path ↔ Dotted path := by
  rw [dotted_iff]
  constructor
  · rintro ⟨before,c,after,whole,_⟩
    exact ⟨before,c,after,whole⟩
  · rintro ⟨before,c,after,rfl⟩
    refine ⟨before,c,after,rfl,without c (by simp),fun d later => without d ?_⟩
    simp [later]

theorem suffixed_append (among : separator ∈ separators) (without : Without separators name) :
    Suffixed (dir ++ separator :: name) ↔ Dotted name := by
  rw [dotted_iff]
  constructor
  · rintro ⟨before,c,after,whole,plain,bare⟩
    rcases List.append_eq_append_iff.mp whole with ⟨more,rfl,later⟩ | ⟨more,rfl,later⟩
    · cases more with
      | nil =>
        cases later
        exact absurd among plain
      | cons d more =>
        cases later
        exact ⟨more,c,after,rfl⟩
    · -- The separator would stand behind the place of the dot.
      have inside : separator ∈ c :: '.' :: after := by
        rw [later]
        simp
      rcases List.mem_cons.mp inside with rfl | inside
      · exact absurd among plain
      rcases List.mem_cons.mp inside with rfl | inside
      · exact absurd among (by decide)
      · exact absurd among (bare separator inside)
  · rintro ⟨before,c,after,rfl⟩
    refine ⟨dir ++ separator :: before,c,after,by simp,without c (by simp),fun d later => without d ?_⟩
    simp [later]

end Suffixed

/-- The two parts of a file name make it up if it is empty, or has a dot behind its first character. -/
theorem name_recomposes_iff (path : List Char) :
    ((Dotted (fileNameExt path) →
        fileNameExt path = fileName path ++ '.' :: extension path ∧ '.' ∉ extension path) ∧
      (¬Dotted (fileNameExt path) → fileName path = fileNameExt path ∧ extension path = [])) ↔
    fileNameExt path = [] ∨ Dotted (fileNameExt path) := by
  rcases without_or_last ['.'] (fileNameExt path) with without | ⟨stem,c,ext,name,dot,without⟩
  · have undotted : ¬Dotted (fileNameExt path) :=
      fun dotted => without '.' (List.mem_of_mem_tail dotted) (List.mem_singleton_self _)
    have same := fileName_without without
    have again := extension_without without
    rw [or_iff_left undotted]
    constructor
    · rintro ⟨_,plain⟩
      rw [← again]
      exact (plain undotted).2
    · exact fun none => ⟨fun dotted => absurd dotted undotted,fun _ => ⟨same,again.trans none⟩⟩
  · obtain rfl := List.mem_singleton.mp dot
    have bare : '.' ∉ ext := fun inside => without '.' inside dot
    by_cases leading : stem = []
    · subst leading
      obtain ⟨_,again⟩ := parts_leading name without
      have undotted : ¬Dotted (fileNameExt path) := by
        rw [name]
        exact bare
      refine iff_of_false (fun parts => ?_) (not_or.mpr ⟨?_,undotted⟩)
      · have none := (parts.2 undotted).2
        rw [again,name] at none
        cases none
      · rw [name]
        exact List.cons_ne_nil _ _
    · obtain ⟨first,last⟩ := parts_dotted name leading without
      have dotted : Dotted (fileNameExt path) := by
        obtain ⟨d,stem,rfl⟩ := List.exists_cons_of_ne_nil leading
        rw [name]
        simp [Dotted]
      refine iff_of_true ⟨fun _ => ?_,fun undotted => absurd dotted undotted⟩ (Or.inr dotted)
      rw [first,last]
      exact ⟨name,bare⟩

/-- Where the file name is what follows the last separator, the rest is up to its two parts. -/
theorem recomposes_iff_parts {path : List Char} (bare : Without separators (fileNameExt path))
    (joined : (∃ separator ∈ separators, path = filePath path ++ separator :: fileNameExt path) ∨
      Without separators path ∧ path = fileNameExt path) :
    Recomposes path ↔ fileNameExt path = [] ∨ Dotted (fileNameExt path) := by
  rw [← name_recomposes_iff]
  exact ⟨fun recomposes => ⟨recomposes.dotted,recomposes.plain⟩,fun parts => ⟨bare,joined,parts.1,parts.2⟩⟩

/-- A path can be put together again from its parts if and only if it is empty, or there is a dot
behind the first character after its last separator. -/
theorem path_recomposes_iff (path : List Char) : Recomposes path ↔ path = [] ∨ Suffixed path := by
  rcases without_or_last separators path with without | ⟨dir,separator,name,rfl,among,without⟩
  · have whole := fileNameExt_without without
    have bare : Without separators (fileNameExt path) := by
      rw [whole]
      exact without
    rw [recomposes_iff_parts bare (Or.inr ⟨without,whole.symm⟩),whole,suffixed_without without]
  · have some_ : dir ++ separator :: name ≠ [] := List.append_ne_nil_of_right_ne_nil _ (List.cons_ne_nil _ _)
    rw [suffixed_append among without,or_iff_right some_]
    by_cases trailing : name = []
    · subst trailing
      refine iff_of_false (fun recomposes => ?_) List.not_mem_nil
      refine recomposes.name separator ?_ among
      rw [fileNameExt_trailing among]
      exact List.mem_append_right _ (List.mem_singleton_self _)
    · have whole : fileNameExt (dir ++ separator :: name) = name := fileNameExt_append among without trailing
      have bare : Without separators (fileNameExt (dir ++ separator :: name)) := by
        rw [whole]
        exact without
      have joined : dir ++ separator :: name =
          filePath (dir ++ separator :: name) ++ separator :: fileNameExt (dir ++ separator :: name) := by
        rw [whole,filePath_append among without]
      rw [recomposes_iff_parts bare (Or.inl ⟨separator,among,joined⟩),whole,or_iff_right trailing]

/-- `log/` is its own file name, and `tmms` its own extension. -/
theorem parts_repeated :
    fileNameExt ['l','o','g','/'] = ['l','o','g','/'] ∧ ¬Recomposes ['l','o','g','/'] ∧
      extension ['t','m','m','s'] = ['t','m','m','s'] ∧ ¬Recomposes ['t','m','m','s'] := by
  refine ⟨by decide,fun recomposes => ?_,by decide,fun recomposes => ?_⟩
  · exact recomposes.name '/' (by decide) (by decide)
  · have parts := recomposes.plain (by decide)
    cases parts.2

end Tmms.Base.StringUtils
