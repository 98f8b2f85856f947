import Mathlib.Algebra.Ring.Nat
import Mathlib.Data.List.Basic

/-! Strings: how one begins and ends, the parts of a path, cut at the last separator and at the
last dot of what follows, and the pieces between delimiters. -/
namespace Tmms.Base.StringUtils

structure Sized (α : Type) where
  chars : List α
  fits : chars.length < 2 ^ 64

inductive Exception where
  | out_of_range
  deriving DecidableEq

def Sized.size {α : Type} (s : Sized α) : BitVec 64 := BitVec.ofNat 64 s.chars.length

@[simp] theorem Sized.size_toNat {α : Type} (s : Sized α) : s.size.toNat = s.chars.length := by
  rw [size,BitVec.toNat_ofNat,Nat.mod_eq_of_lt s.fits]

section Tests
variable {α : Type} [DecidableEq α]

/-- Whether `compare(pos, n, str)` is 0. -/
def compareEq (s : Sized α) (pos n : BitVec 64) (str : Sized α) : Except Exception Bool :=
  if pos > s.size then .error .out_of_range
  else .ok (decide ((s.chars.drop pos.toNat).take n.toNat = str.chars))

def startWith (s sub : Sized α) : Except Exception Bool :=
  if sub.chars = [] then .ok true
  else if s.chars = [] then .ok false
  else
    let len := s.size
    let slen := sub.size
    if slen < len then .ok false else compareEq s 0 slen sub

def endWith (s sub : Sized α) : Except Exception Bool :=
  if sub.chars = [] then .ok true
  else if s.chars = [] then .ok false
  else
    let len := s.size
    let slen := sub.size
    if slen < len then .ok false else compareEq s (len - slen) slen sub

end Tests

def find_last_of (chars s : List Char) : Option Nat :=
  (s.reverse.findIdx? (· ∈ chars)).map fun back => s.length - 1 - back

def filePath (path : List Char) : List Char :=
  match find_last_of ['/','\\'] path with
  | some pos => path.take pos
  | none => ['.','/']

def fileNameExt (path : List Char) : List Char :=
  match find_last_of ['/','\\'] path with
  | some pos => if pos + 1 < path.length then path.drop (pos + 1) else path
  | none => path

def fileName (path : List Char) : List Char :=
  let file_name := fileNameExt path
  match find_last_of ['.'] file_name with
  | some pos => if pos ≠ 0 then file_name.take pos else file_name
  | none => file_name

def extension (path : List Char) : List Char :=
  let file_name := fileNameExt path
  match find_last_of ['.'] file_name with
  | some pos => if pos ≠ 0 ∧ pos < file_name.length then file_name.drop (pos + 1) else file_name
  | none => file_name

section Split
variable {α : Type} [DecidableEq α]

/-- `find`: the first place from `pos` on where `str` occurs. -/
def find (str s : List α) (pos : Nat) : Option Nat :=
  (List.range' pos (s.length + 1 - pos)).find? fun i => decide (str <+: s.drop i)

theorem find_some_iff {str s : List α} {pos i : Nat} : find str s pos = some i ↔
    str <+: s.drop i ∧ pos ≤ i ∧ i ≤ s.length ∧ ∀ j, pos ≤ j → j < i → ¬str <+: s.drop j := by
  simp only [find,List.find?_range'_eq_some,decide_eq_true_eq,List.mem_range'_1,Bool.not_eq_true',
    decide_eq_false_iff_not]
  constructor
  · rintro ⟨here,⟨after,within⟩,first⟩
    exact ⟨here,after,by omega,first⟩
  · rintro ⟨here,after,within,first⟩
    exact ⟨here,⟨after,by omega⟩,first⟩

theorem find_none_iff {str s : List α} {pos : Nat} :
    find str s pos = none ↔ ∀ j, pos ≤ j → j ≤ s.length → ¬str <+: s.drop j := by
  simp only [find,List.find?_range'_eq_none,Bool.not_eq_true',decide_eq_false_iff_not]
  constructor
  · exact fun none j after within => none j after (by omega)
  · exact fun none j after within => none j after (by omega)

/-- What is found is not past the end. -/
theorem find_within {str s : List α} {pos i : Nat} (found : find str s pos = some i) :
    pos ≤ i ∧ i + str.length ≤ s.length := by
  obtain ⟨here,after,within,_⟩ := find_some_iff.mp found
  have fits := here.length_le
  rw [List.length_drop] at fits
  omega

def splitLoop (s delimiter : List α) (some_ : delimiter ≠ []) (last : Nat) (result : List (List α)) :
    List (List α) :=
  match _found : find delimiter s last with
  | some next =>
    splitLoop s delimiter some_ (next + delimiter.length)
      (if next > last then result ++ [(s.drop last).take (next - last)] else result)
  | none => if last < s.length then result ++ [s.drop last] else result
termination_by s.length - last
decreasing_by
  have within := find_within _found
  have positive := List.length_pos_of_ne_nil some_
  omega

def splitString (s delimiter : List α) : List (List α) :=
  if empty : delimiter = [] then [] else splitLoop s delimiter empty 0 []

end Split
end Tmms.Base.StringUtils
