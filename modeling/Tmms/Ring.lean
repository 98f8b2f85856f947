import Mathlib.Data.List.Basic

/-! Rings of buckets. An element put into bucket `k` comes to the front after `k` turns;
each turn takes the front bucket out and adds an empty one at the back. Buckets are sets
without duplicates. -/
namespace Ring

variable {α : Type}

def Has (ring : List (List α)) (k : Nat) (x : α) : Prop := x ∈ ring.getD k []

def front (ring : List (List α)) : List α := ring.headD []

def rotate (ring : List (List α)) : List (List α) := ring.tail ++ [[]]

def emplace [DecidableEq α] (ring : List (List α)) (k : Nat) (x : α) : Option (List (List α)) :=
  if k < ring.length then some (ring.modify k (List.insert x)) else none

theorem not_has_empty (n k : Nat) (x : α) : ¬Has (List.replicate n []) k x := by
  by_cases bound : k < n
  · simp [Has,List.getD_eq_getElem?_getD,bound]
  · simp [Has,List.getD_eq_getElem?_getD,bound]

theorem any_has (ring : List (List α)) (p : α → Bool) :
    (ring.any fun bucket => bucket.any p) = true ↔ ∃ k x, Has ring k x ∧ p x = true := by
  simp only [List.any_eq_true,Has,List.getD_eq_getElem?_getD]
  constructor
  · rintro ⟨bucket,among,x,inside,holds⟩
    obtain ⟨k,found⟩ := List.mem_iff_getElem?.mp among
    exact ⟨k,x,by rw [found]; exact inside,holds⟩
  · rintro ⟨k,x,inside,holds⟩
    cases found : ring[k]? with
    | none => rw [found] at inside; cases inside
    | some bucket =>
      rw [found] at inside
      exact ⟨bucket,List.mem_of_getElem? found,x,inside,holds⟩

theorem has_front (ring : List (List α)) (x : α) : x ∈ front ring ↔ Has ring 0 x := by
  cases ring <;> rfl

theorem has_rotate (ring : List (List α)) (k : Nat) (x : α) :
    Has (rotate ring) k x ↔ Has ring (k + 1) x := by
  cases ring with
  | nil => cases k <;> simp [Has,rotate]
  | cons first rest =>
    simp only [Has,rotate,List.tail_cons,List.getD_eq_getElem?_getD,List.getElem?_cons_succ]
    by_cases inside : k < rest.length
    · rw [List.getElem?_append_left inside]
    · have beyond : rest.length ≤ k := Nat.le_of_not_lt inside
      rw [List.getElem?_append_right beyond,List.getElem?_eq_none beyond]
      cases k - rest.length <;> simp

theorem length_rotate (ring : List (List α)) (bound : 0 < ring.length) :
    (rotate ring).length = ring.length := by
  simp only [rotate,List.length_append,List.length_tail,List.length_singleton]
  omega

section Emplace
variable [DecidableEq α] {ring after : List (List α)} {k : Nat} {x : α}

theorem emplace_of_lt (bound : k < ring.length) :
    ∃ after, emplace ring k x = some after :=
  ⟨_,if_pos bound⟩

theorem length_emplace (placed : emplace ring k x = some after) : after.length = ring.length := by
  unfold emplace at placed
  split at placed
  · cases placed; exact List.length_modify ..
  · contradiction

theorem has_emplace (placed : emplace ring k x = some after) (j : Nat) (y : α) :
    Has after j y ↔ Has ring j y ∨ (j = k ∧ y = x) := by
  unfold emplace at placed
  split at placed
  · next bound =>
    cases placed
    simp only [Has,List.getD_eq_getElem?_getD,List.getElem?_modify]
    by_cases same : k = j
    · subst same
      simp [bound,or_comm]
    · simp [same,Ne.symm same]
  · contradiction

end Emplace
end Ring
