import Mathlib.Data.List.Basic
import Mathlib.Data.List.Infix

/-! Where one list occurs in another, and the pieces that are left of a list when the leftmost
occurrences of another are taken out of it, one after the other. -/
namespace Occurrence

variable {α : Type}

def Leftmost (pat s first : List α) : Prop :=
  first ++ pat <+: s ∧ ∀ before after, s = before ++ pat ++ after → first.length ≤ before.length

/-- The pieces of a list, in order: a piece ends where `pat` occurs next, and the last one where
the list does. -/
inductive Pieces (pat : List α) : List α → List (List α) → Prop
  | last (s : List α) (absent : ¬pat <:+: s) : Pieces pat s [s]
  | cut (first rest : List α) (later : List (List α)) (leftmost : Leftmost pat (first ++ pat ++ rest) first)
      (further : Pieces pat rest later) : Pieces pat (first ++ pat ++ rest) (first :: later)

section Pieces
variable {pat s : List α} {pieces : List (List α)}

theorem Leftmost.unique {first other : List α} (one : Leftmost pat s first) (two : Leftmost pat s other) :
    first = other := by
  obtain ⟨⟨rest,here⟩,before⟩ := one
  obtain ⟨⟨rest',there⟩,before'⟩ := two
  have length : first.length = other.length :=
    Nat.le_antisymm (before other rest' there.symm) (before' first rest here.symm)
  rw [← there,List.append_assoc,List.append_assoc] at here
  exact (List.append_inj here length).1

theorem Pieces.unique {others : List (List α)} (one : Pieces pat s pieces) (two : Pieces pat s others) :
    pieces = others := by
  induction one generalizing others with
  | last s absent =>
    cases two with
    | last => rfl
    | cut first rest => exact absurd ⟨first,rest,rfl⟩ absent
  | cut first rest later leftmost _ ih =>
    generalize whole : first ++ pat ++ rest = text at two leftmost
    cases two with
    | last _ absent => exact absurd ⟨first,rest,whole⟩ absent
    | cut other rest' later' leftmost' further =>
      obtain rfl := leftmost.unique leftmost'
      rw [List.append_cancel_left_eq] at whole
      subst whole
      rw [ih further]

/-- A list is its pieces with the pattern between them. -/
theorem Pieces.join (cut : Pieces pat s pieces) : pat.intercalate pieces = s := by
  induction cut with
  | last s => simp [List.intercalate]
  | cut first rest later _ further ih =>
    obtain ⟨next,more,rfl⟩ : ∃ next more, later = next :: more := by
      cases further with
      | last s => exact ⟨_,_,rfl⟩
      | cut first _ later => exact ⟨_,_,rfl⟩
    rw [← ih]
    simp [List.intercalate]

theorem Pieces.plain (some_ : pat ≠ []) (cut : Pieces pat s pieces) : ∀ piece ∈ pieces, ¬pat <:+: piece := by
  induction cut with
  | last s absent =>
    intro piece among
    rw [List.mem_singleton.mp among]
    exact absent
  | cut first rest later leftmost _ ih =>
    rw [List.forall_mem_cons]
    refine ⟨?_,ih⟩
    rintro ⟨before,after,rfl⟩
    have earlier := leftmost.2 before (after ++ pat ++ rest) (by simp only [List.append_assoc])
    have positive := List.length_pos_of_ne_nil some_
    simp only [List.length_append] at earlier
    omega

end Pieces

/-- Lists that stay apart when they are joined: `pat` occurs next where each one but the last ends,
and not in the last. -/
def Separate (pat : List α) : List (List α) → Prop
  | [] => True
  | [last] => ¬pat <:+: last
  | first :: next :: more => ¬pat <:+: first ++ pat.dropLast ∧ Separate pat (next :: more)

section Separate
variable {pat first rest : List α}

/-- An occurrence before the end of `first` would be over before `pat` is. -/
theorem leftmost_iff (some_ : pat ≠ []) : Leftmost pat (first ++ pat ++ rest) first ↔ ¬pat <:+: first ++ pat.dropLast := by
  have positive := List.length_pos_of_ne_nil some_
  have shorter : first ++ pat.dropLast <+: first ++ pat ++ rest := by
    rw [List.append_assoc,List.prefix_append_right_inj]
    exact (List.dropLast_prefix pat).trans (List.prefix_append _ _)
  constructor
  · rintro ⟨_,earliest⟩ ⟨before,after,inside⟩
    obtain ⟨more,whole⟩ := shorter
    have late := earliest before (after ++ more) (by rw [← whole,← inside,List.append_assoc])
    have length := congrArg List.length inside
    simp only [List.length_append,List.length_dropLast] at length
    omega
  · intro absent
    refine ⟨List.prefix_append _ _,fun before after whole => Nat.le_of_not_lt fun early => absent ?_⟩
    have here : before ++ pat <+: first ++ pat ++ rest := by
      rw [whole]
      exact List.prefix_append _ _
    have fits : (before ++ pat).length ≤ (first ++ pat.dropLast).length := by
      simp only [List.length_append,List.length_dropLast]
      omega
    exact (List.suffix_append before pat).isInfix.trans (List.prefix_of_prefix_length_le here shorter fits).isInfix

/-- Pieces are the lists that join to the whole and stay apart. -/
theorem pieces_iff (some_ : pat ≠ []) {s : List α} {pieces : List (List α)} :
    Pieces pat s pieces ↔ pieces ≠ [] ∧ pat.intercalate pieces = s ∧ Separate pat pieces := by
  constructor
  · intro cut
    refine ⟨?_,cut.join,?_⟩
    · cases cut with
      | last => exact List.cons_ne_nil _ _
      | cut => exact List.cons_ne_nil _ _
    · induction cut with
      | last s absent => exact absent
      | cut first rest later leftmost further ih =>
        cases further with
        | last s absent => exact ⟨(leftmost_iff some_).mp leftmost,ih⟩
        | cut next more later => exact ⟨(leftmost_iff some_).mp leftmost,ih⟩
  · rintro ⟨more,rfl,separate⟩
    induction pieces with
    | nil => exact absurd rfl more
    | cons first pieces ih =>
      cases pieces with
      | nil =>
        rw [List.intercalate_singleton]
        exact .last first separate
      | cons next pieces =>
        rw [List.intercalate_cons_of_ne_nil (List.cons_ne_nil _ _)]
        exact .cut first _ _ ((leftmost_iff some_).mpr separate.1) (ih (List.cons_ne_nil _ _) separate.2)

/-- Leaving out some of them, they still stay apart. -/
theorem Separate.sublist {pieces fewer : List (List α)} (separate : Separate pat pieces)
    (sub : fewer.Sublist pieces) : Separate pat fewer := by
  induction sub with
  | slnil => trivial
  | cons piece sub ih =>
    rename_i fewer pieces
    cases pieces with
    | nil =>
      cases sub
      trivial
    | cons next more => exact ih separate.2
  | cons_cons piece sub ih =>
    rename_i fewer pieces
    cases pieces with
    | nil =>
      cases sub
      exact separate
    | cons next more =>
      cases fewer with
      | nil => exact fun inside => separate.1 (inside.trans (List.prefix_append _ _).isInfix)
      | cons other fewer => exact ⟨separate.1,ih separate.2⟩

end Separate
end Occurrence
