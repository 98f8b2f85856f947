import Tmms.Substrings

/-! Splitting what was joined. `SplitString` drops empty pieces and takes the leftmost occurrence of
the delimiter, which may begin inside a field; fields come back exactly when neither gets in the way. -/
namespace Tmms.Base.StringUtils

open Occurrence

section SplitJoin
variable {α : Type} [DecidableEq α] {d : List α}

theorem splitString_filter (some_ : d ≠ []) (s : List α) :
    ∃ pieces, Pieces d s pieces ∧ splitString s d = pieces.filter (· ≠ []) := by
  obtain ⟨pieces,cut,looped⟩ := splitLoop_pieces (s := s) some_ 0 []
  rw [List.drop_zero] at cut
  exact ⟨pieces,cut,by rw [splitString,dif_neg some_,looped,List.nil_append]⟩

/-- What a string is split into stays apart, and no piece is empty. -/
theorem splitString_separate (some_ : d ≠ []) (s : List α) :
    (∀ piece ∈ splitString s d, piece ≠ []) ∧ Separate d (splitString s d) := by
  obtain ⟨pieces,cut,split⟩ := splitString_filter some_ s
  rw [split]
  refine ⟨fun piece among => of_decide_eq_true (List.mem_filter.mp among).2,?_⟩
  exact ((pieces_iff some_).mp cut).2.2.sublist List.filter_sublist

theorem splitString_intercalate (some_ : d ≠ []) {fields : List (List α)} (full : ∀ field ∈ fields, field ≠ [])
    (separate : Separate d fields) : splitString (d.intercalate fields) d = fields := by
  obtain ⟨pieces,cut,split⟩ := splitString_filter some_ (d.intercalate fields)
  by_cases none : fields = []
  · have only : pieces = [[]] := by
      subst none
      refine cut.unique (.last [] fun occurs => some_ ?_)
      exact List.infix_nil.mp occurs
    rw [split,only,none]
    rfl
  · have same : pieces = fields := cut.unique ((pieces_iff some_).mpr ⟨none,rfl,separate⟩)
    rw [split,same,List.filter_eq_self]
    exact fun field among => decide_eq_true (full field among)

end SplitJoin

/-- Joined fields are split into the same fields if and only if none of them is empty, the
delimiter does not begin to occur inside a field when it is joined on, and does not occur in the last
one; and joining what any string was split into and splitting again changes nothing. -/
theorem split_join {α : Type} [DecidableEq α] (d : List α) (some_ : d ≠ []) :
    (∀ fields : List (List α), splitString (d.intercalate fields) d = fields ↔
      (∀ field ∈ fields, field ≠ []) ∧ Separate d fields) ∧
    ∀ s : List α, splitString (d.intercalate (splitString s d)) d = splitString s d := by
  have joined := fun s => splitString_separate some_ (s := s)
  refine ⟨fun fields => ⟨fun same => ?_,fun ⟨full,separate⟩ => splitString_intercalate some_ full separate⟩,fun s => ?_⟩
  · rw [← same]
    exact joined _
  · exact splitString_intercalate some_ (joined s).1 (joined s).2

/-- `aa` joins `ba` and `b` to `baaab`, which is split after the first letter. -/
theorem split_join_overlap : splitString (['a','a'].intercalate [['b','a'],['b']]) ['a','a'] ≠ [['b','a'],['b']] ∧
    splitString (['a','a'].intercalate [['b'],['c']]) ['a','a'] = [['b'],['c']] := by
  have both := (split_join ['a','a'] (List.cons_ne_nil _ _)).1
  refine ⟨fun same => ?_,(both _).mpr ⟨by decide,by decide,(by decide : ¬['a','a'] <:+: ['c'])⟩⟩
  exact absurd ⟨['b'],[],rfl⟩ ((both _).mp same).2.1

end Tmms.Base.StringUtils
