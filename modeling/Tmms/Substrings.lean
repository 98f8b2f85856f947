import Tmms.Occurrence
import Tmms.StringUtils

/-! What the tests for a beginning and an end make of two strings, and what a string is split into. -/
namespace Tmms.Base.StringUtils

section Tests
variable {α : Type} [DecidableEq α] {s sub : Sized α}

/-- A shorter `sub` is not looked for. -/
theorem tests_shorter (some_ : sub.chars ≠ []) (shorter : sub.chars.length < s.chars.length) :
    startWith s sub = .ok false ∧ endWith s sub = .ok false := by
  have more : s.chars ≠ [] := List.ne_nil_of_length_pos (Nat.zero_lt_of_lt shorter)
  have less : sub.size < s.size := by simpa [BitVec.lt_def] using shorter
  constructor
  · rw [startWith,if_neg some_,if_neg more]
    exact if_pos less
  · rw [endWith,if_neg some_,if_neg more]
    exact if_pos less

theorem tests_equal (some_ : sub.chars ≠ []) (equal : s.chars.length = sub.chars.length) :
    startWith s sub = .ok (decide (s.chars = sub.chars)) ∧ endWith s sub = .ok (decide (s.chars = sub.chars)) := by
  have more : s.chars ≠ [] := by
    rw [← List.length_pos_iff,equal]
    exact List.length_pos_of_ne_nil some_
  have size : s.size = sub.size := by rw [Sized.size,Sized.size,equal]
  have less : ¬sub.size < s.size := by rw [size]; exact BitVec.lt_irrefl _
  have whole : compareEq s 0#64 sub.size sub = .ok (decide (s.chars = sub.chars)) := by
    simp [compareEq,← equal]
  constructor
  · rw [startWith,if_neg some_,if_neg more]
    exact (if_neg less).trans whole
  · have start : s.size - sub.size = 0#64 := by rw [size,BitVec.sub_self]
    rw [← start] at whole
    rw [endWith,if_neg some_,if_neg more]
    exact (if_neg less).trans whole

/-- The difference of the sizes wraps round, past the end. -/
theorem endWith_throws (more : s.chars ≠ []) (longer : s.chars.length < sub.chars.length) :
    endWith s sub = .error .out_of_range := by
  have some_ : sub.chars ≠ [] := List.ne_nil_of_length_pos (Nat.zero_lt_of_lt longer)
  have less : ¬sub.size < s.size := by
    rw [BitVec.lt_def,Sized.size_toNat,Sized.size_toNat]
    omega
  have past : s.size - sub.size > s.size := by
    have fits := sub.fits
    rw [gt_iff_lt,BitVec.lt_def,BitVec.toNat_sub,Sized.size_toNat,Sized.size_toNat]
    omega
  rw [endWith,if_neg some_,if_neg more]
  exact (if_neg less).trans (if_pos past)

end Tests

/-- Both tests return, and say how `s` begins and ends. -/
structure Exact {α : Type} [DecidableEq α] (s sub : Sized α) : Prop where
  starts : ∃ answer, startWith s sub = .ok answer ∧ (answer = true ↔ ∃ t, s.chars = sub.chars ++ t)
  ends : ∃ answer, endWith s sub = .ok answer ∧ (answer = true ↔ ∃ t, s.chars = t ++ sub.chars)

section Exact
variable {α : Type} [DecidableEq α] {s sub : Sized α}

/-- Tests that return are right if their answers are. -/
theorem exact_iff_of_answers {first last : Bool} (start : startWith s sub = .ok first)
    (finish : endWith s sub = .ok last) :
    Exact s sub ↔ (first = true ↔ sub.chars <+: s.chars) ∧ (last = true ↔ sub.chars <:+ s.chars) := by
  have begins : (∃ t, s.chars = sub.chars ++ t) ↔ sub.chars <+: s.chars := exists_congr fun _ => eq_comm
  have finishes : (∃ t, s.chars = t ++ sub.chars) ↔ sub.chars <:+ s.chars := exists_congr fun _ => eq_comm
  rw [← begins,← finishes]
  constructor
  · rintro ⟨⟨answer,started,right⟩,other,ended,too⟩
    cases start.symm.trans started
    cases finish.symm.trans ended
    exact ⟨right,too⟩
  · exact fun ⟨right,too⟩ => ⟨⟨first,start,right⟩,last,finish,too⟩

theorem exact_empty (none : sub.chars = []) : Exact s sub := by
  refine (exact_iff_of_answers (if_pos none) (if_pos none)).mpr ⟨?_,?_⟩
  · rw [none]
    exact iff_of_true rfl List.nil_prefix
  · rw [none]
    exact iff_of_true rfl List.nil_suffix

theorem exact_in_empty (some_ : sub.chars ≠ []) (empty : s.chars = []) : Exact s sub := by
  have start : startWith s sub = .ok false := by rw [startWith,if_neg some_,if_pos empty]
  have finish : endWith s sub = .ok false := by rw [endWith,if_neg some_,if_pos empty]
  refine (exact_iff_of_answers start finish).mpr ⟨?_,?_⟩
  · rw [empty,List.prefix_nil]
    exact iff_of_false Bool.false_ne_true some_
  · rw [empty,List.suffix_nil]
    exact iff_of_false Bool.false_ne_true some_

theorem exact_shorter_iff (some_ : sub.chars ≠ []) (shorter : sub.chars.length < s.chars.length) :
    Exact s sub ↔ ¬sub.chars <+: s.chars ∧ ¬sub.chars <:+ s.chars := by
  obtain ⟨start,finish⟩ := tests_shorter some_ shorter
  rw [exact_iff_of_answers start finish,iff_false_left Bool.false_ne_true,iff_false_left Bool.false_ne_true]

theorem exact_equal (some_ : sub.chars ≠ []) (equal : s.chars.length = sub.chars.length) : Exact s sub := by
  obtain ⟨start,finish⟩ := tests_equal some_ equal
  refine (exact_iff_of_answers start finish).mpr ⟨?_,?_⟩
  · rw [decide_eq_true_iff]
    exact ⟨fun same => same ▸ List.prefix_rfl,fun before => (before.eq_of_length equal.symm).symm⟩
  · rw [decide_eq_true_iff]
    exact ⟨fun same => same ▸ List.suffix_rfl,fun behind => (behind.eq_of_length equal.symm).symm⟩

theorem not_exact_longer (more : s.chars ≠ []) (longer : s.chars.length < sub.chars.length) : ¬Exact s sub := by
  rintro ⟨_,answer,ended,_⟩
  rw [endWith_throws more longer] at ended
  cases ended

end Exact

/-- The tests are right where a string is empty or the two are of one size, and elsewhere only
where `sub` is shorter and there is nothing to be found. -/
theorem tests_exact_iff {α : Type} [DecidableEq α] (s sub : Sized α) : Exact s sub ↔
    sub.chars = [] ∨ s.chars = [] ∨ s.chars.length = sub.chars.length ∨
      sub.chars.length < s.chars.length ∧ ¬sub.chars <+: s.chars ∧ ¬sub.chars <:+ s.chars := by
  by_cases none : sub.chars = []
  · exact iff_of_true (exact_empty none) (Or.inl none)
  by_cases empty : s.chars = []
  · exact iff_of_true (exact_in_empty none empty) (Or.inr (Or.inl empty))
  rw [or_iff_right none,or_iff_right empty]
  rcases Nat.lt_trichotomy sub.chars.length s.chars.length with shorter | equal | longer
  · rw [exact_shorter_iff none shorter,or_iff_right (Nat.ne_of_gt shorter),and_iff_right shorter]
  · exact iff_of_true (exact_equal none equal.symm) (Or.inl equal.symm)
  · exact iff_of_false (not_exact_longer empty longer) (by omega)

/-- `ab` does not begin with `a`, and whether `a` ends with `ab` is not said. -/
theorem tests_inverted :
    startWith ⟨['a','b'],by decide⟩ ⟨['a'],by decide⟩ = .ok false ∧
      endWith ⟨['a'],by decide⟩ ⟨['a','b'],by decide⟩ = .error .out_of_range ∧
      ¬Exact ⟨['a','b'],by decide⟩ ⟨['a'],by decide⟩ ∧ ¬Exact ⟨['a'],by decide⟩ ⟨['a','b'],by decide⟩ := by
  refine ⟨rfl,rfl,fun exact_ => ?_,fun exact_ => ?_⟩
  · obtain ⟨answer,started,first⟩ := exact_.starts
    cases started
    cases first.mpr ⟨['b'],rfl⟩
  · obtain ⟨answer,ended,_⟩ := exact_.ends
    cases ended

section Split
variable {α : Type} [DecidableEq α] {s delimiter : List α} {last next : Nat}

/-- What is found cuts the rest of the string. -/
theorem find_cuts (found : find delimiter s last = some next) :
    (s.drop last).take (next - last) ++ delimiter ++ s.drop (next + delimiter.length) = s.drop last := by
  obtain ⟨here,after,_⟩ := find_some_iff.mp found
  have behind := List.prefix_iff_eq_append.mp here
  rw [List.drop_drop] at behind
  have ahead := List.take_append_drop (next - last) (s.drop last)
  rw [List.drop_drop,Nat.add_sub_cancel' after] at ahead
  rw [List.append_assoc,behind,ahead]

theorem find_leftmost (found : find delimiter s last = some next) :
    Occurrence.Leftmost delimiter (s.drop last) ((s.drop last).take (next - last)) := by
  refine ⟨⟨_,find_cuts found⟩,fun before after whole => ?_⟩
  obtain ⟨_,_,_,first⟩ := find_some_iff.mp found
  refine Nat.le_trans (List.length_take_le _ _) (Nat.le_of_not_lt fun earlier => ?_)
  -- An earlier occurrence would have been found.
  refine first (last + before.length) (Nat.le_add_right _ _) (by omega) ?_
  rw [← List.drop_drop,whole,List.append_assoc,List.drop_left]
  exact List.prefix_append _ _

theorem absent_of_find (some_ : delimiter ≠ []) (nothing : find delimiter s last = none) :
    ¬delimiter <:+: s.drop last := by
  rintro ⟨before,after,whole⟩
  have positive := List.length_pos_of_ne_nil some_
  have length := congrArg List.length whole
  simp only [List.length_append,List.length_drop] at length
  refine find_none_iff.mp nothing (last + before.length) (Nat.le_add_right _ _) (by omega) ?_
  rw [← List.drop_drop,← whole,List.append_assoc,List.drop_left]
  exact List.prefix_append _ _

theorem splitLoop_found (some_ : delimiter ≠ []) (result : List (List α)) (found : find delimiter s last = some next) :
    splitLoop s delimiter some_ last result = splitLoop s delimiter some_ (next + delimiter.length)
      (if next > last then result ++ [(s.drop last).take (next - last)] else result) := by
  rw [splitLoop]
  split
  · next other same =>
    cases found.symm.trans same
    rfl
  · next nothing => cases found.symm.trans nothing

theorem splitLoop_nothing (some_ : delimiter ≠ []) (result : List (List α))
    (nothing : find delimiter s last = none) :
    splitLoop s delimiter some_ last result = if last < s.length then result ++ [s.drop last] else result := by
  rw [splitLoop]
  split
  · next found => cases nothing.symm.trans found
  · rfl

/-- The loop adds the pieces of the rest of the string that are not empty. -/
theorem splitLoop_pieces (some_ : delimiter ≠ []) (last : Nat) (result : List (List α)) :
    ∃ pieces, Occurrence.Pieces delimiter (s.drop last) pieces ∧
      splitLoop s delimiter some_ last result = result ++ pieces.filter (· ≠ []) := by
  induction last, result using splitLoop.induct s delimiter some_ with
  | case1 last result next found ih =>
    obtain ⟨pieces,cut,looped⟩ := ih
    rw [dite_eq_ite] at looped
    have whole := find_cuts found
    have leftmost : Occurrence.Leftmost delimiter
        ((s.drop last).take (next - last) ++ delimiter ++ s.drop (next + delimiter.length))
        ((s.drop last).take (next - last)) := by
      rw [whole]
      exact find_leftmost found
    have pieced := Occurrence.Pieces.cut _ _ pieces leftmost cut
    rw [whole] at pieced
    refine ⟨_,pieced,?_⟩
    rw [splitLoop_found some_ result found,looped]
    have length : ((s.drop last).take (next - last)).length = next - last := by
      have within := find_within found
      rw [List.length_take,List.length_drop]
      omega
    by_cases further : next > last
    · have piece : (s.drop last).take (next - last) ≠ [] := List.ne_nil_of_length_pos (by omega)
      rw [if_pos further,List.filter_cons_of_pos (by simpa using piece),List.append_assoc]
      rfl
    · have none : (s.drop last).take (next - last) = [] := List.eq_nil_of_length_eq_zero (by omega)
      rw [if_neg further,none,List.filter_cons_of_neg (by simp)]
  | case2 last result nothing more =>
    refine ⟨_,.last _ (absent_of_find some_ nothing),?_⟩
    have piece : s.drop last ≠ [] := by simpa using more
    rw [splitLoop_nothing some_ result nothing,if_pos more,List.filter_cons_of_pos (by simpa using piece)]
    rfl
  | case3 last result nothing more =>
    refine ⟨_,.last _ (absent_of_find some_ nothing),?_⟩
    have none : s.drop last = [] := by simpa using more
    rw [splitLoop_nothing some_ result nothing,if_neg more,none]
    simp

end Split

/-- A string is its pieces with the delimiter between them, which is in none of them, and it is
split into those that are not empty. -/
theorem splitString_pieces {α : Type} [DecidableEq α] (s delimiter : List α) (some_ : delimiter ≠ []) :
    ∃ pieces, Occurrence.Pieces delimiter s pieces ∧
      (∀ others, Occurrence.Pieces delimiter s others → others = pieces) ∧
      delimiter.intercalate pieces = s ∧ splitString s delimiter = pieces.filter (· ≠ []) ∧
      ∀ piece ∈ splitString s delimiter, piece ≠ [] ∧ ¬delimiter <:+: piece := by
  obtain ⟨pieces,cut,looped⟩ := splitLoop_pieces (s := s) some_ 0 []
  rw [List.drop_zero] at cut
  have split : splitString s delimiter = pieces.filter (· ≠ []) := by
    rw [splitString,dif_neg some_,looped,List.nil_append]
  refine ⟨pieces,cut,fun others other => other.unique cut,cut.join,split,fun piece among => ?_⟩
  rw [split,List.mem_filter] at among
  exact ⟨of_decide_eq_true among.2,cut.plain some_ piece among.1⟩

/-- `aa` occurs in `aaab` at its beginning. -/
theorem splitString_pieces_overlapping :
    ∃ pieces, Occurrence.Pieces ['a','a'] ['a','a','a','b'] pieces ∧
      (∀ others, Occurrence.Pieces ['a','a'] ['a','a','a','b'] others → others = pieces) ∧
      ['a','a'].intercalate pieces = ['a','a','a','b'] ∧
      splitString ['a','a','a','b'] ['a','a'] = pieces.filter (· ≠ []) ∧
      ∀ piece ∈ splitString ['a','a','a','b'] ['a','a'], piece ≠ [] ∧ ¬['a','a'] <:+: piece :=
  splitString_pieces ['a','a','a','b'] ['a','a'] (List.cons_ne_nil _ _)

end Tmms.Base.StringUtils
