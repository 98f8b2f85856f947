import Mathlib.Algebra.Order.Ring.Nat
import Mathlib.Data.Char
import Mathlib.Data.List.Lex

/-! Numbers printed to a fixed width. Texts of one width are in the order of the numbers, and
fields of fixed widths, one behind the other, are compared field by field. -/
namespace FixedWidth

section Fields
variable {α : Type} [LinearOrder α]

/-- What follows is compared only where the first fields are the same. -/
theorem append_lt_append_iff {a b : List α} (same : a.length = b.length) (x y : List α) :
    a ++ x < b ++ y ↔ a < b ∨ a = b ∧ x < y := by
  induction a generalizing b with
  | nil =>
    cases List.eq_nil_of_length_eq_zero same.symm
    simp
  | cons c a ih =>
    cases b with
    | nil => cases same
    | cons d b =>
      have shorter : a.length = b.length := Nat.succ.inj same
      simp only [List.cons_append,List.cons_lt_cons_iff,ih shorter,List.cons.injEq]
      constructor
      · rintro (less | ⟨rfl,less | ⟨rfl,less⟩⟩)
        · exact Or.inl (Or.inl less)
        · exact Or.inl (Or.inr ⟨rfl,less⟩)
        · exact Or.inr ⟨⟨rfl,rfl⟩,less⟩
      · rintro ((less | ⟨rfl,less⟩) | ⟨⟨rfl,rfl⟩,less⟩)
        · exact Or.inl less
        · exact Or.inr ⟨rfl,Or.inl less⟩
        · exact Or.inr ⟨rfl,Or.inr ⟨rfl,less⟩⟩

end Fields

def significant (n : Nat) : List Char := if n = 0 then [] else Nat.toDigits 10 n

def decimal (fill : Char) (width n : Nat) : List Char := (Nat.toDigits 10 n).leftpad width fill

theorem toDigits_concat (n : Nat) :
    Nat.toDigits 10 n = significant (n / 10) ++ [(n % 10).digitChar] := by
  rw [Nat.toDigits_eq_if (by decide),significant]
  by_cases small : n < 10
  · rw [if_pos small,if_pos (Nat.div_eq_of_lt small),Nat.mod_eq_of_lt small]
    rfl
  · have more : n / 10 ≠ 0 := by omega
    rw [if_neg small,if_neg more]

theorem significant_concat {n : Nat} (positive : 0 < n) :
    significant n = significant (n / 10) ++ [(n % 10).digitChar] := by
  rw [← toDigits_concat,significant,if_neg (Nat.pos_iff_ne_zero.mp positive)]

/-- No number has more digits than its width. -/
theorem significant_length {n width : Nat} (fits : n < 10 ^ width) : (significant n).length ≤ width := by
  induction width generalizing n with
  | zero =>
    have zero : n = 0 := by omega
    simp [significant,zero]
  | succ width ih =>
    rcases Nat.eq_zero_or_pos n with rfl | positive
    · simp [significant]
    · have shorter : n / 10 < 10 ^ width := by
        rw [Nat.pow_succ] at fits
        omega
      rw [significant_concat positive,List.length_append]
      exact Nat.succ_le_succ (ih shorter)

theorem leftpad_concat (width : Nat) (fill c : Char) (text : List Char) :
    (text ++ [c]).leftpad (width + 1) fill = text.leftpad width fill ++ [c] := by
  simp [List.leftpad]

theorem leftpad_length {width : Nat} {text : List Char} (fill : Char) (fits : text.length ≤ width) :
    (text.leftpad width fill).length = width := by
  rw [List.length_leftpad,Nat.max_eq_left fits]

theorem decimal_concat (fill : Char) (width n : Nat) :
    decimal fill (width + 1) n = (significant (n / 10)).leftpad width fill ++ [(n % 10).digitChar] := by
  rw [decimal,toDigits_concat,leftpad_concat]

theorem decimal_length (fill : Char) {width n : Nat} (positive : 0 < width) (fits : n < 10 ^ width) :
    (decimal fill width n).length = width := by
  obtain ⟨width,rfl⟩ := Nat.exists_eq_succ_of_ne_zero (Nat.pos_iff_ne_zero.mp positive)
  have shorter : n / 10 < 10 ^ width := by
    rw [Nat.succ_eq_add_one,Nat.pow_succ] at fits
    omega
  rw [Nat.succ_eq_add_one,decimal_concat,List.length_append,leftpad_length fill (significant_length shorter)]
  rfl

section Order
variable {fill : Char} {width n m : Nat}

theorem digitChar_lt {d e : Nat} (less : d < e) (digit : e < 10) : d.digitChar < e.digitChar := by
  have all : ∀ e < 10, ∀ d < e, d.digitChar < e.digitChar := by decide
  exact all e digit d less

/-- Numbers of which zero has no digit, so the fill must come before all digits but '0'. -/
theorem significant_lt (low : fill ≤ '0') (less : n < m) (fits : m < 10 ^ width) :
    (significant n).leftpad width fill < (significant m).leftpad width fill := by
  induction width generalizing n m with
  | zero => omega
  | succ width ih =>
    have within_ : m / 10 < 10 ^ width := by
      rw [Nat.pow_succ] at fits
      omega
    have positive : 0 < m := Nat.zero_lt_of_lt less
    have target : (significant m).leftpad (width + 1) fill =
        (significant (m / 10)).leftpad width fill ++ [(m % 10).digitChar] := by
      rw [significant_concat positive,leftpad_concat]
    have widths : ∀ k, k < 10 ^ width → ((significant k).leftpad width fill).length = width :=
      fun k fits => leftpad_length fill (significant_length fits)
    -- the last character of the lesser number is a digit, or the fill where it is zero
    obtain ⟨c,source,last⟩ : ∃ c, (significant n).leftpad (width + 1) fill =
        (significant (n / 10)).leftpad width fill ++ [c] ∧ (n / 10 = m / 10 → c < (m % 10).digitChar) := by
      rcases Nat.eq_zero_or_pos n with rfl | some_
      · refine ⟨fill,?_,fun same => ?_⟩
        · simp [significant,List.leftpad,List.replicate_succ']
        · have more : Nat.digitChar 0 < (m % 10).digitChar := digitChar_lt (by omega) (by omega)
          exact lt_of_le_of_lt low more
      · exact ⟨(n % 10).digitChar,by rw [significant_concat some_,leftpad_concat],
          fun same => digitChar_lt (by omega) (by omega)⟩
    rw [source,target,append_lt_append_iff ((widths _ (by omega)).trans (widths _ within_).symm)]
    rcases Nat.lt_or_ge (n / 10) (m / 10) with before | after
    · exact Or.inl (ih before within_)
    · have same : n / 10 = m / 10 := by omega
      exact Or.inr ⟨by rw [same],List.cons_lt_cons_iff.mpr (Or.inl (last same))⟩

theorem decimal_lt (low : fill ≤ '0') (less : n < m) (fits : m < 10 ^ width) :
    decimal fill width n < decimal fill width m := by
  cases width with
  | zero => omega
  | succ width =>
    have within_ : m / 10 < 10 ^ width := by
      rw [Nat.pow_succ] at fits
      omega
    have widths : ∀ k, k < 10 ^ width → ((significant k).leftpad width fill).length = width :=
      fun k fits => leftpad_length fill (significant_length fits)
    rw [decimal_concat,decimal_concat,append_lt_append_iff ((widths _ (by omega)).trans (widths _ within_).symm)]
    rcases Nat.lt_or_ge (n / 10) (m / 10) with before | after
    · exact Or.inl (significant_lt low before within_)
    · have same : n / 10 = m / 10 := by omega
      exact Or.inr ⟨by rw [same],List.cons_lt_cons_iff.mpr (Or.inl (digitChar_lt (by omega) (by omega)))⟩

/-- Texts of one width are in the order of the numbers. -/
theorem decimal_lt_iff (low : fill ≤ '0') (first : n < 10 ^ width) (second : m < 10 ^ width) :
    decimal fill width n < decimal fill width m ↔ n < m := by
  refine ⟨fun less => ?_,fun less => decimal_lt low less second⟩
  rcases Nat.lt_trichotomy n m with before | rfl | after
  · exact before
  · exact absurd less (lt_irrefl _)
  · exact absurd less (lt_asymm (decimal_lt low after first))

theorem decimal_inj (low : fill ≤ '0') (first : n < 10 ^ width) (second : m < 10 ^ width) :
    decimal fill width n = decimal fill width m ↔ n = m := by
  refine ⟨fun same => ?_,fun same => by rw [same]⟩
  rcases Nat.lt_trichotomy n m with before | equal | after
  · exact absurd same (ne_of_lt (decimal_lt low before second))
  · exact equal
  · exact absurd same (ne_of_gt (decimal_lt low after first))

end Order

/-- How a number is printed, and the text in front of it. -/
structure Field where
  before : List Char
  fill : Char
  width : Nat
  low : fill ≤ '0'
  positive : 0 < width

def printed : List Field → List Nat → List Char
  | field :: layout,n :: ns => field.before ++ (decimal field.fill field.width n ++ printed layout ns)
  | _,_ => []

/-- There is a number for each field, and no number is too large for its field. -/
def Fits : List Field → List Nat → Prop
  | field :: layout,n :: ns => n < 10 ^ field.width ∧ Fits layout ns
  | [],[] => True
  | _,_ => False

/-- The texts are in the order in which the numbers are, the first field first. -/
theorem printed_lt_iff {layout : List Field} {ns ms : List Nat} (first : Fits layout ns) (second : Fits layout ms) :
    printed layout ns < printed layout ms ↔ ns < ms := by
  induction layout generalizing ns ms with
  | nil =>
    cases ns with
    | cons => exact first.elim
    | nil =>
      cases ms with
      | cons => exact second.elim
      | nil => simp [printed]
  | cons field layout ih =>
    cases ns with
    | nil => exact first.elim
    | cons n ns =>
      cases ms with
      | nil => exact second.elim
      | cons m ms =>
        have widths := (decimal_length field.fill field.positive first.1).trans
          (decimal_length field.fill field.positive second.1).symm
        simp only [printed,append_lt_append_iff rfl,lt_irrefl,false_or,true_and,append_lt_append_iff widths,
          decimal_lt_iff field.low first.1 second.1,decimal_inj field.low first.1 second.1,
          ih first.2 second.2,List.cons_lt_cons_iff]

/-- Numbers that are printed alike are the same. -/
theorem printed_inj {layout : List Field} {ns ms : List Nat} (first : Fits layout ns) (second : Fits layout ms)
    (same : printed layout ns = printed layout ms) : ns = ms := by
  rcases lt_trichotomy ns ms with less | equal | more
  · exact absurd same (ne_of_lt ((printed_lt_iff first second).mpr less))
  · exact equal
  · exact absurd same (ne_of_gt ((printed_lt_iff second first).mpr more))

/-- The text is as long as its fields are wide. -/
theorem printed_length {layout : List Field} {ns : List Nat} (fits : Fits layout ns) :
    (printed layout ns).length = (layout.map fun field => field.before.length + field.width).sum := by
  induction layout generalizing ns with
  | nil => cases ns <;> rfl
  | cons field layout ih =>
    cases ns with
    | nil => exact fits.elim
    | cons n ns =>
      simp only [printed,List.length_append,decimal_length field.fill field.positive fits.1,ih fits.2,
        List.map_cons,List.sum_cons]
      omega

end FixedWidth
