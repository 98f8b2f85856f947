import Mathlib.Data.BitVec
import Mathlib.Data.List.Induction

/-! IPv4 addresses of four octets: their text and its strict reader, their value, and the networks
they lie in. -/
namespace DottedQuad

section Decimal
variable {s : List Char}

structure Canonical (s : List Char) : Prop where
  some_ : s ≠ []
  digits : s.all Char.isDigit = true
  leading : s.head? = some '0' → s = ['0']

instance (s : List Char) : Decidable (Canonical s) :=
  decidable_of_iff (s ≠ [] ∧ s.all Char.isDigit = true ∧ (s.head? = some '0' → s = ['0']))
    ⟨fun ⟨some_,digits,leading⟩ => ⟨some_,digits,leading⟩,fun h => ⟨h.some_,h.digits,h.leading⟩⟩

theorem Canonical.digit (canonical : Canonical s) {c : Char} (among : c ∈ s) : c.isDigit = true :=
  List.all_eq_true.mp canonical.digits c among

theorem digitChar_sub {c : Char} (digit : c.isDigit = true) :
    c.toNat - 48 < 10 ∧ (c.toNat - 48).digitChar = c := by
  have bounds : 48 ≤ c.toNat ∧ c.toNat ≤ 57 := by
    simpa [Char.isDigit,UInt32.le_iff_toNat_le] using digit
  have small : c.toNat - 48 < 10 := by omega
  refine ⟨small,Char.toNat_inj.mp ?_⟩
  rw [Nat.toNat_digitChar_of_lt_ten small]
  omega

theorem canonical_toDigits (n : Nat) : Canonical (Nat.toDigits 10 n) := by
  refine ⟨Nat.toDigits_ne_nil,List.all_eq_true.mpr fun c among => ?_,?_⟩
  · exact Nat.isDigit_of_mem_toDigits (by decide) (by decide) among
  induction n using Nat.base_induction 10 (by decide) with
  | single n small =>
    rw [Nat.toDigits_of_lt_base small]
    intro zero
    rw [Option.some.inj zero]
  | digit n k small positive ih =>
    rw [← Nat.toDigits_append_toDigits (by decide) positive small]
    intro zero
    rw [List.head?_append_of_ne_nil _ Nat.toDigits_ne_nil] at zero
    have value : Nat.ofDigitChars 10 (Nat.toDigits 10 n) 0 = 0 := by
      rw [ih zero]
      rfl
    rw [Nat.ofDigitChars_ten_toDigits] at value
    omega

/-- The only canonical text of a number is its own. -/
theorem toDigits_of_canonical (canonical : Canonical s) : Nat.toDigits 10 (Nat.ofDigitChars 10 s 0) = s := by
  induction s using List.reverseRecOn with
  | nil => exact absurd rfl canonical.some_
  | append_singleton s c ih =>
    obtain ⟨small,same⟩ := digitChar_sub (canonical.digit List.mem_concat_self)
    have value : Nat.ofDigitChars 10 (s ++ [c]) 0 = 10 * Nat.ofDigitChars 10 s 0 + (c.toNat - 48) := by
      rw [Nat.ofDigitChars_append]
      rfl
    have last : Nat.toDigits 10 (c.toNat - 48) = [c] := by
      rw [Nat.toDigits_of_lt_base small,same]
    by_cases alone : s = []
    · subst alone
      rw [value,Nat.ofDigitChars_nil,Nat.mul_zero,Nat.zero_add]
      exact last
    have first : (s ++ [c]).head? = s.head? := List.head?_append_of_ne_nil _ alone
    -- A zero in front of `c` would be a needless one, so that what is before `c` is not zero.
    have nonzero : s.head? ≠ some '0' := by
      intro zero
      have short := congrArg List.length (canonical.leading (first.trans zero))
      have positive := List.length_pos_of_ne_nil alone
      rw [List.length_append,List.length_singleton,List.length_singleton] at short
      omega
    have digits : s.all Char.isDigit = true :=
      List.all_eq_true.mpr fun d among => canonical.digit (List.mem_append_left _ among)
    have text := ih ⟨alone,digits,fun zero => absurd zero nonzero⟩
    have positive : 0 < Nat.ofDigitChars 10 s 0 := by
      refine Nat.pos_of_ne_zero fun zero => nonzero ?_
      rw [← text,zero]
      rfl
    rw [value,← Nat.toDigits_append_toDigits (by decide) positive small,text,last]

end Decimal

structure Quad where
  a : BitVec 8
  b : BitVec 8
  c : BitVec 8
  d : BitVec 8
  deriving DecidableEq

section Text

def octetText (o : BitVec 8) : List Char := Nat.toDigits 10 o.toNat

def octet (s : List Char) : Option (BitVec 8) :=
  if Canonical s ∧ Nat.ofDigitChars 10 s 0 < 256 then some (BitVec.ofNat 8 (Nat.ofDigitChars 10 s 0)) else none

def Quad.text (q : Quad) : List Char :=
  ['.'].intercalate [octetText q.a,octetText q.b,octetText q.c,octetText q.d]

def parse (text : List Char) : Option Quad :=
  match text.splitOn '.' with
  | [a,b,c,d] =>
    (octet a).bind fun a => (octet b).bind fun b => (octet c).bind fun c => (octet d).map fun d => ⟨a,b,c,d⟩
  | _ => none

theorem octet_eq_some {s : List Char} {o : BitVec 8} : octet s = some o ↔ s = octetText o := by
  rw [octet,octetText]
  constructor
  · intro read
    split at read
    · next valid =>
      rw [← Option.some.inj read,BitVec.toNat_ofNat,Nat.mod_eq_of_lt valid.2]
      exact (toDigits_of_canonical valid.1).symm
    · cases read
  · rintro rfl
    rw [Nat.ofDigitChars_ten_toDigits,if_pos ⟨canonical_toDigits _,o.isLt⟩,BitVec.ofNat_toNat,BitVec.setWidth_eq]

theorem octetText_digit {o : BitVec 8} {c : Char} (among : c ∈ octetText o) : c.isDigit = true :=
  (canonical_toDigits o.toNat).digit among

theorem text_char {q : Quad} {c : Char} (among : c ∈ q.text) : c = '.' ∨ c.isDigit = true := by
  simp only [Quad.text,List.intercalate,List.intersperse,List.flatten_cons,List.flatten_nil,List.mem_append,
    List.mem_singleton,List.not_mem_nil,or_false] at among
  rcases among with digit | dot | digit | dot | digit | dot | digit
  · exact Or.inr (octetText_digit digit)
  · exact Or.inl dot
  · exact Or.inr (octetText_digit digit)
  · exact Or.inl dot
  · exact Or.inr (octetText_digit digit)
  · exact Or.inl dot
  · exact Or.inr (octetText_digit digit)

theorem not_mem_text {q : Quad} {c : Char} (plain : c ≠ '.') (digit : c.isDigit = false) : c ∉ q.text := by
  intro among
  rcases text_char among with dot | other
  · exact plain dot
  · rw [digit] at other
    cases other

theorem splitOn_text (q : Quad) :
    q.text.splitOn '.' = [octetText q.a,octetText q.b,octetText q.c,octetText q.d] := by
  refine List.splitOn_intercalate '.' (fun s among => ?_) (List.cons_ne_nil _ _)
  intro dot
  simp only [List.mem_cons,List.not_mem_nil,or_false] at among
  have digit : ('.' : Char).isDigit = true := by
    rcases among with rfl | rfl | rfl | rfl
    all_goals exact octetText_digit dot
  exact absurd digit (by decide)

/-- What is read is the text of an address, and nothing else is read. -/
theorem parse_eq_some {text : List Char} {q : Quad} : parse text = some q ↔ text = q.text := by
  constructor
  · intro read
    have joined : ['.'].intercalate (text.splitOn '.') = text := List.intercalate_splitOn '.'
    rw [parse] at read
    split at read
    · next a b c d pieces =>
      simp only [Option.bind_eq_some_iff,Option.map_eq_some_iff,octet_eq_some] at read
      obtain ⟨_,rfl,_,rfl,_,rfl,_,rfl,rfl⟩ := read
      rw [← joined,pieces]
      rfl
    · cases read
  · rintro rfl
    rw [parse,splitOn_text]
    dsimp only
    rw [octet_eq_some.mpr rfl,octet_eq_some.mpr rfl,octet_eq_some.mpr rfl,octet_eq_some.mpr rfl]
    rfl

theorem parse_text (q : Quad) : parse q.text = some q := parse_eq_some.mpr rfl

theorem text_injective {p q : Quad} (same : p.text = q.text) : p = q := by
  have read := parse_text p
  rw [same,parse_text] at read
  exact (Option.some.inj read).symm

end Text
section Networks

def Quad.value (q : Quad) : BitVec 32 := q.a ++ q.b ++ q.c ++ q.d

theorem append_injective {v w : Nat} {x x' : BitVec v} {y y' : BitVec w} (same : x ++ y = x' ++ y') :
    x = x' ∧ y = y' := by
  have high := congrArg (BitVec.extractLsb' w v) same
  have low := congrArg (BitVec.extractLsb' 0 w) same
  rw [BitVec.extractLsb'_append_eq_left,BitVec.extractLsb'_append_eq_left] at high
  rw [BitVec.extractLsb'_append_eq_right,BitVec.extractLsb'_append_eq_right] at low
  exact ⟨high,low⟩

theorem value_injective {p q : Quad} (same : p.value = q.value) : p = q := by
  obtain ⟨abc,d⟩ := append_injective same
  obtain ⟨ab,c⟩ := append_injective abc
  obtain ⟨a,b⟩ := append_injective ab
  cases p
  cases q
  simp only [Quad.mk.injEq]
  exact ⟨a,b,c,d⟩

/-- The first `bits` bits are those of `net`. -/
def Quad.Within (q net : Quad) (bits : Nat) : Prop := q.value >>> (32 - bits) = net.value >>> (32 - bits)

instance (q net : Quad) (bits : Nat) : Decidable (q.Within net bits) :=
  inferInstanceAs (Decidable (q.value >>> (32 - bits) = net.value >>> (32 - bits)))

variable {q net last sub : Quad} {bits longer : Nat}

/-- Two networks with an address in common lie one in the other. -/
theorem Quad.Within.nested (outer : q.Within net bits) (inner : q.Within sub longer) (le : bits ≤ longer) :
    sub.Within net bits := by
  have further : 32 - bits = 32 - longer + (32 - bits - (32 - longer)) := by omega
  have common : q.value >>> (32 - longer) = sub.value >>> (32 - longer) := inner
  have outside : q.value >>> (32 - bits) = net.value >>> (32 - bits) := outer
  rw [Quad.Within,← outside,further,BitVec.shiftRight_add,BitVec.shiftRight_add,common]

/-- A network is the range from its first address to its last. -/
theorem within_iff (first : net.value.toNat % 2 ^ (32 - bits) = 0)
    (end_ : last.value.toNat + 1 = net.value.toNat + 2 ^ (32 - bits)) :
    q.Within net bits ↔ net.value ≤ q.value ∧ q.value ≤ last.value := by
  have positive : 0 < 2 ^ (32 - bits) := Nat.two_pow_pos _
  have whole := Nat.div_add_mod net.value.toNat (2 ^ (32 - bits))
  rw [first,Nat.add_zero] at whole
  rw [Quad.Within,BitVec.toNat_eq,BitVec.toNat_ushiftRight,BitVec.toNat_ushiftRight,Nat.shiftRight_eq_div_pow,
    Nat.shiftRight_eq_div_pow,BitVec.le_def,BitVec.le_def,Nat.div_eq_iff positive,Nat.mul_comm,whole]
  omega

end Networks
end DottedQuad
