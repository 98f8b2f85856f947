import Tmms.FixedWidth

/-! The time as a log has it: the text of the local time, to the second. -/
namespace Tmms.Base

open FixedWidth

@[ext] structure Tm where
  tm_year : Int
  tm_mon : Int
  tm_mday : Int
  tm_hour : Int
  tm_min : Int
  tm_sec : Int
  deriving DecidableEq

/-- An `int` as `sprintf` prints it to a width. A sign stands in front of zeros, but behind blanks. -/
def formatInt (zeros : Bool) (width : Nat) (value : Int) : List Char :=
  let fill := if zeros then '0' else ' '
  if 0 ≤ value then decimal fill width value.toNat
  else if zeros then '-' :: decimal fill (width - 1) value.natAbs
  else ('-' :: Nat.toDigits 10 value.natAbs).leftpad width fill

/-- `TTime::ISOTime`, when `localtime_r` finds `tm`. -/
def isoTime (tm : Tm) : List Char :=
  formatInt false 4 (tm.tm_year + 1900) ++ ['-'] ++ formatInt true 2 (tm.tm_mon + 1) ++ ['-'] ++
    formatInt true 2 tm.tm_mday ++ ['T'] ++ formatInt true 2 tm.tm_hour ++ [':'] ++
    formatInt true 2 tm.tm_min ++ [':'] ++ formatInt true 2 tm.tm_sec

namespace Tm

/-- What `localtime_r` finds from the year 0 to the year 9999. -/
structure InRange (tm : Tm) : Prop where
  year : 0 ≤ tm.tm_year + 1900 ∧ tm.tm_year + 1900 < 10000
  month : 0 ≤ tm.tm_mon ∧ tm.tm_mon < 12
  day : 1 ≤ tm.tm_mday ∧ tm.tm_mday ≤ 31
  hour : 0 ≤ tm.tm_hour ∧ tm.tm_hour < 24
  minute : 0 ≤ tm.tm_min ∧ tm.tm_min < 60
  second : 0 ≤ tm.tm_sec ∧ tm.tm_sec ≤ 60

/-- The numbers that are printed. Times are in the order of these lists. -/
def numbers (tm : Tm) : List Nat :=
  [(tm.tm_year + 1900).toNat,(tm.tm_mon + 1).toNat,tm.tm_mday.toNat,tm.tm_hour.toNat,tm.tm_min.toNat,
    tm.tm_sec.toNat]

end Tm

def twoDigits (separator : Char) : Field := ⟨[separator],'0',2,le_refl _,Nat.zero_lt_two⟩

theorem blank_low : ' ' ≤ '0' := by decide

def isoLayout : List Field :=
  [⟨[],' ',4,blank_low,Nat.zero_lt_succ 3⟩,twoDigits '-',twoDigits '-',twoDigits 'T',twoDigits ':',twoDigits ':']

section Text
variable {tm a b : Tm}

theorem Tm.InRange.fits (range : tm.InRange) : Fits isoLayout tm.numbers := by
  obtain ⟨year,month,day,hour,minute,second⟩ := range
  simp only [Fits,isoLayout,twoDigits,Tm.numbers,Nat.reducePow,and_true]
  omega

theorem Tm.InRange.isoTime (range : tm.InRange) : isoTime tm = printed isoLayout tm.numbers := by
  obtain ⟨year,month,day,hour,minute,second⟩ := range
  have later : 0 ≤ tm.tm_mon + 1 := by omega
  have some_ : 0 ≤ tm.tm_mday := by omega
  simp [Base.isoTime,formatInt,year.1,later,some_,hour.1,minute.1,second.1,isoLayout,twoDigits,printed,Tm.numbers]

/-- The texts sort as the times do. -/
theorem isoTime_lt_iff (first : a.InRange) (second : b.InRange) :
    isoTime a < isoTime b ↔ a.numbers < b.numbers := by
  rw [first.isoTime,second.isoTime,printed_lt_iff first.fits second.fits]

theorem isoTime_le_iff (first : a.InRange) (second : b.InRange) :
    isoTime a ≤ isoTime b ↔ a.numbers ≤ b.numbers := by
  rw [← not_lt,← not_lt,isoTime_lt_iff second first]

theorem isoTime_inj (first : a.InRange) (second : b.InRange) (same : isoTime a = isoTime b) : a = b := by
  rw [first.isoTime,second.isoTime] at same
  have numbers := printed_inj first.fits second.fits same
  simp only [Tm.numbers,List.cons.injEq,and_true] at numbers
  obtain ⟨firstYear,firstMonth,firstDay,firstHour,firstMinute,firstSecond⟩ := first
  obtain ⟨secondYear,secondMonth,secondDay,secondHour,secondMinute,secondSecond⟩ := second
  apply Tm.ext
  all_goals omega

theorem isoTime_length (range : tm.InRange) : (isoTime tm).length = 19 := by
  rw [range.isoTime,printed_length range.fits]
  rfl

end Text

/-- From the year 0 to the year 9999 a time has a text of 19 characters that no other time has, and the
texts sort as the times do. -/
theorem isoTime_sorted (a b : Tm) (first : a.InRange) (second : b.InRange) : (isoTime a).length = 19 ∧
    (isoTime a = isoTime b → a = b) ∧ (isoTime a < isoTime b ↔ a.numbers < b.numbers) :=
  ⟨isoTime_length first,isoTime_inj first second,isoTime_lt_iff first second⟩

/-- The last second of the year 999, and the one after it. -/
theorem isoTime_sorted_padded :
    isoTime ⟨-901,11,31,23,59,59⟩ = [' ','9','9','9','-','1','2','-','3','1','T','2','3',':','5','9',':','5','9'] ∧
      (isoTime ⟨-901,11,31,23,59,59⟩ < isoTime ⟨-900,0,1,0,0,0⟩ ↔ [999,12,31,23,59,59] < [1000,1,1,0,0,0]) := by
  have first : Tm.InRange ⟨-901,11,31,23,59,59⟩ := by constructor <;> decide
  have second : Tm.InRange ⟨-900,0,1,0,0,0⟩ := by constructor <;> decide
  exact ⟨by decide,(isoTime_sorted _ _ first second).2.2⟩

end Tmms.Base
