import Mathlib.Algebra.Ring.Int.Defs

/-! The clock as the program reads it: milliseconds of real time, returned as an `int16_t`.
A reading says the real time up to a multiple of 65536 ms. -/
namespace Tmms.Base

def int16 (value : Int) : Int := (value + 2^15) % 2^16 - 2^15

/-- `TTime::NowMs`, when real time is `clock` milliseconds. -/
def nowMs (clock : Int) : Int := int16 clock

/-- How often the readings have wrapped by then. -/
def wraps (clock : Int) : Int := (clock + 2^15) / 2^16

theorem int16_eq (value : Int) : int16 value = value - 2^16 * wraps value := by
  simp only [int16,wraps]
  omega

theorem int16_range (value : Int) : -2^15 ≤ int16 value ∧ int16 value < 2^15 := by
  simp only [int16]
  omega

theorem int16_add (a b : Int) : int16 (int16 a + b) = int16 (a + b) := by
  simp only [int16]
  omega

theorem int16_add_right (a b : Int) : int16 (a + int16 b) = int16 (a + b) := by
  simp only [int16]
  omega

end Tmms.Base
