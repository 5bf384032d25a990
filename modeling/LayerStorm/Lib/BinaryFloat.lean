import Mathlib.Algebra.Order.Field.Power
import Mathlib.Tactic.Ring
import Mathlib.Tactic.NormNum

/-!
# Binary number formats

A number format with a sign, an exponent and a fraction, and the number a code stands for.  Some
codes stand for no number.
-/

namespace LayerStorm.Lib

/-- A binary format; the reserved codes stand for infinities and for no number. -/
structure BinaryFormat where
  exponentBits : ℕ
  fractionBits : ℕ
  bias : ℕ
  reserved : ℕ → ℕ → Bool

namespace BinaryFormat

variable (f : BinaryFormat)

/-- The magnitude of a code; an exponent of zero has no leading one. -/
def magnitude (exponent fraction : ℕ) : ℚ :=
  if exponent = 0 then fraction * 2 ^ (1 - f.bias - f.fractionBits : ℤ)
  else (2 ^ f.fractionBits + fraction) * 2 ^ (exponent - f.bias - f.fractionBits : ℤ)

/-- The number of a code, if it stands for one. -/
def decode (code : ℕ) : Option ℚ :=
  let fraction := code % 2 ^ f.fractionBits
  let exponent := code / 2 ^ f.fractionBits % 2 ^ f.exponentBits
  let negative := code / 2 ^ (f.fractionBits + f.exponentBits) % 2 = 1
  if f.reserved exponent fraction then none
  else some (if negative then -f.magnitude exponent fraction else f.magnitude exponent fraction)

variable {f}

theorem magnitude_power {e : ℕ} (he : e ≠ 0) : f.magnitude e 0 = 2 ^ (e - f.bias : ℤ) := by
  have h2 : (2 : ℚ) ≠ 0 := by norm_num
  rw [magnitude, if_neg he, Nat.cast_zero, add_zero, ← zpow_natCast, ← zpow_add₀ h2]
  congr 1
  ring

theorem decode_power {e : ℕ} (h0 : e ≠ 0) (he : e < 2 ^ f.exponentBits)
    (hreserved : f.reserved e 0 = false) :
    f.decode (e * 2 ^ f.fractionBits) = some (2 ^ (e - f.bias : ℤ)) := by
  have hpos : 0 < 2 ^ f.fractionBits := Nat.two_pow_pos _
  have hsign : e * 2 ^ f.fractionBits / 2 ^ (f.fractionBits + f.exponentBits) = 0 := by
    apply Nat.div_eq_of_lt
    rw [Nat.pow_add, Nat.mul_comm]
    exact Nat.mul_lt_mul_of_pos_left he hpos
  simp only [decode, Nat.mul_mod_left, Nat.mul_div_cancel _ hpos, Nat.mod_eq_of_lt he, hreserved,
    hsign, magnitude_power h0]
  simp

end BinaryFormat

end LayerStorm.Lib
