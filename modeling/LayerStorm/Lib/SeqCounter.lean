import Mathlib.Data.Nat.ModEq
import Mathlib.Tactic.Ring

/-!
# Free-running sequence counters

A free-running counter of `b` bits stores the number of events so far modulo
`2 ^ b`.  Two counters that are less than `2 ^ b` events apart determine their
distance (`wrapSub_mod`), and a ring of `2 ^ k` slots addressed by masking such a
counter is addressed by the true number of events (`and_mask_mod`): the wrap of
the counter is invisible to it.
-/

namespace LayerStorm.Lib

/-- Subtraction of `b`-bit unsigned integers. -/
def wrapSub (b a c : ℕ) : ℕ := (a + 2 ^ b - c) % 2 ^ b

/-- Two counts in the same residue class less than one wrap apart are equal. -/
theorem eq_of_mod_eq {n a c : ℕ} (hle : c ≤ a) (hlt : a < c + n) (h : a % n = c % n) : a = c := by
  have hdvd : n ∣ a - c := (Nat.modEq_iff_dvd' hle).1 h.symm
  have hzero : a - c = 0 := Nat.eq_zero_of_dvd_of_lt hdvd (by omega)
  omega

/-- Distinct counts within one lap of a ring use distinct slots. -/
theorem mod_ne_mod_of_lt {n a c : ℕ} (hlt : c < a) (hlap : a < c + n) : c % n ≠ a % n :=
  fun h => absurd (eq_of_mod_eq hlt.le hlap h.symm) (by omega)

/-- **The difference of two stored counters is the true difference**, as long as
that is less than one wrap. -/
theorem wrapSub_mod {b a c : ℕ} (hle : c ≤ a) (hlt : a < c + 2 ^ b) :
    wrapSub b (a % 2 ^ b) (c % 2 ^ b) = a - c := by
  unfold wrapSub
  have hpos : 0 < 2 ^ b := Nat.two_pow_pos b
  have ha := Nat.div_add_mod a (2 ^ b)
  have hc := Nat.div_add_mod c (2 ^ b)
  generalize 2 ^ b = n at *
  generalize a % n = ra at *
  generalize c % n = rc at *
  -- the quotients differ by at most one
  have hq : a / n = c / n ∨ a / n = c / n + 1 := by
    have h1 : c / n ≤ a / n := Nat.div_le_div_right hle
    have h2 : a / n ≤ (c + n) / n := Nat.div_le_div_right hlt.le
    rw [Nat.add_div_right c hpos] at h2
    omega
  rcases hq with hq | hq
  · rw [hq] at ha
    have : ra + n - rc = (a - c) + n := by omega
    rw [this, Nat.add_mod_right, Nat.mod_eq_of_lt (by omega)]
  · rw [hq, Nat.mul_add] at ha
    have : ra + n - rc = a - c := by omega
    rw [this, Nat.mod_eq_of_lt (by omega)]

/-- **Masking a stored counter** with `2 ^ k - 1` gives the true count modulo
`2 ^ k`: the wrap at `2 ^ b` is a multiple of the ring. -/
theorem and_mask_mod {b k : ℕ} (hk : k ≤ b) (a : ℕ) : (a % 2 ^ b) &&& (2 ^ k - 1) = a % 2 ^ k := by
  rw [Nat.and_two_pow_sub_one_eq_mod, Nat.mod_mod_of_dvd _ (Nat.pow_dvd_pow 2 hk)]

end LayerStorm.Lib
