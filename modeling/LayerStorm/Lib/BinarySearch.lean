import Mathlib.Order.Bounds.Basic

/-!
# Searching the largest number

Bisection for the largest number of a range that passes a test which the smaller numbers pass too.
-/

namespace LayerStorm.Lib

variable {p : ℕ → Bool}

/-- The search between two bounds. -/
def searchLargest (p : ℕ → Bool) (lo hi : ℕ) : ℕ :=
  if lo < hi then
    let mid := lo + (hi - lo + 1) / 2
    if p mid then searchLargest p mid hi else searchLargest p lo (mid - 1)
  else lo
termination_by hi - lo

/-- **Where the search ends**: at the lower bound or at a number that passes, and at the upper bound
or before a number that does not. -/
theorem searchLargest_spec (p : ℕ → Bool) {lo hi : ℕ} (hle : lo ≤ hi) :
    lo ≤ searchLargest p lo hi ∧ searchLargest p lo hi ≤ hi ∧
      (searchLargest p lo hi = lo ∨ p (searchLargest p lo hi)) ∧
      (searchLargest p lo hi = hi ∨ ¬ p (searchLargest p lo hi + 1)) := by
  fun_induction searchLargest p lo hi with
  | case1 lo hi hlt mid hmid ih =>
    obtain ⟨hlo, hhi, hpass, hfail⟩ := ih (by omega)
    refine ⟨by omega, hhi, .inr ?_, hfail⟩
    rcases hpass with h | h
    · rwa [h]
    · exact h
  | case2 lo hi hlt mid hmid ih =>
    obtain ⟨hlo, hhi, hpass, hfail⟩ := ih (by omega)
    refine ⟨hlo, by omega, hpass, .inr ?_⟩
    rcases hfail with h | h
    · rwa [h, Nat.sub_add_cancel (by omega)]
    · exact h
  | case3 lo hi hge => exact ⟨le_rfl, hle, .inl rfl, .inl (by omega)⟩

/-- **When the search is exact**: exactly if the number after the upper bound does not pass. -/
theorem searchLargest_isGreatest_iff (hanti : ∀ m n, m ≤ n → p n → p m) (h0 : p 0) (hi : ℕ) :
    IsGreatest {n | p n} (searchLargest p 0 hi) ↔ ¬ p (hi + 1) := by
  obtain ⟨-, hle, hpass, hfail⟩ := searchLargest_spec p (Nat.zero_le hi)
  constructor
  · intro hgreatest hpass'
    have := hgreatest.2 hpass'
    omega
  · intro hstop
    refine ⟨?_, fun n hn => ?_⟩
    · rcases hpass with h | h
      · rw [h]
        exact h0
      · exact h
    · by_contra hlt
      have hnext : p (searchLargest p 0 hi + 1) := hanti _ n (by omega) hn
      rcases hfail with h | h
      · rw [h] at hnext
        exact hstop hnext
      · exact h hnext

end LayerStorm.Lib
