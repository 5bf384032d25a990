import Mathlib

/-!
# Chunks dealt round

Numbers in chunks of one length are dealt to ranks in turn.  How many of the first numbers a rank
has is told by the full turns and by the last turn.
-/

namespace LayerStorm.Lib

open Nat

variable {chunk ranks rank : ℕ}

def dealt (chunk ranks n : ℕ) : ℕ := n / chunk % ranks

/-- How many of the first numbers a rank has. -/
def dealtCount (chunk ranks rank n : ℕ) : ℕ := Nat.count (fun p => dealt chunk ranks p = rank) n

variable (hchunk : 0 < chunk)
include hchunk

theorem dealt_turn (k n : ℕ) :
    dealt chunk ranks (k * (chunk * ranks) + n) = dealt chunk ranks n := by
  have hsum : k * (chunk * ranks) + n = chunk * (k * ranks) + n := by ring
  rw [dealt, dealt, hsum, mul_add_div hchunk, mul_add_mod_self_right]

theorem dealtCount_of_le :
    ∀ {n : ℕ}, n ≤ chunk * ranks → dealtCount chunk ranks rank n = min (n - rank * chunk) chunk := by
  intro n
  induction n with
  | zero => simp [dealtCount]
  | succ n ih =>
    intro hn
    have hdiv : n / chunk < ranks := Nat.div_lt_of_lt_mul (by omega)
    have hiff : dealt chunk ranks n = rank ↔ rank * chunk ≤ n ∧ n < rank * chunk + chunk := by
      rw [dealt, Nat.mod_eq_of_lt hdiv, Nat.div_eq_iff hchunk]
      omega
    have hih := ih (by omega)
    rw [dealtCount] at hih ⊢
    rw [count_succ]
    by_cases h : dealt chunk ranks n = rank
    · have := hiff.1 h
      rw [if_pos h]
      omega
    · rw [if_neg h]
      omega

theorem dealtCount_turns (k n : ℕ) : dealtCount chunk ranks rank (k * (chunk * ranks) + n) =
      k * dealtCount chunk ranks rank (chunk * ranks) + dealtCount chunk ranks rank n := by
  induction k with
  | zero => simp
  | succ k ih =>
    have hsum : (k + 1) * (chunk * ranks) + n = chunk * ranks + (k * (chunk * ranks) + n) := by
      ring
    have hshift : ∀ m, dealt chunk ranks (chunk * ranks + m) = dealt chunk ranks m := by
      intro m
      rw [← dealt_turn hchunk 1 m, one_mul]
    rw [dealtCount] at ih ⊢
    rw [hsum, count_add]
    simp only [hshift]
    rw [ih, dealtCount]
    ring

/-- **The closed form** of what a rank has. -/
theorem dealtCount_eq (hrank : rank < ranks) (n : ℕ) : dealtCount chunk ranks rank n =
      n / (chunk * ranks) * chunk + min (n % (chunk * ranks) - rank * chunk) chunk := by
  have hturn : 0 < chunk * ranks := mul_pos hchunk (by omega)
  have hfull : dealtCount chunk ranks rank (chunk * ranks) = chunk := by
    have hle : (rank + 1) * chunk ≤ ranks * chunk := mul_le_mul_right _ hrank
    rw [add_mul, mul_comm ranks] at hle
    rw [dealtCount_of_le hchunk le_rfl]
    omega
  have hn : n = n / (chunk * ranks) * (chunk * ranks) + n % (chunk * ranks) :=
    (div_add_mod' n _).symm
  conv_lhs => rw [hn]
  rw [dealtCount_turns hchunk, hfull, dealtCount_of_le hchunk (mod_lt _ hturn).le]

omit hchunk in
theorem sum_dealtCount (hranks : 0 < ranks) (n : ℕ) :
    ∑ rank ∈ Finset.range ranks, dealtCount chunk ranks rank n = n := by
  induction n with
  | zero => simp [dealtCount]
  | succ n ih =>
    have hmem : dealt chunk ranks n ∈ Finset.range ranks :=
      Finset.mem_range.2 (mod_lt _ hranks)
    unfold dealtCount at ih ⊢
    simp only [count_succ, Finset.sum_add_distrib, ih, Finset.sum_ite_eq, if_pos hmem]

/-- **The first rank has the most.** -/
theorem sup_dealtCount (hranks : 0 < ranks) (n : ℕ) :
    (Finset.range ranks).sup (dealtCount chunk ranks · n) =
      n / (chunk * ranks) * chunk + min (n % (chunk * ranks)) chunk := by
  have hfirst := dealtCount_eq hchunk hranks n
  rw [Nat.zero_mul, Nat.sub_zero] at hfirst
  rw [← hfirst]
  apply le_antisymm
  · apply Finset.sup_le
    intro rank hrank
    rw [dealtCount_eq hchunk (Finset.mem_range.1 hrank)]
    omega
  · exact Finset.le_sup (f := fun rank => dealtCount chunk ranks rank n)
      (Finset.mem_range.2 hranks)

end LayerStorm.Lib
