import Mathlib.Data.List.Basic
import Mathlib.Algebra.Order.Group.Nat
import Mathlib.Tactic.Ring

/-!
# Lists in blocks of one length

A list made of blocks of the same length is addressed by the number of the block and the position in
it.  Nested loops with a counter that runs through lay out such lists.
-/

namespace LayerStorm.Lib

open Nat

variable {α β : Type*} {m : ℕ}

/-- The number of a block and the position in it are determined. -/
theorem block_index {a b i j : ℕ} (hi : i < m) (hj : j < m) (h : a * m + i = b * m + j) :
    a = b ∧ i = j := by
  have hm : 0 < m := by omega
  have hdiv := congrArg (· / m) h
  have hmod := congrArg (· % m) h
  simp only [mul_add_mod_of_lt hi, mul_add_mod_of_lt hj] at hmod
  simp only [mul_comm _ m, mul_add_div hm, div_eq_of_lt hi, div_eq_of_lt hj, add_zero] at hdiv
  exact ⟨hdiv, hmod⟩

theorem block_lt {a i n : ℕ} (ha : a < n) (hi : i < m) : a * m + i < n * m := by
  calc
    a * m + i < (a + 1) * m := by
      rw [add_mul, one_mul]
      omega
    _ ≤ n * m := mul_le_mul_right _ ha

variable {f : α → List β}

/-- **The element at a position** of a list in blocks. -/
theorem getElem?_flatMap (hm : 0 < m) : ∀ {l : List α}, (∀ a ∈ l, (f a).length = m) → ∀ d : ℕ,
      (l.flatMap f)[d]? = (l[d / m]?).bind fun a => (f a)[d % m]? := by
  intro l
  induction l with
  | nil => simp
  | cons a l ih =>
    intro hlen d
    obtain ⟨ha, hl⟩ := List.forall_mem_cons.1 hlen
    rw [List.flatMap_cons]
    by_cases hd : d < m
    · rw [List.getElem?_append_left (by omega), div_eq_of_lt hd, mod_eq_of_lt hd]
      rfl
    have hle := not_lt.1 hd
    have hdiv : d / m = (d - m) / m + 1 := by rw [← div_eq_sub_div hm hle]
    rw [List.getElem?_append_right (by omega), ha, ih hl, hdiv, mod_eq_sub_mod hle,
      List.getElem?_cons_succ]

theorem getElem?_flatMap_mul_add {l : List α} (hlen : ∀ a ∈ l, (f a).length = m) (k : ℕ) {i : ℕ}
    (hi : i < m) :
    (l.flatMap f)[k * m + i]? = (l[k]?).bind fun a => (f a)[i]? := by
  have hm : 0 < m := by omega
  rw [getElem?_flatMap hm hlen, mul_add_mod_of_lt hi, mul_comm, mul_add_div hm,
    div_eq_of_lt hi, add_zero]

/-- **A stretch in one block** is that stretch of the block. -/
theorem take_drop_flatMap {l : List α} (hlen : ∀ a ∈ l, (f a).length = m) {k : ℕ} {a : α}
    (hk : l[k]? = some a) {i n : ℕ} (hin : i + n ≤ m) :
    ((l.flatMap f).drop (k * m + i)).take n = ((f a).drop i).take n := by
  apply List.ext_getElem?
  intro j
  by_cases hj : j < n
  · have hij : i + j < m := by omega
    rw [List.getElem?_take_of_lt hj, List.getElem?_take_of_lt hj, List.getElem?_drop,
      List.getElem?_drop, add_assoc, getElem?_flatMap_mul_add hlen k hij, hk]
    rfl
  · have hle : n ≤ j := not_lt.1 hj
    rw [List.getElem?_take_eq_none hle, List.getElem?_take_eq_none hle]

end LayerStorm.Lib
