import Mathlib.Tactic

/-!
# Least recent use

The uses of some items are recorded in a list.  A counter that is advanced with every use stamps
each item with the time of its last use, and an item with the smallest stamp is the one that has
been used least recently.
-/

namespace LayerStorm.Lib

variable {α : Type*} {uses : List α} {a b : α} {i j : ℕ}

/-- The last use of `a` is the one with the number `k`, counted from one. -/
def LastUsedAt (uses : List α) (a : α) (k : ℕ) : Prop :=
  ∃ before since, uses = before ++ a :: since ∧ before.length + 1 = k ∧ a ∉ since

/-- All others have been used since the last use of `a`. -/
def LeastRecent (uses : List α) (a : α) (others : List α) : Prop :=
  ∃ before since, uses = before ++ a :: since ∧ a ∉ since ∧ ∀ b ∈ others, b ≠ a → b ∈ since

/-- The use of another item. -/
theorem LastUsedAt.append (h : LastUsedAt uses a i) (hne : b ≠ a) :
    LastUsedAt (uses ++ [b]) a i := by
  obtain ⟨before, since, rfl, hlen, hnot⟩ := h
  refine ⟨before, since ++ [b], by simp, hlen, ?_⟩
  simp [hnot, hne.symm]

theorem lastUsedAt_append_self (uses : List α) (a : α) :
    LastUsedAt (uses ++ [a]) a (uses.length + 1) :=
  ⟨uses, [], by simp, rfl, by simp⟩

theorem LastUsedAt.mem_since (hb : LastUsedAt uses b j) (hij : i ≤ j) (hne : b ≠ a)
    {before since : List α} (heq : uses = before ++ a :: since)
    (hlen : before.length + 1 = i) : b ∈ since := by
  obtain ⟨before', since', heq', hlen', -⟩ := hb
  have hget : uses[j - 1]? = some b := by
    rw [heq', ← hlen', Nat.add_sub_cancel, List.getElem?_append_right le_rfl]
    simp
  rw [heq] at hget
  rcases Nat.lt_or_eq_of_le hij with hlt | rfl
  · -- the position of `b` lies behind that of `a`
    rw [List.getElem?_append_right (by omega)] at hget
    have hpos : j - 1 - before.length = (j - 2 - before.length) + 1 := by omega
    rw [hpos, List.getElem?_cons_succ] at hget
    exact List.mem_of_getElem? hget
  · rw [← hlen, Nat.add_sub_cancel, List.getElem?_append_right le_rfl] at hget
    simp only [Nat.sub_self, List.getElem?_cons_zero, Option.some.injEq] at hget
    exact absurd hget.symm hne

/-- **The smallest stamp is that of the least recently used item.** -/
theorem leastRecent_of_le {others : List α} (ha : LastUsedAt uses a i)
    (hle : ∀ b ∈ others, ∃ j, LastUsedAt uses b j ∧ i ≤ j) : LeastRecent uses a others := by
  obtain ⟨before, since, heq, hlen, hnot⟩ := ha
  refine ⟨before, since, heq, hnot, fun b hb hne => ?_⟩
  obtain ⟨j, hj, hij⟩ := hle b hb
  exact hj.mem_since hij hne heq hlen

end LayerStorm.Lib
