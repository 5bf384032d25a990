import Mathlib.Data.List.Basic
import Mathlib.Data.List.Perm.Basic

/-!
# Walking a vector backwards with swap-removal

A common way to visit the elements of a vector and to remove some of them in place is to
run the index from the end to the beginning, and to remove an element by moving the last
one into its place.  What is moved has been visited already, so that every element is
visited once; but the elements that stay change their order.
-/

namespace LayerStorm.Lib

variable {α σ : Type*}

/-! ### Removing by swapping -/

/-- Move the last element to index `i` and shorten the vector by one. -/
def swapRemove (l : List α) (i : ℕ) : List α :=
  match l.getLast? with
  | none => l
  | some b => (l.set i b).dropLast

theorem swapRemove_last (l : List α) (a : α) : swapRemove (l ++ [a]) l.length = l := by
  simp [swapRemove]

theorem swapRemove_middle (l : List α) (a : α) (r : List α) (b : α) :
    swapRemove (l ++ a :: (r ++ [b])) l.length = l ++ b :: r := by
  have hlast : (l ++ a :: (r ++ [b])).getLast? = some b := by
    rw [← List.cons_append, ← List.append_assoc]
    exact List.getLast?_concat ..
  have hset : (l ++ a :: (r ++ [b])).set l.length b = (l ++ b :: r) ++ [b] := by
    simp
  simp only [swapRemove, hlast]
  rw [hset, List.dropLast_concat]

theorem swapRemove_append (l : List α) (a : α) (r : List α) :
    ∃ r', swapRemove (l ++ a :: r) l.length = l ++ r' ∧ r'.Perm r := by
  rcases List.eq_nil_or_concat' r with rfl | ⟨r, b, rfl⟩
  · exact ⟨[], by rw [swapRemove_last, List.append_nil], List.Perm.refl _⟩
  · refine ⟨b :: r, swapRemove_middle l a r b, ?_⟩
    exact (List.perm_append_singleton b r).symm

/-! ### The walk -/

/-- One round of the loop, at index `i`. -/
def visitAt (visit : σ → α → σ × Option α) (i : ℕ) (v : σ × List α) : σ × List α :=
  match v.2[i]? with
  | none => v
  | some a =>
    match visit v.1 a with
    | (s, none) => (s, swapRemove v.2 i)
    | (s, some b) => (s, v.2.set i b)

/-- **The loop**: visit the elements at the indices below `n`, from the last one on. -/
def walkBack (visit : σ → α → σ × Option α) : ℕ → σ × List α → σ × List α
  | 0, v => v
  | i + 1, v => walkBack visit i (visitAt visit i v)

theorem visitAt_append (visit : σ → α → σ × Option α) (s : σ) (l : List α) (a : α) (r : List α) :
    ∃ r', visitAt visit l.length (s, l ++ a :: r) = ((visit s a).1, l ++ r') ∧
      r'.Perm ((visit s a).2.toList ++ r) := by
  have hget : (l ++ a :: r)[l.length]? = some a := by simp
  rcases hv : visit s a with ⟨t, _ | b⟩
  · obtain ⟨r', hr', hperm⟩ := swapRemove_append l a r
    exact ⟨r', by simp only [visitAt, hget, hv, hr'], hperm⟩
  · refine ⟨b :: r, ?_, List.Perm.refl _⟩
    simp only [visitAt, hget, hv]
    simp

/-- **The rule for a walk.**  `P s l kept` speaks of the state, of the elements `l` that are
still to be visited and of the elements `kept` that stay; it must not depend on the order of
the latter. -/
theorem walkBack_invariant (visit : σ → α → σ × Option α) {P : σ → List α → List α → Prop}
    (hperm : ∀ s l kept kept', kept.Perm kept' → P s l kept → P s l kept')
    (hvisit : ∀ s l a kept, P s (l ++ [a]) kept →
      P (visit s a).1 l ((visit s a).2.toList ++ kept)) :
    ∀ (n : ℕ) (s : σ) (l kept : List α), l.length = n → P s l kept →
      P (walkBack visit n (s, l ++ kept)).1 [] (walkBack visit n (s, l ++ kept)).2 := by
  intro n
  induction n with
  | zero =>
    intro s l kept hn hP
    obtain rfl := List.length_eq_zero_iff.1 hn
    exact hP
  | succ n ih =>
    intro s l kept hn hP
    obtain rfl | ⟨l, a, rfl⟩ := List.eq_nil_or_concat' l
    · simp at hn
    have hl : l.length = n := by simpa using hn
    obtain ⟨kept', hround, hkept⟩ := visitAt_append visit s l a kept
    have hnext := hperm _ _ _ _ hkept.symm (hvisit s l a kept (by simpa using hP))
    have := ih _ l kept' hl hnext
    simp only [walkBack]
    rw [List.append_assoc, List.singleton_append, ← hl, hround, hl]
    exact this

end LayerStorm.Lib
