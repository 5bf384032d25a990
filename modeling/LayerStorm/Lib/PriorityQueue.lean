import Mathlib.Data.List.MinMax
import Mathlib.Data.List.Perm.Basic

/-!
# Priority queues

A priority queue keeps its elements in a container whose arrangement is its own
affair: pushing adds an element, popping takes away one that no other exceeds.
Which of several greatest elements is popped is not specified, so the operations
are a parameter with these two laws, and results hold for every implementation.
-/

namespace LayerStorm.Lib

variable {α : Type*} {less : α → α → Prop}

/-- An implementation of a priority queue over containers `List α`. -/
structure PriorityQueue (less : α → α → Prop) where
  push : α → List α → List α
  pop : List α → Option (α × List α)
  push_perm : ∀ x l, (push x l).Perm (x :: l)
  pop_eq_none : ∀ l, pop l = none ↔ l = []
  pop_perm : ∀ {l x r}, pop l = some (x, r) → l.Perm (x :: r)
  pop_top : ∀ {l x r}, pop l = some (x, r) → ∀ y ∈ r, ¬ less x y

namespace PriorityQueue

variable (q : PriorityQueue less)

/-- Popping at most `n` elements. -/
def popN : ℕ → List α → List α
  | 0, _ => []
  | n + 1, l =>
    match q.pop l with
    | none => []
    | some (x, r) => x :: popN n r

/-- Popping until the container is empty. -/
def popAll (l : List α) : List α := q.popN l.length l

/-- Pushing the elements of a list into an empty container. -/
def ofList (l : List α) : List α := l.foldl (fun acc x => q.push x acc) []

theorem popN_perm (n : ℕ) : ∀ l : List α, l.length ≤ n → (q.popN n l).Perm l := by
  induction n with
  | zero =>
    intro l hl
    rw [List.length_eq_zero_iff.1 (Nat.le_zero.1 hl)]
    exact List.Perm.refl []
  | succ n ih =>
    intro l hl
    unfold popN
    cases hpop : q.pop l with
    | none =>
      rw [(q.pop_eq_none l).1 hpop]
    | some xr =>
      obtain ⟨x, r⟩ := xr
      have hperm := q.pop_perm hpop
      have hlen : r.length ≤ n := by
        have := hperm.length_eq
        rw [List.length_cons] at this
        omega
      exact ((ih r hlen).cons x).trans hperm.symm

theorem popAll_perm (l : List α) : (q.popAll l).Perm l := q.popN_perm _ l (Nat.le_refl _)

theorem foldl_push_perm (l : List α) :
    ∀ acc : List α, (l.foldl (fun acc x => q.push x acc) acc).Perm (l ++ acc) := by
  induction l with
  | nil => exact fun acc => List.Perm.refl acc
  | cons x l ih =>
    intro acc
    have hpush : (l ++ q.push x acc).Perm (l ++ x :: acc) :=
      List.Perm.append_left l (q.push_perm x acc)
    exact (ih (q.push x acc)).trans (hpush.trans List.perm_middle)

theorem ofList_perm (l : List α) : (q.ofList l).Perm l := by
  have h := q.foldl_push_perm l []
  rwa [List.append_nil] at h

theorem perm_cons_eraseP {p : α → Bool} {x : α} (l : List α) (h : l.find? p = some x) :
    l.Perm (x :: l.eraseP p) := by
  induction l with
  | nil => cases h
  | cons y l ih =>
    by_cases hy : p y = true
    · rw [List.find?_cons_of_pos hy, Option.some.injEq] at h
      subst h
      rw [List.eraseP_cons_of_pos hy]
    · rw [List.find?_cons_of_neg hy] at h
      rw [List.eraseP_cons_of_neg hy]
      exact ((ih h).cons y).trans (List.Perm.swap x y _)

theorem rebuild_perm {p : α → Bool} {x : α} {l : List α} (h : (q.popAll l).find? p = some x) :
    l.Perm (x :: q.ofList ((q.popAll l).eraseP p)) :=
  (q.popAll_perm l).symm.trans ((perm_cons_eraseP _ h).trans ((q.ofList_perm _).symm.cons x))

end PriorityQueue

/-- A plain implementation: the container is the list of elements and `pop` takes
the first greatest one. -/
def listQueue {β : Type*} [LinearOrder β] [DecidableEq α] (priority : α → β) :
    PriorityQueue fun x y : α => priority x < priority y where
  push := List.cons
  pop l := (l.argmax priority).map fun x => (x, l.erase x)
  push_perm _ _ := List.Perm.refl _
  pop_eq_none l := by
    rw [Option.map_eq_none_iff, List.argmax_eq_none]
  pop_perm h := by
    obtain ⟨y, hy, heq⟩ := Option.map_eq_some_iff.1 h
    obtain ⟨rfl, rfl⟩ := Prod.mk.injEq .. ▸ heq
    exact List.perm_cons_erase (List.argmax_mem hy)
  pop_top h := by
    obtain ⟨y, hy, heq⟩ := Option.map_eq_some_iff.1 h
    obtain ⟨rfl, rfl⟩ := Prod.mk.injEq .. ▸ heq
    intro z hz
    exact not_lt.2 (List.le_of_mem_argmax (List.mem_of_mem_erase hz) hy)

end LayerStorm.Lib
