import Mathlib.Tactic

/-!
# First occurrences

A list is read once, with the elements that have been seen.  What is accepted and has not been seen
is handed on, until there is no room for more; the rest is passed over.  Whatever it is handed to,
it is the first occurrences that are handed on, in their order.
-/

namespace LayerStorm.Lib

variable {α σ : Type*} [DecidableEq α] (accept : α → Bool)

/-- The first occurrences of what is accepted, after `seen`. -/
def firsts : List α → List α → List α
  | _, [] => []
  | seen, a :: l =>
    if accept a = true ∧ a ∉ seen then a :: firsts (a :: seen) l else firsts seen l

variable {accept}

theorem firsts_cons_of {seen l : List α} {a : α} (h : accept a = true ∧ a ∉ seen) :
    firsts accept seen (a :: l) = a :: firsts accept (a :: seen) l := by
  show (if _ then _ else _) = _
  rw [if_pos h]

theorem firsts_cons_of_not {seen l : List α} {a : α} (h : ¬(accept a = true ∧ a ∉ seen)) :
    firsts accept seen (a :: l) = firsts accept seen l := by
  show (if _ then _ else _) = _
  rw [if_neg h]

/-- The first occurrences are what is accepted and has not been seen. -/
theorem mem_firsts {b : α} : ∀ {l seen : List α},
    b ∈ firsts accept seen l ↔ b ∈ l ∧ accept b = true ∧ b ∉ seen := by
  intro l
  induction l with
  | nil => simp [firsts]
  | cons a l ih =>
    intro seen
    by_cases h : accept a = true ∧ a ∉ seen
    · rw [firsts_cons_of h, List.mem_cons, ih]
      by_cases hb : b = a
      · simp [hb, h.1, h.2]
      · simp [hb]
    · rw [firsts_cons_of_not h, ih, List.mem_cons]
      constructor
      · exact fun ⟨hl, haccept, hseen⟩ => ⟨.inr hl, haccept, hseen⟩
      · rintro ⟨rfl | hl, haccept, hseen⟩
        · exact absurd ⟨haccept, hseen⟩ h
        · exact ⟨hl, haccept, hseen⟩

theorem nodup_firsts : ∀ (l seen : List α), (firsts accept seen l).Nodup := by
  intro l
  induction l with
  | nil => exact fun _ => List.nodup_nil
  | cons a l ih =>
    intro seen
    by_cases h : accept a = true ∧ a ∉ seen
    · rw [firsts_cons_of h, List.nodup_cons]
      refine ⟨fun hmem => ?_, ih _⟩
      exact (mem_firsts.1 hmem).2.2 List.mem_cons_self
    · rw [firsts_cons_of_not h]
      exact ih seen

/-- What is accepted has different names below `k`; so there are no more first occurrences than
that. -/
theorem length_firsts_le {k : ℕ} (name : α → ℕ) (hlt : ∀ a, accept a = true → name a < k)
    (hinj : ∀ a b, accept a = true → accept b = true → name a = name b → a = b) (seen l : List α) :
    (firsts accept seen l).length ≤ k := by
  have haccept : ∀ a ∈ firsts accept seen l, accept a = true := fun a ha => (mem_firsts.1 ha).2.1
  have hnodup : ((firsts accept seen l).map name).Nodup := by
    apply List.Nodup.map_on _ (nodup_firsts l seen)
    exact fun a ha b hb h => hinj a b (haccept a ha) (haccept b hb) h
  have hsub : (firsts accept seen l).map name ⊆ List.range k := by
    intro n hn
    obtain ⟨a, ha, rfl⟩ := List.mem_map.1 hn
    exact List.mem_range.2 (hlt a (haccept a ha))
  have hle := (hnodup.subperm hsub).length_le
  rwa [List.length_map, List.length_range] at hle

variable (accept) (full : σ → Bool) (emit : σ → α → σ)

/-- Hand on what is accepted and new, until there is no room. -/
def collect : List α → List α → σ → σ
  | _, [], s => s
  | seen, a :: l, s =>
    if accept a = true ∧ a ∉ seen then
      if full s = true then s else collect (a :: seen) l (emit s a)
    else collect seen l s

variable {accept full emit}

/-- **With room enough the loop is a fold over the first occurrences.**  There is room enough when
some count of what has been handed on stays below a bound, and the bound is that of the room. -/
theorem collect_eq_foldl (size : σ → ℕ) (cap : ℕ) (hfull : ∀ s, size s < cap → full s = false)
    (hsize : ∀ s a, size (emit s a) = size s + 1) : ∀ (l seen : List α) (s : σ),
    size s + (firsts accept seen l).length ≤ cap →
    collect accept full emit seen l s = (firsts accept seen l).foldl emit s := by
  intro l
  induction l with
  | nil => exact fun _ _ _ => rfl
  | cons a l ih =>
    intro seen s hroom
    by_cases h : accept a = true ∧ a ∉ seen
    · rw [firsts_cons_of h] at hroom ⊢
      rw [List.length_cons] at hroom
      have hnot : full s = false := hfull s (by omega)
      show (if _ then (if _ then _ else _) else _) = _
      rw [if_pos h, hnot]
      apply ih
      rw [hsize]
      omega
    · rw [firsts_cons_of_not h] at hroom ⊢
      show (if _ then _ else _) = _
      rw [if_neg h]
      exact ih seen s hroom

end LayerStorm.Lib
