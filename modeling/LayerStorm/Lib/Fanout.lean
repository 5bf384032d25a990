import Mathlib

/-!
# Updating several components of a state

A state is a family of components; a loop performs a partial operation on one component
after the other.  If the list of components has no repetition, the loop is the same as
performing all operations on the state it started from.
-/

namespace LayerStorm.Lib

open Function List

variable {ι σ : Type*} [DecidableEq ι]

/-- The loop over a list of components. -/
def updateEach (f : ι → σ → Option σ) (l : List ι) (s : ι → σ) : Option (ι → σ) :=
  l.foldlM (fun s i => (f i (s i)).map (Function.update s i)) s

variable {f : ι → σ → Option σ}

theorem updateEach_cons (i : ι) (l : List ι) (s : ι → σ) :
    updateEach f (i :: l) s = (f i (s i)).bind fun x => updateEach f l (update s i x) := by
  unfold updateEach
  rw [foldlM_cons]
  cases f i (s i) with
  | none | some x => rfl

/-- **All operations succeed.** -/
theorem updateEach_eq {l : List ι} (hl : l.Nodup) :
    ∀ {s t : ι → σ}, (∀ i ∈ l, f i (s i) = some (t i)) →
      updateEach f l s = some fun i => if i ∈ l then t i else s i := by
  induction l with
  | nil =>
    intro s t _
    simp [updateEach]
  | cons i l ih =>
    intro s t h
    obtain ⟨hi, hl⟩ := nodup_cons.1 hl
    have hrest : ∀ j ∈ l, f j (update s i (t i) j) = some (t j) := by
      intro j hj
      have hne : j ≠ i := fun heq => hi (heq ▸ hj)
      rw [update_of_ne hne]
      exact h j (mem_cons_of_mem _ hj)
    rw [updateEach_cons, h i mem_cons_self, Option.bind_some, ih hl hrest]
    congr 1
    funext j
    by_cases hj : j = i
    · subst hj
      simp [hi]
    · simp [hj]

/-- **A loop that has succeeded.** -/
theorem updateEach_some {l : List ι} (hl : l.Nodup) : ∀ {s s' : ι → σ}, updateEach f l s = some s' →
      (∀ i ∈ l, f i (s i) = some (s' i)) ∧ ∀ i, i ∉ l → s' i = s i := by
  induction l with
  | nil =>
    intro s s' h
    cases h
    exact ⟨fun i hi => absurd hi not_mem_nil, fun _ _ => rfl⟩
  | cons i l ih =>
    intro s s' h
    obtain ⟨hi, hl⟩ := nodup_cons.1 hl
    rw [updateEach_cons] at h
    obtain ⟨x, hx, h⟩ := Option.bind_eq_some_iff.1 h
    obtain ⟨hin, hout⟩ := ih hl h
    refine ⟨?_, ?_⟩
    · intro j hj
      rcases mem_cons.1 hj with rfl | hj
      · rw [hx, hout j hi, update_self]
      · have hne : j ≠ i := fun heq => hi (heq ▸ hj)
        rw [← hin j hj, update_of_ne hne]
    · intro j hj
      rw [mem_cons, not_or] at hj
      obtain ⟨hne, hj⟩ := hj
      rw [hout j hj, update_of_ne hne]

variable {β : Type*} {k : β → ι}

/-- **Writing a value for each element of a list**, each at a place of its own. -/
theorem foldlM_update {v : β → Option σ} : ∀ {l : List β} {s s' : ι → σ},
      l.foldlM (fun s x => (v x).map fun y => update s (k x) y) s = some s' →
      l.Pairwise (fun x y => k x ≠ k y) →
      (∀ x ∈ l, v x = some (s' (k x))) ∧ ∀ i, (∀ x ∈ l, k x ≠ i) → s' i = s i := by
  intro l
  induction l with
  | nil =>
    intro s s' h _
    cases h
    exact ⟨fun x hx => absurd hx not_mem_nil, fun _ _ => rfl⟩
  | cons x l ih =>
    intro s s' h hl
    obtain ⟨hx, hl⟩ := pairwise_cons.1 hl
    obtain ⟨t, ht, h⟩ := Option.bind_eq_some_iff.1 h
    obtain ⟨y, hy, rfl⟩ := Option.map_eq_some_iff.1 ht
    obtain ⟨hin, hout⟩ := ih h hl
    refine ⟨?_, ?_⟩
    · intro z hz
      rcases mem_cons.1 hz with rfl | hz
      · rw [hy, hout (k z) fun x' hx' => (hx x' hx').symm, update_self]
      · exact hin z hz
    · intro i hi
      obtain ⟨hxi, hli⟩ := forall_mem_cons.1 hi
      rw [hout i hli, update_of_ne (Ne.symm hxi)]

variable {v : β → σ}

/-- A place that no element of the list is written to. -/
theorem foldl_update_of_notMem {i : ι} (l : List β) : ∀ s : ι → σ, (∀ x ∈ l, k x ≠ i) →
      l.foldl (fun s x => update s (k x) (v x)) s i = s i := by
  induction l with
  | nil =>
    intro s _
    rfl
  | cons x l ih =>
    intro s h
    obtain ⟨hx, hl⟩ := forall_mem_cons.1 h
    rw [foldl_cons, ih _ hl, update_of_ne (Ne.symm hx)]

/-- A place where all elements that are written there have the same value. -/
theorem foldl_update_of_mem {i : ι} {y : σ} (l : List β) :
    ∀ s : ι → σ, (∀ x ∈ l, k x = i → v x = y) → (∃ x ∈ l, k x = i) →
      l.foldl (fun s x => update s (k x) (v x)) s i = y := by
  induction l with
  | nil =>
    rintro s - ⟨x, hx, -⟩
    exact absurd hx not_mem_nil
  | cons x l ih =>
    intro s h hex
    obtain ⟨hx, hl⟩ := forall_mem_cons.1 h
    rw [foldl_cons]
    by_cases hlater : ∃ z ∈ l, k z = i
    · exact ih _ hl hlater
    -- the first element is the last one that is written there
    push Not at hlater
    rw [foldl_update_of_notMem l _ hlater]
    obtain ⟨z, hz, hi⟩ := hex
    rcases mem_cons.1 hz with rfl | hz
    · rw [← hi, update_self]
      exact hx hi
    · exact absurd hi (hlater z hz)

end LayerStorm.Lib
