import Mathlib.Data.List.Basic

/-!
# Loops that may fail

A loop performs an operation for each element of a list, on a state; the first failure ends it,
with a state of its own.
-/

namespace LayerStorm.Lib

open List

variable {ε σ β : Type*} {f : σ → β → Except ε σ}

theorem except_bind_ok {α γ : Type*} {x : Except ε α} {g : α → Except ε γ} {c : γ}
    (h : x.bind g = .ok c) : ∃ a, x = .ok a ∧ g a = .ok c := by
  cases x with
  | error e => cases h
  | ok a => exact ⟨a, rfl, h⟩

theorem except_map_ok {α γ : Type*} {x : Except ε α} {g : α → γ} {c : γ} (h : x.map g = .ok c) :
    ∃ a, x = .ok a ∧ g a = c := by
  cases x with
  | error e => cases h
  | ok a => exact ⟨a, rfl, Except.ok.inj h⟩

theorem exceptLoop_cons {b : β} {l : List β} {s t : σ} (h : (b :: l).foldlM f s = .ok t) :
    ∃ u, f s b = .ok u ∧ l.foldlM f u = .ok t := by
  rw [foldlM_cons] at h
  exact except_bind_ok h

variable {P : σ → Prop}

/-- **The invariant rule.** -/
theorem exceptLoop_invariant (l : List β) (hstep : ∀ s b t, b ∈ l → P s → f s b = .ok t → P t) :
    ∀ {s t : σ}, l.foldlM f s = .ok t → P s → P t := by
  induction l with
  | nil =>
    intro s t h hs
    cases h
    exact hs
  | cons b l ih =>
    intro s t h hs
    obtain ⟨u, hu, h⟩ := exceptLoop_cons h
    exact ih (fun s c t hc => hstep s c t (mem_cons_of_mem _ hc)) h
      (hstep s b u mem_cons_self hs hu)

/-- **Each round does its part**: what the round of an element achieves, and the rounds of the
others keep, holds for all elements at the end. -/
theorem exceptLoop_establishes {I : σ → Prop} {P : β → σ → Prop} {l : List β} (hl : l.Nodup)
    (hI : ∀ s b t, b ∈ l → I s → f s b = .ok t → I t)
    (hest : ∀ s b t, b ∈ l → I s → f s b = .ok t → P b t)
    (hkeep : ∀ s b t, b ∈ l → I s → f s b = .ok t → ∀ c ∈ l, c ≠ b → P c s → P c t) :
    ∀ {s t : σ}, l.foldlM f s = .ok t → I s → ∀ b ∈ l, P b t := by
  induction l with
  | nil =>
    intro s t _ _ b hb
    exact absurd hb not_mem_nil
  | cons b l ih =>
    intro s t h hs
    obtain ⟨hb, hl⟩ := nodup_cons.1 hl
    obtain ⟨u, hu, h⟩ := exceptLoop_cons h
    have hIu := hI s b u mem_cons_self hs hu
    have hrest := ih hl (fun s c t hc => hI s c t (mem_cons_of_mem _ hc))
      (fun s c t hc => hest s c t (mem_cons_of_mem _ hc))
      (fun s c t hc hs ht d hd => hkeep s c t (mem_cons_of_mem _ hc) hs ht d
        (mem_cons_of_mem _ hd)) h hIu
    rw [forall_mem_cons]
    refine ⟨?_, hrest⟩
    -- the part of the first element is kept to the end
    have hkept : I t ∧ P b t :=
      exceptLoop_invariant (P := fun s => I s ∧ P b s) l (fun s c t hc hs ht =>
        ⟨hI s c t (mem_cons_of_mem _ hc) hs.1 ht,
          hkeep s c t (mem_cons_of_mem _ hc) hs.1 ht b mem_cons_self
            (fun heq => hb (heq ▸ hc)) hs.2⟩)
        h ⟨hIu, hest s b u mem_cons_self hs hu⟩
    exact hkept.2

/-- **A loop whose rounds succeed.** -/
theorem exceptLoop_total (l : List β) (hstep : ∀ s b, b ∈ l → P s → ∃ t, f s b = .ok t ∧ P t) :
    ∀ {s : σ}, P s → ∃ t, l.foldlM f s = .ok t ∧ P t := by
  induction l with
  | nil =>
    intro s hs
    exact ⟨s, rfl, hs⟩
  | cons b l ih =>
    intro s hs
    obtain ⟨u, hu, hPu⟩ := hstep s b mem_cons_self hs
    obtain ⟨t, ht, hPt⟩ := ih (fun s c hc => hstep s c (mem_cons_of_mem _ hc)) hPu
    refine ⟨t, ?_, hPt⟩
    rw [foldlM_cons, hu]
    exact ht

/-! ### Collecting results -/

section Collect

variable {α : Type*} {ε γ : Type*} {g : α → Except ε γ} {l : List α} {out : List γ}

theorem mapM_cons_ok {a : α} (h : (a :: l).mapM g = .ok out) :
    ∃ b rest, g a = .ok b ∧ l.mapM g = .ok rest ∧ out = b :: rest := by
  rw [mapM_cons] at h
  obtain ⟨b, hb, h⟩ := except_bind_ok h
  obtain ⟨rest, hrest, h⟩ := except_bind_ok h
  exact ⟨b, rest, hb, hrest, (Except.ok.inj h).symm⟩

/-- **A loop that succeeds**: each round does, and each result is one of a round. -/
theorem mapM_ok (h : l.mapM g = .ok out) :
    (∀ a ∈ l, ∃ b, g a = .ok b) ∧ ∀ b ∈ out, ∃ a ∈ l, g a = .ok b := by
  induction l generalizing out with
  | nil =>
    cases h
    exact ⟨by simp, by simp⟩
  | cons a l ih =>
    obtain ⟨b, rest, ha, hl, rfl⟩ := mapM_cons_ok h
    obtain ⟨hall, hfrom⟩ := ih hl
    refine ⟨forall_mem_cons.2 ⟨⟨b, ha⟩, hall⟩, forall_mem_cons.2
      ⟨⟨a, mem_cons_self, ha⟩, fun c hc => ?_⟩⟩
    obtain ⟨a', ha', hg⟩ := hfrom c hc
    exact ⟨a', mem_cons_of_mem _ ha', hg⟩

/-- The results in their order. -/
theorem mapM_zip (h : l.mapM g = .ok out) {a : α} {b : γ} (hmem : (a, b) ∈ l.zip out) :
    g a = .ok b := by
  induction l generalizing out with
  | nil => cases hmem
  | cons a' l ih =>
    obtain ⟨b', rest, hb', hl, rfl⟩ := mapM_cons_ok h
    rcases mem_cons.1 hmem with heq | hrest
    · cases heq
      exact hb'
    · exact ih hl hrest

/-- **A loop that fails** fails as one of its rounds. -/
theorem mapM_error {e : ε} (h : l.mapM g = .error e) : ∃ a ∈ l, g a = .error e := by
  induction l with
  | nil => cases h
  | cons a l ih =>
    rw [mapM_cons] at h
    cases ha : g a with
    | error e' =>
      rw [ha] at h
      obtain rfl := Except.error.inj h
      exact ⟨a, mem_cons_self, ha⟩
    | ok b =>
      rw [ha] at h
      cases hl : l.mapM g with
      | error e' =>
        rw [hl] at h
        obtain rfl := Except.error.inj h
        obtain ⟨a', ha', hg⟩ := ih hl
        exact ⟨a', mem_cons_of_mem _ ha', hg⟩
      | ok rest =>
        rw [hl] at h
        cases h

end Collect

end LayerStorm.Lib
