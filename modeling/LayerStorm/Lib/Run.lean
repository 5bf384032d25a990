import Mathlib.Data.List.Basic

/-!
# Runs of a partial step function

A component is modelled by a step function `step : σ → α → Option σ`: the state
after one action, or `none` when the action is not enabled (an assertion of the
source fails, or the process is not at that point of its code).  A *run* is a
finite sequence of enabled actions, each of which meets a side condition `ok` on
the state it starts from; with the trivial condition it is any sequence at all.
-/

namespace LayerStorm.Lib

variable {σ α : Type*}

/-- `GuardedRun step ok s as t`: performing the actions `as` one after the other
leads from `s` to `t`, and each action meets `ok` in the state it starts from. -/
inductive GuardedRun (step : σ → α → Option σ) (ok : σ → α → Prop) : σ → List α → σ → Prop
  /-- The empty run. -/
  | nil (s : σ) : GuardedRun step ok s [] s
  /-- One more action at the end. -/
  | snoc {s t u : σ} {as : List α} {a : α} :
      GuardedRun step ok s as t → ok t a → step t a = some u → GuardedRun step ok s (as ++ [a]) u

/-- A run with no condition on its actions. -/
abbrev Run (step : σ → α → Option σ) : σ → List α → σ → Prop :=
  GuardedRun step fun _ _ => True

variable {step : σ → α → Option σ} {ok : σ → α → Prop} {as : List α} {I : σ → Prop}

/-- **The invariant rule.** -/
theorem GuardedRun.invariant (hstep : ∀ t a u, I t → ok t a → step t a = some u → I u) {s t : σ}
    (hrun : GuardedRun step ok s as t) (hs : I s) : I t := by
  induction hrun with
  | nil => exact hs
  | snoc _ hok hst ih => exact hstep _ _ _ ih hok hst

theorem GuardedRun.append {s t u : σ} {bs : List α} (h₁ : GuardedRun step ok s as t)
    (h₂ : GuardedRun step ok t bs u) : GuardedRun step ok s (as ++ bs) u := by
  induction h₂ with
  | nil => simpa using h₁
  | snoc _ hok hst ih =>
    rw [← List.append_assoc]
    exact GuardedRun.snoc ih hok hst

theorem GuardedRun.cons {s t u : σ} {a : α} (hok : ok s a) (h : step s a = some t)
    (hrun : GuardedRun step ok t as u) : GuardedRun step ok s (a :: as) u :=
  (GuardedRun.snoc (GuardedRun.nil s) hok h).append hrun

theorem Run.cons {s t u : σ} {a : α} (h : step s a = some t) (hrun : Run step t as u) :
    Run step s (a :: as) u :=
  GuardedRun.cons trivial h hrun

/-- Performing all actions of a list is a run, if all of them meet the condition. -/
theorem GuardedRun.of_foldlM : ∀ {as : List α} {s t : σ}, as.foldlM step s = some t →
    (∀ s, ∀ a ∈ as, ok s a) → GuardedRun step ok s as t := by
  intro as
  induction as with
  | nil =>
    intro s t h _
    simp only [List.foldlM_nil, Option.pure_def, Option.some.injEq] at h
    exact h ▸ GuardedRun.nil s
  | cons a as ih =>
    intro s t h hok
    simp only [List.foldlM_cons, Option.bind_eq_bind, Option.bind_eq_some_iff] at h
    obtain ⟨u, hu, h⟩ := h
    exact GuardedRun.cons (hok s a List.mem_cons_self) hu
      (ih h fun s b hb => hok s b (List.mem_cons_of_mem _ hb))

/-- A run whose guard is checked as it goes. -/
theorem GuardedRun.of_checked [∀ s a, Decidable (ok s a)] : ∀ {as : List α} {s t : σ},
    as.foldlM (fun s a => if ok s a then step s a else none) s = some t →
      GuardedRun step ok s as t := by
  intro as
  induction as with
  | nil =>
    intro s t h
    exact Option.some.inj h ▸ .nil s
  | cons a as ih =>
    intro s t h
    obtain ⟨u, hu, h⟩ := Option.bind_eq_some_iff.1 h
    by_cases hok : ok s a
    · exact .cons hok ((if_pos hok).symm.trans hu) (ih h)
    · cases (if_neg hok).symm.trans hu

theorem Run.of_foldlM {s t : σ} (h : as.foldlM step s = some t) : Run step s as t :=
  GuardedRun.of_foldlM h fun _ _ _ => trivial

/-- **Gluing runs along a sequence of states**: if every state of the sequence
is one run away from the next, the first is one run away from any of them. -/
theorem Run.iterate {f : ℕ → σ} (h : ∀ n, ∃ as, Run step (f n) as (f (n + 1))) (n : ℕ) :
    ∃ as, Run step (f 0) as (f n) := by
  induction n with
  | zero => exact ⟨[], GuardedRun.nil _⟩
  | succ n ih =>
    obtain ⟨as, has⟩ := ih
    obtain ⟨bs, hbs⟩ := h n
    exact ⟨as ++ bs, has.append hbs⟩

variable {P : σ → Prop}

/-- **The loop rule** for a fold in `Option`: a property kept by every round that
does not stop holds after the whole loop, if that does not stop either. -/
theorem foldlM_invariant {β : Type*} {f : σ → β → Option σ} :
    ∀ (l : List β), (∀ s b t, b ∈ l → P s → f s b = some t → P t) →
      ∀ {s t : σ}, l.foldlM f s = some t → P s → P t := by
  intro l
  induction l with
  | nil =>
    intro _ s t h hs
    simp only [List.foldlM_nil, Option.pure_def, Option.some.injEq] at h
    exact h ▸ hs
  | cons b l ih =>
    intro hstep s t h hs
    simp only [List.foldlM_cons, Option.bind_eq_bind, Option.bind_eq_some_iff] at h
    obtain ⟨u, hu, h⟩ := h
    exact ih (fun s c t hc => hstep s c t (List.mem_cons_of_mem _ hc)) h
      (hstep s b u List.mem_cons_self hs hu)

/-- **The loop rule** for a fold whose rounds never stop. -/
theorem foldlM_total {β : Type*} {f : σ → β → Option σ} :
    ∀ (l : List β), (∀ s b, b ∈ l → P s → ∃ t, f s b = some t ∧ P t) →
      ∀ {s : σ}, P s → ∃ t, l.foldlM f s = some t ∧ P t := by
  intro l
  induction l with
  | nil =>
    intro _ s hs
    exact ⟨s, rfl, hs⟩
  | cons b l ih =>
    intro hstep s hs
    obtain ⟨u, hu, hPu⟩ := hstep s b List.mem_cons_self hs
    obtain ⟨t, ht, hPt⟩ := ih (fun s c hc => hstep s c (List.mem_cons_of_mem _ hc)) hPu
    refine ⟨t, ?_, hPt⟩
    rw [List.foldlM_cons, hu]
    exact ht

end LayerStorm.Lib
