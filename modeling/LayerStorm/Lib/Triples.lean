import Mathlib

/-!
# Triples for programs with state and exceptions

A method that may raise an exception and keeps the state it had reached is a program of
`EStateM`.  Its triples have a second postcondition for the exceptional outcome.  The rules of
`Std.Do` put composite programs together; here a triple is read as a statement about the outcome
of a run, which is what the primitives of a model are proved by.
-/

namespace LayerStorm.Lib

open Std.Do

variable {ε σ α β : Type} {x : EStateM ε σ α} {Q : α → σ → Prop} {P : σ → Prop}

/-- **A triple in terms of outcomes.** -/
theorem triple_iff {E : ε → σ → Prop} :
    (⦃fun s => ⌜P s⌝⦄ x ⦃post⟨fun a s => ⌜Q a s⌝, fun e s => ⌜E e s⌝⟩⦄) ↔
      ∀ s, P s → (∀ a t, x s = .ok a t → Q a t) ∧ ∀ e t, x s = .error e t → E e t := by
  constructor
  · intro h s hP
    have hrun := h s hP
    simp only [WP.wp, PredTrans.apply, EStateM.run] at hrun
    constructor
    · intro a t hx
      simpa [hx] using hrun
    · intro a t hx
      simpa [hx] using hrun
  · intro h s hP
    have hrun := h s hP
    simp only [WP.wp, PredTrans.apply, EStateM.run]
    cases hx : x s with
    | ok a t => exact hrun.1 a t hx
    | error e t => exact hrun.2 e t hx

/-- **The rule of consequence.** -/
theorem triple_weaken {O : σ → Prop} {R : α → σ → Prop} {E F : ε → σ → Prop}
    (h : ⦃fun s => ⌜P s⌝⦄ x ⦃post⟨fun a s => ⌜Q a s⌝, fun e s => ⌜E e s⌝⟩⦄) (hP : ∀ s, O s → P s)
    (hQ : ∀ a s, Q a s → R a s) (hE : ∀ e s, E e s → F e s) :
    ⦃fun s => ⌜O s⌝⦄ x ⦃post⟨fun a s => ⌜R a s⌝, fun e s => ⌜F e s⌝⟩⦄ := by
  refine triple_iff.2 ?_
  intro s hs
  have hrun := triple_iff.1 h s (hP s hs)
  exact ⟨fun a t hx => hQ a t (hrun.1 a t hx), fun e t hx => hE e t (hrun.2 e t hx)⟩

/-- A handler that never fails itself. -/
theorem triple_tryCatch {f : ε → EStateM ε σ α} {E E' : ε → σ → Prop}
    (hx : ⦃fun s => ⌜P s⌝⦄ x ⦃post⟨fun a s => ⌜Q a s⌝, fun e s => ⌜E e s⌝⟩⦄)
    (hf : ∀ e, ⦃fun s => ⌜E e s⌝⦄ f e ⦃post⟨fun a s => ⌜Q a s⌝, fun e s => ⌜E' e s⌝⟩⦄) :
    ⦃fun s => ⌜P s⌝⦄ tryCatch x f ⦃post⟨fun a s => ⌜Q a s⌝, fun e s => ⌜E' e s⌝⟩⦄ := by
  refine triple_iff.2 ?_
  intro s hs
  have hrun := triple_iff.1 hx s hs
  have heq : (tryCatch x f : EStateM ε σ α) s = EStateM.tryCatch x f s := rfl
  rw [heq]
  unfold EStateM.tryCatch
  cases h : x s with
  | ok a t =>
    refine ⟨?_, fun e u hu => (by cases hu)⟩
    intro b u hu
    cases hu
    exact hrun.1 a t h
  | error e t => exact triple_iff.1 (hf e) t (hrun.2 e t h)

/-- **The loop rule** for a loop over a list: what every round keeps holds after the loop, also
when a round raises an exception. -/
theorem triple_forM {I : σ → Prop} {f : β → EStateM ε σ PUnit}
    (hf : ∀ b, ⦃fun s => ⌜I s⌝⦄ f b ⦃post⟨fun _ s => ⌜I s⌝, fun _ s => ⌜I s⌝⟩⦄) (l : List β) :
    ⦃fun s => ⌜I s⌝⦄ l.forM f ⦃post⟨fun _ s => ⌜I s⌝, fun _ s => ⌜I s⌝⟩⦄ := by
  induction l with
  | nil =>
    refine triple_iff.2 ?_
    intro s hs
    refine ⟨?_, fun e t h => (by cases h)⟩
    intro a t h
    cases h
    exact hs
  | cons b l ih => exact Triple.bind _ _ (hf b) fun _ => ih

end LayerStorm.Lib
