import Mathlib.Tactic

/-!
# Consumers in lockstep

A consumer reads a stream item by item and either goes on in a new state or stops with a result.
Two consumers come to the same outcome after every prefix of a stream exactly if they take the same
step at every item that is reached.
-/

namespace LayerStorm.Lib

variable {σ α ρ : Type*}

/-- What a consumer does with an item. -/
inductive Verdict (σ ρ : Type*)
  | go (s : σ)
  | stop (s : σ) (r : ρ)

/-- What has become of a stream: the last state, the result if there is one, and how many items
have been read. -/
structure Outcome (σ ρ : Type*) where
  state : σ
  result : Option ρ
  consumed : ℕ

/-- One more item has been read. -/
def Outcome.succ (o : Outcome σ ρ) : Outcome σ ρ := { o with consumed := o.consumed + 1 }

theorem Outcome.succ_inj {o o' : Outcome σ ρ} (h : o.succ = o'.succ) : o = o' := by
  cases o
  cases o'
  simpa [Outcome.succ] using h

/-- Read a stream. -/
def consume (step : σ → α → Verdict σ ρ) (s : σ) : List α → Outcome σ ρ
  | [] => ⟨s, none, 0⟩
  | a :: as =>
    match step s a with
    | .go s' => (consume step s' as).succ
    | .stop s' r => ⟨s', some r, 1⟩

/-- `P` holds of every item that is reached, in the state in which it is. -/
def AllReached (step : σ → α → Verdict σ ρ) (P : σ → α → Prop) (s : σ) : List α → Prop
  | [] => True
  | a :: as => P s a ∧
    match step s a with
    | .go s' => AllReached step P s' as
    | .stop _ _ => True

variable {step step' : σ → α → Verdict σ ρ} {P Q : σ → α → Prop} {as : List α} {s : σ}

theorem AllReached.imp (h : ∀ s a, P s a → Q s a) (hall : AllReached step P s as) :
    AllReached step Q s as := by
  induction as generalizing s with
  | nil => trivial
  | cons a as ih =>
    refine ⟨h s a hall.1, ?_⟩
    have hrest := hall.2
    split at hrest
    · exact ih hrest
    · trivial

theorem allReached_iff (h : ∀ s a, P s a ↔ Q s a) :
    AllReached step P s as ↔ AllReached step Q s as :=
  ⟨AllReached.imp fun s a => (h s a).1, AllReached.imp fun s a => (h s a).2⟩

theorem AllReached.of_append_left {bs : List α} (h : AllReached step P s bs) (hpre : as <+: bs) :
    AllReached step P s as := by
  induction as generalizing s bs with
  | nil => trivial
  | cons a as ih =>
    obtain ⟨t, rfl⟩ := hpre
    refine ⟨h.1, ?_⟩
    have hrest := h.2
    split at hrest
    · exact ih hrest ⟨t, rfl⟩
    · trivial

/-- **Same steps, same outcome.** -/
theorem consume_congr (h : AllReached step (fun s a => step' s a = step s a) s as) :
    consume step' s as = consume step s as := by
  induction as generalizing s with
  | nil => rfl
  | cons a as ih =>
    have hrest := h.2
    rw [consume, consume, h.1]
    split at hrest
    · exact congrArg Outcome.succ (ih hrest)
    · rfl

/-- **Same outcomes on all prefixes, same steps.** -/
theorem consume_agree_iff : (∀ p, p <+: as → consume step' s p = consume step s p) ↔
      AllReached step (fun s a => step' s a = step s a) s as := by
  refine ⟨fun h => ?_, fun h p hp => consume_congr (h.of_append_left hp)⟩
  induction as generalizing s with
  | nil => trivial
  | cons a as ih =>
    -- the outcome on one item is the step
    have hone := h [a] ⟨as, rfl⟩
    have hstep : step' s a = step s a := by
      simp only [consume] at hone
      cases h₁ : step' s a with
      | go s₁ =>
        cases h₂ : step s a with
        | go s₂ =>
          rw [h₁, h₂] at hone
          exact congrArg Verdict.go (congrArg Outcome.state hone)
        | stop s₂ r =>
          rw [h₁, h₂] at hone
          cases congrArg Outcome.result hone
      | stop s₁ r =>
        cases h₂ : step s a with
        | go s₂ =>
          rw [h₁, h₂] at hone
          cases congrArg Outcome.result hone
        | stop s₂ r' =>
          rw [h₁, h₂] at hone
          have hs : s₁ = s₂ := congrArg Outcome.state hone
          have hr : r = r' := Option.some.inj (congrArg Outcome.result hone)
          rw [hs, hr]
    refine ⟨hstep, ?_⟩
    split
    · next s₁ heq =>
      refine ih fun p hp => ?_
      have hp' := h (a :: p) (List.cons_prefix_cons.2 ⟨rfl, hp⟩)
      rw [consume, consume, hstep, heq] at hp'
      exact Outcome.succ_inj hp'
    · trivial

end LayerStorm.Lib
