import Mathlib.Tactic

/-!
# Processes that deliver one value after another

A sequential process computes its next value from the values it has delivered so far and from a
state of its own, and a consumer says after each value whether it wants more.  A faster program
may find several values at once, as long as they are the ones the process would have found: it
*follows* the process.
-/

namespace LayerStorm.Lib

variable {α X : Type*}

/-- How a process stands. -/
inductive Status
  | running
  | stopped
  | failed
deriving DecidableEq, Repr

/-- A process: how it finds its next value, and whether the consumer wants another one. -/
structure Process (α X : Type*) where
  next : List α → X → Option (α × X)
  more : List α → X → Bool

/-- How far a process has come. -/
structure Progress (α X : Type*) where
  out : List α
  x : X
  status : Status
deriving DecidableEq, Repr

namespace Process

variable (P : Process α X)

def deliver (s : Progress α X) (a : α) (x : X) : Progress α X :=
  ⟨s.out ++ [a], x, if P.more (s.out ++ [a]) x then .running else .stopped⟩

/-- One step of a process that has not ended. -/
def step (s : Progress α X) : Progress α X :=
  match s.status with
  | .running =>
    match P.next s.out s.x with
    | none => { s with status := .failed }
    | some (a, x) => P.deliver s a x
  | _ => s

/-- Deliver the values of a list until the consumer has enough. -/
def deliverAll : Progress α X → List (α × X) → Progress α X
  | s, [] => s
  | s, (a, x) :: l =>
    let t := P.deliver s a x
    if t.status = .running then deliverAll t l else t

/-- The values of a list are the ones the process finds. -/
def Follows : List α → X → List (α × X) → Prop
  | _, _, [] => True
  | out, x, (a, y) :: l => P.next out x = some (a, y) ∧ Follows (out ++ [a]) y l

/-- `t` has the output and the status of `s` after `n` steps, and its state too while it runs. -/
structure Reaches (s : Progress α X) (n : ℕ) (t : Progress α X) : Prop where
  out_eq : t.out = (P.step^[n] s).out
  status_eq : t.status = (P.step^[n] s).status
  x_eq : t.status = .running → t.x = (P.step^[n] s).x

variable {P} {s t u : Progress α X}

theorem step_of_ended (h : s.status ≠ .running) : P.step s = s := by
  unfold step
  split
  · exact absurd ‹_› h
  · rfl

theorem iterate_of_ended (h : s.status ≠ .running) (n : ℕ) : P.step^[n] s = s :=
  Function.iterate_fixed (step_of_ended h) n

theorem step_of_next {a : α} {x : X} (hs : s.status = .running)
    (h : P.next s.out s.x = some (a, x)) : P.step s = P.deliver s a x := by
  simp only [step, hs, h]

theorem step_of_none (hs : s.status = .running) (h : P.next s.out s.x = none) :
    P.step s = { s with status := .failed } := by
  simp only [step, hs, h]

theorem deliverAll_eq_iterate : ∀ (l : List (α × X)) {s : Progress α X}, s.status = .running →
    P.Follows s.out s.x l → ∃ n, P.deliverAll s l = P.step^[n] s := by
  intro l
  induction l with
  | nil =>
    intro s _ _
    exact ⟨0, rfl⟩
  | cons p l ih =>
    intro s hs hfollows
    obtain ⟨a, x⟩ := p
    obtain ⟨hnext, hrest⟩ := hfollows
    have hstep := step_of_next hs hnext
    by_cases hrun : (P.deliver s a x).status = .running
    · obtain ⟨n, hn⟩ := ih hrun hrest
      refine ⟨n + 1, ?_⟩
      rw [deliverAll, if_pos hrun, hn, Function.iterate_succ_apply, hstep]
    · refine ⟨1, ?_⟩
      rw [deliverAll, if_neg hrun, Function.iterate_one, hstep]

theorem deliverAll_out : ∀ (l : List (α × X)) {s : Progress α X},
    (P.deliverAll s l).status = .running → (P.deliverAll s l).out = s.out ++ l.map Prod.fst := by
  intro l
  induction l with
  | nil =>
    intro s _
    simp [deliverAll]
  | cons p l ih =>
    intro s hrun
    obtain ⟨a, x⟩ := p
    rw [deliverAll] at hrun ⊢
    split at hrun
    · next h =>
      rw [if_pos h, ih hrun]
      simp [deliver]
    · next h => exact absurd hrun h

def endState (x : X) (l : List (α × X)) : X := (l.getLast?.map Prod.snd).getD x

@[simp] theorem endState_nil (x : X) : endState x ([] : List (α × X)) = x := rfl

theorem endState_cons (x : X) (p : α × X) (l : List (α × X)) :
    endState x (p :: l) = endState p.2 l := by
  unfold endState
  cases l with
  | nil => rfl
  | cons q l => simp [List.getLast?_cons]

theorem follows_append {a : α} {y : X} : ∀ (l : List (α × X)) {out : List α} {x : X},
    P.Follows out x l → P.next (out ++ l.map Prod.fst) (endState x l) = some (a, y) →
      P.Follows out x (l ++ [(a, y)]) := by
  intro l
  induction l with
  | nil =>
    intro out x _ h
    exact ⟨by simpa using h, trivial⟩
  | cons p l ih =>
    intro out x hl h
    obtain ⟨b, z⟩ := p
    refine ⟨hl.1, ih hl.2 ?_⟩
    rw [List.append_assoc, ← endState_cons x (b, z) l]
    exact h

namespace Reaches

theorem refl (s : Progress α X) : P.Reaches s 0 s := ⟨rfl, rfl, fun _ => rfl⟩

theorem of_iterate (s : Progress α X) (n : ℕ) : P.Reaches s n (P.step^[n] s) :=
  ⟨rfl, rfl, fun _ => rfl⟩

theorem trans {m n : ℕ} (h₁ : P.Reaches s m t) (ht : t.status = .running)
    (h₂ : P.Reaches t n u) : P.Reaches s (m + n) u := by
  have heq : P.step^[m] s = t := by
    obtain ⟨out, x, status⟩ := t
    have hout := h₁.out_eq
    have hstatus := h₁.status_eq
    have hx := h₁.x_eq ht
    cases hst : P.step^[m] s with
    | mk out' x' status' =>
      rw [hst] at hout hstatus hx
      simp only [Progress.mk.injEq]
      exact ⟨hout.symm, hx.symm, hstatus.symm⟩
  have hsplit : P.step^[m + n] s = P.step^[n] t := by
    rw [Nat.add_comm, Function.iterate_add_apply, heq]
  exact ⟨hsplit ▸ h₂.out_eq, hsplit ▸ h₂.status_eq, hsplit ▸ h₂.x_eq⟩

theorem extend {m n : ℕ} (h : P.Reaches s m t) (ht : t.status ≠ .running) (hmn : m ≤ n) :
    P.Reaches s n t := by
  obtain ⟨k, rfl⟩ := Nat.exists_eq_add_of_le hmn
  have hended : (P.step^[m] s).status ≠ .running := h.status_eq ▸ ht
  have hsame : P.step^[m + k] s = P.step^[m] s := by
    rw [Nat.add_comm, Function.iterate_add_apply, iterate_of_ended hended]
  exact ⟨hsame ▸ h.out_eq, hsame ▸ h.status_eq, fun hrun => absurd hrun ht⟩

end Reaches

theorem deliverAll_reaches (l : List (α × X)) (hs : s.status = .running)
    (hl : P.Follows s.out s.x l) : ∃ n, P.Reaches s n (P.deliverAll s l) := by
  obtain ⟨n, hn⟩ := deliverAll_eq_iterate l hs hl
  exact ⟨n, hn ▸ Reaches.of_iterate s n⟩

end Process

end LayerStorm.Lib
