import Mathlib.Data.List.Basic

/-!
# Loops that stop at the first failure

A loop attempts one thing after the other and returns as soon as an attempt fails, keeping what it
has done so far.  An attempt is a partial function: `none` where it is not defined at all, else the
state afterwards and whether it has succeeded.
-/

namespace LayerStorm.Lib

variable {ι σ : Type*}

/-- Attempt all elements of a list, up to the first failure. -/
def attemptEach (f : ι → σ → Option (σ × Bool)) : List ι → σ → Option (σ × Bool)
  | [], s => some (s, true)
  | i :: l, s => (f i s).bind fun r => if r.2 then attemptEach f l r.1 else some r

variable {f : ι → σ → Option (σ × Bool)} {s : σ} {r : σ × Bool} {P Q : List ι → σ → Prop}

/-- **The loop rule**: a property of what is done and the state is kept by every attempt that
succeeds, and `Q` is what an attempt that fails leaves. -/
theorem attemptEach_rule {l : List ι}
    (hstep : ∀ done i rest s r, l = done ++ i :: rest → P done s → f i s = some r →
      (r.2 = true → P (done ++ [i]) r.1) ∧ (r.2 = false → Q done r.1)) (hs : P [] s)
    (hr : attemptEach f l s = some r) :
    (r.2 = true → P l r.1) ∧ (r.2 = false → ∃ done i rest, l = done ++ i :: rest ∧ Q done r.1) := by
  -- generalised to a loop that has already done some elements
  have hgen : ∀ (todo done : List ι) (s : σ), l = done ++ todo → P done s →
      attemptEach f todo s = some r →
      (r.2 = true → P l r.1) ∧
        (r.2 = false → ∃ done i rest, l = done ++ i :: rest ∧ Q done r.1) := by
    intro todo
    induction todo with
    | nil =>
      intro done s hl hs hr
      cases hr
      rw [List.append_nil] at hl
      subst hl
      exact ⟨fun _ => hs, fun hfail => (by cases hfail)⟩
    | cons i todo ih =>
      intro done s hl hs hr
      unfold attemptEach at hr
      obtain ⟨r', hr', hr⟩ := Option.bind_eq_some_iff.1 hr
      obtain ⟨hgood, hbad⟩ := hstep done i todo s r' hl hs hr'
      cases hok : r'.2 with
      | true =>
        rw [if_pos hok] at hr
        exact ih (done ++ [i]) r'.1 (by simp [hl]) (hgood hok) hr
      | false =>
        rw [if_neg (by simp [hok])] at hr
        cases hr
        exact ⟨fun htrue => absurd (hok.symm.trans htrue) Bool.false_ne_true,
          fun hfail => ⟨done, i, todo, hl, hbad hfail⟩⟩
  exact hgen l [] s rfl hs hr

/-- **The loop rule with totality**: if every attempt is defined where the property holds, so is the
loop. -/
theorem attemptEach_total {l : List ι}
    (hstep : ∀ done i rest s, l = done ++ i :: rest → P done s → ∃ r, f i s = some r ∧
      (r.2 = true → P (done ++ [i]) r.1) ∧ (r.2 = false → Q done r.1)) (hs : P [] s) :
    ∃ r, attemptEach f l s = some r ∧ (r.2 = true → P l r.1) ∧
      (r.2 = false → ∃ done i rest, l = done ++ i :: rest ∧ Q done r.1) := by
  have hdefined : ∀ (todo done : List ι) (s : σ), l = done ++ todo → P done s →
      ∃ r, attemptEach f todo s = some r := by
    intro todo
    induction todo with
    | nil => exact fun _ s _ _ => ⟨(s, true), rfl⟩
    | cons i todo ih =>
      intro done s hl hs
      obtain ⟨r, hr, hgood, -⟩ := hstep done i todo s hl hs
      unfold attemptEach
      rw [hr, Option.bind_some]
      cases hok : r.2 with
      | true =>
        rw [if_pos rfl]
        exact ih (done ++ [i]) r.1 (by simp [hl]) (hgood hok)
      | false => exact ⟨r, if_neg Bool.false_ne_true⟩
  obtain ⟨r, hr⟩ := hdefined l [] s rfl hs
  refine ⟨r, hr, attemptEach_rule (fun done i rest s r hl hs hr => ?_) hs hr⟩
  obtain ⟨r', hr', hspec⟩ := hstep done i rest s hl hs
  obtain rfl := Option.some.inj (hr'.symm.trans hr)
  exact hspec

/-- **The loop rule for a counter.** -/
theorem attemptEach_range {f : ℕ → σ → Option (σ × Bool)} {P : ℕ → σ → Prop} {Q : σ → Prop} {n : ℕ}
    (hstep : ∀ i s, i < n → P i s → ∃ r, f i s = some r ∧
      (r.2 = true → P (i + 1) r.1) ∧ (r.2 = false → Q r.1)) (hs : P 0 s) :
    ∃ r, attemptEach f (List.range n) s = some r ∧
      (r.2 = true → P n r.1) ∧ (r.2 = false → Q r.1) := by
  have hloop := attemptEach_total (f := f) (l := List.range n) (s := s)
    (P := fun done s => P done.length s) (Q := fun _ s => Q s) (fun done i rest s hl hs => ?_) hs
  · obtain ⟨r, hr, hgood, hbad⟩ := hloop
    refine ⟨r, hr, fun hok => List.length_range (n := n) ▸ hgood hok, fun hfail => ?_⟩
    obtain ⟨-, -, -, -, hq⟩ := hbad hfail
    exact hq
  · -- the counter is the number of rounds done
    have hget : (List.range n)[done.length]? = some i := by
      rw [hl, List.getElem?_append_right (Nat.le_refl _), Nat.sub_self]
      rfl
    obtain ⟨hlt, hi⟩ := List.getElem?_eq_some_iff.1 hget
    rw [List.getElem_range] at hi
    subst hi
    obtain ⟨r, hr, hgood, hbad⟩ := hstep done.length s (by simpa using hlt) hs
    refine ⟨r, hr, fun hok => ?_, hbad⟩
    rw [List.length_append, List.length_singleton]
    exact hgood hok

theorem attemptEach_range_ok {f : ℕ → σ → Option (σ × Bool)} {P : ℕ → σ → Prop} {n : ℕ}
    (hstep : ∀ i s, i < n → P i s → ∃ r, f i s = some r ∧ r.2 = true ∧ P (i + 1) r.1) (hs : P 0 s) :
    ∃ r, attemptEach f (List.range n) s = some r ∧ r.2 = true ∧ P n r.1 := by
  have hloop := attemptEach_range (f := f) (P := P) (Q := fun _ => False) (n := n)
    (fun i s hi h => ?_) hs
  · obtain ⟨r, hr, hgood, hbad⟩ := hloop
    have hok : r.2 = true := by
      by_contra hne
      exact hbad (Bool.eq_false_iff.2 hne)
    exact ⟨r, hr, hok, hgood hok⟩
  · obtain ⟨r, hr, hok, hnext⟩ := hstep i s hi h
    exact ⟨r, hr, fun _ => hnext, fun hfail => Bool.false_ne_true (hfail.symm.trans hok)⟩

end LayerStorm.Lib
