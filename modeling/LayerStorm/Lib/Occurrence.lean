import Mathlib.Tactic

/-!
# Words in a text that is given out piece by piece

A text is to be given out up to the first place where one of some words stands.  When it comes in
pieces, and each piece is given out at once unless a word stands in what has come so far, too much
may have been given out when a word is completed, and a word that is longer may begin before the one
that was seen first.
-/

namespace LayerStorm.Lib

open List

variable {α : Type*}

/-- The word `w` stands in `t` at the position `n`. -/
def OccursAt (w t : List α) (n : ℕ) : Prop := w <+: t.drop n

variable {w t u : List α} {n c : ℕ} {ws : List (List α)}

theorem OccursAt.lt (h : OccursAt w t n) (hw : w ≠ []) : n < t.length := by
  have hlen := h.length_le
  have hpos := length_pos_of_ne_nil hw
  rw [length_drop] at hlen
  omega

theorem OccursAt.append (h : OccursAt w t n) (hw : w ≠ []) (u : List α) :
    OccursAt w (t ++ u) n := by
  have hlt := h.lt hw
  unfold OccursAt
  rw [drop_append_of_le_length hlt.le]
  exact h.trans (prefix_append _ _)

variable [DecidableEq α]

instance : Decidable (OccursAt w t n) := inferInstanceAs (Decidable (w <+: t.drop n))

/-- The first position where one of the words stands. -/
def firstOf (ws : List (List α)) (t : List α) : Option ℕ :=
  (List.range t.length).find? fun n => ws.any fun w => decide (OccursAt w t n)

section

variable (hws : ∀ w ∈ ws, w ≠ [])
include hws

theorem firstOf_eq_some : firstOf ws t = some c ↔
      (∃ w ∈ ws, OccursAt w t c) ∧ ∀ n < c, ∀ w ∈ ws, ¬OccursAt w t n := by
  unfold firstOf
  rw [find?_range_eq_some]
  simp only [any_eq_true, decide_eq_true_eq, mem_range, Bool.not_eq_true', any_eq_false]
  constructor
  · rintro ⟨hocc, -, hmin⟩
    exact ⟨hocc, fun n hn => hmin n hn⟩
  · rintro ⟨hocc, hmin⟩
    obtain ⟨w, hw, h⟩ := hocc
    exact ⟨⟨w, hw, h⟩, h.lt (hws w hw), fun n hn => hmin n hn⟩

theorem firstOf_eq_none : firstOf ws t = none ↔ ∀ n, ∀ w ∈ ws, ¬OccursAt w t n := by
  unfold firstOf
  rw [find?_eq_none]
  simp only [mem_range, any_eq_true, decide_eq_true_eq, not_exists, not_and]
  exact ⟨fun h n w hw hocc => h n (hocc.lt (hws w hw)) w hw hocc, fun h n _ w hw => h n w hw⟩

theorem firstOf_append (h : firstOf ws t = some c) (u : List α) :
    ∃ c' ≤ c, firstOf ws (t ++ u) = some c' := by
  obtain ⟨⟨w, hw, hocc⟩, -⟩ := (firstOf_eq_some hws).1 h
  cases hfirst : firstOf ws (t ++ u) with
  | none => exact absurd (hocc.append (hws w hw) u) ((firstOf_eq_none hws).1 hfirst c w hw)
  | some c' =>
    refine ⟨c', ?_, rfl⟩
    by_contra hlt
    exact ((firstOf_eq_some hws).1 hfirst).2 c (not_le.1 hlt) w hw (hocc.append (hws w hw) u)

end

/-- Where the text is cut: at the first word, or at its end. -/
def cutAt (ws : List (List α)) (t : List α) : ℕ := (firstOf ws t).getD t.length

/-- What comes of a text `t` that is given out already, and of the pieces behind it. -/
def giveOut (ws : List (List α)) : List α → List (List α) → List α
  | t, [] => t
  | t, p :: ps =>
    match firstOf ws (t ++ p) with
    | some c => t ++ ((t ++ p).take c).drop t.length
    | none => giveOut ws (t ++ p) ps

/-- What is given out does not reach into the first word of the whole text, or that word has
come. -/
def Clear (ws : List (List α)) (whole t : List α) : Prop :=
  t.length ≤ cutAt ws whole ∨ ∃ w ∈ ws, OccursAt w t (cutAt ws whole)

instance (whole : List α) : Decidable (Clear ws whole t) :=
  inferInstanceAs (Decidable (_ ∨ ∃ w ∈ ws, OccursAt w t (cutAt ws whole)))

theorem clear_self (hws : ∀ w ∈ ws, w ≠ []) : Clear ws t t := by
  unfold Clear cutAt
  cases h : firstOf ws t with
  | none => exact .inl le_rfl
  | some c => exact .inr ((firstOf_eq_some hws).1 h).1

omit [DecidableEq α] in
theorem take_max (c : ℕ) (t p : List α) :
    t ++ ((t ++ p).take c).drop t.length = (t ++ p).take (max t.length c) := by
  rcases le_total c t.length with h | h
  · have hdrop : ((t ++ p).take c).drop t.length = [] := by
      rw [drop_eq_nil_iff, length_take]
      exact (min_le_left _ _).trans h
    rw [max_eq_left h, hdrop, append_nil, take_left]
  · rw [max_eq_right h, take_append, take_of_length_le h, drop_left]

/-- **The pieces are the text up to the first word** just if no boundary of a piece is inside of
that word: behind its beginning, and before a word that begins there has come. -/
theorem giveOut_eq_iff (hws : ∀ w ∈ ws, w ≠ []) : ∀ (ps : List (List α)) (t : List α),
    firstOf ws t = none →
    (giveOut ws t ps = (t ++ ps.flatten).take (cutAt ws (t ++ ps.flatten)) ↔
      ∀ k ≤ ps.length, Clear ws (t ++ ps.flatten) (t ++ (ps.take k).flatten)) := by
  intro ps
  induction ps with
  | nil =>
    intro t hnone
    have hcut : cutAt ws t = t.length := by
      unfold cutAt
      rw [hnone]
      rfl
    simp only [giveOut, flatten_nil, append_nil, hcut, take_length, true_iff, take_nil]
    exact fun _ _ => .inl hcut.ge
  | cons p ps ih =>
    intro t hnone
    have hwhole : t ++ (p :: ps).flatten = (t ++ p) ++ ps.flatten := by
      rw [flatten_cons, append_assoc]
    have hnot : ∀ c, ¬∃ w ∈ ws, OccursAt w t c := by
      rintro c ⟨w, hw, hocc⟩
      exact (firstOf_eq_none hws).1 hnone c w hw hocc
    obtain ⟨whole, hdef⟩ : ∃ whole, whole = (t ++ p) ++ ps.flatten := ⟨_, rfl⟩
    rw [hwhole, ← hdef]
    have hfirst₀ : (∀ k ≤ (p :: ps).length, Clear ws whole (t ++ ((p :: ps).take k).flatten)) ↔
        Clear ws whole t ∧ ∀ k ≤ ps.length, Clear ws whole ((t ++ p) ++ (ps.take k).flatten) := by
      constructor
      · intro h
        refine ⟨?_, fun k hk => ?_⟩
        · have h₀ := h 0 (Nat.zero_le _)
          rwa [take_zero, flatten_nil, append_nil] at h₀
        · have hk' := h (k + 1) (Nat.succ_le_succ hk)
          rwa [take_succ_cons, flatten_cons, ← append_assoc] at hk'
      · rintro ⟨h₀, h⟩ k hk
        cases k with
        | zero => rwa [take_zero, flatten_nil, append_nil]
        | succ k =>
          rw [take_succ_cons, flatten_cons, ← append_assoc]
          exact h k (Nat.le_of_succ_le_succ hk)
    rw [hfirst₀]
    cases hfirst : firstOf ws (t ++ p) with
    | none =>
      have hgive : giveOut ws t (p :: ps) = giveOut ws (t ++ p) ps := by
        simp only [giveOut, hfirst]
      rw [hgive, hdef, ih (t ++ p) hfirst]
      refine ⟨fun h => ⟨.inl ?_, h⟩, fun h => h.2⟩
      -- what is shorter is clear as well
      rcases h 0 (Nat.zero_le _) with hle | ⟨w, hw, hocc⟩
      · rw [take_zero, flatten_nil, append_nil, length_append] at hle
        omega
      · rw [take_zero, flatten_nil, append_nil] at hocc
        exact absurd hocc ((firstOf_eq_none hws).1 hfirst _ w hw)
    | some c =>
      -- a word has come; nothing is given out any more
      obtain ⟨⟨w, hw, hocc⟩, hmin⟩ := (firstOf_eq_some hws).1 hfirst
      obtain ⟨c', hle, hcut⟩ := firstOf_append hws hfirst ps.flatten
      have hcut : cutAt ws whole = c' := by
        unfold cutAt
        rw [hdef, hcut]
        rfl
      have hlt := hocc.lt (hws w hw)
      have hmax : max t.length c ≤ (t ++ p).length := by
        rw [length_append] at hlt ⊢
        omega
      have hgive : giveOut ws t (p :: ps) = whole.take (max t.length c) := by
        simp only [giveOut, hfirst]
        rw [take_max, hdef, take_append_of_le_length hmax]
      have hlen : (t ++ p).length ≤ whole.length := by
        rw [hdef]
        exact (prefix_append _ _).length_le
      rw [hgive, hcut]
      have htake : whole.take (max t.length c) = whole.take c' ↔ max t.length c = c' := by
        refine ⟨fun h => ?_, fun h => by rw [h]⟩
        have hlen' := congrArg length h
        rw [length_take, length_take] at hlen'
        omega
      rw [htake]
      constructor
      · intro heq
        have hceq : c = c' := by omega
        refine ⟨.inl (by rw [hcut]; omega), fun k _ => .inr ⟨w, hw, ?_⟩⟩
        rw [hcut, ← hceq]
        exact hocc.append (hws w hw) _
      · rintro ⟨hclear, hall⟩
        have ht : t.length ≤ c' := by
          rcases hclear with h | h
          · exact h.trans_eq hcut
          · exact absurd h (hnot _)
        have hc : c ≤ c' := by
          rcases hall 0 (Nat.zero_le _) with h | ⟨v, hv, hoccv⟩
          · rw [take_zero, flatten_nil, append_nil] at h
            omega
          · rw [take_zero, flatten_nil, append_nil, hcut] at hoccv
            by_contra hgt
            exact hmin c' (not_le.1 hgt) v hv hoccv
        omega

end LayerStorm.Lib
