import LayerStorm.Lib.Tiling

/-!
# Loops that end their rounds at multiples of a stride

A loop walks from a position to a stop; each round goes to the next multiple of a stride, or to the
stop.  Wherever it begins, its rounds tile the interval and meet every multiple on the way, so a loop
that begins at a place that another one meets goes on as the other one does.
-/

namespace LayerStorm.Lib

open Nat

def strideLen (stride stop pos : ℕ) : ℕ := min (stride - pos % stride) (stop - pos)

variable {stride stop pos p : ℕ}

theorem strideLen_pos (hs : 0 < stride) (hpos : pos < stop) : 0 < strideLen stride stop pos := by
  have hmod := mod_lt pos hs
  unfold strideLen
  omega

theorem strideLen_le (stride stop pos : ℕ) : strideLen stride stop pos ≤ stop - pos :=
  min_le_right _ _

theorem dvd_next (hs : 0 < stride) (pos : ℕ) : stride ∣ pos + (stride - pos % stride) := by
  have hmod := mod_lt pos hs
  have hdiv := div_add_mod pos stride
  have heq : pos + (stride - pos % stride) = stride * (pos / stride + 1) := by
    rw [mul_add]
    omega
  exact heq ▸ dvd_mul_right _ _

theorem strideLen_end (hs : 0 < stride) (hpos : pos ≤ stop) :
    pos + strideLen stride stop pos = stop ∨ stride ∣ pos + strideLen stride stop pos := by
  unfold strideLen
  rcases le_total (stride - pos % stride) (stop - pos) with hle | hle
  · rw [min_eq_left hle]
    exact .inr (dvd_next hs pos)
  · exact .inl (by omega)

theorem strideLen_le_of_dvd (hp : stride ∣ p) (hlt : pos < p) :
    pos + strideLen stride stop pos ≤ p := by
  have hround : pos + (stride - pos % stride) ≤ p := by
    rcases Nat.eq_zero_or_pos stride with rfl | hs
    · rw [Nat.zero_sub]
      exact hlt.le
    obtain ⟨k, rfl⟩ := hp
    have hdiv := div_add_mod pos stride
    have hk : pos / stride < k := (div_lt_iff_lt_mul hs).2 (by rwa [mul_comm])
    have hle := mul_le_mul_left stride (succ_le_of_lt hk)
    rw [mul_succ] at hle
    omega
  have hmin : strideLen stride stop pos ≤ stride - pos % stride := min_le_left _ _
  omega

/-! ### Rounds -/

/-- The rounds of a loop to a stop, at most so many: the position and the length of each. -/
def rounds (len : ℕ → ℕ) (stop : ℕ) : ℕ → ℕ → List (ℕ × ℕ)
  | 0, _ => []
  | fuel + 1, pos => if pos < stop then (pos, len pos) :: rounds len stop fuel (pos + len pos) else []

/-- Where a round begins and where it ends. -/
def span (r : ℕ × ℕ) : ℕ × ℕ := (r.1, r.1 + r.2)

variable {len : ℕ → ℕ} {fuel : ℕ}

/-- A loop that goes on, and does not go past the stop. -/
def Advances (len : ℕ → ℕ) (stop : ℕ) : Prop := ∀ p < stop, 0 < len p ∧ p + len p ≤ stop

theorem rounds_of_ge (hpos : stop ≤ pos) : rounds len stop fuel pos = [] := by
  cases fuel with
  | zero => rfl
  | succ fuel => exact if_neg (not_lt.2 hpos)

theorem rounds_of_lt (hfuel : stop ≤ pos + fuel) (hpos : pos < stop) :
    rounds len stop fuel pos = (pos, len pos) :: rounds len stop (fuel - 1) (pos + len pos) := by
  obtain ⟨k, rfl⟩ := exists_eq_succ_of_ne_zero (n := fuel) (by omega)
  exact if_pos hpos

theorem rounds_fuel (h : Advances len stop) : ∀ {fuel fuel' pos : ℕ}, stop ≤ pos + fuel →
    stop ≤ pos + fuel' → rounds len stop fuel pos = rounds len stop fuel' pos := by
  intro fuel
  induction fuel with
  | zero =>
    intro fuel' pos hf _
    rw [rounds_of_ge (by omega), rounds_of_ge (by omega)]
  | succ fuel ih =>
    intro fuel' pos hf hf'
    rcases lt_or_ge pos stop with hpos | hpos
    · have hlen := (h pos hpos).1
      rw [rounds_of_lt hf hpos, rounds_of_lt hf' hpos]
      exact congrArg _ (ih (by omega) (by omega))
    · rw [rounds_of_ge hpos, rounds_of_ge hpos]

theorem rounds_tile (h : Advances len stop) : ∀ {fuel pos : ℕ}, stop ≤ pos + fuel → pos ≤ stop →
    Tiles pos ((rounds len stop fuel pos).map span) stop := by
  intro fuel
  induction fuel with
  | zero =>
    intro pos hf hpos
    exact le_antisymm hpos hf
  | succ fuel ih =>
    intro pos hf hle
    rcases lt_or_ge pos stop with hpos | hpos
    · obtain ⟨hlen, hend⟩ := h pos hpos
      have hrest := @ih (pos + len pos) (by omega) hend
      rw [rounds_of_lt hf hpos]
      exact ⟨rfl, le_add_right _ _, hrest⟩
    · rw [rounds_of_ge hpos]
      exact le_antisymm hle hpos

theorem rounds_forall {P : ℕ → ℕ → Prop} (hP : ∀ p < stop, P p (len p)) : ∀ {fuel pos : ℕ},
    ∀ r ∈ rounds len stop fuel pos, P r.1 r.2 := by
  intro fuel
  induction fuel with
  | zero => exact fun r hr => absurd hr List.not_mem_nil
  | succ fuel ih =>
    intro pos r hr
    rw [rounds] at hr
    by_cases hpos : pos < stop
    · rw [if_pos hpos] at hr
      rcases List.mem_cons.1 hr with rfl | hr
      · exact hP pos hpos
      · exact ih r hr
    · rw [if_neg hpos] at hr
      exact absurd hr List.not_mem_nil

/-- **The rounds from a place that is met** are the last rounds from further back. -/
theorem rounds_suffix (h : Advances len stop) (hp : p ≤ stop)
    (hmet : ∀ q < p, q + len q ≤ p) : ∀ {fuel fuel' pos : ℕ}, stop ≤ pos + fuel →
    stop ≤ p + fuel' → pos ≤ p →
    rounds len stop fuel' p <:+ rounds len stop fuel pos := by
  intro fuel
  induction fuel with
  | zero =>
    intro fuel' pos hf _ _
    rw [rounds_of_ge (by omega)]
    exact List.nil_suffix
  | succ fuel ih =>
    intro fuel' pos hf hf' hle
    rcases lt_or_ge pos p with hlt | hge
    · obtain ⟨hlen, -⟩ := h pos (by omega)
      rw [rounds_of_lt hf (by omega)]
      exact (ih (by omega) hf' (hmet pos hlt)).trans (List.suffix_cons _ _)
    · obtain rfl := le_antisymm hle hge
      rw [rounds_fuel h hf' hf]

end LayerStorm.Lib
