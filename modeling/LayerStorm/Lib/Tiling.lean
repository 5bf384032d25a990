import Mathlib

/-!
# Tilings of an interval

A list of slices tiles an interval when each slice begins where the one before it ends.  Every
point of the interval is then in exactly one slice, and a loop that fills the slices one after the
other fills each point once.
-/

namespace LayerStorm.Lib

/-- The slices `[a, b)` of the list tile `[lo, hi)`. -/
def Tiles : ℕ → List (ℕ × ℕ) → ℕ → Prop
  | lo, [], hi => lo = hi
  | lo, s :: rest, hi => s.1 = lo ∧ lo ≤ s.2 ∧ Tiles s.2 rest hi

variable {lo hi : ℕ} {slices : List (ℕ × ℕ)}

theorem Tiles.le : ∀ {slices : List (ℕ × ℕ)} {lo : ℕ}, Tiles lo slices hi → lo ≤ hi := by
  intro slices
  induction slices with
  | nil => exact fun h => le_of_eq h
  | cons s rest ih => exact fun ⟨_, hle, hrest⟩ => hle.trans (ih hrest)

theorem Tiles.of_prefix {first : List (ℕ × ℕ)} : ∀ {slices : List (ℕ × ℕ)} {lo : ℕ},
    first <+: slices → Tiles lo slices hi → ∃ mid ≤ hi, Tiles lo first mid := by
  induction first with
  | nil => exact fun {_ lo} _ h => ⟨lo, h.le, rfl⟩
  | cons s first ih =>
    rintro slices lo ⟨rest, rfl⟩ ⟨hlo, hle, hrest⟩
    obtain ⟨mid, hmid, htiles⟩ := ih (List.prefix_append first rest) hrest
    exact ⟨mid, hmid, hlo, hle, htiles⟩

theorem Tiles.bounds : ∀ {slices : List (ℕ × ℕ)} {lo : ℕ}, Tiles lo slices hi →
    ∀ s ∈ slices, lo ≤ s.1 ∧ s.2 ≤ hi := by
  intro slices
  induction slices with
  | nil =>
    intro lo _ s hs
    cases hs
  | cons t rest ih =>
    rintro lo ⟨hlo, hle, hrest⟩ s hs
    rcases List.mem_cons.1 hs with rfl | hs
    · exact ⟨hlo.ge, hrest.le⟩
    · obtain ⟨h₁, h₂⟩ := ih hrest s hs
      exact ⟨hle.trans h₁, h₂⟩

theorem Tiles.existsUnique : ∀ {slices : List (ℕ × ℕ)} {lo : ℕ}, Tiles lo slices hi →
    ∀ n, lo ≤ n → n < hi → ∃! j : ℕ, ∃ s : ℕ × ℕ, slices[j]? = some s ∧ s.1 ≤ n ∧ n < s.2 := by
  intro slices
  induction slices with
  | nil =>
    intro lo h n hlo hhi
    exact absurd (hlo.trans_lt hhi) (h ▸ lt_irrefl lo)
  | cons t rest ih =>
    rintro lo ⟨hlo, hle, hrest⟩ n hn hhi
    by_cases hin : n < t.2
    · refine ⟨0, ⟨t, rfl, hlo.trans_le hn, hin⟩, ?_⟩
      rintro j ⟨s, hs, hs₁, hs₂⟩
      cases j with
      | zero => rfl
      | succ j =>
        -- a later slice begins behind the point
        have hb := (hrest.bounds s (List.mem_of_getElem? hs)).1
        omega
    · obtain ⟨j, ⟨s, hs, hs₁, hs₂⟩, huniq⟩ := ih hrest n (not_lt.1 hin) hhi
      refine ⟨j + 1, ⟨s, hs, hs₁, hs₂⟩, ?_⟩
      rintro i ⟨s', hs', hs'₁, hs'₂⟩
      cases i with
      | zero =>
        cases hs'
        exact absurd hs'₂ hin
      | succ i => exact congrArg _ (huniq i ⟨s', hs', hs'₁, hs'₂⟩)

theorem Tiles.of_empty : ∀ {slices : List (ℕ × ℕ)} {lo : ℕ}, Tiles lo slices hi → ∀ k : ℕ,
    ((slices.zipIdx k).filter fun x => x.1.1 < x.1.2) = [] → lo = hi := by
  intro slices
  induction slices with
  | nil => exact fun h _ _ => h
  | cons s rest ih =>
    rintro lo ⟨rfl, hle, hrest⟩ k hnil
    rw [List.zipIdx_cons, List.filter_cons] at hnil
    split_ifs at hnil with hlt
    have hge : s.2 ≤ s.1 := not_lt.1 fun h => hlt (decide_eq_true h)
    exact (le_antisymm hle hge).trans (ih hrest (k + 1) hnil)

def fillSlice {V : Type*} (f : ℕ → V) (g : ℕ → V) (s : ℕ × ℕ) : ℕ → V := fun n =>
  if s.1 ≤ n ∧ n < s.2 then f n else g n

/-- **Filling the slices one after the other** fills the interval. -/
theorem foldl_fillSlice {V : Type*} (f : ℕ → V) : ∀ {slices : List (ℕ × ℕ)} {lo : ℕ} {g : ℕ → V},
    Tiles lo slices hi → slices.foldl (fillSlice f) g = fillSlice f g (lo, hi) := by
  intro slices
  induction slices with
  | nil =>
    rintro lo g rfl
    funext n
    exact (if_neg fun h => absurd (h.1.trans_lt h.2) (lt_irrefl lo)).symm
  | cons s rest ih =>
    rintro lo g ⟨rfl, hle, hrest⟩
    have hhi := hrest.le
    rw [List.foldl_cons, ih hrest]
    funext n
    unfold fillSlice
    dsimp only
    split_ifs <;> first | rfl | omega

/-! ### Pieces -/

/-- The pieces of a loop over `rows` points that takes up to `cap` of them in each round: offset and
length. -/
def chunks (cap rows : ℕ) : List (ℕ × ℕ) :=
  (List.range ((rows + cap - 1) / cap)).map fun k => (k * cap, min cap (rows - k * cap))

/-- **The rule for a loop over the pieces**: what holds when the points below an offset are done is
carried from the beginning to the end. -/
theorem foldl_chunks {σ : Type*} {f : σ → ℕ × ℕ → σ} {P : ℕ → σ → Prop} {cap rows : ℕ} {s : σ}
    (hcap : 0 < cap)
    (hstep : ∀ off s, off < rows → P off s →
      P (off + min cap (rows - off)) (f s (off, min cap (rows - off))))
    (h : P 0 s) : P rows ((chunks cap rows).foldl f s) := by
  set count := (rows + cap - 1) / cap with hcount
  have hlast : rows ≤ count * cap := by
    have hlt := Nat.lt_div_mul_add (a := rows + cap - 1) hcap
    rw [← hcount] at hlt
    omega
  have hfew : ∀ k < count, k * cap < rows := by
    intro k hk
    have hle := (Nat.le_div_iff_mul_le hcap).1 (Nat.succ_le_of_lt hk)
    rw [Nat.succ_mul] at hle
    omega
  have hloop : ∀ n ≤ count, P (min (n * cap) rows) (((List.range n).map fun k =>
        (k * cap, min cap (rows - k * cap))).foldl f s) := by
    intro n
    induction n with
    | zero =>
      intro _
      rw [Nat.zero_mul, Nat.zero_min]
      exact h
    | succ n ih =>
      intro hn
      have hlt := hfew n hn
      have hP := ih (Nat.le_of_succ_le hn)
      rw [Nat.min_eq_left hlt.le] at hP
      rw [List.range_succ, List.map_append, List.foldl_append]
      have hoff : min ((n + 1) * cap) rows = n * cap + min cap (rows - n * cap) := by
        rw [Nat.succ_mul]
        omega
      rw [hoff]
      exact hstep (n * cap) _ hlt hP
  have hend := hloop count le_rfl
  rwa [Nat.min_eq_right hlast] at hend

end LayerStorm.Lib
