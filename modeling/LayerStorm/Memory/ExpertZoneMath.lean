import LayerStorm.Memory.ExpertCache

/-!
# Expert slots in granted slabs

`ExpertZoneGeometry` tells how many expert slots a run of slabs holds, of which a pad is lost to
the alignment of the first slot, and how many slabs a number of slots takes.  A run qualifies if
not too much of it is wasted.

Numbers are below the limits of their types, and fractions are rational.

## Main results

* `expert_zone_sizing` — the laws of the sizes.
* `grantSlabs_askedSlots` — what `try_grant` asks for is found.
-/

namespace LayerStorm.Memory

open List

/-- The geometry, with what `valid` asks of the sizes. -/
structure ExpertZoneGeometry where
  expertSlotBytes : ℕ
  slabBytes : ℕ
  maxWaste : ℚ
  expert_pos : 0 < expertSlotBytes
  slab_pos : 0 < slabBytes

/-- The pad before slot 0; it is largest for a misalignment of one byte. -/
def zoneBasePad (misalign : ℕ) : ℕ := if misalign = 0 then 0 else expertZoneSlotAlign - misalign

namespace ExpertZoneGeometry

variable (z : ExpertZoneGeometry)

def slotStride : ℕ :=
  (z.expertSlotBytes + expertZoneSlotAlign - 1) / expertZoneSlotAlign * expertZoneSlotAlign

def capacityBytes (numSlabs : ℕ) : ℕ := numSlabs * z.slabBytes

/-- `slots_in`.  The last slot does not need a full stride. -/
def slotsIn (numSlabs misalign : ℕ) : ℕ :=
  let reserved := zoneBasePad misalign + z.expertSlotBytes
  if z.capacityBytes numSlabs < reserved then 0
  else (z.capacityBytes numSlabs - reserved) / z.slotStride + 1

def slabsForSlots (numSlots misalign : ℕ) : ℕ :=
  if numSlots = 0 then 0
  else
    (zoneBasePad misalign + (numSlots - 1) * z.slotStride + z.expertSlotBytes + z.slabBytes - 1) /
      z.slabBytes

def wasteFrac (numSlabs numSlots : ℕ) : ℚ :=
  if 0 < z.capacityBytes numSlabs then
    (z.capacityBytes numSlabs - numSlots * z.expertSlotBytes) / z.capacityBytes numSlabs
  else 1

def Admissible (numSlabs misalign : ℕ) : Prop :=
  1 ≤ z.slotsIn numSlabs misalign ∧ z.wasteFrac numSlabs (z.slotsIn numSlabs misalign) ≤ z.maxWaste

instance (numSlabs misalign : ℕ) : Decidable (z.Admissible numSlabs misalign) :=
  inferInstanceAs (Decidable (_ ∧ _))

/-- The test of `best_fit`. -/
def Fits (runSlabs misalign n : ℕ) : Prop :=
  z.slabsForSlots n misalign ≤ runSlabs ∧ z.wasteFrac (z.slabsForSlots n misalign) n ≤ z.maxWaste

instance (runSlabs misalign n : ℕ) : Decidable (z.Fits runSlabs misalign n) :=
  inferInstanceAs (Decidable (_ ∧ _))

/-- `best_fit`: slots and slabs. -/
def bestFit (runSlabs misalign : ℕ) : ℕ × ℕ :=
  match (List.range' 1 (z.slotsIn runSlabs misalign)).reverse.find? (z.Fits runSlabs misalign ·) with
  | some n => (n, z.slabsForSlots n misalign)
  | none => (0, 0)

def grantSlabs (askSlots runSlabs : ℕ) : ℕ :=
  if askSlots < 1 ∨ runSlabs < 1 then 0
  else
    let least := z.slabsForSlots askSlots 1
    ((List.range' least (runSlabs + 1 - least)).find? (z.Admissible · 1)).getD 0

/-! ### Slots and slabs -/

variable {z} {S S' n n' m m' : ℕ}

theorem slotStride_pos : 0 < z.slotStride := by
  have := z.expert_pos
  unfold slotStride expertZoneSlotAlign
  omega

/-- The bytes up to the end of the last slot. -/
theorem lt_slotsIn_iff : n < z.slotsIn S m ↔
      zoneBasePad m + n * z.slotStride + z.expertSlotBytes ≤ z.capacityBytes S := by
  unfold slotsIn
  dsimp only
  split
  · omega
  · rw [Nat.lt_succ_iff, Nat.le_div_iff_mul_le slotStride_pos]
    omega

/-- **Slabs and slots are a Galois connection.** -/
theorem slabsForSlots_le_iff : z.slabsForSlots n m ≤ S ↔ n ≤ z.slotsIn S m := by
  cases n with
  | zero => simp [slabsForSlots]
  | succ n =>
    rw [Nat.succ_le_iff, lt_slotsIn_iff, slabsForSlots, if_neg n.succ_ne_zero,
      Nat.div_le_iff_le_mul_add_pred z.slab_pos, capacityBytes, Nat.mul_comm S]
    have := z.slab_pos
    simp only [Nat.add_sub_cancel]
    omega

theorem slotsIn_mono (h : S ≤ S') : z.slotsIn S m ≤ z.slotsIn S' m :=
  slabsForSlots_le_iff.1 ((slabsForSlots_le_iff.2 le_rfl).trans h)

theorem slabsForSlots_mono (h : n ≤ n') : z.slabsForSlots n m ≤ z.slabsForSlots n' m :=
  slabsForSlots_le_iff.2 (h.trans (slabsForSlots_le_iff.1 le_rfl))

theorem slotsIn_zero : z.slotsIn 0 m = 0 := by
  have := z.expert_pos
  simp [slotsIn, capacityBytes, this]

/-- A smaller pad leaves room for more slots. -/
theorem slotsIn_anti (h : zoneBasePad m ≤ zoneBasePad m') : z.slotsIn S m' ≤ z.slotsIn S m := by
  refine Nat.le_of_not_lt fun hlt => ?_
  have hmore := lt_slotsIn_iff.1 hlt
  exact absurd (lt_slotsIn_iff (z := z) (S := S) (m := m) |>.2 (by omega)) (lt_irrefl _)

/-! ### Waste -/

theorem wasteFrac_anti (h : n ≤ n') : z.wasteFrac S n' ≤ z.wasteFrac S n := by
  unfold wasteFrac
  split
  · have := Nat.mul_le_mul_right z.expertSlotBytes h
    gcongr
  · rfl

theorem wasteFrac_mono (hS : 0 < S) (h : S ≤ S') : z.wasteFrac S n ≤ z.wasteFrac S' n := by
  have hcap : 0 < z.capacityBytes S := Nat.mul_pos hS z.slab_pos
  have hle : z.capacityBytes S ≤ z.capacityBytes S' := Nat.mul_le_mul_right _ h
  have hpos : (0 : ℚ) < z.capacityBytes S := Nat.cast_pos.2 hcap
  have hpos' : (0 : ℚ) < z.capacityBytes S' := Nat.cast_pos.2 (hcap.trans_le hle)
  unfold wasteFrac
  rw [if_pos hcap, if_pos (hcap.trans_le hle), sub_div, sub_div, div_self hpos.ne',
    div_self hpos'.ne']
  gcongr

/-- **The largest pad** is that of a misalignment of one. -/
theorem slotsIn_worst (S m : ℕ) : z.slotsIn S 1 ≤ z.slotsIn S m :=
  slotsIn_anti (by
    unfold zoneBasePad
    split <;> simp only [one_ne_zero, if_false] <;> omega)

theorem Admissible.of_worst (h : z.Admissible S 1) (m : ℕ) : z.Admissible S m :=
  ⟨h.1.trans (slotsIn_worst S m), (wasteFrac_anti (slotsIn_worst S m)).trans h.2⟩

/-! ### The fit -/

variable {run : ℕ}

/-- The first that qualifies in a list without repetitions that is ordered. -/
theorem find?_first {r : ℕ → ℕ → Prop} {p : ℕ → Bool} {l : List ℕ} (hl : l.Pairwise r) {a : ℕ}
    (h : l.find? p = some a) : p a ∧ a ∈ l ∧ ∀ b ∈ l, p b → b = a ∨ r a b := by
  obtain ⟨hp, before, after, rfl, hbefore⟩ := find?_eq_some_iff_append.1 h
  refine ⟨hp, by simp, fun b hb hpb => ?_⟩
  rcases mem_append.1 hb with hb | hb
  · simp only [Bool.not_eq_true'] at hbefore
    rw [hbefore b hb] at hpb
    cases hpb
  · rcases mem_cons.1 hb with rfl | hb
    · exact .inl rfl
    · exact .inr (rel_of_pairwise_cons (pairwise_append.1 hl).2.1 hb)

theorem Admissible.fits (h : z.Admissible S m) (hS : S ≤ run) : z.Fits run m (z.slotsIn S m) := by
  have hle : z.slabsForSlots (z.slotsIn S m) m ≤ S := slabsForSlots_le_iff.2 le_rfl
  refine ⟨hle.trans hS, (wasteFrac_mono ?_ hle).trans h.2⟩
  refine Nat.pos_of_ne_zero fun hzero => ?_
  have hslots := slabsForSlots_le_iff.1 hzero.le
  rw [slotsIn_zero] at hslots
  exact absurd (h.1.trans hslots) (by decide)

/-- **The best fit** has most slots and, of the runs with so many, is the shortest. -/
theorem bestFit_spec (run m : ℕ) : (z.bestFit run m = (0, 0) ∧ ∀ S ≤ run, ¬ z.Admissible S m) ∨
      ∃ S ≤ run, z.bestFit run m = (z.slotsIn S m, S) ∧ z.Admissible S m ∧
        ∀ S' ≤ run, z.Admissible S' m → z.slotsIn S' m ≤ z.slotsIn S m ∧
          (z.slotsIn S' m = z.slotsIn S m → S ≤ S') := by
  have hmem : ∀ n, n ∈ (range' 1 (z.slotsIn run m)).reverse ↔ 1 ≤ n ∧ n ≤ z.slotsIn run m := by
    intro n
    rw [mem_reverse, mem_range'_1]
    omega
  unfold bestFit
  split
  · next n hfind =>
    obtain ⟨hfits, hn, hfirst⟩ := find?_first (pairwise_reverse.2 pairwise_lt_range') hfind
    have hfits : z.Fits run m n := of_decide_eq_true hfits
    have hmax : ∀ n', 1 ≤ n' → n' ≤ z.slotsIn run m → z.Fits run m n' → n' ≤ n := by
      intro n' hpos hle hfits'
      rcases hfirst n' ((hmem n').2 ⟨hpos, hle⟩) (decide_eq_true hfits') with rfl | hlt
      · exact le_rfl
      · exact hlt.le
    have hpos := ((hmem n).1 hn).1
    have hle : n ≤ z.slotsIn (z.slabsForSlots n m) m := slabsForSlots_le_iff.1 le_rfl
    have hslabs : z.slabsForSlots (z.slotsIn (z.slabsForSlots n m) m) m = z.slabsForSlots n m :=
      le_antisymm (slabsForSlots_le_iff.2 le_rfl) (slabsForSlots_mono hle)
    have hslots : z.slotsIn (z.slabsForSlots n m) m = n := by
      refine le_antisymm (hmax _ (hpos.trans hle) (slotsIn_mono hfits.1) ?_) hle
      exact ⟨hslabs.le.trans hfits.1, by rw [hslabs]; exact (wasteFrac_anti hle).trans hfits.2⟩
    refine .inr ⟨z.slabsForSlots n m, hfits.1, by rw [hslots], ⟨by omega, ?_⟩, fun S' hS' h => ?_⟩
    · rw [hslots]
      exact hfits.2
    · rw [hslots]
      exact ⟨hmax _ h.1 (slotsIn_mono hS') (h.fits hS'), fun heq => slabsForSlots_le_iff.2 heq.ge⟩
  · next hfind =>
    refine .inl ⟨rfl, fun S hS h => ?_⟩
    have := find?_eq_none.1 hfind _ ((hmem _).2 ⟨h.1, slotsIn_mono hS⟩)
    exact this (decide_eq_true (h.fits hS))

/-- **A grant takes the least number of slabs** that qualify. -/
theorem grantSlabs_spec {ask : ℕ} (hask : 1 ≤ ask) (run : ℕ) :
    (z.grantSlabs ask run = 0 ∧ ∀ S ≤ run, ask ≤ z.slotsIn S 1 → ¬ z.Admissible S 1) ∨
      IsLeast {S | S ≤ run ∧ ask ≤ z.slotsIn S 1 ∧ z.Admissible S 1} (z.grantSlabs ask run) := by
  have hmem : ∀ S, S ∈ range' (z.slabsForSlots ask 1) (run + 1 - z.slabsForSlots ask 1) ↔
      ask ≤ z.slotsIn S 1 ∧ S ≤ run := by
    intro S
    rw [mem_range'_1, ← slabsForSlots_le_iff]
    omega
  unfold grantSlabs
  split
  · next hsmall =>
    refine .inl ⟨rfl, fun S hS hslots _ => ?_⟩
    obtain rfl : S = 0 := by omega
    rw [slotsIn_zero] at hslots
    omega
  dsimp only
  cases hfind : (range' (z.slabsForSlots ask 1)
      (run + 1 - z.slabsForSlots ask 1)).find? (z.Admissible · 1) with
  | none =>
    refine .inl ⟨rfl, fun S hS hslots h => ?_⟩
    exact find?_eq_none.1 hfind S ((hmem S).2 ⟨hslots, hS⟩) (decide_eq_true h)
  | some S =>
    obtain ⟨hadm, hS, hfirst⟩ := find?_first pairwise_lt_range' hfind
    obtain ⟨hslots, hle⟩ := (hmem S).1 hS
    refine .inr ⟨⟨hle, hslots, of_decide_eq_true hadm⟩, fun S' h => ?_⟩
    rcases hfirst S' ((hmem S').2 ⟨h.2.1, h.1⟩) (decide_eq_true h.2.2) with heq | hlt
    · exact heq.ge
    · exact hlt.le

/-- The slots that `try_grant` asks for out of a free run of slabs. -/
def askedSlots (z : ExpertZoneGeometry) (run maxSlots : ℕ) : ℕ := min (z.bestFit run 1).1 maxSlots

/-- **What is asked for is found** in a run and holds at every base: `try_grant` neither misses a
number of slabs for its slots nor gives a claimed run back for its waste. -/
theorem grantSlabs_askedSlots {run maxSlots : ℕ} (hask : 1 ≤ z.askedSlots run maxSlots) :
    z.grantSlabs (z.askedSlots run maxSlots) run ∈ Set.Icc 1 run ∧
      ∀ m, z.askedSlots run maxSlots ≤ z.slotsIn (z.grantSlabs (z.askedSlots run maxSlots) run) m ∧
        z.Admissible (z.grantSlabs (z.askedSlots run maxSlots) run) m := by
  set ask := z.askedSlots run maxSlots
  have hbest : ask ≤ (z.bestFit run 1).1 := min_le_left _ _
  rcases grantSlabs_spec hask run with ⟨-, hnone⟩ | hleast
  · -- the best fit is a run that qualifies
    rcases bestFit_spec run 1 with ⟨hzero, -⟩ | ⟨S, hS, hfit, hadm, -⟩
    · rw [hzero] at hbest
      exact absurd (hask.trans hbest) (by decide)
    · rw [hfit] at hbest
      exact absurd hadm (hnone S hS hbest)
  · obtain ⟨hle, hslots, hadm⟩ := hleast.1
    refine ⟨⟨Nat.one_le_iff_ne_zero.2 fun hzero => ?_, hle⟩, fun m => ?_⟩
    · rw [hzero, slotsIn_zero] at hslots
      omega
    · exact ⟨hslots.trans (slotsIn_worst _ m), hadm.of_worst m⟩

/-- Two slots are asked for out of four slabs. -/
theorem grantSlabs_askedSlots_two : ∃ z : ExpertZoneGeometry, z.askedSlots 4 2 = 2 ∧
    z.grantSlabs (z.askedSlots 4 2) 4 ∈ Set.Icc 1 4 :=
  have hask : askedSlots ⟨4096, 8192, 1 / 2, Nat.succ_pos 4095, Nat.succ_pos 8191⟩ 4 2 = 2 := by
    decide +kernel
  ⟨_, hask, (grantSlabs_askedSlots (by rw [hask]; decide)).1⟩

/-- **The laws of the sizes.** -/
theorem expert_zone_sizing (z : ExpertZoneGeometry) :
    (∀ n m, IsLeast {S | n ≤ z.slotsIn S m} (z.slabsForSlots n m)) ∧
    (∀ m, Monotone (z.slotsIn · m)) ∧
    (∀ S m m', zoneBasePad m ≤ zoneBasePad m' → z.slotsIn S m' ≤ z.slotsIn S m) ∧
    (∀ S m, z.Admissible S 1 → z.Admissible S m) ∧
    (∀ run m, (z.bestFit run m = (0, 0) ∧ ∀ S ≤ run, ¬ z.Admissible S m) ∨
      ∃ S ≤ run, z.bestFit run m = (z.slotsIn S m, S) ∧ z.Admissible S m ∧
        ∀ S' ≤ run, z.Admissible S' m → z.slotsIn S' m ≤ z.slotsIn S m ∧
          (z.slotsIn S' m = z.slotsIn S m → S ≤ S')) ∧
    ∀ ask run, 1 ≤ ask →
      (z.grantSlabs ask run = 0 ∧ ∀ S ≤ run, ask ≤ z.slotsIn S 1 → ¬ z.Admissible S 1) ∨
        IsLeast {S | S ≤ run ∧ ask ≤ z.slotsIn S 1 ∧ z.Admissible S 1} (z.grantSlabs ask run) :=
  ⟨fun _ _ => ⟨slabsForSlots_le_iff.1 le_rfl, fun _ h => slabsForSlots_le_iff.2 h⟩,
    fun _ _ _ h => slotsIn_mono h, fun _ _ _ h => slotsIn_anti h, fun _ m h => h.of_worst m,
    bestFit_spec, fun _ run hask => grantSlabs_spec hask run⟩

/-- **More misalignment may mean a smaller pad.** -/
theorem slotsIn_not_antitone :
    ¬ ∀ (z : ExpertZoneGeometry) (S : ℕ), AntitoneOn (z.slotsIn S) (Set.Iio 4096) := by
  intro h
  have := h ⟨4096, 4097, 1 / 10, by decide, by decide⟩ 1 (a := 1) (b := 4095) (by decide)
    (by decide) (by decide)
  revert this
  decide

end ExpertZoneGeometry

end LayerStorm.Memory
