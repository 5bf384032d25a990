import LayerStorm.Autoconfig.AdmissibleLength
import LayerStorm.Autoconfig.ExpertTargets
import LayerStorm.Lib.ExceptLoop

/-!
# The recipe that autoconfig emits

`_fit_attempt` plans each GPU against its usable bytes.  The recipe gives the engine whole GiB of
VRAM, expert zones in multiples of a quantum and margins in hundredths of a GiB, and each of these
roundings may lose what the plan needs.

Floats are rational numbers.  What the state, the pages and the indexer take is input, with
arbitrary values, and so are the weights, the draft and the margin of the long-context plan.

## Main results

* `recipe_holds_plan` — **the recipe holds the plans of inputs of which the roundings lose nothing**.
-/

namespace LayerStorm.Autoconfig
namespace EmittedRecipe

open ExpertTargets (gib truncate roundHalfEven GpuInfo)
open Lib

def roundGib (bytes : ℤ) (quantum : ℚ) : ℚ := roundHalfEven (bytes / gib / quantum) * quantum

/-- The number is rounded to `k` or more: it is past the middle below `k`, or on it if `k` is
even. -/
def Reaches (y : ℚ) (k : ℤ) : Prop := k - 1 / 2 < y ∨ k - 1 / 2 = y ∧ k % 2 = 0

/-- The bytes of a `GpuPlan`. -/
structure GpuPlan where
  usableBytes : ℤ
  pinnedBytes : ℤ
  draftBytes : ℤ
  marginBytes : ℤ
  expertBytes : ℤ
  kdaBytes : ℤ := 0
  kvPoolBytes : ℤ := 0
  idxShareBytes : ℤ := 0
  scratchBytes : ℤ := 0
  deriving DecidableEq

namespace GpuPlan

variable (p : GpuPlan)

def totalCommitted : ℤ :=
  p.pinnedBytes + p.draftBytes + p.marginBytes + p.kdaBytes + p.expertBytes + p.kvPoolBytes +
    p.idxShareBytes + p.scratchBytes

def slack : ℤ := p.usableBytes - p.totalCommitted

/-- The test at the end of a fit. -/
def carve : Except Infeasible GpuPlan := if p.slack < 0 then .error .vramCarveOverflow else .ok p

end GpuPlan

/-- What `_tp_fit` charges for the recurrent state, the pages and the indexer. -/
structure Pools where
  kdaBytes : ℤ
  kvPoolBytes : ℤ
  idxShareBytes : ℤ

/-- What the solver reads.  The bounds of the knobs are those of their schema. -/
structure Solver where
  base : ExpertTargets.Input
  prefillScratchGb : ℚ
  setups : ℕ → TpSetup
  /-- `_pinned_for`. -/
  pinnedFor : ℕ → ℤ
  /-- `_longctx_plan`: the margin. -/
  longctxMarginGb : Attempt → Except Infeasible ℚ
  pools : Attempt → GpuPlan → Except Infeasible Pools
  fraction_nonneg : 0 ≤ base.vramUsableFraction
  margin_nonneg : 0 ≤ base.vramSafetyMarginGb
  quantum_ge : 1 / 16 ≤ base.expertGibQuantum

/-- The entry of a GPU in `hardware.gpus`. -/
structure GpuEntry where
  vramGb : ℤ
  expertStreaming : ℚ
  safetyMarginGb : Option ℚ

namespace Solver

variable (s : Solver)

/-! ### The fit -/

def tpFit (a : Attempt) (g : GpuInfo) (marginGb : ℚ) (expertBytes : ℤ) :
    Except Infeasible GpuPlan := do
  let plan : GpuPlan :=
    { usableBytes := s.base.usableBytes g
      marginBytes := truncate (marginGb * gib)
      pinnedBytes := s.pinnedFor a.tp
      draftBytes := if a.draftOff then 0 else (s.setups a.tp).draftBytes
      scratchBytes := truncate (s.prefillScratchGb * gib)
      expertBytes := expertBytes }
  let pools ← s.pools a plan
  GpuPlan.carve { plan with
      kdaBytes := pools.kdaBytes
      kvPoolBytes := pools.kvPoolBytes
      idxShareBytes := pools.idxShareBytes }

/-- The plan of a GPU outside the group. -/
def hostFit (a : Attempt) (i : ℕ) (g : GpuInfo) (expertBytes : ℤ) : Except Infeasible GpuPlan :=
  let setup := s.setups a.tp
  GpuPlan.carve
    { usableBytes := s.base.usableBytes g
      marginBytes := truncate (s.base.vramSafetyMarginGb * gib)
      pinnedBytes := truncate (s.base.nonTpOverheadGib * gib)
      draftBytes := if a.draftOff = false ∧ i ∈ setup.draftRanks then setup.draftBytes else 0
      expertBytes := expertBytes }

/-- `expert_targets` on the slack of the probe. -/
def targets (a : Attempt) (marginGb : ℚ) : Except Infeasible (ℕ → ℤ) := do
  let first ← match s.base.ordered with
    | [] => .error .other
    | first :: _ => .ok first
  let probe ← s.tpFit a first marginGb 0
  ({ s.base with tp := a.tp, residualTpBytes := probe.slack }).expertTargets.mapError fun _ => .other

/-- The bytes of a GPU's target. -/
def targetBytes (targets : ℕ → ℤ) (g : GpuInfo) : ℤ := targets g.ordinal * s.base.slotBytes

/-- The bytes of its expert zone. -/
def zoneBytes (targets : ℕ → ℤ) (g : GpuInfo) : ℤ :=
  truncate (roundGib (s.targetBytes targets g) s.base.expertGibQuantum * gib)

def fitAttempt (a : Attempt) : Except Infeasible (List GpuPlan) := do
  let marginGb ← s.longctxMarginGb a
  let targets ← s.targets a marginGb
  s.base.ordered.zipIdx.mapM fun x =>
    if x.2 < a.tp then s.tpFit a x.1 marginGb (s.zoneBytes targets x.1)
    else s.hostFit a x.2 x.1 (s.zoneBytes targets x.1)

/-! ### The recipe -/

/-- What `_assemble` writes for a GPU. -/
def entry (a : Attempt) (i : ℕ) (g : GpuInfo) (p : GpuPlan) : GpuEntry where
  vramGb := truncate (g.vramMib * s.base.vramUsableFraction) / 2 ^ 10
  expertStreaming := roundGib p.expertBytes s.base.expertGibQuantum
  safetyMarginGb :=
    if i < a.tp ∧ truncate (s.base.vramSafetyMarginGb * gib) < p.marginBytes then
      some (roundHalfEven (p.marginBytes / gib * 100) / 100)
    else none

/-- The margin of a GPU: its own, or the one of the memory section. -/
def emittedMargin (e : GpuEntry) : ℚ := e.safetyMarginGb.getD s.base.vramSafetyMarginGb

/-- **The entry holds the plan.** -/
structure Holds (a : Attempt) (i : ℕ) (g : GpuInfo) (p : GpuPlan) : Prop where
  committed : p.totalCommitted ≤ (s.entry a i g p).vramGb * 2 ^ 30
  experts : (s.entry a i g p).expertStreaming * 2 ^ 30 = p.expertBytes
  slots : i < a.tp → (s.base.numExpertsPerTok * s.base.slotBytes : ℤ) ≤ p.expertBytes
  margin : p.marginBytes ≤ s.emittedMargin (s.entry a i g p) * 2 ^ 30

/-- The entries hold the plans, whichever attempt the search settles on. -/
def HoldsPlans (a : Attempt) : Prop :=
  ∀ plans, s.fitAttempt a = .ok plans →
    ∀ g i p, ((g, i), p) ∈ s.base.ordered.zipIdx.zip plans → s.Holds a i g p

/-! ### What the roundings need -/

/-- **What the roundings need** to lose nothing. -/
structure Covers (a : Attempt) (targets : ℕ → ℤ) (i : ℕ) (g : GpuInfo) (p : GpuPlan) : Prop where
  /-- The plan leaves free what is cut off to get whole GiB. -/
  whole : p.usableBytes % 2 ^ 30 ≤ p.slack
  /-- The multiple of the quantum is a number of bytes. -/
  bytes : ∃ n : ℤ, roundGib (s.targetBytes targets g) s.base.expertGibQuantum * gib = n
  /-- The target is nearer to multiples of the quantum that hold the floor than to those below. -/
  near : i < a.tp → Reaches ((s.targetBytes targets g : ℚ) / gib / s.base.expertGibQuantum)
      ⌈(s.base.numExpertsPerTok * s.base.slotBytes : ℚ) / gib / s.base.expertGibQuantum⌉
  /-- The hundredths of a raised margin are rounded up. -/
  hundredths : i < a.tp → truncate (s.base.vramSafetyMarginGb * gib) < p.marginBytes →
    Reaches (p.marginBytes / gib * 100) ⌈(p.marginBytes / gib * 100 : ℚ)⌉

def CoversPlans (a : Attempt) : Prop :=
  ∀ plans marginGb targets, s.fitAttempt a = .ok plans → s.longctxMarginGb a = .ok marginGb →
    s.targets a marginGb = .ok targets →
      ∀ g i p, ((g, i), p) ∈ s.base.ordered.zipIdx.zip plans → s.Covers a targets i g p

/-- **The roundings lose nothing** of what is put in. -/
structure Lossless (a : Attempt) : Prop where
  /-- The usable bytes of a card are whole GiB. -/
  whole : ∀ g ∈ s.base.ordered, (2 ^ 30 : ℤ) ∣ s.base.usableBytes g
  /-- The quantum is a number of bytes. -/
  quantum : ∃ n : ℤ, s.base.expertGibQuantum * gib = n
  /-- The slots of the experts of a token are rounded up. -/
  slots : 0 < a.tp →
    Reaches ((s.base.numExpertsPerTok * s.base.slotBytes : ℚ) / gib / s.base.expertGibQuantum)
      ⌈(s.base.numExpertsPerTok * s.base.slotBytes : ℚ) / gib / s.base.expertGibQuantum⌉
  /-- The hundredths of a margin above the general one are rounded up. -/
  hundredths : ∀ marginGb, s.longctxMarginGb a = .ok marginGb → 0 < a.tp →
    truncate (s.base.vramSafetyMarginGb * gib) < truncate (marginGb * gib) →
      Reaches (truncate (marginGb * gib) / gib * 100) ⌈(truncate (marginGb * gib) / gib * 100 : ℚ)⌉

end Solver

/-! ### Rounding -/

theorem gib_cast : (gib : ℚ) = 2 ^ 30 := by norm_num [gib]

/-- **When rounding reaches a number.** -/
theorem le_roundHalfEven_iff {y : ℚ} {k : ℤ} : k ≤ roundHalfEven y ↔ Reaches y k := by
  have hle := Int.floor_le y
  have hlt := Int.lt_floor_add_one y
  unfold roundHalfEven Reaches
  set f := ⌊y⌋
  rcases lt_trichotomy k (f + 1) with h | rfl | h
  · -- both hold: `k` is not above the floor
    have hk : (k : ℚ) ≤ f := by exact_mod_cast Int.lt_add_one_iff.1 h
    refine iff_of_true ?_ (Or.inl (by linarith))
    split <;> omega
  · push_cast
    split_ifs with hdown
    · refine iff_of_false (by omega) ?_
      rintro (hpast | ⟨hmid, heven⟩)
      · rcases hdown with hbelow | ⟨hmid, -⟩ <;> linarith
      · rcases hdown with hbelow | ⟨-, hfloor⟩
        · linarith
        · omega
    · refine iff_of_true le_rfl ?_
      push Not at hdown
      rcases lt_or_eq_of_le hdown.1 with hpast | hmid
      · exact Or.inl (by linarith)
      · have := hdown.2 hmid.symm
        exact Or.inr ⟨by linarith, by omega⟩
  · have hk : (f : ℚ) + 2 ≤ k := by exact_mod_cast (show f + 2 ≤ k by omega)
    refine iff_of_false ?_ ?_
    · split <;> omega
    · rintro (hpast | ⟨hmid, -⟩) <;> linarith

theorem Reaches.mono {y y' : ℚ} {k : ℤ} (h : Reaches y k) (hle : y ≤ y') : Reaches y' k := by
  rcases h with hpast | ⟨hmid, heven⟩
  · exact .inl (hpast.trans_le hle)
  · rcases hle.lt_or_eq with hlt | rfl
    · exact .inl (hmid.trans_lt hlt)
    · exact .inr ⟨hmid, heven⟩

theorem le_round_iff {x y : ℚ} : x ≤ roundHalfEven y ↔ Reaches y ⌈x⌉ := by
  rw [← Int.ceil_le, le_roundHalfEven_iff]

theorem roundHalfEven_intCast (n : ℤ) : roundHalfEven n = n := by
  simp [roundHalfEven]

theorem truncate_of_nonneg {x : ℚ} (hx : 0 ≤ x) : truncate x = ⌊x⌋ := if_pos hx

theorem abs_sub_truncate_lt (x : ℚ) : |x - truncate x| < 1 := by
  unfold truncate
  rw [abs_sub_lt_iff]
  split
  · have := Int.floor_le x
    have := Int.lt_floor_add_one x
    constructor <;> linarith
  · have := Int.le_ceil x
    have := Int.ceil_lt_add_one x
    constructor <;> linarith

theorem truncate_intCast (n : ℤ) : truncate n = n := by
  unfold truncate
  split <;> simp

theorem le_truncate_iff {n F : ℤ} {Q : ℚ} (hQ : 1 ≤ Q) (hF : 0 ≤ F) :
    F ≤ truncate (n * Q) ↔ (F : ℚ) ≤ n * Q := by
  rcases le_or_gt 0 n with hn | hn
  · have hx : 0 ≤ n * Q := mul_nonneg (Int.cast_nonneg hn) (by linarith)
    rw [truncate_of_nonneg hx, Int.le_floor]
  -- a negative multiple is at most `-1`
  have hx : n * Q ≤ -1 := by
    have : (n : ℚ) ≤ -1 := by exact_mod_cast Int.le_sub_one_of_lt hn
    nlinarith
  have htrunc := (abs_sub_lt_iff.1 (abs_sub_truncate_lt (n * Q))).2
  have hF' : (0 : ℚ) ≤ F := Int.cast_nonneg hF
  refine iff_of_false (fun h => ?_) (by linarith)
  have : (F : ℚ) ≤ truncate (n * Q) := by exact_mod_cast h
  linarith

/-- **A zone is written as it was planned** exactly if the multiple is a number of bytes. -/
theorem roundGib_truncate_iff (b : ℤ) {q : ℚ} (hQ : 1 ≤ q * gib) :
    roundGib (truncate (roundGib b q * gib)) q * gib = truncate (roundGib b q * gib) ↔
      ∃ m : ℤ, roundGib b q * gib = m := by
  have hgib : (gib : ℚ) ≠ 0 := by norm_num [gib]
  have hq : q ≠ 0 := by
    rintro rfl
    norm_num at hQ
  unfold roundGib
  generalize roundHalfEven (b / gib / q) = n
  constructor
  · intro h
    set m := roundHalfEven (truncate (n * q * gib) / gib / q)
    have habs := abs_sub_truncate_lt (n * q * gib)
    rw [← h, show n * q * gib - m * q * gib = ((n - m : ℤ) : ℚ) * (q * gib) by push_cast; ring,
      abs_mul, abs_of_pos (a := q * gib) (by linarith)] at habs
    have hone : |((n - m : ℤ) : ℚ)| < 1 := by
      have := abs_nonneg ((n - m : ℤ) : ℚ)
      nlinarith
    have heq : n - m = 0 := Int.abs_lt_one_iff.1 (by exact_mod_cast hone)
    rw [sub_eq_zero.1 heq, h]
    exact ⟨_, rfl⟩
  · rintro ⟨m, hm⟩
    rw [hm, truncate_intCast, ← hm, show n * q * gib / gib / q = n by field_simp,
      roundHalfEven_intCast]

namespace Solver

variable {s : Solver} {a : Attempt} {i : ℕ} {g : GpuInfo} {p : GpuPlan} {targets : ℕ → ℤ}
  {marginGb : ℚ}

theorem carve_ok {q : GpuPlan} (h : q.carve = .ok p) : p = q ∧ 0 ≤ q.slack := by
  unfold GpuPlan.carve at h
  split at h
  · cases h
  · next hslack => exact ⟨(Except.ok.inj h).symm, not_lt.1 hslack⟩

/-- What a fit takes over into the plan. -/
structure Planned (s : Solver) (a : Attempt) (marginGb : ℚ) (targets : ℕ → ℤ) (i : ℕ) (g : GpuInfo)
    (p : GpuPlan) : Prop where
  usable : p.usableBytes = s.base.usableBytes g
  expert : p.expertBytes = s.zoneBytes targets g
  margin : p.marginBytes =
    truncate ((if i < a.tp then marginGb else s.base.vramSafetyMarginGb) * gib)
  slack : 0 ≤ p.slack

theorem planned (h : (if i < a.tp then s.tpFit a g marginGb (s.zoneBytes targets g)
      else s.hostFit a i g (s.zoneBytes targets g)) = .ok p) :
    s.Planned a marginGb targets i g p := by
  split at h
  · next hgroup =>
    obtain ⟨pools, -, h⟩ := except_bind_ok h
    obtain ⟨rfl, hslack⟩ := carve_ok h
    exact ⟨rfl, rfl, by rw [if_pos hgroup], hslack⟩
  · next hout =>
    obtain ⟨rfl, hslack⟩ := carve_ok h
    exact ⟨rfl, rfl, by rw [if_neg hout], hslack⟩

theorem quantum_bytes (s : Solver) : 1 ≤ s.base.expertGibQuantum * gib := by
  have := s.quantum_ge
  norm_num [gib]
  linarith

theorem vramGb_mul (s : Solver) (a : Attempt) (i : ℕ) (g : GpuInfo) (p : GpuPlan) :
    (s.entry a i g p).vramGb * 2 ^ 30 = s.base.usableBytes g - s.base.usableBytes g % 2 ^ 30 := by
  have hmib : (0 : ℚ) ≤ g.vramMib * s.base.vramUsableFraction :=
    mul_nonneg (Nat.cast_nonneg _) s.fraction_nonneg
  have hcut : s.base.usableBytes g / 2 ^ 20 = ⌊g.vramMib * s.base.vramUsableFraction⌋ := by
    unfold ExpertTargets.Input.usableBytes
    rw [mul_right_comm, truncate_of_nonneg (mul_nonneg hmib (by positivity))]
    have := Int.mul_natCast_floor_div_cancel (n := 2 ^ 20) (by norm_num)
      (g.vramMib * s.base.vramUsableFraction)
    push_cast at this
    exact this
  show truncate _ / 2 ^ 10 * 2 ^ 30 = _
  rw [truncate_of_nonneg hmib, ← hcut]
  omega

theorem slots_iff (s : Solver) (targets : ℕ → ℤ) (g : GpuInfo) :
    (s.base.numExpertsPerTok * s.base.slotBytes : ℤ) ≤ s.zoneBytes targets g ↔
      Reaches ((s.targetBytes targets g : ℚ) / gib / s.base.expertGibQuantum)
        ⌈(s.base.numExpertsPerTok * s.base.slotBytes : ℚ) / gib / s.base.expertGibQuantum⌉ := by
  have hgib : (0 : ℚ) < gib := by norm_num [gib]
  have hq : 0 < s.base.expertGibQuantum := lt_of_lt_of_le (by norm_num) s.quantum_ge
  unfold zoneBytes roundGib
  rw [mul_assoc, le_truncate_iff s.quantum_bytes (by positivity), ← le_round_iff, div_le_iff₀ hq,
    div_le_iff₀ hgib, mul_assoc]
  push_cast
  rfl

theorem margin_iff (h : s.Planned a marginGb targets i g p) :
    p.marginBytes ≤ s.emittedMargin (s.entry a i g p) * 2 ^ 30 ↔
      (i < a.tp → truncate (s.base.vramSafetyMarginGb * gib) < p.marginBytes →
        Reaches (p.marginBytes / gib * 100) ⌈(p.marginBytes / gib * 100 : ℚ)⌉) := by
  unfold emittedMargin entry
  split
  · next hraised =>
    rw [forall_prop_of_true hraised.1, forall_prop_of_true hraised.2, ← le_round_iff]
    simp only [Option.getD_some, gib]
    push_cast
    constructor <;> intro h <;> linarith
  · next hbase =>
    have hle : p.marginBytes ≤ truncate (s.base.vramSafetyMarginGb * gib) := by
      by_cases hgroup : i < a.tp
      · exact not_lt.1 fun hlt => hbase ⟨hgroup, hlt⟩
      · exact le_of_eq (by rw [h.margin, if_neg hgroup])
    refine iff_of_true ?_ fun hgroup hlt => absurd ⟨hgroup, hlt⟩ hbase
    rw [truncate_of_nonneg (mul_nonneg s.margin_nonneg (Nat.cast_nonneg _)), Int.le_floor] at hle
    rwa [gib_cast] at hle

/-- **What an entry must be granted to hold its plan.** -/
theorem holds_iff_covers (h : s.Planned a marginGb targets i g p) :
    s.Holds a i g p ↔ s.Covers a targets i g p := by
  have hwhole : p.totalCommitted ≤ (s.entry a i g p).vramGb * 2 ^ 30 ↔
      p.usableBytes % 2 ^ 30 ≤ p.slack := by
    rw [s.vramGb_mul, GpuPlan.slack, ← h.usable]
    omega
  have hbytes : (s.entry a i g p).expertStreaming * 2 ^ 30 = p.expertBytes ↔
      ∃ n : ℤ, roundGib (s.targetBytes targets g) s.base.expertGibQuantum * gib = n := by
    show roundGib p.expertBytes _ * 2 ^ 30 = _ ↔ _
    rw [h.expert, ← gib_cast]
    exact roundGib_truncate_iff _ s.quantum_bytes
  have hslots := s.slots_iff targets g
  rw [← h.expert] at hslots
  have hmargin := margin_iff h
  constructor
  · intro hholds
    exact ⟨hwhole.1 hholds.committed, hbytes.1 hholds.experts,
      fun hgroup => hslots.1 (hholds.slots hgroup), hmargin.1 hholds.margin⟩
  · intro hcovers
    exact ⟨hwhole.2 hcovers.whole, hbytes.2 hcovers.bytes,
      fun hgroup => hslots.2 (hcovers.near hgroup), hmargin.2 hcovers.hundredths⟩

theorem fitAttempt_ok {plans : List GpuPlan} (h : s.fitAttempt a = .ok plans) :
    ∃ marginGb targets, s.longctxMarginGb a = .ok marginGb ∧ s.targets a marginGb = .ok targets ∧
      ∀ g i p, ((g, i), p) ∈ s.base.ordered.zipIdx.zip plans → s.Planned a marginGb targets i g p := by
  obtain ⟨marginGb, hmargin, h⟩ := except_bind_ok h
  obtain ⟨targets, htargets, h⟩ := except_bind_ok h
  exact ⟨marginGb, targets, hmargin, htargets, fun g i p hmem => planned (mapM_zip h hmem)⟩

/-- **The recipe holds the plans** if and only if the slack of each covers the GiB that is cut
off, and zones and margins are not rounded below what they must hold. -/
theorem recipe_holds_plan_iff (s : Solver) (a : Attempt) : s.HoldsPlans a ↔ s.CoversPlans a := by
  constructor
  · intro hholds plans marginGb targets hfit hmargin htargets g i p hmem
    obtain ⟨marginGb', targets', hmargin', htargets', hplanned⟩ := fitAttempt_ok hfit
    obtain rfl := Except.ok.inj (hmargin.symm.trans hmargin')
    obtain rfl := Except.ok.inj (htargets.symm.trans htargets')
    exact (holds_iff_covers (hplanned g i p hmem)).1 (hholds plans hfit g i p hmem)
  · intro hcovers plans hfit g i p hmem
    obtain ⟨marginGb, targets, hmargin, htargets, hplanned⟩ := fitAttempt_ok hfit
    exact (holds_iff_covers (hplanned g i p hmem)).2
      (hcovers plans marginGb targets hfit hmargin htargets g i p hmem)

/-- A GPU of the group is given the experts of a token at least. -/
theorem floor_le_targets (htargets : s.targets a marginGb = .ok targets)
    (hg : (g, i) ∈ s.base.ordered.zipIdx) (hgroup : i < a.tp) :
    (s.base.numExpertsPerTok : ℤ) ≤ targets g.ordinal := by
  unfold Solver.targets at htargets
  dsimp only at htargets
  split at htargets
  · cases htargets
  obtain ⟨first, -, htargets⟩ := except_bind_ok htargets
  obtain ⟨probe, -, htargets⟩ := except_bind_ok htargets
  set inp : ExpertTargets.Input := { s.base with tp := a.tp, residualTpBytes := probe.slack }
  have hin : g.ordinal ∈ inp.tpGpus := by
    refine List.mem_map_of_mem (List.mem_of_getElem? (i := i) ?_)
    rw [List.getElem?_take_of_lt hgroup]
    exact List.mk_mem_zipIdx_iff_getElem?.mp hg
  cases hok : inp.expertTargets with
  | error e =>
    rw [hok] at htargets
    cases htargets
  | ok targets' =>
    rw [hok] at htargets
    cases htargets
    exact ExpertTargets.Input.floor_le_expertTargets hok hin

theorem Lossless.covers (h : s.Lossless a) : s.CoversPlans a := by
  intro plans marginGb targets hfit hmargin htargets g i p hmem
  obtain ⟨marginGb', targets', hmargin', htargets', hplanned⟩ := fitAttempt_ok hfit
  obtain rfl := Except.ok.inj (hmargin.symm.trans hmargin')
  obtain rfl := Except.ok.inj (htargets.symm.trans htargets')
  have hp := hplanned g i p hmem
  have hg : (g, i) ∈ s.base.ordered.zipIdx := (List.of_mem_zip hmem).1
  refine ⟨?_, ?_, fun hgroup => ?_, fun hgroup hraised => ?_⟩
  · rw [hp.usable, Int.emod_eq_zero_of_dvd (h.whole g (List.fst_mem_of_mem_zipIdx hg))]
    exact hp.slack
  · obtain ⟨n, hn⟩ := h.quantum
    refine ⟨roundHalfEven (s.targetBytes targets g / gib / s.base.expertGibQuantum) * n, ?_⟩
    rw [roundGib, mul_assoc, hn, Int.cast_mul]
  · -- the bytes of the target are at least those of the slots of a token
    refine (h.slots (Nat.zero_lt_of_lt hgroup)).mono ?_
    have hfloor := floor_le_targets htargets hg hgroup
    have hq : 0 < s.base.expertGibQuantum := lt_of_lt_of_le (by norm_num) s.quantum_ge
    unfold targetBytes
    push_cast
    gcongr
    exact_mod_cast hfloor
  · rw [hp.margin, if_pos hgroup] at hraised ⊢
    exact h.hundredths marginGb hmargin (Nat.zero_lt_of_lt hgroup) hraised

/-- **The recipe holds the plans** of inputs of which the roundings lose nothing. -/
theorem recipe_holds_plan (h : s.Lossless a) : s.HoldsPlans a :=
  (s.recipe_holds_plan_iff a).2 h.covers

/-- One GPU of 32 GiB and eight experts a token, all of which are asked for. -/
def oneGpu (slotMib : ℕ) : Solver where
  base :=
    { nRoutedExperts := 8
      numMoeLayers := 1
      numExpertsPerTok := 8
      slotBytes := slotMib * 2 ^ 20
      vramUsableFraction := 15 / 16
      vramSafetyMarginGb := 9 / 4
      nonTpOverheadGib := 5 / 4
      expertGibQuantum := 1 / 2
      vramExpertRatio := some 1
      ordered := [⟨0, 32768⟩]
      tp := 1
      residualTpBytes := 0
      nodup := by decide }
  prefillScratchGb := 1 / 2
  setups := fun _ => ⟨false, [false], [false], [], 0⟩
  pinnedFor := fun _ => 4 * 2 ^ 30
  longctxMarginGb := fun _ => .ok (9 / 4)
  pools := fun _ _ => .ok ⟨0, 2 ^ 30, 0⟩
  fraction_nonneg := by norm_num
  margin_nonneg := by norm_num
  quantum_ge := by norm_num

def oneAttempt : Attempt := ⟨0, 0, 0, true, 1, false, 1, 4096, 0, false⟩

theorem recipe_holds_plan_half : ((oneGpu 64).fitAttempt oneAttempt).toOption.isSome = true ∧
    (oneGpu 64).HoldsPlans oneAttempt := by
  -- eight slots of 64 MiB are one quantum
  have hslots : ((oneGpu 64).base.numExpertsPerTok * (oneGpu 64).base.slotBytes : ℚ) / gib /
      (oneGpu 64).base.expertGibQuantum = 1 := by
    norm_num [oneGpu, gib]
  refine ⟨by decide +kernel, recipe_holds_plan ⟨fun g hg => ?_, ⟨2 ^ 29, ?_⟩, fun _ => ?_, ?_⟩⟩
  · obtain rfl := List.mem_singleton.1 hg
    decide +kernel
  · norm_num [oneGpu, gib]
  · rw [hslots]
    norm_num [Reaches]
  · intro marginGb hmargin _ hraised
    cases hmargin
    exact absurd hraised (lt_irrefl _)

/-- **The eight slots are rounded away.** -/
theorem zone_rounded_away : ¬ ∀ (s : Solver) (a : Attempt), s.HoldsPlans a := by
  intro h
  have hfit : ((oneGpu 20).fitAttempt oneAttempt).toOption =
      some [⟨30 * 2 ^ 30, 4 * 2 ^ 30, 0, 9 * 2 ^ 28, 0, 0, 2 ^ 30, 0, 2 ^ 29⟩] := by
    decide +kernel
  cases hplans : (oneGpu 20).fitAttempt oneAttempt with
  | error e =>
    rw [hplans] at hfit
    cases hfit
  | ok plans =>
    rw [hplans] at hfit
    obtain rfl := Option.some.inj hfit
    have hslots := (h _ _ _ hplans _ _ _ List.mem_cons_self).slots (by decide)
    revert hslots
    decide

end Solver

end EmittedRecipe
end LayerStorm.Autoconfig
