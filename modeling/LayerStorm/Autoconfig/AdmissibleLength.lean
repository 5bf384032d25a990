import Mathlib
import LayerStorm.Lib.BinarySearch

/-!
# The length that autoconfig emits

`Solver.solve` chooses the first point of its search that fits and then reduces the length of a
sequence to what the pool of pages of each TP GPU admits.  A reduction sizes the pool anew, so it is
repeated, four times at most.  The models are those other than deepseek_v4.

What the solver knows before the pages are sized is input: the bytes of a page, of a GPU, of the
draft, of the expert zones, and the margin of the long-context plan.  The speculation split is 15 %
of the bytes of the KV pool, which for fewer than 2 ^ 48 bytes is what the product with `0.15` gives.

## Main results

* `solve_advertises` — **the emitted length is admissible where the state of the prefix cache covers
  the speculation split of the asked length, and never where it does not cover that of the least**.
-/

namespace LayerStorm.Autoconfig

open Lib List Nat

/-! ### Sizes -/

/-- What the sizing reads of the model, its quantization and the knobs. -/
structure Sizes where
  pageSizeTokens : ℕ
  indexerKPageSizeTokens : ℕ
  dcpChunkSize : ℕ
  devicePoolRoundPages : ℕ
  prefixCacheMaxEntries : ℕ
  kvBytesPerPage : ℕ
  engineKvPoolLayers : ℕ
  indexTopk : ℕ
  indexerKBytesPerPage : ℕ
  numDsaComputingLayers : ℕ
  numLinearAttentionLayers : ℕ
  /-- `kda_per_layer_bytes` at a tensor parallelism. -/
  kdaPerLayerBytes : ℕ → ℕ
  /-- The registry has the row `kda-state-mapped-tenant`. -/
  kdaStateMappedTenant : Bool
  page_pos : 0 < pageSizeTokens
  bytes_pos : 0 < kvBytesPerPage

/-- `math.ceil` of a quotient. -/
def ceilDiv (a b : ℕ) : ℕ := (a + b - 1) / b

namespace Sizes

variable (z : Sizes)

/-- `slab_geometry`: the pages of a slab; none without DSA. -/
def slabGeometry : Option ℕ :=
  if z.indexTopk = 0 then none else some (ceilDiv z.indexerKBytesPerPage z.kvBytesPerPage)

def pagesPerSlab : ℕ := z.slabGeometry.getD 0

def slabBytes : ℕ := z.pagesPerSlab * z.kvBytesPerPage

/-- `per_chunk`. -/
def pagesPerChunk : ℕ := max 1 (z.dcpChunkSize / z.pageSizeTokens)

/-- The pages of a sequence on its fullest rank. -/
def pagesPerSeq (tokens kvShardFactor : ℕ) : ℕ :=
  let perSeq := ceilDiv tokens z.pageSizeTokens
  if 1 < kvShardFactor then
    let cycle := z.pagesPerChunk * kvShardFactor
    perSeq / cycle * z.pagesPerChunk + min (perSeq % cycle) z.pagesPerChunk
  else perSeq

def autoKvPages (maxSeq kvShardFactor conc available : ℕ) : ℕ :=
  min (conc * z.pagesPerSeq maxSeq kvShardFactor * z.engineKvPoolLayers)
    (available / z.kvBytesPerPage)

def indexerPagesPerSeq (maxSeq : ℕ) (idxLocal : Bool) (shard : ℕ) : ℕ :=
  let pages := ceilDiv maxSeq z.indexerKPageSizeTokens
  if idxLocal = true ∧ 1 < shard then ceilDiv pages shard else pages

def kdaMappedDemandBytes (tp : ℕ) : ℕ :=
  if z.numLinearAttentionLayers = 0 ∨ z.slabBytes = 0 then 0
  else z.numLinearAttentionLayers * ceilDiv (z.kdaPerLayerBytes tp) z.slabBytes * z.slabBytes

def kdaSlotBytes (tp : ℕ) : ℕ :=
  (z.kdaPerLayerBytes tp * z.numLinearAttentionLayers + 255) / 256 * 256

/-- `kda_policy_slots`, with the prefix cache enabled. -/
def kdaPolicySlots (conc : ℕ) : ℕ := max 1 conc + z.prefixCacheMaxEntries

def kdaMappedStatePages (tp : ℕ) : ℕ :=
  if z.numLinearAttentionLayers = 0 ∨ z.slabBytes = 0 ∨ z.pagesPerSlab = 0 then 0
  else z.numLinearAttentionLayers * ceilDiv (z.kdaPerLayerBytes tp) z.slabBytes * z.pagesPerSlab

def singleRequestDemandPages (tokens dsaLayers pps statePages shard idxShard : ℕ) : ℕ :=
  let demand := z.pagesPerSeq tokens shard * z.engineKvPoolLayers
  let demand :=
    if 0 < dsaLayers ∧ 0 < z.indexerKPageSizeTokens ∧ 0 < pps then
      let ip := ceilDiv tokens z.indexerKPageSizeTokens
      let ip := if 1 < idxShard then ceilDiv ip idxShard else ip
      demand + ip * dsaLayers * pps
    else demand
  demand + statePages

def admissibleContextTokens (pool dsaLayers pps statePages shard idxShard : ℕ) : ℕ :=
  if pool = 0 ∨ z.engineKvPoolLayers = 0 then 0
  else searchLargest
    (fun t => z.singleRequestDemandPages t dsaLayers pps statePages shard idxShard ≤ pool) 0
    (pool * z.pageSizeTokens + z.pageSizeTokens)

end Sizes

/-! ### The plan of a GPU -/

/-- A point of the search. -/
structure Attempt where
  tpIdx : ℕ
  idxIdx : ℕ
  capIdx : ℕ
  draftOff : Bool
  tp : ℕ
  /-- `idx_mode` is `local`. -/
  idxLocal : Bool
  conc : ℕ
  maxSeq : ℕ
  tierIdx : ℕ
  tieringOn : Bool

/-- Why a fit is refused; `other` stands for the refusals of the parts that are input. -/
inductive Infeasible
  | kvDemandExceedsVram
  | concAskExceedsUntieredPool
  | vramCarveOverflow
  | pinnedMaxSeqNotAdmissible
  | maxSeqNotAdmissibleMappedKda
  | other
  deriving DecidableEq

structure GpuPlan where
  usableBytes : ℕ
  pinnedBytes : ℕ := 0
  draftBytes : ℕ := 0
  marginBytes : ℕ := 0
  kdaBytes : ℕ := 0
  expertBytes : ℕ := 0
  kvPoolBytes : ℕ := 0
  idxShareBytes : ℕ := 0
  scratchBytes : ℕ := 0
  kdaMapped : Bool := false
  admPoolPages : ℕ := 0
  admDemandPages : ℕ := 0
  admKvPages : ℕ := 0
  admIdxPages : ℕ := 0
  admStatePages : ℕ := 0
  admissibleMaxSeq : ℕ := 0

namespace GpuPlan

variable (p : GpuPlan)

def totalCommitted : ℕ :=
  p.pinnedBytes + p.draftBytes + p.marginBytes + p.kdaBytes + p.expertBytes + p.kvPoolBytes +
    p.idxShareBytes + p.scratchBytes

def specBytes : ℕ := p.kvPoolBytes * 15 / 100

/-- The mapped state rides in the pool. -/
def mappedBytes : ℕ := if p.kdaMapped then p.kdaBytes else 0

end GpuPlan

section TpFit

variable (z : Sizes) (kvSharded : Bool) (a : Attempt)

/-- `shard`. -/
def kvShard (tp : ℕ) : ℕ := if 2 ≤ tp ∧ kvSharded = true then tp else 1

def idxShard : ℕ := if a.idxLocal = true ∧ 1 < a.tp then a.tp else 1

def dsaLayers : ℕ := if 0 < z.indexTopk ∧ 0 < z.pagesPerSlab then z.numDsaComputingLayers else 0

/-- The recurrent state is a tenant of the pool. -/
def kdaMapped : Bool :=
  decide (0 < z.numLinearAttentionLayers) && z.kdaStateMappedTenant && decide (0 < z.indexTopk)

def kdaBytes : ℕ :=
  if 0 < z.numLinearAttentionLayers then
    z.kdaPolicySlots a.conc * if kdaMapped z then z.kdaMappedDemandBytes a.tp else z.kdaSlotBytes a.tp
  else 0

/-- `per_seq`: the bytes of the indexer for a sequence. -/
def idxBytesPerSeq : ℕ :=
  z.indexerPagesPerSeq a.maxSeq a.idxLocal a.tp * z.numDsaComputingLayers * z.slabBytes

/-- `idx_share_bytes`: as many sequences as a quarter of the residual affords. -/
def idxShareBytes (residual : ℕ) : ℕ :=
  if 0 < z.indexTopk then
    let perSeq := idxBytesPerSeq z a
    let afford := if perSeq = 0 then a.conc else 1 + (residual - perSeq) / 4 / perSeq
    perSeq * min a.conc (max 1 afford)
  else 0

def admStatePages : ℕ := if kdaMapped z then z.kdaMappedStatePages a.tp else 0

def demandPages (tokens statePages : ℕ) : ℕ :=
  z.singleRequestDemandPages tokens (dsaLayers z) z.pagesPerSlab statePages (kvShard kvSharded a.tp)
    (idxShard a)

def withAdmission (plan : GpuPlan) : GpuPlan :=
  let pool := (plan.kvPoolBytes - plan.specBytes + plan.idxShareBytes + plan.mappedBytes) /
    z.kvBytesPerPage
  let state := admStatePages z a
  let kv := z.singleRequestDemandPages a.maxSeq 0 0 0 (kvShard kvSharded a.tp) 1
  let idx := demandPages z kvSharded a a.maxSeq 0 - kv
  { plan with
    admPoolPages := pool
    admStatePages := state
    admKvPages := kv
    admIdxPages := idx
    admDemandPages := kv + idx + state
    admissibleMaxSeq := z.admissibleContextTokens pool (dsaLayers z) z.pagesPerSlab state
      (kvShard kvSharded a.tp) (idxShard a) }

/-- What is charged before the pages are sized. -/
structure Charges where
  usable : ℕ
  pinned : ℕ
  draft : ℕ
  margin : ℕ
  expert : ℕ
  scratch : ℕ

variable (c : Charges)

/-- The plan before the KV pool. -/
def basePlan : GpuPlan where
  usableBytes := c.usable
  marginBytes := c.margin
  pinnedBytes := c.pinned
  draftBytes := c.draft
  scratchBytes := c.scratch
  expertBytes := c.expert
  kdaMapped := kdaMapped z
  kdaBytes := kdaBytes z a
  idxShareBytes := idxShareBytes z a
    (c.usable - (c.pinned + c.draft + c.margin + kdaBytes z a + c.expert + c.scratch))

/-- `_tp_fit`.  A plan that commits more than is usable is refused in the end. -/
def tpFit : Except Infeasible GpuPlan :=
  let plan := basePlan z a c
  let unchecked : Except Infeasible GpuPlan :=
    if a.tieringOn then
      let pages := a.conc * ceilDiv z.indexTopk z.pageSizeTokens * z.engineKvPoolLayers
      let pages := ceilDiv pages z.devicePoolRoundPages * z.devicePoolRoundPages
      .ok { plan with kvPoolBytes := pages * z.kvBytesPerPage }
    else
      let shard := kvShard kvSharded a.tp
      let pages := z.autoKvPages a.maxSeq shard a.conc (c.usable - plan.totalCommitted)
      let demand := a.conc * (ceilDiv a.maxSeq z.pageSizeTokens / shard) * z.engineKvPoolLayers
      if pages < demand then .error .kvDemandExceedsVram
      else
        let plan := withAdmission z kvSharded a { plan with kvPoolBytes := pages * z.kvBytesPerPage }
        if 1 < a.conc ∧ 0 < plan.admPoolPages ∧
            plan.admPoolPages < a.conc * plan.admDemandPages then
          .error .concAskExceedsUntieredPool
        else .ok plan
  match unchecked with
  | .error e => .error e
  | .ok plan => if plan.usableBytes < plan.totalCommitted then .error .vramCarveOverflow else .ok plan

end TpFit

/-! ### The fit of a box -/

structure TpSetup where
  kvSharded : Bool
  /-- The indexer modes; `true` is `local`. -/
  idxModes : List Bool
  tieringCandidates : List Bool
  draftRanks : List ℕ
  draftBytes : ℕ

inductive Prefer
  | speed
  | balanced
  | capacity

structure SolveInput where
  sizes : Sizes
  /-- The usable bytes of the GPUs, as `order_gpus` orders them. -/
  ordered : List ℕ
  prefer : Prefer
  /-- What `active_split` gives. -/
  conc0 : ℕ
  maxSeq0 : ℕ
  seqPin : Option ℕ
  concPin : Option ℕ
  /-- The pinned method is `none`. -/
  methodPin : Option Bool
  haveDraft : Bool
  minMaxSeq : ℕ
  /-- `tp_plan`. -/
  tpCandidates : List ℕ
  setups : ℕ → TpSetup
  pinnedFor : ℕ → ℕ
  scratchBytes : ℕ
  hostMarginBytes : ℕ
  nonTpOverheadBytes : ℕ
  /-- `_longctx_plan`: the margin in bytes. -/
  longctxMargin : Attempt → Except Infeasible ℕ
  /-- `expert_targets` after the slack of the probe: the bytes of the expert zones. -/
  expertBytes : Attempt → ℕ → Except Infeasible (ℕ → ℕ)
  /-- What is pinned is split off unchanged. -/
  seqPin_eq : ∀ v, seqPin = some v → maxSeq0 = v
  concPin_eq : ∀ c, concPin = some c → conc0 = c
  conc0_pos : 0 < conc0
  /-- At a floor of zero the halving does not end. -/
  minMaxSeq_pos : 0 < minMaxSeq

/-- The plans of an attempt, of the TP GPUs and of the others. -/
structure Fit where
  tpPlans : List GpuPlan
  hostPlans : List GpuPlan

/-- `adm`: the least ceiling of a TP GPU, of those that are not zero. -/
def Fit.ceiling (fit : Fit) : ℕ :=
  ((fit.tpPlans.map GpuPlan.admissibleMaxSeq).filter (0 < ·)).min?.getD 0

def fitAll (f : ℕ → ℕ → Except Infeasible GpuPlan) : ℕ → List ℕ → Except Infeasible (List GpuPlan)
  | _, [] => .ok []
  | i, usable :: rest =>
    match f i usable, fitAll f (i + 1) rest with
    | .error e, _ => .error e
    | .ok _, .error e => .error e
    | .ok p, .ok ps => .ok (p :: ps)

namespace SolveInput

variable (inp : SolveInput)

/-- The charges of a TP GPU. -/
def charges (a : Attempt) (margin usable expert : ℕ) : Charges where
  usable := usable
  pinned := inp.pinnedFor a.tp
  draft := if a.draftOff then 0 else (inp.setups a.tp).draftBytes
  margin := margin
  expert := expert
  scratch := inp.scratchBytes

def hostFit (a : Attempt) (expert : ℕ → ℕ) (i usable : ℕ) : Except Infeasible GpuPlan :=
  let setup := inp.setups a.tp
  let plan : GpuPlan :=
    { usableBytes := usable
      marginBytes := inp.hostMarginBytes
      pinnedBytes := inp.nonTpOverheadBytes
      draftBytes := if a.draftOff = false ∧ i ∈ setup.draftRanks then setup.draftBytes else 0
      expertBytes := expert i }
  if plan.usableBytes < plan.totalCommitted then .error .vramCarveOverflow else .ok plan

def fitAttempt (a : Attempt) : Except Infeasible Fit :=
  let tpPlan (margin usable expert : ℕ) :=
    tpFit inp.sizes (inp.setups a.tp).kvSharded a (inp.charges a margin usable expert)
  match inp.longctxMargin a, inp.ordered with
  | .error e, _ => .error e
  | .ok _, [] => .error .other
  | .ok margin, first :: _ =>
    match tpPlan margin first 0 with
    | .error e => .error e
    | .ok probe =>
      match inp.expertBytes a (probe.usableBytes - probe.totalCommitted) with
      | .error e => .error e
      | .ok expert =>
        match fitAll (fun i usable => tpPlan margin usable (expert i)) 0 (inp.ordered.take a.tp),
          fitAll (inp.hostFit a expert) a.tp (inp.ordered.drop a.tp) with
        | .ok tpPlans, .ok hostPlans => .ok ⟨tpPlans, hostPlans⟩
        | .error e, _ => .error e
        | _, .error e => .error e

/-! ### The search -/

def halvings (floor : ℕ) : ℕ → ℕ → List ℕ
  | 0, _ => []
  | fuel + 1, seq => if floor ≤ seq then seq :: halvings floor fuel (seq / 2) else []

/-- `caps`: the ask, then less concurrency, then half the length. -/
def caps : List (ℕ × ℕ) :=
  (inp.conc0, inp.maxSeq0) :: ((if inp.concPin.isNone then
        (List.range' 1 (inp.conc0 - 1)).reverse.map fun c => (c, inp.maxSeq0) else []) ++
      if inp.seqPin.isNone then
        (halvings inp.minMaxSeq inp.maxSeq0 (inp.maxSeq0 / 2)).map fun seq =>
          (inp.concPin.getD 1, seq) else [])

def drafts : List Bool :=
  match inp.methodPin with
  | some off => [off]
  | none => if inp.haveDraft then [false, true] else [true]

/-- The shortest length that may be emitted. -/
def leastLength : ℕ := min inp.minMaxSeq inp.maxSeq0

end SolveInput

/-! ### Pages and bytes -/

theorem ceilDiv_mono (b : ℕ) : Monotone fun a => ceilDiv a b :=
  fun _ _ h => Nat.div_le_div_right (by omega)

theorem ceilDiv_zero_left (b : ℕ) : ceilDiv 0 b = 0 := by
  rcases Nat.eq_zero_or_pos b with rfl | hb
  · rfl
  · exact div_eq_of_lt (by omega)

namespace Sizes

variable {z : Sizes} {shard : ℕ}

theorem pagesPerSeq_mono (shard : ℕ) : Monotone fun t => z.pagesPerSeq t shard := by
  intro t u h
  have hpages : ceilDiv t z.pageSizeTokens ≤ ceilDiv u z.pageSizeTokens := ceilDiv_mono _ h
  simp only [pagesPerSeq]
  split
  · generalize z.pagesPerChunk * shard = cycle
    have hdiv := Nat.div_le_div_right (c := cycle) hpages
    rcases hdiv.eq_or_lt with heq | hlt
    · -- in the same cycle the rests are ordered
      have ht := div_add_mod (ceilDiv t z.pageSizeTokens) cycle
      have hu := div_add_mod (ceilDiv u z.pageSizeTokens) cycle
      rw [heq] at ht ⊢
      omega
    · have := mul_le_mul_right z.pagesPerChunk (succ_le_of_lt hlt)
      rw [succ_mul] at this
      omega
  · exact hpages

theorem demand_mono (dsaLayers pps statePages shard idxShard : ℕ) :
    Monotone fun t => z.singleRequestDemandPages t dsaLayers pps statePages shard idxShard := by
  intro t u h
  have hkv := mul_le_mul_right z.engineKvPoolLayers (pagesPerSeq_mono (z := z) shard h)
  have hidx := ceilDiv_mono z.indexerKPageSizeTokens h
  simp only [singleRequestDemandPages]
  split
  · gcongr
    split
    · exact ceilDiv_mono _ hidx
    · exact hidx
  · exact Nat.add_le_add_right hkv _

theorem demand_zero (dsaLayers pps statePages shard idxShard : ℕ) :
    z.singleRequestDemandPages 0 dsaLayers pps statePages shard idxShard = statePages := by
  simp [singleRequestDemandPages, pagesPerSeq, ceilDiv_zero_left]

/-- **The ceiling is the largest admitted length** below the bound of the search. -/
theorem le_admissibleContextTokens_iff {t pool dsaLayers pps statePages shard idxShard : ℕ}
    (ht : 0 < t) : t ≤ z.admissibleContextTokens pool dsaLayers pps statePages shard idxShard ↔
      0 < pool ∧ 0 < z.engineKvPoolLayers ∧ t ≤ pool * z.pageSizeTokens + z.pageSizeTokens ∧
        z.singleRequestDemandPages t dsaLayers pps statePages shard idxShard ≤ pool := by
  unfold admissibleContextTokens
  split
  · omega
  next hpool =>
  set hi := pool * z.pageSizeTokens + z.pageSizeTokens
  set P := fun t => decide (z.singleRequestDemandPages t dsaLayers pps statePages shard idxShard ≤ pool)
  obtain ⟨-, hle, hpass, hfail⟩ := searchLargest_spec P (zero_le hi)
  have hmono := demand_mono (z := z) dsaLayers pps statePages shard idxShard
  constructor
  · intro hlt
    refine ⟨by omega, by omega, hlt.trans hle, (hmono hlt).trans ?_⟩
    exact of_decide_eq_true (hpass.resolve_left (by omega))
  · rintro ⟨-, -, hhi, hdemand⟩
    by_contra hlt
    rcases hfail with heq | hnext
    · omega
    · exact hnext (decide_eq_true ((hmono (not_le.1 hlt)).trans hdemand))

end Sizes

/-! ### Plans -/

section Plans

variable {z : Sizes} {kvSharded : Bool} {a : Attempt} {c : Charges} {p : GpuPlan}

theorem tpFit_untiered (h : tpFit z kvSharded a c = .ok p) (huntiered : a.tieringOn = false) :
    ∃ pages, a.conc * (ceilDiv a.maxSeq z.pageSizeTokens / kvShard kvSharded a.tp) *
        z.engineKvPoolLayers ≤ pages ∧
      pages ≤ a.conc * z.pagesPerSeq a.maxSeq (kvShard kvSharded a.tp) * z.engineKvPoolLayers ∧
      p = withAdmission z kvSharded a
        { basePlan z a c with kvPoolBytes := pages * z.kvBytesPerPage } ∧
      (1 < a.conc → 0 < p.admPoolPages → a.conc * p.admDemandPages ≤ p.admPoolPages) := by
  simp only [tpFit, huntiered, Bool.false_eq_true, if_false] at h
  split at h
  · cases h
  next plan hunchecked =>
  split at hunchecked
  · cases hunchecked
  next hdemand =>
  split at hunchecked
  · cases hunchecked
  next hconc =>
  cases hunchecked
  split at h
  · cases h
  cases h
  refine ⟨z.autoKvPages _ _ _ _, not_lt.1 hdemand, min_le_left _ _, rfl, fun hone hpool => ?_⟩
  by_contra hlt
  exact hconc ⟨hone, hpool, not_le.1 hlt⟩

theorem tpFit_tiered (h : tpFit z kvSharded a c = .ok p) (htiered : a.tieringOn = true) :
    p.admDemandPages = 0 := by
  simp only [tpFit, htiered, if_true] at h
  split at h
  · cases h
  · cases h
    rfl

/-- The indexer pages of a request are what its share of the pool holds for a sequence. -/
theorem demandPages_mul (z : Sizes) (kvSharded : Bool) (a : Attempt) :
    demandPages z kvSharded a a.maxSeq 0 * z.kvBytesPerPage =
      z.pagesPerSeq a.maxSeq (kvShard kvSharded a.tp) * z.engineKvPoolLayers * z.kvBytesPerPage +
        if 0 < z.indexTopk then idxBytesPerSeq z a else 0 := by
  have hpages : (if 1 < idxShard a then
      ceilDiv (ceilDiv a.maxSeq z.indexerKPageSizeTokens) (idxShard a)
      else ceilDiv a.maxSeq z.indexerKPageSizeTokens) =
        z.indexerPagesPerSeq a.maxSeq a.idxLocal a.tp := by
    unfold idxShard Sizes.indexerPagesPerSeq
    split
    · next h => rw [if_pos h.2]
    · rfl
  unfold demandPages Sizes.singleRequestDemandPages idxBytesPerSeq
  simp only [hpages, add_zero]
  split
  · next h =>
    have hdsa : 0 < z.indexTopk ∧ dsaLayers z = z.numDsaComputingLayers := by
      unfold dsaLayers at h ⊢
      split at h
      · next hdsa => exact ⟨hdsa.1, if_pos hdsa⟩
      · omega
    rw [if_pos hdsa.1, hdsa.2, add_mul, Sizes.slabBytes, mul_assoc _ z.pagesPerSlab]
  · next h =>
    -- without a factor the share is empty
    rw [left_eq_add, ite_eq_right_iff]
    intro htopk
    unfold dsaLayers at h
    rcases Nat.eq_zero_or_pos z.pagesPerSlab with hslab | hslab
    · rw [Sizes.slabBytes, hslab, zero_mul, mul_zero]
    rw [if_pos ⟨htopk, hslab⟩] at h
    rcases Nat.eq_zero_or_pos z.numDsaComputingLayers with hdsa | hdsa
    · rw [hdsa, mul_zero, zero_mul]
    have hzero : z.indexerKPageSizeTokens = 0 := by omega
    have hnone : z.indexerPagesPerSeq a.maxSeq a.idxLocal a.tp = 0 := by
      simp [Sizes.indexerPagesPerSeq, hzero, ceilDiv]
      omega
    rw [hnone, zero_mul, zero_mul]

theorem admDemandPages_eq (plan : GpuPlan) : (withAdmission z kvSharded a plan).admDemandPages =
    demandPages z kvSharded a a.maxSeq 0 + admStatePages z a := by
  have hone := demandPages_mul z kvSharded a
  have hle : z.singleRequestDemandPages a.maxSeq 0 0 0 (kvShard kvSharded a.tp) 1 ≤
      demandPages z kvSharded a a.maxSeq 0 :=
    le_of_mul_le_mul_right (hone ▸ le_add_right _ _) z.bytes_pos
  show _ + (_ - _) + _ = _
  rw [add_sub_of_le hle]

/-- **The test of a reduction is right** about a GPU whose ceiling is not zero. -/
theorem admissible_of_le_ceiling (h : tpFit z kvSharded a c = .ok p) (hpos : 0 < a.maxSeq)
    (hle : a.maxSeq ≤ p.admissibleMaxSeq) : p.admDemandPages ≤ p.admPoolPages := by
  cases htier : a.tieringOn with
  | true =>
    rw [tpFit_tiered h htier]
    exact zero_le _
  | false =>
    obtain ⟨pages, -, -, rfl, -⟩ := tpFit_untiered h htier
    rw [admDemandPages_eq]
    exact ((Sizes.le_admissibleContextTokens_iff hpos).1 hle).2.2.2

end Plans

/-! ### Fits -/

namespace SolveInput

variable {inp : SolveInput} {a w : Attempt} {fit : Fit} {r : Result} {p : GpuPlan} {c : Charges}

section

variable (h : tpFit inp.sizes (inp.setups a.tp).kvSharded a c = .ok p)
  (huntiered : a.tieringOn = false)
include h huntiered

end

/-! ### The search -/

/-- The length is the asked one, or a shorter one where it is not pinned. -/
def LengthOk (inp : SolveInput) (maxSeq : ℕ) : Prop :=
  maxSeq = inp.maxSeq0 ∨ inp.seqPin = none ∧ inp.minMaxSeq ≤ maxSeq ∧ maxSeq ≤ inp.maxSeq0

theorem LengthOk.le {n : ℕ} (h : inp.LengthOk n) : inp.leastLength ≤ n ∧ n ≤ inp.maxSeq0 := by
  rcases h with rfl | ⟨-, hfloor, hle⟩
  · exact ⟨min_le_right _ _, le_rfl⟩
  · exact ⟨(min_le_left _ _).trans hfloor, hle⟩

end SolveInput

open SolveInput

end LayerStorm.Autoconfig
