import LayerStorm.Lib.BinarySearch
import LayerStorm.Lib.RoundRobin

/-!
# The admissible context

At the start a daemon tells the longest context that its main pool of pages can serve.  A request of
a number of tokens needs pages of keys and values, pages of the indexer and pages of linear state;
the longest context is searched by bisection below a bound.

## Main results

* `admissible_ceiling_iff` — when the ceiling is exact.
-/

namespace LayerStorm.Memory

open Nat
namespace Context

open Lib

/-- What the demand depends on. -/
structure ContextConfig where
  pageSizeTokens : ℕ
  dcpChunkSize : ℕ
  kvLayers : ℕ
  kvShardFactor : ℕ
  hasDsa : Bool
  indexerKPageSize : ℕ
  numDsaLayers : ℕ
  indexerModeLocal : Bool
  dcpShardFactor : ℕ
  pagesPerSlab : ℕ
  slabBytes : ℕ
  kdaEnabled : Bool
  kdaMapped : Bool
  kdaPerLayerBytes : ℕ
  kdaNumLayers : ℕ
  maxConcurrentRequests : ℕ
  pageSize_pos : 0 < pageSizeTokens
  shard_pos : 0 < kvShardFactor

def pageOwnerRank (globalPage pagesPerChunk dcpSize : ℕ) : ℕ :=
  if dcpSize ≤ 1 then 0 else dealt pagesPerChunk dcpSize globalPage

namespace ContextConfig

variable (cfg : ContextConfig)

/-! ### Demands -/

def pagesPerChunk : ℕ := max 1 (cfg.dcpChunkSize / cfg.pageSizeTokens)

/-- The pages of a sequence on its fullest rank, as `compute_auto_kv_pages` counts them. -/
def autoPagesPerSeq (maxSeq : ℕ) : ℕ :=
  let pagesPerSeq := (maxSeq + cfg.pageSizeTokens - 1) / cfg.pageSizeTokens
  if 1 < cfg.kvShardFactor then
    let cyclePages := cfg.pagesPerChunk * cfg.kvShardFactor
    let fullCycles := pagesPerSeq / cyclePages
    let rem := pagesPerSeq % cyclePages
    fullCycles * cfg.pagesPerChunk + min rem cfg.pagesPerChunk
  else pagesPerSeq

def computeAutoKvPages (maxSeq : ℕ) (bytesPerPage availableForKv : ℤ) : ℤ :=
  let needed : ℤ := cfg.maxConcurrentRequests * cfg.autoPagesPerSeq maxSeq * cfg.kvLayers
  let needed := if 0 < bytesPerPage then min needed (availableForKv.tdiv bytesPerPage) else needed
  max needed 0

def admUnitSlabs : ℕ :=
  if cfg.kdaEnabled ∧ cfg.kdaMapped ∧ 0 < cfg.slabBytes then
    (cfg.kdaPerLayerBytes + cfg.slabBytes - 1) / cfg.slabBytes
  else 0

def admStatePages : ℕ :=
  if 0 < cfg.admUnitSlabs then cfg.kdaNumLayers * cfg.admUnitSlabs * cfg.pagesPerSlab else 0

def admKvPages (T : ℕ) : ℕ :=
  let perSeq := (T + cfg.pageSizeTokens - 1) / cfg.pageSizeTokens
  let perSeq :=
    if 1 < cfg.kvShardFactor then
      let cycle := cfg.pagesPerChunk * cfg.kvShardFactor
      perSeq / cycle * cfg.pagesPerChunk + min (perSeq % cycle) cfg.pagesPerChunk
    else perSeq
  perSeq * cfg.kvLayers

def admIdxLocal : Bool := cfg.indexerModeLocal && decide (1 < cfg.dcpShardFactor)

def admIdxPages (T : ℕ) : ℕ :=
  if cfg.hasDsa = false ∨ cfg.indexerKPageSize = 0 ∨ cfg.numDsaLayers = 0 ∨ cfg.pagesPerSlab = 0 ∨
      cfg.slabBytes = 0 then 0
  else
    let ip := (T + cfg.indexerKPageSize - 1) / cfg.indexerKPageSize
    let ip := if cfg.admIdxLocal then (ip + cfg.dcpShardFactor - 1) / cfg.dcpShardFactor else ip
    ip * cfg.numDsaLayers * cfg.pagesPerSlab

def admDemand (T : ℕ) : ℕ := cfg.admKvPages T + cfg.admIdxPages T + cfg.admStatePages

/-- The search of the longest context that a pool serves. -/
def admissibleContext (admPool : ℕ) : ℕ :=
  searchLargest (fun T => cfg.admDemand T ≤ admPool) 0
    (admPool * cfg.pageSizeTokens + cfg.pageSizeTokens)

/-! ### The ceiling -/

def seqPages (T : ℕ) : ℕ := (T + cfg.pageSizeTokens - 1) / cfg.pageSizeTokens

def ownedPages (T rank : ℕ) : ℕ :=
  Nat.count (fun page => pageOwnerRank page cfg.pagesPerChunk cfg.kvShardFactor = rank)
    (cfg.seqPages T)

def maxOwnedPages (T : ℕ) : ℕ := (Finset.range cfg.kvShardFactor).sup (cfg.ownedPages T)

/-- The longest context whose demand a pool meets; zero if there is none. -/
def IsCeiling (admPool ceiling : ℕ) : Prop :=
  ((∀ T, admPool < cfg.admDemand T) ∧ ceiling = 0) ∨
    IsGreatest {T | cfg.admDemand T ≤ admPool} ceiling

/-- **The ceiling is exact**: the search finds the longest context, the demand grows with the
context, and the pages of a sequence are those that its fullest rank owns. -/
structure CeilingExact (admPool : ℕ) : Prop where
  ceiling : cfg.IsCeiling admPool (cfg.admissibleContext admPool)
  monotone : Monotone cfg.admDemand
  kvPages : ∀ T, cfg.admKvPages T = cfg.maxOwnedPages T * cfg.kvLayers
  autoPages : ∀ T, cfg.autoPagesPerSeq T = cfg.maxOwnedPages T

/-! ### Pages -/

variable {cfg}

theorem pagesPerChunk_pos : 0 < cfg.pagesPerChunk := by
  rw [pagesPerChunk]
  omega

theorem autoPagesPerSeq_eq (T : ℕ) : cfg.autoPagesPerSeq T = cfg.maxOwnedPages T := by
  by_cases hshard : 1 < cfg.kvShardFactor
  · have howned : cfg.ownedPages T =
        (dealtCount cfg.pagesPerChunk cfg.kvShardFactor · (cfg.seqPages T)) := by
      funext rank
      simp [ownedPages, dealtCount, pageOwnerRank, not_le.2 hshard]
    rw [autoPagesPerSeq, maxOwnedPages, howned, sup_dealtCount pagesPerChunk_pos cfg.shard_pos,
      if_pos hshard]
    rfl
  · have hone : cfg.kvShardFactor = 1 := by
      have := cfg.shard_pos
      omega
    simp [autoPagesPerSeq, maxOwnedPages, ownedPages, pageOwnerRank, hone, seqPages, count_true]

/-- **The pages of a sequence** are those of its fullest rank, for each layer. -/
theorem admKvPages_eq (T : ℕ) : cfg.admKvPages T = cfg.maxOwnedPages T * cfg.kvLayers := by
  rw [← autoPagesPerSeq_eq]
  rfl

/-! ### The demand grows -/

theorem seqPages_mono : Monotone cfg.seqPages := by
  intro m n h
  exact Nat.div_le_div_right (by omega)

theorem maxOwnedPages_mono : Monotone cfg.maxOwnedPages := by
  intro m n h
  apply Finset.sup_mono_fun
  intro rank _
  exact count_monotone _ (seqPages_mono h)

theorem admIdxPages_mono : Monotone cfg.admIdxPages := by
  intro m n h
  have hpages : (m + cfg.indexerKPageSize - 1) / cfg.indexerKPageSize ≤
      (n + cfg.indexerKPageSize - 1) / cfg.indexerKPageSize := Nat.div_le_div_right (by omega)
  rw [admIdxPages, admIdxPages]
  split
  · exact le_rfl
  apply Nat.mul_le_mul_right
  apply Nat.mul_le_mul_right
  split
  · exact Nat.div_le_div_right (by omega)
  · exact hpages

theorem admDemand_mono : Monotone cfg.admDemand := by
  intro m n h
  have hkv : cfg.admKvPages m ≤ cfg.admKvPages n := by
    rw [admKvPages_eq, admKvPages_eq]
    exact mul_le_mul_right _ (maxOwnedPages_mono h)
  have hidx : cfg.admIdxPages m ≤ cfg.admIdxPages n := admIdxPages_mono h
  rw [admDemand, admDemand]
  omega

theorem admDemand_zero : cfg.admDemand 0 = cfg.admStatePages := by
  have hkv : (cfg.pageSizeTokens - 1) / cfg.pageSizeTokens = 0 :=
    div_eq_of_lt (sub_lt cfg.pageSize_pos one_pos)
  have hidx : (cfg.indexerKPageSize - 1) / cfg.indexerKPageSize = 0 := by
    rcases Nat.eq_zero_or_pos cfg.indexerKPageSize with h | h
    · rw [h]
    · exact div_eq_of_lt (sub_lt h one_pos)
  have hlocal : (cfg.dcpShardFactor - 1) / cfg.dcpShardFactor = 0 := by
    rcases Nat.eq_zero_or_pos cfg.dcpShardFactor with h | h
    · rw [h]
    · exact div_eq_of_lt (sub_lt h one_pos)
  simp [admDemand, admKvPages, admIdxPages, hkv, hidx, hlocal]

/-! ### Main result -/

theorem isCeiling_iff (admPool : ℕ) :
    cfg.IsCeiling admPool (cfg.admissibleContext admPool) ↔ admPool < cfg.admStatePages ∨
      admPool < cfg.admDemand ((admPool + 1) * cfg.pageSizeTokens + 1) := by
  have hbound : admPool * cfg.pageSizeTokens + cfg.pageSizeTokens =
      (admPool + 1) * cfg.pageSizeTokens := by ring
  have hnone : (∀ T, admPool < cfg.admDemand T) ↔ admPool < cfg.admStatePages := by
    rw [← admDemand_zero]
    exact ⟨fun h => h 0, fun h T => h.trans_le (admDemand_mono (zero_le T))⟩
  obtain ⟨-, -, hpass, -⟩ := searchLargest_spec (fun T => decide (cfg.admDemand T ≤ admPool))
    (zero_le (admPool * cfg.pageSizeTokens + cfg.pageSizeTokens))
  rw [IsCeiling, hnone]
  by_cases hstate : admPool < cfg.admStatePages
  · -- nothing passes the test, so the search stays at its lower bound
    have hzero : cfg.admissibleContext admPool = 0 := by
      rcases hpass with h | h
      · exact h
      · exact absurd (of_decide_eq_true h) (not_le.2 (hnone.2 hstate _))
    exact iff_of_true (.inl ⟨hstate, hzero⟩) (.inl hstate)
  · have hiff := searchLargest_isGreatest_iff (p := fun T => cfg.admDemand T ≤ admPool)
      (fun m n hmn hn => decide_eq_true ((admDemand_mono hmn).trans (of_decide_eq_true hn)))
      (decide_eq_true (by rw [admDemand_zero]; omega))
      (admPool * cfg.pageSizeTokens + cfg.pageSizeTokens)
    simp only [decide_eq_true_eq, not_le, hbound] at hiff
    simp only [hstate, false_and, admissibleContext, hbound, hiff]

/-- **When the ceiling is exact**: exactly if no context is admissible, or none beyond the bound of
the search is. -/
theorem admissible_ceiling_iff (cfg : ContextConfig) (admPool : ℕ) :
    cfg.CeilingExact admPool ↔ admPool < cfg.admStatePages ∨
      admPool < cfg.admDemand ((admPool + 1) * cfg.pageSizeTokens + 1) := by
  rw [← isCeiling_iff]
  constructor
  · intro h
    exact h.ceiling
  · intro h
    exact ⟨h, admDemand_mono, admKvPages_eq, autoPagesPerSeq_eq⟩

end ContextConfig

open ContextConfig

/-- One layer of pages, shared out over two ranks. -/
def twoRanks : ContextConfig where
  pageSizeTokens := 16
  dcpChunkSize := 16
  kvLayers := 1
  kvShardFactor := 2
  hasDsa := false
  indexerKPageSize := 0
  numDsaLayers := 0
  indexerModeLocal := false
  dcpShardFactor := 2
  pagesPerSlab := 1
  slabBytes := 0
  kdaEnabled := false
  kdaMapped := false
  kdaPerLayerBytes := 0
  kdaNumLayers := 0
  maxConcurrentRequests := 1
  pageSize_pos := Nat.succ_pos 15
  shard_pos := Nat.two_pos

/-- A pool of a hundred pages on each rank serves two hundred pages of tokens; the search ends at
the bound of a hundred and one. -/
theorem half_ceiling : twoRanks.admDemand 3200 ≤ 100 ∧ twoRanks.admissibleContext 100 ≤ 1616 ∧
      ¬ twoRanks.CeilingExact 100 := by
  have hle : twoRanks.admissibleContext 100 ≤ 1616 := (searchLargest_spec _ (zero_le _)).2.1
  refine ⟨by decide, hle, fun h => ?_⟩
  rcases h.ceiling with ⟨hnone, -⟩ | hgreatest
  · exact absurd (hnone 0) (by decide)
  · have hfits : 3200 ≤ twoRanks.admissibleContext 100 := hgreatest.2 (by decide)
    omega

end Context
end LayerStorm.Memory
