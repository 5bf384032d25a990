import Mathlib

/-!
# The page pools of one GPU

`PageAllocator` hands out the pages of the KV cache.  On a slabbed model the main pool
of a GPU is divided into *slabs* of `pagesPerSlab` pages, which have four kinds of
tenants: the *run* of a sequence, which fills its slabs page by page; single slabs for
indexer pages; contiguous runs of slabs for the KDA state of a request; and contiguous
runs lent to the expert cache.  The pages of the speculation pool lie behind those of
the main pool; promotion moves one into the main pool without copying it, and when it
is freed it stays a *loose* page of the main pool.

This module is the state of one GPU and the operations on it.  An operation returns
`none` where an assertion of the source fails.  Vectors that serve as stacks are lists
with the top at their end, as in the source; tables indexed by a page or a slab are
functions.  Addresses are left out, and counters are unbounded.
-/

namespace LayerStorm.Paging

/-! ### Data model -/

/-- The pools with a region and a page size of their own. -/
inductive Side
  | indexerK
  | hca
  | swa
  | kdaState
  deriving DecidableEq, Repr

/-- The pool a page belongs to. -/
inductive Pool
  | main
  | speculation
  | side (s : Side)
  deriving DecidableEq, Repr

/-- What a caller holds of a page. -/
structure PageHandle where
  gpuIdx : ℕ
  pageIdx : ℕ
  pool : Pool
  deriving DecidableEq

/-- The record of a page; it is free if nobody refers to it. -/
structure PageMeta where
  layerIndex : ℕ
  sequenceId : ℕ
  tokenStart : ℕ
  tokenEnd : ℕ
  refcount : ℕ
  pool : Pool
  /-- The page is claimed under the same index on every rank of the TP group. -/
  replicated : Bool
  deriving DecidableEq

/-- The record of a page that has never been used. -/
def PageMeta.fresh : PageMeta := ⟨0, 0, 0, 0, 0, .main, false⟩

/-- The largest token position. -/
def uint32Max : ℕ := 2 ^ 32 - 1

/-- A slab of the main pool. -/
structure KvSlab where
  ownerSeq : ℕ
  claimed : Bool
  /-- Live pages. -/
  used : ℕ
  /-- The first offset that has never been used. -/
  bump : ℕ
  /-- Offsets below `bump` that have been freed. -/
  holes : List ℕ
  tokLo : ℕ
  tokHi : ℕ
  deriving DecidableEq

/-- A slab without a tenant. -/
def KvSlab.fresh : KvSlab := ⟨0, false, 0, 0, [], uint32Max, 0⟩

/-- A side pool.  An elastic one has no pages of its own: its page `i` is the run of
`runSlabs` slabs of the main pool that starts at slab `i`. -/
structure SidePool where
  total : ℕ
  free : List ℕ
  pages : ℕ → PageMeta
  elastic : Bool
  runSlabs : ℕ

structure KdaMappedStats where
  claims : ℕ
  refusalsCapacity : ℕ
  refusalsContiguity : ℕ
  /-- `none` where the last refusal was before the scan. -/
  lastFoundRuns : Option ℕ
  lastNeededRuns : ℕ
  lastFreeSlabs : ℕ
  lastWasContiguity : Bool

/-- What became of the requests of the expert cache. -/
structure ExpertZoneStats where
  grants : ℕ
  releases : ℕ
  refusals : ℕ
  grantedSlabs : ℤ

structure GpuPool where
  initialMainPages : ℕ
  initialSpecPages : ℕ
  mainFree : List ℕ
  specFree : List ℕ
  pages : ℕ → PageMeta
  mainReserved : ℤ
  specReserved : ℤ
  numSlabs : ℕ
  kvSlabs : ℕ → KvSlab
  kvFreeSlabs : List ℕ
  kvLooseFree : List ℕ
  kvFreePages : ℤ
  /-- The slabs of each sequence's run, in the order they were claimed. -/
  kvRuns : ℕ → List ℕ
  side : Side → SidePool
  /-- The lengths of the runs lent to the expert cache, by their first slab. -/
  expertZoneRuns : ℕ → Option ℕ
  kdaStats : KdaMappedStats
  ezStats : ExpertZoneStats

/-- A record of a claimed page of a pool that says nothing about its contents. -/
def PageMeta.claim (pm : PageMeta) (pool : Pool) : PageMeta :=
  { pm with
    refcount := 1, pool := pool, layerIndex := 0, sequenceId := 0, tokenStart := 0, tokenEnd := 0 }

/-- The record says what the page holds. -/
def PageMeta.describe (pm : PageMeta) (seq layer tokenStart tokenEnd : ℕ) : PageMeta :=
  { pm with
    sequenceId := seq, layerIndex := layer, tokenStart := tokenStart, tokenEnd := tokenEnd }

def PageMeta.describeAs (pm old : PageMeta) : PageMeta :=
  pm.describe old.sequenceId old.layerIndex old.tokenStart old.tokenEnd

namespace GpuPool

variable (pps : ℕ) (gpu : GpuPool)

def total : ℕ := gpu.initialMainPages + gpu.initialSpecPages

/-- `kv_slabbed`: the main pool is managed by slabs. -/
def KvSlabbed : Prop := 0 < pps ∧ gpu.numSlabs ≠ 0

instance (pps : ℕ) (gpu : GpuPool) : Decidable (gpu.KvSlabbed pps) :=
  inferInstanceAs (Decidable (_ ∧ _))

/-- Writing the record of a page. -/
def setMeta (idx : ℕ) (pm : PageMeta) : GpuPool :=
  { gpu with pages := Function.update gpu.pages idx pm }

def setSlab (sid : ℕ) (slab : KvSlab) : GpuPool :=
  { gpu with kvSlabs := Function.update gpu.kvSlabs sid slab }

def setSide (s : Side) (sp : SidePool) : GpuPool :=
  { gpu with side := Function.update gpu.side s sp }

def setSideMeta (s : Side) (idx : ℕ) (pm : PageMeta) : GpuPool :=
  gpu.setSide s { gpu.side s with pages := Function.update (gpu.side s).pages idx pm }

/-- Writing the record of the page that an allocation returns. -/
def writeMeta (f : PageMeta → PageMeta) (r : GpuPool × Option ℕ) : GpuPool × Option ℕ :=
  match r.2 with
  | none => r
  | some idx => (r.1.setMeta idx (f (r.1.pages idx)), some idx)

def writeSideMeta (s : Side) (f : PageMeta → PageMeta) (r : GpuPool × Option ℕ) :
    GpuPool × Option ℕ :=
  match r.2 with
  | none => r
  | some idx => (r.1.setSideMeta s idx (f ((r.1.side s).pages idx)), some idx)

/-! ### Slabs of a sequence -/

/-- `kv_claim_slab`: a free slab joins the run of a sequence. -/
def kvClaimSlab (sid seq : ℕ) : Option GpuPool :=
  let slab := gpu.kvSlabs sid
  if slab.claimed = false ∧ slab.used = 0 ∧ slab.bump = 0 ∧ slab.holes = [] ∧
      sid ∈ gpu.kvFreeSlabs then
    let gpu := gpu.setSlab sid
      { slab with claimed := true, ownerSeq := seq, tokLo := uint32Max, tokHi := 0 }
    some { gpu with
      kvFreeSlabs := gpu.kvFreeSlabs.erase sid
      kvRuns := Function.update gpu.kvRuns seq (gpu.kvRuns seq ++ [sid]) }
  else none

/-- `kv_take_specific`: a page is taken out of the free space of its slab, which is a
hole or the page at the bump offset. -/
def kvTakeSpecific (idx tokenStart : ℕ) : Option GpuPool :=
  let slab := gpu.kvSlabs (idx / pps)
  let off := idx % pps
  let taken (slab : KvSlab) : GpuPool :=
    { gpu.setSlab (idx / pps) { slab with
        used := slab.used + 1
        tokLo := min slab.tokLo tokenStart
        tokHi := max slab.tokHi tokenStart } with
      kvFreePages := gpu.kvFreePages - 1 }
  if idx < gpu.initialMainPages ∧ slab.claimed = true then
    if off ∈ slab.holes then some (taken { slab with holes := slab.holes.erase off })
    else if off = slab.bump then some (taken { slab with bump := slab.bump + 1 })
    else none
  else none

/-- `kv_return_page`: a page of the main pool is given back.  It becomes a hole of its
slab; a slab without live pages is given back whole.  A page behind the slabs is loose. -/
def kvReturnPage (idx : ℕ) : Option GpuPool :=
  if gpu.initialMainPages ≤ idx then
    some { gpu with
      kvLooseFree := gpu.kvLooseFree ++ [idx], kvFreePages := gpu.kvFreePages + 1 }
  else
    let sid := idx / pps
    let slab := gpu.kvSlabs sid
    if slab.claimed = true ∧ 0 < slab.used then
      if 0 < slab.used - 1 then
        some { gpu.setSlab sid
            { slab with used := slab.used - 1, holes := slab.holes ++ [idx % pps] } with
          kvFreePages := gpu.kvFreePages + 1 }
      else
        some { gpu.setSlab sid KvSlab.fresh with
          kvFreePages := gpu.kvFreePages + 1
          kvRuns := Function.update gpu.kvRuns slab.ownerSeq
            ((gpu.kvRuns slab.ownerSeq).filter fun s => s ≠ sid)
          kvFreeSlabs := gpu.kvFreeSlabs ++ [sid] }
    else none

/-- The free space of a slab: its last hole, or else the page at the bump offset. -/
def fromSlab (sid : ℕ) : Option ℕ :=
  let slab := gpu.kvSlabs sid
  if slab.claimed = true then
    match slab.holes.getLast? with
    | some off => some (sid * pps + off)
    | none => if slab.bump < pps then some (sid * pps + slab.bump) else none
  else none

/-- A hole of a slab whose tokens lie around a position. -/
def matchedHole (tokenStart sid : ℕ) : Option ℕ :=
  let slab := gpu.kvSlabs sid
  if slab.claimed = true ∧ slab.tokLo ≤ tokenStart ∧ tokenStart ≤ slab.tokHi then
    slab.holes.getLast?.map fun off => sid * pps + off
  else none

/-- `kv_find_in_run`: free space in the preferred slab, a hole at the right position in
the run, newest slab first, or free space in the newest slab. -/
def kvFindInRun (seq tokenStart : ℕ) (preferSlab : Option ℕ) : Option ℕ :=
  let ids := gpu.kvRuns seq
  (preferSlab.bind fun sid => if sid < gpu.numSlabs then gpu.fromSlab pps sid else none).or
    ((ids.reverse.findSome? (gpu.matchedHole pps tokenStart)).or
      (ids.getLast?.bind (gpu.fromSlab pps)))

/-- `kv_find_in_run_pressure`: free space in any slab of the run, newest first. -/
def kvFindInRunPressure (seq : ℕ) : Option ℕ :=
  (gpu.kvRuns seq).reverse.findSome? (gpu.fromSlab pps)

/-- `kv_alloc_page`: a page of the main pool for a sequence. -/
def kvAllocPage (seq tokenStart : ℕ) (unreserved : Bool)
    (preferSlab : Option ℕ) : Option (GpuPool × Option ℕ) :=
  if unreserved = false ∧ gpu.kvFreePages ≤ gpu.mainReserved then some (gpu, none)
  else
    match gpu.kvFindInRun pps seq tokenStart preferSlab with
    | some idx => (gpu.kvTakeSpecific pps idx tokenStart).map fun gpu => (gpu, some idx)
    | none =>
      match gpu.kvFreeSlabs.getLast? with
      | some sid =>
        ((gpu.kvClaimSlab sid seq).bind fun gpu =>
          gpu.kvTakeSpecific pps (sid * pps) tokenStart).map fun gpu => (gpu, some (sid * pps))
      | none =>
        match gpu.kvLooseFree.getLast? with
        | some loose =>
          some ({ gpu with
            kvLooseFree := gpu.kvLooseFree.dropLast, kvFreePages := gpu.kvFreePages - 1 },
            some loose)
        | none =>
          match gpu.kvFindInRunPressure pps seq with
          | some idx => (gpu.kvTakeSpecific pps idx tokenStart).map fun gpu => (gpu, some idx)
          | none => some (gpu, none)

/-! ### Whole slabs for other tenants -/

/-- A slab is stamped as fully used by a tenant that is not a sequence. -/
def stampSlab (sid : ℕ) : Option GpuPool :=
  let slab := gpu.kvSlabs sid
  if slab.claimed = false ∧ slab.used = 0 ∧ slab.bump = 0 ∧ slab.holes = [] then
    some { gpu.setSlab sid { slab with
        claimed := true, ownerSeq := 0, used := pps, bump := pps, tokLo := uint32Max, tokHi := 0 }
      with kvFreePages := gpu.kvFreePages - pps }
  else none

/-- The stamp is taken off a slab. -/
def unstampSlab (sid : ℕ) : Option GpuPool :=
  if (gpu.kvSlabs sid).claimed = true ∧ (gpu.kvSlabs sid).used = pps then
    some { gpu.setSlab sid KvSlab.fresh with kvFreePages := gpu.kvFreePages + pps }
  else none

/-- `kv_claim_side_slab`: the top of the free list, unless that would touch the reserve. -/
def kvClaimSideSlab (honorReserved : Bool) : Option (GpuPool × Option ℕ) :=
  match gpu.kvFreeSlabs.getLast? with
  | none => some (gpu, none)
  | some sid =>
    if honorReserved = true ∧ gpu.kvFreePages - pps < gpu.mainReserved then some (gpu, none)
    else
      ({ gpu with kvFreeSlabs := gpu.kvFreeSlabs.dropLast }.stampSlab pps sid).map
        fun gpu => (gpu, some sid)

def kvReleaseSideSlab (sid : ℕ) : Option GpuPool :=
  (gpu.unstampSlab pps sid).map fun gpu => { gpu with kvFreeSlabs := gpu.kvFreeSlabs ++ [sid] }

def runSlabIds (start n : ℕ) : List ℕ := List.range' start n

def stampSlabs (sids : List ℕ) : Option GpuPool :=
  (sids.foldlM (stampSlab pps) gpu).map fun gpu =>
    { gpu with kvFreeSlabs := gpu.kvFreeSlabs.filter fun s => (gpu.kvSlabs s).claimed = false }

/-- Taking the stamp off a list of slabs, which go to the bottom of the free list. -/
def unstampSlabs (sids : List ℕ) : Option GpuPool :=
  (sids.foldlM (unstampSlab pps) gpu).map fun gpu =>
    { gpu with kvFreeSlabs := sids ++ gpu.kvFreeSlabs }

/-- `side_release`: a page of a side pool is given back. -/
def sideRelease (s : Side) (idx : ℕ) : Option GpuPool :=
  let sp := gpu.side s
  let gpu := gpu.setSideMeta s idx ((sp.pages idx).describe 0 0 0 0)
  if sp.elastic = true then
    if s = .kdaState then gpu.unstampSlabs pps (runSlabIds idx sp.runSlabs)
    else (runSlabIds idx sp.runSlabs).foldlM (kvReleaseSideSlab pps) gpu
  else some (gpu.setSide s { gpu.side s with free := sp.free ++ [idx] })

def allocateSide (s : Side) : Option (GpuPool × Option ℕ) :=
  let sp := gpu.side s
  let claimed : Option (GpuPool × Option ℕ) :=
    if sp.elastic = true then
      if sp.runSlabs ≠ 1 then some (gpu, none) else gpu.kvClaimSideSlab pps true
    else
      match sp.free.getLast? with
      | none => some (gpu, none)
      | some idx => some (gpu.setSide s { sp with free := sp.free.dropLast }, some idx)
  claimed.map (writeSideMeta s fun pm => pm.claim (.side s))

/-! ### Contiguous runs of slabs -/

/-- The scan for runs of `n` unclaimed slabs, from the top down: the position, the length
of the run found so far and how many runs are wanted. -/
def scanRuns (claimed : ℕ → Bool) (n : ℕ) : ℕ → ℕ → ℕ → List ℕ
  | 0, _, _ => []
  | sid + 1, run, want =>
    if want = 0 then []
    else if claimed sid = false then
      if run + 1 = n then sid :: scanRuns claimed n sid 0 (want - 1)
      else scanRuns claimed n sid (run + 1) want
    else scanRuns claimed n sid 0 want

def freeRuns (n want : ℕ) : List ℕ :=
  scanRuns (fun s => (gpu.kvSlabs s).claimed) n gpu.numSlabs 0 want

/-- The mapped part of `allocate_kda_state`: `units` runs of `n` slabs each, or nothing. -/
def claimKdaRuns (units n seq : ℕ) : Option (GpuPool × List ℕ) :=
  let stats := gpu.kdaStats
  if 0 < units ∧ 0 < n then
    if gpu.kvFreePages - (units * n * pps : ℕ) < gpu.mainReserved then
      some ({ gpu with kdaStats := { stats with
        refusalsCapacity := stats.refusalsCapacity + 1
        lastFoundRuns := none
        lastNeededRuns := units
        lastFreeSlabs := gpu.kvFreeSlabs.length
        lastWasContiguity := false } }, [])
    else
      let starts := gpu.freeRuns n units
      if starts.length < units then
        let contiguity := decide (units * n ≤ gpu.kvFreeSlabs.length)
        some ({ gpu with kdaStats := { stats with
          refusalsContiguity := stats.refusalsContiguity + if contiguity then 1 else 0
          refusalsCapacity := stats.refusalsCapacity + if contiguity then 0 else 1
          lastFoundRuns := some starts.length
          lastNeededRuns := units
          lastFreeSlabs := gpu.kvFreeSlabs.length
          lastWasContiguity := contiguity } }, [])
      else if ∀ st ∈ starts, st < (gpu.side .kdaState).total ∧
          ((gpu.side .kdaState).pages st).refcount = 0 then
        let gpu := { gpu with kdaStats := { stats with claims := stats.claims + 1 } }
        (gpu.stampSlabs pps (starts.flatMap fun st => runSlabIds st n)).map fun gpu =>
          (starts.foldl (fun gpu st => gpu.setSideMeta .kdaState st
            ((((gpu.side .kdaState).pages st).claim (.side .kdaState)).describe seq 0 0 0)) gpu,
            starts)
      else none
  else none

/-- A request of the expert cache is refused. -/
def refuseZone : GpuPool :=
  { gpu with ezStats := { gpu.ezStats with refusals := gpu.ezStats.refusals + 1 } }

/-- A run of slabs is lent to the expert cache. -/
def grantZone (start n : ℕ) : Option GpuPool :=
  (gpu.stampSlabs pps (runSlabIds start n)).map fun gpu =>
    { gpu with
      expertZoneRuns := Function.update gpu.expertZoneRuns start (some n)
      ezStats := { gpu.ezStats with
        grants := gpu.ezStats.grants + 1, grantedSlabs := gpu.ezStats.grantedSlabs + n } }

/-- The grant would leave fewer pages than the reserve and the caller's margin. -/
def ZoneTooLarge (n : ℕ) (extraReserve : ℤ) : Prop :=
  gpu.kvFreePages - (n * pps : ℕ) < gpu.mainReserved + extraReserve

instance (pps : ℕ) (gpu : GpuPool) (n : ℕ) (extraReserve : ℤ) :
    Decidable (gpu.ZoneTooLarge pps n extraReserve) :=
  inferInstanceAs (Decidable (_ < _))

/-- `claim_expert_zone`: the topmost run of `n` unclaimed slabs. -/
def claimExpertZone (n : ℕ) (extraReserve : ℤ) : Option (GpuPool × Option ℕ) :=
  if ¬ gpu.KvSlabbed pps ∨ n = 0 then some (gpu, none)
  else if gpu.ZoneTooLarge pps n extraReserve then some (gpu.refuseZone, none)
  else
    match (gpu.freeRuns n 1).head? with
    | none => some (gpu.refuseZone, none)
    | some start => (gpu.grantZone pps start n).map fun gpu => (gpu, some start)

/-- `claim_expert_zone_at`: exactly the run asked for. -/
def claimExpertZoneAt (start n : ℕ) (extraReserve : ℤ) : Option (GpuPool × Bool) :=
  if ¬ gpu.KvSlabbed pps ∨ n = 0 then some (gpu, false)
  else if gpu.numSlabs < start + n then some (gpu.refuseZone, false)
  else if gpu.ZoneTooLarge pps n extraReserve then some (gpu.refuseZone, false)
  else if ∃ s ∈ runSlabIds start n, (gpu.kvSlabs s).claimed = true then
    some (gpu.refuseZone, false)
  else (gpu.grantZone pps start n).map fun gpu => (gpu, true)

/-- `release_expert_zone`: a grant is handed back; anything else is ignored. -/
def releaseExpertZone (start n : ℕ) : Option GpuPool :=
  if gpu.expertZoneRuns start = some n then
    (gpu.unstampSlabs pps (runSlabIds start n)).map fun gpu =>
      { gpu with
        expertZoneRuns := Function.update gpu.expertZoneRuns start none
        ezStats := { gpu.ezStats with
          releases := gpu.ezStats.releases + 1, grantedSlabs := gpu.ezStats.grantedSlabs - n } }
  else some gpu

/-! ### Pages -/

def freeList (pool : Pool) : List ℕ :=
  if pool = .main then gpu.mainFree else gpu.specFree

def setFreeList (pool : Pool) (l : List ℕ) : GpuPool :=
  if pool = .main then { gpu with mainFree := l } else { gpu with specFree := l }

def reserved (pool : Pool) : ℤ :=
  if pool = .main then gpu.mainReserved else gpu.specReserved

/-- `allocate_from_pool`: the top of a free list, unless that would touch the reserve. -/
def allocateFromPool (pool : Pool) (minFree : ℤ) : GpuPool × Option ℕ :=
  if ((gpu.freeList pool).length : ℤ) ≤ minFree then (gpu, none)
  else
    match (gpu.freeList pool).getLast? with
    | none => (gpu, none)
    | some idx =>
      ((gpu.setFreeList pool (gpu.freeList pool).dropLast).setMeta idx
        ((gpu.pages idx).claim pool), some idx)

/-- The run of pages that no sequence owns. -/
def anonymousRunSeq : ℕ := 2 ^ 64 - 1

/-- The common body of `allocate` and `allocate_unreserved`. -/
def allocatePage (pool : Pool) (unreserved : Bool) : Option (GpuPool × Option ℕ) :=
  match pool with
  | .side s => gpu.allocateSide pps s
  | pool =>
    if pool = .main ∧ gpu.KvSlabbed pps then
      (gpu.kvAllocPage pps anonymousRunSeq 0 unreserved none).map
        (writeMeta fun pm => pm.claim pool)
    else some (gpu.allocateFromPool pool (if unreserved then 0 else gpu.reserved pool))

def allocate (pool : Pool) : Option (GpuPool × Option ℕ) :=
  gpu.allocatePage pps pool false

def allocateUnreserved (pool : Pool) : Option (GpuPool × Option ℕ) :=
  gpu.allocatePage pps pool true

/-- `allocate_for_sequence`: a page of the main or speculation pool, with what it holds. -/
def allocateForSequence (pool : Pool)
    (seq layer tokenStart tokenEnd : ℕ) (unreserved : Bool) : Option (GpuPool × Option ℕ) :=
  match pool with
  | .side _ => none
  | pool =>
    let allocated : Option (GpuPool × Option ℕ) :=
      if pool = .main ∧ gpu.KvSlabbed pps then
        (gpu.kvAllocPage pps seq tokenStart unreserved none).map
          (writeMeta fun pm => { pm with refcount := 1, pool := pool })
      else gpu.allocatePage pps pool unreserved
    allocated.map (writeMeta fun pm => pm.describe seq layer tokenStart tokenEnd)

def returnToFreeList (idx : ℕ) : Option GpuPool :=
  let pm := gpu.pages idx
  let gpu := gpu.setMeta idx { pm.describe 0 0 0 0 with replicated := false }
  if pm.pool = .main ∧ gpu.KvSlabbed pps then gpu.kvReturnPage pps idx
  else some (gpu.setFreeList pm.pool (gpu.freeList pm.pool ++ [idx]))

/-- A reference to a page is given up; the last one frees it. -/
def dropRef (idx : ℕ) : Option GpuPool :=
  let pm := gpu.pages idx
  if 0 < pm.refcount then
    let gpu := gpu.setMeta idx { pm with refcount := pm.refcount - 1 }
    if pm.refcount - 1 = 0 then gpu.returnToFreeList pps idx else some gpu
  else none

/-- A reference to a page of a side pool is given up; the last one frees it. -/
def sideDropRef (s : Side) (idx : ℕ) : Option GpuPool :=
  let pm := (gpu.side s).pages idx
  if idx < (gpu.side s).total ∧ 0 < pm.refcount then
    let gpu := gpu.setSideMeta s idx { pm with refcount := pm.refcount - 1 }
    if pm.refcount - 1 = 0 then gpu.sideRelease pps s idx else some gpu
  else none

end GpuPool

end LayerStorm.Paging
