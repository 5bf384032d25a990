import Mathlib
import LayerStorm.Lib.Map

/-!
# The expert cache

`ExpertCache` hands out VRAM slots for expert weights.  Every GPU has three boot
zones (stable, and a streaming zone split into spill and prefetch slots) and any
number of *elastic* zones, extra stable capacity granted at run time from the KV
pool.  Each zone has a slot allocator with a LIFO free list.  A resident expert
records the slot it holds and a zone *tag*; `promote` and `demote` change the tag
and leave the slot where it is.  During a prefill the spill slots are frozen and
lent out as scratch memory.

Addresses are natural numbers in the GPU's address space.  A call with a GPU index
out of range throws before it touches anything and leaves the cache as it is; a
call whose assertion fails is not enabled.
-/

namespace LayerStorm.Memory

open Lib

inductive CacheZone
  | stable
  | streaming
  deriving DecidableEq, Repr

/-- Whether the spill slots are lent out. -/
inductive PrefillMode
  | normal
  | spillActive
  deriving DecidableEq, Repr

/-- Whether an elastic zone takes new residents. -/
inductive ElasticZoneState
  | active
  | draining
  deriving DecidableEq, Repr

/-- The alignment of slot 0 of an elastic zone, `kExpertZoneSlotAlign`. -/
def expertZoneSlotAlign : ℕ := 4096

/-! ### Slot allocators -/

/-- A zone's slots.  The free list is kept with its back first, so that the head is
the next slot handed out. -/
structure SlotAllocator where
  base : ℕ
  slotBytes : ℕ
  totalSlots : ℕ
  freeList : List ℕ
  deriving DecidableEq

namespace SlotAllocator

/-- `init_with_count`: all slots free, slot 0 on top. -/
def initWithCount (base stride count : ℕ) : SlotAllocator :=
  let total := if 0 < stride then count else 0
  ⟨base, stride, total, List.range total⟩

/-- `init`: as many slots as fit into the zone. -/
def init (base bytesPerSlot zoneBytes : ℕ) : SlotAllocator :=
  initWithCount base bytesPerSlot (zoneBytes / bytesPerSlot)

variable (a : SlotAllocator)

/-- `allocate`: pop the free list. -/
def allocate : Option (ℕ × SlotAllocator) :=
  match a.freeList with
  | [] => none
  | slot :: rest => some (slot, { a with freeList := rest })

/-- `free`: push a slot back. -/
def free (slot : ℕ) : SlotAllocator :=
  { a with freeList := slot :: a.freeList }

/-- `address`: where a slot starts. -/
def address (slot : ℕ) : ℕ := a.base + slot * a.slotBytes

end SlotAllocator

/-! ### Residents and zones -/

/-- A resident expert on a GPU. -/
structure CacheEntry (K : Type) where
  key : K
  gpuIdx : ℕ
  zone : CacheZone
  isDuplicate : Bool
  inSpillZone : Bool
  subComponentsReady : BitVec 8
  vramAddress : ℕ
  slotIdx : ℕ
  lockCount : ℕ
  elasticZone : Option ℕ

/-- All three projections ready, `kAll`. -/
def allReady : BitVec 8 := 7#8

/-- A stable-capacity region granted at run time. -/
structure ElasticZone where
  id : ℕ
  base : ℕ
  bytes : ℕ
  slotStride : ℕ
  state : ElasticZoneState
  slots : SlotAllocator
  residentEntries : ℤ
  cookie : ℤ

/-- The cache's state for one GPU; `elasticZones` is in ascending order of ids. -/
structure GpuState (K : Type) where
  stableSlots : SlotAllocator
  spillSlots : SlotAllocator
  prefetchSlots : SlotAllocator
  mode : PrefillMode
  residents : Map K (CacheEntry K)
  duplicateCount : ℤ
  elasticZones : List ElasticZone
  nextElasticId : ℕ

/-- The regions of one GPU that the VRAM allocator gives the cache: they are
disjoint, and an expert has a positive size. -/
structure GpuLayout where
  expertBytes : ℕ
  expertBytes_pos : 0 < expertBytes
  expertStable : ℕ
  expertStableBytes : ℕ
  expertStreaming : ℕ
  streamingSpillBytes : ℕ
  streamingPrefetchBytes : ℕ
  disjoint : expertStable + expertStableBytes ≤ expertStreaming ∨
    expertStreaming + (streamingSpillBytes + streamingPrefetchBytes) ≤ expertStable

variable {K : Type} [DecidableEq K]

/-- The constructor, for one GPU: spill slots at the start of the streaming zone,
prefetch slots behind them. -/
def GpuState.init (layout : GpuLayout) : GpuState K where
  stableSlots :=
    SlotAllocator.init layout.expertStable layout.expertBytes layout.expertStableBytes
  spillSlots :=
    SlotAllocator.init layout.expertStreaming layout.expertBytes layout.streamingSpillBytes
  prefetchSlots :=
    SlotAllocator.init (layout.expertStreaming + layout.streamingSpillBytes) layout.expertBytes
      layout.streamingPrefetchBytes
  mode := .normal
  residents := ∅
  duplicateCount := 0
  elasticZones := []
  nextElasticId := 0

namespace GpuState

/-! ### Reserve and evict -/

variable (layout : GpuLayout) (gs : GpuState K) (e : CacheEntry K)

/-- Adding a resident in a slot just allocated. -/
def addResident : GpuState K :=
  { gs with
    residents := gs.residents.insert e.key e
    duplicateCount := if e.isDuplicate then gs.duplicateCount + 1 else gs.duplicateCount }

/-- The first active elastic zone with a free slot, in order of ids: its id, the
slot, the slot's address and the zones afterwards. -/
def allocateElastic : List ElasticZone → Option (ℕ × ℕ × ℕ × List ElasticZone)
  | [] => none
  | z :: zones =>
    let rest := (allocateElastic zones).map fun r => (r.1, r.2.1, r.2.2.1, z :: r.2.2.2)
    if z.state = .active then
      match z.slots.allocate with
      | some (slot, slots) =>
        some (z.id, slot, z.slots.address slot,
          { z with slots := slots, residentEntries := z.residentEntries + 1 } :: zones)
      | none => rest
    else rest

/-- `reserve`: the slot's address, or nothing if the expert is resident already or
the zone is full.  Streaming experts go to a spill slot first, then to a prefetch
slot; stable experts to the boot carve first, then to the elastic zones. -/
def reserve (key : K) (gpu : ℕ) (zone : CacheZone) (isDuplicate : Bool) : GpuState K × Option ℕ :=
  if key ∈ gs.residents then (gs, none)
  else
    let prefetch : GpuState K × Option ℕ :=
      match gs.prefetchSlots.allocate with
      | some (slot, slots) =>
        let addr := gs.prefetchSlots.address slot
        ({ gs with prefetchSlots := slots }.addResident
          ⟨key, gpu, zone, isDuplicate, false, 0, addr, slot, 0, none⟩, some addr)
      | none => (gs, none)
    match zone with
    | .streaming =>
      if gs.mode = .spillActive then prefetch
      else
        match gs.spillSlots.allocate with
        | some (slot, slots) =>
          let addr := gs.spillSlots.address slot
          ({ gs with spillSlots := slots }.addResident
            ⟨key, gpu, zone, isDuplicate, true, 0, addr, slot, 0, none⟩, some addr)
        | none => prefetch
    | .stable =>
      match gs.stableSlots.allocate with
      | some (slot, slots) =>
        let addr := gs.stableSlots.address slot
        ({ gs with stableSlots := slots }.addResident
          ⟨key, gpu, zone, isDuplicate, false, 0, addr, slot, 0, none⟩, some addr)
      | none =>
        match allocateElastic gs.elasticZones with
        | some (id, slot, addr, zones) =>
          ({ gs with elasticZones := zones }.addResident
            ⟨key, gpu, zone, isDuplicate, false, 0, addr, slot, 0, some id⟩, some addr)
        | none => (gs, none)

def freeElastic (zones : List ElasticZone) (id slot : ℕ) : List ElasticZone :=
  zones.map fun z =>
    if z.id = id then
      { z with slots := z.slots.free slot, residentEntries := z.residentEntries - 1 }
    else z

/-- The allocators after a resident's slot has been given back: to its elastic zone
if it has one, else to the allocator that the zone tag and the spill flag name.
Spill slots are not given back while they are frozen. -/
def returnSlot : GpuState K :=
  match e.elasticZone with
  | some id => { gs with elasticZones := freeElastic gs.elasticZones id e.slotIdx }
  | none =>
    match e.zone with
    | .stable => { gs with stableSlots := gs.stableSlots.free e.slotIdx }
    | .streaming =>
      if e.inSpillZone then
        if gs.mode = .spillActive then gs
        else { gs with spillSlots := gs.spillSlots.free e.slotIdx }
      else { gs with prefetchSlots := gs.prefetchSlots.free e.slotIdx }

def eraseResident (key : K) (e : CacheEntry K) : GpuState K :=
  { gs with
    residents := gs.residents.erase key
    duplicateCount := if e.isDuplicate then gs.duplicateCount - 1 else gs.duplicateCount }

/-- `evict`; refused for an expert that is not resident or is locked. -/
def evict (key : K) : GpuState K × Bool :=
  match gs.residents.lookup key with
  | none => (gs, false)
  | some e =>
    if 0 < e.lockCount then (gs, false)
    else ((gs.returnSlot e).eraseResident key e, true)

/-! ### Changes of an entry in place -/

/-- Rewriting a resident's entry. -/
def updateEntry (key : K) (f : CacheEntry K → CacheEntry K) : GpuState K :=
  match gs.residents.lookup key with
  | none => gs
  | some e => { gs with residents := gs.residents.insert key (f e) }

/-- `promote`: a streaming resident's tag becomes stable. -/
def promote (key : K) : GpuState K × Bool :=
  match gs.residents.lookup key with
  | some e =>
    if e.zone = .streaming then (gs.updateEntry key fun e => { e with zone := .stable }, true)
    else (gs, false)
  | none => (gs, false)

/-- `demote`: a stable resident's tag becomes streaming. -/
def demote (key : K) : GpuState K × Bool :=
  match gs.residents.lookup key with
  | some e =>
    if e.zone = .stable then (gs.updateEntry key fun e => { e with zone := .streaming }, true)
    else (gs, false)
  | none => (gs, false)

/-- `lock`: one more reference of the 16-bit lock count. -/
def lock (key : K) : GpuState K :=
  gs.updateEntry key fun e => { e with lockCount := (e.lockCount + 1) % 2 ^ 16 }

/-- `unlock`: one reference less, unless there is none. -/
def unlock (key : K) : GpuState K :=
  gs.updateEntry key fun e => { e with lockCount := e.lockCount - 1 }

/-- `mark_ready`; the expert must be resident. -/
def markReady (key : K) (component : BitVec 8) : Option (GpuState K) :=
  if key ∈ gs.residents then
    some (gs.updateEntry key fun e =>
      { e with subComponentsReady := e.subComponentsReady ||| component })
  else none

/-- `mark_all_ready`; the expert must be resident. -/
def markAllReady (key : K) : Option (GpuState K) :=
  if key ∈ gs.residents then
    some (gs.updateEntry key fun e => { e with subComponentsReady := allReady })
  else none

/-! ### Elastic zones -/

/-- What the caller hands in with a granted slab run. -/
structure ZoneGrant where
  base : ℕ
  bytes : ℕ
  slotStride : ℕ
  numSlots : ℕ
  cookie : ℤ

/-- The padding before slot 0 of a region. -/
def basePad (base : ℕ) : ℕ :=
  if base % expertZoneSlotAlign = 0 then 0
  else expertZoneSlotAlign - base % expertZoneSlotAlign

/-- The assertions of `add_elastic_zone`. -/
def ZoneGrant.WellFormed (expertBytes : ℕ) (g : ZoneGrant) : Prop :=
  0 < g.base ∧ 0 < g.slotStride ∧ 0 < g.numSlots ∧
    basePad g.base + (g.numSlots - 1) * g.slotStride + expertBytes ≤ g.bytes

instance (expertBytes : ℕ) (g : ZoneGrant) : Decidable (g.WellFormed expertBytes) :=
  inferInstanceAs (Decidable (_ ∧ _ ∧ _ ∧ _))

/-- Two address ranges, each a start and a length, have no byte in common. -/
def RangesDisjoint (a b : ℕ × ℕ) : Prop := a.1 + a.2 ≤ b.1 ∨ b.1 + b.2 ≤ a.1

instance (a b : ℕ × ℕ) : Decidable (RangesDisjoint a b) :=
  inferInstanceAs (Decidable (_ ∨ _))

/-- The boot regions of a GPU: stable, spill and prefetch. -/
def bootRanges : List (ℕ × ℕ) :=
  [(layout.expertStable, layout.expertStableBytes),
    (layout.expertStreaming, layout.streamingSpillBytes),
    (layout.expertStreaming + layout.streamingSpillBytes, layout.streamingPrefetchBytes)]

/-- A grant lies outside the boot carve and outside every registered elastic zone.  The
rebalancer sees to it; the cache does not look. -/
def grantDisjoint (g : ZoneGrant) : Prop :=
  (∀ r ∈ bootRanges layout, RangesDisjoint (g.base, g.bytes) r) ∧
    ∀ z ∈ gs.elasticZones, RangesDisjoint (g.base, g.bytes) (z.base, z.bytes)

def addElasticZone (g : ZoneGrant) : Option (GpuState K) :=
  if g.WellFormed layout.expertBytes then
    some { gs with
      nextElasticId := gs.nextElasticId + 1
      elasticZones := gs.elasticZones ++ [⟨gs.nextElasticId, g.base, g.bytes, g.slotStride, .active,
          SlotAllocator.initWithCount (g.base + basePad g.base) g.slotStride g.numSlots, 0,
          g.cookie⟩] }
  else none

/-- `begin_drain_elastic_zone`; an unknown id is refused. -/
def beginDrainElasticZone (id : ℕ) : GpuState K × Bool :=
  if gs.elasticZones.any fun z => z.id = id then
    ({ gs with elasticZones := gs.elasticZones.map fun z =>
        if z.id = id then { z with state := .draining } else z }, true)
  else (gs, false)

/-- `remove_elastic_zone`; refused for an unknown id or a zone with residents. -/
def removeElasticZone (id : ℕ) : GpuState K × Bool :=
  match gs.elasticZones.find? fun z => z.id = id with
  | none => (gs, false)
  | some z =>
    if z.residentEntries ≠ 0 then (gs, false)
    else ({ gs with elasticZones := gs.elasticZones.eraseP fun z => z.id = id }, true)

/-! ### Prefill spill mode -/

/-- The residents `enter_spill_mode` drops: tagged streaming, in a spill slot and
not locked. -/
def spills : Bool :=
  e.zone = .streaming && e.inSpillZone && e.lockCount == 0

/-- `enter_spill_mode`: drop the residents of the spill zone and freeze it. -/
def enterSpillMode : Option (GpuState K) :=
  if gs.mode = .normal then
    let dropped := gs.residents.entries.filter fun p => spills p.2
    let gs' := dropped.foldl (fun gs p => gs.eraseResident p.1 p.2) gs
    some { gs' with
      spillSlots := { gs'.spillSlots with freeList := [] }
      mode := .spillActive }
  else none

/-- `exit_spill_mode`: every spill slot is free again. -/
def exitSpillMode : Option (GpuState K) :=
  if gs.mode = .spillActive then
    some { gs with
      spillSlots := { gs.spillSlots with freeList := List.range gs.spillSlots.totalSlots }
      mode := .normal }
  else none

/-! ### Queries -/

/-- `free_slots`: draining zones do not count, nor do frozen spill slots. -/
def freeSlots : CacheZone → ℕ
  | .stable => gs.stableSlots.freeList.length +
    ((gs.elasticZones.filter fun z => z.state = .active).map fun z =>
      z.slots.freeList.length).sum
  | .streaming =>
    if gs.mode = .spillActive then gs.prefetchSlots.freeList.length
    else gs.spillSlots.freeList.length + gs.prefetchSlots.freeList.length

end GpuState

/-! ### The cache -/

/-- What a residency listener is told. -/
inductive ResidencyEvent (K : Type)
  | added (key : K) (gpu : ℕ)
  | removed (key : K) (gpu : ℕ)

/-- The cache: one state per GPU, the elastic topology generation, and the
notifications sent to a listener. -/
structure ExpertCache (K : Type) where
  gpuCount : ℕ
  gpus : ℕ → GpuState K
  elasticGeneration : ℕ
  events : List (ResidencyEvent K)

/-- The constructor, for the regions of each GPU. -/
def ExpertCache.init (gpuCount : ℕ) (layout : ℕ → GpuLayout) : ExpertCache K where
  gpuCount := gpuCount
  gpus := fun gpu => GpuState.init (layout gpu)
  elasticGeneration := 0
  events := []

/-- A call on one GPU. -/
inductive CacheOp (K : Type)
  | reserve (key : K) (zone : CacheZone) (isDuplicate : Bool)
  | evict (key : K)
  | promote (key : K)
  | demote (key : K)
  | lock (key : K)
  | unlock (key : K)
  | markReady (key : K) (component : BitVec 8)
  | markAllReady (key : K)
  | addElasticZone (grant : GpuState.ZoneGrant)
  | beginDrainElasticZone (id : ℕ)
  | removeElasticZone (id : ℕ)
  | enterSpillMode
  | exitSpillMode

/-- A call's effect on its GPU. -/
def GpuState.apply (layout : GpuLayout) (gpu : ℕ) (gs : GpuState K) :
    CacheOp K → Option (GpuState K)
  | .reserve key zone isDuplicate => some (gs.reserve key gpu zone isDuplicate).1
  | .evict key => some (gs.evict key).1
  | .promote key => some (gs.promote key).1
  | .demote key => some (gs.demote key).1
  | .lock key => some (gs.lock key)
  | .unlock key => some (gs.unlock key)
  | .markReady key component => gs.markReady key component
  | .markAllReady key => gs.markAllReady key
  | .addElasticZone grant => gs.addElasticZone layout grant
  | .beginDrainElasticZone id => some (gs.beginDrainElasticZone id).1
  | .removeElasticZone id => some (gs.removeElasticZone id).1
  | .enterSpillMode => gs.enterSpillMode
  | .exitSpillMode => gs.exitSpillMode

/-- The notifications of a call: the stable zone gains a resident by a stable
reserve or a promotion, and loses one by an eviction or a demotion. -/
def GpuState.notifications (gpu : ℕ) (gs : GpuState K) : CacheOp K → List (ResidencyEvent K)
  | .reserve key zone isDuplicate =>
    if (gs.reserve key gpu zone isDuplicate).2.isSome ∧ zone = .stable then [.added key gpu]
    else []
  | .evict key =>
    match gs.residents.lookup key with
    | some e => if (gs.evict key).2 ∧ e.zone = .stable then [.removed key gpu] else []
    | none => []
  | .promote key => if (gs.promote key).2 then [.added key gpu] else []
  | .demote key => if (gs.demote key).2 then [.removed key gpu] else []
  | _ => []

/-- Whether a call bumps the elastic topology generation. -/
def GpuState.bumpsGeneration (gs : GpuState K) : CacheOp K → Bool
  | .addElasticZone _ => true
  | .beginDrainElasticZone id => (gs.beginDrainElasticZone id).2
  | .removeElasticZone id => (gs.removeElasticZone id).2
  | _ => false

/-- The cache after a call that leaves its GPU in the given state. -/
def ExpertCache.commit (c : ExpertCache K) (gpu : ℕ) (op : CacheOp K) (gs : GpuState K) :
    ExpertCache K :=
  { c with
    gpus := Function.update c.gpus gpu gs
    elasticGeneration :=
      if (c.gpus gpu).bumpsGeneration op then c.elasticGeneration + 1
      else c.elasticGeneration
    events := c.events ++ (c.gpus gpu).notifications gpu op }

/-- One call of the cache.  A GPU index out of range throws and changes nothing. -/
def ExpertCache.step (layout : ℕ → GpuLayout) (c : ExpertCache K) (a : ℕ × CacheOp K) :
    Option (ExpertCache K) :=
  if a.1 < c.gpuCount then ((c.gpus a.1).apply (layout a.1) a.1 a.2).map (c.commit a.1 a.2)
  else some c

end LayerStorm.Memory
