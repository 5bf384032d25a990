import LayerStorm.Memory.ExpertCache

/-!
# The expert cache as a family of slot pools

A resident of the cache has a *home*: the zone its slot really belongs to, whatever
its tag says.  Seen by homes, the allocators of a GPU are a family of slot pools,
each with a free list, a geometry and a region of memory; this module describes how
the operations change that family.
-/

namespace LayerStorm.Memory

open Lib List

variable {K : Type}

/-! ### Homes -/

/-- The slot pools of a GPU. -/
inductive Home
  | stable
  | spill
  | prefetch
  | elastic (id : ℕ)
  deriving DecidableEq

/-- The pool a resident's slot belongs to: its elastic zone, the spill slots if it
was put there, and else the boot zone its address lies in. -/
def homeOf (layout : GpuLayout) (e : CacheEntry K) : Home :=
  match e.elasticZone with
  | some id => .elastic id
  | none =>
    if e.inSpillZone then .spill
    else if layout.expertStable ≤ e.vramAddress ∧
        e.vramAddress < layout.expertStable + layout.expertStableBytes then .stable
    else .prefetch

/-- The pool that `evict` gives the slot back to. -/
def returnHome (e : CacheEntry K) : Home :=
  match e.elasticZone with
  | some id => .elastic id
  | none =>
    match e.zone with
    | .stable => .stable
    | .streaming => if e.inSpillZone then .spill else .prefetch

namespace GpuState

def zone? (gs : GpuState K) (id : ℕ) : Option ElasticZone :=
  gs.elasticZones.find? fun z => z.id = id

/-- The slot allocator of a pool; an elastic zone that does not exist has none. -/
def allocator (gs : GpuState K) : Home → SlotAllocator
  | .stable => gs.stableSlots
  | .spill => gs.spillSlots
  | .prefetch => gs.prefetchSlots
  | .elastic id => (gs.zone? id).elim ⟨0, 0, 0, []⟩ (·.slots)

/-- The region of memory a pool's slots lie in. -/
def region (layout : GpuLayout) (gs : GpuState K) : Home → ℕ × ℕ
  | .stable => (layout.expertStable, layout.expertStableBytes)
  | .spill => (layout.expertStreaming, layout.streamingSpillBytes)
  | .prefetch =>
    (layout.expertStreaming + layout.streamingSpillBytes, layout.streamingPrefetchBytes)
  | .elastic id => (gs.zone? id).elim (0, 0) fun z => (z.base, z.bytes)

/-- A pool's slots are lent out as scratch memory. -/
def frozen (gs : GpuState K) (h : Home) : Prop := h = .spill ∧ gs.mode = .spillActive

/-- The resident holds a slot of the pool. -/
def holds (gs : GpuState K) (h : Home) (e : CacheEntry K) : Bool :=
  e.slotIdx < (gs.allocator h).totalSlots ∧ e.vramAddress = (gs.allocator h).address e.slotIdx

end GpuState

theorem GpuState.RangesDisjoint.symm {a b : ℕ × ℕ} (h : GpuState.RangesDisjoint a b) :
    GpuState.RangesDisjoint b a :=
  Or.symm h

/-! ### Changes of one free list -/

/-- The allocators of `gs'` are those of `gs`, except that the free list of one pool
is `l` and its resident count, if it is an elastic zone, has changed by `d`. -/
structure AllocChange (layout : GpuLayout) (gs gs' : GpuState K) (p : Home) (l : List ℕ) (d : ℤ) :
    Prop where
  allocator : ∀ p', gs'.allocator p' =
    { gs.allocator p' with freeList := if p' = p then l else (gs.allocator p').freeList }
  region : ∀ p', gs'.region layout p' = gs.region layout p'
  mode : gs'.mode = gs.mode
  residents : gs'.residents = gs.residents
  ids : gs'.elasticZones.map (·.id) = gs.elasticZones.map (·.id)
  nextElasticId : gs'.nextElasticId = gs.nextElasticId
  counts : ∀ id z', gs'.zone? id = some z' → ∃ z, gs.zone? id = some z ∧
    z'.residentEntries = z.residentEntries + if p = .elastic id then d else 0

variable {layout : GpuLayout} {gs gs' : GpuState K} {p : Home} {l : List ℕ} {d : ℤ}

section

variable (hc : AllocChange layout gs gs' p l d)
include hc

theorem AllocChange.totalSlots (p' : Home) :
    (gs'.allocator p').totalSlots = (gs.allocator p').totalSlots := by
  rw [hc.allocator p']

theorem AllocChange.slotBytes (p' : Home) :
    (gs'.allocator p').slotBytes = (gs.allocator p').slotBytes := by
  rw [hc.allocator p']

theorem AllocChange.address (p' : Home) (i : ℕ) :
    (gs'.allocator p').address i = (gs.allocator p').address i := by
  rw [hc.allocator p']
  rfl

theorem AllocChange.freeList (p' : Home) :
    (gs'.allocator p').freeList = if p' = p then l else (gs.allocator p').freeList := by
  rw [hc.allocator p']

theorem AllocChange.frozen_iff (p' : Home) : gs'.frozen p' ↔ gs.frozen p' := by
  unfold GpuState.frozen
  rw [hc.mode]

end

/-- The geometry of the pools. -/
structure GeoInv (layout : GpuLayout) (gs : GpuState K) : Prop where
  /-- The slots of a pool lie in its region. -/
  inside : ∀ h i, i < (gs.allocator h).totalSlots →
    (gs.region layout h).1 ≤ (gs.allocator h).address i ∧
      (gs.allocator h).address i + layout.expertBytes ≤
        (gs.region layout h).1 + (gs.region layout h).2
  stride : ∀ h, 0 < (gs.allocator h).totalSlots → layout.expertBytes ≤ (gs.allocator h).slotBytes
  /-- The regions of different pools are disjoint. -/
  apart : ∀ h h', h ≠ h' → 0 < (gs.allocator h).totalSlots → 0 < (gs.allocator h').totalSlots →
    GpuState.RangesDisjoint (gs.region layout h) (gs.region layout h')

theorem AllocChange.geo (hc : AllocChange layout gs gs' p l d) (h : GeoInv layout gs) :
    GeoInv layout gs' := by
  refine ⟨?_, ?_, ?_⟩
  · intro p' i hi
    rw [hc.totalSlots] at hi
    rw [hc.region, hc.address]
    exact h.inside p' i hi
  · intro p' hpos
    rw [hc.totalSlots] at hpos
    rw [hc.slotBytes]
    exact h.stride p' hpos
  · intro p' p'' hne hpos hpos'
    rw [hc.totalSlots] at hpos hpos'
    rw [hc.region, hc.region]
    exact h.apart p' p'' hne hpos hpos'

theorem AllocChange.stable (layout : GpuLayout) (gs : GpuState K) (l : List ℕ) (d : ℤ) :
    AllocChange layout gs { gs with stableSlots := { gs.stableSlots with freeList := l } }
      .stable l d := by
  refine ⟨?_, fun p' => ?_, rfl, rfl, rfl, rfl, fun id z' hz' => ⟨z', hz', by simp⟩⟩
  · intro p'
    cases p' <;> rfl
  · cases p' <;> rfl

theorem AllocChange.spill (layout : GpuLayout) (gs : GpuState K) (l : List ℕ) (d : ℤ) :
    AllocChange layout gs { gs with spillSlots := { gs.spillSlots with freeList := l } }
      .spill l d := by
  refine ⟨?_, fun p' => ?_, rfl, rfl, rfl, rfl, fun id z' hz' => ⟨z', hz', by simp⟩⟩
  · intro p'
    cases p' <;> rfl
  · cases p' <;> rfl

theorem AllocChange.prefetch (layout : GpuLayout) (gs : GpuState K) (l : List ℕ) (d : ℤ) :
    AllocChange layout gs { gs with prefetchSlots := { gs.prefetchSlots with freeList := l } }
      .prefetch l d := by
  refine ⟨?_, fun p' => ?_, rfl, rfl, rfl, rfl, fun id z' hz' => ⟨z', hz', by simp⟩⟩
  · intro p'
    cases p' <;> rfl
  · cases p' <;> rfl

variable {zones : List ElasticZone} {z : ElasticZone}

theorem AllocChange.elastic {id : ℕ} {l : List ℕ} {d : ℤ} (z' : ElasticZone) (layout : GpuLayout)
    (gs : GpuState K) (hids : zones.map (·.id) = gs.elasticZones.map (·.id))
    (hother : ∀ id', id' ≠ id →
      zones.find? (fun z => z.id = id') = gs.elasticZones.find? fun z => z.id = id')
    (hz : gs.zone? id = some z) (hz' : zones.find? (fun z => z.id = id) = some z')
    (hslots : z'.slots = { z.slots with freeList := l })
    (hregion : (z'.base, z'.bytes) = (z.base, z.bytes))
    (hcount : z'.residentEntries = z.residentEntries + d) :
    AllocChange layout gs { gs with elasticZones := zones } (.elastic id) l d := by
  have hzone : ({ gs with elasticZones := zones } : GpuState K).zone? id = some z' := hz'
  have hzones : ∀ id', id' ≠ id →
      ({ gs with elasticZones := zones } : GpuState K).zone? id' = gs.zone? id' := hother
  refine ⟨?_, ?_, rfl, rfl, hids, rfl, ?_⟩
  · intro p'
    cases p' with
    | stable | spill | prefetch => rfl
    | elastic id' =>
      by_cases hid : id' = id
      · subst hid
        simp only [GpuState.allocator, hzone, hz]
        exact hslots
      · simp only [GpuState.allocator, hzones id' hid, Home.elastic.injEq, hid, if_false]
  · intro p'
    cases p' with
    | stable | spill | prefetch => rfl
    | elastic id' =>
      by_cases hid : id' = id
      · subst hid
        simp only [GpuState.region, hzone, hz]
        exact hregion
      · simp only [GpuState.region, hzones id' hid]
  · intro id' z'' hz''
    by_cases hid : id' = id
    · subst hid
      rw [hzone, Option.some.injEq] at hz''
      subst hz''
      exact ⟨z, hz, by rw [hcount, if_pos rfl]⟩
    · rw [hzones id' hid] at hz''
      refine ⟨z'', hz'', ?_⟩
      rw [if_neg (by simpa using Ne.symm hid), add_zero]

/-! ### Elastic zones -/

/-- What `reserve` finds in the elastic zones: the zone with the returned id, whose
free list starts with the returned slot. -/
theorem allocateElastic_spec {zones' : List ElasticZone} {id slot addr : ℕ}
    (hnodup : (zones.map (·.id)).Nodup)
    (h : GpuState.allocateElastic zones = some (id, slot, addr, zones')) :
    ∃ z rest, zones.find? (fun z => z.id = id) = some z ∧ z.slots.freeList = slot :: rest ∧
      addr = z.slots.address slot ∧ zones'.map (·.id) = zones.map (·.id) ∧
      zones'.find? (fun z => z.id = id) = some { z with
        slots := { z.slots with freeList := rest }
        residentEntries := z.residentEntries + 1 } ∧
      ∀ id', id' ≠ id → zones'.find? (fun z => z.id = id') = zones.find? fun z => z.id = id' := by
  induction zones generalizing zones' with
  | nil => cases h
  | cons w zones ih =>
    rw [map_cons, nodup_cons] at hnodup
    -- the head is passed over: it is draining or full
    have hpass : (GpuState.allocateElastic zones).map
        (fun r => (r.1, r.2.1, r.2.2.1, w :: r.2.2.2)) = some (id, slot, addr, zones') →
        ∃ z rest, (w :: zones).find? (fun z => z.id = id) = some z ∧
          z.slots.freeList = slot :: rest ∧ addr = z.slots.address slot ∧
          zones'.map (·.id) = (w :: zones).map (·.id) ∧
          zones'.find? (fun z => z.id = id) = some { z with
            slots := { z.slots with freeList := rest }
            residentEntries := z.residentEntries + 1 } ∧
          ∀ id', id' ≠ id →
            zones'.find? (fun z => z.id = id') = (w :: zones).find? fun z => z.id = id' := by
      intro hmap
      obtain ⟨⟨id₁, slot₁, addr₁, zones₁⟩, hrec, heq⟩ := Option.map_eq_some_iff.1 hmap
      obtain ⟨rfl, rfl, rfl, rfl⟩ := heq
      obtain ⟨z, rest, hz, hfree, haddr, hids, hz', hother⟩ := ih hnodup.2 hrec
      have hne : w.id ≠ id₁ := by
        rintro rfl
        have hzid : z.id = w.id := by simpa using find?_some hz
        exact hnodup.1 (hzid ▸ mem_map_of_mem (mem_of_find?_eq_some hz))
      refine ⟨z, rest, ?_, hfree, haddr, by rw [map_cons, map_cons, hids], ?_, ?_⟩
      · rw [find?_cons_of_neg (by simpa using hne), hz]
      · rw [find?_cons_of_neg (by simpa using hne), hz']
      · intro id' hid'
        rw [find?_cons, find?_cons, hother id' hid']
    unfold GpuState.allocateElastic at h
    split at h
    · unfold SlotAllocator.allocate at h
      cases hfree : w.slots.freeList with
      | nil =>
        rw [hfree] at h
        exact hpass h
      | cons s rest =>
        rw [hfree] at h
        obtain ⟨rfl, rfl, rfl, rfl⟩ := h
        refine ⟨w, rest, by simp, hfree, rfl, rfl, by simp, ?_⟩
        intro id' hid'
        rw [find?_cons_of_neg (by simpa using Ne.symm hid'),
          find?_cons_of_neg (by simpa using Ne.symm hid')]
    · exact hpass h

theorem find?_map_zone {f : ElasticZone → ElasticZone} (hf : ∀ z, (f z).id = z.id) (id : ℕ) :
    (zones.map f).find? (fun z => z.id = id) = (zones.find? fun z => z.id = id).map f := by
  rw [find?_map]
  congr 2
  funext z
  simp [hf z]

theorem find?_eraseP_of_ne {id id' : ℕ} (hne : id' ≠ id) :
    (zones.eraseP fun z => z.id = id).find? (fun z => z.id = id') =
      zones.find? fun z => z.id = id' := by
  induction zones with
  | nil => rfl
  | cons z zones ih =>
    by_cases hz : z.id = id
    · simp [hz, Ne.symm hne]
    · rw [eraseP_cons_of_neg (by simpa using hz), find?_cons, find?_cons, ih]

theorem find?_eraseP_self (hnodup : (zones.map (·.id)).Nodup) (id : ℕ) :
    (zones.eraseP fun z => z.id = id).find? (fun z => z.id = id) = none := by
  induction zones with
  | nil => rfl
  | cons z zones ih =>
    rw [map_cons, nodup_cons] at hnodup
    by_cases hz : z.id = id
    · rw [eraseP_cons_of_pos (by simpa using hz)]
      refine find?_eq_none.2 fun w hw => ?_
      simp only [decide_eq_true_eq]
      rintro rfl
      exact hnodup.1 (hz ▸ mem_map_of_mem hw)
    · rw [eraseP_cons_of_neg (by simpa using hz),
        find?_cons_of_neg (by simpa using hz), ih hnodup.2]

theorem allocChange_freeElastic {id slot : ℕ} (hz : gs.zone? id = some z) : AllocChange layout gs
      { gs with elasticZones := GpuState.freeElastic gs.elasticZones id slot }
      (.elastic id) (slot :: z.slots.freeList) (-1) := by
  have hid : ∀ w : ElasticZone, (if w.id = id then { w with
      slots := w.slots.free slot, residentEntries := w.residentEntries - 1 } else w).id = w.id := by
    intro w
    split <;> rfl
  have hzid : z.id = id := by simpa using find?_some hz
  refine AllocChange.elastic
    { z with slots := z.slots.free slot, residentEntries := z.residentEntries - 1 }
    layout gs ?_ ?_ hz ?_ rfl rfl ?_
  · unfold GpuState.freeElastic
    rw [map_map]
    exact map_congr_left fun w _ => hid w
  · intro id' hid'
    unfold GpuState.freeElastic
    rw [find?_map_zone hid]
    cases hw : gs.elasticZones.find? fun z => z.id = id' with
    | none => rfl
    | some w =>
      have hwid : w.id = id' := by simpa using find?_some hw
      rw [Option.map_some, if_neg (by rw [hwid]; exact hid')]
  · unfold GpuState.freeElastic
    rw [find?_map_zone hid]
    have hz' : gs.elasticZones.find? (fun z => z.id = id) = some z := hz
    rw [hz', Option.map_some, if_pos hzid]
  · simp only
    omega

end LayerStorm.Memory
