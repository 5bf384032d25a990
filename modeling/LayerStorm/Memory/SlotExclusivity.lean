import LayerStorm.Lib.Run
import LayerStorm.Memory.SlotPools

/-!
# Slot exclusivity in the expert cache

No two residents of a GPU may share bytes of VRAM.  The cache keeps this through
its free lists: the slots of each pool are split between its free list and the
residents that hold them, once each.

An eviction gives the slot back by the resident's tag.  For a slot of an elastic
zone the source looks at the zone first; for the boot zones it does not, so after a
`promote` or `demote` the slot's index lands in another zone's free list.  Leaving
the spill mode declares every spill slot free, also one that a resident kept
through it, locked or retagged.

## Main results

* `slotExclusive_of_run` — every run whose calls meet the condition keeps
  exclusivity.
* `promoted_slot_shared` — without it, two residents can hold the same slot.
-/

namespace LayerStorm.Memory

open Lib
open GpuState GuardedRun ExpertCache List Option Nat SlotAllocator

variable {K : Type} [DecidableEq K]
variable {layout : GpuLayout} {gs gs' : GpuState K} {p : Home} {l : List ℕ} {d : ℤ}

/-! ### The property -/

/-- **Slot exclusivity** on one GPU. -/
structure SlotExclusive (layout : GpuLayout) (gs : GpuState K) : Prop where
  noOverlap : ∀ k k' e e', gs.residents.lookup k = some e → gs.residents.lookup k' = some e' →
    k ≠ k' → GpuState.RangesDisjoint (e.vramAddress, layout.expertBytes)
      (e'.vramAddress, layout.expertBytes)
  freeDistinct : ∀ h, (gs.allocator h).freeList.Nodup ∧
    ∀ slot ∈ (gs.allocator h).freeList, slot < (gs.allocator h).totalSlots
  freeUnoccupied : ∀ h, ∀ slot ∈ (gs.allocator h).freeList, ∀ k e, gs.residents.lookup k = some e →
      GpuState.RangesDisjoint ((gs.allocator h).address slot, layout.expertBytes)
        (e.vramAddress, layout.expertBytes)
  /-- Free slots and residents make up the capacity of each zone that is not lent
  out. -/
  capacity : ∀ h, ¬ gs.frozen h → (gs.allocator h).freeList.length +
    gs.residents.countEntries (fun _ e => gs.holds h e) = (gs.allocator h).totalSlots

/-- Slots are told apart and come home: an elastic zone is granted outside of all others, with
slots that hold an expert; an expert that is evicted is tagged as the zone its slot lies in (or
lies in an elastic zone), and the spill mode is left only when no resident holds a spill slot any
more.  The condition says nothing of any other call. -/
def SlotsComeHome (layout : ℕ → GpuLayout) (c : ExpertCache K) (a : ℕ × CacheOp K) : Prop :=
  match a.2 with
  | .evict key => ∀ e, (c.gpus a.1).residents.lookup key = some e → e.lockCount = 0 →
    returnHome e = homeOf (layout a.1) e
  | .exitSpillMode => ∀ key e, (c.gpus a.1).residents.lookup key = some e → e.inSpillZone = false
  | .addElasticZone grant => (layout a.1).expertBytes ≤ grant.slotStride ∧
    grantDisjoint (layout a.1) (c.gpus a.1) grant
  | _ => True

/-! ### Pools -/

/-- The slots of a pool that residents hold. -/
def used (layout : GpuLayout) (residents : Map K (CacheEntry K)) (h : Home) : List ℕ :=
  (residents.entries.filter fun p => homeOf layout p.2 = h).map fun p => p.2.slotIdx

variable {residents : Map K (CacheEntry K)} {k : K}

theorem used_insert (layout : GpuLayout) (hk : k ∉ residents) (e : CacheEntry K) (h : Home) :
    used layout (residents.insert k e) h =
      if homeOf layout e = h then e.slotIdx :: used layout residents h
      else used layout residents h := by
  unfold used
  rw [AList.entries_insert_of_notMem hk]
  by_cases heq : homeOf layout e = h <;> simp [heq]

variable {e : CacheEntry K}

theorem used_erase (layout : GpuLayout) (hk : residents.lookup k = some e) (h : Home) :
    (used layout residents h).Perm
      (if homeOf layout e = h then e.slotIdx :: used layout (residents.erase k) h
      else used layout (residents.erase k) h) := by
  unfold used
  refine (((Map.entries_perm hk).filter _).map _).trans ?_
  by_cases heq : homeOf layout e = h <;> simp [heq]

variable {e' : CacheEntry K}

theorem used_update (layout : GpuLayout) (hk : residents.lookup k = some e)
    (hhome : homeOf layout e' = homeOf layout e) (hslot : e'.slotIdx = e.slotIdx) (h : Home) :
    (used layout (residents.insert k e') h).Perm (used layout residents h) := by
  have hself : (residents.insert k e').lookup k = some e' := AList.lookup_insert residents
  have herase : ((residents.insert k e').erase k).entries = (residents.erase k).entries := by
    rw [Map.erase_insert_entries]
  refine (used_erase layout hself h).trans (List.Perm.trans ?_ (used_erase layout hk h).symm)
  unfold used
  rw [herase, hhome, hslot]

/-! ### The invariant -/

/-- **The cache's invariant on one GPU.** -/
structure GpuInv (layout : GpuLayout) (gs : GpuState K) : Prop where
  geo : GeoInv layout gs
  split : ∀ h, ¬ gs.frozen h → ((gs.allocator h).freeList ++ used layout gs.residents h).Perm
    (List.range (gs.allocator h).totalSlots)
  /-- A pool lent out has no free slots; residents may have stayed in it. -/
  lent : ∀ h, gs.frozen h → (gs.allocator h).freeList = [] ∧ (used layout gs.residents h).Nodup ∧
    ∀ i ∈ used layout gs.residents h, i < (gs.allocator h).totalSlots
  /-- A resident's address is that of its slot. -/
  entry : ∀ k e, gs.residents.lookup k = some e →
    e.vramAddress = (gs.allocator (homeOf layout e)).address e.slotIdx
  /-- A resident put into a spill slot is in no elastic zone. -/
  spillFlag : ∀ k e, gs.residents.lookup k = some e → e.inSpillZone = true → e.elasticZone = none
  ids : (gs.elasticZones.map (·.id)).Nodup ∧ ∀ z ∈ gs.elasticZones, z.id < gs.nextElasticId
  counts : ∀ id z, gs.zone? id = some z →
    z.residentEntries = (used layout gs.residents (.elastic id)).length

theorem GpuInv.used_nodup {gs : GpuState K} (h : GpuInv layout gs) (p : Home) :
    (used layout gs.residents p).Nodup ∧
      ∀ i ∈ used layout gs.residents p, i < (gs.allocator p).totalSlots := by
  by_cases hf : gs.frozen p
  · exact (h.lent p hf).2
  have hperm := h.split p hf
  have hnodup := hperm.nodup_iff.2 nodup_range
  refine ⟨(nodup_append.1 hnodup).2.1, fun i hi => ?_⟩
  exact mem_range.1 (hperm.mem_iff.1 (mem_append_right _ hi))

theorem slotIdx_mem_used (layout : GpuLayout) (hk : residents.lookup k = some e) :
    e.slotIdx ∈ used layout residents (homeOf layout e) := by
  refine mem_map.2 ⟨⟨k, e⟩, mem_filter.2 ⟨AList.mem_lookup_iff.1 hk, ?_⟩, rfl⟩
  simp

/-! ### Exclusivity from the invariant -/

section

variable (h : GpuInv layout gs)
include h

theorem GpuInv.slots_disjoint {i j : ℕ} (hij : i ≠ j) (hj : j < (gs.allocator p).totalSlots) :
    GpuState.RangesDisjoint ((gs.allocator p).address i, layout.expertBytes)
      ((gs.allocator p).address j, layout.expertBytes) := by
  have hstride := h.geo.stride p (by omega)
  unfold GpuState.RangesDisjoint address
  rcases lt_or_gt_of_ne hij with hlt | hlt
  · left
    have := mul_le_mul_right (gs.allocator p).slotBytes (succ_le_of_lt hlt)
    rw [succ_mul] at this
    omega
  · right
    have := mul_le_mul_right (gs.allocator p).slotBytes (succ_le_of_lt hlt)
    rw [succ_mul] at this
    omega

theorem GpuInv.pools_disjoint {p' : Home} (hne : p ≠ p') {i j : ℕ}
    (hi : i < (gs.allocator p).totalSlots) (hj : j < (gs.allocator p').totalSlots) :
    GpuState.RangesDisjoint ((gs.allocator p).address i, layout.expertBytes)
      ((gs.allocator p').address j, layout.expertBytes) := by
  have hregions := h.geo.apart p p' hne (by omega) (by omega)
  have hin := h.geo.inside p i hi
  have hin' := h.geo.inside p' j hj
  unfold GpuState.RangesDisjoint at hregions ⊢
  omega

theorem GpuInv.address_inj {p' : Home} {i j : ℕ} (hi : i < (gs.allocator p).totalSlots)
    (hj : j < (gs.allocator p').totalSlots)
    (heq : (gs.allocator p).address i = (gs.allocator p').address j) : p = p' := by
  by_contra hne
  have hdis := h.pools_disjoint hne hi hj
  have hpos := layout.expertBytes_pos
  unfold GpuState.RangesDisjoint at hdis
  omega

theorem GpuInv.holds_iff (hk : gs.residents.lookup k = some e) (p : Home) :
    gs.holds p e = true ↔ homeOf layout e = p := by
  have hslot := (h.used_nodup (homeOf layout e)).2 _ (slotIdx_mem_used layout hk)
  have haddr := h.entry k e hk
  simp only [holds, decide_eq_true_eq]
  constructor
  · rintro ⟨hlt, heq⟩
    exact h.address_inj hslot hlt (haddr.symm.trans heq)
  · rintro rfl
    exact ⟨hslot, haddr⟩

theorem GpuInv.slotIdx_ne {k' : K} (hk : gs.residents.lookup k = some e)
    (hk' : gs.residents.lookup k' = some e') (hne : k ≠ k')
    (hhome : homeOf layout e = homeOf layout e') : e.slotIdx ≠ e'.slotIdx := by
  intro heq
  have hnodup := (h.used_nodup (homeOf layout e)).1
  rw [(used_erase layout hk _).nodup_iff, if_pos rfl, nodup_cons] at hnodup
  have hrest : (gs.residents.erase k).lookup k' = some e' :=
    Map.lookup_erase_iff.2 ⟨hne.symm, hk'⟩
  have hmem := slotIdx_mem_used layout hrest
  rw [← hhome, ← heq] at hmem
  exact hnodup.1 hmem

theorem GpuInv.exclusive : SlotExclusive layout gs where
  noOverlap := by
    intro k k' e e' hk hk' hne
    have hslot := (h.used_nodup (homeOf layout e)).2 _ (slotIdx_mem_used layout hk)
    have hslot' := (h.used_nodup (homeOf layout e')).2 _ (slotIdx_mem_used layout hk')
    rw [h.entry k e hk, h.entry k' e' hk']
    by_cases hhome : homeOf layout e = homeOf layout e'
    · have hslots := h.slotIdx_ne hk hk' hne hhome
      rw [hhome]
      exact h.slots_disjoint hslots hslot'
    · exact h.pools_disjoint hhome hslot hslot'
  freeDistinct := by
    intro p
    by_cases hf : gs.frozen p
    · rw [(h.lent p hf).1]
      exact ⟨nodup_nil, fun _ hi => absurd hi not_mem_nil⟩
    have hperm := h.split p hf
    have hnodup := hperm.nodup_iff.2 nodup_range
    refine ⟨(nodup_append.1 hnodup).1, fun i hi => ?_⟩
    exact mem_range.1 (hperm.mem_iff.1 (mem_append_left _ hi))
  freeUnoccupied := by
    intro p slot hslot k e hk
    by_cases hf : gs.frozen p
    · rw [(h.lent p hf).1] at hslot
      exact absurd hslot not_mem_nil
    have hperm := h.split p hf
    have hfree := mem_range.1 (hperm.mem_iff.1 (mem_append_left _ hslot))
    have hheld := (h.used_nodup (homeOf layout e)).2 _ (slotIdx_mem_used layout hk)
    rw [h.entry k e hk]
    by_cases hhome : p = homeOf layout e
    · subst hhome
      -- the free list and the slots held have nothing in common
      have hnodup := hperm.nodup_iff.2 nodup_range
      have hne := (nodup_append.1 hnodup).2.2 slot hslot _ (slotIdx_mem_used layout hk)
      exact h.slots_disjoint hne hheld
    · exact h.pools_disjoint hhome hfree hheld
  capacity := by
    intro p hf
    have hcount : gs.residents.countEntries (fun _ e => gs.holds p e) =
        (used layout gs.residents p).length := by
      unfold Map.countEntries used
      rw [length_map, ← countP_eq_length_filter]
      refine countP_congr fun x hx => ?_
      rw [h.holds_iff (AList.mem_lookup_iff.2 hx) p, decide_eq_true_eq]
    have hlen := (h.split p hf).length_eq
    rw [length_append, length_range] at hlen
    rw [hcount, hlen]

end

/-! ### Moves -/

theorem AllocChange.ids_lt (hc : AllocChange layout gs gs' p l d) (h : GpuInv layout gs) :
    (gs'.elasticZones.map (·.id)).Nodup ∧ ∀ z ∈ gs'.elasticZones, z.id < gs'.nextElasticId := by
  rw [hc.ids, hc.nextElasticId]
  refine ⟨h.ids.1, fun z hz => ?_⟩
  have hid : z.id ∈ gs'.elasticZones.map (·.id) := mem_map_of_mem hz
  rw [hc.ids] at hid
  obtain ⟨z', hz', heq⟩ := mem_map.1 hid
  rw [← heq]
  exact h.ids.2 z' hz'

variable {slot : ℕ}

section

variable (h : GpuInv layout gs)
include h

/-- **Taking a slot**: the top of a pool's free list goes to a new resident. -/
theorem GpuInv.take {rest : List ℕ} (hc : AllocChange layout gs gs' p rest 1)
    (hfree : (gs.allocator p).freeList = slot :: rest) (hnew : e.key ∉ gs.residents)
    (hhome : homeOf layout e = p) (hslot : e.slotIdx = slot)
    (haddr : e.vramAddress = (gs.allocator p).address slot)
    (hflag : e.inSpillZone = true → e.elasticZone = none) :
    GpuInv layout (gs'.addResident e) := by
  -- a frozen pool has no free slot to take
  have hthawed : ¬ gs.frozen p := fun hf => by
    rw [(h.lent p hf).1] at hfree
    cases hfree
  have hused : ∀ p', used layout (gs'.addResident e).residents p' =
      if p = p' then slot :: used layout gs.residents p' else used layout gs.residents p' := by
    intro p'
    show used layout (gs'.residents.insert e.key e) p' = _
    rw [hc.residents, used_insert layout hnew, hhome, hslot]
  have hgeo := hc.geo h.geo
  refine ⟨{ hgeo with }, ?split, ?lent, ?entry, ?spillFlag, hc.ids_lt h, ?counts⟩
  case split =>
    intro p' hf
    rw [hused p']
    show ((gs'.allocator p').freeList ++ _).Perm (range (gs'.allocator p').totalSlots)
    rw [hc.freeList, hc.totalSlots]
    have hold := h.split p' (fun hf' => hf ((hc.frozen_iff p').2 hf'))
    by_cases hp : p' = p
    · subst hp
      rw [if_pos rfl, if_pos rfl]
      rw [hfree] at hold
      exact perm_middle.trans hold
    · rw [if_neg hp, if_neg (Ne.symm hp)]
      exact hold
  case lent =>
    intro p' hf
    have hf' : gs.frozen p' := (hc.frozen_iff p').1 hf
    have hp : p' ≠ p := fun heq => hthawed (heq ▸ hf')
    rw [hused p', if_neg (Ne.symm hp)]
    show (gs'.allocator p').freeList = [] ∧ _ ∧ ∀ i ∈ _, i < (gs'.allocator p').totalSlots
    rw [hc.freeList, if_neg hp, hc.totalSlots]
    exact h.lent p' hf'
  case entry =>
    intro k e' hk
    show e'.vramAddress = (gs'.allocator _).address _
    rw [hc.address]
    have hk' : (gs'.residents.insert e.key e).lookup k = some e' := hk
    rw [hc.residents] at hk'
    rcases Map.lookup_insert_iff.1 hk' with ⟨_, rfl⟩ | ⟨_, hold⟩
    · rw [hhome, hslot, haddr]
    · exact h.entry k e' hold
  case spillFlag =>
    intro k e' hk
    have hk' : (gs'.residents.insert e.key e).lookup k = some e' := hk
    rw [hc.residents] at hk'
    rcases Map.lookup_insert_iff.1 hk' with ⟨_, rfl⟩ | ⟨_, hold⟩
    · exact hflag
    · exact h.spillFlag k e' hold
  case counts =>
    intro id z' hz'
    obtain ⟨z, hz, hcount⟩ := hc.counts id z' hz'
    rw [hused, hcount, h.counts id z hz]
    by_cases hp : p = .elastic id
    · rw [if_pos hp, if_pos hp]
      rfl
    · rw [if_neg hp, if_neg hp, add_zero]

/-- **Giving a slot back**: a resident leaves and its slot goes on top of the free
list of its home. -/
theorem GpuInv.give (hk : gs.residents.lookup k = some e)
    (hc : AllocChange layout gs gs' (homeOf layout e)
      (e.slotIdx :: (gs.allocator (homeOf layout e)).freeList) (-1))
    (hthawed : ¬ gs.frozen (homeOf layout e)) : GpuInv layout (gs'.eraseResident k e) := by
  have hused : ∀ p', (used layout gs.residents p').Perm
      (if homeOf layout e = p' then e.slotIdx :: used layout (gs'.eraseResident k e).residents p'
      else used layout (gs'.eraseResident k e).residents p') := by
    intro p'
    show (used layout gs.residents p').Perm
      (if _ then _ :: used layout (gs'.residents.erase k) p' else
        used layout (gs'.residents.erase k) p')
    rw [hc.residents]
    exact used_erase layout hk p'
  have hgeo := hc.geo h.geo
  refine ⟨{ hgeo with }, ?split, ?lent, ?entry, ?spillFlag, hc.ids_lt h, ?counts⟩
  case split =>
    intro p' hf
    show ((gs'.allocator p').freeList ++ _).Perm (range (gs'.allocator p').totalSlots)
    rw [hc.freeList, hc.totalSlots]
    have hold := h.split p' (fun hf' => hf ((hc.frozen_iff p').2 hf'))
    refine List.Perm.trans ?_ ((List.Perm.append_left _ (hused p').symm).trans hold)
    by_cases hp : p' = homeOf layout e
    · subst hp
      rw [if_pos rfl, if_pos rfl]
      exact perm_middle.symm
    · rw [if_neg hp, if_neg (Ne.symm hp)]
  case lent =>
    intro p' hf
    have hf' : gs.frozen p' := (hc.frozen_iff p').1 hf
    have hp : p' ≠ homeOf layout e := fun heq => hthawed (heq ▸ hf')
    have hperm := hused p'
    rw [if_neg (Ne.symm hp)] at hperm
    obtain ⟨hnil, hnodup, hlt⟩ := h.lent p' hf'
    show (gs'.allocator p').freeList = [] ∧ _ ∧ ∀ i ∈ _, i < (gs'.allocator p').totalSlots
    rw [hc.freeList, if_neg hp, hc.totalSlots]
    exact ⟨hnil, hperm.nodup_iff.1 hnodup, fun i hi => hlt i (hperm.mem_iff.2 hi)⟩
  case entry =>
    intro k' e' hk'
    show e'.vramAddress = (gs'.allocator _).address _
    rw [hc.address]
    have hlook : (gs'.residents.erase k).lookup k' = some e' := hk'
    rw [hc.residents] at hlook
    exact h.entry k' e' (Map.lookup_erase_iff.1 hlook).2
  case spillFlag =>
    intro k' e' hk'
    have hlook : (gs'.residents.erase k).lookup k' = some e' := hk'
    rw [hc.residents] at hlook
    exact h.spillFlag k' e' (Map.lookup_erase_iff.1 hlook).2
  case counts =>
    intro id z' hz'
    obtain ⟨z, hz, hcount⟩ := hc.counts id z' hz'
    have hlen := (hused (.elastic id)).length_eq
    rw [hcount, h.counts id z hz, hlen]
    by_cases hp : homeOf layout e = .elastic id
    · rw [if_pos hp, if_pos hp, length_cons]
      omega
    · rw [if_neg hp, if_neg hp, add_zero]

theorem GpuInv.drop (hk : gs.residents.lookup k = some e) (hf : gs.frozen (homeOf layout e)) :
    GpuInv layout (gs.eraseResident k e) := by
  have hused : ∀ p', (used layout gs.residents p').Perm
      (if homeOf layout e = p' then e.slotIdx :: used layout (gs.residents.erase k) p'
      else used layout (gs.residents.erase k) p') := used_erase layout hk
  refine ⟨{ h.geo with }, ?split, ?lent, ?entry, ?spillFlag, h.ids, ?counts⟩
  case split =>
    intro p' hf'
    have hp : homeOf layout e ≠ p' := fun heq => hf' (heq ▸ hf)
    have hperm := hused p'
    rw [if_neg hp] at hperm
    exact (List.Perm.append_left _ hperm.symm).trans (h.split p' hf')
  case lent =>
    intro p' hf'
    obtain ⟨hnil, hnodup, hlt⟩ := h.lent p' hf'
    have hsub : (used layout (gs.residents.erase k) p').Sublist
        (if homeOf layout e = p' then e.slotIdx :: used layout (gs.residents.erase k) p'
        else used layout (gs.residents.erase k) p') := by
      split
      · exact sublist_cons_self _ _
      · exact List.Sublist.refl _
    exact ⟨hnil, hsub.nodup ((hused p').nodup_iff.1 hnodup),
      fun i hi => hlt i ((hused p').mem_iff.2 (hsub.subset hi))⟩
  case entry =>
    intro k' e' hk'
    exact h.entry k' e' (Map.lookup_erase_iff.1 hk').2
  case spillFlag =>
    intro k' e' hk'
    exact h.spillFlag k' e' (Map.lookup_erase_iff.1 hk').2
  case counts =>
    intro id z hz
    have hp : homeOf layout e ≠ .elastic id := by
      rw [hf.1]
      exact Home.noConfusion
    have hperm := hused (.elastic id)
    rw [if_neg hp] at hperm
    rw [h.counts id z hz, hperm.length_eq]
    rfl

theorem GpuInv.updateEntry (k : K) {f : CacheEntry K → CacheEntry K}
    (hhome : ∀ e, homeOf layout (f e) = homeOf layout e) (hslot : ∀ e, (f e).slotIdx = e.slotIdx)
    (haddr : ∀ e, (f e).vramAddress = e.vramAddress)
    (hflag : ∀ e, (e.inSpillZone = true → e.elasticZone = none) →
      (f e).inSpillZone = true → (f e).elasticZone = none) :
    GpuInv layout (gs.updateEntry k f) := by
  unfold GpuState.updateEntry
  split
  · exact h
  rename_i e hk
  have hused := used_update layout hk (hhome e) (hslot e)
  refine ⟨{ h.geo with }, ?split, ?lent, ?entry, ?spillFlag, h.ids, ?counts⟩
  case split =>
    intro p' hf
    exact (List.Perm.append_left _ (hused p')).trans (h.split p' hf)
  case lent =>
    intro p' hf
    obtain ⟨hnil, hnodup, hlt⟩ := h.lent p' hf
    exact ⟨hnil, (hused p').nodup_iff.2 hnodup, fun i hi => hlt i ((hused p').mem_iff.1 hi)⟩
  case entry =>
    intro k' e' hk'
    rcases Map.lookup_insert_iff.1 hk' with ⟨rfl, rfl⟩ | ⟨_, hold⟩
    · rw [haddr, hhome, hslot]
      exact h.entry k' e hk
    · exact h.entry k' e' hold
  case spillFlag =>
    intro k' e' hk'
    rcases Map.lookup_insert_iff.1 hk' with ⟨rfl, rfl⟩ | ⟨_, hold⟩
    · exact hflag e (h.spillFlag k' e hk)
    · exact h.spillFlag k' e' hold
  case counts =>
    intro id z hz
    rw [h.counts id z hz]
    exact congrArg Nat.cast (hused (.elastic id)).length_eq.symm

/-! ### The operations -/

theorem GpuInv.free_lt (hslot : slot ∈ (gs.allocator p).freeList) :
    slot < (gs.allocator p).totalSlots :=
  (h.exclusive.freeDistinct p).2 slot hslot

theorem GpuInv.homeOf_stable (hslot : slot ∈ gs.stableSlots.freeList) (he : e.elasticZone = none)
    (hs : e.inSpillZone = false) (haddr : e.vramAddress = gs.stableSlots.address slot) :
    homeOf layout e = .stable := by
  have hin := h.geo.inside .stable slot (h.free_lt hslot)
  have hpos := layout.expertBytes_pos
  simp only [allocator, region] at hin
  unfold homeOf
  rw [he, hs]
  simp only [Bool.false_eq_true, if_false]
  rw [if_pos (by omega)]

theorem GpuInv.homeOf_prefetch (hslot : slot ∈ gs.prefetchSlots.freeList)
    (he : e.elasticZone = none) (hs : e.inSpillZone = false)
    (haddr : e.vramAddress = gs.prefetchSlots.address slot) :
    homeOf layout e = .prefetch := by
  have hin := h.geo.inside .prefetch slot (h.free_lt hslot)
  have hpos := layout.expertBytes_pos
  have hdis := layout.disjoint
  simp only [allocator, region] at hin
  unfold homeOf
  rw [he, hs]
  simp only [Bool.false_eq_true, if_false]
  rw [if_neg (by omega)]

theorem GpuInv.reserve (key : K) (gpu : ℕ) (zone : CacheZone) (isDuplicate : Bool) :
    GpuInv layout (gs.reserve key gpu zone isDuplicate).1 := by
  unfold GpuState.reserve
  split
  · exact h
  rename_i hnew
  -- the prefetch branch is reached in two ways
  have hprefetch : ∀ slot rest, gs.prefetchSlots.freeList = slot :: rest →
      GpuInv layout ({ gs with prefetchSlots := { gs.prefetchSlots with freeList := rest } }.addResident
        (⟨key, gpu, .streaming, isDuplicate, false, 0, gs.prefetchSlots.address slot, slot, 0,
          none⟩ : CacheEntry K)) := by
    intro slot rest hfree
    exact h.take (AllocChange.prefetch layout gs rest 1) hfree hnew
      (h.homeOf_prefetch (by rw [hfree]; exact mem_cons_self) rfl rfl rfl) rfl rfl
      (by intro hs; cases hs)
  unfold allocate
  cases zone with
  | streaming =>
    cases hpre : gs.prefetchSlots.freeList with
    | nil =>
      simp only
      split
      · exact h
      cases hfree : gs.spillSlots.freeList with
      | nil => exact h
      | cons slot rest =>
        exact h.take (AllocChange.spill layout gs rest 1) hfree hnew rfl rfl rfl (fun _ => rfl)
    | cons slot₀ rest₀ =>
      simp only
      split
      · exact hprefetch slot₀ rest₀ hpre
      cases hfree : gs.spillSlots.freeList with
      | nil => exact hprefetch slot₀ rest₀ hpre
      | cons slot rest =>
        exact h.take (AllocChange.spill layout gs rest 1) hfree hnew rfl rfl rfl (fun _ => rfl)
  | stable =>
    cases hfree : gs.stableSlots.freeList with
    | cons slot rest =>
      exact h.take (AllocChange.stable layout gs rest 1) hfree hnew
        (h.homeOf_stable (by rw [hfree]; exact mem_cons_self) rfl rfl rfl) rfl rfl
        (by intro hs; cases hs)
    | nil =>
      simp only
      split
      · rename_i id slot addr zones hel
        obtain ⟨z, rest, hz, hzfree, haddr, hids, hz', hother⟩ :=
          allocateElastic_spec h.ids.1 hel
        have hzone : gs.zone? id = some z := hz
        have hc : AllocChange layout gs { gs with elasticZones := zones } (.elastic id) rest 1 :=
          AllocChange.elastic _ layout gs hids hother hz hz' rfl rfl rfl
        have halloc : gs.allocator (.elastic id) = z.slots := by
          simp only [GpuState.allocator, hzone, elim_some]
        exact h.take hc (by rw [halloc, hzfree]) hnew rfl rfl (by rw [halloc, haddr])
          (by intro hs; cases hs)
      · exact h

theorem GpuInv.evict {key : K} (hhome : ∀ e, gs.residents.lookup key = some e → e.lockCount = 0 →
      returnHome e = homeOf layout e) : GpuInv layout (gs.evict key).1 := by
  unfold GpuState.evict
  split
  · exact h
  rename_i e hk
  split
  · exact h
  have hret := hhome e hk (by omega)
  unfold GpuState.returnSlot
  unfold returnHome at hret
  cases he : e.elasticZone with
  | some id =>
    rw [he] at hret
    -- the zone exists, since the resident's slot is one of its slots
    have hslot := (h.used_nodup (homeOf layout e)).2 _ (slotIdx_mem_used layout hk)
    rw [← hret] at hslot
    cases hz : gs.zone? id with
    | none =>
      simp [GpuState.allocator, hz] at hslot
    | some z =>
      have halloc : (gs.allocator (homeOf layout e)).freeList = z.slots.freeList := by
        rw [← hret]
        simp only [GpuState.allocator, hz, elim_some]
      refine h.give hk ?_ (fun hf => ?_)
      · rw [halloc, ← hret]
        exact allocChange_freeElastic hz
      · rw [← hret] at hf
        exact Home.noConfusion hf.1
  | none =>
    rw [he] at hret
    cases hzone : e.zone with
    | stable =>
      rw [hzone] at hret
      refine h.give hk ?_ (fun hf => ?_)
      · rw [← hret]
        exact AllocChange.stable layout gs _ _
      · rw [← hret] at hf
        exact Home.noConfusion hf.1
    | streaming =>
      rw [hzone] at hret
      simp only at hret ⊢
      split
      · rename_i hspill
        rw [if_pos hspill] at hret
        split
        · rename_i hmode
          exact h.drop hk ⟨hret.symm, hmode⟩
        rename_i hmode
        refine h.give hk ?_ (fun hf => hmode hf.2)
        rw [← hret]
        exact AllocChange.spill layout gs _ _
      · rename_i hspill
        rw [if_neg hspill] at hret
        refine h.give hk ?_ (fun hf => ?_)
        · rw [← hret]
          exact AllocChange.prefetch layout gs _ _
        · rw [← hret] at hf
          exact Home.noConfusion hf.1

/-- `promote` keeps the invariant: the slot stays where it is. -/
theorem GpuInv.promote (key : K) : GpuInv layout (gs.promote key).1 := by
  unfold GpuState.promote
  split
  · split
    · exact h.updateEntry key (fun _ => rfl) (fun _ => rfl) (fun _ => rfl) fun _ h => h
    · exact h
  · exact h

/-- `demote` keeps the invariant: the slot stays where it is. -/
theorem GpuInv.demote (key : K) : GpuInv layout (gs.demote key).1 := by
  unfold GpuState.demote
  split
  · split
    · exact h.updateEntry key (fun _ => rfl) (fun _ => rfl) (fun _ => rfl) fun _ h => h
    · exact h
  · exact h

theorem GpuInv.touch (hc : AllocChange layout gs gs' p (gs.allocator p).freeList 0) :
    GpuInv layout gs' := by
  have hfree : ∀ p', (gs'.allocator p').freeList = (gs.allocator p').freeList := by
    intro p'
    rw [hc.freeList]
    split
    · rename_i hp
      rw [hp]
    · rfl
  refine ⟨hc.geo h.geo, ?split, ?lent, ?entry, ?spillFlag, hc.ids_lt h, ?counts⟩
  case split =>
    intro p' hf
    rw [hfree, hc.totalSlots, hc.residents]
    exact h.split p' (fun hf' => hf ((hc.frozen_iff p').2 hf'))
  case lent =>
    intro p' hf
    rw [hfree, hc.totalSlots, hc.residents]
    exact h.lent p' ((hc.frozen_iff p').1 hf)
  case entry =>
    intro k e hk
    rw [hc.residents] at hk
    rw [hc.address]
    exact h.entry k e hk
  case spillFlag =>
    intro k e hk
    rw [hc.residents] at hk
    exact h.spillFlag k e hk
  case counts =>
    intro id z' hz'
    obtain ⟨z, hz, hcount⟩ := hc.counts id z' hz'
    rw [hc.residents, hcount, h.counts id z hz, ite_self, add_zero]

theorem GpuInv.beginDrainElasticZone (id : ℕ) : GpuInv layout (gs.beginDrainElasticZone id).1 := by
  unfold GpuState.beginDrainElasticZone
  split
  · rename_i hany
    obtain ⟨w, hw, hwid⟩ := any_eq_true.1 hany
    have hsome : (gs.zone? id).isSome := find?_isSome.2 ⟨w, hw, hwid⟩
    obtain ⟨z, hz⟩ : ∃ z, gs.zone? id = some z := isSome_iff_exists.1 hsome
    have hid : ∀ w : ElasticZone,
        (if w.id = id then { w with state := .draining } else w).id = w.id := by
      intro w
      split <;> rfl
    have hfind : gs.elasticZones.find? (fun z => z.id = id) = some z := hz
    have hzid : z.id = id := by simpa using find?_some hfind
    refine h.touch (p := .elastic id) ?_
    have halloc : gs.allocator (.elastic id) = z.slots := by
      simp only [GpuState.allocator, hz, elim_some]
    rw [halloc]
    refine AllocChange.elastic { z with state := .draining } layout gs ?_ ?_ hz ?_ rfl rfl ?_
    · rw [List.map_map]
      exact map_congr_left fun w _ => hid w
    · intro id' hid'
      rw [find?_map_zone hid]
      cases hw : gs.elasticZones.find? fun z => z.id = id' with
      | none => rfl
      | some w =>
        have hwid : w.id = id' := by simpa using find?_some hw
        rw [map_some, if_neg (by rw [hwid]; exact hid')]
    · rw [find?_map_zone hid, hfind, map_some, if_pos hzid]
    · simp only [add_zero]
  · exact h

theorem GpuInv.used_of_none {id : ℕ} (hz : gs.zone? id = none) :
    used layout gs.residents (.elastic id) = [] := by
  have hperm := h.split (.elastic id) (fun hf => Home.noConfusion hf.1)
  have halloc : gs.allocator (.elastic id) = ⟨0, 0, 0, []⟩ := by
    simp only [allocator, hz, elim_none]
  rw [halloc] at hperm
  exact perm_nil.1 hperm

theorem GpuInv.zone?_next : gs.zone? gs.nextElasticId = none := by
  refine find?_eq_none.2 fun z hz => ?_
  have := h.ids.2 z hz
  simp only [decide_eq_true_eq]
  omega

theorem GpuInv.rezone {zones : List ElasticZone} {next : ℕ} (id : ℕ) (hother : ∀ id', id' ≠ id →
      zones.find? (fun z => z.id = id') = gs.elasticZones.find? fun z => z.id = id')
    (hempty : used layout gs.residents (.elastic id) = [])
    (hids : (zones.map (·.id)).Nodup ∧ ∀ z ∈ zones, z.id < next)
    (hzone : ∀ z, zones.find? (fun z => z.id = id) = some z → z.residentEntries = 0 ∧
      z.slots.freeList = range z.slots.totalSlots ∧ layout.expertBytes ≤ z.slots.slotBytes ∧
      (∀ i < z.slots.totalSlots, z.base ≤ z.slots.address i ∧
        z.slots.address i + layout.expertBytes ≤ z.base + z.bytes) ∧
      ∀ p', p' ≠ .elastic id → 0 < (gs.allocator p').totalSlots →
        GpuState.RangesDisjoint (z.base, z.bytes) (gs.region layout p')) :
    GpuInv layout { gs with elasticZones := zones, nextElasticId := next } := by
  have hzother : ∀ id', id' ≠ id → zone? ({ gs with
      elasticZones := zones, nextElasticId := next } : GpuState K) id' = gs.zone? id' := hother
  have halloc : ∀ p', p' ≠ .elastic id → allocator ({ gs with
      elasticZones := zones, nextElasticId := next } : GpuState K) p' = gs.allocator p' := by
    intro p' hp'
    cases p' with
    | elastic id' =>
      have hne : id' ≠ id := fun heq => hp' (by rw [heq])
      simp only [allocator, hzother id' hne]
    | _ => rfl
  have hregion : ∀ p', p' ≠ .elastic id → region layout ({ gs with
      elasticZones := zones, nextElasticId := next } : GpuState K) p' =
      gs.region layout p' := by
    intro p' hp'
    cases p' with
    | elastic id' =>
      have hne : id' ≠ id := fun heq => hp' (by rw [heq])
      simp only [region, hzother id' hne]
    | _ => rfl
  -- the zone that changes: either gone, or new with all slots free
  have hnew : ∀ z, zones.find? (fun z => z.id = id) = some z →
      allocator ({ gs with elasticZones := zones, nextElasticId := next } : GpuState K)
          (.elastic id) = z.slots ∧
        region layout ({ gs with
          elasticZones := zones, nextElasticId := next } : GpuState K) (.elastic id) =
          (z.base, z.bytes) := by
    intro z hz
    simp only [allocator, region, zone?, hz, elim_some, and_self]
  have hgone : zones.find? (fun z => z.id = id) = none →
      allocator ({ gs with elasticZones := zones, nextElasticId := next } : GpuState K)
        (.elastic id) = ⟨0, 0, 0, []⟩ := by
    intro hz
    simp only [allocator, zone?, hz, elim_none]
  refine ⟨⟨?_, ?_, ?_⟩, ?_, ?_, ?_, h.spillFlag, hids, ?_⟩
  · intro p' i hi
    by_cases hp' : p' = .elastic id
    · subst hp'
      cases hz : zones.find? fun z => z.id = id with
      | none =>
        rw [hgone hz] at hi
        exact absurd hi (not_lt_zero _)
      | some z =>
        rw [(hnew z hz).1] at hi ⊢
        rw [(hnew z hz).2]
        exact (hzone z hz).2.2.2.1 i hi
    · rw [halloc p' hp'] at hi ⊢
      rw [hregion p' hp']
      exact h.geo.inside p' i hi
  · intro p' hpos
    by_cases hp' : p' = .elastic id
    · subst hp'
      cases hz : zones.find? fun z => z.id = id with
      | none =>
        rw [hgone hz] at hpos
        exact absurd hpos (not_lt_zero _)
      | some z =>
        rw [(hnew z hz).1]
        exact (hzone z hz).2.2.1
    · rw [halloc p' hp'] at hpos ⊢
      exact h.geo.stride p' hpos
  · intro p' p'' hne hpos hpos'
    have hsplit : ∀ q, q ≠ .elastic id → 0 < (gs.allocator q).totalSlots → 0 < (allocator ({ gs with
          elasticZones := zones, nextElasticId := next } : GpuState K) (.elastic id)).totalSlots →
        GpuState.RangesDisjoint (region layout ({ gs with
          elasticZones := zones, nextElasticId := next } : GpuState K) (.elastic id))
          (gs.region layout q) := by
      intro q hq hqpos hidpos
      cases hz : zones.find? fun z => z.id = id with
      | none =>
        rw [hgone hz] at hidpos
        exact absurd hidpos (not_lt_zero _)
      | some z =>
        rw [(hnew z hz).2]
        exact (hzone z hz).2.2.2.2 q hq hqpos
    by_cases hp' : p' = .elastic id
    · subst hp'
      have hp'' : p'' ≠ .elastic id := Ne.symm hne
      rw [halloc p'' hp''] at hpos'
      rw [hregion p'' hp'']
      exact hsplit p'' hp'' hpos' hpos
    · rw [halloc p' hp'] at hpos
      rw [hregion p' hp']
      by_cases hp'' : p'' = .elastic id
      · subst hp''
        exact (hsplit p' hp' hpos hpos').symm
      · rw [halloc p'' hp''] at hpos'
        rw [hregion p'' hp'']
        exact h.geo.apart p' p'' hne hpos hpos'
  · intro p' hf
    by_cases hp' : p' = .elastic id
    · subst hp'
      rw [hempty, append_nil]
      cases hz : zones.find? fun z => z.id = id with
      | none =>
        rw [hgone hz]
        exact List.Perm.refl _
      | some z =>
        rw [(hnew z hz).1, (hzone z hz).2.1]
    · rw [halloc p' hp']
      exact h.split p' hf
  · intro p' hf
    have hp' : p' ≠ .elastic id := by
      rw [hf.1]
      exact Home.noConfusion
    rw [halloc p' hp']
    exact h.lent p' hf
  · intro k e hk
    by_cases hp' : homeOf layout e = .elastic id
    · have hmem := slotIdx_mem_used layout hk
      rw [hp', hempty] at hmem
      exact absurd hmem not_mem_nil
    · rw [halloc _ hp']
      exact h.entry k e hk
  · intro id' z hz
    by_cases hid : id' = id
    · subst hid
      rw [hempty, (hzone z hz).1]
      rfl
    · rw [hzother id' hid] at hz
      exact h.counts id' z hz

theorem GpuInv.addElasticZone {g : GpuState.ZoneGrant} (hfit : layout.expertBytes ≤ g.slotStride)
    (hapart : grantDisjoint layout gs g) (hstep : gs.addElasticZone layout g = some gs') :
    GpuInv layout gs' := by
  obtain ⟨hboot, hzones⟩ := hapart
  unfold GpuState.addElasticZone at hstep
  split at hstep
  · rename_i hcond
    obtain ⟨_, hstride, hslots, hbytes⟩ := hcond
    cases hstep
    have hnext := h.zone?_next
    have hfind : (gs.elasticZones ++ [(⟨gs.nextElasticId, g.base, g.bytes, g.slotStride, .active,
        initWithCount (g.base + GpuState.basePad g.base) g.slotStride g.numSlots, 0,
        g.cookie⟩ : ElasticZone)]).find? (fun z => z.id = gs.nextElasticId) =
        some ⟨gs.nextElasticId, g.base, g.bytes, g.slotStride, .active,
          initWithCount (g.base + GpuState.basePad g.base) g.slotStride g.numSlots,
          0, g.cookie⟩ := by
      have hnone : gs.elasticZones.find? (fun z => z.id = gs.nextElasticId) = none := hnext
      rw [find?_append, hnone]
      simp
    refine h.rezone gs.nextElasticId ?_ (h.used_of_none hnext) ⟨?_, ?_⟩ ?_
    · intro id' hid'
      simp [Ne.symm hid']
    · rw [map_append, nodup_append]
      refine ⟨h.ids.1, nodup_singleton _, ?_⟩
      intro id' hid' id'' hid''
      obtain ⟨z, hz, rfl⟩ := mem_map.1 hid'
      obtain rfl : id'' = gs.nextElasticId := by simpa using hid''
      exact (h.ids.2 z hz).ne
    · intro z hz
      rcases mem_append.1 hz with hz | hz
      · exact lt_succ_of_lt (h.ids.2 z hz)
      · obtain rfl := mem_singleton.1 hz
        exact lt_succ_self _
    · intro z hz
      rw [hfind, some.injEq] at hz
      subst hz
      refine ⟨rfl, rfl, hfit, ?_, ?_⟩
      · intro i hi
        simp only [initWithCount, if_pos hstride] at hi
        simp only [initWithCount, address]
        have hle : i * g.slotStride ≤ (g.numSlots - 1) * g.slotStride :=
          mul_le_mul_right _ (by omega)
        omega
      · intro p' hp' hpos
        cases p' with
        | stable => exact hboot _ (by simp [GpuState.bootRanges, GpuState.region])
        | spill => exact hboot _ (by simp [GpuState.bootRanges, GpuState.region])
        | prefetch => exact hboot _ (by simp [GpuState.bootRanges, GpuState.region])
        | elastic id' =>
          cases hz : gs.zone? id' with
          | none =>
            simp [GpuState.allocator, hz] at hpos
          | some z =>
            simp only [GpuState.region, hz]
            exact hzones z (mem_of_find?_eq_some hz)
  · cases hstep

theorem GpuInv.removeElasticZone (id : ℕ) : GpuInv layout (gs.removeElasticZone id).1 := by
  unfold GpuState.removeElasticZone
  split
  · exact h
  rename_i z hz
  split
  · exact h
  rename_i hcount
  have hempty : used layout gs.residents (.elastic id) = [] := by
    have := h.counts id z hz
    rw [not_not.1 hcount] at this
    exact length_eq_zero_iff.1 (by exact_mod_cast this.symm)
  have hsub : (gs.elasticZones.eraseP fun z => z.id = id).Sublist gs.elasticZones :=
    eraseP_sublist
  have hgone : (gs.elasticZones.eraseP fun z => z.id = id).find? (fun z => z.id = id) = none :=
    find?_eraseP_self h.ids.1 id
  refine h.rezone id ?_ hempty ⟨?_, ?_⟩ ?_
  · intro id' hid'
    exact find?_eraseP_of_ne hid'
  · exact (hsub.map _).nodup h.ids.1
  · exact fun w hw => h.ids.2 w (hsub.subset hw)
  · intro w hw
    rw [hgone] at hw
    cases hw

end

/-! ### Spill mode -/

/-- Freezing the spill slots. -/
def freeze (gs : GpuState K) : GpuState K :=
  { gs with spillSlots := { gs.spillSlots with freeList := [] }, mode := .spillActive }

theorem GpuInv.freeze (h : GpuInv layout gs) (hmode : gs.mode = .normal) :
    GpuInv layout (Memory.freeze gs) := by
  have hthawed : ∀ p', ¬ gs.frozen p' := by
    rintro p' ⟨_, hm⟩
    rw [hmode] at hm
    cases hm
  have hfrozen : ∀ p', (Memory.freeze gs).frozen p' ↔ p' = .spill := by
    intro p'
    simp [frozen, Memory.freeze]
  have hc := AllocChange.spill layout gs [] 0
  have hgeo := hc.geo h.geo
  refine ⟨{ hgeo with }, ?_, ?_, ?_, h.spillFlag, h.ids, h.counts⟩
  · intro p' hf
    have hp' : p' ≠ .spill := fun heq => hf ((hfrozen p').2 heq)
    cases p' with
    | spill => exact absurd rfl hp'
    | stable => exact h.split .stable (hthawed _)
    | prefetch => exact h.split .prefetch (hthawed _)
    | elastic id => exact h.split (.elastic id) (hthawed _)
  · intro p' hf
    obtain rfl := (hfrozen p').1 hf
    exact ⟨rfl, h.used_nodup .spill⟩
  · intro k e hk
    exact (h.entry k e hk).trans (hc.address _ _).symm

theorem foldl_eraseResident_freeze (dropped : List (Σ _ : K, CacheEntry K)) :
    ∀ gs : GpuState K, freeze (dropped.foldl (fun gs q => gs.eraseResident q.1 q.2) gs) =
      dropped.foldl (fun gs q => gs.eraseResident q.1 q.2) (freeze gs) := by
  induction dropped with
  | nil => exact fun _ => rfl
  | cons q dropped ih => exact fun gs => ih (gs.eraseResident q.1 q.2)

theorem GpuInv.dropAll (dropped : List (Σ _ : K, CacheEntry K)) :
    ∀ {gs : GpuState K}, GpuInv layout gs → (dropped.map (·.1)).Nodup →
      (∀ q ∈ dropped, gs.residents.lookup q.1 = some q.2 ∧ gs.frozen (homeOf layout q.2)) →
      GpuInv layout (dropped.foldl (fun gs q => gs.eraseResident q.1 q.2) gs) := by
  induction dropped with
  | nil => exact fun h _ _ => h
  | cons q dropped ih =>
    intro gs h hnodup hall
    rw [map_cons, nodup_cons] at hnodup
    obtain ⟨hk, hf⟩ := hall q mem_cons_self
    refine ih (h.drop hk hf) hnodup.2 fun q' hq' => ?_
    obtain ⟨hk', hf'⟩ := hall q' (mem_cons_of_mem _ hq')
    refine ⟨Map.lookup_erase_iff.2 ⟨?_, hk'⟩, hf'⟩
    intro heq
    exact hnodup.1 (heq ▸ mem_map_of_mem hq')

theorem GpuInv.enterSpillMode (h : GpuInv layout gs) (hstep : gs.enterSpillMode = some gs') :
    GpuInv layout gs' := by
  unfold GpuState.enterSpillMode at hstep
  split at hstep
  · rename_i hmode
    cases hstep
    show GpuInv layout (Memory.freeze _)
    rw [foldl_eraseResident_freeze]
    refine GpuInv.dropAll _ (h.freeze hmode) ?_ ?_
    · exact (filter_sublist.map _).nodup gs.residents.keys_nodup
    · intro q hq
      obtain ⟨hmem, hspill⟩ := mem_filter.1 hq
      have hk : gs.residents.lookup q.1 = some q.2 := AList.mem_lookup_iff.2 hmem
      refine ⟨hk, ?_, rfl⟩
      simp only [GpuState.spills, Bool.and_eq_true] at hspill
      unfold homeOf
      rw [h.spillFlag q.1 q.2 hk hspill.1.2]
      simp only [hspill.1.2, if_true]
  · cases hstep

theorem GpuInv.exitSpillMode (h : GpuInv layout gs)
    (hclear : ∀ k e, gs.residents.lookup k = some e → e.inSpillZone = false)
    (hstep : gs.exitSpillMode = some gs') : GpuInv layout gs' := by
  unfold GpuState.exitSpillMode at hstep
  split at hstep
  · cases hstep
    have hempty : used layout gs.residents .spill = [] := by
      refine map_eq_nil_iff.2 (filter_eq_nil_iff.2 fun q hq => ?_)
      have hflag := hclear q.1 q.2 (AList.mem_lookup_iff.2 hq)
      simp only [decide_eq_true_eq]
      unfold homeOf
      rw [hflag]
      split
      · exact Home.noConfusion
      · simp only [Bool.false_eq_true, if_false]
        split <;> exact Home.noConfusion
    have hc := AllocChange.spill layout gs (range gs.spillSlots.totalSlots) 0
    have hgeo := hc.geo h.geo
    have hsplit : ∀ p', p' ≠ .spill → ((gs.allocator p').freeList ++
        used layout gs.residents p').Perm (range (gs.allocator p').totalSlots) :=
      fun p' hp' => h.split p' fun hf => hp' hf.1
    refine ⟨{ hgeo with }, ?_, ?_, ?_, h.spillFlag, h.ids, h.counts⟩
    · intro p' _
      cases p' with
      | spill =>
        rw [hempty, append_nil]
        exact List.Perm.refl _
      | stable => exact hsplit .stable Home.noConfusion
      | prefetch => exact hsplit .prefetch Home.noConfusion
      | elastic id => exact hsplit (.elastic id) Home.noConfusion
    · rintro p' ⟨_, hm⟩
      cases hm
    · intro k e hk
      exact (h.entry k e hk).trans (hc.address _ _).symm
  · cases hstep

/-! ### The constructor -/

theorem init_inside {base bytes expertBytes : ℕ} (hpos : 0 < expertBytes) {i : ℕ}
    (hi : i < (SlotAllocator.init base expertBytes bytes).totalSlots) :
    base ≤ (SlotAllocator.init base expertBytes bytes).address i ∧
      (SlotAllocator.init base expertBytes bytes).address i + expertBytes ≤ base + bytes := by
  simp only [SlotAllocator.init, initWithCount, if_pos hpos] at hi
  simp only [SlotAllocator.init, initWithCount, address]
  have hle : (i + 1) * expertBytes ≤ bytes :=
    (mul_le_mul_right _ hi).trans (div_mul_le_self _ _)
  rw [add_mul] at hle
  omega

theorem GpuInv.init (layout : GpuLayout) : GpuInv layout (GpuState.init layout : GpuState K) := by
  have hpos := layout.expertBytes_pos
  refine ⟨⟨?_, ?_, ?_⟩, ?_, ?_, ?_, ?_, ⟨nodup_nil, ?_⟩, ?_⟩
  · intro p i hi
    cases p with
    | stable | spill | prefetch => exact init_inside hpos hi
    | elastic id => exact absurd hi (not_lt_zero _)
  · intro p htotal
    cases p with
    | stable | spill | prefetch => exact le_refl _
    | elastic id => exact absurd htotal (not_lt_zero _)
  · intro p p' hne htotal htotal'
    have hdis := layout.disjoint
    cases p with
    | elastic id => exact absurd htotal (not_lt_zero _)
    | _ =>
      cases p' with
      | elastic id => exact absurd htotal' (not_lt_zero _)
      | _ =>
        first
        | exact absurd rfl hne
        | simp only [GpuState.RangesDisjoint, GpuState.region]
          omega
  · intro p _
    have hused : used layout (GpuState.init layout : GpuState K).residents p = [] := rfl
    rw [hused, append_nil]
    cases p <;> exact List.Perm.refl _
  · rintro p ⟨_, hmode⟩
    cases hmode
  · intro k e hk
    cases hk
  · intro k e hk
    cases hk
  · intro z hz
    cases hz
  · intro id z hz
    cases hz

/-! ### Runs -/

theorem GpuInv.apply (h : GpuInv layout gs) {gpu : ℕ} {op : CacheOp K}
    (hevict : ∀ key, op = .evict key → ∀ e, gs.residents.lookup key = some e →
      e.lockCount = 0 → returnHome e = homeOf layout e)
    (hexit : op = .exitSpillMode → ∀ key e, gs.residents.lookup key = some e →
      e.inSpillZone = false)
    (hgrant : ∀ grant, op = .addElasticZone grant → layout.expertBytes ≤ grant.slotStride ∧
      grantDisjoint layout gs grant)
    (hstep : gs.apply layout gpu op = some gs') : GpuInv layout gs' := by
  cases op with
  | reserve key zone isDuplicate =>
    cases hstep
    exact h.reserve key gpu zone isDuplicate
  | evict key =>
    cases hstep
    exact h.evict (hevict key rfl)
  | promote key =>
    cases hstep
    exact h.promote key
  | demote key =>
    cases hstep
    exact h.demote key
  | lock key | unlock key =>
    cases hstep
    exact h.updateEntry key (fun _ => rfl) (fun _ => rfl) (fun _ => rfl) fun _ hflag => hflag
  | markReady key component =>
    simp only [GpuState.apply, GpuState.markReady] at hstep
    split at hstep
    · cases hstep
      exact h.updateEntry key (fun _ => rfl) (fun _ => rfl) (fun _ => rfl) fun _ hflag => hflag
    · cases hstep
  | markAllReady key =>
    simp only [GpuState.apply, GpuState.markAllReady] at hstep
    split at hstep
    · cases hstep
      exact h.updateEntry key (fun _ => rfl) (fun _ => rfl) (fun _ => rfl) fun _ hflag => hflag
    · cases hstep
  | addElasticZone grant => exact h.addElasticZone (hgrant grant rfl).1 (hgrant grant rfl).2 hstep
  | beginDrainElasticZone id =>
    cases hstep
    exact h.beginDrainElasticZone id
  | removeElasticZone id =>
    cases hstep
    exact h.removeElasticZone id
  | enterSpillMode => exact h.enterSpillMode hstep
  | exitSpillMode => exact h.exitSpillMode (hexit rfl) hstep

/-- The invariant on every GPU. -/
def CacheInv (layout : ℕ → GpuLayout) (c : ExpertCache K) : Prop :=
  ∀ gpu, GpuInv (layout gpu) (c.gpus gpu)

theorem CacheInv.step {layout : ℕ → GpuLayout} {c c' : ExpertCache K} {a : ℕ × CacheOp K}
    (h : CacheInv layout c) (hok : SlotsComeHome layout c a)
    (hstep : ExpertCache.step layout c a = some c') : CacheInv layout c' := by
  unfold ExpertCache.step at hstep
  split at hstep
  · obtain ⟨gs', hgs', rfl⟩ := map_eq_some_iff.1 hstep
    intro gpu
    by_cases hgpu : gpu = a.1
    · subst hgpu
      simp only [ExpertCache.commit, Function.update_self]
      refine (h a.1).apply ?_ ?_ ?_ hgs'
      · intro key hop
        simpa only [SlotsComeHome, hop] using hok
      · intro hop
        simpa only [SlotsComeHome, hop] using hok
      · intro grant hop
        simpa only [SlotsComeHome, hop] using hok
    · simp only [ExpertCache.commit, Function.update_of_ne hgpu]
      exact h gpu
  · cases hstep
    exact h

/-- **Slot exclusivity.**  In every run whose elastic zones are apart, whose evictions give the slot
back to the zone it lies in, and that leaves the spill mode only with no resident in a spill slot,
every GPU is slot-exclusive in every state reached. -/
theorem slotExclusive_of_run {layout : ℕ → GpuLayout} {n : ℕ} {as : List (ℕ × CacheOp K)}
    {c : ExpertCache K}
    (hrun : GuardedRun (ExpertCache.step layout) (SlotsComeHome layout)
      (ExpertCache.init n layout) as c) (gpu : ℕ) :
    SlotExclusive (layout gpu) (c.gpus gpu) := by
  have hinit : CacheInv layout (init n layout : ExpertCache K) :=
    fun gpu => GpuInv.init (layout gpu)
  have hinv : CacheInv layout c :=
    hrun.invariant (fun _ _ _ h hok hstep => CacheInv.step h hok hstep) hinit
  exact (hinv gpu).exclusive

/-- Two stable slots, one spill slot and one prefetch slot of one byte each. -/
def tinyLayout (_ : ℕ) : GpuLayout where
  expertBytes := 1
  expertBytes_pos := Nat.one_pos
  expertStable := 0
  expertStableBytes := 2
  expertStreaming := 2
  streamingSpillBytes := 1
  streamingPrefetchBytes := 1
  disjoint := .inl (Nat.le_refl 2)

/-- A run that meets the condition: a zone is granted; a stable expert is demoted, promoted back
and evicted while a streaming one stays, and its slot is handed out again. -/
theorem slotExclusive_of_run_slot_reused :
    ∃ as, ∃ c : ExpertCache ℕ, GuardedRun (ExpertCache.step tinyLayout) (SlotsComeHome tinyLayout)
      (ExpertCache.init 1 tinyLayout) as c ∧ c.gpus 0 ≠ GpuState.init (tinyLayout 0) ∧
      SlotExclusive (tinyLayout 0) (c.gpus 0) := by
  have hrun : GuardedRun (step tinyLayout) (SlotsComeHome tinyLayout)
      (init 1 tinyLayout : ExpertCache ℕ)
      [(0, .addElasticZone ⟨4096, 8, 1, 8, 0⟩), (0, .reserve 0 .stable false),
        (0, .reserve 1 .streaming false), (0, .demote 0), (0, .promote 0), (0, .evict 0),
        (0, .reserve 2 .stable false)] _ :=
    cons ⟨by decide, by decide, fun _ hz => nomatch hz⟩ rfl
      (cons trivial rfl (cons trivial rfl (cons trivial rfl (cons trivial rfl (cons (fun e he _ => by
          cases he
          rfl)
        rfl (cons trivial rfl (nil _)))))))
  refine ⟨_, _, hrun, ?_, slotExclusive_of_run hrun 0⟩
  intro heq
  have := congrArg (fun gs : GpuState ℕ => gs.residents.keys) heq
  exact absurd this (by decide)

/-- A streaming expert is promoted while it lies in spill slot 0, and evicted: index
0 lands on the stable free list, though a stable expert holds stable slot 0.  The
next stable expert is put on top of it. -/
theorem promoted_slot_shared :
    ∃ as, ∃ c : ExpertCache ℕ, Run (ExpertCache.step tinyLayout) (ExpertCache.init 1 tinyLayout)
      as c ∧ ¬ SlotExclusive (tinyLayout 0) (c.gpus 0) := by
  have hrun : Run (step tinyLayout) (init 1 tinyLayout : ExpertCache ℕ)
      [(0, .reserve 0 .streaming false), (0, .promote 0), (0, .reserve 1 .stable false),
        (0, .evict 0), (0, .reserve 2 .stable false)] _ :=
    Run.cons rfl (Run.cons rfl (Run.cons rfl (Run.cons rfl (Run.cons rfl (nil _)))))
  refine ⟨_, _, hrun, ?_⟩
  intro h
  have hdis := h.noOverlap 1 2 _ _ rfl rfl (by decide)
  exact absurd hdis (by decide)

end LayerStorm.Memory
