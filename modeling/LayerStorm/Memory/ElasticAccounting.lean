import LayerStorm.Memory.SlotExclusivity

/-!
# The counters of the expert cache

The cache counts the residents of each elastic zone, its duplicates and the changes of its elastic
zones as it goes along.  Whatever the calls, also those after which two experts share a slot, the
counters are right: what they count is a property of the entries, not of the slots.

## Main results

* `elastic_accounting` — **the counters are right in every run**, zones go only when empty and
  locked experts stay.
-/

namespace LayerStorm.Memory

open Lib
open GpuState ExpertCache List Option Map

variable {K : Type} [DecidableEq K]

/-! ### Counting residents -/

def countResidents (m : Map K (CacheEntry K)) (p : CacheEntry K → Bool) : ℕ :=
  m.countEntries fun _ e => p e

theorem countResidents_erase {m : Map K (CacheEntry K)} {k : K} {e : CacheEntry K}
    (hk : m.lookup k = some e) (p : CacheEntry K → Bool) :
    countResidents m p = countResidents (m.erase k) p + if p e then 1 else 0 := by
  unfold countResidents countEntries
  rw [(entries_perm hk).countP_eq, countP_cons]

theorem countResidents_insert (m : Map K (CacheEntry K)) (k : K) (e : CacheEntry K)
    (p : CacheEntry K → Bool) :
    countResidents (m.insert k e) p = countResidents (m.erase k) p + if p e then 1 else 0 := by
  rw [countResidents_erase (AList.lookup_insert m) p]
  unfold countResidents countEntries
  rw [erase_insert_entries]

/-! ### Capacity -/

def activeSlots (zones : List ElasticZone) : ℕ :=
  ((zones.filter fun z => z.state = .active).map fun z => z.slots.totalSlots).sum

/-- `total_slots`: draining zones do not count. -/
def GpuState.totalSlots (gs : GpuState K) : CacheZone → ℕ
  | .stable => gs.stableSlots.totalSlots + activeSlots gs.elasticZones
  | .streaming => gs.spillSlots.totalSlots + gs.prefetchSlots.totalSlots

/-! ### The invariant and the steps -/

/-- **The counters of a GPU are right.** -/
structure Accounted (gs : GpuState K) : Prop where
  entries : ∀ z ∈ gs.elasticZones,
    z.residentEntries = countResidents gs.residents fun e => e.elasticZone = some z.id
  duplicates : gs.duplicateCount = countResidents gs.residents (·.isDuplicate)
  ids : (gs.elasticZones.map (·.id)).Nodup ∧ ∀ z ∈ gs.elasticZones, z.id < gs.nextElasticId
  known : ∀ k e id, gs.residents.lookup k = some e → e.elasticZone = some id → id < gs.nextElasticId
  spillFlag : ∀ k e, gs.residents.lookup k = some e → e.inSpillZone = true → e.elasticZone = none

/-- **What a call does to the zones and the locked experts of a GPU.** -/
structure Orderly (gs gs' : GpuState K) (bumped : Prop) : Prop where
  /-- A zone goes only when nobody is in it. -/
  removed : ∀ z ∈ gs.elasticZones, z.id ∉ gs'.elasticZones.map (·.id) → z.residentEntries = 0
  draining : ∀ z ∈ gs.elasticZones, z.state = .draining →
    (∀ z' ∈ gs'.elasticZones, z'.id = z.id → z'.state = .draining) ∧
    ∀ k e, gs'.residents.lookup k = some e → e.elasticZone = some z.id →
      ∃ e₀, gs.residents.lookup k = some e₀ ∧ e₀.elasticZone = some z.id
  locked : ∀ k e, gs.residents.lookup k = some e → 0 < e.lockCount → k ∈ gs'.residents
  capacity : ¬ bumped → gs'.totalSlots .stable = gs.totalSlots .stable

variable {gs gs' : GpuState K} {k : K} {e : CacheEntry K} {bumped : Prop}

/-- Zones that are only renewed: `d` more residents in the zone `home`, and the same capacity if the
generation stays. -/
structure Renews (F : ElasticZone → ElasticZone) (home : Option ℕ) (d : ℤ) (bumped : Prop) :
    Prop where
  id : ∀ z, (F z).id = z.id
  entries : ∀ z, (F z).residentEntries = z.residentEntries + if home = some z.id then d else 0
  draining : ∀ z, z.state = .draining → (F z).state = .draining
  state : ¬ bumped → ∀ z, (F z).state = z.state
  total : ∀ z, (F z).slots.totalSlots = z.slots.totalSlots

theorem Renews.none (d : ℤ) : Renews (fun z => z) none d bumped :=
  ⟨fun _ => rfl, fun _ => (add_zero _).symm, fun _ h => h, fun _ _ => rfl, fun _ => rfl⟩

theorem Renews.single {S : SlotAllocator → SlotAllocator} (id : ℕ) (d : ℤ)
    (hS : ∀ s, (S s).totalSlots = s.totalSlots) :
    Renews (fun z => if z.id = id then
      { z with slots := S z.slots, residentEntries := z.residentEntries + d } else z)
      (some id) d bumped := by
  refine ⟨?_, ?_, ?_, fun _ => ?_, ?_⟩
  all_goals
    intro z
    by_cases hz : z.id = id
  all_goals simp [hz, hS, Ne.symm]

variable {F : ElasticZone → ElasticZone} {home : Option ℕ}

theorem Renews.activeSlots {d : ℤ} (h : Renews F home d bumped) (hb : ¬ bumped)
    (zones : List ElasticZone) :
    activeSlots (zones.map F) = activeSlots zones := by
  unfold Memory.activeSlots
  rw [List.filter_map, List.map_map]
  have hstate : (fun z : ElasticZone => decide (z.state = .active)) ∘ F =
      fun z => decide (z.state = .active) := funext fun z => by rw [Function.comp, h.state hb]
  rw [hstate]
  exact congrArg List.sum (List.map_congr_left fun z _ => h.total z)

section

variable (h : Accounted gs)
include h

/-- The step lemma for residents that come and go: the zones are renewed. -/
theorem Accounted.renew {d : ℤ} (hF : Renews F home d bumped)
    (hzones : gs'.elasticZones = gs.elasticZones.map F)
    (hnext : gs'.nextElasticId = gs.nextElasticId)
    (hslots : gs'.stableSlots.totalSlots = gs.stableSlots.totalSlots)
    (hcount : ∀ id, (countResidents gs'.residents fun e => e.elasticZone = some id : ℤ) =
      (countResidents gs.residents fun e => e.elasticZone = some id) +
        if home = some id then d else 0)
    (hdup : gs'.duplicateCount = countResidents gs'.residents (·.isDuplicate))
    (hknown : ∀ k e id, gs'.residents.lookup k = some e → e.elasticZone = some id →
      id < gs.nextElasticId)
    (hspill : ∀ k e, gs'.residents.lookup k = some e → e.inSpillZone = true → e.elasticZone = none)
    (hdrain : ∀ z ∈ gs.elasticZones, z.state = .draining → ∀ k e,
      gs'.residents.lookup k = some e → e.elasticZone = some z.id →
        ∃ e₀, gs.residents.lookup k = some e₀ ∧ e₀.elasticZone = some z.id)
    (hlocked : ∀ k e, gs.residents.lookup k = some e → 0 < e.lockCount → k ∈ gs'.residents) :
    Accounted gs' ∧ Orderly gs gs' bumped := by
  have hids : gs'.elasticZones.map (·.id) = gs.elasticZones.map (·.id) := by
    rw [hzones, List.map_map]
    exact map_congr_left fun z _ => hF.id z
  refine ⟨⟨?_, hdup, ⟨hids ▸ h.ids.1, ?_⟩, hnext ▸ hknown, hspill⟩, ⟨?_, ?_, hlocked, fun hb => ?_⟩⟩
  · intro z' hz'
    obtain ⟨z, hz, rfl⟩ := mem_map.1 (hzones ▸ hz')
    rw [hF.entries, hF.id, hcount, h.entries z hz]
  · intro z' hz'
    obtain ⟨z, hz, rfl⟩ := mem_map.1 (hzones ▸ hz')
    rw [hF.id, hnext]
    exact h.ids.2 z hz
  · intro z hz hgone
    exact absurd (hids ▸ mem_map_of_mem hz) hgone
  · refine fun z hz hstate => ⟨?_, hdrain z hz hstate⟩
    intro z' hz' hid
    obtain ⟨z₁, hz₁, rfl⟩ := mem_map.1 (hzones ▸ hz')
    rw [hF.id] at hid
    rw [inj_on_of_nodup_map h.ids.1 hz₁ hz hid]
    exact hF.draining z hstate
  · unfold totalSlots
    rw [hzones, hF.activeSlots hb, hslots]

/-! ### Residents -/

/-- Calls that leave residents alone. -/
theorem Accounted.stay (hF : Renews F none 0 bumped) (hres : gs'.residents = gs.residents)
    (hzones : gs'.elasticZones = gs.elasticZones.map F)
    (hnext : gs'.nextElasticId = gs.nextElasticId) (hdup : gs'.duplicateCount = gs.duplicateCount)
    (hslots : gs'.stableSlots.totalSlots = gs.stableSlots.totalSlots) :
    Accounted gs' ∧ Orderly gs gs' bumped := by
  refine h.renew hF hzones hnext hslots ?_ ?_ ?_ ?_ ?_ ?_
  all_goals rw [hres]
  · simp
  · rw [hdup, h.duplicates]
  · exact h.known
  · exact h.spillFlag
  · exact fun _ _ _ _ e hk he => ⟨e, hk, he⟩
  · exact fun _ _ hk _ => mem_of_lookup hk

theorem Accounted.refl : Accounted gs ∧ Orderly gs gs bumped :=
  h.stay (Renews.none 0) rfl (map_id' _).symm rfl rfl rfl

/-- Writing an entry without moving the expert. -/
theorem Accounted.updateEntry (k : K) {f : CacheEntry K → CacheEntry K}
    (helastic : ∀ e, (f e).elasticZone = e.elasticZone)
    (hdup : ∀ e, (f e).isDuplicate = e.isDuplicate)
    (hspill : ∀ e, (f e).inSpillZone = e.inSpillZone) :
    Accounted (gs.updateEntry k f) ∧ Orderly gs (gs.updateEntry k f) bumped := by
  unfold GpuState.updateEntry
  cases hk : gs.residents.lookup k with
  | none => exact h.refl
  | some e =>
    have hcount : ∀ p : CacheEntry K → Bool, p (f e) = p e →
        countResidents (gs.residents.insert k (f e)) p = countResidents gs.residents p := by
      intro p hp
      rw [countResidents_insert, countResidents_erase hk, hp]
    have hold : ∀ k' e', (gs.residents.insert k (f e)).lookup k' = some e' →
        ∃ e₀, gs.residents.lookup k' = some e₀ ∧ e'.elasticZone = e₀.elasticZone ∧
          e'.inSpillZone = e₀.inSpillZone := by
      intro k' e' hk'
      rcases lookup_insert_iff.1 hk' with ⟨rfl, rfl⟩ | ⟨-, hk'⟩
      · exact ⟨e, hk, helastic e, hspill e⟩
      · exact ⟨e', hk', rfl, rfl⟩
    refine h.renew (Renews.none 0) (by simp) rfl rfl ?_ ?_ ?_ ?_ ?_ ?_
    · intro id
      rw [hcount _ (by rw [helastic])]
      simp
    · rw [hcount _ (hdup e)]
      exact h.duplicates
    · intro k' e' id hk' he'
      obtain ⟨e₀, hk₀, heq, -⟩ := hold k' e' hk'
      exact h.known k' e₀ id hk₀ (heq ▸ he')
    · intro k' e' hk' he'
      obtain ⟨e₀, hk₀, heq, hflag⟩ := hold k' e' hk'
      exact heq ▸ h.spillFlag k' e₀ hk₀ (hflag ▸ he')
    · intro z _ _ k' e' hk' he'
      obtain ⟨e₀, hk₀, heq, -⟩ := hold k' e' hk'
      exact ⟨e₀, hk₀, heq ▸ he'⟩
    · intro k' e' hk' _
      exact (AList.mem_insert _).2 (.inr (mem_of_lookup hk'))

/-- A new resident, in a zone that takes some. -/
theorem Accounted.add (hk : k ∉ gs.residents) (hF : Renews F e.elasticZone 1 bumped)
    (hhome : ∀ id, e.elasticZone = some id → ∃ z ∈ gs.elasticZones, z.id = id ∧ z.state = .active)
    (hspill : e.inSpillZone = true → e.elasticZone = none)
    (hzones : gs'.elasticZones = gs.elasticZones.map F)
    (hnext : gs'.nextElasticId = gs.nextElasticId)
    (hslots : gs'.stableSlots.totalSlots = gs.stableSlots.totalSlots)
    (hres : gs'.residents = gs.residents.insert k e)
    (hdup : gs'.duplicateCount = if e.isDuplicate then gs.duplicateCount + 1
      else gs.duplicateCount) :
    Accounted gs' ∧ Orderly gs gs' bumped := by
  have hcount : ∀ p : CacheEntry K → Bool, countResidents gs'.residents p =
      countResidents gs.residents p + if p e then 1 else 0 := by
    intro p
    rw [hres, countResidents_insert]
    unfold countResidents countEntries
    rw [show (gs.residents.erase k).entries = gs.residents.entries from
      kerase_of_notMem_keys hk]
  have hnew : ∀ k' e', gs'.residents.lookup k' = some e' →
      k' = k ∧ e = e' ∨ gs.residents.lookup k' = some e' := by
    intro k' e' hk'
    rw [hres] at hk'
    exact (lookup_insert_iff.1 hk').imp_right fun h => h.2
  refine h.renew hF hzones hnext hslots ?_ ?_ ?_ ?_ ?_ ?_
  · intro id
    rw [hcount]
    simp
  · rw [hdup, h.duplicates]
    split <;> simp_all
  · intro k' e' id hk' he'
    rcases hnew k' e' hk' with ⟨rfl, rfl⟩ | hk'
    · obtain ⟨z, hz, rfl, -⟩ := hhome id he'
      exact h.ids.2 z hz
    · exact h.known k' e' id hk' he'
  · intro k' e' hk' he'
    rcases hnew k' e' hk' with ⟨rfl, rfl⟩ | hk'
    · exact hspill he'
    · exact h.spillFlag k' e' hk' he'
  · intro z hz hstate k' e' hk' he'
    rcases hnew k' e' hk' with ⟨rfl, rfl⟩ | hk'
    · -- the zone of the new resident is active
      obtain ⟨w, hw, hid, hactive⟩ := hhome z.id he'
      rw [inj_on_of_nodup_map h.ids.1 hw hz hid, hstate] at hactive
      cases hactive
    · exact ⟨e', hk', he'⟩
  · intro k' e' hk' _
    rw [hres]
    exact (AList.mem_insert _).2 (.inr (mem_of_lookup hk'))

/-- A resident that is not locked goes. -/
theorem Accounted.drop (hk : gs.residents.lookup k = some e) (hlock : e.lockCount = 0)
    (hF : Renews F e.elasticZone (-1) bumped) (hzones : gs'.elasticZones = gs.elasticZones.map F)
    (hnext : gs'.nextElasticId = gs.nextElasticId)
    (hslots : gs'.stableSlots.totalSlots = gs.stableSlots.totalSlots)
    (hres : gs'.residents = gs.residents.erase k)
    (hdup : gs'.duplicateCount = if e.isDuplicate then gs.duplicateCount - 1
      else gs.duplicateCount) :
    Accounted gs' ∧ Orderly gs gs' bumped := by
  have hcount := fun p : CacheEntry K → Bool => countResidents_erase hk p
  have hold : ∀ k' e', gs'.residents.lookup k' = some e' → gs.residents.lookup k' = some e' := by
    intro k' e' hk'
    rw [hres] at hk'
    exact (lookup_erase_iff.1 hk').2
  refine h.renew hF hzones hnext hslots ?_ ?_ ?_ ?_ ?_ ?_
  · intro id
    split <;> simp_all
  · rw [hdup, h.duplicates]
    split <;> simp_all
  · exact fun k' e' id hk' => h.known k' e' id (hold k' e' hk')
  · exact fun k' e' hk' => h.spillFlag k' e' (hold k' e' hk')
  · exact fun _ _ _ k' e' hk' he' => ⟨e', hold k' e' hk', he'⟩
  · intro k' e' hk' hlocked
    rw [hres]
    refine mem_of_lookup (lookup_erase_iff.2 ⟨?_, hk'⟩)
    rintro rfl
    rw [some.inj (hk'.symm.trans hk), hlock] at hlocked
    exact absurd hlocked (Nat.lt_irrefl 0)

end

/-! ### Calls on residents -/

theorem allocateElastic_renews {zones zones' : List ElasticZone} {id slot addr : ℕ}
    (hnodup : (zones.map (·.id)).Nodup)
    (h : allocateElastic zones = some (id, slot, addr, zones')) :
    ∃ F, Renews F (some id) 1 bumped ∧ zones' = zones.map F ∧
      ∃ z ∈ zones, z.id = id ∧ z.state = .active := by
  refine ⟨_, Renews.single (S := fun s => { s with freeList := s.freeList.tail }) id 1
    fun _ => rfl, ?_⟩
  induction zones generalizing zones' with
  | nil => cases h
  | cons w zones ih =>
    rw [map_cons, nodup_cons] at hnodup
    unfold allocateElastic at h
    by_cases hw : w.state = .active ∧ ∃ s rest, w.slots.freeList = s :: rest
    · obtain ⟨hactive, s, rest, hfree⟩ := hw
      simp only [hactive, if_true, SlotAllocator.allocate, hfree, some.injEq, Prod.mk.injEq] at h
      obtain ⟨rfl, rfl, rfl, rfl⟩ := h
      refine ⟨?_, w, mem_cons_self, rfl, hactive⟩
      rw [map_cons, if_pos rfl, hfree, tail_cons]
      have hrest : ∀ z ∈ zones, z.id ≠ w.id := fun z hz heq =>
        hnodup.1 (heq ▸ mem_map_of_mem hz)
      rw [List.map_congr_left fun z hz => if_neg (hrest z hz), List.map_id', hactive]
    -- the zone is passed over
    have hpass : (allocateElastic zones).map
        (fun r => (r.1, r.2.1, r.2.2.1, w :: r.2.2.2)) = some (id, slot, addr, zones') := by
      split at h
      · rename_i hactive
        cases hfree : w.slots.freeList with
        | nil => simpa [SlotAllocator.allocate, hfree] using h
        | cons s rest => exact absurd ⟨hactive, s, rest, hfree⟩ hw
      · exact h
    obtain ⟨⟨id₁, slot₁, addr₁, zones₁⟩, hrec, heq⟩ := map_eq_some_iff.1 hpass
    obtain ⟨rfl, rfl, rfl, rfl⟩ : id₁ = id ∧ slot₁ = slot ∧ addr₁ = addr ∧
      w :: zones₁ = zones' := by simpa using heq
    obtain ⟨hmap, z, hz, hid, hactive⟩ := ih hnodup.2 hrec
    refine ⟨?_, z, mem_cons_of_mem _ hz, hid, hactive⟩
    rw [map_cons, ← hmap, if_neg]
    exact fun heq => hnodup.1 (heq ▸ hid ▸ mem_map_of_mem hz)

section

variable (h : Accounted gs)
include h

theorem Accounted.reserve (key : K) (gpu : ℕ) (zone : CacheZone) (dup : Bool) :
    Accounted (gs.reserve key gpu zone dup).1 ∧
      Orderly gs (gs.reserve key gpu zone dup).1 bumped := by
  unfold GpuState.reserve
  split
  · exact h.refl
  rename_i hk
  have hplain : ∀ {e : CacheEntry K}, e.elasticZone = none → ∀ {gs₁ : GpuState K},
      gs₁.residents = gs.residents → gs₁.elasticZones = gs.elasticZones →
      gs₁.nextElasticId = gs.nextElasticId → gs₁.duplicateCount = gs.duplicateCount →
      gs₁.stableSlots.totalSlots = gs.stableSlots.totalSlots → e.key = key →
      Accounted (gs₁.addResident e) ∧ Orderly gs (gs₁.addResident e) bumped := by
    intro e he gs₁ hres hzones hnext hdup hslots hkey
    subst hkey
    refine h.add hk (he ▸ Renews.none 1) ?_ (fun _ => he) ?_ hnext hslots ?_ ?_
    · intro id hid
      rw [he] at hid
      cases hid
    · rw [List.map_id']
      exact hzones
    · simp only [GpuState.addResident, hres]
    · simp only [GpuState.addResident, hdup]
  cases zone with
  | streaming =>
    simp only
    split
    · split
      · exact hplain rfl rfl rfl rfl rfl rfl rfl
      · exact h.refl
    split
    · exact hplain rfl rfl rfl rfl rfl rfl rfl
    split
    · exact hplain rfl rfl rfl rfl rfl rfl rfl
    · exact h.refl
  | stable =>
    cases hslot : gs.stableSlots.allocate with
    | some r =>
      have htotal : r.2.totalSlots = gs.stableSlots.totalSlots := by
        unfold SlotAllocator.allocate at hslot
        split at hslot
        · cases hslot
        · rw [← some.inj hslot]
      exact hplain rfl rfl rfl rfl rfl htotal rfl
    | none =>
      simp only
      split
      · rename_i id slot addr zones helastic
        obtain ⟨F, hF, hmap, hhome⟩ := allocateElastic_renews h.ids.1 helastic
        refine h.add hk hF ?_ (fun hflag => absurd hflag Bool.false_ne_true) hmap rfl rfl rfl rfl
        intro id' hid
        cases hid
        exact hhome
      · exact h.refl

theorem Accounted.evict (key : K) :
    Accounted (gs.evict key).1 ∧ Orderly gs (gs.evict key).1 bumped := by
  unfold GpuState.evict
  split
  · exact h.refl
  rename_i e hk
  split
  · exact h.refl
  rename_i hlock
  have hplain : e.elasticZone = none → ∀ {gs₁ : GpuState K}, gs₁.residents = gs.residents →
      gs₁.elasticZones = gs.elasticZones → gs₁.nextElasticId = gs.nextElasticId →
      gs₁.duplicateCount = gs.duplicateCount →
      gs₁.stableSlots.totalSlots = gs.stableSlots.totalSlots →
      Accounted (gs₁.eraseResident key e) ∧ Orderly gs (gs₁.eraseResident key e) bumped := by
    intro he gs₁ hres hzones hnext hdup hslots
    refine h.drop hk (Nat.eq_zero_of_not_pos hlock) (he ▸ Renews.none _) ?_ hnext hslots ?_ ?_
    · rw [List.map_id']
      exact hzones
    · simp only [GpuState.eraseResident, hres]
    · simp only [GpuState.eraseResident, hdup]
  unfold GpuState.returnSlot
  cases he : e.elasticZone with
  | none =>
    simp only
    split
    · exact hplain he rfl rfl rfl rfl rfl
    split
    · split
      · exact hplain he rfl rfl rfl rfl rfl
      · exact hplain he rfl rfl rfl rfl rfl
    · exact hplain he rfl rfl rfl rfl rfl
  | some id =>
    exact h.drop hk (Nat.eq_zero_of_not_pos hlock)
      (he ▸ Renews.single (S := fun s => s.free e.slotIdx) id (-1) fun _ => rfl) rfl rfl rfl rfl rfl

/-! ### Calls on zones -/

theorem Accounted.addElasticZone {layout : GpuLayout} {g : GpuState.ZoneGrant}
    (hgs : gs.addElasticZone layout g = some gs') : Accounted gs' ∧ Orderly gs gs' True := by
  unfold GpuState.addElasticZone at hgs
  split at hgs
  · cases hgs
    have hne : ∀ z ∈ gs.elasticZones, z.id ≠ gs.nextElasticId := fun z hz =>
      Nat.ne_of_lt (h.ids.2 z hz)
    refine ⟨⟨?_, h.duplicates, ⟨?_, ?_⟩, ?_, h.spillFlag⟩, ⟨?_, ?_, ?_, fun hb => absurd trivial hb⟩⟩
    · intro z hz
      rcases mem_append.1 hz with hz | hz
      · exact h.entries z hz
      -- nobody is in a zone that did not exist
      obtain rfl := mem_singleton.1 hz
      refine (congrArg Nat.cast (countP_eq_zero.2 fun x hx => ?_)).symm
      simp only [decide_eq_true_eq]
      intro hid
      exact Nat.lt_irrefl _ (h.known x.1 x.2 _ (AList.mem_lookup_iff.2 hx) hid)
    · rw [map_append]
      refine nodup_append.2 ⟨h.ids.1, nodup_singleton _, ?_⟩
      intro a ha b hb
      obtain ⟨z, hz, rfl⟩ := mem_map.1 ha
      rw [mem_singleton.1 hb]
      exact hne z hz
    · intro z hz
      rcases mem_append.1 hz with hz | hz
      · exact Nat.lt_succ_of_lt (h.ids.2 z hz)
      · rw [mem_singleton.1 hz]
        exact Nat.lt_succ_self _
    · exact fun k e id hk he => Nat.lt_succ_of_lt (h.known k e id hk he)
    · intro z hz hgone
      exact absurd (mem_map_of_mem (mem_append_left _ hz)) hgone
    · refine fun z hz hstate => ⟨?_, fun k e hk he => ⟨e, hk, he⟩⟩
      intro z' hz' hid
      rcases mem_append.1 hz' with hz' | hz'
      · exact inj_on_of_nodup_map h.ids.1 hz' hz hid ▸ hstate
      · rw [mem_singleton.1 hz'] at hid
        exact absurd hid.symm (hne z hz)
    · exact fun k e hk _ => mem_of_lookup hk
  · cases hgs

theorem Accounted.beginDrainElasticZone (id : ℕ) :
    Accounted (gs.beginDrainElasticZone id).1 ∧ Orderly gs (gs.beginDrainElasticZone id).1
      ((gs.beginDrainElasticZone id).2 = true) := by
  unfold GpuState.beginDrainElasticZone
  split
  · refine h.stay (F := fun z => if z.id = id then { z with state := .draining } else z)
      ⟨?_, ?_, ?_, fun hb => absurd rfl hb, ?_⟩ rfl rfl rfl rfl rfl
    all_goals
      intro z
      by_cases hz : z.id = id
    all_goals simp [hz]
  · exact h.refl

theorem Accounted.removeElasticZone (id : ℕ) :
    Accounted (gs.removeElasticZone id).1 ∧ Orderly gs (gs.removeElasticZone id).1
      ((gs.removeElasticZone id).2 = true) := by
  unfold GpuState.removeElasticZone
  split
  · exact h.refl
  rename_i z₀ hz₀
  split
  · exact h.refl
  rename_i hempty
  have hmem : ∀ z ∈ gs.elasticZones.eraseP fun z => z.id = id, z ∈ gs.elasticZones :=
    fun z hz => mem_of_mem_eraseP hz
  refine ⟨⟨fun z hz => h.entries z (hmem z hz), h.duplicates,
    ⟨h.ids.1.sublist ((eraseP_sublist).map _), fun z hz => h.ids.2 z (hmem z hz)⟩, h.known,
    h.spillFlag⟩, ⟨?_, ?_, fun k e hk _ => mem_of_lookup hk, fun hb => absurd rfl hb⟩⟩
  · intro z hz hgone
    by_cases hid : z.id = id
    · have hid₀ : z₀.id = id := by simpa using find?_some hz₀
      rw [inj_on_of_nodup_map h.ids.1 hz (mem_of_find?_eq_some hz₀) (hid.trans hid₀.symm)]
      exact not_not.1 hempty
    · refine absurd (List.mem_map_of_mem ?_) hgone
      exact (List.mem_eraseP_of_neg (by simpa using hid)).2 hz
  · refine fun z hz hstate => ⟨?_, fun k e hk he => ⟨e, hk, he⟩⟩
    intro z' hz' hid
    exact inj_on_of_nodup_map h.ids.1 (hmem z' hz') hz hid ▸ hstate

end

/-! ### The spill mode -/

theorem Accounted.dropAll (dropped : List (Σ _ : K, CacheEntry K)) : ∀ {gs : GpuState K},
    Accounted gs → (dropped.map (·.1)).Nodup →
    (∀ q ∈ dropped, gs.residents.lookup q.1 = some q.2 ∧ spills q.2 = true) →
    ∀ gs', gs' = dropped.foldl (fun gs q => gs.eraseResident q.1 q.2) gs →
      Accounted gs' ∧ gs'.elasticZones = gs.elasticZones ∧ gs'.stableSlots = gs.stableSlots ∧
      (∀ k e, gs'.residents.lookup k = some e → gs.residents.lookup k = some e) ∧
      ∀ k e, gs.residents.lookup k = some e → 0 < e.lockCount → k ∈ gs'.residents := by
  induction dropped with
  | nil =>
    rintro gs h - - gs' rfl
    exact ⟨h, rfl, rfl, fun _ _ hk => hk, fun _ _ hk _ => mem_of_lookup hk⟩
  | cons q dropped ih =>
    intro gs h hnodup hall gs' hgs'
    rw [map_cons, nodup_cons] at hnodup
    obtain ⟨hk, hspill⟩ := hall q mem_cons_self
    simp only [spills, Bool.and_eq_true, beq_iff_eq] at hspill
    have hhome := h.spillFlag q.1 q.2 hk hspill.1.2
    have hboth : Accounted (gs.eraseResident q.1 q.2) ∧
        Orderly gs (gs.eraseResident q.1 q.2) True :=
      h.drop hk hspill.2 (hhome ▸ Renews.none _) (map_id' _).symm rfl rfl rfl rfl
    have hrest : ∀ q' ∈ dropped, (gs.eraseResident q.1 q.2).residents.lookup q'.1 = some q'.2 ∧
        spills q'.2 = true := by
      intro q' hq'
      obtain ⟨hk', hspill'⟩ := hall q' (mem_cons_of_mem _ hq')
      refine ⟨lookup_erase_iff.2 ⟨fun heq => ?_, hk'⟩, hspill'⟩
      exact hnodup.1 (heq ▸ mem_map_of_mem hq')
    obtain ⟨hacc, hzones, hslots, hold, hlocked⟩ := ih hboth.1 hnodup.2 hrest gs' hgs'
    refine ⟨hacc, hzones, hslots, fun k e hk' => (lookup_erase_iff.1 (hold k e hk')).2, ?_⟩
    intro k e hk' hlock
    refine hlocked k e (lookup_erase_iff.2 ⟨?_, hk'⟩) hlock
    rintro rfl
    rw [some.inj (hk'.symm.trans hk), hspill.2] at hlock
    exact Nat.lt_irrefl 0 hlock

theorem Accounted.enterSpillMode (h : Accounted gs) (hgs : gs.enterSpillMode = some gs') :
    Accounted gs' ∧ Orderly gs gs' bumped := by
  unfold GpuState.enterSpillMode at hgs
  split at hgs
  · cases hgs
    obtain ⟨hacc, hzones, hslots, hold, hlocked⟩ := Accounted.dropAll _ h
      ((filter_sublist.map _).nodup gs.residents.keys_nodup)
      (fun q hq => (mem_filter.1 hq).imp_left AList.mem_lookup_iff.2) _ rfl
    refine ⟨{ hacc with },
      ⟨?_, ?_, hlocked, fun _ => ?_⟩⟩
    · intro z hz hgone
      exact absurd (hzones ▸ mem_map_of_mem hz) hgone
    · refine fun z hz hstate => ⟨?_, fun k e hk he => ⟨e, hold k e hk, he⟩⟩
      intro z' hz' hid
      exact inj_on_of_nodup_map h.ids.1 (hzones ▸ hz') hz hid ▸ hstate
    · unfold GpuState.totalSlots
      simp only [hzones, hslots]
  · cases hgs

/-! ### Every call -/

theorem GpuState.apply_accounted (h : Accounted gs) {layout : GpuLayout} {gpu : ℕ} {op : CacheOp K}
    (hgs : gs.apply layout gpu op = some gs') :
    Accounted gs' ∧ Orderly gs gs' (gs.bumpsGeneration op = true) := by
  cases op with
  | reserve key zone dup => exact some.inj hgs ▸ h.reserve key gpu zone dup
  | evict key => exact some.inj hgs ▸ h.evict key
  | promote key =>
    cases hgs
    unfold promote
    split
    · split
      · exact h.updateEntry key (fun _ => rfl) (fun _ => rfl) fun _ => rfl
      · exact h.refl
    · exact h.refl
  | demote key =>
    cases hgs
    unfold demote
    split
    · split
      · exact h.updateEntry key (fun _ => rfl) (fun _ => rfl) fun _ => rfl
      · exact h.refl
    · exact h.refl
  | lock key | unlock key =>
    exact some.inj hgs ▸ h.updateEntry key (fun _ => rfl) (fun _ => rfl) fun _ => rfl
  | markReady key component | markAllReady key =>
    obtain ⟨_, heq⟩ := ite_none_right_eq_some.1 hgs
    exact some.inj heq ▸ h.updateEntry key (fun _ => rfl) (fun _ => rfl) fun _ => rfl
  | addElasticZone grant =>
    exact (h.addElasticZone hgs).imp_right fun ho => { ho with capacity := fun hb => absurd rfl hb }
  | beginDrainElasticZone id => exact some.inj hgs ▸ h.beginDrainElasticZone id
  | removeElasticZone id => exact some.inj hgs ▸ h.removeElasticZone id
  | enterSpillMode => exact h.enterSpillMode hgs
  | exitSpillMode =>
    obtain ⟨_, heq⟩ := ite_none_right_eq_some.1 hgs
    cases heq
    exact h.stay (Renews.none 0) rfl (map_id' _).symm rfl rfl rfl

variable {layout : ℕ → GpuLayout} {c c' : ExpertCache K} {n : ℕ}

/-- One call on the cache, and what it does to each GPU. -/
theorem ExpertCache.step_accounted (h : ∀ gpu, Accounted (c.gpus gpu)) {a : ℕ × CacheOp K}
    (hstep : step layout c a = some c') : c.elasticGeneration ≤ c'.elasticGeneration ∧
      ∀ gpu, Accounted (c'.gpus gpu) ∧
        Orderly (c.gpus gpu) (c'.gpus gpu) (c'.elasticGeneration ≠ c.elasticGeneration) := by
  unfold step at hstep
  split at hstep
  · obtain ⟨gs', hgs', rfl⟩ := map_eq_some_iff.1 hstep
    refine ⟨?_, fun gpu => ?_⟩
    · unfold commit
      simp only
      split <;> omega
    by_cases hgpu : gpu = a.1
    · subst hgpu
      simp only [commit, Function.update_self]
      refine (apply_accounted (h a.1) hgs').imp_right fun ho =>
        { ho with capacity := fun hb => ho.capacity fun hbump => hb ?_ }
      rw [if_pos hbump]
      exact Nat.succ_ne_self _
    · simp only [commit, Function.update_of_ne hgpu]
      exact (h gpu).refl
  · cases hstep
    exact ⟨Nat.le_refl _, fun gpu => (h gpu).refl⟩

theorem Accounted.of_run {as : List (ℕ × CacheOp K)}
    (hrun : Run (step layout) (init n layout) as c) :
    ∀ gpu, Accounted (c.gpus gpu) := by
  refine hrun.invariant (fun _ _ _ h _ hstep gpu => ((step_accounted h hstep).2 gpu).1) ?_
  intro gpu
  exact ⟨fun _ hz => absurd hz not_mem_nil, rfl, ⟨nodup_nil, fun _ hz =>
    absurd hz not_mem_nil⟩, fun _ _ _ hk => (nomatch hk), fun _ _ hk => nomatch hk⟩

/-- **The counters of every GPU are right in every run**; every further call is orderly; and as long
as the generation stays, so does the stable capacity. -/
theorem elastic_accounting {as : List (ℕ × CacheOp K)}
    (hrun : Run (ExpertCache.step layout) (ExpertCache.init n layout) as c) :
    (∀ gpu, Accounted (c.gpus gpu)) ∧
    (∀ a c', ExpertCache.step layout c a = some c' → ∀ gpu,
      Orderly (c.gpus gpu) (c'.gpus gpu) (c'.elasticGeneration ≠ c.elasticGeneration)) ∧
    ∀ bs c', Run (ExpertCache.step layout) c bs c' → c'.elasticGeneration = c.elasticGeneration →
      ∀ gpu, (c'.gpus gpu).totalSlots .stable = (c.gpus gpu).totalSlots .stable := by
  have h := Accounted.of_run hrun
  refine ⟨h, fun a c' hstep gpu => ((step_accounted h hstep).2 gpu).2, ?_⟩
  intro bs c' hmore
  -- the generation never falls, so that a change in between shows at the end
  have hinv : (∀ gpu, Accounted (c'.gpus gpu)) ∧ c.elasticGeneration ≤ c'.elasticGeneration ∧
      (c'.elasticGeneration = c.elasticGeneration →
        ∀ gpu, (c'.gpus gpu).totalSlots .stable = (c.gpus gpu).totalSlots .stable) := by
    refine hmore.invariant (I := fun c' => (∀ gpu, Accounted (c'.gpus gpu)) ∧
      c.elasticGeneration ≤ c'.elasticGeneration ∧
      (c'.elasticGeneration = c.elasticGeneration →
        ∀ gpu, (c'.gpus gpu).totalSlots .stable = (c.gpus gpu).totalSlots .stable)) ?_
      ⟨h, Nat.le_refl _, fun _ _ => rfl⟩
    rintro t a u ⟨ht, hle, hcap⟩ - hstep
    obtain ⟨hmono, hu⟩ := step_accounted ht hstep
    refine ⟨fun gpu => (hu gpu).1, hle.trans hmono, fun heq gpu => ?_⟩
    have hut : u.elasticGeneration = t.elasticGeneration := by omega
    rw [(hu gpu).2.capacity fun hne => hne hut]
    exact hcap (by omega) gpu
  exact hinv.2.2

/-- The third stable expert of the tiny cache goes to a granted zone, which counts it. -/
theorem elastic_accounting_granted : ∃ as, ∃ c : ExpertCache ℕ,
    Run (ExpertCache.step tinyLayout) (ExpertCache.init 1 tinyLayout) as c ∧
      (c.gpus 0).elasticZones.map (·.residentEntries) = [1] ∧ Accounted (c.gpus 0) := by
  have hrun : Run (step tinyLayout) (init 1 tinyLayout : ExpertCache ℕ)
      [(0, .addElasticZone ⟨4096, 8, 1, 8, 0⟩), (0, .reserve 5 .stable false),
        (0, .reserve 6 .stable false), (0, .reserve 7 .stable false)] _ :=
    Run.cons rfl (Run.cons rfl (Run.cons rfl (Run.cons rfl (GuardedRun.nil _))))
  exact ⟨_, _, hrun, rfl, (elastic_accounting hrun).1 0⟩

/-- An expert is evicted from the GPU it was loaded on first, so that its duplicate is the only copy,
and still counts. -/
theorem duplicate_without_original :
    ¬ ∀ (layout : ℕ → GpuLayout) (n : ℕ) (as : List (ℕ × CacheOp ℕ)) (c : ExpertCache ℕ),
      Run (ExpertCache.step layout) (ExpertCache.init n layout) as c →
        ((List.range n).map fun gpu => (c.gpus gpu).duplicateCount).sum =
          (((List.range n).flatMap fun gpu => (c.gpus gpu).residents.keys).length -
            ((List.range n).flatMap fun gpu => (c.gpus gpu).residents.keys).dedup.length : ℤ) := by
  intro h
  have hrun : Run (step tinyLayout) (init 2 tinyLayout : ExpertCache ℕ)
      [(0, .reserve 7 .stable false), (1, .reserve 7 .stable true), (0, .evict 7)] _ :=
    Run.cons rfl (Run.cons rfl (Run.cons rfl (GuardedRun.nil _)))
  exact absurd (h tinyLayout 2 _ _ hrun) (by decide)

end LayerStorm.Memory
