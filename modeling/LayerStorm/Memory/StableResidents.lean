import LayerStorm.Memory.ExpertCache

/-!
# The stable zone and its listener

A residency listener of the cache hears of every expert that enters or leaves the
stable zone of a GPU.  The notifications of a call are exactly the difference it
makes to the set of stable residents: an elastic zone that comes or goes, a spill
mode entered or left, a lock taken change nothing there.
-/

namespace LayerStorm.Memory

open Lib
open GpuState

variable {K : Type} [DecidableEq K]
variable {gs gs' : GpuState K} {k : K} {g : ℕ} {zone : CacheZone} {dup : Bool}

/-! ### Reservations -/

theorem reserve_none (h : (gs.reserve k g zone dup).2 = none) :
    (gs.reserve k g zone dup).1 = gs := by
  unfold reserve at h ⊢
  by_cases hmem : k ∈ gs.residents
  · simp only [hmem, if_true]
  simp only [hmem, if_false] at h ⊢
  cases zone with
  | streaming =>
    split_ifs at h ⊢ with hmode
    · cases hp : gs.prefetchSlots.allocate with
      | none => rfl
      | some r => simp [hp] at h
    cases hs : gs.spillSlots.allocate with
    | none =>
      simp only [hs] at h ⊢
      cases hp : gs.prefetchSlots.allocate with
      | none => rfl
      | some r => simp [hp] at h
    | some r => simp [hs] at h
  | stable =>
    cases hs : gs.stableSlots.allocate with
    | none =>
      simp only [hs] at h ⊢
      cases he : allocateElastic gs.elasticZones with
      | none => rfl
      | some r => simp [he] at h
    | some r => simp [hs] at h

theorem reserve_some {addr : ℕ} (h : (gs.reserve k g zone dup).2 = some addr) :
    k ∉ gs.residents ∧ ∃ e : CacheEntry K, e.lockCount = 0 ∧ e.zone = zone ∧
      (gs.reserve k g zone dup).1.residents = gs.residents.insert k e := by
  unfold reserve at h ⊢
  by_cases hmem : k ∈ gs.residents
  · simp only [hmem] at h
    cases h
  refine ⟨hmem, ?_⟩
  simp only [hmem, if_false] at h ⊢
  cases zone with
  | streaming =>
    split_ifs at h ⊢ with hmode
    · cases hp : gs.prefetchSlots.allocate with
      | none => simp [hp] at h
      | some r => exact ⟨_, rfl, rfl, rfl⟩
    cases hs : gs.spillSlots.allocate with
    | none =>
      simp only [hs] at h ⊢
      cases hp : gs.prefetchSlots.allocate with
      | none => simp [hp] at h
      | some r => exact ⟨_, rfl, rfl, rfl⟩
    | some r => exact ⟨_, rfl, rfl, rfl⟩
  | stable =>
    cases hs : gs.stableSlots.allocate with
    | none =>
      simp only [hs] at h ⊢
      cases he : allocateElastic gs.elasticZones with
      | none => simp [he] at h
      | some r => exact ⟨_, rfl, rfl, rfl⟩
    | some r => exact ⟨_, rfl, rfl, rfl⟩

/-! ### Stable residents -/

/-- The expert is resident with the stable tag. -/
def GpuState.Stable (gs : GpuState K) (k : K) : Prop :=
  ∃ e, gs.residents.lookup k = some e ∧ e.zone = .stable

/-- What a call may announce: nothing, one expert that enters or one that leaves. -/
def Announces (gpu : ℕ) (S S' : K → Prop) (es : List (ResidencyEvent K)) : Prop :=
  (es = [] ∧ ∀ k, S' k ↔ S k) ∨ (∃ k, es = [.added k gpu] ∧ ∀ k', S' k' ↔ k' = k ∨ S k') ∨
    ∃ k, es = [.removed k gpu] ∧ ∀ k', S' k' ↔ k' ≠ k ∧ S k'

theorem Announces.of_residents {gpu : ℕ} (h : gs'.residents = gs.residents) :
    Announces gpu gs.Stable gs'.Stable [] :=
  .inl ⟨rfl, fun k => by unfold GpuState.Stable; rw [h]⟩

theorem Announces.refl (gpu : ℕ) (gs : GpuState K) : Announces gpu gs.Stable gs.Stable [] :=
  Announces.of_residents rfl

theorem GpuState.stable_updateEntry {e : CacheEntry K} (hk : gs.residents.lookup k = some e)
    (f : CacheEntry K → CacheEntry K) (k' : K) :
    (gs.updateEntry k f).Stable k' ↔ (k' = k ∧ (f e).zone = .stable) ∨ (k' ≠ k ∧ gs.Stable k') := by
  unfold GpuState.Stable updateEntry
  simp only [hk, Map.lookup_insert_iff]
  constructor
  · rintro ⟨e', ⟨rfl, rfl⟩ | ⟨hne, he'⟩, hz⟩
    · exact .inl ⟨rfl, hz⟩
    · exact .inr ⟨hne, e', he', hz⟩
  · rintro (⟨rfl, hz⟩ | ⟨hne, e', he', hz⟩)
    · exact ⟨f e, .inl ⟨rfl, rfl⟩, hz⟩
    · exact ⟨e', .inr ⟨hne, he'⟩, hz⟩

theorem GpuState.stable_of_lookup {e : CacheEntry K} (hk : gs.residents.lookup k = some e) :
    gs.Stable k ↔ e.zone = .stable := by
  unfold GpuState.Stable
  simp [hk]

theorem announces_updateEntry (gs : GpuState K) (gpu : ℕ) (k : K)
    {f : CacheEntry K → CacheEntry K} (hf : ∀ e, (f e).zone = e.zone) :
    Announces gpu gs.Stable (gs.updateEntry k f).Stable [] := by
  cases hk : gs.residents.lookup k with
  | none =>
    refine Announces.of_residents ?_
    simp [updateEntry, hk]
  | some e =>
    refine .inl ⟨rfl, fun k' => ?_⟩
    rw [stable_updateEntry hk, hf]
    by_cases hkk : k' = k
    · subst hkk
      simp [stable_of_lookup hk]
    · simp [hkk]

/-! ### The calls -/

theorem announces_reserve (gs : GpuState K) (gpu : ℕ) (k : K) (zone : CacheZone) (dup : Bool) :
    Announces gpu gs.Stable (gs.reserve k gpu zone dup).1.Stable
      (gs.notifications gpu (.reserve k zone dup)) := by
  cases hr : (gs.reserve k gpu zone dup).2 with
  | none =>
    have hnot : gs.notifications gpu (.reserve k zone dup) = [] := by
      simp [notifications, hr]
    rw [hnot, reserve_none hr]
    exact Announces.refl gpu gs
  | some addr =>
    obtain ⟨hnew, e, _, hzone, hres⟩ := reserve_some hr
    have hold : ¬ gs.Stable k := by
      rintro ⟨e', he', _⟩
      exact hnew (Map.mem_of_lookup he')
    have hstable : ∀ k', (gs.reserve k gpu zone dup).1.Stable k' ↔
        (k' = k ∧ zone = .stable) ∨ (k' ≠ k ∧ gs.Stable k') := by
      intro k'
      unfold GpuState.Stable
      simp only [hres, Map.lookup_insert_iff]
      constructor
      · rintro ⟨e', ⟨rfl, rfl⟩ | ⟨hne, he'⟩, hz⟩
        · exact .inl ⟨rfl, hzone ▸ hz⟩
        · exact .inr ⟨hne, e', he', hz⟩
      · rintro (⟨rfl, hz⟩ | ⟨hne, e', he', hz⟩)
        · exact ⟨e, .inl ⟨rfl, rfl⟩, hzone.trans hz⟩
        · exact ⟨e', .inr ⟨hne, he'⟩, hz⟩
    cases zone with
    | stable =>
      refine .inr (.inl ⟨k, by simp [notifications, hr], fun k' => ?_⟩)
      rw [hstable]
      by_cases hkk : k' = k <;> simp [hkk]
    | streaming =>
      refine .inl ⟨by simp [notifications], fun k' => ?_⟩
      rw [hstable]
      by_cases hkk : k' = k
      · subst hkk
        simp [hold]
      · simp [hkk]

theorem announces_evict (gs : GpuState K) (gpu : ℕ) (k : K) :
    Announces gpu gs.Stable (gs.evict k).1.Stable (gs.notifications gpu (.evict k)) := by
  cases hk : gs.residents.lookup k with
  | none =>
    have hevict : gs.evict k = (gs, false) := by simp [evict, hk]
    simpa [notifications, hk, hevict] using Announces.refl gpu gs
  | some e =>
    by_cases hlock : 0 < e.lockCount
    · have hevict : gs.evict k = (gs, false) := by simp [evict, hk, hlock]
      simpa [notifications, hk, hevict] using Announces.refl gpu gs
    have hevict : gs.evict k = ((gs.returnSlot e).eraseResident k e, true) := by
      simp [evict, hk, hlock]
    have hres : (gs.returnSlot e).residents = gs.residents := by
      unfold returnSlot
      repeat' split
      all_goals rfl
    have hstable : ∀ k', (gs.evict k).1.Stable k' ↔ k' ≠ k ∧ gs.Stable k' := by
      intro k'
      rw [hevict]
      unfold GpuState.Stable eraseResident
      simp only [hres, Map.lookup_erase_iff, and_assoc, exists_and_left]
    by_cases hz : e.zone = .stable
    · exact .inr (.inr ⟨k, by simp [notifications, hk, hevict, hz], hstable⟩)
    refine .inl ⟨by simp [notifications, hk, hz], fun k' => ?_⟩
    rw [hstable]
    by_cases hkk : k' = k
    · subst hkk
      simp [stable_of_lookup hk, hz]
    · simp [hkk]

theorem announces_promote (gs : GpuState K) (gpu : ℕ) (k : K) :
    Announces gpu gs.Stable (gs.promote k).1.Stable (gs.notifications gpu (.promote k)) := by
  cases hk : gs.residents.lookup k with
  | none =>
    have hpromote : gs.promote k = (gs, false) := by simp [promote, hk]
    simpa [notifications, hpromote] using Announces.refl gpu gs
  | some e =>
    by_cases hz : e.zone = .streaming
    · have hpromote : gs.promote k = (gs.updateEntry k fun e => { e with zone := .stable }, true) := by
        simp [promote, hk, hz]
      rw [hpromote]
      refine .inr (.inl ⟨k, by simp [notifications, hpromote], fun k' => ?_⟩)
      rw [stable_updateEntry hk]
      by_cases hkk : k' = k <;> simp [hkk]
    · have hpromote : gs.promote k = (gs, false) := by simp [promote, hk, hz]
      simpa [notifications, hpromote] using Announces.refl gpu gs

theorem announces_demote (gs : GpuState K) (gpu : ℕ) (k : K) :
    Announces gpu gs.Stable (gs.demote k).1.Stable (gs.notifications gpu (.demote k)) := by
  cases hk : gs.residents.lookup k with
  | none =>
    have hdemote : gs.demote k = (gs, false) := by simp [demote, hk]
    simpa [notifications, hdemote] using Announces.refl gpu gs
  | some e =>
    by_cases hz : e.zone = .stable
    · have hdemote : gs.demote k =
          (gs.updateEntry k fun e => { e with zone := .streaming }, true) := by
        simp [demote, hk, hz]
      rw [hdemote]
      refine .inr (.inr ⟨k, by simp [notifications, hdemote], fun k' => ?_⟩)
      rw [stable_updateEntry hk]
      by_cases hkk : k' = k <;> simp [hkk]
    · have hdemote : gs.demote k = (gs, false) := by simp [demote, hk, hz]
      simpa [notifications, hdemote] using Announces.refl gpu gs

theorem stable_dropAll : ∀ (dropped : List (Σ _ : K, CacheEntry K)) {gs : GpuState K},
    (dropped.map (·.1)).Nodup →
    (∀ q ∈ dropped, gs.residents.lookup q.1 = some q.2 ∧ q.2.zone = .streaming) →
    ∀ k, (dropped.foldl (fun gs q => gs.eraseResident q.1 q.2) gs).Stable k ↔ gs.Stable k := by
  intro dropped
  induction dropped with
  | nil => exact fun _ _ _ => Iff.rfl
  | cons q dropped ih =>
    intro gs hnd hall k
    rw [List.map_cons, List.nodup_cons] at hnd
    obtain ⟨hq, hz⟩ := hall q List.mem_cons_self
    rw [List.foldl_cons, ih hnd.2]
    · -- the one dropped here was not a stable resident
      unfold GpuState.Stable eraseResident
      simp only [Map.lookup_erase_iff, and_assoc, exists_and_left]
      constructor
      · exact fun h => h.2
      · intro h
        refine ⟨?_, h⟩
        rintro rfl
        obtain ⟨e, he, hstable⟩ := h
        rw [hq, Option.some.injEq] at he
        rw [← he, hz] at hstable
        cases hstable
    · intro q' hq'
      obtain ⟨hl, hz'⟩ := hall q' (List.mem_cons_of_mem _ hq')
      refine ⟨Map.lookup_erase_iff.2 ⟨?_, hl⟩, hz'⟩
      intro heq
      exact hnd.1 (heq ▸ List.mem_map_of_mem hq')

theorem announces_enterSpillMode (gpu : ℕ) (h : gs.enterSpillMode = some gs') :
    Announces gpu gs.Stable gs'.Stable [] := by
  unfold enterSpillMode at h
  split at h
  · simp only [Option.some.injEq] at h
    subst h
    refine .inl ⟨rfl, stable_dropAll _ ?_ ?_⟩
    · exact (List.Sublist.map _ List.filter_sublist).nodup gs.residents.nodupKeys
    · intro q hq
      rw [List.mem_filter] at hq
      refine ⟨AList.mem_lookup_iff.2 hq.1, ?_⟩
      have hs := hq.2
      simp only [spills, Bool.and_eq_true, decide_eq_true_eq] at hs
      exact hs.1.1
  · cases h

/-- **Every call announces what it does to the stable zone.** -/
theorem GpuState.announces_apply {layout : GpuLayout} {gpu : ℕ} (op : CacheOp K)
    (h : gs.apply layout gpu op = some gs') :
    Announces gpu gs.Stable gs'.Stable (gs.notifications gpu op) := by
  have hready : ∀ {f : CacheEntry K → CacheEntry K} {k : K}, (∀ e, (f e).zone = e.zone) →
      (if k ∈ gs.residents then some (gs.updateEntry k f) else none) = some gs' →
      Announces gpu gs.Stable gs'.Stable [] := by
    intro f k hf hs
    split at hs
    · cases hs
      exact announces_updateEntry gs gpu k hf
    · cases hs
  cases op with
  | reserve k zone dup =>
    cases h
    exact announces_reserve gs gpu k zone dup
  | evict k =>
    cases h
    exact announces_evict gs gpu k
  | promote k =>
    cases h
    exact announces_promote gs gpu k
  | demote k =>
    cases h
    exact announces_demote gs gpu k
  | lock k | unlock k =>
    cases h
    exact announces_updateEntry gs gpu k fun _ => rfl
  | markReady k component =>
    refine hready (f := fun e => { e with
      subComponentsReady := e.subComponentsReady ||| component }) (fun _ => rfl) h
  | markAllReady k =>
    refine hready (f := fun e => { e with subComponentsReady := allReady }) (fun _ => rfl) h
  | addElasticZone grant =>
    simp only [apply, addElasticZone] at h
    split at h
    · cases h
      exact Announces.of_residents rfl
    · cases h
  | beginDrainElasticZone id =>
    cases h
    refine Announces.of_residents ?_
    unfold beginDrainElasticZone
    split <;> rfl
  | removeElasticZone id =>
    cases h
    refine Announces.of_residents ?_
    unfold removeElasticZone
    repeat' split
    all_goals rfl
  | enterSpillMode => exact announces_enterSpillMode gpu h
  | exitSpillMode =>
    simp only [apply, exitSpillMode] at h
    split at h
    · cases h
      exact Announces.of_residents rfl
    · cases h

end LayerStorm.Memory
