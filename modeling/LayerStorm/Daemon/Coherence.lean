import LayerStorm.Daemon.LifecycleMoves
import LayerStorm.Memory.SlotExclusivity

/-!
# Coherence of the lifecycle manager and the cache

An entry of the lifecycle manager should have a tier other than `absent` exactly when
the cache holds a slot for it.  All calls keep this but one: a request answered at
once, because the expert is hot, leaves its token in the token index, and cancelling
that token reverts the entry to `absent` without evicting the slot.

## Main results

* `cacheCoherent_of_run` — every run whose calls meet the condition is coherent.
* `cancelled_hit_leaves_slot` — without it, a slot is left behind.
-/

namespace LayerStorm.Daemon

open Function Lib Memory
open Manager GuardedRun ExpertCache

variable {K : Type} [DecidableEq K]

/-! ### The property -/

/-- **Coherence**: an entry is not absent if and only if the cache holds its slot. -/
def CacheCoherent (m : Manager K) : Prop :=
  ∀ k g, (m.gpuEntry k g).tier ≠ .absent ↔ k ∈ (m.cache.gpus g).residents

def GpuTier.isReady (t : GpuTier) : Prop := t = .hot ∨ t = .partial1 ∨ t = .partial12

/-- A call does not cancel a token whose entry is ready. -/
def SparesReady (m : Manager K) : Action K → Prop
  | .cancel token => ∀ k g, m.tokenIndex token = some (k, g) → ¬ (m.gpuEntry k g).tier.isReady
  | _ => True

/-- **The invariant.**  An entry that is not absent has a slot and, where `strict` is
asked for, a slot has an entry that is not absent; no resident is locked, so that
every eviction goes through; and an expert that is not in host memory is absent
everywhere. -/
structure Coherent (strict : Prop) (m : Manager K) : Prop where
  backed : ∀ k g, (m.gpuEntry k g).tier ≠ .absent → k ∈ (m.cache.gpus g).residents
  held : strict → ∀ k g, k ∈ (m.cache.gpus g).residents → (m.gpuEntry k g).tier ≠ .absent
  unlocked : ∀ g k e, (m.cache.gpus g).residents.lookup k = some e → e.lockCount = 0
  cold : ∀ k g, (m.hostEntry k).tier ≠ .warm → (m.gpuEntry k g).tier = .absent

variable {m m' : Manager K} {k : K} {g : ℕ} {strict : Prop}

/-! ### Changes of one entry -/

section

variable (h : Coherent strict m)
include h

theorem Coherent.keep
    (hmem : ∀ g' k', k' ∈ (m'.cache.gpus g').residents ↔ k' ∈ (m.cache.gpus g').residents)
    (hunlocked : ∀ g' k' e, (m'.cache.gpus g').residents.lookup k' = some e → e.lockCount = 0)
    (hhost : ∀ k', (m'.hostEntry k').tier = (m.hostEntry k').tier)
    (hbacked : ∀ k' g', (m'.gpuEntry k' g').tier ≠ .absent → (m.gpuEntry k' g').tier ≠ .absent)
    (hheld : strict → ∀ k' g', (m.gpuEntry k' g').tier ≠ .absent →
      (m'.gpuEntry k' g').tier ≠ .absent) :
    Coherent strict m' := by
  refine ⟨?_, ?_, hunlocked, ?_⟩
  · intro k' g' htier
    exact (hmem g' k').2 (h.backed k' g' (hbacked k' g' htier))
  · intro hstrict k' g' hin
    exact hheld hstrict k' g' (h.held hstrict k' g' ((hmem g' k').1 hin))
  · intro k' g' hcold
    rw [hhost] at hcold
    by_contra hne
    exact hbacked k' g' hne (h.cold k' g' hcold)

theorem Coherent.retier (hcache : m'.cache = m.cache)
    (hhost : ∀ k', (m'.hostEntry k').tier = (m.hostEntry k').tier)
    (hothers : ∀ k' g', ¬ (k' = k ∧ g' = g) → (m'.gpuEntry k' g').tier = (m.gpuEntry k' g').tier)
    (hbacked : (m'.gpuEntry k g).tier ≠ .absent → (m.gpuEntry k g).tier ≠ .absent)
    (hheld : strict → (m.gpuEntry k g).tier ≠ .absent → (m'.gpuEntry k g).tier ≠ .absent) :
    Coherent strict m' := by
  refine h.keep ?_ ?_ hhost ?_ ?_
  · intro g' k'
    rw [hcache]
  · rw [hcache]
    exact h.unlocked
  · intro k' g'
    by_cases hkg : k' = k ∧ g' = g
    · obtain ⟨rfl, rfl⟩ := hkg
      exact hbacked
    · rw [hothers k' g' hkg]
      exact id
  · intro hstrict k' g'
    by_cases hkg : k' = k ∧ g' = g
    · obtain ⟨rfl, rfl⟩ := hkg
      exact hheld hstrict
    · rw [hothers k' g' hkg]
      exact id

theorem Coherent.sameTier (hcache : m'.cache = m.cache)
    (hhost : ∀ k', (m'.hostEntry k').tier = (m.hostEntry k').tier)
    (htier : ∀ k' g', (m'.gpuEntry k' g').tier = (m.gpuEntry k' g').tier) :
    Coherent strict m' := by
  refine h.keep ?_ ?_ hhost ?_ ?_
  · intro g' k'
    rw [hcache]
  · rw [hcache]
    exact h.unlocked
  · intro k' g'
    rw [htier]
    exact id
  · intro _ k' g'
    rw [htier]
    exact id

theorem Coherent.mem_evictSlot (k : K) (g : ℕ) (k' : K) (g' : ℕ) :
    k' ∈ ((m.evictSlot k g).cache.gpus g').residents ↔
      ¬ (k' = k ∧ g' = g) ∧ k' ∈ (m.cache.gpus g').residents := by
  by_cases hg : g' = g
  · subst hg
    simp only [evictSlot, commit, update_self, Map.mem_iff]
    simp only [evict_lookup (h.unlocked g' k), and_true]
    constructor
    · rintro ⟨e, hne, he⟩
      exact ⟨hne, e, he⟩
    · rintro ⟨hne, e, he⟩
      exact ⟨e, hne, he⟩
  · simp [evictSlot, commit, hg]

theorem Coherent.unlocked_evictSlot (k : K) (g : ℕ) (g' : ℕ) (k' : K) (e : CacheEntry K)
    (hk : ((m.evictSlot k g).cache.gpus g').residents.lookup k' = some e) :
    e.lockCount = 0 := by
  by_cases hg : g' = g
  · subst hg
    simp only [evictSlot, commit, update_self] at hk
    exact h.unlocked g' k' e ((evict_lookup (h.unlocked g' k) k' e).1 hk).2
  · simp only [evictSlot, commit, update_of_ne hg] at hk
    exact h.unlocked g' k' e hk

theorem Coherent.drop (hcache : m'.cache = (m.evictSlot k g).cache)
    (hhost : ∀ k', (m'.hostEntry k').tier = (m.hostEntry k').tier)
    (hothers : ∀ k' g', ¬ (k' = k ∧ g' = g) → (m'.gpuEntry k' g').tier = (m.gpuEntry k' g').tier)
    (htier : (m'.gpuEntry k g).tier = .absent) : Coherent strict m' := by
  refine ⟨?_, ?_, ?_, ?_⟩
  · intro k' g' hne
    by_cases hkg : k' = k ∧ g' = g
    · obtain ⟨rfl, rfl⟩ := hkg
      exact absurd htier hne
    · rw [hothers k' g' hkg] at hne
      rw [hcache, h.mem_evictSlot]
      exact ⟨hkg, h.backed k' g' hne⟩
  · intro hstrict k' g' hin
    rw [hcache, h.mem_evictSlot] at hin
    rw [hothers k' g' hin.1]
    exact h.held hstrict k' g' hin.2
  · rw [hcache]
    exact h.unlocked_evictSlot k g
  · intro k' g' hcold
    by_cases hkg : k' = k ∧ g' = g
    · obtain ⟨rfl, rfl⟩ := hkg
      exact htier
    · rw [hothers k' g' hkg]
      rw [hhost] at hcold
      exact h.cold k' g' hcold

end

/-! ### Moves -/

omit [DecidableEq K] in
theorem tier_congr (h : m'.gpuEntries k g = m.gpuEntries k g) :
    (m'.gpuEntry k g).tier = (m.gpuEntry k g).tier := by
  unfold gpuEntry
  rw [h]

section

variable (h : Coherent strict m)
include h

theorem Coherent.tryStartH2d (htier : (m.gpuEntry k g).tier ≠ .absent) :
    Coherent strict (m.tryStartH2d k g) := by
  have hd := driven_tryStartH2d m k g
  refine h.retier hd.cache ?_ (fun k' g' hne => tier_congr (hd.others k' g' hne)) (fun _ => htier) ?_
  · intro k'
    unfold hostEntry
    rw [hd.hostEntries]
  · intro _ _
    rcases hd.tier with heq | heq
    · rw [heq]
      exact htier
    · rw [heq]
      exact GpuTier.noConfusion

theorem Coherent.revertGpuEntry (hready : strict → ¬ (m.gpuEntry k g).tier.isReady) :
    Coherent strict (m.revertGpuEntry k g) := by
  have hr := reverted_revertGpuEntry m k g
  have hothers : ∀ k' g', ¬ (k' = k ∧ g' = g) →
      ((m.revertGpuEntry k g).gpuEntry k' g').tier = (m.gpuEntry k' g').tier :=
    fun k' g' hne => tier_congr (hr.others k' g' hne)
  by_cases hslot : (m.gpuEntry k g).tier = .transferring ∨ (m.gpuEntry k g).tier = .reserved ∨
      (m.gpuEntry k g).tier = .draining
  · refine h.drop ?_ hr.hostTier hothers hr.tier
    rw [hr.cache, if_pos hslot]
  refine h.retier ?_ hr.hostTier hothers (fun hne => absurd hr.tier hne) ?_
  · rw [hr.cache, if_neg hslot]
  · intro hstrict hne
    have hnot := hready hstrict
    unfold GpuTier.isReady at hnot
    cases ht : (m.gpuEntry k g).tier <;> simp_all

theorem Coherent.cleared (k : K) (g : ℕ) : Coherent strict (m.cleared k g) := by
  refine h.sameTier rfl (fun _ => rfl) ?_
  intro k' g'
  rw [cleared_gpuEntry]
  split
  · rename_i hkg
    rw [hkg.1, hkg.2]
  · rfl

/-- Failing the interests of an entry keeps the invariant; the strict one, if the entry
is not ready. -/
theorem Coherent.completeFailed (hready : strict → ¬ (m.gpuEntry k g).tier.isReady) :
    Coherent strict (m.completeInterests k g false).1 := by
  rw [completeInterests_eq]
  refine (h.cleared k g).revertGpuEntry ?_
  rw [cleared_gpuEntry, if_pos ⟨rfl, rfl⟩]
  exact hready

end

omit [DecidableEq K] in
theorem not_isReady_of_absent (h : (m.gpuEntry k g).tier = .absent) :
    ¬ (m.gpuEntry k g).tier.isReady := by
  rw [h]
  rintro (h | h | h) <;> cases h

omit [DecidableEq K] in
theorem not_isReady_of_reserved (h : (m.gpuEntry k g).tier = .reserved) :
    ¬ (m.gpuEntry k g).tier.isReady := by
  rw [h]
  rintro (h | h | h) <;> cases h

section

variable (h : Coherent strict m)
include h

theorem Coherent.takeSlot {zone : CacheZone} {addr : ℕ} (hwarm : (m.hostEntry k).tier = .warm)
    (hr : ((m.cache.gpus g).reserve k g zone false).2 = some addr) :
    Coherent strict (m.takeSlot k g zone) := by
  obtain ⟨_, e, hlock, _, hres⟩ := reserve_some hr
  have hmem : ∀ k' g', k' ∈ ((m.takeSlot k g zone).cache.gpus g').residents ↔
      (k' = k ∧ g' = g) ∨ k' ∈ (m.cache.gpus g').residents := by
    intro k' g'
    by_cases hg : g' = g
    · subst hg
      simp [Manager.takeSlot, Manager.setGpuEntry, ExpertCache.commit, hres]
    · simp [Manager.takeSlot, Manager.setGpuEntry, ExpertCache.commit, hg]
  refine ⟨?_, ?_, ?_, ?_⟩
  · intro k' g' hne
    rw [Manager.takeSlot_gpuEntry] at hne
    rw [hmem]
    by_cases hkg : k' = k ∧ g' = g
    · exact .inl hkg
    · rw [if_neg hkg] at hne
      exact .inr (h.backed k' g' hne)
  · intro hstrict k' g' hin
    rw [Manager.takeSlot_gpuEntry]
    split
    · exact GpuTier.noConfusion
    · rename_i hkg
      exact h.held hstrict k' g' (((hmem k' g').1 hin).resolve_left hkg)
  · intro g' k' e' hk'
    by_cases hg : g' = g
    · subst hg
      simp only [Manager.takeSlot, Manager.setGpuEntry, ExpertCache.commit, update_self,
        hres] at hk'
      rcases Map.lookup_insert_iff.1 hk' with ⟨_, rfl⟩ | ⟨_, hold⟩
      · exact hlock
      · exact h.unlocked g' k' e' hold
    · simp only [Manager.takeSlot, Manager.setGpuEntry, ExpertCache.commit,
        update_of_ne hg] at hk'
      exact h.unlocked g' k' e' hk'
  · intro k' g' hcold
    have hcold' : (m.hostEntry k').tier ≠ .warm := hcold
    rw [Manager.takeSlot_gpuEntry, if_neg]
    · exact h.cold k' g' hcold'
    · rintro ⟨rfl, _⟩
      exact hcold' hwarm

theorem Coherent.reserveAndStart (hwarm : (m.hostEntry k).tier = .warm)
    (htier : (m.gpuEntry k g).tier = .absent) (zone : CacheZone) :
    Coherent strict (m.reserveAndStart k g zone).1 := by
  unfold Manager.reserveAndStart
  split
  · exact h.completeFailed fun _ => not_isReady_of_absent htier
  rename_i addr hr
  refine (h.takeSlot hwarm hr).tryStartH2d ?_
  rw [Manager.takeSlot_gpuEntry, if_pos ⟨rfl, rfl⟩]
  exact GpuTier.noConfusion

/-! ### Requests -/

theorem Coherent.setHostEntry {he : HostEntry}
    (hhost : he.tier = .warm ∨ (m.hostEntry k).tier ≠ .warm) :
    Coherent strict (m.setHostEntry k he) := by
  refine { h with cold := ?_ }
  intro k' g' hcold
  rw [hostEntry_setHostEntry] at hcold
  by_cases hk : k' = k
  · subst hk
    rw [if_pos rfl] at hcold
    rcases hhost with hwarm | hold
    · exact absurd hwarm hcold
    · exact h.cold k' g' hold
  · rw [if_neg hk] at hcold
    exact h.cold k' g' hcold

theorem Coherent.setInterests (k : K) (g : ℕ) (l : List Interest) :
    Coherent strict (m.setGpuEntry k g { m.gpuEntry k g with interests := l }) := by
  refine h.sameTier rfl (fun _ => rfl) ?_
  intro k' g'
  rw [gpuEntry_setGpuEntry]
  split
  · rename_i hkg
    rw [hkg.1, hkg.2]
  · rfl

theorem Coherent.register (k : K) (g cmdSeq : ℕ) : Coherent strict (m.register k g cmdSeq) := by
  have hissue : Coherent strict (m.issueToken k g cmdSeq) := by
    have hset := h.setInterests k g (m.gpuEntry k g).interests
    exact { hset with }
  unfold Manager.register Manager.initHostTier
  simp only
  split
  · rename_i hcold
    have hasked : Coherent strict (m.issueToken k g cmdSeq).ask := { hissue with }
    refine hasked.setHostEntry (.inr ?_)
    intro hwarm
    exact absurd (hcold.1.symm.trans hwarm) HostTier.noConfusion
  · refine hissue.setHostEntry ?_
    by_cases hwarm : ((m.issueToken k g cmdSeq).hostEntry k).tier = .warm
    · exact .inl hwarm
    · exact .inr hwarm

theorem Coherent.queue (out : List (LifecycleCompletion K)) : Coherent strict (m.queue out) :=
  { h with }

theorem Coherent.addWaiter (k : K) (g : ℕ) (zone : CacheZone) :
    Coherent strict (m.addWaiter k g zone) := by
  refine h.setHostEntry ?_
  by_cases hwarm : (m.hostEntry k).tier = .warm
  · exact .inl hwarm
  · exact .inr hwarm

theorem Coherent.startChain (htier : (m.gpuEntry k g).tier = .absent) (zone : CacheZone) :
    Coherent strict (m.startChain k g zone) := by
  have hasked : Coherent strict m.ask := { h with }
  unfold Manager.startChain
  cases hhost : (m.hostEntry k).tier with
  | warm => exact (h.reserveAndStart hhost htier zone).queue _
  | loadingToRam => exact h.addWaiter k g zone
  | cold =>
    have hcold : (m.ask.hostEntry k).tier ≠ .warm := by
      intro hwarm
      exact absurd (hhost.symm.trans hwarm) HostTier.noConfusion
    simp only
    split
    · refine ((hasked.setHostEntry (.inl rfl)).reserveAndStart ?_ htier zone).queue _
      rw [Manager.hostEntry_setHostEntry, if_pos rfl]
    · exact (hasked.setHostEntry (.inr hcold)).addWaiter k g zone
    · exact (hasked.completeFailed fun _ => not_isReady_of_absent htier).queue _

theorem Coherent.ensureResident (k : K) (g : ℕ) (zone : CacheZone) (cmdSeq : ℕ) :
    Coherent strict (m.ensureResident k g zone cmdSeq) := by
  have hreg := h.register k g cmdSeq
  -- an entry that is not absent is in the cache, so the healing branch is not taken
  have hready : ((m.register k g cmdSeq).gpuEntry k g).tier ≠ .absent →
      k ∈ ((m.register k g cmdSeq).cache.gpus g).residents := hreg.backed k g
  unfold Manager.ensureResident
  simp only
  cases ht : ((m.register k g cmdSeq).gpuEntry k g).tier with
  | hot | partial1 | partial12 =>
    simp only [hready (by simp [ht])]
    exact hreg.queue _
  | transferring => exact hreg.setInterests k g _
  | reserved =>
    have hadd := hreg.setInterests k g
      (((m.register k g cmdSeq).gpuEntry k g).interests ++ [⟨m.nextToken, cmdSeq, zone⟩])
    simp only
    split
    · refine hadd.tryStartH2d ?_
      simp [ht]
    · exact hadd
  | absent =>
    refine (hreg.setInterests k g _).startChain ?_ zone
    rw [Manager.gpuEntry_setGpuEntry, if_pos ⟨rfl, rfl⟩]
    exact ht
  | draining => exact hreg.queue _

theorem Coherent.requestEvict (k : K) (g : ℕ) : Coherent strict (m.requestEvict k g).1 := by
  have hrefused : ((m.cache.gpus g).evict k).2 = false → Coherent strict (m.evictSlot k g) := by
    intro hno
    have hout : k ∉ (m.cache.gpus g).residents := by
      intro hin
      rw [(evict_accepted (h.unlocked g k)).2 hin] at hno
      cases hno
    have habsent : (m.gpuEntry k g).tier = .absent := by
      by_contra hne
      exact hout (h.backed k g hne)
    exact h.drop rfl (fun _ => rfl) (fun _ _ _ => rfl) habsent
  have htracked : ∀ ge, m.gpuEntries k g = some ge →
      Coherent strict ((m.evictSlot k g).setGpuEntry k g
        { ge with tier := .absent, transferToken := 0 }) := by
    intro ge _
    refine h.drop (k := k) (g := g) rfl (fun _ => rfl) ?_ ?_
    · intro k' g' hne
      rw [Manager.gpuEntry_setGpuEntry, if_neg hne]
      rfl
    · rw [Manager.gpuEntry_setGpuEntry, if_pos ⟨rfl, rfl⟩]
  unfold Manager.requestEvict
  cases hge : m.gpuEntries k g with
  | none =>
    have habsent : (m.gpuEntry k g).tier = .absent := by
      unfold Manager.gpuEntry
      rw [hge]
      rfl
    exact h.drop rfl (fun _ => rfl) (fun _ _ _ => rfl) habsent
  | some ge =>
    simp only
    split_ifs with hint hbusy hok
    · exact h
    · exact h
    · exact htracked ge hge
    · exact hrefused (by simpa using hok)

end

theorem Coherent.makeRoom (g : ℕ) (victims : List K) :
    ∀ {m : Manager K}, Coherent strict m → Coherent strict (m.makeRoom g victims).1 := by
  induction victims with
  | nil => exact fun h => h
  | cons victim victims ih =>
    intro m h
    unfold Manager.makeRoom
    simp only
    split
    · exact h.requestEvict victim g
    · exact ih (h.requestEvict victim g)

theorem Coherent.ensureResidents (g cmdSeq : ℕ) (reqs : List (K × CacheZone)) :
    ∀ {m : Manager K} (victims : List K), Coherent strict m →
      Coherent strict (m.ensureResidents g cmdSeq reqs victims).1 := by
  induction reqs with
  | nil => exact fun _ h => h
  | cons req reqs ih =>
    intro m victims h
    refine ih _ (Coherent.ensureResident ?_ _ _ _ _)
    split
    · exact Coherent.makeRoom g victims h
    · exact h

theorem Coherent.requestDrain (h : Coherent strict m) (k : K) (g cmdSeq : ℕ) :
    Coherent strict (m.requestDrain k g cmdSeq).1 := by
  unfold Manager.requestDrain
  cases hge : m.gpuEntries k g with
  | none => exact h
  | some ge =>
    simp only
    split_ifs with hcond
    · have hasked : Coherent strict m.ask := { h with }
      split
      · exact hasked
      have hhot : (m.ask.gpuEntry k g).tier = .hot := by
        rw [show m.ask.gpuEntry k g = ge from Manager.gpuEntry_of_some hge]
        exact hcond.1
      refine hasked.retier (k := k) (g := g) rfl (fun _ => rfl) ?_ ?_ ?_
      · intro k' g' hne
        rw [Manager.gpuEntry_setGpuEntry, if_neg hne]
      · rw [hhot]
        exact fun _ => GpuTier.noConfusion
      · rw [Manager.gpuEntry_setGpuEntry, if_pos ⟨rfl, rfl⟩]
        exact fun _ _ => GpuTier.noConfusion
    · exact h

theorem Coherent.cancel (h : Coherent strict m) {token : ℕ}
    (hready : strict → ∀ k g, m.tokenIndex token = some (k, g) → ¬ (m.gpuEntry k g).tier.isReady) :
    Coherent strict (m.cancel token) := by
  unfold Manager.cancel
  cases hidx : m.tokenIndex token with
  | none => exact h
  | some kg =>
    obtain ⟨k, g⟩ := kg
    have hdrop : Coherent strict ({ m with tokenIndex := update m.tokenIndex token none } :
        Manager K) := { h with }
    simp only
    cases hge : m.gpuEntries k g with
    | none => exact hdrop
    | some ge =>
      -- without the interest, the tiers are what they were
      have hspec : ∀ m' : Manager K, Coherent strict m' →
          (m'.gpuEntry k g).tier = (m.gpuEntry k g).tier →
          Coherent strict (if (m'.gpuEntry k g).interests = [] then m'.revertGpuEntry k g else m') := by
        intro m' hm' htier
        split
        · refine hm'.revertGpuEntry fun hstrict => ?_
          rw [htier]
          exact hready hstrict k g hidx
        · exact hm'
      have hentry : m.gpuEntry k g = ge := Manager.gpuEntry_of_some hge
      simp only
      cases hfind : ge.interests.find? fun i => i.token = token with
      | none => exact hspec _ { h with } rfl
      | some i =>
        have hset := h.setInterests k g (ge.interests.eraseP fun i => i.token = token)
        rw [hentry] at hset
        refine hspec _ { hset with } ?_
        show (Manager.gpuEntry (Manager.setGpuEntry _ k g _) k g).tier = _
        rw [Manager.gpuEntry_setGpuEntry, if_pos ⟨rfl, rfl⟩, hentry]

/-! ### Zone changes -/

variable {gs : GpuState K}

theorem updateEntry_unlocked {f : CacheEntry K → CacheEntry K}
    (hf : ∀ e, (f e).lockCount = e.lockCount)
    (h : ∀ k e, gs.residents.lookup k = some e → e.lockCount = 0) (k : K) :
    (∀ k', k' ∈ (gs.updateEntry k f).residents ↔ k' ∈ gs.residents) ∧
      ∀ k' e, (gs.updateEntry k f).residents.lookup k' = some e → e.lockCount = 0 := by
  unfold GpuState.updateEntry
  cases hk : gs.residents.lookup k with
  | none => exact ⟨fun _ => Iff.rfl, h⟩
  | some e =>
    refine ⟨?_, ?_⟩
    · intro k'
      simp only [AList.mem_insert]
      constructor
      · rintro (rfl | hk')
        · exact Map.mem_of_lookup hk
        · exact hk'
      · exact .inr
    · intro k' e' hk'
      rcases Map.lookup_insert_iff.1 hk' with ⟨_, rfl⟩ | ⟨_, hold⟩
      · rw [hf]
        exact h k e hk
      · exact h k' e' hold

section

variable (h : Coherent strict m)
include h

theorem Coherent.commit (g : ℕ) (op : CacheOp K)
    (hgs : (∀ k', k' ∈ gs.residents ↔ k' ∈ (m.cache.gpus g).residents) ∧
      ∀ k' e, gs.residents.lookup k' = some e → e.lockCount = 0) :
    Coherent strict { m with cache := m.cache.commit g op gs } := by
  refine h.keep ?_ ?_ (fun _ => rfl) (fun _ _ => id) (fun _ _ _ => id)
  · intro g' k'
    by_cases hg : g' = g
    · subst hg
      simp only [ExpertCache.commit, update_self]
      exact hgs.1 k'
    · simp only [ExpertCache.commit, update_of_ne hg]
  · intro g' k' e hk'
    by_cases hg : g' = g
    · subst hg
      simp only [ExpertCache.commit, update_self] at hk'
      exact hgs.2 k' e hk'
    · simp only [ExpertCache.commit, update_of_ne hg] at hk'
      exact h.unlocked g' k' e hk'

theorem Coherent.promote (k : K) (g : ℕ) : Coherent strict (m.promote k g).1 := by
  have hcommit : Coherent strict { m with
      cache := m.cache.commit g (.promote k) ((m.cache.gpus g).promote k).1 } := by
    refine h.commit g _ ?_
    unfold GpuState.promote
    split
    · split
      · refine updateEntry_unlocked ?_ (h.unlocked g) k
        exact fun _ => rfl
      · exact ⟨fun _ => Iff.rfl, h.unlocked g⟩
    · exact ⟨fun _ => Iff.rfl, h.unlocked g⟩
  unfold Manager.promote
  split
  · split
    · exact h
    · exact hcommit
  · exact hcommit

theorem Coherent.demote (k : K) (g : ℕ) : Coherent strict (m.demote k g).1 := by
  have hcommit : Coherent strict { m with
      cache := m.cache.commit g (.demote k) ((m.cache.gpus g).demote k).1 } := by
    refine h.commit g _ ?_
    unfold GpuState.demote
    split
    · split
      · refine updateEntry_unlocked ?_ (h.unlocked g) k
        exact fun _ => rfl
      · exact ⟨fun _ => Iff.rfl, h.unlocked g⟩
    · exact ⟨fun _ => Iff.rfl, h.unlocked g⟩
  unfold Manager.demote
  split
  · split
    · exact h
    · exact hcommit
  · exact hcommit

/-! ### Poll -/

theorem Coherent.retry (gk : K × ℕ) : Coherent strict (m.retry gk) := by
  unfold Manager.retry
  split
  · exact h
  rename_i ge hge
  split
  · rename_i htier
    refine h.tryStartH2d ?_
    rw [Manager.gpuEntry_of_some hge, htier]
    exact GpuTier.noConfusion
  · exact h

theorem Coherent.retryAll (waiters : List (K × ℕ)) :
    Coherent strict (waiters.foldl Manager.retry m) :=
  List.foldlRecOn waiters _ h fun _ hb gk _ => hb.retry gk

end

variable {s : Manager.Polling K}

theorem Coherent.failReserved (h : Coherent strict s.1) (gk : K × ℕ) :
    Coherent strict (Manager.failReserved s gk).1 := by
  unfold Manager.failReserved
  split
  · exact h
  rename_i ge hge
  split
  · rename_i htier
    refine h.completeFailed fun _ => not_isReady_of_reserved ?_
    rw [Manager.gpuEntry_of_some hge, htier]
  · exact h

theorem Coherent.arenaLoadDone (h : Coherent strict s.1) (lc : ArenaLoadCompletion K) :
    Coherent strict (Manager.arenaLoadDone s lc).1 := by
  have htaken : Coherent strict { s.1 with
      arenaLoadWaiters := update s.1.arenaLoadWaiters lc.key [] } := { h with }
  unfold Manager.arenaLoadDone
  split
  · exact htaken.retryAll _
  · exact List.foldlRecOn (motive := fun s : Manager.Polling K => Coherent strict s.1) _ _ htaken
      fun _ hb gk _ => hb.failReserved gk

theorem hostTier_completeFailed (m : Manager K) (k : K) (g : ℕ) (k' : K) :
    ((m.completeInterests k g false).1.hostEntry k').tier = (m.hostEntry k').tier := by
  rw [completeInterests_eq]
  exact (reverted_revertGpuEntry (m.cleared k g) k g).hostTier k'

theorem hostEntry_tryStartH2d (m : Manager K) (k : K) (g : ℕ) (k' : K) :
    (m.tryStartH2d k g).hostEntry k' = m.hostEntry k' := by
  unfold hostEntry
  rw [(driven_tryStartH2d m k g).hostEntries]

theorem hostTier_reserveAndStart (m : Manager K) (k : K) (g : ℕ) (zone : CacheZone) (k' : K) :
    ((m.reserveAndStart k g zone).1.hostEntry k').tier = (m.hostEntry k').tier := by
  unfold reserveAndStart
  split
  · exact hostTier_completeFailed m k g k'
  · rw [hostEntry_tryStartH2d]
    rfl

theorem Coherent.startWaiter (h : Coherent strict s.1) (hwarm : (s.1.hostEntry k).tier = .warm)
    (w : PendingGpuChain) :
    Coherent strict (Manager.startWaiter k s w).1 ∧
      ((Manager.startWaiter k s w).1.hostEntry k).tier = .warm := by
  have htouch := h.setInterests k w.gpuIdx (s.1.gpuEntry k w.gpuIdx).interests
  unfold Manager.startWaiter
  simp only
  split
  · rename_i habsent
    refine ⟨htouch.reserveAndStart hwarm habsent w.zone, ?_⟩
    rw [hostTier_reserveAndStart]
    exact hwarm
  · rename_i hreserved
    refine ⟨htouch.tryStartH2d ?_, ?_⟩
    · rw [hreserved]
      exact GpuTier.noConfusion
    · rw [hostEntry_tryStartH2d]
      exact hwarm
  · exact ⟨htouch, hwarm⟩

theorem Coherent.failWaiter (h : Coherent strict s.1) (hcold : (s.1.hostEntry k).tier = .cold)
    (w : PendingGpuChain) :
    Coherent strict (Manager.failWaiter k s w).1 ∧
      ((Manager.failWaiter k s w).1.hostEntry k).tier = .cold := by
  unfold Manager.failWaiter
  split
  · exact ⟨h, hcold⟩
  have habsent : (s.1.gpuEntry k w.gpuIdx).tier = .absent := by
    refine h.cold k w.gpuIdx ?_
    rw [hcold]
    exact HostTier.noConfusion
  refine ⟨h.completeFailed fun _ => not_isReady_of_absent habsent, ?_⟩
  rw [hostTier_completeFailed]
  exact hcold

theorem Coherent.clearWaiters (h : Coherent strict m) (k : K) :
    Coherent strict (m.clearWaiters k) := by
  refine h.setHostEntry ?_
  by_cases hwarm : (m.hostEntry k).tier = .warm
  · exact .inl hwarm
  · exact .inr hwarm

theorem Coherent.nvmeDone (h : Coherent strict s.1) (nc : IoCompletion K) :
    Coherent strict (Manager.nvmeDone s nc).1 := by
  unfold Manager.nvmeDone
  split
  · exact h
  rename_i he hhe
  have hentry := Manager.hostEntry_of_some hhe
  split
  · exact h
  rename_i hload
  have hcold : (s.1.hostEntry nc.key).tier ≠ .warm := by
    rw [hentry, not_not.1 hload]
    exact HostTier.noConfusion
  split
  · refine Coherent.clearWaiters (Manager.driveWaiters_invariant
      (P := fun s : Manager.Polling K => Coherent strict s.1 ∧
        (s.1.hostEntry nc.key).tier = .warm) (fun s w hs => ?_) _ ⟨?_, ?_⟩).1 _
    · exact hs.1.startWaiter hs.2 w
    · exact h.setHostEntry (.inl rfl)
    · simp
  · refine Coherent.clearWaiters (Manager.driveWaiters_invariant
      (P := fun s : Manager.Polling K => Coherent strict s.1 ∧
        (s.1.hostEntry nc.key).tier = .cold) (fun s w hs => ?_) _ ⟨?_, ?_⟩).1 _
    · exact hs.1.failWaiter hs.2 w
    · exact h.setHostEntry (.inr hcold)
    · simp

variable {ge : GpuEntry}

theorem Coherent.markHot_cleared (h : Coherent strict m) (hge : m.gpuEntries k g = some ge)
    (htier : ge.tier = .transferring) (hgs : (m.cache.gpus g).markAllReady k = some gs) :
    Coherent strict ((m.markHot k g ge gs).cleared k g) := by
  have hmark : Coherent strict { m with cache := m.cache.commit g (.markAllReady k) gs } := by
    refine h.commit g _ ?_
    unfold GpuState.markAllReady at hgs
    split at hgs
    · cases hgs
      refine updateEntry_unlocked ?_ (h.unlocked g) k
      exact fun _ => rfl
    · cases hgs
  have hhot : Coherent strict (m.markHot k g ge gs) := by
    refine hmark.retier (k := k) (g := g) rfl (fun _ => rfl) ?_ ?_ ?_
    · intro k' g' hne
      rw [markHot, gpuEntry_setGpuEntry, if_neg hne]
    · intro _ hab
      have hold : (m.gpuEntry k g).tier = .transferring := by
        rw [gpuEntry_of_some hge, htier]
      exact absurd (hold.symm.trans hab) GpuTier.noConfusion
    · rw [markHot, gpuEntry_setGpuEntry, if_pos ⟨rfl, rfl⟩]
      exact fun _ _ => GpuTier.noConfusion
  exact hhot.cleared k g

theorem Coherent.h2dDone (h : Coherent strict m) (hge : m.gpuEntries k g = some ge)
    (htier : ge.tier = .transferring) {r : Manager K × List (LifecycleCompletion K)}
    (hr : m.h2dDone k g ge = some r) :
    Coherent strict r.1 := by
  obtain ⟨gs, hgs, rfl⟩ := Option.map_eq_some_iff.1 hr
  have hcleared := h.markHot_cleared hge htier hgs
  simp only [completeInterests_eq]
  refine Coherent.retryAll ?_ _
  exact { hcleared with }

theorem Coherent.d2hDone (h : Coherent strict m) (k : K) (g : ℕ) (ge : GpuEntry) (success : Bool) :
    Coherent strict (m.d2hDone k g ge success).1 := by
  unfold Manager.d2hDone
  refine h.drop (k := k) (g := g) rfl (fun _ => rfl) ?_ ?_
  · intro k' g' hne
    rw [Manager.gpuEntry_setGpuEntry, if_neg hne]
    rfl
  · rw [Manager.gpuEntry_setGpuEntry, if_pos ⟨rfl, rfl⟩]

theorem Coherent.transferDone {s' : Manager.Polling K} (h : Coherent strict s.1)
    {xc : TransferCompletion K} (hs : Manager.transferDone s xc = some s') :
    Coherent strict s'.1 := by
  unfold Manager.transferDone at hs
  cases hge : s.1.gpuEntries xc.key xc.gpuIdx with
  | none =>
    rw [hge] at hs
    cases hs
    exact h
  | some ge =>
    rw [hge] at hs
    have hentry := Manager.gpuEntry_of_some hge
    cases hdir : xc.direction with
    | h2d =>
      simp only [hdir] at hs
      split at hs
      · cases hs
        exact h
      rename_i htier
      split at hs
      · obtain ⟨r, hr, rfl⟩ := Option.map_eq_some_iff.1 hs
        exact h.h2dDone hge (not_not.1 htier) hr
      cases hs
      have hset : Coherent strict (s.1.setGpuEntry xc.key xc.gpuIdx
          { ge with transferToken := 0 }) := by
        refine h.sameTier rfl (fun _ => rfl) ?_
        intro k' g'
        rw [Manager.gpuEntry_setGpuEntry]
        split
        · rename_i hkg
          rw [hkg.1, hkg.2, hentry]
        · rfl
      refine hset.completeFailed fun _ => ?_
      rw [Manager.gpuEntry_setGpuEntry]
      simp only [not_not.1 htier]
      rintro (hr | hr | hr) <;> cases hr
    | d2h =>
      simp only [hdir] at hs
      split at hs
      · cases hs
        exact h
      · cases hs
        exact h.d2hDone xc.key xc.gpuIdx ge xc.success

theorem Coherent.poll (h : Coherent strict m) {loads : List (ArenaLoadCompletion K)}
    {nvme : List (IoCompletion K)} {transfers : List (TransferCompletion K)}
    (hs : m.poll loads nvme transfers = some s) : Coherent strict s.1 := by
  have hstart : Coherent strict m.startPoll.1 := { h with }
  have hloads : Coherent strict (loads.foldl Manager.arenaLoadDone m.startPoll).1 :=
    List.foldlRecOn (motive := fun s : Manager.Polling K => Coherent strict s.1) _ _ hstart
      fun _ hb lc _ => hb.arenaLoadDone lc
  have hnvme : Coherent strict
      (nvme.foldl Manager.nvmeDone (loads.foldl Manager.arenaLoadDone m.startPoll)).1 :=
    List.foldlRecOn (motive := fun s : Manager.Polling K => Coherent strict s.1) _ _ hloads
      fun _ hb nc _ => hb.nvmeDone nc
  exact foldlM_invariant (P := fun s : Manager.Polling K => Coherent strict s.1) transfers
    (fun _ _ _ _ hb hstep => hb.transferDone hstep) hs hnvme

/-! ### Runs -/

theorem Coherent.step (h : Coherent strict m) {a : Action K} (hok : strict → SparesReady m a)
    (hstep : m.step a = some m') : Coherent strict m' := by
  obtain ⟨s, hs, rfl⟩ := Option.map_eq_some_iff.1 hstep
  cases a with
  | ensureResident key gpu zone cmdSeq =>
    cases hs
    exact h.ensureResident key gpu zone cmdSeq
  | ensureResidents gpu cmdSeq reqs victims =>
    cases hs
    exact Coherent.ensureResidents gpu cmdSeq reqs victims h
  | requestEvict key gpu =>
    cases hs
    exact h.requestEvict key gpu
  | requestDrain key gpu cmdSeq =>
    cases hs
    exact h.requestDrain key gpu cmdSeq
  | cancel token =>
    cases hs
    exact h.cancel hok
  | promote key gpu =>
    cases hs
    exact h.promote key gpu
  | demote key gpu =>
    cases hs
    exact h.demote key gpu
  | poll loads nvme transfers => exact h.poll hs

theorem Coherent.init (n : ℕ) (layout : ℕ → GpuLayout) (emitProgress : Bool)
    (answers : ℕ → Answer) :
    Coherent strict (init n layout emitProgress answers : Manager K) := by
  refine ⟨?_, ?_, ?_, ?_⟩
  · exact fun k g hne => absurd rfl hne
  · exact fun _ k g hin => absurd hin (AList.notMem_empty k)
  · intro g k e hk
    cases hk
  · intro k g _
    rfl

/-- **Coherence.**  In every run whose calls never cancel a token of a ready entry, an
entry is not absent if and only if the cache holds its slot, in every state reached
and whatever the services answer. -/
theorem cacheCoherent_of_run {n : ℕ} {layout : ℕ → GpuLayout} {emitProgress : Bool}
    {answers : ℕ → Answer} {as : List (Action K)} {m : Manager K}
    (hrun : GuardedRun Manager.step SparesReady (Manager.init n layout emitProgress answers) as m) :
    CacheCoherent m := by
  have hinv : Coherent True m :=
    hrun.invariant (fun _ _ _ h hok hstep => Coherent.step h (fun _ => hok) hstep)
      (Coherent.init n layout emitProgress answers)
  exact fun k g => ⟨hinv.backed k g, hinv.held trivial k g⟩

/-- Services that have every expert in host memory and accept every copy. -/
def warmAnswers (_ : ℕ) : Answer := ⟨.warm, none, .found, some 1, false, some 1⟩

/-- A run that meets the condition: two experts are requested, the copy of one is
cancelled, the other becomes hot. -/
theorem cacheCoherent_of_run_one_cancelled :
    ∃ as, ∃ m : Manager ℕ, GuardedRun Manager.step SparesReady
      (Manager.init 1 tinyLayout false warmAnswers) as m ∧
      (m.gpuEntry 0 0).tier = .hot ∧ (m.gpuEntry 1 0).tier = .absent ∧ CacheCoherent m := by
  have hrun : GuardedRun step SparesReady (init 1 tinyLayout false warmAnswers : Manager ℕ)
      [.ensureResident 0 0 .stable 10, .ensureResident 1 0 .stable 11, .cancel 2,
        .poll [] [] [⟨0, 0, .h2d, true⟩]] _ :=
    cons trivial rfl (cons trivial rfl (cons (fun k g hidx => by
        cases hidx
        rintro (h | h | h) <;> cases h)
      rfl (cons trivial rfl (nil _))))
  exact ⟨_, _, hrun, rfl, rfl, cacheCoherent_of_run hrun⟩

/-- An expert is hot, a second request for it is answered at once, and the token of
that request is cancelled: the entry is absent, and the cache holds the slot. -/
theorem cancelled_hit_leaves_slot :
    ∃ as, ∃ m : Manager ℕ, Run Manager.step (Manager.init 1 tinyLayout false warmAnswers) as m ∧
      ¬ CacheCoherent m := by
  have hrun : Run step (init 1 tinyLayout false warmAnswers : Manager ℕ)
      [.ensureResident 0 0 .stable 10, .poll [] [] [⟨0, 0, .h2d, true⟩],
        .ensureResident 0 0 .stable 11, .cancel 2] _ :=
    Run.cons rfl (Run.cons rfl (Run.cons rfl (Run.cons rfl (nil _))))
  refine ⟨_, _, hrun, ?_⟩
  intro h
  exact (h 0 0).2 (by decide) rfl

end LayerStorm.Daemon
