import LayerStorm.Paging.AllocatorInvariant

/-!
# The representation invariant of the page allocator

After every sequence of calls the slab table of every GPU is consistent: the list of free
slabs is right, a slab of a sequence counts its live pages and its holes, no slab has two
tenants, and the cached count of free pages is the number of free pages.  So no call ever
hands out a page that is still live.

## Main results

* `slabbedPools_of_run` — the representation invariant holds after every run.
-/

namespace LayerStorm.Paging

open Lib List Finset

/-! ### The constructor -/

variable {cfg : Config} {gpus gpus' : Gpus} {g : ℕ}

theorem of_init {l : VramLayout} (h : init l = some gpus) :
    (∀ g < l.gpuCount, l.GpuOk g) ∧ gpus = l.initGpu := by
  unfold init at h
  split at h
  · rename_i hok
    exact ⟨hok.2, (Option.some.inj h).symm⟩
  · cases h

namespace VramLayout

variable {l : VramLayout}

theorem numSlabs_mul (hok : l.GpuOk g) (hslabs : l.KvSlabManaged g) :
    l.numSlabs g * l.pagesPerSlab = (l.gpus g).kvMainPages := by
  unfold numSlabs
  rw [if_pos hslabs]
  exact Nat.div_mul_cancel (Nat.dvd_of_mod_eq_zero (hok.1 hslabs))

theorem sideInv_fixedSide (total : ℕ) : SideInv (fixedSide total) where
  bound := fun _ hi => absurd hi (Nat.lt_irrefl 0)
  nodup := nodup_reverse.2 nodup_range
  mem_free := by
    simp [fixedSide, PageMeta.fresh]
  empty := fun helastic => nomatch helastic

theorem sideInv_elasticSide (n runSlabs : ℕ) : SideInv (elasticSide n runSlabs) where
  bound := fun _ hi => absurd hi (Nat.lt_irrefl 0)
  nodup := nodup_nil
  mem_free := fun helastic => nomatch helastic
  empty := fun _ => rfl

theorem not_owns_initGpu (t : Tenant) (s : ℕ) : ¬ (l.initGpu g).Owns t s := by
  cases t with
  | sequence seq => exact not_mem_nil
  | side sd page =>
    rintro ⟨_, hlive, _⟩
    revert hlive
    cases sd <;> simp only [initGpu] <;> try split
    all_goals simp [fixedSide, elasticSide, PageMeta.fresh]
  | zone start =>
    rintro ⟨n, hn, _⟩
    cases hn

theorem slabTable_initGpu : SlabTable l.pagesPerSlab (l.numSlabs g) (l.initGpu g).kvSlabs
    (l.initGpu g).kvFreeSlabs (l.initGpu g).kvRuns (l.initGpu g).Owns (l.initGpu g).Live where
  tenancy := ⟨fun s => ⟨fun hc => (nomatch hc), fun ⟨t, ho⟩ => absurd ho (not_owns_initGpu t s)⟩,
    fun t _ s ho => absurd ho (not_owns_initGpu t s)⟩
  inRange := fun t s ho => absurd ho (not_owns_initGpu t s)
  runs_iff := fun _ _ => Iff.rfl
  runsNodup := fun _ => nodup_nil
  freeNodup := nodup_reverse.2 nodup_range
  mem_free := by
    intro s
    simp [initGpu, KvSlab.fresh]
  vacant := fun _ _ => ⟨rfl, rfl, rfl⟩
  shape := fun _ _ hs => absurd hs not_mem_nil
  stamped := fun t s ho => absurd ho (not_owns_initGpu t s)
  live_iff := by
    intro s off _ _
    refine iff_of_false (Nat.lt_irrefl 0) ?_
    rintro ⟨⟨seq, hs⟩, _⟩
    exact absurd hs not_mem_nil

theorem outside_initGpu (hok : l.GpuOk g) : Outside (l.numSlabs g * l.pagesPerSlab)
    (l.gpus g).kvMainPages (l.initGpu g).total (l.initGpu g).mainFree (l.initGpu g).specFree []
    (l.initGpu g).Live := by
  have hspec : ∀ i, i ∈ (l.initGpu g).specFree ↔ (l.gpus g).kvMainPages ≤ i ∧
      i < (l.initGpu g).total := by
    intro i
    simp [initGpu, GpuPool.total, mem_range'_1]
  have hmain : ∀ i, i ∈ (l.initGpu g).mainFree ↔ l.numSlabs g * l.pagesPerSlab ≤ i ∧
      i < (l.gpus g).kvMainPages := by
    intro i
    by_cases hslabs : l.KvSlabManaged g
    · rw [numSlabs_mul hok hslabs]
      simp [initGpu, hslabs]
    · simp [initGpu, hslabs, numSlabs]
  have hle : (l.gpus g).kvMainPages ≤ (l.initGpu g).total := Nat.le_add_right _ _
  have hbase : l.numSlabs g * l.pagesPerSlab ≤ (l.gpus g).kvMainPages := by
    by_cases hslabs : l.KvSlabManaged g
    · exact (numSlabs_mul hok hslabs).le
    · simp [numSlabs, hslabs]
  refine ⟨?_, ?_, fun i hi => ((hspec i).1 hi).1, fun _ hi => absurd hi not_mem_nil,
    fun _ hi => absurd hi (Nat.lt_irrefl 0)⟩
  · rw [append_nil]
    refine List.Nodup.append ?_ (nodup_reverse.2 nodup_range') ?_
    · unfold initGpu
      split
      · exact nodup_nil
      · exact nodup_reverse.2 nodup_range
    · intro i hi hi'
      have h₁ := (hmain i).1 hi
      have h₂ := (hspec i).1 hi'
      omega
  · intro i
    have hdead : ¬ (l.initGpu g).Live i := Nat.lt_irrefl 0
    rw [append_nil, mem_append, hmain, hspec]
    simp only [hdead, not_false_eq_true, and_true]
    omega

theorem gpuInv_initGpu (hok : l.GpuOk g) : GpuInv l.pagesPerSlab (l.initGpu g) where
  pool := by
    refine ⟨?_, ?_, slabTable_initGpu, outside_initGpu hok, ?_, fun _ => rfl, ?_⟩
    · intro hne
      have hslabs : l.KvSlabManaged g := by
        by_contra hnot
        exact hne (if_neg hnot)
      exact ⟨hslabs.1, numSlabs_mul hok hslabs⟩
    · intro hpos hzero
      by_contra hmain
      have hslabs : l.KvSlabManaged g := ⟨hpos, Nat.pos_of_ne_zero hmain⟩
      have hmul := numSlabs_mul hok hslabs
      have hnum : l.numSlabs g = 0 := hzero
      rw [hnum, Nat.zero_mul] at hmul
      exact hmain hmul.symm
    · intro hne
      have hslabs : l.KvSlabManaged g := by
        by_contra hnot
        exact hne (if_neg hnot)
      exact if_pos hslabs
    · by_cases hslabs : l.KvSlabManaged g
      · have hmul := numSlabs_mul hok hslabs
        simp only [initGpu, hslabs, if_true, slabRoom, KvSlab.fresh, sum_const,
          card_range, length_nil, ← hmul]
        simp
      · simp [initGpu, hslabs, slabRoom, numSlabs]
  mainPool := fun _ _ _ => rfl
  idle := fun _ _ => rfl
  notSide := fun _ _ heq => nomatch heq
  sides := by
    intro s
    cases s with
    | indexerK | kdaState =>
      simp only [initGpu]
      split
      · exact sideInv_elasticSide _ _
      · exact sideInv_fixedSide _
    | hca | swa => exact sideInv_fixedSide _
  elasticTotal := by
    intro s helastic
    cases s with
    | indexerK | kdaState =>
      simp only [initGpu] at helastic ⊢
      split at helastic
      · rename_i hel
        rw [if_pos hel]
        rfl
      · cases helastic
    | hca | swa => cases helastic

end VramLayout

theorem AllocInv.init (h : init cfg.layout = some gpus) : AllocInv cfg gpus := by
  obtain ⟨hok, rfl⟩ := of_init h
  exact ⟨fun g hg => VramLayout.gpuInv_initGpu (hok g hg), fun g => SameShape.refl _,
    fun _ _ hr => (nomatch hr), fun _ _ _ _ _ hr => (nomatch hr)⟩

theorem AllocInv.of_run (hinit : Paging.init cfg.layout = some gpus) {as : List Action}
    (hrun : Run cfg.step gpus as gpus') : AllocInv cfg gpus' := by
  refine GuardedRun.invariant ?_ hrun (AllocInv.init hinit)
  intro gpus₁ a gpus₂ h _ hstep
  obtain ⟨r, hr, rfl⟩ := Option.map_eq_some_iff.1 hstep
  exact (h.perform (of_init hinit).1 hr).inv

/-! ### The representation invariant -/

/-- The slabs of sequences: those in the run of their owner. -/
def GpuPool.kvOwned (gpu : GpuPool) : Finset ℕ :=
  (Finset.range gpu.numSlabs).filter fun s => s ∈ gpu.kvRuns (gpu.kvSlabs s).ownerSeq

def GpuPool.livePages (pps : ℕ) (gpu : GpuPool) (s : ℕ) : Finset ℕ :=
  (Finset.range pps).filter fun off => 0 < (gpu.pages (s * pps + off)).refcount

/-- **The representation invariant** of the slabs of a GPU. -/
structure SlabbedOk (pps : ℕ) (gpu : GpuPool) : Prop where
  free_iff : ∀ s, s ∈ gpu.kvFreeSlabs ↔ s < gpu.numSlabs ∧ (gpu.kvSlabs s).claimed = false
  /-- … each once. -/
  freeNodup : gpu.kvFreeSlabs.Nodup
  /-- The holes of a slab of a sequence are distinct, lie below the bump offset, … -/
  holes : ∀ seq, ∀ s ∈ gpu.kvRuns seq,
    (gpu.kvSlabs s).holes.Nodup ∧ ∀ off ∈ (gpu.kvSlabs s).holes, off < (gpu.kvSlabs s).bump
  /-- … and with the live pages make up the pages below it. -/
  used : ∀ seq, ∀ s ∈ gpu.kvRuns seq,
    (gpu.kvSlabs s).used + (gpu.kvSlabs s).holes.length = (gpu.kvSlabs s).bump ∧
      (gpu.kvSlabs s).used = (gpu.livePages pps s).card
  claimed_iff : ∀ s, (gpu.kvSlabs s).claimed = true ↔ ∃ t, gpu.Owns t s
  /-- … and it has no two tenants. -/
  unique : ∀ t t' s, gpu.Owns t s → gpu.Owns t' s → t = t'
  count : gpu.kvFreePages = pps * gpu.kvFreeSlabs.length +
    ∑ s ∈ gpu.kvOwned, ((pps : ℤ) - (gpu.kvSlabs s).used) + gpu.kvLooseFree.length

variable {gpu : GpuPool} {pps : ℕ}

theorem GpuInv.mem_kvOwned (h : GpuInv pps gpu) {s : ℕ} :
    s ∈ gpu.kvOwned ↔ ∃ seq, s ∈ gpu.kvRuns seq := by
  unfold GpuPool.kvOwned
  rw [Finset.mem_filter, Finset.mem_range]
  constructor
  · rintro ⟨_, hs⟩
    exact ⟨_, hs⟩
  · rintro ⟨seq, hs⟩
    rw [(h.pool.table.shape seq s hs).owner]
    exact ⟨(h.pool.table.of_run hs).1, hs⟩

theorem GpuInv.slabRoom_eq (h : GpuInv pps gpu) :
    slabRoom pps gpu.numSlabs gpu.kvSlabs = pps * gpu.kvFreeSlabs.length +
      ∑ s ∈ gpu.kvOwned, ((pps : ℤ) - (gpu.kvSlabs s).used) := by
  have htable := h.pool.table
  have hsub : gpu.kvOwned ⊆ range gpu.numSlabs := filter_subset _ _
  have hfree : gpu.kvFreeSlabs.toFinset ⊆ range gpu.numSlabs \ gpu.kvOwned := by
    intro s hs
    obtain ⟨hlt, hc⟩ := (htable.mem_free s).1 (mem_toFinset.1 hs)
    rw [Finset.mem_sdiff, Finset.mem_range, h.mem_kvOwned]
    exact ⟨hlt, fun ⟨seq, hseq⟩ => htable.not_run hc hseq⟩
  have hrest : ∑ s ∈ range gpu.numSlabs \ gpu.kvOwned, ((pps : ℤ) - (gpu.kvSlabs s).used) =
      ∑ _s ∈ gpu.kvFreeSlabs.toFinset, (pps : ℤ) := by
    refine (sum_subset_zero_on_sdiff hfree ?_ ?_).symm
    · -- a slab of another tenant is full
      intro s hs
      rw [Finset.mem_sdiff, Finset.mem_sdiff, Finset.mem_range, h.mem_kvOwned,
        mem_toFinset, htable.mem_free] at hs
      obtain ⟨⟨hlt, hrun⟩, hclaimed⟩ := hs
      have hc : (gpu.kvSlabs s).claimed = true := by
        by_contra hc
        exact hclaimed ⟨hlt, Bool.eq_false_iff.2 hc⟩
      obtain ⟨t, ho⟩ := (htable.tenancy.claimed_iff s).1 hc
      have hst : (gpu.kvSlabs s).Stamped pps := by
        refine htable.stamped t s ho ?_
        rintro seq rfl
        exact hrun ⟨seq, (htable.runs_iff seq s).1 ho⟩
      rw [hst.used, sub_self]
    · intro s hs
      obtain ⟨_, hc⟩ := (htable.mem_free s).1 (mem_toFinset.1 hs)
      rw [(htable.vacant s hc).used, Nat.cast_zero, sub_zero]
  unfold slabRoom
  rw [← sum_sdiff hsub, hrest, sum_const,
    toFinset_card_of_nodup htable.freeNodup, nsmul_eq_mul, mul_comm]

/-- **The invariant of a GPU gives the representation invariant.** -/
theorem GpuInv.slabbedOk (h : GpuInv pps gpu) : SlabbedOk pps gpu where
  free_iff := h.pool.table.mem_free
  freeNodup := h.pool.table.freeNodup
  holes := fun seq s hs => ⟨(h.pool.table.shape seq s hs).nodup, (h.pool.table.shape seq s hs).below⟩
  used := by
    intro seq s hs
    have hshape := h.pool.table.shape seq s hs
    refine ⟨hshape.count, ?_⟩
    rw [← hshape.card_live]
    congr 1
    ext off
    unfold GpuPool.livePages
    rw [Finset.mem_filter, Finset.mem_range]
    constructor
    · intro hoff
      have hlt := Nat.lt_of_lt_of_le (KvSlab.mem_liveOffsets.1 hoff).1 hshape.bump_le
      exact ⟨hlt, (h.pool.table.live_iff s off (h.pool.table.of_run hs).1 hlt).2
        ⟨⟨seq, hs⟩, hoff⟩⟩
    · rintro ⟨hlt, hlive⟩
      exact ((h.pool.table.live_iff s off (h.pool.table.of_run hs).1 hlt).1 hlive).2
  claimed_iff := h.pool.table.tenancy.claimed_iff
  unique := h.pool.table.tenancy.unique
  count := by rw [h.pool.count, h.slabRoom_eq]

/-- **The representation invariant holds on every GPU after every run, and no call hands out
a page that is still live.** -/
theorem slabbedPools_of_run (hinit : Paging.init cfg.layout = some gpus) {as : List Action}
    (hrun : Run cfg.step gpus as gpus') :
    (∀ g < cfg.layout.gpuCount, SlabbedOk cfg.pps (gpus' g)) ∧
      ∀ a r, cfg.perform gpus' a = some r → ∀ nh ∈ r.2, ¬ HandleLive gpus' nh := by
  have h := AllocInv.of_run hinit hrun
  refine ⟨fun g hg => (h.inv g hg).slabbedOk, ?_⟩
  intro a r hr
  exact (h.perform (of_init hinit).1 hr).fresh

theorem twoGpus_nodup : [0, 1].Nodup := by decide

theorem twoGpus_length (_ : 2 ≤ 2) : [0, 1].length = 2 := rfl

/-- One GPU with two slabs of two pages, and a speculation pool of one page. -/
def smallLayout : VramLayout where
  gpuCount := 1
  gpus := fun _ => ⟨4, 1, 0, 0, 0, 0, true, 0⟩
  slabBytes := 2
  pagesPerSlab := 2
  kvBytesPerPage := 1
  indexerKBytesPerPage := 1
  kdaEnabled := false
  kdaWantsMapped := false
  kdaNumLayers := 0
  kdaPerLayerBytes := 0

/-- No TP group. -/
def smallConfig : Config where
  layout := smallLayout
  dcp := ⟨1, 1, 1, [0], false, 1, false, by decide, by decide⟩
  ranks := by decide

theorem smallConfig_init : Paging.init smallConfig.layout = some smallLayout.initGpu := by
  exact if_pos (by decide)

/-- A sequence takes a page, an indexer page takes the other slab, and the page is freed. -/
theorem slabbedPools_of_run_small : ∃ gpus, Run smallConfig.step smallLayout.initGpu
    [.allocateForSequence 0 .main 7 0 0 1 false, .allocateSide 0 .indexerK,
      .free ⟨0, 0, .main⟩] gpus ∧ SlabbedOk 2 (gpus 0) ∧ (gpus 0).kvFreePages = 2 := by
  have hsome : ([.allocateForSequence 0 .main 7 0 0 1 false, .allocateSide 0 .indexerK,
      .free ⟨0, 0, .main⟩].foldlM smallConfig.step smallLayout.initGpu).any
        (fun gpus => (gpus 0).kvFreePages = 2) = true := by
    decide
  obtain ⟨gpus, hgpus, hcount⟩ := (Option.any_eq_true _ _).1 hsome
  have hrun := Run.of_foldlM hgpus
  exact ⟨gpus, hrun, (slabbedPools_of_run smallConfig_init hrun).1 0 (by decide), of_decide_eq_true hcount⟩

end LayerStorm.Paging
