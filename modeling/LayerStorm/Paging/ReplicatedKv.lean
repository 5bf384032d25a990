import LayerStorm.Paging.Lockstep

/-!
# Replicated calls never fail an assertion

The ranks of the TP group stay in lockstep over every run of replicated calls, whatever
side pages, KDA states and runs of the expert cache come and go on single ranks.  So every
page that the first rank chooses can be taken on all ranks, and every reference to a live
page can be given up on all of them.

## Main results

* `lockstep_of_run` — the ranks are in lockstep after every run.
-/

namespace LayerStorm.Paging

open Lib
open Config List Option

variable {cfg : Config} {gpus gpus' : Gpus} {g idx : ℕ}

/-! ### Every replicated call keeps the ranks in lockstep -/

/-- With replicated KV no page of a single rank is allocated for a sequence: pages of the main
and speculation pools of a rank come from `allocate_replicated`. -/
def Config.ReplicatedCall (cfg : Config) : Action → Prop
  | .allocate g pool => (∃ s, pool = .side s) ∨ g ∉ cfg.dcp.tpGpuIndices
  | .allocateUnreserved g pool => (∃ s, pool = .side s) ∨ g ∉ cfg.dcp.tpGpuIndices
  | .allocateForSequence g _ _ _ _ _ _ => g ∉ cfg.dcp.tpGpuIndices
  | .allocateForDcpAppend _ _ _ _ => cfg.dcp.kvSharded = false
  | _ => True

namespace LockstepInv

variable {r : Gpus × Option PageHandle} {unreserved : Bool}

theorem allocatePage (h : LockstepInv cfg gpus) {pool : Pool}
    (hcall : (∃ s, pool = .side s) ∨ g ∉ cfg.dcp.tpGpuIndices)
    (hr : (cfg.allocOn gpus g pool fun gpu => gpu.allocatePage cfg.pps pool unreserved) = some r) :
    LockstepInv cfg r.1 := by
  have hinv := (h.inv.allocatePage hr).inv
  obtain ⟨hg, r', hr', rfl⟩ := allocOn_some hr
  rcases hcall with ⟨s, rfl⟩ | hout
  · obtain ⟨r'', hr'', hspec⟩ := (h.inv.inv g hg).allocateSide s
    obtain rfl := some.inj (hr'.symm.trans hr'')
    exact h.sideMove hinv (SideMove.update hspec.step)
  · exact h.update hout hinv

theorem allocateReplicated (h : LockstepInv cfg gpus) {seq tokenStart layer : ℕ} {pool : Pool}
    (hr : cfg.allocateReplicated gpus seq tokenStart layer pool unreserved = some r) :
    LockstepInv cfg r.1 := by
  obtain ⟨hside, henabled, hcases⟩ := allocateReplicated_cases hr
  rcases hcases with rfl | ⟨gpus', idx, c, _, rfl, hrep⟩
  · exact h
  · exact h.replicates henabled hside hrep

theorem perform (h : LockstepInv cfg gpus) (hok : ∀ g < cfg.layout.gpuCount, cfg.layout.GpuOk g)
    (henabled : cfg.dcp.Enabled) {a : Action} (hcall : cfg.ReplicatedCall a)
    {r : Gpus × List PageHandle} (hr : cfg.perform gpus a = some r) : LockstepInv cfg r.1 := by
  have hinv := (h.inv.perform hok hr).inv
  have hzone : ∀ {α : Type} {g : ℕ} {o : Option α} (pools : α → GpuPool),
      (g < cfg.layout.gpuCount → ∃ x, o = some x ∧ GpuInv cfg.pps (pools x) ∧
        SideStep (gpus g) (pools x)) →
      (if g < cfg.layout.gpuCount then
        o.map fun x => (Function.update gpus g (pools x), ([] : List PageHandle))
        else some (gpus, [])) = some r → LockstepInv cfg r.1 := by
    intro α g o pools hspec hr
    split at hr
    · rename_i hg
      obtain ⟨x, rfl, _, hstep⟩ := hspec hg
      cases hr
      exact h.sideMove hinv (SideMove.update hstep)
    · cases hr
      exact h
  cases a with
  | allocate g pool | allocateUnreserved g pool =>
    obtain ⟨r', hr', rfl⟩ := map_eq_some_iff.1 hr
    exact h.allocatePage hcall hr'
  | allocateForSequence g pool seq layer tokenStart tokenEnd unreserved =>
    obtain ⟨r', hr', rfl⟩ := map_eq_some_iff.1 hr
    obtain ⟨_, r₁, _, rfl⟩ := allocOn_some hr'
    exact h.update hcall hinv
  | allocateSide g s =>
    obtain ⟨r', hr', rfl⟩ := map_eq_some_iff.1 hr
    obtain ⟨hg, r₁, hr₁, rfl⟩ := allocOn_some hr'
    obtain ⟨r₂, hr₂, hspec⟩ := (h.inv.inv g hg).allocateSide s
    obtain rfl := some.inj (hr₁.symm.trans hr₂)
    exact h.sideMove hinv (SideMove.update hspec.step)
  | free hd =>
    obtain ⟨gpus', hgpus, rfl⟩ := map_eq_some_iff.1 hr
    exact h.free hgpus
  | promote hd =>
    obtain ⟨gpus', hgpus, rfl⟩ := map_eq_some_iff.1 hr
    exact h.promote hgpus
  | addRef hd =>
    obtain ⟨gpus', hgpus, rfl⟩ := map_eq_some_iff.1 hr
    exact h.addRef hgpus
  | describe hd seq layer tokenStart tokenEnd =>
    obtain ⟨gpus', hgpus, rfl⟩ := map_eq_some_iff.1 hr
    exact h.describe hgpus
  | cowCopy hd dstSeq =>
    obtain ⟨r', hr', rfl⟩ := map_eq_some_iff.1 hr
    exact h.cowCopy hr'
  | freeSequence g seq =>
    obtain ⟨gpus', hgpus, rfl⟩ := map_eq_some_iff.1 hr
    exact h.freeSequence hgpus
  | allocateKdaState g seq => exact h.sideMove hinv (h.inv.allocateKdaState hok hr).2
  | claimExpertZone g n extraReserve =>
    exact hzone Prod.fst (fun hg => (h.inv.inv g hg).claimExpertZone n extraReserve) hr
  | claimExpertZoneAt g start n extraReserve =>
    exact hzone Prod.fst (fun hg => (h.inv.inv g hg).claimExpertZoneAt start n extraReserve) hr
  | releaseExpertZone g start n =>
    exact hzone id (fun hg => (h.inv.inv g hg).releaseExpertZone start n) hr
  | configureHeadroom forks sequences chunkPages =>
    cases hr
    exact h.quiet hinv fun g hg => ⟨⟨rfl, fun _ _ _ => rfl, fun _ => Iff.rfl⟩, h.replicated g hg⟩
  | allocateReplicated seq tokenStart layer pool unreserved =>
    obtain ⟨r', hr', rfl⟩ := map_eq_some_iff.1 hr
    exact h.allocateReplicated hr'
  | allocateForDcpAppend seq tokenPos layer defaultGpu =>
    obtain ⟨r', hr', rfl⟩ := map_eq_some_iff.1 hr
    unfold allocateForDcpAppend at hr'
    rw [if_pos ⟨henabled, hcall⟩] at hr'
    exact h.allocateReplicated hr'
  | allocateIndexerKForDcp seq tokenPos layer =>
    exact h.sideMove hinv (h.inv.allocateIndexerKForDcp hr).2

theorem init (hinit : Paging.init cfg.layout = some gpus) : LockstepInv cfg gpus := by
  have hinv := AllocInv.init hinit
  obtain ⟨hok, rfl⟩ := of_init hinit
  refine ⟨hinv, ?_, fun _ _ _ hl => absurd hl (Nat.lt_irrefl 0)⟩
  intro g hg g' hg'
  have hnone : ∀ g ∈ cfg.dcp.tpGpuIndices, ∀ i, ¬ (cfg.layout.initGpu g).Away i := by
    rintro g _ i ⟨hge, hlt, hnot⟩
    refine hnot ?_
    simp only [VramLayout.initGpu] at hge hlt ⊢
    rw [mem_reverse, mem_range'_1]
    exact ⟨hge, hlt⟩
  exact ⟨rfl, fun _ _ hs => absurd hs not_mem_nil,
    fun i => iff_of_false (hnone g' hg' i) (hnone g hg i)⟩

end LockstepInv

/-! ### Replicated calls succeed -/

theorem DcpConfig.ranks_ne_nil (dcp : DcpConfig) (h : dcp.Enabled) : dcp.tpGpuIndices ≠ [] := by
  intro hnil
  have hlen := dcp.length_eq h
  rw [hnil, length_nil] at hlen
  unfold DcpConfig.Enabled at h
  omega

variable {f : GpuPool → Option GpuPool}

theorem Config.onGpu_eq {gpu' : GpuPool} (hg : g < cfg.layout.gpuCount)
    (h : f (gpus g) = some gpu') :
    cfg.onGpu gpus g f = some (Function.update gpus g gpu') := by
  unfold onGpu
  rw [if_pos hg, h, map_some]

theorem Config.onRanks_total (h : ∀ g ∈ cfg.dcp.tpGpuIndices, ∃ gpu', f (gpus g) = some gpu') :
    ∃ gpus', cfg.onRanks gpus f = some gpus' := by
  refine ⟨_, updateEach_eq cfg.dcp.nodup (f := fun _ => f) (s := gpus)
    (t := fun g => (f (gpus g)).getD (gpus g)) ?_⟩
  intro g hg
  obtain ⟨gpu', hgpu⟩ := h g hg
  rw [hgpu, getD_some]

namespace LockstepInv

section

variable (h : LockstepInv cfg gpus)
include h

theorem take_total (hg : g ∈ cfg.dcp.tpGpuIndices) (ht : Takeable cfg.pps (gpus g) idx)
    (tokenStart : ℕ) :
    ∃ gpus', (cfg.onRanks gpus fun gpu => gpu.kvTakeSpecific cfg.pps idx tokenStart) =
      some gpus' := by
  refine onRanks_total fun g' hg' => ?_
  obtain ⟨gpu', hgpu, _⟩ := (h.inv.inv g' (cfg.ranks g' hg')).pool.kvTakeSpecific
    ((h.twin g hg g' hg').takeable ht) tokenStart
  exact ⟨gpu', hgpu⟩

theorem claim_total {sid : ℕ} (hfree : ∀ g ∈ cfg.dcp.tpGpuIndices, sid ∈ (gpus g).kvFreeSlabs)
    (seq tokenStart : ℕ) :
    ∃ gpus₁ gpus', (cfg.onRanks gpus fun gpu => gpu.kvClaimSlab sid seq) = some gpus₁ ∧
      (cfg.onRanks gpus₁ fun gpu => gpu.kvTakeSpecific cfg.pps (sid * cfg.pps) tokenStart) =
        some gpus' := by
  obtain ⟨gpus₁, hgpus₁⟩ : ∃ gpus₁, (cfg.onRanks gpus fun gpu => gpu.kvClaimSlab sid seq) =
      some gpus₁ := by
    refine onRanks_total fun g hg => ?_
    obtain ⟨gpu', hgpu, _⟩ := (h.inv.inv g (cfg.ranks g hg)).pool.kvClaimSlab (hfree g hg) seq
    exact ⟨gpu', hgpu⟩
  obtain ⟨hin, _⟩ := onRanks_some hgpus₁
  have htake : ∃ gpus', (cfg.onRanks gpus₁ fun gpu =>
      gpu.kvTakeSpecific cfg.pps (sid * cfg.pps) tokenStart) = some gpus' := by
    refine onRanks_total fun g hg => ?_
    obtain ⟨gpu', hgpu, hpool, _, hrun, hbump, _⟩ :=
      (h.inv.inv g (cfg.ranks g hg)).pool.kvClaimSlab (hfree g hg) seq
    obtain rfl := some.inj ((hin g hg).symm.trans hgpu)
    obtain ⟨gpu'', hgpu'', _⟩ := hpool.kvTakeSpecific (hpool.takeable_first hrun hbump) tokenStart
    exact ⟨gpu'', hgpu''⟩
  obtain ⟨gpus', hgpus'⟩ := htake
  exact ⟨gpus₁, gpus', hgpus₁, hgpus'⟩

theorem kvAllocPageReplicated_total (hranks : cfg.dcp.tpGpuIndices ≠ []) (seq tokenStart : ℕ)
    (unreserved : Bool) (preferSlab : Option ℕ) :
    ∃ r, cfg.kvAllocPageReplicated gpus seq tokenStart unreserved preferSlab = some r := by
  obtain ⟨c, mirrors, hcons⟩ := exists_cons_of_ne_nil hranks
  have hc : c ∈ cfg.dcp.tpGpuIndices := by
    rw [hcons]
    exact mem_cons_self
  have hrank : ∀ {P : ℕ → Prop}, P c → (∀ g ∈ mirrors, P g) → ∀ g ∈ cfg.dcp.tpGpuIndices, P g := by
    intro P hPc hPm g hg
    rw [hcons] at hg
    rcases mem_cons.1 hg with rfl | hg
    · exact hPc
    · exact hPm g hg
  have hpool := (h.inv.inv c (cfg.ranks c hc)).pool
  unfold kvAllocPageReplicated
  simp only
  split
  · rename_i heq
    exact absurd heq hranks
  rename_i c' mirrors' heq
  obtain ⟨rfl, rfl⟩ : c' = c ∧ mirrors' = mirrors := by
    rw [hcons, cons.injEq] at heq
    exact ⟨heq.1.symm, heq.2.symm⟩
  split
  · exact ⟨_, rfl⟩
  split
  · rename_i idx hfind
    obtain ⟨gpus', hgpus⟩ := h.take_total hc (hpool.takeable_kvFindInRun hfind) tokenStart
    rw [hgpus]
    exact ⟨_, rfl⟩
  split
  · rename_i sid hfind
    have hfree : ∀ g ∈ cfg.dcp.tpGpuIndices, sid ∈ (gpus g).kvFreeSlabs := by
      refine hrank (mem_reverse.1 (mem_of_find?_eq_some hfind)) ?_
      intro g hg
      have hmirrors : cfg.SlabFreeOn gpus mirrors' sid := by simpa using find?_some hfind
      have hg' : g ∈ cfg.dcp.tpGpuIndices := by
        rw [hcons]
        exact mem_cons_of_mem _ hg
      exact ((h.inv.inv g (cfg.ranks g hg')).pool.table.mem_free sid).2 (hmirrors g hg).2
    obtain ⟨gpus₁, gpus', hclaim, htake⟩ := h.claim_total hfree seq tokenStart
    rw [hclaim, bind_some, htake]
    exact ⟨_, rfl⟩
  split
  · rename_i loose hfind
    have hloose : ∀ g ∈ cfg.dcp.tpGpuIndices, loose ∈ (gpus g).kvLooseFree := by
      refine hrank (mem_reverse.1 (mem_of_find?_eq_some hfind)) ?_
      simpa using find?_some hfind
    obtain ⟨gpus', hgpus⟩ : ∃ gpus', (cfg.onRanks gpus fun gpu => takeLoose gpu loose) =
        some gpus' := onRanks_total fun g hg => ⟨_, if_pos (hloose g hg)⟩
    rw [hgpus]
    exact ⟨_, rfl⟩
  split
  · rename_i idx hfind
    obtain ⟨gpus', hgpus⟩ := h.take_total hc (hpool.takeable_kvFindInRunPressure hfind) tokenStart
    rw [hgpus]
    exact ⟨_, rfl⟩
  · exact ⟨_, rfl⟩

theorem mem_freeList {pool : Pool} {g' : ℕ} (hg : g ∈ cfg.dcp.tpGpuIndices)
    (hg' : g' ∈ cfg.dcp.tpGpuIndices) (hslabbed : ¬ (pool = .main ∧ (gpus g).KvSlabbed cfg.pps))
    (hmem : idx ∈ (gpus g).freeList pool) (hclaim : Config.MirrorClaimable pool (gpus g') idx) :
    idx ∈ (gpus g').freeList pool := by
  have hpool := (h.inv.inv g (cfg.ranks g hg)).pool
  have hpool' := (h.inv.inv g' (cfg.ranks g' hg')).pool
  have htwin := h.twin g hg g' hg'
  unfold GpuPool.freeList at hmem ⊢
  obtain ⟨hrange, hdead⟩ := hclaim
  by_cases hp : pool = .main
  · rw [if_pos hp] at hmem hrange ⊢
    have hunslabbed : ¬ (gpus g).KvSlabbed cfg.pps := fun hs => hslabbed ⟨hp, hs⟩
    have hin := (hpool.outside.mem_iff idx).1 (mem_append_left _ (mem_append_left _ hmem))
    -- a page behind the main pool has been promoted, on all ranks
    have hlt : idx < (gpus g).initialMainPages := by
      by_contra hge
      have haway : (gpus g).Away idx := by
        refine ⟨Nat.not_lt.1 hge, hin.2.1, fun hspec => ?_⟩
        have hdisjoint := (nodup_append.1 (nodup_append.1 hpool.outside.nodup).1).2.2
        exact hdisjoint idx hmem idx hspec rfl
      exact Nat.lt_irrefl _ (Nat.lt_of_lt_of_le hrange ((htwin.away idx).2 haway).1)
    have hzero : cfg.pps = 0 := by
      by_contra hne
      have hpos := Nat.pos_of_ne_zero hne
      have hnum : (gpus g).numSlabs = 0 := by
        by_contra hnum
        exact hunslabbed ⟨hpos, hnum⟩
      rw [hpool.unslabbed hpos hnum] at hlt
      exact Nat.not_lt_zero _ hlt
    have hnum' : (gpus g').numSlabs = 0 := by
      by_contra hne
      exact Nat.ne_of_gt (hpool'.whole hne).1 hzero
    have hfree := (hpool'.outside.mem_iff idx).2
      ⟨by rw [hnum', Nat.zero_mul]; exact Nat.zero_le _,
        Nat.lt_of_lt_of_le hrange (Nat.le_add_right _ _), Nat.not_lt.2 hdead.le⟩
    rw [hpool'.looseEmpty hnum', append_nil, mem_append] at hfree
    refine hfree.resolve_right fun hspec => ?_
    exact Nat.lt_irrefl _ (Nat.lt_of_lt_of_le hrange (hpool'.outside.spec_ge idx hspec))
  · rw [if_neg hp] at hmem hrange ⊢
    by_contra hnot
    have haway : (gpus g').Away idx := ⟨hrange.1, hrange.2, hnot⟩
    exact ((htwin.away idx).1 haway).2.2 hmem

theorem allocateReplicated_total (henabled : cfg.dcp.Enabled) {pool : Pool}
    (hside : ∀ s, pool ≠ .side s) (seq tokenStart layer : ℕ) (unreserved : Bool) :
    ∃ r, cfg.allocateReplicated gpus seq tokenStart layer pool unreserved = some r := by
  have hranks := cfg.dcp.ranks_ne_nil henabled
  unfold Config.allocateReplicated
  split
  · rename_i s
    exact absurd rfl (hside s)
  · rename_i heq
    exact absurd heq hranks
  rename_i pool _ _ c mirrors _ hcons
  have hc : c ∈ cfg.dcp.tpGpuIndices := by
    rw [hcons]
    exact mem_cons_self
  rw [if_neg (not_not.2 henabled)]
  split
  · obtain ⟨r, hr⟩ := h.kvAllocPageReplicated_total hranks seq tokenStart unreserved none
    rw [hr, bind_some]
    split
    · exact ⟨_, rfl⟩
    rename_i idx _
    obtain ⟨gpus', hgpus⟩ : ∃ gpus', (cfg.onRanks r.1 fun gpu => some (Config.replicate pool seq
        layer tokenStart (tokenStart + cfg.dcp.pageSizeTokens) gpu idx)) = some gpus' :=
      Config.onRanks_total fun _ _ => ⟨_, rfl⟩
    rw [hgpus]
    exact ⟨_, rfl⟩
  · rename_i hslabbed
    generalize (if unreserved = true then (0 : ℤ) else (gpus c).reserved pool) = minFree
    split
    · exact ⟨_, rfl⟩
    split
    · exact ⟨_, rfl⟩
    rename_i idx hfind
    have hmem : idx ∈ (gpus c).freeList pool :=
      mem_reverse.1 (mem_of_find?_eq_some hfind)
    have hmirrors : ∀ g ∈ mirrors, Config.MirrorClaimable pool (gpus g) idx := by
      simpa using find?_some hfind
    obtain ⟨gpus', hgpus⟩ : ∃ gpus', (cfg.onRanks gpus fun gpu =>
        (Config.takeFree pool idx gpu).map fun gpu => Config.replicate pool seq layer tokenStart
          (tokenStart + cfg.dcp.pageSizeTokens) gpu idx) = some gpus' := by
      refine Config.onRanks_total fun g hg => ?_
      have hfree : idx ∈ (gpus g).freeList pool := by
        rw [hcons] at hg
        rcases mem_cons.1 hg with rfl | hgm
        · exact hmem
        · exact h.mem_freeList hc (by rw [hcons]; exact hg) hslabbed hmem (hmirrors g hgm)
      unfold Config.takeFree
      rw [if_pos hfree]
      exact ⟨_, rfl⟩
    rw [hgpus]
    exact ⟨_, rfl⟩

theorem dropRanks_total (hg : g ∈ cfg.dcp.tpGpuIndices) (hlive : (gpus g).Live idx) :
    ∃ gpus', (cfg.onRanks gpus fun gpu => gpu.dropRef cfg.pps idx) = some gpus' := by
  refine onRanks_total fun g' hg' => ?_
  obtain ⟨gpu', hgpu, _⟩ := (h.inv.inv g' (cfg.ranks g' hg')).dropRef
    (h.live_of_live hg hg' hlive).1
  exact ⟨gpu', hgpu⟩

end

variable {hd : PageHandle}

theorem free_total (h : LockstepInv cfg gpus) (hside : ∀ s, hd.pool ≠ .side s)
    (hlive : cfg.LivePage gpus hd) : ∃ gpus', cfg.free gpus hd = some gpus' := by
  unfold Config.free
  split
  · rename_i s hpool
    exact absurd hpool (hside s)
  rw [if_pos hlive]
  split
  · rename_i hmirrored
    exact h.dropRanks_total (h.inv.onRanks _ _ hmirrored.1).1 hlive.2.2
  · obtain ⟨gpu', hgpu, _⟩ := (h.inv.inv _ hlive.1).dropRef hlive.2.2
    exact ⟨_, Config.onGpu_eq hlive.1 hgpu⟩

theorem addRef_total (_h : LockstepInv cfg gpus) (hside : ∀ s, hd.pool ≠ .side s)
    (hlive : cfg.LivePage gpus hd) :
    ∃ gpus', cfg.addRef gpus hd = some gpus' := by
  unfold Config.addRef
  split
  · rename_i s hpool
    exact absurd hpool (hside s)
  rw [if_pos hlive]
  split
  · exact Config.onRanks_total fun _ _ => ⟨_, rfl⟩
  · exact ⟨_, Config.onGpu_eq hlive.1 rfl⟩

variable (h : LockstepInv cfg gpus)
include h

theorem promote_total (hside : ∀ s, hd.pool ≠ .side s) (hlive : cfg.LivePage gpus hd)
    (hspec : ((gpus hd.gpuIdx).pages hd.pageIdx).pool = .speculation) :
    ∃ gpus', cfg.promote gpus hd = some gpus' := by
  unfold Config.promote
  split
  · rename_i s hpool
    exact absurd hpool (hside s)
  rw [if_pos hlive]
  split
  · rename_i hmirrored
    have hg := (h.inv.onRanks _ _ hmirrored.1).1
    refine Config.onRanks_total fun g' hg' => ?_
    obtain ⟨hl, hp⟩ := h.live_of_live hg hg' hlive.2.2
    exact ⟨_, if_pos ⟨hl, hp.trans hspec⟩⟩
  · exact ⟨_, Config.onGpu_eq hlive.1 (if_pos ⟨hlive.2.2, hspec⟩)⟩

theorem cowCopyLocal_total (hlive : cfg.LivePage gpus hd) (dstSeq : ℕ) :
    ∃ r, cfg.cowCopyLocal gpus hd dstSeq = some r := by
  have hinv := h.inv.inv _ hlive.1
  set old := (gpus hd.gpuIdx).pages hd.pageIdx
  obtain ⟨r₀, hr₀, hspec⟩ : ∃ r, (if old.pool = .main ∧ (gpus hd.gpuIdx).KvSlabbed cfg.pps then
      ((gpus hd.gpuIdx).kvAllocPage cfg.pps (copyRun dstSeq old) old.tokenStart true
        (cfg.sourceSlab (gpus hd.gpuIdx) hd.pageIdx)).map
          (GpuPool.writeMeta fun pm => { pm with refcount := 1, pool := old.pool })
      else (gpus hd.gpuIdx).allocateUnreserved cfg.pps old.pool) = some r ∧
      Allocated cfg.pps (gpus hd.gpuIdx) r := by
    split
    · rename_i hcond
      exact hinv.kvAllocPage _ _ _ _ (fun _ => Nat.one_pos) (fun _ => hcond.1) fun _ => rfl
    · exact hinv.allocatePage (hinv.notSide hd.pageIdx) true
  have hspec₁ : Allocated cfg.pps (gpus hd.gpuIdx)
      (GpuPool.writeMeta (fun pm => pm.describeAs old) r₀) :=
    hspec.write (fun _ => rfl) (fun _ => rfl) fun _ => rfl
  unfold cowCopyLocal allocOn
  simp only
  rw [if_pos hlive.1, hr₀, map_some, bind_some]
  cases hidx : (GpuPool.writeMeta (fun pm => pm.describeAs old) r₀).2 with
  | none => exact ⟨_, rfl⟩
  | some idx =>
    obtain ⟨hnot, _⟩ := hspec₁.fresh idx hidx
    have hne : hd.pageIdx ≠ idx := by
      rintro rfl
      exact hnot hlive.2.2
    have hlive' : (GpuPool.writeMeta (fun pm => pm.describeAs old) r₀).1.Live hd.pageIdx := by
      unfold GpuPool.Live
      rw [(hspec₁.step idx hidx).others _ hne]
      exact hlive.2.2
    obtain ⟨gpu', hgpu, _⟩ := hspec₁.inv.dropRef hlive'
    rw [hgpu]
    exact ⟨_, rfl⟩

theorem cowCopyReplicated_total (hlive : cfg.LivePage gpus hd) (hmirrored : cfg.Mirrored gpus hd)
    (dstSeq : ℕ) :
    ∃ r, cfg.cowCopyReplicated gpus hd dstSeq = some r := by
  obtain ⟨hg, henabled⟩ := h.inv.onRanks _ _ hmirrored.1
  have hranks := cfg.dcp.ranks_ne_nil henabled
  have hside := (h.inv.inv _ hlive.1).notSide hd.pageIdx
  set old := (gpus hd.gpuIdx).pages hd.pageIdx with hold
  -- whatever has been copied, the original is still live on all ranks
  have hfinish : ∀ {gpus₁ : Gpus} {idx run tokenEnd : ℕ},
      cfg.Replicates gpus run old.sequenceId old.layerIndex old.tokenStart tokenEnd old.pool
        gpus₁ idx →
      ∃ gpus₃, ((cfg.onRanks gpus₁ fun gpu => some (gpu.setMeta idx { gpu.pages idx with
        tokenEnd := old.tokenEnd })).bind fun gpus => cfg.onRanks gpus fun gpu =>
          gpu.dropRef cfg.pps hd.pageIdx) = some gpus₃ := by
    intro gpus₁ idx run tokenEnd hrep
    have h₁ := h.replicates henabled hside hrep
    obtain ⟨_, hfree, hrec, _⟩ := h.inv.replicates henabled hside hrep
    obtain ⟨gpus₂, hgpus₂⟩ : ∃ gpus₂, (cfg.onRanks gpus₁ fun gpu => some (gpu.setMeta idx
        { gpu.pages idx with tokenEnd := old.tokenEnd })) = some gpus₂ :=
      onRanks_total fun _ _ => ⟨_, rfl⟩
    rw [hgpus₂]
    have hne : hd.pageIdx ≠ idx := by
      rintro rfl
      exact hfree _ hg hlive.2.2
    refine (h₁.setTokenEnd henabled hgpus₂).dropRanks_total hg ?_
    obtain ⟨hin, _⟩ := onRanks_some hgpus₂
    unfold GpuPool.Live
    rw [← some.inj (hin _ hg)]
    unfold GpuPool.setMeta
    simp only [Function.update_of_ne hne]
    rw [(hrec _ hg).1.others _ hne]
    exact hlive.2.2
  unfold cowCopyReplicated
  simp only
  rw [← hold]
  split
  · rename_i hslabbed
    obtain ⟨r₀, hr₀⟩ := h.kvAllocPageReplicated_total hranks (copyRun dstSeq old)
      old.tokenStart true (cfg.sourceSlab (gpus hd.gpuIdx) hd.pageIdx)
    rw [hr₀]
    rcases kvAllocPageReplicated_cases hr₀ with rfl | ⟨gpus₀, idx, rfl, htakes⟩
    · exact ⟨_, rfl⟩
    obtain ⟨gpus₁, hgpus₁⟩ : ∃ gpus₁, (cfg.onRanks gpus₀ fun gpu => some (replicate
        old.pool old.sequenceId old.layerIndex old.tokenStart old.tokenEnd gpu idx)) =
        some gpus₁ := onRanks_total fun _ _ => ⟨_, rfl⟩
    obtain ⟨gpus₃, hgpus₃⟩ := hfinish (.inl ⟨hslabbed.1, gpus₀, htakes, hgpus₁⟩)
    simp only [hgpus₁, map_some, bind_some]
    rw [hgpus₃]
    exact ⟨_, rfl⟩
  · obtain ⟨r₁, hr₁⟩ := h.allocateReplicated_total henabled hside old.sequenceId old.tokenStart
      old.layerIndex true
    rw [hr₁, bind_some]
    rcases (allocateReplicated_cases hr₁).2.2 with rfl | ⟨gpus₁, idx, c, _, rfl, hrep⟩
    · exact ⟨_, rfl⟩
    obtain ⟨gpus₃, hgpus₃⟩ := hfinish hrep
    simp only
    rw [hgpus₃]
    exact ⟨_, rfl⟩

theorem cowCopy_total (hside : ∀ s, hd.pool ≠ .side s) (hlive : cfg.LivePage gpus hd) (dstSeq : ℕ) :
    ∃ r, cfg.cowCopy gpus hd dstSeq = some r := by
  unfold Config.cowCopy
  split
  · rename_i s hpool
    exact absurd hpool (hside s)
  rw [if_pos hlive]
  split
  · exact ⟨_, rfl⟩
  split
  · rename_i hmirrored
    exact h.cowCopyReplicated_total hlive hmirrored dstSeq
  · exact h.cowCopyLocal_total hlive dstSeq

theorem freeSequence_total (hg : g < cfg.layout.gpuCount) (seq : ℕ) :
    ∃ gpus', cfg.freeSequence gpus g seq = some gpus' := by
  obtain ⟨gpus₁, hgpus₁, h₁⟩ : ∃ gpus₁, (range (gpus g).total).foldlM
      (cfg.freeSequencePage g seq) gpus = some gpus₁ ∧ LockstepInv cfg gpus₁ := by
    refine foldlM_total (P := LockstepInv cfg) _ ?_ h
    intro gpus i _ h
    unfold Config.freeSequencePage
    simp only
    split
    · rename_i hcond
      split
      · rename_i hrep
        split
        · obtain ⟨gpus', hgpus⟩ := h.dropRanks_total (h.inv.onRanks _ _ hrep.1).1 hcond.2
          exact ⟨gpus', hgpus, h.dropRanks hrep.2 hgpus⟩
        · exact ⟨gpus, rfl, h⟩
      · rename_i hlocal
        have hnot := h.inv.not_replicated hlocal
        obtain ⟨gpu', hgpu, _⟩ := (h.inv.inv g hg).dropRef hcond.2
        exact ⟨_, Config.onGpu_eq hg hgpu,
          h.update (h.not_rank hcond.2 hnot) (h.inv.dropLocal hg hnot hgpu)⟩
    · exact ⟨gpus, rfl, h⟩
  obtain ⟨gpus₂, hgpus₂, _⟩ : ∃ gpus₂, (Config.sidePages (gpus₁ g)).foldlM
      (cfg.freeSequenceSide g seq) gpus₁ = some gpus₂ ∧ LockstepInv cfg gpus₂ := by
    refine foldlM_total (P := LockstepInv cfg) _ ?_ h₁
    intro gpus si hsi h
    obtain ⟨s, _, hmem⟩ := mem_flatMap.1 hsi
    obtain ⟨i, hi, rfl⟩ := mem_map.1 hmem
    have hlt : i < ((gpus g).side s).total := by
      rw [(h.inv.shape g).total, ← (h₁.inv.shape g).total]
      exact mem_range.1 hi
    unfold Config.freeSequenceSide
    simp only
    split
    · rename_i hcond
      obtain ⟨gpu', hgpu, hinv, hstep⟩ := (h.inv.inv g hg).sideDropRef hlt hcond.2
      exact ⟨_, Config.onGpu_eq hg hgpu, h.sideMove (h.inv.side hinv hstep) (SideMove.update hstep)⟩
    · exact ⟨gpus, rfl, h⟩
  unfold Config.freeSequence
  rw [if_pos hg, hgpus₁, bind_some, hgpus₂]
  exact ⟨_, rfl⟩

end LockstepInv

/-! ### The claim over runs -/

/-- **What is the same on all ranks**: the runs of sequences, their slabs with everything
written in them, and the reference counts of all pages. -/
structure LockstepOk (cfg : Config) (gpus : Gpus) : Prop where
  runs : ∀ g ∈ cfg.dcp.tpGpuIndices, ∀ g' ∈ cfg.dcp.tpGpuIndices, (gpus g').kvRuns = (gpus g).kvRuns
  slabs : ∀ g ∈ cfg.dcp.tpGpuIndices, ∀ g' ∈ cfg.dcp.tpGpuIndices,
    ∀ seq, ∀ s ∈ (gpus g).kvRuns seq, (gpus g').kvSlabs s = (gpus g).kvSlabs s
  refcounts : ∀ g ∈ cfg.dcp.tpGpuIndices, ∀ g' ∈ cfg.dcp.tpGpuIndices,
    ∀ i, ((gpus g').pages i).refcount = ((gpus g).pages i).refcount

/-- **A page is handed out under the same index on every rank**: it was free on each and now
has one reference on each. -/
def HandedOnRanks (cfg : Config) (gpus gpus' : Gpus) (idx : ℕ) : Prop :=
  ∀ g ∈ cfg.dcp.tpGpuIndices, ((gpus g).pages idx).refcount = 0 ∧
    ((gpus' g).pages idx).refcount = 1 ∧ ((gpus' g).pages idx).replicated = true

/-- **Replicated calls fail no assertion**: allocations always, and the others on live pages. -/
structure AssertionsHold (cfg : Config) (gpus : Gpus) : Prop where
  allocateReplicated : ∀ seq tokenStart layer pool unreserved, (∀ s, pool ≠ .side s) →
    (cfg.allocateReplicated gpus seq tokenStart layer pool unreserved).isSome = true
  free : ∀ hd : PageHandle, (∀ s, hd.pool ≠ .side s) → cfg.LivePage gpus hd →
    (cfg.free gpus hd).isSome = true
  addRef : ∀ hd : PageHandle, (∀ s, hd.pool ≠ .side s) → cfg.LivePage gpus hd →
    (cfg.addRef gpus hd).isSome = true
  promote : ∀ hd : PageHandle, (∀ s, hd.pool ≠ .side s) → cfg.LivePage gpus hd →
    ((gpus hd.gpuIdx).pages hd.pageIdx).pool = .speculation → (cfg.promote gpus hd).isSome = true
  cowCopy : ∀ (hd : PageHandle) (dstSeq : ℕ), (∀ s, hd.pool ≠ .side s) → cfg.LivePage gpus hd →
    (cfg.cowCopy gpus hd dstSeq).isSome = true
  freeSequence : ∀ g seq, g < cfg.layout.gpuCount → (cfg.freeSequence gpus g seq).isSome = true

namespace LockstepInv

variable (h : LockstepInv cfg gpus)
include h

theorem lockstepOk : LockstepOk cfg gpus where
  runs := fun g hg g' hg' => (h.twin g hg g' hg').runs
  slabs := fun g hg g' hg' => (h.twin g hg g' hg').slabs
  refcounts := fun _ hg _ hg' => h.refcount_eq hg hg'

theorem assertionsHold (henabled : cfg.dcp.Enabled) : AssertionsHold cfg gpus where
  allocateReplicated := fun seq tokenStart layer _ unreserved hside => isSome_iff_exists.2
    (h.allocateReplicated_total henabled hside seq tokenStart layer unreserved)
  free := fun _ hside hlive => isSome_iff_exists.2 (h.free_total hside hlive)
  addRef := fun _ hside hlive => isSome_iff_exists.2 (h.addRef_total hside hlive)
  promote := fun _ hside hlive hspec =>
    isSome_iff_exists.2 (h.promote_total hside hlive hspec)
  cowCopy := fun _ dstSeq hside hlive =>
    isSome_iff_exists.2 (h.cowCopy_total hside hlive dstSeq)
  freeSequence := fun _ seq hg => isSome_iff_exists.2 (h.freeSequence_total hg seq)

theorem handedOnRanks (henabled : cfg.dcp.Enabled) {pool : Pool}
    {run seq layer tokenStart tokenEnd : ℕ} (hside : ∀ s, pool ≠ .side s)
    (hrep : cfg.Replicates gpus run seq layer tokenStart tokenEnd pool gpus' idx) :
    HandedOnRanks cfg gpus gpus' idx := by
  intro g hg
  obtain ⟨_, hfree, hrec, _⟩ := h.inv.replicates henabled hside hrep
  exact ⟨Nat.eq_zero_of_not_pos (hfree g hg), (hrec g hg).2.2, (hrec g hg).2.1⟩

end LockstepInv

/-- **The ranks are in lockstep after every run of replicated calls**, whatever is claimed on
single ranks in between; every replicated allocation hands out the same page on every rank;
and no assertion fails. -/
theorem lockstep_of_run (henabled : cfg.dcp.Enabled)
    (hinit : Paging.init cfg.layout = some gpus) {as : List Action}
    (hrun : GuardedRun cfg.step (fun _ a => cfg.ReplicatedCall a) gpus as gpus') :
    LockstepOk cfg gpus' ∧ AssertionsHold cfg gpus' ∧
      ∀ seq tokenStart layer pool unreserved gpus₁ hd,
        cfg.allocateReplicated gpus' seq tokenStart layer pool unreserved = some (gpus₁, some hd) →
          HandedOnRanks cfg gpus' gpus₁ hd.pageIdx := by
  have h : LockstepInv cfg gpus' := by
    refine GuardedRun.invariant ?_ hrun (LockstepInv.init hinit)
    intro gpus₁ a gpus₂ h hcall hstep
    obtain ⟨r, hr, rfl⟩ := map_eq_some_iff.1 hstep
    exact h.perform (of_init hinit).1 henabled hcall hr
  refine ⟨h.lockstepOk, h.assertionsHold henabled, ?_⟩
  intro seq tokenStart layer pool unreserved gpus₁ hd hr
  obtain ⟨hside, _, hcases⟩ := allocateReplicated_cases hr
  rcases hcases with heq | ⟨gpus₂, idx, c, _, heq, hrep⟩
  · cases heq
  · cases heq
    exact h.handedOnRanks henabled hside hrep

theorem twoGpus_inLayout : ∀ g ∈ [0, 1], g < { smallLayout with gpuCount := 2 }.gpuCount := by
  decide

def twoRankConfig : Config where
  layout := { smallLayout with gpuCount := 2 }
  dcp := ⟨2, 1, 1, [0, 1], true, 1, false, twoGpus_nodup, twoGpus_length⟩
  ranks := twoGpus_inLayout

/-- The second rank gives a slab to its indexer; the ranks still agree on where a sequence
goes, and on what becomes of its page. -/
theorem lockstep_of_run_two_ranks : ∃ gpus, GuardedRun twoRankConfig.step
    (fun _ a => twoRankConfig.ReplicatedCall a) twoRankConfig.layout.initGpu
    [.allocateSide 1 .indexerK, .allocateReplicated 7 0 0 .main false,
      .addRef ⟨1, 2, .main⟩, .free ⟨0, 2, .main⟩] gpus ∧
    LockstepOk twoRankConfig gpus ∧ ((gpus 1).pages 2).refcount = 1 := by
  have hinit : Paging.init twoRankConfig.layout = some twoRankConfig.layout.initGpu := by
    exact if_pos (by decide)
  have hsome : ([.allocateSide 1 .indexerK, .allocateReplicated 7 0 0 .main false,
      .addRef ⟨1, 2, .main⟩, .free ⟨0, 2, .main⟩].foldlM twoRankConfig.step
        twoRankConfig.layout.initGpu).any (fun gpus => ((gpus 1).pages 2).refcount = 1) = true := by
    decide
  obtain ⟨gpus, hgpus, hcount⟩ := (any_eq_true _ _).1 hsome
  have hcalls : ∀ a ∈ [Action.allocateSide 1 .indexerK, .allocateReplicated 7 0 0 .main false,
      .addRef ⟨1, 2, .main⟩, .free ⟨0, 2, .main⟩], twoRankConfig.ReplicatedCall a := by
    intro a ha
    fin_cases ha
    all_goals trivial
  have hrun := GuardedRun.of_foldlM hgpus fun (_ : Gpus) => hcalls
  exact ⟨gpus, hrun, (lockstep_of_run (by decide) hinit hrun).1, of_decide_eq_true hcount⟩

end LayerStorm.Paging
