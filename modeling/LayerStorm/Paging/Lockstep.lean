import LayerStorm.Paging.Representation

/-!
# Replicated KV in lockstep

With replicated KV the page of a sequence is chosen on the first rank of the TP group and
taken under the same index on all others.  The free slabs of the ranks may differ, since
indexer pages, KDA state and the expert cache claim slabs on single ranks; the slabs of
sequences do not.  So what can be taken on the first rank can be taken on every rank.
-/

namespace LayerStorm.Paging

open Lib
open Function GpuPool Config

/-! ### Twins -/

/-- A page behind the main pool that has left the free list of the speculation pool. -/
def GpuPool.Away (gpu : GpuPool) (i : ℕ) : Prop :=
  gpu.initialMainPages ≤ i ∧ i < gpu.total ∧ i ∉ gpu.specFree

/-- **Two GPUs with the same slabs of sequences**, from whose speculation pools the same
pages are away. -/
structure Twin (a b : GpuPool) : Prop where
  runs : b.kvRuns = a.kvRuns
  slabs : ∀ seq, ∀ s ∈ a.kvRuns seq, b.kvSlabs s = a.kvSlabs s
  away : ∀ i, b.Away i ↔ a.Away i

namespace Twin

variable {a b c a' b' : GpuPool} {pps idx tokenStart : ℕ}

theorem refl (a : GpuPool) : Twin a a := ⟨rfl, fun _ _ _ => rfl, fun _ => Iff.rfl⟩

theorem symm (h : Twin a b) : Twin b a :=
  ⟨h.runs.symm, fun seq s hs => (h.slabs seq s (h.runs ▸ hs)).symm, fun i => (h.away i).symm⟩

theorem trans (h : Twin a b) (h' : Twin b c) : Twin a c :=
  ⟨h'.runs.trans h.runs, fun seq s hs => (h'.slabs seq s (h.runs.symm ▸ hs)).trans (h.slabs seq s hs),
    fun i => (h'.away i).trans (h.away i)⟩

theorem away_congr (hmain : b.initialMainPages = a.initialMainPages)
    (hspec : b.initialSpecPages = a.initialSpecPages) (hfree : b.specFree = a.specFree) (i : ℕ) :
    b.Away i ↔ a.Away i := by
  unfold GpuPool.Away total
  rw [hmain, hspec, hfree]

theorem of_sideStep (h : SideStep a b) : Twin a b :=
  ⟨h.runs, h.slabs, away_congr h.main h.spec h.specFree⟩

theorem write (h : Twin a b) {sid : ℕ} {slab : KvSlab} (hframe : KvFrame a a')
    (hframe' : KvFrame b b') (ha : a'.kvSlabs = update a.kvSlabs sid slab)
    (hb : b'.kvSlabs = update b.kvSlabs sid slab) (hruns : b'.kvRuns = a'.kvRuns)
    (hmem : ∀ seq, ∀ s ∈ a'.kvRuns seq, s = sid ∨ s ∈ a.kvRuns seq) : Twin a' b' := by
  refine ⟨hruns, ?_, ?_⟩
  · intro seq s hs
    rw [ha, hb]
    by_cases heq : s = sid
    · rw [heq, update_self, update_self]
    · rw [update_of_ne heq, update_of_ne heq]
      exact h.slabs seq s ((hmem seq s hs).resolve_left heq)
  · intro i
    rw [away_congr hframe'.main hframe'.spec hframe'.specFree,
      away_congr hframe.main hframe.spec hframe.specFree]
    exact h.away i

end Twin

/-! ### Moves of a sequence -/

section Moves

variable {pps idx tokenStart : ℕ} {gpu gpu' : GpuPool}

/-- A slab after a page has been taken out of its free space. -/
def KvSlab.taken (slab : KvSlab) (off tokenStart : ℕ) : KvSlab :=
  let slab := if off ∈ slab.holes then { slab with holes := slab.holes.erase off }
    else { slab with bump := slab.bump + 1 }
  { slab with
    used := slab.used + 1
    tokLo := min slab.tokLo tokenStart
    tokHi := max slab.tokHi tokenStart }

theorem GpuPool.kvTakeSpecific_eq (h : gpu.kvTakeSpecific pps idx tokenStart = some gpu') :
    KvFrame gpu gpu' ∧ gpu'.kvRuns = gpu.kvRuns ∧ gpu'.kvSlabs = update gpu.kvSlabs
      (idx / pps) ((gpu.kvSlabs (idx / pps)).taken (idx % pps) tokenStart) := by
  unfold kvTakeSpecific at h
  unfold KvSlab.taken
  simp only at h ⊢
  split at h
  · split at h
    · rename_i hhole
      cases h
      rw [if_pos hhole]
      exact ⟨⟨⟨rfl, rfl, rfl, rfl, rfl⟩, rfl, rfl⟩, rfl, rfl⟩
    · rename_i hhole
      split at h
      · cases h
        rw [if_neg hhole]
        exact ⟨⟨⟨rfl, rfl, rfl, rfl, rfl⟩, rfl, rfl⟩, rfl, rfl⟩
      · cases h
  · cases h

theorem GpuPool.kvClaimSlab_eq {sid seq : ℕ} (h : gpu.kvClaimSlab sid seq = some gpu') :
    KvFrame gpu gpu' ∧ gpu'.kvRuns = update gpu.kvRuns seq (gpu.kvRuns seq ++ [sid]) ∧
      gpu'.kvSlabs = update gpu.kvSlabs sid ⟨seq, true, 0, 0, [], uint32Max, 0⟩ := by
  unfold kvClaimSlab at h
  simp only at h
  split at h
  · rename_i hcond
    obtain ⟨_, hused, hbump, hholes, _⟩ := hcond
    cases h
    refine ⟨⟨⟨rfl, rfl, rfl, rfl, rfl⟩, rfl, rfl⟩, rfl, ?_⟩
    simp only [setSlab, hused, hbump, hholes]
  · cases h

/-- A slab after a page has been given back to it. -/
def KvSlab.returned (slab : KvSlab) (off : ℕ) : KvSlab :=
  if 0 < slab.used - 1 then { slab with used := slab.used - 1, holes := slab.holes ++ [off] }
  else KvSlab.fresh

/-- The runs after a page of a slab has been given back. -/
def returnedRuns (runs : ℕ → List ℕ) (slab : KvSlab) (sid : ℕ) : ℕ → List ℕ :=
  if 0 < slab.used - 1 then runs
  else Function.update runs slab.ownerSeq ((runs slab.ownerSeq).filter fun s => s ≠ sid)

theorem GpuPool.kvReturnPage_eq (h : gpu.kvReturnPage pps idx = some gpu')
    (hmain : idx < gpu.initialMainPages) :
    KvFrame gpu gpu' ∧ gpu'.kvRuns = returnedRuns gpu.kvRuns (gpu.kvSlabs (idx / pps)) (idx / pps) ∧
      gpu'.kvSlabs = update gpu.kvSlabs (idx / pps)
        ((gpu.kvSlabs (idx / pps)).returned (idx % pps)) := by
  unfold kvReturnPage at h
  unfold KvSlab.returned returnedRuns
  rw [if_neg (Nat.not_le.2 hmain)] at h
  simp only at h
  split at h
  · split at h
    · rename_i hrest
      cases h
      rw [if_pos hrest, if_pos hrest]
      exact ⟨⟨⟨rfl, rfl, rfl, rfl, rfl⟩, rfl, rfl⟩, rfl, rfl⟩
    · rename_i hlast
      cases h
      rw [if_neg hlast, if_neg hlast]
      exact ⟨⟨⟨rfl, rfl, rfl, rfl, rfl⟩, rfl, rfl⟩, rfl, rfl⟩
  · cases h

theorem mem_of_mem_returnedRuns {runs : ℕ → List ℕ} {slab : KvSlab} {sid seq s : ℕ}
    (hs : s ∈ returnedRuns runs slab sid seq) : s ∈ runs seq := by
  unfold returnedRuns at hs
  split at hs
  · exact hs
  by_cases hseq : seq = slab.ownerSeq
  · subst hseq
    rw [update_self] at hs
    exact (List.mem_filter.1 hs).1
  · rw [update_of_ne hseq] at hs
    exact hs

end Moves

namespace Twin

variable {a b a' b' : GpuPool} {pps idx tokenStart sid seq : ℕ}

theorem take (h : Twin a b) (hrun : ∃ seq, idx / pps ∈ a.kvRuns seq)
    (ha : a.kvTakeSpecific pps idx tokenStart = some a')
    (hb : b.kvTakeSpecific pps idx tokenStart = some b') : Twin a' b' := by
  obtain ⟨seq, hs⟩ := hrun
  obtain ⟨hframe, hruns, hslabs⟩ := kvTakeSpecific_eq ha
  obtain ⟨hframe', hruns', hslabs'⟩ := kvTakeSpecific_eq hb
  rw [h.slabs seq _ hs] at hslabs'
  refine h.write hframe hframe' hslabs hslabs' (by rw [hruns, hruns', h.runs]) ?_
  intro seq' s hs'
  rw [hruns] at hs'
  exact .inr hs'

theorem claim (h : Twin a b) (ha : a.kvClaimSlab sid seq = some a')
    (hb : b.kvClaimSlab sid seq = some b') : Twin a' b' := by
  obtain ⟨hframe, hruns, hslabs⟩ := kvClaimSlab_eq ha
  obtain ⟨hframe', hruns', hslabs'⟩ := kvClaimSlab_eq hb
  refine h.write hframe hframe' hslabs hslabs' (by rw [hruns, hruns', h.runs]) ?_
  intro seq' s hs'
  rw [hruns] at hs'
  by_cases hseq : seq' = seq
  · subst hseq
    rw [update_self, List.mem_append, List.mem_singleton] at hs'
    exact hs'.symm
  · rw [update_of_ne hseq] at hs'
    exact .inr hs'

theorem giveBack (h : Twin a b) (hrun : ∃ seq, idx / pps ∈ a.kvRuns seq)
    (hma : idx < a.initialMainPages) (hmb : idx < b.initialMainPages)
    (ha : a.kvReturnPage pps idx = some a') (hb : b.kvReturnPage pps idx = some b') :
    Twin a' b' := by
  obtain ⟨seq, hs⟩ := hrun
  obtain ⟨hframe, hruns, hslabs⟩ := kvReturnPage_eq ha hma
  obtain ⟨hframe', hruns', hslabs'⟩ := kvReturnPage_eq hb hmb
  rw [h.slabs seq _ hs] at hslabs' hruns'
  refine h.write hframe hframe' hslabs hslabs' (by rw [hruns, hruns', h.runs]) ?_
  intro seq' s hs'
  rw [hruns] at hs'
  exact .inr (mem_of_mem_returnedRuns hs')

theorem takeable (h : Twin a b) (ht : Takeable pps a idx) : Takeable pps b idx := by
  obtain ⟨s, seq, off, hs, hidx, hoff, hwhere⟩ := ht
  refine ⟨s, seq, off, h.runs.symm ▸ hs, hidx, hoff, ?_⟩
  rw [h.slabs seq s hs]
  exact hwhere

end Twin

/-! ### Giving up references -/

section Drop

variable {pps idx : ℕ} {gpu gpu' : GpuPool}

theorem GpuInv.inRun_iff (h : GpuInv pps gpu) (hlive : gpu.Live idx) :
    (∃ seq, idx / pps ∈ gpu.kvRuns seq) ↔ gpu.KvSlabbed pps ∧ idx < gpu.initialMainPages := by
  have hidx : idx / pps * pps + idx % pps = idx := Nat.div_add_mod' idx pps
  constructor
  · rintro ⟨seq, hs⟩
    have hlt := (h.pool.table.of_run hs).1
    have hpos := h.pool.pps_pos hlt
    have hmain := (h.pool.page_lt hlt (Nat.mod_lt idx hpos)).2
    rw [hidx] at hmain
    exact ⟨⟨hpos, Nat.ne_zero_of_lt hlt⟩, hmain⟩
  · rintro ⟨⟨hpos, hne⟩, hmain⟩
    rw [← (h.pool.whole hne).2] at hmain
    have hs : idx / pps < gpu.numSlabs := Nat.div_lt_of_lt_mul (by rw [Nat.mul_comm]; exact hmain)
    have hlive' : gpu.Live (idx / pps * pps + idx % pps) := by
      rw [hidx]
      exact hlive
    obtain ⟨seq, hrun, _⟩ := h.pool.table.run_of_live hs (Nat.mod_lt idx hpos) hlive'
    exact ⟨seq, hrun⟩

theorem GpuInv.dropRef_cases (h : GpuInv pps gpu) (hdrop : gpu.dropRef pps idx = some gpu') :
    ((gpu.pages idx).refcount - 1 = 0 ∧ (gpu.pages idx).pool = .main ∧
      (∃ seq, idx / pps ∈ gpu.kvRuns seq) ∧ ∃ gpu₁, Twin gpu gpu₁ ∧
        idx < gpu₁.initialMainPages ∧ gpu₁.kvReturnPage pps idx = some gpu') ∨
    ((gpu.pages idx).refcount - 1 = 0 ∧ (gpu.pages idx).pool ≠ .main ∧
      gpu.initialMainPages ≤ idx ∧ gpu'.kvRuns = gpu.kvRuns ∧ gpu'.kvSlabs = gpu.kvSlabs ∧
      gpu'.initialMainPages = gpu.initialMainPages ∧
      gpu'.initialSpecPages = gpu.initialSpecPages ∧ gpu'.specFree = gpu.specFree ++ [idx]) ∨
    (¬ ((gpu.pages idx).refcount - 1 = 0 ∧ ((gpu.pages idx).pool = .main →
      ∃ seq, idx / pps ∈ gpu.kvRuns seq)) ∧ Twin gpu gpu') := by
  have hlive := GpuPool.live_of_dropRef hdrop
  have hpos : 0 < (gpu.pages idx).refcount := hlive
  unfold GpuPool.dropRef at hdrop
  rw [if_pos hpos] at hdrop
  split at hdrop
  · rename_i hlast
    unfold GpuPool.returnToFreeList at hdrop
    simp only [GpuPool.setMeta, Function.update_self] at hdrop
    split at hdrop
    · rename_i hmain
      by_cases hlt : idx < gpu.initialMainPages
      · refine .inl ⟨hlast, hmain.1, (h.inRun_iff hlive).2 ⟨hmain.2, hlt⟩, _, ?_, ?_, hdrop⟩
        · exact ⟨rfl, fun _ _ _ => rfl, fun _ => Iff.rfl⟩
        · exact hlt
      refine .inr (.inr ⟨?_, ?_⟩)
      · rintro ⟨_, hrun⟩
        exact hlt ((h.inRun_iff hlive).1 (hrun hmain.1)).2
      · unfold GpuPool.kvReturnPage at hdrop
        rw [if_pos (Nat.not_lt.1 hlt)] at hdrop
        cases hdrop
        exact ⟨rfl, fun _ _ _ => rfl, fun _ => Iff.rfl⟩
    · rename_i hnot
      cases hdrop
      by_cases hp : (gpu.pages idx).pool = .main
      · refine .inr (.inr ⟨?_, ?_⟩)
        · rintro ⟨_, hrun⟩
          exact hnot ⟨hp, ((h.inRun_iff hlive).1 (hrun hp)).1⟩
        · unfold GpuPool.setFreeList
          rw [if_pos hp]
          exact ⟨rfl, fun _ _ _ => rfl, fun _ => Iff.rfl⟩
      · refine .inr (.inl ⟨hlast, hp, ?_, ?_⟩)
        · exact Nat.le_of_not_lt fun hlt => hp (h.mainPool idx hlive hlt)
        · unfold GpuPool.setFreeList GpuPool.freeList
          rw [if_neg hp, if_neg hp]
          exact ⟨rfl, rfl, rfl, rfl, rfl⟩
  · rename_i hrest
    cases hdrop
    exact .inr (.inr ⟨fun hlast => hrest hlast.1, rfl, fun _ _ _ => rfl, fun _ => Iff.rfl⟩)

end Drop

/-- **A reference to the same page is given up on both.** -/
theorem Twin.drop {a b a' b' : GpuPool} {pps idx : ℕ} (h : Twin a b) (hia : GpuInv pps a)
    (hib : GpuInv pps b) (hcount : (b.pages idx).refcount = (a.pages idx).refcount)
    (hpool : (b.pages idx).pool = (a.pages idx).pool) (ha : a.dropRef pps idx = some a')
    (hb : b.dropRef pps idx = some b') : Twin a' b' := by
  have hcases := hia.dropRef_cases ha
  have hcases' := hib.dropRef_cases hb
  rw [hcount, hpool, h.runs] at hcases'
  rcases hcases with ⟨hlast, hp, hrun, a₁, ha₁, hlt, hgive⟩ | ⟨hlast, hp, hge, hcase⟩ |
    ⟨hnot, hquiet⟩
  · rcases hcases' with ⟨_, _, _, b₁, hb₁, hlt', hgive'⟩ | ⟨_, hp', _⟩ | ⟨hnot, _⟩
    · have htwin : Twin a₁ b₁ := (ha₁.symm.trans h).trans hb₁
      exact htwin.giveBack (ha₁.runs.symm ▸ hrun) hlt hlt' hgive hgive'
    · exact absurd hp hp'
    · exact absurd ⟨hlast, fun _ => hrun⟩ hnot
  · rcases hcases' with ⟨_, hp', _⟩ | ⟨_, _, hge', hcase'⟩ | ⟨hnot, _⟩
    · exact absurd hp' hp
    · obtain ⟨hruns, hslabs, hmain, hspec, hfree⟩ := hcase
      obtain ⟨hruns', hslabs', hmain', hspec', hfree'⟩ := hcase'
      refine ⟨by rw [hruns, hruns'], ?_, ?_⟩
      · intro seq s hs
        rw [hruns] at hs
        rw [hslabs, hslabs']
        exact h.slabs seq s hs
      · intro i
        have haway := h.away i
        unfold GpuPool.Away total at haway ⊢
        rw [hmain, hspec, hfree, hmain', hspec', hfree']
        simp only [List.mem_append, not_or]
        tauto
    · exact absurd ⟨hlast, fun hp' => absurd hp' hp⟩ hnot
  · rcases hcases' with ⟨hlast, _, hrun, _⟩ | ⟨hlast, hp', _⟩ | ⟨_, hquiet'⟩
    · exact absurd ⟨hlast, fun _ => hrun⟩ hnot
    · exact absurd ⟨hlast, fun hp => absurd hp hp'⟩ hnot
    · exact (hquiet.symm.trans h).trans hquiet'

/-! ### Allocation -/

namespace Twin

variable {a b a' b' : GpuPool} {pps idx : ℕ}

theorem setMeta (gpu : GpuPool) (idx : ℕ) (pm : PageMeta) : Twin gpu (gpu.setMeta idx pm) :=
  ⟨rfl, fun _ _ _ => rfl, fun _ => Iff.rfl⟩

theorem of_takeLoose (h : takeLoose a idx = some a') : Twin a a' := by
  unfold takeLoose at h
  split at h
  · cases h
    exact ⟨rfl, fun _ _ _ => rfl, fun _ => Iff.rfl⟩
  · cases h

theorem away_of_takeFree (hi : GpuInv pps a) {pool : Pool} (h : takeFree pool idx a = some a') :
    a'.kvRuns = a.kvRuns ∧ a'.kvSlabs = a.kvSlabs ∧
      ∀ i, a'.Away i ↔ a.Away i ∨ (pool ≠ .main ∧ i = idx) := by
  unfold takeFree at h
  split at h
  · rename_i hmem
    cases h
    obtain ⟨_, _, htotal, hge, _⟩ := hi.pool.popFree (List.perm_cons_erase hmem)
    unfold setFreeList freeList
    by_cases hp : pool = .main
    · rw [if_pos hp]
      refine ⟨rfl, rfl, fun i => ?_⟩
      simp only [hp, ne_eq, not_true_eq_false, false_and, or_false]
      exact Iff.rfl
    rw [if_neg hp, if_neg hp]
    refine ⟨rfl, rfl, fun i => ?_⟩
    have hnodup : a.specFree.Nodup :=
      (List.nodup_append.1 (List.nodup_append.1 hi.pool.outside.nodup).1).2.1
    have hge := hge hp
    unfold GpuPool.Away
    simp only [hnodup.mem_erase_iff, hp, ne_eq, not_false_eq_true, true_and]
    constructor
    · rintro ⟨h₁, h₂, h₃⟩
      by_cases hi : i = idx
      · exact .inr hi
      · exact .inl ⟨h₁, h₂, fun hf => h₃ ⟨hi, hf⟩⟩
    · rintro (⟨h₁, h₂, h₃⟩ | rfl)
      · exact ⟨h₁, h₂, fun hf => h₃ hf.2⟩
      · exact ⟨hge, htotal, fun hf => hf.1 rfl⟩
  · cases h

theorem takeFree (h : Twin a b) (hia : GpuInv pps a) (hib : GpuInv pps b) {pool : Pool}
    (ha : takeFree pool idx a = some a') (hb : takeFree pool idx b = some b') :
    Twin a' b' := by
  obtain ⟨hruns, hslabs, haway⟩ := away_of_takeFree hia ha
  obtain ⟨hruns', hslabs', haway'⟩ := away_of_takeFree hib hb
  refine ⟨by rw [hruns, hruns', h.runs], ?_, ?_⟩
  · intro seq s hs
    rw [hruns] at hs
    rw [hslabs, hslabs']
    exact h.slabs seq s hs
  · intro i
    rw [haway, haway', h.away]

end Twin

theorem Takeable.inRun {pps idx : ℕ} {gpu : GpuPool} (h : Takeable pps gpu idx) :
    ∃ seq, idx / pps ∈ gpu.kvRuns seq := by
  obtain ⟨s, seq, off, hs, rfl, hoff, _⟩ := h
  have hpos : 0 < pps := Nat.lt_of_le_of_lt (Nat.zero_le _) hoff
  refine ⟨seq, ?_⟩
  rw [Nat.mul_comm, Nat.mul_add_div hpos, Nat.div_eq_of_lt hoff]
  exact hs

/-! ### The ranks in lockstep -/

/-- **The ranks are in lockstep.** -/
structure LockstepInv (cfg : Config) (gpus : Gpus) : Prop where
  inv : AllocInv cfg gpus
  twin : ∀ g ∈ cfg.dcp.tpGpuIndices, ∀ g' ∈ cfg.dcp.tpGpuIndices, Twin (gpus g) (gpus g')
  /-- Every live page of a rank is claimed on all ranks. -/
  replicated : ∀ g ∈ cfg.dcp.tpGpuIndices, ∀ i, (gpus g).Live i →
    ((gpus g).pages i).replicated = true

variable {cfg : Config} {gpus gpus' : Gpus} {g idx : ℕ}

namespace LockstepInv

section

variable (h : LockstepInv cfg gpus)
include h

theorem refcount_eq {g' : ℕ} (hg : g ∈ cfg.dcp.tpGpuIndices) (hg' : g' ∈ cfg.dcp.tpGpuIndices)
    (i : ℕ) :
    ((gpus g').pages i).refcount = ((gpus g).pages i).refcount := by
  by_cases hl : (gpus g).Live i
  · exact (h.inv.alike g hg g' hg' i (h.replicated g hg i hl)).2.1
  by_cases hl' : (gpus g').Live i
  · exact (h.inv.alike g' hg' g hg i (h.replicated g' hg' i hl')).2.1.symm
  · unfold GpuPool.Live at hl hl'
    omega

theorem live_of_live {g' : ℕ} (hg : g ∈ cfg.dcp.tpGpuIndices) (hg' : g' ∈ cfg.dcp.tpGpuIndices)
    {i : ℕ} (hl : (gpus g).Live i) : (gpus g').Live i ∧
      ((gpus g').pages i).pool = ((gpus g).pages i).pool := by
  refine ⟨?_, (h.inv.alike g hg g' hg' i (h.replicated g hg i hl)).2.2⟩
  unfold GpuPool.Live
  rw [h.refcount_eq hg hg']
  exact hl

theorem quiet (hinv : AllocInv cfg gpus')
    (hin : ∀ g ∈ cfg.dcp.tpGpuIndices, Twin (gpus g) (gpus' g) ∧
      ∀ i, (gpus' g).Live i → ((gpus' g).pages i).replicated = true) : LockstepInv cfg gpus' where
  inv := hinv
  twin := fun g hg g' hg' => ((hin g hg).1.symm.trans (h.twin g hg g' hg')).trans (hin g' hg').1
  replicated := fun g hg => (hin g hg).2

theorem sideMove (hinv : AllocInv cfg gpus') (hmove : SideMove gpus gpus') :
    LockstepInv cfg gpus' := by
  refine h.quiet hinv fun g hg => ⟨Twin.of_sideStep (hmove g), ?_⟩
  unfold GpuPool.Live
  rw [(hmove g).pages]
  exact h.replicated g hg

theorem elsewhere (hinv : AllocInv cfg gpus')
    (hsame : ∀ g ∈ cfg.dcp.tpGpuIndices, gpus' g = gpus g) : LockstepInv cfg gpus' := by
  refine h.quiet hinv fun g hg => ?_
  rw [hsame g hg]
  exact ⟨Twin.refl _, h.replicated g hg⟩

theorem update {gpu' : GpuPool} (hg : g ∉ cfg.dcp.tpGpuIndices)
    (hinv : AllocInv cfg (update gpus g gpu')) :
    LockstepInv cfg (update gpus g gpu') := by
  refine h.elsewhere hinv fun g' hg' => update_of_ne ?_ ..
  rintro rfl
  exact hg hg'

theorem not_rank (hlive : (gpus g).Live idx) (hnot : ((gpus g).pages idx).replicated = false) :
    g ∉ cfg.dcp.tpGpuIndices := by
  intro hg
  rw [h.replicated g hg idx hlive] at hnot
  cases hnot

theorem dropRanks (henabled : cfg.dcp.Enabled)
    (hdrop : (cfg.onRanks gpus fun gpu => gpu.dropRef cfg.pps idx) = some gpus') :
    LockstepInv cfg gpus' := by
  obtain ⟨hin, hout⟩ := onRanks_some hdrop
  refine ⟨h.inv.dropRanks henabled hdrop, ?_, ?_⟩
  · intro g hg g' hg'
    have hlive := live_of_dropRef (hin g hg)
    exact (h.twin g hg g' hg').drop (h.inv.inv g (cfg.ranks g hg)) (h.inv.inv g' (cfg.ranks g' hg'))
      (h.refcount_eq hg hg' idx) (h.live_of_live hg hg' hlive).2 (hin g hg) (hin g' hg')
  · intro g hg i hl
    obtain ⟨_, hstep, hrec⟩ := (h.inv.inv g (cfg.ranks g hg)).of_dropRef (hin g hg)
    by_cases hi : i = idx
    · subst hi
      have hlive := live_of_dropRef (hin g hg)
      unfold GpuPool.Live at hl
      rw [hrec, PageMeta.dropped_refcount] at hl
      rw [hrec, PageMeta.dropped_replicated, h.replicated g hg i hlive]
      simp only [Bool.true_and, decide_eq_true_eq]
      omega
    · unfold GpuPool.Live at hl
      rw [hstep.others i hi] at hl ⊢
      exact h.replicated g hg i hl

theorem takes {seq tokenStart : ℕ} (htakes : cfg.Takes gpus seq tokenStart gpus' idx) :
    ∀ g ∈ cfg.dcp.tpGpuIndices, ∀ g' ∈ cfg.dcp.tpGpuIndices, Twin (gpus' g) (gpus' g') := by
  intro g hg g' hg'
  rcases htakes with ⟨gpus₁, hbefore, htake⟩ | hloose
  · obtain ⟨hin, _⟩ := onRanks_some htake
    have hpool := ((h.inv.beforeTake hbefore).1 g hg).2
    have htwin : Twin (gpus₁ g) (gpus₁ g') := by
      rcases hbefore with rfl | ⟨sid, hclaim⟩
      · exact h.twin g hg g' hg'
      · obtain ⟨hin₁, _⟩ := onRanks_some hclaim
        exact (h.twin g hg g' hg').claim (hin₁ g hg) (hin₁ g' hg')
    exact htwin.take (hpool.takeable_of_some (hin g hg)).inRun (hin g hg) (hin g' hg')
  · obtain ⟨hin, _⟩ := onRanks_some hloose
    exact ((Twin.of_takeLoose (hin g hg)).symm.trans (h.twin g hg g' hg')).trans
      (Twin.of_takeLoose (hin g' hg'))

end

variable {tokenEnd : ℕ}

theorem replicates (h : LockstepInv cfg gpus) (henabled : cfg.dcp.Enabled) {pool : Pool}
    {run seq layer tokenStart : ℕ} (hside : ∀ s, pool ≠ .side s)
    (hrep : cfg.Replicates gpus run seq layer tokenStart tokenEnd pool gpus' idx) :
    LockstepInv cfg gpus' := by
  obtain ⟨hinv, _, hrec, _⟩ := h.inv.replicates henabled hside hrep
  refine ⟨hinv, ?_, ?_⟩
  · intro g hg g' hg'
    rcases hrep with ⟨_, gpus₁, htakes, hrep⟩ | hrep
    · obtain ⟨hin, _⟩ := onRanks_some hrep
      have htwin := h.takes htakes g hg g' hg'
      rw [← Option.some.inj (hin g hg), ← Option.some.inj (hin g' hg')]
      exact ((Twin.setMeta _ _ _).symm.trans htwin).trans (Twin.setMeta _ _ _)
    · obtain ⟨hin, _⟩ := onRanks_some hrep
      obtain ⟨a, ha, heq⟩ := Option.map_eq_some_iff.1 (hin g hg)
      obtain ⟨b, hb, heq'⟩ := Option.map_eq_some_iff.1 (hin g' hg')
      have htwin : Twin a b := (h.twin g hg g' hg').takeFree (h.inv.inv g (cfg.ranks g hg))
        (h.inv.inv g' (cfg.ranks g' hg')) ha hb
      rw [← heq, ← heq']
      exact ((Twin.setMeta _ _ _).symm.trans htwin).trans (Twin.setMeta _ _ _)
  · intro g hg i hl
    obtain ⟨hstep, hr, _⟩ := hrec g hg
    by_cases hi : i = idx
    · rw [hi]
      exact hr
    · unfold GpuPool.Live at hl
      rw [hstep.others i hi] at hl ⊢
      exact h.replicated g hg i hl

theorem rewriteRanks (h : LockstepInv cfg gpus) (hinv : AllocInv cfg gpus') (idx : ℕ)
    {F : PageMeta → PageMeta}
    (hin : ∀ g ∈ cfg.dcp.tpGpuIndices, gpus' g = (gpus g).setMeta idx (F ((gpus g).pages idx)))
    (hlive : ∀ g ∈ cfg.dcp.tpGpuIndices, (gpus' g).Live idx → (gpus g).Live idx)
    (hrep : ∀ pm, (F pm).replicated = pm.replicated) : LockstepInv cfg gpus' := by
  refine h.quiet hinv fun g hg => ⟨?_, ?_⟩
  · rw [hin g hg]
    exact Twin.setMeta _ _ _
  · intro i hl
    by_cases hi : i = idx
    · subst hi
      have hl' := hlive g hg hl
      rw [hin g hg]
      unfold setMeta
      simp only [update_self]
      rw [hrep]
      exact h.replicated g hg i hl'
    · have hsame : (gpus' g).pages i = (gpus g).pages i := by
        rw [hin g hg]
        exact update_of_ne hi ..
      unfold GpuPool.Live at hl
      rw [hsame] at hl ⊢
      exact h.replicated g hg i hl

variable {hd : PageHandle} (h : LockstepInv cfg gpus)
include h

theorem free (hfree : cfg.free gpus hd = some gpus') : LockstepInv cfg gpus' := by
  have hinv := h.inv.free hfree
  by_cases hside : ∃ s, hd.pool = .side s
  · obtain ⟨s, hpool⟩ := hside
    exact h.sideMove hinv (h.inv.freeSide hpool hfree).2
  unfold Config.free at hfree
  split at hfree
  · rename_i s hpool
    exact absurd ⟨s, hpool⟩ hside
  split at hfree
  · rename_i hlive
    split at hfree
    · rename_i hmirrored
      exact h.dropRanks hmirrored.2 hfree
    · rename_i hlocal
      obtain ⟨_, gpu', _, rfl⟩ := Config.onGpu_some hfree
      exact h.update (h.not_rank hlive.2.2 (h.inv.not_replicated hlocal)) hinv
  · cases hfree

theorem promote (hpromote : cfg.promote gpus hd = some gpus') : LockstepInv cfg gpus' := by
  have hinv := h.inv.promote hpromote
  unfold Config.promote at hpromote
  split at hpromote
  · cases hpromote
  split at hpromote
  · rename_i hlive
    split at hpromote
    · obtain ⟨hin, _⟩ := Config.onRanks_some hpromote
      have hflip : ∀ g ∈ cfg.dcp.tpGpuIndices, gpus' g = (gpus g).setMeta hd.pageIdx
          { (gpus g).pages hd.pageIdx with pool := .main } :=
        fun g hg => ((h.inv.inv g (cfg.ranks g hg)).flipPool (hin g hg)).1
      refine h.rewriteRanks hinv hd.pageIdx (F := fun pm => { pm with pool := .main }) hflip ?_
        fun _ => rfl
      intro g hg hl
      rw [hflip g hg] at hl
      unfold GpuPool.Live GpuPool.setMeta at hl
      simp only [Function.update_self] at hl
      exact hl
    · rename_i hlocal
      obtain ⟨_, gpu', _, rfl⟩ := Config.onGpu_some hpromote
      exact h.update (h.not_rank hlive.2.2 (h.inv.not_replicated hlocal)) hinv
  · cases hpromote

theorem addRef (hadd : cfg.addRef gpus hd = some gpus') : LockstepInv cfg gpus' := by
  have hinv := h.inv.addRef hadd
  unfold Config.addRef at hadd
  split at hadd
  · obtain ⟨_, gpu', hgpu, rfl⟩ := Config.onGpu_some hadd
    simp only at hgpu
    split at hgpu
    · cases hgpu
      exact h.sideMove hinv (SideMove.update (SideStep.setSide rfl rfl rfl))
    · cases hgpu
  split at hadd
  · rename_i hlive
    split at hadd
    · rename_i hmirrored
      obtain ⟨hin, _⟩ := Config.onRanks_some hadd
      refine h.rewriteRanks hinv hd.pageIdx (F := fun pm => { pm with refcount := pm.refcount + 1 })
        (fun g hg => (Option.some.inj (hin g hg)).symm) ?_ fun _ => rfl
      intro g hg _
      exact (h.live_of_live (h.inv.onRanks _ _ hmirrored.1).1 hg hlive.2.2).1
    · rename_i hlocal
      obtain ⟨_, gpu', _, rfl⟩ := Config.onGpu_some hadd
      exact h.update (h.not_rank hlive.2.2 (h.inv.not_replicated hlocal)) hinv
  · cases hadd

theorem describe {seq layer tokenStart : ℕ}
    (hdesc : cfg.describe gpus hd seq layer tokenStart tokenEnd = some gpus') :
    LockstepInv cfg gpus' := by
  have hinv := h.inv.describe hdesc
  unfold Config.describe at hdesc
  split at hdesc
  · obtain ⟨_, gpu', hgpu, rfl⟩ := Config.onGpu_some hdesc
    split at hgpu
    · cases hgpu
      exact h.sideMove hinv (SideMove.update (SideStep.setSide rfl rfl rfl))
    · cases hgpu
  obtain ⟨_, gpu', hgpu, rfl⟩ := Config.onGpu_some hdesc
  split at hgpu
  · cases hgpu
    refine h.quiet hinv fun g hg => ?_
    by_cases heq : g = hd.gpuIdx
    · subst heq
      rw [Function.update_self]
      refine ⟨Twin.setMeta _ _ _, fun i => ?_⟩
      have hrep := h.replicated _ hg i
      unfold GpuPool.Live GpuPool.setMeta at *
      by_cases hi : i = hd.pageIdx
      · subst hi
        simp only [Function.update_self]
        exact hrep
      · simp only [Function.update_of_ne hi]
        exact hrep
    · rw [Function.update_of_ne heq]
      exact ⟨Twin.refl _, h.replicated g hg⟩
  · cases hgpu

theorem freeSequence {seq : ℕ} (hfree : cfg.freeSequence gpus g seq = some gpus') :
    LockstepInv cfg gpus' := by
  unfold Config.freeSequence at hfree
  split at hfree
  · rename_i hg
    obtain ⟨gpus₁, hpages, hsides⟩ := Option.bind_eq_some_iff.1 hfree
    have h₁ : LockstepInv cfg gpus₁ := by
      refine foldlM_invariant (P := LockstepInv cfg) _ ?_ hpages h
      intro gpus i gpus' _ h hstep
      unfold Config.freeSequencePage at hstep
      simp only at hstep
      split at hstep
      · rename_i hcond
        split at hstep
        · rename_i hrep
          split at hstep
          · exact h.dropRanks hrep.2 hstep
          · cases hstep
            exact h
        · rename_i hlocal
          have hnot := h.inv.not_replicated hlocal
          obtain ⟨_, gpu', hgpu, rfl⟩ := Config.onGpu_some hstep
          exact h.update (h.not_rank hcond.2 hnot) (h.inv.dropLocal hg hnot hgpu)
      · cases hstep
        exact h
    refine foldlM_invariant (P := LockstepInv cfg) _ ?_ hsides h₁
    intro gpus si gpus' _ h hstep
    unfold Config.freeSequenceSide at hstep
    simp only at hstep
    split at hstep
    · obtain ⟨_, gpu', hgpu, rfl⟩ := Config.onGpu_some hstep
      obtain ⟨hinv, hside⟩ := (h.inv.inv g hg).of_sideDropRef hgpu
      exact h.sideMove (h.inv.side hinv hside) (SideMove.update hside)
    · cases hstep
      exact h
  · cases hfree

theorem setTokenEnd (henabled : cfg.dcp.Enabled)
    (hend : (cfg.onRanks gpus fun gpu => some (gpu.setMeta idx { gpu.pages idx with
      tokenEnd := tokenEnd })) = some gpus') : LockstepInv cfg gpus' := by
  obtain ⟨hin, _⟩ := onRanks_some hend
  refine h.rewriteRanks (h.inv.setTokenEnd henabled hend) idx
    (F := fun pm => { pm with tokenEnd := tokenEnd })
    (fun g hg => (Option.some.inj (hin g hg)).symm) ?_ fun _ => rfl
  intro g hg hl
  rw [← Option.some.inj (hin g hg)] at hl
  unfold GpuPool.Live setMeta at hl
  simp only [update_self] at hl
  exact hl

theorem cowCopy {dstSeq : ℕ} {r : Gpus × Option PageHandle}
    (hr : cfg.cowCopy gpus hd dstSeq = some r) :
    LockstepInv cfg r.1 := by
  have hinv := (h.inv.cowCopy hr).inv
  unfold Config.cowCopy at hr
  split at hr
  · rename_i s hpool
    exact h.sideMove hinv (h.inv.cowCopySide hpool hr).1.2
  split at hr
  · rename_i hlive
    split at hr
    · cases hr
      exact h
    split at hr
    · rename_i hmirrored
      obtain ⟨hg, henabled⟩ := h.inv.onRanks _ _ hmirrored.1
      have hside := (h.inv.inv _ (cfg.ranks _ hg)).notSide hd.pageIdx
      rcases Config.cowCopyReplicated_cases (List.ne_nil_of_mem hg) hr with
        rfl | ⟨gpus₁, gpus₂, gpus₃, idx, run, tokenEnd, c, hc, rfl, hrep, hend, hdrop⟩
      · exact h
      · have h₁ := h.replicates henabled hside hrep
        exact (h₁.setTokenEnd henabled hend).dropRanks henabled hdrop
    · rename_i hlocal
      unfold Config.cowCopyLocal at hr
      obtain ⟨_, r', _, rfl⟩ := Config.allocOn_some hr
      exact h.update (h.not_rank hlive.2.2 (h.inv.not_replicated hlocal)) hinv
  · cases hr

end LockstepInv

end LayerStorm.Paging
