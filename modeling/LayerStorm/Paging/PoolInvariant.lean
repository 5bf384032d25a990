import LayerStorm.Paging.SlabTable

/-!
# The invariant of the pools of a GPU

`PoolInv` puts the slab table, the free lists and the cached count of free pages of a GPU
together.  It speaks of a set of live pages, which between two calls are the pages with
references; inside a call the allocator has taken a page before its record says so.
-/

namespace LayerStorm.Paging

open Lib
open GpuPool List Option Nat

/-- **The invariant of the pools**, for a set of live pages. -/
structure PoolInv (pps : ℕ) (live : ℕ → Prop) (gpu : GpuPool) : Prop where
  whole : gpu.numSlabs ≠ 0 → 0 < pps ∧ gpu.numSlabs * pps = gpu.initialMainPages
  unslabbed : 0 < pps → gpu.numSlabs = 0 → gpu.initialMainPages = 0
  table : SlabTable pps gpu.numSlabs gpu.kvSlabs gpu.kvFreeSlabs gpu.kvRuns gpu.Owns live
  outside : Outside (gpu.numSlabs * pps) gpu.initialMainPages gpu.total gpu.mainFree gpu.specFree
    gpu.kvLooseFree live
  mainEmpty : gpu.numSlabs ≠ 0 → gpu.mainFree = []
  looseEmpty : gpu.numSlabs = 0 → gpu.kvLooseFree = []
  count : gpu.kvFreePages = slabRoom pps gpu.numSlabs gpu.kvSlabs + gpu.kvLooseFree.length

/-- What the moves of slabs leave alone of the pools. -/
structure PoolFrame (gpu gpu' : GpuPool) : Prop where
  main : gpu'.initialMainPages = gpu.initialMainPages
  spec : gpu'.initialSpecPages = gpu.initialSpecPages
  numSlabs : gpu'.numSlabs = gpu.numSlabs
  mainFree : gpu'.mainFree = gpu.mainFree
  specFree : gpu'.specFree = gpu.specFree

/-- What the moves of sequences leave alone. -/
structure KvFrame (gpu gpu' : GpuPool) : Prop extends PoolFrame gpu gpu' where
  pages : gpu'.pages = gpu.pages
  side : gpu'.side = gpu.side

theorem KvFrame.trans {gpu gpu' gpu'' : GpuPool} (h : KvFrame gpu gpu') (h' : KvFrame gpu' gpu'') :
    KvFrame gpu gpu'' :=
  ⟨⟨h'.main.trans h.main, h'.spec.trans h.spec, h'.numSlabs.trans h.numSlabs,
    h'.mainFree.trans h.mainFree, h'.specFree.trans h.specFree⟩, h'.pages.trans h.pages,
    h'.side.trans h.side⟩

variable {pps : ℕ} {live live' : ℕ → Prop} {gpu gpu' : GpuPool}

namespace PoolInv

variable (h : PoolInv pps live gpu)
include h

theorem span_le : gpu.numSlabs * pps ≤ gpu.initialMainPages := by
  by_cases hn : gpu.numSlabs = 0
  · rw [hn, zero_mul]
    exact zero_le _
  · exact (h.whole hn).2.le

theorem pps_pos {s : ℕ} (hs : s < gpu.numSlabs) : 0 < pps :=
  (h.whole (ne_zero_of_lt hs)).1

theorem page_lt {s off : ℕ} (hs : s < gpu.numSlabs) (hoff : off < pps) :
    s * pps + off < gpu.numSlabs * pps ∧ s * pps + off < gpu.initialMainPages := by
  have hlt : s * pps + off < gpu.numSlabs * pps := by
    calc s * pps + off < s * pps + pps := Nat.add_lt_add_left hoff _
      _ = (s + 1) * pps := by ring
      _ ≤ gpu.numSlabs * pps := mul_le_mul_right _ hs
  exact ⟨hlt, lt_of_lt_of_le hlt h.span_le⟩

theorem congr (hlive : ∀ i, live' i ↔ live i) : PoolInv pps live' gpu := by
  have heq : live' = live := funext fun i => propext (hlive i)
  rw [heq]
  exact h

theorem slabChange (hframe : PoolFrame gpu gpu')
    (htable : SlabTable pps gpu'.numSlabs gpu'.kvSlabs gpu'.kvFreeSlabs gpu'.kvRuns gpu'.Owns live')
    (hloose : gpu'.kvLooseFree = gpu.kvLooseFree)
    (hlive : ∀ i, gpu.numSlabs * pps ≤ i → (live' i ↔ live i))
    (hcount : gpu'.kvFreePages - gpu.kvFreePages =
      slabRoom pps gpu.numSlabs gpu'.kvSlabs - slabRoom pps gpu.numSlabs gpu.kvSlabs) :
    PoolInv pps live' gpu' where
  whole := by
    rw [hframe.numSlabs, hframe.main]
    exact h.whole
  unslabbed := by
    rw [hframe.numSlabs, hframe.main]
    exact h.unslabbed
  table := htable
  outside := by
    have htotal : gpu'.total = gpu.total := by
      unfold total
      rw [hframe.main, hframe.spec]
    rw [hframe.numSlabs, hframe.main, htotal, hframe.mainFree, hframe.specFree, hloose]
    refine h.outside.congr_live hlive ?_
    intro i hi _
    calc i < gpu.numSlabs * pps := hi
      _ ≤ gpu.initialMainPages := h.span_le
      _ ≤ gpu.total := le_add_right _ _
  mainEmpty := by
    rw [hframe.numSlabs, hframe.mainFree]
    exact h.mainEmpty
  looseEmpty := by
    rw [hframe.numSlabs, hloose]
    exact h.looseEmpty
  count := by
    have hold := h.count
    rw [hframe.numSlabs, hloose]
    omega

/-! ### Slabs of a sequence -/

theorem kvClaimSlab {sid : ℕ} (hs : sid ∈ gpu.kvFreeSlabs) (seq : ℕ) :
    ∃ gpu', gpu.kvClaimSlab sid seq = some gpu' ∧ PoolInv pps live gpu' ∧ KvFrame gpu gpu' ∧
      sid ∈ gpu'.kvRuns seq ∧ (gpu'.kvSlabs sid).bump = 0 ∧ (gpu'.kvSlabs sid).holes = [] := by
  obtain ⟨hlt, hfree⟩ := (h.table.mem_free sid).1 hs
  have hvacant := h.table.vacant sid hfree
  refine ⟨_, if_pos ⟨hfree, hvacant.used, hvacant.bump, hvacant.holes, hs⟩, ?_,
    ⟨⟨rfl, rfl, rfl, rfl, rfl⟩, rfl, rfl⟩, ?_, ?_, ?_⟩
  · refine h.slabChange ⟨rfl, rfl, rfl, rfl, rfl⟩ ?_ rfl (fun _ _ => Iff.rfl) ?_
    · refine h.table.claim hs ?_ rfl hvacant.bump ?_
      · refine ⟨rfl, ?_, ?_, ?_, ?_⟩
        · simp only [hvacant.bump, zero_le]
        · simp only [hvacant.holes, nodup_nil]
        · simp only [hvacant.holes, not_mem_nil, false_implies, implies_true]
        · simp only [hvacant.holes, hvacant.used, hvacant.bump, length_nil]
      · intro t r
        cases t with
        | sequence seq' =>
          simp only [GpuPool.Owns, setSlab]
          by_cases hseq : seq' = seq
          · subst hseq
            simp
          · simp [hseq]
        | side s page | zone start => simp [GpuPool.Owns, setSlab]
    · simp only [setSlab]
      rw [slabRoom_update hlt]
      simp
  · simp [setSlab]
  · simp [setSlab, hvacant.bump]
  · simp [setSlab, hvacant.holes]

end PoolInv

/-- A free page of a slab of a sequence that may be taken: a hole, or the page at the bump
offset. -/
def Takeable (pps : ℕ) (gpu : GpuPool) (idx : ℕ) : Prop :=
  ∃ s seq off, s ∈ gpu.kvRuns seq ∧ idx = s * pps + off ∧ off < pps ∧
    (off ∈ (gpu.kvSlabs s).holes ∨ off = (gpu.kvSlabs s).bump)

namespace PoolInv

variable {idx : ℕ}

theorem not_live (h : PoolInv pps live gpu) (ht : Takeable pps gpu idx) : ¬ live idx := by
  obtain ⟨s, seq, off, hs, rfl, hoff, hwhere⟩ := ht
  rw [h.table.live_iff s off (h.table.of_run hs).1 hoff, KvSlab.mem_liveOffsets]
  rintro ⟨_, hlt, hmem⟩
  rcases hwhere with hhole | rfl
  · exact hmem hhole
  · exact lt_irrefl _ hlt

theorem kvTakeSpecific (h : PoolInv pps live gpu) (ht : Takeable pps gpu idx) (tokenStart : ℕ) :
    ∃ gpu', gpu.kvTakeSpecific pps idx tokenStart = some gpu' ∧
      PoolInv pps (fun i => live i ∨ i = idx) gpu' ∧ KvFrame gpu gpu' := by
  obtain ⟨s, seq, off, hs, rfl, hoff, hwhere⟩ := ht
  obtain ⟨hlt, hclaimed⟩ := h.table.of_run hs
  have hpos := h.pps_pos hlt
  obtain ⟨hspan, hmain⟩ := h.page_lt hlt hoff
  have hdiv : (s * pps + off) / pps = s := by
    rw [mul_comm, mul_add_div hpos, div_eq_of_lt hoff, add_zero]
  have hmod : (s * pps + off) % pps = off := by
    rw [mul_comm, mul_add_mod, mod_eq_of_lt hoff]
  have hlive : ∀ i, gpu.numSlabs * pps ≤ i → (live i ∨ i = s * pps + off ↔ live i) := by
    intro i hi
    refine ⟨fun ho => ho.resolve_right ?_, .inl⟩
    rintro rfl
    exact lt_irrefl _ (lt_of_lt_of_le hspan hi)
  unfold kvTakeSpecific
  simp only [hdiv, hmod]
  rw [if_pos ⟨hmain, hclaimed⟩]
  by_cases hhole : off ∈ (gpu.kvSlabs s).holes
  · rw [if_pos hhole]
    refine ⟨_, rfl, ?_, ⟨⟨rfl, rfl, rfl, rfl, rfl⟩, rfl, rfl⟩⟩
    refine h.slabChange ⟨rfl, rfl, rfl, rfl, rfl⟩ ?_ rfl hlive ?_
    · exact h.table.takeHole hs hhole _ _
    · simp only [setSlab]
      rw [slabRoom_update hlt]
      push_cast
      ring
  · have hbump := hwhere.resolve_left hhole
    rw [if_neg hhole, if_pos hbump]
    refine ⟨_, rfl, ?_, ⟨⟨rfl, rfl, rfl, rfl, rfl⟩, rfl, rfl⟩⟩
    refine h.slabChange ⟨rfl, rfl, rfl, rfl, rfl⟩ ?_ rfl hlive ?_
    · rw [hbump]
      exact h.table.takeBump hs (hbump ▸ hoff) _ _
    · simp only [setSlab]
      rw [slabRoom_update hlt]
      push_cast
      ring

variable {s : ℕ}

theorem run_of_room (h : PoolInv pps live gpu) (hclaimed : (gpu.kvSlabs s).claimed = true)
    (hroom : ¬ (gpu.kvSlabs s).Stamped pps) : ∃ seq, s ∈ gpu.kvRuns seq := by
  obtain ⟨t, ho⟩ := (h.table.tenancy.claimed_iff s).1 hclaimed
  cases t with
  | sequence seq => exact ⟨seq, (h.table.runs_iff seq s).1 ho⟩
  | side sd page => exact absurd (h.table.stamped _ s ho fun _ heq => nomatch heq) hroom
  | zone start => exact absurd (h.table.stamped _ s ho fun _ heq => nomatch heq) hroom

theorem takeable_hole (h : PoolInv pps live gpu) {off : ℕ}
    (hclaimed : (gpu.kvSlabs s).claimed = true) (hoff : off ∈ (gpu.kvSlabs s).holes) :
    Takeable pps gpu (s * pps + off) := by
  obtain ⟨seq, hs⟩ := h.run_of_room hclaimed fun hst => by
    rw [hst.holes] at hoff
    cases hoff
  have hshape := h.table.shape seq s hs
  exact ⟨s, seq, off, hs, rfl, lt_of_lt_of_le (hshape.below off hoff) hshape.bump_le, .inl hoff⟩

theorem takeable_fromSlab (h : PoolInv pps live gpu) (hidx : gpu.fromSlab pps s = some idx) :
    Takeable pps gpu idx := by
  unfold fromSlab at hidx
  simp only at hidx
  split at hidx
  · rename_i hclaimed
    cases hlast : (gpu.kvSlabs s).holes.getLast? with
    | some off =>
      rw [hlast] at hidx
      cases hidx
      exact h.takeable_hole hclaimed (mem_of_getLast? hlast)
    | none =>
      rw [hlast] at hidx
      simp only at hidx
      split at hidx
      · rename_i hroom
        cases hidx
        obtain ⟨seq, hs⟩ := h.run_of_room hclaimed fun hst => by
          rw [hst.bump] at hroom
          exact lt_irrefl _ hroom
        exact ⟨s, seq, _, hs, rfl, hroom, .inr rfl⟩
      · cases hidx
  · cases hidx

variable {tokenStart : ℕ}

theorem takeable_matchedHole (h : PoolInv pps live gpu)
    (hidx : gpu.matchedHole pps tokenStart s = some idx) : Takeable pps gpu idx := by
  unfold matchedHole at hidx
  simp only at hidx
  split at hidx
  · rename_i hcond
    obtain ⟨off, hlast, rfl⟩ := map_eq_some_iff.1 hidx
    exact h.takeable_hole hcond.1 (mem_of_getLast? hlast)
  · cases hidx

variable {seq : ℕ} (h : PoolInv pps live gpu)
include h

theorem takeable_kvFindInRun {preferSlab : Option ℕ}
    (hidx : gpu.kvFindInRun pps seq tokenStart preferSlab = some idx) :
    Takeable pps gpu idx := by
  unfold kvFindInRun at hidx
  simp only [or_eq_some_iff] at hidx
  rcases hidx with hidx | ⟨_, hidx | ⟨_, hidx⟩⟩
  · obtain ⟨s, _, hfrom⟩ := bind_eq_some_iff.1 hidx
    split at hfrom
    · exact h.takeable_fromSlab hfrom
    · cases hfrom
  · obtain ⟨s, _, hfrom⟩ := exists_of_findSome?_eq_some hidx
    exact h.takeable_matchedHole hfrom
  · obtain ⟨s, _, hfrom⟩ := bind_eq_some_iff.1 hidx
    exact h.takeable_fromSlab hfrom

theorem takeable_kvFindInRunPressure (hidx : gpu.kvFindInRunPressure pps seq = some idx) :
    Takeable pps gpu idx := by
  obtain ⟨s, _, hfrom⟩ := exists_of_findSome?_eq_some hidx
  exact h.takeable_fromSlab hfrom

theorem takeable_first (hs : s ∈ gpu.kvRuns seq) (hbump : (gpu.kvSlabs s).bump = 0) :
    Takeable pps gpu (s * pps) :=
  ⟨s, seq, 0, hs, (add_zero _).symm, h.pps_pos (h.table.of_run hs).1, .inr hbump.symm⟩

theorem takeLoose {loose : List ℕ} (hperm : gpu.kvLooseFree.Perm (idx :: loose)) :
    ¬ live idx ∧ PoolInv pps (fun i => live i ∨ i = idx)
      { gpu with kvLooseFree := loose, kvFreePages := gpu.kvFreePages - 1 } := by
  have hmem : idx ∈ gpu.kvLooseFree := hperm.mem_iff.2 mem_cons_self
  have hin := (h.outside.mem_iff idx).1 (mem_append_right _ hmem)
  have hne : gpu.numSlabs ≠ 0 := by
    intro hzero
    rw [h.looseEmpty hzero] at hmem
    cases hmem
  refine ⟨hin.2.2, h.whole, h.unslabbed, ?_, ?_, h.mainEmpty, fun hzero => absurd hzero hne, ?_⟩
  · refine h.table.congr_live ?_
    intro i hi
    refine ⟨fun ho => ho.resolve_right ?_, .inl⟩
    rintro rfl
    exact lt_irrefl _ (lt_of_lt_of_le hi hin.1)
  · refine h.outside.take ?_ (fun i hi => hi) fun i hi => hperm.mem_iff.2 (mem_cons_of_mem _ hi)
    exact (List.Perm.append_left _ hperm).trans perm_middle
  · have hcount := h.count
    have hlen := hperm.length_eq
    rw [length_cons] at hlen
    rw [hcount, hlen]
    push_cast
    ring

theorem kvAllocPage (seq tokenStart : ℕ) (unreserved : Bool) (preferSlab : Option ℕ) :
    ∃ r, gpu.kvAllocPage pps seq tokenStart unreserved preferSlab = some r ∧
      (r.2 = none → r.1 = gpu) ∧ ∀ idx, r.2 = some idx → ¬ live idx ∧ KvFrame gpu r.1 ∧
        PoolInv pps (fun i => live i ∨ i = idx) r.1 := by
  have hnothing : ∃ r : GpuPool × Option ℕ, (some (gpu, none) : Option (GpuPool × Option ℕ)) = some r ∧
      (r.2 = none → r.1 = gpu) ∧ ∀ idx, r.2 = some idx → ¬ live idx ∧ KvFrame gpu r.1 ∧
        PoolInv pps (fun i => live i ∨ i = idx) r.1 :=
    ⟨_, rfl, fun _ => rfl, fun _ hidx => nomatch hidx⟩
  have htake : ∀ idx, Takeable pps gpu idx → ∃ r,
      ((gpu.kvTakeSpecific pps idx tokenStart).map fun gpu => (gpu, some idx)) = some r ∧
      (r.2 = none → r.1 = gpu) ∧ ∀ idx, r.2 = some idx → ¬ live idx ∧ KvFrame gpu r.1 ∧
        PoolInv pps (fun i => live i ∨ i = idx) r.1 := by
    intro idx ht
    obtain ⟨gpu', hgpu, hinv, hframe⟩ := h.kvTakeSpecific ht tokenStart
    rw [hgpu]
    refine ⟨_, rfl, fun hnone => (nomatch hnone), ?_⟩
    intro idx' hidx
    cases hidx
    exact ⟨h.not_live ht, hframe, hinv⟩
  unfold GpuPool.kvAllocPage
  split
  · exact hnothing
  cases hfind : gpu.kvFindInRun pps seq tokenStart preferSlab with
  | some idx => exact htake idx (h.takeable_kvFindInRun hfind)
  | none =>
    cases hslab : gpu.kvFreeSlabs.getLast? with
    | some sid =>
      obtain ⟨gpu₁, hclaim, hinv₁, hframe₁, hrun, hbump, _⟩ :=
        h.kvClaimSlab (mem_of_getLast? hslab) seq
      have ht := hinv₁.takeable_first hrun hbump
      obtain ⟨gpu₂, htaken, hinv₂, hframe₂⟩ := hinv₁.kvTakeSpecific ht tokenStart
      simp only [hclaim, bind_some, htaken]
      refine ⟨_, rfl, fun hnone => (nomatch hnone), ?_⟩
      intro idx' hidx
      cases hidx
      exact ⟨hinv₁.not_live ht, hframe₁.trans hframe₂, hinv₂⟩
    | none =>
      cases hloose : gpu.kvLooseFree.getLast? with
      | some idx =>
        refine ⟨_, rfl, fun hnone => (nomatch hnone), ?_⟩
        intro idx' hidx
        cases hidx
        have hperm : gpu.kvLooseFree.Perm (idx :: gpu.kvLooseFree.dropLast) := by
          conv_lhs => rw [← dropLast_append_getLast? idx hloose]
          exact perm_append_singleton _ _
        obtain ⟨hnot, hinv⟩ := h.takeLoose hperm
        exact ⟨hnot, ⟨⟨rfl, rfl, rfl, rfl, rfl⟩, rfl, rfl⟩, hinv⟩
      | none =>
        cases hpress : gpu.kvFindInRunPressure pps seq with
        | some idx => exact htake idx (h.takeable_kvFindInRunPressure hpress)
        | none => exact hnothing

theorem kvReturnPage (hslabbed : gpu.KvSlabbed pps) (hlive : live idx) :
    ∃ gpu', gpu.kvReturnPage pps idx = some gpu' ∧
      PoolInv pps (fun i => live i ∧ i ≠ idx) gpu' ∧ KvFrame gpu gpu' := by
  obtain ⟨hpos, hne⟩ := hslabbed
  have hmain := (h.whole hne).2
  unfold GpuPool.kvReturnPage
  by_cases hidx : gpu.initialMainPages ≤ idx
  · rw [if_pos hidx]
    refine ⟨_, rfl, ?_, ⟨⟨rfl, rfl, rfl, rfl, rfl⟩, rfl, rfl⟩⟩
    have hbase : gpu.numSlabs * pps ≤ idx := hmain.trans_le hidx
    refine ⟨h.whole, h.unslabbed, ?_, ?_, h.mainEmpty, fun hzero => absurd hzero hne, ?_⟩
    · refine h.table.congr_live ?_
      intro i hi
      refine ⟨fun hl => hl.1, fun hl => ⟨hl, ?_⟩⟩
      rintro rfl
      exact lt_irrefl _ (lt_of_lt_of_le hi hbase)
    · refine h.outside.give hbase hlive ?_ h.outside.spec_ge ?_
      · rw [← append_assoc]
        exact perm_append_singleton _ _
      · intro i hi
        rcases mem_append.1 hi with hi | hi
        · exact h.outside.loose_ge i hi
        · rw [mem_singleton.1 hi]
          exact hidx
    · rw [h.count, length_append, length_singleton]
      push_cast
      ring
  · rw [if_neg hidx]
    have hoff : idx % pps < pps := mod_lt _ hpos
    have hs : idx / pps < gpu.numSlabs := by
      rw [div_lt_iff_lt_mul hpos, hmain]
      exact Nat.lt_of_not_le hidx
    have hpage : idx / pps * pps + idx % pps = idx := div_add_mod' idx pps
    obtain ⟨seq, hrun, hmem⟩ := h.table.run_of_live hs hoff (hpage.symm ▸ hlive)
    have hclaimed := (h.table.of_run hrun).2
    have hused := h.table.used_pos hrun hmem
    have hout : ∀ i, gpu.numSlabs * pps ≤ i → (live i ∧ i ≠ idx ↔ live i) := by
      intro i hi
      refine ⟨fun hl => hl.1, fun hl => ⟨hl, ?_⟩⟩
      rintro rfl
      exact hidx (hmain.symm.trans_le hi)
    rw [if_pos ⟨hclaimed, hused⟩]
    by_cases hmore : 0 < (gpu.kvSlabs (idx / pps)).used - 1
    · rw [if_pos hmore]
      refine ⟨_, rfl, ?_, ⟨⟨rfl, rfl, rfl, rfl, rfl⟩, rfl, rfl⟩⟩
      refine h.slabChange ⟨rfl, rfl, rfl, rfl, rfl⟩ ?_ rfl hout ?_
      · exact h.table.giveHole hrun hmem hpage
      · simp only [GpuPool.setSlab]
        rw [slabRoom_update hs]
        simp only
        omega
    rw [if_neg hmore]
    have hlast : (gpu.kvSlabs (idx / pps)).used = 1 := by omega
    have howner := (h.table.shape seq _ hrun).owner
    refine ⟨_, rfl, ?_, ⟨⟨rfl, rfl, rfl, rfl, rfl⟩, rfl, rfl⟩⟩
    refine h.slabChange ⟨rfl, rfl, rfl, rfl, rfl⟩ ?_ rfl hout ?_
    · rw [howner]
      refine h.table.giveSlab hrun hmem hpage hlast ?_
      intro t r
      cases t with
      | sequence seq' =>
        simp only [GpuPool.Owns]
        by_cases hseq : seq' = seq
        · subst hseq
          simp
        · simp [hseq]
      | side sd page | zone start => simp [GpuPool.Owns, GpuPool.setSlab]
    · simp only [GpuPool.setSlab]
      rw [slabRoom_update hs, hlast]
      simp [KvSlab.fresh]

end PoolInv

/-! ### Whole slabs for other tenants -/

def KvSlab.stamp (pps : ℕ) (slab : KvSlab) : KvSlab :=
  { slab with
    claimed := true, ownerSeq := 0, used := pps, bump := pps, tokLo := uint32Max, tokHi := 0 }

def GpuPool.stamped (pps : ℕ) (gpu : GpuPool) (sids : List ℕ) : GpuPool :=
  { gpu with
    kvSlabs := fun s => if s ∈ sids then (gpu.kvSlabs s).stamp pps else gpu.kvSlabs s
    kvFreePages := gpu.kvFreePages - pps * sids.length }

/-- The pools after the stamp has been taken off a list of slabs. -/
def GpuPool.unstamped (pps : ℕ) (gpu : GpuPool) (sids : List ℕ) : GpuPool :=
  { gpu with
    kvSlabs := fun s => if s ∈ sids then KvSlab.fresh else gpu.kvSlabs s
    kvFreePages := gpu.kvFreePages + pps * sids.length }

variable {sids : List ℕ}

theorem foldlM_stampSlab (pps : ℕ) (hnodup : sids.Nodup) :
    ∀ gpu : GpuPool, (∀ s ∈ sids, (gpu.kvSlabs s).claimed = false ∧ (gpu.kvSlabs s).Vacant) →
      sids.foldlM (stampSlab pps) gpu = some (gpu.stamped pps sids) := by
  induction sids with
  | nil =>
    intro gpu _
    simp [stamped]
  | cons s sids ih =>
    intro gpu hvacant
    obtain ⟨hs, hnodup⟩ := nodup_cons.1 hnodup
    obtain ⟨hfree, hv⟩ := hvacant s mem_cons_self
    have hstep : gpu.stampSlab pps s = some
        { gpu.setSlab s ((gpu.kvSlabs s).stamp pps) with kvFreePages := gpu.kvFreePages - pps } :=
      if_pos ⟨hfree, hv.used, hv.bump, hv.holes⟩
    rw [foldlM_cons, hstep, bind_eq_bind, bind_some, ih hnodup]
    · congr 1
      simp only [stamped, setSlab, length_cons, mk.injEq, true_and, and_true]
      constructor
      · funext r
        by_cases hr : r = s
        · subst hr
          simp [hs]
        · simp [hr]
      · push_cast
        ring
    · intro r hr
      have hne : r ≠ s := fun heq => hs (heq ▸ hr)
      simp only [setSlab, Function.update_of_ne hne]
      exact hvacant r (mem_cons_of_mem _ hr)

theorem stampSlab_eq {gpu : GpuPool} {sid : ℕ} (hfree : (gpu.kvSlabs sid).claimed = false)
    (hvacant : (gpu.kvSlabs sid).Vacant) :
    gpu.stampSlab pps sid = some (gpu.stamped pps [sid]) := by
  have hstamp := foldlM_stampSlab pps (nodup_singleton sid) gpu
  simp only [mem_singleton, forall_eq, foldlM_cons] at hstamp
  rw [← hstamp ⟨hfree, hvacant⟩]
  cases gpu.stampSlab pps sid with
  | none | some gpu' => rfl

theorem foldlM_unstampSlab (pps : ℕ) (hnodup : sids.Nodup) :
    ∀ gpu : GpuPool, (∀ s ∈ sids, (gpu.kvSlabs s).claimed = true ∧ (gpu.kvSlabs s).used = pps) →
      sids.foldlM (unstampSlab pps) gpu = some (gpu.unstamped pps sids) := by
  induction sids with
  | nil =>
    intro gpu _
    simp [unstamped]
  | cons s sids ih =>
    intro gpu hstamped
    obtain ⟨hs, hnodup⟩ := nodup_cons.1 hnodup
    have hstep : gpu.unstampSlab pps s = some
        { gpu.setSlab s KvSlab.fresh with kvFreePages := gpu.kvFreePages + pps } :=
      if_pos (hstamped s mem_cons_self)
    rw [foldlM_cons, hstep, bind_eq_bind, bind_some, ih hnodup]
    · congr 1
      simp only [unstamped, setSlab, length_cons, mk.injEq, true_and, and_true]
      constructor
      · funext r
        by_cases hr : r = s
        · subst hr
          simp
        · simp [hr]
      · push_cast
        ring
    · intro r hr
      have hne : r ≠ s := fun heq => hs (heq ▸ hr)
      simp only [setSlab, Function.update_of_ne hne]
      exact hstamped r (mem_cons_of_mem _ hr)

theorem foldlM_kvReleaseSideSlab (pps : ℕ) (hnodup : sids.Nodup) :
    ∀ gpu : GpuPool, (∀ s ∈ sids, (gpu.kvSlabs s).claimed = true ∧ (gpu.kvSlabs s).used = pps) →
      sids.foldlM (kvReleaseSideSlab pps) gpu =
        some { gpu.unstamped pps sids with kvFreeSlabs := gpu.kvFreeSlabs ++ sids } := by
  induction sids with
  | nil =>
    intro gpu _
    simp [unstamped]
  | cons s sids ih =>
    intro gpu hstamped
    obtain ⟨hs, hnodup⟩ := nodup_cons.1 hnodup
    have hstep : gpu.kvReleaseSideSlab pps s = some { gpu.setSlab s KvSlab.fresh with
          kvFreePages := gpu.kvFreePages + pps, kvFreeSlabs := gpu.kvFreeSlabs ++ [s] } := by
      unfold kvReleaseSideSlab unstampSlab
      rw [if_pos (hstamped s mem_cons_self)]
      rfl
    rw [foldlM_cons, hstep, bind_eq_bind, bind_some, ih hnodup]
    · congr 1
      simp only [unstamped, setSlab, length_cons, mk.injEq, true_and,
        and_true, append_assoc, singleton_append]
      constructor
      · funext r
        by_cases hr : r = s
        · subst hr
          simp
        · simp [hr]
      · push_cast
        ring
    · intro r hr
      have hne : r ≠ s := fun heq => hs (heq ▸ hr)
      simp only [setSlab, Function.update_of_ne hne]
      exact hstamped r (mem_cons_of_mem _ hr)

theorem slabRoom_change {n : ℕ} {slabs slabs' : ℕ → KvSlab} (d : ℤ) (hnodup : sids.Nodup)
    (hlt : ∀ r ∈ sids, r < n) (hself : ∀ r ∈ sids, ((slabs r).used : ℤ) - (slabs' r).used = d)
    (hother : ∀ r, r ∉ sids → slabs' r = slabs r) :
    slabRoom pps n slabs' = slabRoom pps n slabs + d * sids.length := by
  unfold slabRoom
  rw [sum_change (f := fun r => (pps : ℤ) - (slabs r).used) (s := Finset.range n)
    (c := sids.toFinset)]
  · congr 1
    rw [Finset.sum_congr rfl (g := fun _ => d), Finset.sum_const,
      toFinset_card_of_nodup hnodup, nsmul_eq_mul, mul_comm]
    intro r hr
    have := hself r (mem_toFinset.1 hr)
    omega
  · exact fun r hr => Finset.mem_range.2 (hlt r (mem_toFinset.1 hr))
  · intro r _ hr
    rw [hother r fun hmem => hr (mem_toFinset.2 hmem)]

namespace PoolInv

theorem grant (h : PoolInv pps live gpu) (new : Tenant → ℕ → Prop) (hsids : sids.Nodup)
    (hfree : ∀ r ∈ sids, r < gpu.numSlabs ∧ (gpu.kvSlabs r).claimed = false)
    (hnew : ∀ t r, new t r → r ∈ sids ∧ ∀ seq, t ≠ .sequence seq)
    (hcover : ∀ r ∈ sids, ∃ t, new t r) (hunique : ∀ t t' r, new t r → new t' r → t = t')
    (hframe : PoolFrame gpu gpu') (hslabs : gpu'.kvSlabs = (gpu.stamped pps sids).kvSlabs)
    (hpages : gpu'.kvFreePages = (gpu.stamped pps sids).kvFreePages)
    (hloose : gpu'.kvLooseFree = gpu.kvLooseFree) (hruns : gpu'.kvRuns = gpu.kvRuns)
    (hnodup : gpu'.kvFreeSlabs.Nodup)
    (hmem : ∀ r, r ∈ gpu'.kvFreeSlabs ↔ r ∈ gpu.kvFreeSlabs ∧ r ∉ sids)
    (howns : ∀ t r, gpu'.Owns t r ↔ gpu.Owns t r ∨ new t r) : PoolInv pps live gpu' := by
  have hself : ∀ r ∈ sids, gpu'.kvSlabs r = (gpu.kvSlabs r).stamp pps := by
    intro r hr
    rw [hslabs]
    exact if_pos hr
  have hother : ∀ r, r ∉ sids → gpu'.kvSlabs r = gpu.kvSlabs r := by
    intro r hr
    rw [hslabs]
    exact if_neg hr
  refine h.slabChange hframe ?_ hloose (fun _ _ => Iff.rfl) ?_
  · rw [hframe.numSlabs, hruns]
    refine h.table.stamp new hfree hnew hcover hunique ?_ hother hnodup hmem howns
    intro r hr
    have hholes := (h.table.vacant r (hfree r hr).2).holes
    rw [hself r hr]
    exact ⟨⟨rfl, rfl, hholes⟩, rfl⟩
  · rw [slabRoom_change (-pps : ℤ) hsids (fun r hr => (hfree r hr).1) ?_ hother, hpages]
    · simp only [stamped]
      ring
    · intro r hr
      rw [hself r hr, (h.table.vacant r (hfree r hr).2).used]
      simp [KvSlab.stamp]

theorem revoke (h : PoolInv pps live gpu) {t : Tenant} (hside : ∀ seq, t ≠ .sequence seq)
    (hsids : sids.Nodup) (hown : ∀ r, r ∈ sids ↔ gpu.Owns t r) (hframe : PoolFrame gpu gpu')
    (hslabs : gpu'.kvSlabs = (gpu.unstamped pps sids).kvSlabs)
    (hpages : gpu'.kvFreePages = (gpu.unstamped pps sids).kvFreePages)
    (hloose : gpu'.kvLooseFree = gpu.kvLooseFree) (hruns : gpu'.kvRuns = gpu.kvRuns)
    (hperm : gpu'.kvFreeSlabs.Perm (sids ++ gpu.kvFreeSlabs))
    (howns : ∀ t' r, gpu'.Owns t' r ↔ gpu.Owns t' r ∧ t' ≠ t) : PoolInv pps live gpu' := by
  have hself : ∀ r ∈ sids, gpu'.kvSlabs r = KvSlab.fresh := by
    intro r hr
    rw [hslabs]
    exact if_pos hr
  have hother : ∀ r, r ∉ sids → gpu'.kvSlabs r = gpu.kvSlabs r := by
    intro r hr
    rw [hslabs]
    exact if_neg hr
  have hdisjoint : sids.Disjoint gpu.kvFreeSlabs := by
    intro r hr hin
    have hclaimed := h.table.tenancy.claimed_of_owns ((hown r).1 hr)
    rw [((h.table.mem_free r).1 hin).2] at hclaimed
    cases hclaimed
  refine h.slabChange hframe ?_ hloose (fun _ _ => Iff.rfl) ?_
  · rw [hframe.numSlabs, hruns]
    refine h.table.unstamp hside hown hself hother ?_ ?_ howns
    · exact hperm.nodup_iff.2 (List.Nodup.append hsids h.table.freeNodup hdisjoint)
    · intro r
      rw [hperm.mem_iff, mem_append]
      exact or_comm
  · rw [slabRoom_change (pps : ℤ) hsids (fun r hr => h.table.inRange t r ((hown r).1 hr)) ?_
      hother, hpages]
    · simp only [unstamped]
      ring
    · intro r hr
      rw [hself r hr, (h.table.stamped t r ((hown r).1 hr) hside).used]
      simp [KvSlab.fresh]

end PoolInv

end LayerStorm.Paging
