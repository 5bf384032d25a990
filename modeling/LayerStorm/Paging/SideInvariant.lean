import LayerStorm.Paging.GpuInvariant

/-!
# Whole slabs: side pools, KDA state and the expert cache

The calls of one GPU that claim or give up pages of a side pool or runs of slabs.  They
keep `GpuInv`, and they leave everything that belongs to sequences as it is.
-/

namespace LayerStorm.Paging

open Lib
open Function GpuPool List

/-- **What calls on side pools and whole slabs leave alone**: pages, runs of sequences and
their slabs, and free lists of pages. -/
structure SideStep (gpu gpu' : GpuPool) : Prop extends SameShape gpu gpu' where
  pages : gpu'.pages = gpu.pages
  runs : gpu'.kvRuns = gpu.kvRuns
  slabs : ∀ seq s, s ∈ gpu.kvRuns seq → gpu'.kvSlabs s = gpu.kvSlabs s
  mainFree : gpu'.mainFree = gpu.mainFree
  specFree : gpu'.specFree = gpu.specFree
  loose : gpu'.kvLooseFree = gpu.kvLooseFree

theorem SideStep.refl (gpu : GpuPool) : SideStep gpu gpu :=
  ⟨SameShape.refl gpu, rfl, rfl, fun _ _ _ => rfl, rfl, rfl, rfl⟩

theorem SideStep.trans {gpu gpu' gpu'' : GpuPool} (h : SideStep gpu gpu')
    (h' : SideStep gpu' gpu'') : SideStep gpu gpu'' where
  toSameShape := h.toSameShape.trans h'.toSameShape
  pages := h'.pages.trans h.pages
  runs := h'.runs.trans h.runs
  slabs := fun seq s hs => (h'.slabs seq s (h.runs ▸ hs)).trans (h.slabs seq s hs)
  mainFree := h'.mainFree.trans h.mainFree
  specFree := h'.specFree.trans h.specFree
  loose := h'.loose.trans h.loose

variable {pps : ℕ} {live : ℕ → Prop} {gpu gpu' : GpuPool} {s : Side} {idx : ℕ}

theorem SideStep.poolFrame (h : SideStep gpu gpu') : PoolFrame gpu gpu' :=
  { h with }

theorem GpuInv.sideStep (h : GpuInv pps gpu) (hstep : SideStep gpu gpu')
    (hpool : PoolInv pps gpu.Live gpu') (hsides : ∀ s, SideInv (gpu'.side s)) :
    GpuInv pps gpu' := by
  have hlive : gpu'.Live = gpu.Live := by
    unfold GpuPool.Live
    rw [hstep.pages]
  refine ⟨hlive ▸ hpool, ?_, ?_, ?_, hsides, ?_⟩
  · rw [hlive, hstep.pages, hstep.main]
    exact h.mainPool
  · rw [hlive, hstep.pages]
    exact h.idle
  · rw [hstep.pages]
    exact h.notSide
  · intro s
    rw [hstep.elastic, hstep.total, hstep.numSlabs]
    exact h.elasticTotal s

theorem PoolInv.sameOwners (h : PoolInv pps live gpu) (hframe : PoolFrame gpu gpu')
    (hslabs : gpu'.kvSlabs = gpu.kvSlabs) (hfree : gpu'.kvFreeSlabs = gpu.kvFreeSlabs)
    (hruns : gpu'.kvRuns = gpu.kvRuns) (hloose : gpu'.kvLooseFree = gpu.kvLooseFree)
    (hpages : gpu'.kvFreePages = gpu.kvFreePages) (howns : ∀ t r, gpu'.Owns t r ↔ gpu.Owns t r) :
    PoolInv pps live gpu' := by
  refine h.slabChange hframe ?_ hloose (fun _ _ => Iff.rfl) (by rw [hslabs, hpages, sub_self, sub_self])
  have heq : gpu'.Owns = gpu.Owns := funext fun t => funext fun r => propext (howns t r)
  rw [hframe.numSlabs, hslabs, hfree, hruns, heq]
  exact h.table

/-! ### Records of side pages -/

theorem owns_setSideMeta (gpu : GpuPool) (s : Side) (idx : ℕ) (pm : PageMeta) (t : Tenant) (r : ℕ) :
    (gpu.setSideMeta s idx pm).Owns t r ↔
      if t = .side s idx then (gpu.side s).elastic = true ∧ 0 < pm.refcount ∧
        r ∈ runSlabIds idx (gpu.side s).runSlabs
      else gpu.Owns t r := by
  cases t with
  | sequence seq | zone start => simp [GpuPool.Owns, setSideMeta, setSide]
  | side s' page =>
    by_cases hs : s' = s
    · subst hs
      by_cases hp : page = idx
      · subst hp
        simp [GpuPool.Owns, setSideMeta, setSide]
      · simp [GpuPool.Owns, setSideMeta, setSide, hp]
    · simp [GpuPool.Owns, setSideMeta, setSide, hs]

variable {free : List ℕ} {sp : SidePool} {pm : PageMeta}

theorem SideInv.write (h : SideInv sp) (hidx : idx < sp.total) (hnodup : free.Nodup)
    (hfree : sp.elastic = false → ∀ i, i ∈ free ↔
      if i = idx then pm.refcount = 0 else i ∈ sp.free) (hempty : sp.elastic = true → free = []) :
    SideInv { sp with pages := update sp.pages idx pm, free := free } := by
  refine ⟨?_, hnodup, ?_, hempty⟩
  · intro i hi
    by_cases heq : i = idx
    · rw [heq]
      exact hidx
    · simp only [update_of_ne heq] at hi
      exact h.bound i hi
  · intro helastic i
    rw [hfree helastic]
    by_cases heq : i = idx
    · subst heq
      simp [hidx]
    · simp only [heq, ne_eq, not_false_eq_true, update_of_ne]
      exact h.mem_free helastic i

theorem SideInv.setSide (h : ∀ s, SideInv (gpu.side s)) (hsp : SideInv sp) :
    ∀ s', SideInv ((gpu.setSide s sp).side s') := by
  intro s'
  unfold GpuPool.setSide
  by_cases hs : s' = s
  · subst hs
    simpa using hsp
  · simpa [Function.update_of_ne hs] using h s'

theorem SideStep.setSide (htotal : sp.total = (gpu.side s).total)
    (helastic : sp.elastic = (gpu.side s).elastic) (hruns : sp.runSlabs = (gpu.side s).runSlabs) :
    SideStep gpu (gpu.setSide s sp) := by
  have hside : ∀ s', s' ≠ s → (gpu.setSide s sp).side s' = gpu.side s' :=
    fun s' hs => update_of_ne hs ..
  have hself : (gpu.setSide s sp).side s = sp := update_self ..
  refine ⟨⟨rfl, rfl, rfl, ?_, ?_, ?_⟩, rfl, rfl, fun _ _ _ => rfl, rfl, rfl, rfl⟩
  all_goals
    intro s'
    by_cases hs : s' = s
    · subst hs
      rw [hself]
      assumption
    · rw [hside s' hs]

theorem GpuInv.rewriteSide (h : GpuInv pps gpu) (pm : PageMeta) (hidx : idx < (gpu.side s).total)
    (hlive : pm.refcount = 0 ↔ ((gpu.side s).pages idx).refcount = 0) :
    GpuInv pps (gpu.setSideMeta s idx pm) ∧ SideStep gpu (gpu.setSideMeta s idx pm) := by
  have hstep : SideStep gpu (gpu.setSideMeta s idx pm) := SideStep.setSide rfl rfl rfl
  refine ⟨h.sideStep hstep ?_ ?_, hstep⟩
  · refine h.pool.sameOwners hstep.poolFrame rfl rfl rfl rfl rfl ?_
    intro t r
    rw [owns_setSideMeta]
    split
    · rename_i ht
      subst ht
      simp only [GpuPool.Owns, Nat.pos_iff_ne_zero, ne_eq, hlive]
    · rfl
  · refine SideInv.setSide h.sides ((h.sides s).write hidx (h.sides s).nodup ?_ (h.sides s).empty)
    intro helastic i
    split
    · rename_i hi
      rw [hi, (h.sides s).mem_free helastic, hlive]
      exact ⟨fun hf => hf.2, fun hf => ⟨hidx, hf⟩⟩
    · rfl

theorem setSide_setSideMeta (gpu : GpuPool) (s : Side) (sp : SidePool) (idx : ℕ) (pm : PageMeta) :
    (gpu.setSide s sp).setSideMeta s idx pm =
      gpu.setSide s { sp with pages := update sp.pages idx pm } := by
  simp [setSideMeta, setSide]

theorem GpuInv.writeFixed (h : GpuInv pps gpu) (pm : PageMeta)
    (hfixed : (gpu.side s).elastic = false) (hidx : idx < (gpu.side s).total) (hnodup : free.Nodup)
    (hfree : ∀ i, i ∈ free ↔ if i = idx then pm.refcount = 0 else i ∈ (gpu.side s).free) :
    GpuInv pps (gpu.setSide s { gpu.side s with
        pages := update (gpu.side s).pages idx pm, free := free }) ∧
      SideStep gpu (gpu.setSide s { gpu.side s with
        pages := update (gpu.side s).pages idx pm, free := free }) := by
  have hstep : SideStep gpu (gpu.setSide s { gpu.side s with
      pages := update (gpu.side s).pages idx pm, free := free }) :=
    SideStep.setSide rfl rfl rfl
  refine ⟨h.sideStep hstep ?_ ?_, hstep⟩
  · refine h.pool.sameOwners hstep.poolFrame rfl rfl rfl rfl rfl ?_
    intro t r
    cases t with
    | sequence seq | zone start => rfl
    | side s' page =>
      by_cases hs : s' = s
      · subst hs
        simp [GpuPool.Owns, setSide, hfixed]
      · simp [GpuPool.Owns, setSide, hs]
  · refine SideInv.setSide h.sides ((h.sides s).write hidx hnodup (fun _ => hfree) ?_)
    intro helastic
    rw [hfixed] at helastic
    cases helastic

/-! ### Allocation from a side pool -/

/-- **What an allocation from a side pool does**: nothing, or one page that was free is
live. -/
structure SideAllocated (pps : ℕ) (s : Side) (gpu : GpuPool) (r : GpuPool × Option ℕ) : Prop where
  inv : GpuInv pps r.1
  step : SideStep gpu r.1
  refused : r.2 = none → r.1 = gpu
  fresh : ∀ idx, r.2 = some idx → ((gpu.side s).pages idx).refcount = 0 ∧
    idx < (gpu.side s).total ∧ 0 < ((r.1.side s).pages idx).refcount

theorem GpuInv.refuseSide (h : GpuInv pps gpu) : SideAllocated pps s gpu (gpu, none) :=
  ⟨h, SideStep.refl gpu, fun _ => rfl, fun _ hidx => nomatch hidx⟩

variable {f : PageMeta → PageMeta}

theorem SideAllocated.write {r : GpuPool × Option ℕ} (h : SideAllocated pps s gpu r)
    (hlive : ∀ pm, (f pm).refcount = pm.refcount) :
    SideAllocated pps s gpu (writeSideMeta s f r) := by
  unfold writeSideMeta
  cases hidx : r.2 with
  | none => exact h
  | some idx =>
    obtain ⟨hfree, hlt, hl⟩ := h.fresh idx hidx
    obtain ⟨hinv, hstep⟩ := h.inv.rewriteSide (s := s) (f ((r.1.side s).pages idx))
      ((h.step.total s).symm ▸ hlt) (by rw [hlive])
    refine ⟨hinv, h.step.trans hstep, fun hnone => (nomatch hnone), ?_⟩
    intro idx' heq
    cases heq
    refine ⟨hfree, hlt, ?_⟩
    simp only [setSideMeta, setSide, update_self, hlive]
    exact hl

variable {n : ℕ}

theorem mem_runSlabIds {start r : ℕ} : r ∈ runSlabIds start n ↔ start ≤ r ∧ r < start + n := by
  unfold runSlabIds
  rw [mem_range'_1]

theorem nodup_runSlabIds (start n : ℕ) : (runSlabIds start n).Nodup := nodup_range'

section

variable (h : GpuInv pps gpu)
include h

theorem GpuInv.claimSlab (pm : PageMeta) {sid : ℕ} (helastic : (gpu.side s).elastic = true)
    (hone : (gpu.side s).runSlabs = 1) (hperm : gpu.kvFreeSlabs.Perm (sid :: free))
    (hpm : 0 < pm.refcount) :
    ∃ gpu', ({ gpu with kvFreeSlabs := free } : GpuPool).stampSlab pps sid = some gpu' ∧
      gpu'.side = gpu.side ∧ ((gpu.side s).pages sid).refcount = 0 ∧ sid < (gpu.side s).total ∧
      GpuInv pps (gpu'.setSideMeta s sid pm) ∧ SideStep gpu (gpu'.setSideMeta s sid pm) := by
  have htable := h.pool.table
  have hmem : sid ∈ gpu.kvFreeSlabs := hperm.mem_iff.2 mem_cons_self
  obtain ⟨hlt, hfree⟩ := (htable.mem_free sid).1 hmem
  obtain ⟨hnot, hnodup⟩ := nodup_cons.1 (hperm.nodup_iff.1 htable.freeNodup)
  have hslabs : ∀ r ∈ [sid], r < gpu.numSlabs ∧ (gpu.kvSlabs r).claimed = false := by
    intro r hr
    rw [mem_singleton.1 hr]
    exact ⟨hlt, hfree⟩
  have hstamp : ({ gpu with kvFreeSlabs := free } : GpuPool).stampSlab pps sid =
      some (stamped pps { gpu with kvFreeSlabs := free } [sid]) :=
    stampSlab_eq hfree (htable.vacant sid hfree)
  have hzero : ((gpu.side s).pages sid).refcount = 0 := by
    by_contra hpos
    have ho : gpu.Owns (.side s sid) sid := by
      refine ⟨helastic, Nat.pos_of_ne_zero hpos, ?_⟩
      rw [mem_runSlabIds]
      omega
    have hclaimed := htable.tenancy.claimed_of_owns ho
    rw [hfree] at hclaimed
    cases hclaimed
  have htotal : sid < (gpu.side s).total := by
    rw [h.elasticTotal s helastic]
    exact hlt
  refine ⟨_, hstamp, rfl, hzero, htotal, ?_⟩
  have hside : SideStep gpu ((stamped pps { gpu with kvFreeSlabs := free } [sid]).setSideMeta
      s sid pm) := by
    have hset : SideStep gpu (gpu.setSideMeta s sid pm) := SideStep.setSide rfl rfl rfl
    have hshape := hset.toSameShape
    refine ⟨{ hshape with main := rfl, spec := rfl, numSlabs := rfl }, rfl, rfl, ?_, rfl, rfl,
      rfl⟩
    intro seq r hr
    have hne : r ∉ [sid] := by
      rw [mem_singleton]
      rintro rfl
      exact htable.not_run hfree hr
    exact if_neg hne
  refine ⟨h.sideStep hside ?_ ?_, hside⟩
  · refine h.pool.grant (fun t r => t = .side s sid ∧ r = sid) (nodup_singleton sid) hslabs
      ?_ ?_ ?_ hside.poolFrame rfl rfl rfl rfl hnodup ?_ ?_
    · rintro t r ⟨rfl, rfl⟩
      exact ⟨mem_singleton_self r, fun _ heq => nomatch heq⟩
    · intro r hr
      exact ⟨_, rfl, mem_singleton.1 hr⟩
    · rintro t t' r ⟨rfl, _⟩ ⟨rfl, _⟩
      rfl
    · intro r
      rw [hperm.mem_iff, mem_cons, mem_singleton]
      constructor
      · intro hr
        exact ⟨.inr hr, fun heq => hnot (heq ▸ hr)⟩
      · rintro ⟨hr | hr, hne⟩
        · exact absurd hr hne
        · exact hr
    · intro t r
      rw [owns_setSideMeta]
      split
      · rename_i ht
        subst ht
        simp only [stamped, GpuPool.Owns, helastic, mem_runSlabIds]
        simp
        omega
      · rename_i ht
        simp only [ht, false_and, or_false]
        rfl
  · refine SideInv.setSide h.sides ((h.sides s).write htotal (h.sides s).nodup ?_ (h.sides s).empty)
    intro hfixed
    rw [helastic] at hfixed
    cases hfixed

theorem GpuInv.kvClaimSideSlab (s : Side) (honorReserved : Bool)
    (hcase : ((gpu.side s).elastic = true ∧ (gpu.side s).runSlabs = 1) ∨ gpu.kvFreeSlabs = [])
    (hf : ∀ pm, 0 < (f pm).refcount) :
    ∃ r, (gpu.kvClaimSideSlab pps honorReserved).map (GpuPool.writeSideMeta s f) = some r ∧
      SideAllocated pps s gpu r := by
  unfold GpuPool.kvClaimSideSlab
  cases hlast : gpu.kvFreeSlabs.getLast? with
  | none => exact ⟨_, rfl, h.refuseSide⟩
  | some sid =>
    simp only
    split
    · exact ⟨_, rfl, h.refuseSide⟩
    have hperm : gpu.kvFreeSlabs.Perm (sid :: gpu.kvFreeSlabs.dropLast) := by
      conv_lhs => rw [← dropLast_append_getLast? sid hlast]
      exact perm_append_singleton _ _
    rcases hcase with ⟨helastic, hone⟩ | hempty
    · obtain ⟨gpu', hgpu, hside, hzero, htotal, hinv, hstep⟩ := h.claimSlab
        (f ((gpu.side s).pages sid)) helastic hone hperm (hf _)
      rw [hgpu]
      refine ⟨_, rfl, ?_⟩
      simp only [GpuPool.writeSideMeta, hside]
      refine ⟨hinv, hstep, fun hnone => (nomatch hnone), ?_⟩
      intro idx hidx
      cases hidx
      refine ⟨hzero, htotal, ?_⟩
      simpa [GpuPool.setSideMeta, GpuPool.setSide] using hf _
    · rw [hempty] at hlast
      cases hlast

theorem GpuInv.takeFixed (pm : PageMeta) (hfixed : (gpu.side s).elastic = false)
    (hperm : (gpu.side s).free.Perm (idx :: free)) (hpm : 0 < pm.refcount) :
    SideAllocated pps s gpu
      ((gpu.setSide s { gpu.side s with free := free }).setSideMeta s idx pm, some idx) := by
  obtain ⟨hnot, hnodup⟩ := nodup_cons.1 (hperm.nodup_iff.1 (h.sides s).nodup)
  obtain ⟨htotal, hzero⟩ := ((h.sides s).mem_free hfixed idx).1 (hperm.mem_iff.2 mem_cons_self)
  have hfree : ∀ i, i ∈ free ↔
      if i = idx then pm.refcount = 0 else i ∈ (gpu.side s).free := by
    intro i
    split
    · rename_i hi
      rw [hi]
      exact iff_of_false hnot (Nat.ne_of_gt hpm)
    · rename_i hi
      rw [hperm.mem_iff, mem_cons]
      exact ⟨.inr, fun ho => ho.resolve_left hi⟩
  obtain ⟨hinv, hstep⟩ := h.writeFixed pm hfixed htotal hnodup hfree
  rw [setSide_setSideMeta]
  refine ⟨hinv, hstep, fun hnone => (nomatch hnone), ?_⟩
  intro idx' hidx
  cases hidx
  refine ⟨hzero, htotal, ?_⟩
  simpa [setSide] using hpm

theorem GpuInv.allocateSide (s : Side) :
    ∃ r, gpu.allocateSide pps s = some r ∧ SideAllocated pps s gpu r := by
  unfold GpuPool.allocateSide
  simp only
  by_cases helastic : (gpu.side s).elastic = true
  · rw [if_pos helastic]
    by_cases hone : (gpu.side s).runSlabs = 1
    · rw [if_neg (not_not.2 hone)]
      exact h.kvClaimSideSlab s true (.inl ⟨helastic, hone⟩) fun _ => Nat.one_pos
    · rw [if_pos hone]
      exact ⟨_, rfl, h.refuseSide⟩
  · rw [if_neg helastic]
    cases hlast : (gpu.side s).free.getLast? with
    | none => exact ⟨_, rfl, h.refuseSide⟩
    | some idx =>
      have hperm : (gpu.side s).free.Perm (idx :: (gpu.side s).free.dropLast) := by
        conv_lhs => rw [← dropLast_append_getLast? idx hlast]
        exact perm_append_singleton _ _
      refine ⟨_, rfl, ?_⟩
      exact h.takeFixed _ (Bool.eq_false_iff.2 helastic) hperm Nat.one_pos

end

/-! ### Giving up a reference to a side page -/

theorem owns_released (gpu : GpuPool) (s : Side) (idx : ℕ) (hpm : pm.refcount = 0) (t : Tenant)
    (r : ℕ) :
    (gpu.setSideMeta s idx pm).Owns t r ↔ gpu.Owns t r ∧ t ≠ .side s idx := by
  rw [owns_setSideMeta]
  split
  · rename_i ht
    simp [ht, hpm]
  · rename_i ht
    simp [ht]

variable {sids : List ℕ}

theorem GpuInv.revokeSlabs (h : GpuInv pps gpu) {t : Tenant} (hside : ∀ seq, t ≠ .sequence seq)
    (hnodup : sids.Nodup) (hown : ∀ r, r ∈ sids ↔ gpu.Owns t r) (hshape : SameShape gpu gpu')
    (hpages : gpu'.pages = gpu.pages) (hruns : gpu'.kvRuns = gpu.kvRuns)
    (hmain : gpu'.mainFree = gpu.mainFree) (hspec : gpu'.specFree = gpu.specFree)
    (hloose : gpu'.kvLooseFree = gpu.kvLooseFree)
    (hslabs : gpu'.kvSlabs = (gpu.unstamped pps sids).kvSlabs)
    (hcount : gpu'.kvFreePages = (gpu.unstamped pps sids).kvFreePages)
    (hperm : gpu'.kvFreeSlabs.Perm (sids ++ gpu.kvFreeSlabs))
    (howns : ∀ t' r, gpu'.Owns t' r ↔ gpu.Owns t' r ∧ t' ≠ t)
    (hsides : ∀ s, SideInv (gpu'.side s)) : GpuInv pps gpu' ∧ SideStep gpu gpu' := by
  have hstep : SideStep gpu gpu' := by
    refine ⟨hshape, hpages, hruns, ?_, hmain, hspec, hloose⟩
    intro seq r hr
    rw [hslabs]
    refine if_neg fun hmem => ?_
    exact hside seq (h.pool.table.tenancy.unique _ _ r ((hown r).1 hmem)
      ((h.pool.table.runs_iff seq r).2 hr))
  refine ⟨h.sideStep hstep ?_ hsides, hstep⟩
  exact h.pool.revoke hside hnodup hown hstep.poolFrame hslabs hcount hloose hruns hperm howns

theorem GpuInv.releaseSlabs (h : GpuInv pps gpu) (helastic : (gpu.side s).elastic = true)
    (hlive : 0 < ((gpu.side s).pages idx).refcount) (hpm : pm.refcount = 0)
    (hperm : free.Perm (runSlabIds idx (gpu.side s).runSlabs ++ gpu.kvFreeSlabs)) :
    GpuInv pps { (gpu.setSideMeta s idx pm).unstamped pps
        (runSlabIds idx (gpu.side s).runSlabs) with kvFreeSlabs := free } ∧
      SideStep gpu { (gpu.setSideMeta s idx pm).unstamped pps
        (runSlabIds idx (gpu.side s).runSlabs) with kvFreeSlabs := free } := by
  have hset : SideStep gpu (gpu.setSideMeta s idx pm) := SideStep.setSide rfl rfl rfl
  refine h.revokeSlabs (t := .side s idx) (fun _ heq => nomatch heq) (nodup_runSlabIds idx _) ?_
    { hset with main := rfl, spec := rfl, numSlabs := rfl } rfl rfl rfl rfl rfl rfl rfl hperm
    (owns_released gpu s idx hpm) ?_
  · exact fun r => ⟨fun hr => ⟨helastic, hlive, hr⟩, fun ho => ho.2.2⟩
  · refine SideInv.setSide h.sides ((h.sides s).write ((h.sides s).bound idx hlive)
      (h.sides s).nodup ?_ (h.sides s).empty)
    intro hfixed
    rw [helastic] at hfixed
    cases hfixed

/-- **Giving up a reference to a live page of a side pool.** -/
theorem GpuInv.sideDropRef (h : GpuInv pps gpu) (hidx : idx < (gpu.side s).total)
    (hlive : 0 < ((gpu.side s).pages idx).refcount) :
    ∃ gpu', gpu.sideDropRef pps s idx = some gpu' ∧ GpuInv pps gpu' ∧ SideStep gpu gpu' := by
  unfold GpuPool.sideDropRef
  rw [if_pos ⟨hidx, hlive⟩]
  set pm : PageMeta := { (gpu.side s).pages idx with
    refcount := ((gpu.side s).pages idx).refcount - 1 }
  by_cases hlast : ((gpu.side s).pages idx).refcount - 1 = 0
  · rw [if_pos hlast]
    have hsp : (gpu.setSideMeta s idx pm).side s =
        { gpu.side s with pages := Function.update (gpu.side s).pages idx pm } :=
      Function.update_self ..
    have hcleared : (gpu.setSideMeta s idx pm).setSideMeta s idx (pm.describe 0 0 0 0) =
        gpu.setSideMeta s idx (pm.describe 0 0 0 0) := by
      simp [GpuPool.setSideMeta, GpuPool.setSide]
    have hzero : (pm.describe 0 0 0 0).refcount = 0 := hlast
    unfold GpuPool.sideRelease
    simp only [hsp, Function.update_self, hcleared]
    by_cases helastic : (gpu.side s).elastic = true
    · rw [if_pos helastic]
      have hstamped : ∀ r ∈ GpuPool.runSlabIds idx (gpu.side s).runSlabs,
          ((gpu.setSideMeta s idx (pm.describe 0 0 0 0)).kvSlabs r).claimed = true ∧
            ((gpu.setSideMeta s idx (pm.describe 0 0 0 0)).kvSlabs r).used = pps := by
        intro r hr
        have ho : gpu.Owns (.side s idx) r := ⟨helastic, hlive, hr⟩
        exact ⟨h.pool.table.tenancy.claimed_of_owns ho,
          (h.pool.table.stamped _ r ho fun _ heq => nomatch heq).used⟩
      by_cases hkda : s = .kdaState
      · rw [if_pos hkda]
        unfold GpuPool.unstampSlabs
        rw [foldlM_unstampSlab pps (nodup_runSlabIds _ _) _ hstamped]
        exact ⟨_, rfl, h.releaseSlabs helastic hlive hzero (List.Perm.refl _)⟩
      · rw [if_neg hkda, foldlM_kvReleaseSideSlab pps (nodup_runSlabIds _ _) _ hstamped]
        exact ⟨_, rfl, h.releaseSlabs helastic hlive hzero perm_append_comm⟩
    · rw [if_neg helastic]
      have hfixed : (gpu.side s).elastic = false := Bool.eq_false_iff.2 helastic
      have hnot : idx ∉ (gpu.side s).free := by
        rw [(h.sides s).mem_free hfixed]
        exact fun hf => Nat.ne_of_gt hlive hf.2
      refine ⟨_, rfl, ?_⟩
      have hfinal : (gpu.setSideMeta s idx (pm.describe 0 0 0 0)).setSide s
          { (gpu.setSideMeta s idx (pm.describe 0 0 0 0)).side s with
            free := (gpu.side s).free ++ [idx] } =
          gpu.setSide s { gpu.side s with
            pages := Function.update (gpu.side s).pages idx (pm.describe 0 0 0 0)
            free := (gpu.side s).free ++ [idx] } := by
        simp [GpuPool.setSideMeta, GpuPool.setSide]
      rw [hfinal]
      refine h.writeFixed (pm.describe 0 0 0 0) hfixed hidx ?_ ?_
      · exact List.Nodup.append (h.sides s).nodup (nodup_singleton idx)
          (disjoint_singleton.2 hnot)
      · intro i
        rw [mem_append, mem_singleton]
        split
        · rename_i hi
          exact iff_of_true (.inr hi) hzero
        · rename_i hi
          exact ⟨fun ho => ho.resolve_right hi, .inl⟩
  · rw [if_neg hlast]
    refine ⟨_, rfl, h.rewriteSide pm hidx ?_⟩
    exact iff_of_false hlast (Nat.ne_of_gt hlive)

/-! ### Contiguous runs -/

/-- **The scan from the top**: the runs found are free, and each lies below the one before. -/
theorem scanRuns_spec {claimed : ℕ → Bool} (sid : ℕ) :
    ∀ {run : ℕ} (want : ℕ), run < n → (∀ j, sid ≤ j → j < sid + run → claimed j = false) →
      (scanRuns claimed n sid run want).Pairwise (fun a b => b + n ≤ a) ∧
      ∀ st ∈ scanRuns claimed n sid run want, st + n ≤ sid + run ∧
        ∀ j ∈ runSlabIds st n, claimed j = false := by
  induction sid with
  | zero =>
    intro run want _ _
    exact ⟨List.Pairwise.nil, fun st hst => absurd hst not_mem_nil⟩
  | succ sid ih =>
    intro run want hrun hfree
    have hpos : 0 < n := Nat.lt_of_le_of_lt (Nat.zero_le _) hrun
    unfold scanRuns
    by_cases hwant : want = 0
    · rw [if_pos hwant]
      exact ⟨List.Pairwise.nil, fun st hst => absurd hst not_mem_nil⟩
    rw [if_neg hwant]
    by_cases hclaimed : claimed sid = false
    · rw [if_pos hclaimed]
      have hmore : ∀ j, sid ≤ j → j < sid + (run + 1) → claimed j = false := by
        intro j hj hlt
        rcases Nat.eq_or_lt_of_le hj with rfl | hj
        · exact hclaimed
        · exact hfree j hj (by omega)
      by_cases hfull : run + 1 = n
      · rw [if_pos hfull]
        obtain ⟨hpair, hall⟩ := ih (want - 1) hpos fun j hj hlt => by omega
        refine ⟨List.Pairwise.cons (fun st hst => (hall st hst).1) hpair, ?_⟩
        intro st hst
        rcases mem_cons.1 hst with rfl | hst
        · refine ⟨by omega, ?_⟩
          intro j hj
          rw [mem_runSlabIds] at hj
          exact hmore j hj.1 (by omega)
        · have := (hall st hst).1
          exact ⟨by omega, (hall st hst).2⟩
      · rw [if_neg hfull]
        obtain ⟨hpair, hall⟩ := ih want (show run + 1 < n by omega) hmore
        exact ⟨hpair, fun st hst => ⟨by have := (hall st hst).1; omega, (hall st hst).2⟩⟩
    · rw [if_neg hclaimed]
      obtain ⟨hpair, hall⟩ := ih want hpos fun j hj hlt => by omega
      exact ⟨hpair, fun st hst => ⟨by have := (hall st hst).1; omega, (hall st hst).2⟩⟩

theorem freeRuns_spec (gpu : GpuPool) (hn : 0 < n) (want : ℕ) :
    (gpu.freeRuns n want).Pairwise (fun a b => b + n ≤ a) ∧
      ∀ st ∈ gpu.freeRuns n want, st + n ≤ gpu.numSlabs ∧
        ∀ j ∈ runSlabIds st n, (gpu.kvSlabs j).claimed = false :=
  scanRuns_spec gpu.numSlabs want hn fun _ hj hlt => absurd hlt (Nat.not_lt.2 hj)

variable {starts : List ℕ}

theorem nodup_runs (hpair : starts.Pairwise fun a b => b + n ≤ a) :
    (starts.flatMap fun st => runSlabIds st n).Nodup := by
  rw [nodup_flatMap]
  refine ⟨fun st _ => nodup_runSlabIds st n, hpair.imp ?_⟩
  intro a b hab r hra hrb
  rw [mem_runSlabIds] at hra hrb
  omega

theorem GpuInv.stampSlabs (h : GpuInv pps gpu) (hnodup : sids.Nodup)
    (hfree : ∀ r ∈ sids, (gpu.kvSlabs r).claimed = false) :
    gpu.stampSlabs pps sids = some { gpu.stamped pps sids with
      kvFreeSlabs := gpu.kvFreeSlabs.filter fun r => r ∉ sids } := by
  unfold GpuPool.stampSlabs
  rw [foldlM_stampSlab pps hnodup gpu fun r hr => ⟨hfree r hr, h.pool.table.vacant r (hfree r hr)⟩,
    Option.map_some]
  congr 2
  refine filter_congr ?_
  intro r hr
  simp only [GpuPool.stamped]
  by_cases hmem : r ∈ sids
  · simp [hmem, KvSlab.stamp]
  · simp [hmem, ((h.pool.table.mem_free r).1 hr).2]

theorem GpuInv.grantSlabs (h : GpuInv pps gpu) (new : Tenant → ℕ → Prop) (hnodup : sids.Nodup)
    (hfree : ∀ r ∈ sids, r < gpu.numSlabs ∧ (gpu.kvSlabs r).claimed = false)
    (hnew : ∀ t r, new t r → r ∈ sids ∧ ∀ seq, t ≠ .sequence seq)
    (hcover : ∀ r ∈ sids, ∃ t, new t r) (hunique : ∀ t t' r, new t r → new t' r → t = t')
    (hshape : SameShape gpu gpu') (hpages : gpu'.pages = gpu.pages)
    (hruns : gpu'.kvRuns = gpu.kvRuns) (hmain : gpu'.mainFree = gpu.mainFree)
    (hspec : gpu'.specFree = gpu.specFree) (hloose : gpu'.kvLooseFree = gpu.kvLooseFree)
    (hslabs : gpu'.kvSlabs = (gpu.stamped pps sids).kvSlabs)
    (hcount : gpu'.kvFreePages = (gpu.stamped pps sids).kvFreePages)
    (hlist : gpu'.kvFreeSlabs = gpu.kvFreeSlabs.filter fun r => r ∉ sids)
    (howns : ∀ t r, gpu'.Owns t r ↔ gpu.Owns t r ∨ new t r) (hsides : ∀ s, SideInv (gpu'.side s)) :
    GpuInv pps gpu' ∧ SideStep gpu gpu' := by
  have hstep : SideStep gpu gpu' := by
    refine ⟨hshape, hpages, hruns, ?_, hmain, hspec, hloose⟩
    intro seq r hr
    rw [hslabs]
    refine if_neg fun hmem => ?_
    exact h.pool.table.not_run (hfree r hmem).2 hr
  refine ⟨h.sideStep hstep ?_ hsides, hstep⟩
  refine h.pool.grant new hnodup hfree hnew hcover hunique hstep.poolFrame hslabs hcount hloose hruns
    ?_ ?_ howns
  · rw [hlist]
    exact h.pool.table.freeNodup.filter _
  · intro r
    rw [hlist, mem_filter, decide_eq_true_iff]

def SidePool.writeAll (sp : SidePool) (starts : List ℕ) (f : PageMeta → PageMeta) : SidePool :=
  { sp with pages := fun i => if i ∈ starts then f (sp.pages i) else sp.pages i }

theorem foldl_setSideMeta (s : Side) (f : PageMeta → PageMeta) (hnodup : starts.Nodup) :
    ∀ gpu : GpuPool,
      starts.foldl (fun gpu st => gpu.setSideMeta s st (f ((gpu.side s).pages st))) gpu =
        gpu.setSide s ((gpu.side s).writeAll starts f) := by
  induction starts with
  | nil =>
    intro gpu
    simp [setSide, SidePool.writeAll]
  | cons st starts ih =>
    intro gpu
    obtain ⟨hst, hnodup⟩ := nodup_cons.1 hnodup
    rw [foldl_cons, ih hnodup]
    simp only [setSideMeta, setSide, SidePool.writeAll, update_self, update_idem]
    congr 2
    simp only [SidePool.mk.injEq, true_and, and_true]
    funext i
    by_cases hi : i = st
    · subst hi
      simp [hst]
    · simp [hi]

variable (h : GpuInv pps gpu)
include h

theorem GpuInv.withStats (kda : KdaMappedStats) (ez : ExpertZoneStats) :
    GpuInv pps { gpu with kdaStats := kda, ezStats := ez } ∧
      SideStep gpu { gpu with kdaStats := kda, ezStats := ez } := by
  have hstep : SideStep gpu { gpu with kdaStats := kda, ezStats := ez } :=
    ⟨⟨rfl, rfl, rfl, fun _ => rfl, fun _ => rfl, fun _ => rfl⟩, rfl, rfl, fun _ _ _ => rfl, rfl, rfl,
      rfl⟩
  refine ⟨h.sideStep hstep ?_ h.sides, hstep⟩
  exact h.pool.sameOwners hstep.poolFrame rfl rfl rfl rfl rfl fun _ _ => Iff.rfl

theorem GpuInv.claimRuns (hn : 0 < n) (helastic : (gpu.side s).elastic = true)
    (hunit : (gpu.side s).runSlabs = n) (hpair : starts.Pairwise fun a b => b + n ≤ a)
    (hruns : ∀ st ∈ starts, st + n ≤ gpu.numSlabs ∧
      ∀ j ∈ runSlabIds st n, (gpu.kvSlabs j).claimed = false)
    (hf : ∀ pm, 0 < (f pm).refcount) :
    ∃ gpu₁, gpu.stampSlabs pps (starts.flatMap fun st => runSlabIds st n) = some gpu₁ ∧
      gpu₁.side = gpu.side ∧
      GpuInv pps (gpu₁.setSide s ((gpu.side s).writeAll starts f)) ∧
      SideStep gpu (gpu₁.setSide s ((gpu.side s).writeAll starts f)) := by
  have hnodup := nodup_runs hpair
  have hfree : ∀ q ∈ starts.flatMap fun st => runSlabIds st n,
      q < gpu.numSlabs ∧ (gpu.kvSlabs q).claimed = false := by
    intro q hq
    obtain ⟨st, hst, hq⟩ := mem_flatMap.1 hq
    refine ⟨?_, (hruns st hst).2 q hq⟩
    have hle := (hruns st hst).1
    rw [mem_runSlabIds] at hq
    omega
  refine ⟨_, h.stampSlabs hnodup fun q hq => (hfree q hq).2, rfl, ?_⟩
  have hset : SideStep gpu (gpu.setSide s ((gpu.side s).writeAll starts f)) :=
    SideStep.setSide rfl rfl rfl
  refine h.grantSlabs (fun t r => ∃ st ∈ starts, t = .side s st ∧ r ∈ runSlabIds st n)
    hnodup hfree ?_ ?_ ?_ { hset with main := rfl, spec := rfl, numSlabs := rfl } rfl rfl rfl rfl
    rfl rfl rfl rfl ?_ ?_
  · rintro t r ⟨st, hst, rfl, hr⟩
    exact ⟨mem_flatMap.2 ⟨st, hst, hr⟩, fun _ heq => nomatch heq⟩
  · intro r hr
    obtain ⟨st, hst, hr⟩ := mem_flatMap.1 hr
    exact ⟨_, st, hst, rfl, hr⟩
  · -- two runs with a slab in common start at the same slab
    rintro t t' r ⟨st, hst, rfl, hr⟩ ⟨st', hst', rfl, hr'⟩
    rw [mem_runSlabIds] at hr hr'
    by_contra hne
    have hne' : st ≠ st' := fun heq => hne (by rw [heq])
    have hapart : starts.Pairwise fun a b => b + n ≤ a ∨ a + n ≤ b :=
      hpair.imp fun hab => .inl hab
    have hsymm : Std.Symm fun a b : ℕ => b + n ≤ a ∨ a + n ≤ b := ⟨fun _ _ hab => Or.symm hab⟩
    have hdisjoint := hapart.forall hst hst' hne'
    omega
  · intro t r
    cases t with
    | sequence seq | zone start => simp [GpuPool.Owns, setSide, stamped]
    | side s' page =>
      by_cases hs : s' = s
      · subst hs
        by_cases hp : page ∈ starts
        · simp only [GpuPool.Owns, setSide, SidePool.writeAll, update_self, hp,
            if_true, hf, hunit, helastic, true_and, Tenant.side.injEq]
          constructor
          · exact fun hr => .inr ⟨page, hp, rfl, hr⟩
          · rintro (⟨_, hr⟩ | ⟨st, _, rfl, hr⟩)
            · exact hr
            · exact hr
        · simp only [GpuPool.Owns, setSide, SidePool.writeAll, update_self, hp,
            if_false, Tenant.side.injEq, true_and]
          refine ⟨.inl, fun ho => ho.resolve_right ?_⟩
          rintro ⟨st, hst, rfl, _⟩
          exact hp hst
      · simp [GpuPool.Owns, setSide, stamped, hs]
  · refine SideInv.setSide h.sides ⟨?_, (h.sides s).nodup, ?_, (h.sides s).empty⟩
    · intro i hi
      by_cases hmem : i ∈ starts
      · have hle := (hruns i hmem).1
        have htotal := h.elasticTotal s helastic
        simp only [SidePool.writeAll]
        omega
      · simp only [SidePool.writeAll, hmem] at hi
        exact (h.sides s).bound i hi
    · intro hfixed
      exact absurd (helastic.symm.trans hfixed) Bool.noConfusion

/-- **KDA state for a request**: all runs asked for, which were free, or nothing. -/
theorem GpuInv.claimKdaRuns {units seq : ℕ}
    (hkda : ((gpu.side .kdaState).elastic = true ∧ (gpu.side .kdaState).runSlabs = n) ∨
      (gpu.side .kdaState).total = 0) {r : GpuPool × List ℕ}
    (hr : gpu.claimKdaRuns pps units n seq = some r) :
    GpuInv pps r.1 ∧ SideStep gpu r.1 ∧ r.2.Nodup ∧
      ∀ st ∈ r.2, ((gpu.side .kdaState).pages st).refcount = 0 ∧
        0 < ((r.1.side .kdaState).pages st).refcount := by
  have hnothing : ∀ kda : KdaMappedStats, GpuInv pps { gpu with kdaStats := kda } ∧
      SideStep gpu { gpu with kdaStats := kda } ∧ ([] : List ℕ).Nodup ∧
      ∀ st ∈ ([] : List ℕ), ((gpu.side .kdaState).pages st).refcount = 0 ∧
        0 < (((gpu.side .kdaState).pages st).refcount) := by
    intro kda
    obtain ⟨hinv, hstep⟩ := h.withStats kda gpu.ezStats
    exact ⟨hinv, hstep, nodup_nil, fun st hst => absurd hst not_mem_nil⟩
  unfold GpuPool.claimKdaRuns at hr
  simp only at hr
  split at hr
  · rename_i hpos
    split at hr
    · cases hr
      exact hnothing _
    split at hr
    · cases hr
      exact hnothing _
    split at hr
    · rename_i hguard
      obtain ⟨hpair, hruns⟩ := freeRuns_spec gpu hpos.2 units
      obtain ⟨helastic, hunit⟩ : (gpu.side .kdaState).elastic = true ∧
          (gpu.side .kdaState).runSlabs = n := by
        refine hkda.resolve_right fun hzero => ?_
        have hsome : 0 < (gpu.freeRuns n units).length := by omega
        obtain ⟨st, hst⟩ := exists_mem_of_length_pos hsome
        have := (hguard st hst).1
        omega
      obtain ⟨hstats, hstatsStep⟩ := h.withStats
        { gpu.kdaStats with claims := gpu.kdaStats.claims + 1 } gpu.ezStats
      have hstarts : (gpu.freeRuns n units).Nodup := by
        refine hpair.imp ?_
        rintro a b hab rfl
        omega
      obtain ⟨gpu₁, hgpu₁, hside, hinv, hstep⟩ := hstats.claimRuns hpos.2 helastic hunit hpair
        hruns (f := fun pm => (pm.claim (.side .kdaState)).describe seq 0 0 0)
        fun _ => Nat.one_pos
      rw [hgpu₁] at hr
      cases hr
      simp only
      rw [foldl_setSideMeta .kdaState
        (fun pm => (pm.claim (.side .kdaState)).describe seq 0 0 0) hstarts, hside]
      refine ⟨hinv, hstatsStep.trans hstep, hstarts, ?_⟩
      intro st hst
      refine ⟨(hguard st hst).2, ?_⟩
      simp [GpuPool.setSide, SidePool.writeAll, hst, PageMeta.describe, PageMeta.claim]
    · cases hr
  · cases hr

/-! ### The expert cache -/

theorem GpuInv.grantZone {start : ℕ} (hn : 0 < n) (hrange : start + n ≤ gpu.numSlabs)
    (hfree : ∀ r ∈ GpuPool.runSlabIds start n, (gpu.kvSlabs r).claimed = false) :
    ∃ gpu', gpu.grantZone pps start n = some gpu' ∧ GpuInv pps gpu' ∧ SideStep gpu gpu' := by
  have hslabs : ∀ r ∈ GpuPool.runSlabIds start n,
      r < gpu.numSlabs ∧ (gpu.kvSlabs r).claimed = false := by
    intro r hr
    refine ⟨?_, hfree r hr⟩
    rw [mem_runSlabIds] at hr
    omega
  -- a grant at this start would own its first slab
  have hnone : ∀ r, ¬ gpu.Owns (.zone start) r := by
    rintro r ⟨m, hm, hr⟩
    rw [mem_runSlabIds] at hr
    have ho : gpu.Owns (.zone start) start := ⟨m, hm, mem_runSlabIds.2 ⟨Nat.le_refl _, by omega⟩⟩
    have hclaimed := h.pool.table.tenancy.claimed_of_owns ho
    rw [hfree start (mem_runSlabIds.2 ⟨Nat.le_refl _, by omega⟩)] at hclaimed
    cases hclaimed
  unfold GpuPool.grantZone
  rw [h.stampSlabs (nodup_runSlabIds start n) hfree]
  refine ⟨_, rfl, ?_⟩
  refine h.grantSlabs (fun t r => t = .zone start ∧ r ∈ GpuPool.runSlabIds start n)
    (nodup_runSlabIds start n) hslabs ?_ ?_ ?_
    ⟨rfl, rfl, rfl, fun _ => rfl, fun _ => rfl, fun _ => rfl⟩ rfl rfl rfl rfl rfl rfl rfl rfl ?_
    h.sides
  · rintro t r ⟨rfl, hr⟩
    exact ⟨hr, fun _ heq => nomatch heq⟩
  · exact fun r hr => ⟨_, rfl, hr⟩
  · rintro t t' r ⟨rfl, _⟩ ⟨rfl, _⟩
    rfl
  · intro t r
    cases t with
    | sequence seq | side s page => simp [GpuPool.Owns, GpuPool.stamped]
    | zone start' =>
      by_cases hs : start' = start
      · subst hs
        simp only [hnone]
        simp [GpuPool.Owns]
      · simp [GpuPool.Owns, GpuPool.stamped, hs]

theorem GpuInv.refuseZone : GpuInv pps gpu.refuseZone ∧ SideStep gpu gpu.refuseZone :=
  h.withStats gpu.kdaStats { gpu.ezStats with refusals := gpu.ezStats.refusals + 1 }

theorem GpuInv.claimExpertZone (n : ℕ) (extraReserve : ℤ) :
    ∃ r, gpu.claimExpertZone pps n extraReserve = some r ∧ GpuInv pps r.1 ∧ SideStep gpu r.1 := by
  unfold GpuPool.claimExpertZone
  split
  · exact ⟨_, rfl, h, SideStep.refl gpu⟩
  rename_i hcond
  rw [not_or] at hcond
  split
  · exact ⟨_, rfl, h.refuseZone⟩
  cases hhead : (gpu.freeRuns n 1).head? with
  | none => exact ⟨_, rfl, h.refuseZone⟩
  | some start =>
    have hn : 0 < n := Nat.pos_of_ne_zero hcond.2
    obtain ⟨hrange, hfree⟩ := (freeRuns_spec gpu hn 1).2 start (mem_of_mem_head? hhead)
    obtain ⟨gpu', hgpu, hinv, hstep⟩ := h.grantZone hn hrange hfree
    simp only
    rw [hgpu]
    exact ⟨_, rfl, hinv, hstep⟩

theorem GpuInv.claimExpertZoneAt (start n : ℕ) (extraReserve : ℤ) :
    ∃ r, gpu.claimExpertZoneAt pps start n extraReserve = some r ∧ GpuInv pps r.1 ∧
      SideStep gpu r.1 := by
  unfold GpuPool.claimExpertZoneAt
  split
  · exact ⟨_, rfl, h, SideStep.refl gpu⟩
  rename_i hcond
  rw [not_or] at hcond
  split
  · exact ⟨_, rfl, h.refuseZone⟩
  rename_i hrange
  split
  · exact ⟨_, rfl, h.refuseZone⟩
  split
  · exact ⟨_, rfl, h.refuseZone⟩
  rename_i hclaimed
  have hfree : ∀ r ∈ GpuPool.runSlabIds start n, (gpu.kvSlabs r).claimed = false :=
    fun r hr => Bool.eq_false_iff.2 fun hc => hclaimed ⟨r, hr, hc⟩
  obtain ⟨gpu', hgpu, hinv, hstep⟩ := h.grantZone (Nat.pos_of_ne_zero hcond.2)
    (Nat.le_of_not_lt hrange) hfree
  rw [hgpu]
  exact ⟨_, rfl, hinv, hstep⟩

theorem GpuInv.releaseExpertZone (start n : ℕ) :
    ∃ gpu', gpu.releaseExpertZone pps start n = some gpu' ∧ GpuInv pps gpu' ∧
      SideStep gpu gpu' := by
  unfold GpuPool.releaseExpertZone
  split
  · rename_i hzone
    have hown : ∀ r, r ∈ GpuPool.runSlabIds start n ↔ gpu.Owns (.zone start) r := by
      intro r
      refine ⟨fun hr => ⟨n, hzone, hr⟩, ?_⟩
      rintro ⟨m, hm, hr⟩
      rw [hzone] at hm
      cases hm
      exact hr
    have hstamped : ∀ r ∈ GpuPool.runSlabIds start n,
        (gpu.kvSlabs r).claimed = true ∧ (gpu.kvSlabs r).used = pps := by
      intro r hr
      have ho := (hown r).1 hr
      exact ⟨h.pool.table.tenancy.claimed_of_owns ho,
        (h.pool.table.stamped _ r ho fun _ heq => nomatch heq).used⟩
    unfold GpuPool.unstampSlabs
    rw [foldlM_unstampSlab pps (nodup_runSlabIds start n) gpu hstamped]
    refine ⟨_, rfl, ?_⟩
    refine h.revokeSlabs (t := .zone start) (fun _ heq => nomatch heq) (nodup_runSlabIds start n)
      hown ⟨rfl, rfl, rfl, fun _ => rfl, fun _ => rfl, fun _ => rfl⟩ rfl rfl rfl rfl rfl rfl rfl
      (List.Perm.refl _) ?_ h.sides
    intro t r
    cases t with
    | sequence seq | side s page => simp [GpuPool.Owns, GpuPool.unstamped]
    | zone start' =>
      by_cases hs : start' = start
      · subst hs
        simp [GpuPool.Owns]
      · simp [GpuPool.Owns, GpuPool.unstamped, hs]
  · exact ⟨_, rfl, h, SideStep.refl gpu⟩

end LayerStorm.Paging
