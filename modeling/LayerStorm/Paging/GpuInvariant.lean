import LayerStorm.Paging.PoolInvariant

/-!
# Calls on one GPU keep the invariant

`GpuInv` is the invariant of a GPU between two calls: `PoolInv` for the pages with
references, and the free lists of the side pools.  Each operation of a GPU is shown to
succeed where its assertions should hold, to keep the invariant, and to hand out only
pages that were free.
-/

namespace LayerStorm.Paging

open Lib
open Function GpuPool List

/-! ### The invariant -/

def GpuPool.Live (gpu : GpuPool) (i : ℕ) : Prop := 0 < (gpu.pages i).refcount

structure SideInv (sp : SidePool) : Prop where
  bound : ∀ i, 0 < (sp.pages i).refcount → i < sp.total
  nodup : sp.free.Nodup
  mem_free : sp.elastic = false → ∀ i, i ∈ sp.free ↔ i < sp.total ∧ (sp.pages i).refcount = 0
  empty : sp.elastic = true → sp.free = []

/-- **The invariant of a GPU.** -/
structure GpuInv (pps : ℕ) (gpu : GpuPool) : Prop where
  pool : PoolInv pps gpu.Live gpu
  mainPool : ∀ i, gpu.Live i → i < gpu.initialMainPages → (gpu.pages i).pool = .main
  idle : ∀ i, ¬ gpu.Live i → (gpu.pages i).replicated = false
  notSide : ∀ i s, (gpu.pages i).pool ≠ .side s
  sides : ∀ s, SideInv (gpu.side s)
  elasticTotal : ∀ s, (gpu.side s).elastic = true → (gpu.side s).total = gpu.numSlabs

/-- What no call ever changes. -/
structure SameShape (gpu gpu' : GpuPool) : Prop where
  main : gpu'.initialMainPages = gpu.initialMainPages
  spec : gpu'.initialSpecPages = gpu.initialSpecPages
  numSlabs : gpu'.numSlabs = gpu.numSlabs
  total : ∀ s, (gpu'.side s).total = (gpu.side s).total
  elastic : ∀ s, (gpu'.side s).elastic = (gpu.side s).elastic
  runSlabs : ∀ s, (gpu'.side s).runSlabs = (gpu.side s).runSlabs

theorem SameShape.refl (gpu : GpuPool) : SameShape gpu gpu :=
  ⟨rfl, rfl, rfl, fun _ => rfl, fun _ => rfl, fun _ => rfl⟩

theorem SameShape.trans {gpu gpu' gpu'' : GpuPool} (h : SameShape gpu gpu')
    (h' : SameShape gpu' gpu'') : SameShape gpu gpu'' :=
  ⟨h'.main.trans h.main, h'.spec.trans h.spec, h'.numSlabs.trans h.numSlabs,
    fun s => (h'.total s).trans (h.total s), fun s => (h'.elastic s).trans (h.elastic s),
    fun s => (h'.runSlabs s).trans (h.runSlabs s)⟩

/-- What a call on one page of the main or speculation pool does to the rest. -/
structure PageStep (idx : ℕ) (gpu gpu' : GpuPool) : Prop where
  others : ∀ i, i ≠ idx → gpu'.pages i = gpu.pages i
  side : gpu'.side = gpu.side
  main : gpu'.initialMainPages = gpu.initialMainPages
  spec : gpu'.initialSpecPages = gpu.initialSpecPages
  numSlabs : gpu'.numSlabs = gpu.numSlabs

variable {idx : ℕ}

theorem PageStep.sameShape {gpu gpu' : GpuPool} (h : PageStep idx gpu gpu') : SameShape gpu gpu' :=
  ⟨h.main, h.spec, h.numSlabs, fun s => by rw [h.side], fun s => by rw [h.side],
    fun s => by rw [h.side]⟩

variable {pps : ℕ} {live : ℕ → Prop} {gpu gpu' : GpuPool}

theorem PoolInv.setMeta (h : PoolInv pps live gpu) (idx : ℕ) (pm : PageMeta) :
    PoolInv pps live (gpu.setMeta idx pm) :=
  { h with }

theorem GpuInv.page (h : GpuInv pps gpu) (hstep : PageStep idx gpu gpu')
    (hpool : PoolInv pps gpu'.Live gpu')
    (hmain : gpu'.Live idx → idx < gpu.initialMainPages → (gpu'.pages idx).pool = .main)
    (hidle : ¬ gpu'.Live idx → (gpu'.pages idx).replicated = false)
    (hkind : ∀ s, (gpu'.pages idx).pool ≠ .side s) : GpuInv pps gpu' := by
  refine ⟨hpool, ?_, ?_, ?_, ?_, ?_⟩
  · intro i
    rw [hstep.main]
    by_cases hi : i = idx
    · rw [hi]
      exact hmain
    · unfold GpuPool.Live
      rw [hstep.others i hi]
      exact h.mainPool i
  · intro i
    by_cases hi : i = idx
    · rw [hi]
      exact hidle
    · unfold GpuPool.Live
      rw [hstep.others i hi]
      exact h.idle i
  · intro i
    by_cases hi : i = idx
    · rw [hi]
      exact hkind
    · rw [hstep.others i hi]
      exact h.notSide i
  · rw [hstep.side]
    exact h.sides
  · rw [hstep.side, hstep.numSlabs]
    exact h.elasticTotal

variable {pm : PageMeta}

theorem GpuInv.rewrite (h : GpuInv pps gpu) (hlive : 0 < pm.refcount ↔ gpu.Live idx)
    (hmain : gpu.Live idx → idx < gpu.initialMainPages → pm.pool = .main)
    (hidle : ¬ gpu.Live idx → pm.replicated = false) (hkind : ∀ s, pm.pool ≠ .side s) :
    GpuInv pps (gpu.setMeta idx pm) := by
  have hself : (gpu.setMeta idx pm).pages idx = pm := update_self ..
  have hothers : ∀ i, i ≠ idx → (gpu.setMeta idx pm).pages i = gpu.pages i :=
    fun i hi => update_of_ne hi ..
  have hsame : ∀ i, (gpu.setMeta idx pm).Live i ↔ gpu.Live i := by
    intro i
    unfold GpuPool.Live
    by_cases hi : i = idx
    · rw [hi, hself]
      exact hlive
    · rw [hothers i hi]
  have hstep : PageStep idx gpu (gpu.setMeta idx pm) := ⟨hothers, rfl, rfl, rfl, rfl⟩
  refine h.page hstep ?_ ?_ ?_ ?_
  · exact (h.pool.setMeta idx pm).congr hsame
  · rw [hsame, hself]
    exact hmain
  · rw [hsame, hself]
    exact hidle
  · rw [hself]
    exact hkind

theorem GpuInv.claimed (h : GpuInv pps gpu) (hframe : PageStep idx gpu gpu')
    (hpool : PoolInv pps (fun i => gpu.Live i ∨ i = idx) gpu') (hlive : 0 < pm.refcount)
    (hmain : idx < gpu.initialMainPages → pm.pool = .main) (hkind : ∀ s, pm.pool ≠ .side s) :
    GpuInv pps (gpu'.setMeta idx pm) ∧ PageStep idx gpu (gpu'.setMeta idx pm) := by
  have hpm : (gpu'.setMeta idx pm).pages idx = pm := update_self ..
  have hothers : ∀ i, i ≠ idx → (gpu'.setMeta idx pm).pages i = gpu.pages i :=
    fun i hi => (update_of_ne hi ..).trans (hframe.others i hi)
  have hstep : PageStep idx gpu (gpu'.setMeta idx pm) :=
    { hframe with others := hothers }
  refine ⟨h.page hstep ?_ ?_ ?_ ?_, hstep⟩
  · refine (hpool.setMeta idx pm).congr ?_
    intro i
    unfold GpuPool.Live
    by_cases hi : i = idx
    · rw [hi, hpm]
      exact iff_of_true hlive (.inr rfl)
    · rw [hothers i hi]
      exact ⟨.inl, fun ho => ho.resolve_right hi⟩
  · rw [hpm]
    exact fun _ => hmain
  · intro hnot
    unfold GpuPool.Live at hnot
    rw [hpm] at hnot
    exact absurd hlive hnot
  · rw [hpm]
    exact hkind

/-! ### Free lists -/

variable {pool : Pool}

theorem PoolInv.popFree (h : PoolInv pps live gpu) {l : List ℕ}
    (hperm : (gpu.freeList pool).Perm (idx :: l)) :
    ¬ live idx ∧ gpu.numSlabs * pps ≤ idx ∧ idx < gpu.total ∧
      (pool ≠ .main → gpu.initialMainPages ≤ idx) ∧
      PoolInv pps (fun i => live i ∨ i = idx) (gpu.setFreeList pool l) := by
  have htable : ∀ {i}, gpu.numSlabs * pps ≤ i → SlabTable pps gpu.numSlabs gpu.kvSlabs
      gpu.kvFreeSlabs gpu.kvRuns gpu.Owns fun j => live j ∨ j = i := by
    intro i hi
    refine h.table.congr_live ?_
    intro j hj
    refine ⟨fun ho => ho.resolve_right ?_, .inl⟩
    rintro rfl
    exact Nat.lt_irrefl _ (Nat.lt_of_lt_of_le hj hi)
  unfold freeList at hperm
  unfold setFreeList
  by_cases hp : pool = .main
  · rw [if_pos hp] at hperm ⊢
    have hmem : idx ∈ gpu.mainFree := hperm.mem_iff.2 mem_cons_self
    have hin := (h.outside.mem_iff idx).1 (mem_append_left _ (mem_append_left _ hmem))
    have hzero : gpu.numSlabs = 0 := by
      by_contra hne
      rw [h.mainEmpty hne] at hmem
      cases hmem
    refine ⟨hin.2.2, hin.1, hin.2.1, fun hne => absurd hp hne, h.whole, h.unslabbed, htable hin.1,
      ?_, fun hne => absurd hzero hne, h.looseEmpty, h.count⟩
    refine h.outside.take ?_ (fun _ hi => hi) fun _ hi => hi
    exact (hperm.append_right _).append_right _
  · rw [if_neg hp] at hperm ⊢
    have hmem : idx ∈ gpu.specFree := hperm.mem_iff.2 mem_cons_self
    have hin := (h.outside.mem_iff idx).1 (mem_append_left _ (mem_append_right _ hmem))
    refine ⟨hin.2.2, hin.1, hin.2.1, fun _ => h.outside.spec_ge idx hmem, h.whole, h.unslabbed,
      htable hin.1, ?_, h.mainEmpty, h.looseEmpty, h.count⟩
    refine h.outside.take ?_ (fun _ hi => hperm.mem_iff.2 (mem_cons_of_mem _ hi)) fun _ hi => hi
    refine ((hperm.append_left gpu.mainFree).append_right gpu.kvLooseFree).trans ?_
    exact perm_middle.append_right _

theorem PoolInv.pushFree (h : PoolInv pps live gpu) (hlive : live idx)
    (hbase : gpu.numSlabs * pps ≤ idx) (hmain : pool = .main → gpu.numSlabs = 0)
    (hspec : pool ≠ .main → gpu.initialMainPages ≤ idx) :
    PoolInv pps (fun i => live i ∧ i ≠ idx)
      (gpu.setFreeList pool (gpu.freeList pool ++ [idx])) := by
  have htable : SlabTable pps gpu.numSlabs gpu.kvSlabs gpu.kvFreeSlabs gpu.kvRuns gpu.Owns
      fun i => live i ∧ i ≠ idx := by
    refine h.table.congr_live ?_
    intro i hi
    refine ⟨fun hl => hl.1, fun hl => ⟨hl, ?_⟩⟩
    rintro rfl
    exact Nat.lt_irrefl _ (Nat.lt_of_lt_of_le hi hbase)
  unfold freeList setFreeList
  by_cases hp : pool = .main
  · rw [if_pos hp, if_pos hp]
    refine { h with table := htable, outside := ?_, mainEmpty := fun hne => absurd (hmain hp) hne }
    refine h.outside.give hbase hlive ?_ h.outside.spec_ge h.outside.loose_ge
    exact ((perm_append_singleton idx gpu.mainFree).append_right _).append_right _
  · rw [if_neg hp, if_neg hp]
    refine { h with table := htable, outside := ?_ }
    refine h.outside.give hbase hlive ?_ ?_ h.outside.loose_ge
    · rw [← append_assoc]
      exact (perm_append_singleton idx _).append_right _
    · intro i hi
      rcases mem_append.1 hi with hi | hi
      · exact h.outside.spec_ge i hi
      · rw [mem_singleton.1 hi]
        exact hspec hp

theorem PageStep.setFreeList (gpu : GpuPool) (pool : Pool) (l : List ℕ) (idx : ℕ) :
    PageStep idx gpu (gpu.setFreeList pool l) ∧ (gpu.setFreeList pool l).pages = gpu.pages := by
  unfold GpuPool.setFreeList
  split
  · exact ⟨⟨fun _ _ => rfl, rfl, rfl, rfl, rfl⟩, rfl⟩
  · exact ⟨⟨fun _ _ => rfl, rfl, rfl, rfl, rfl⟩, rfl⟩

theorem KvFrame.pageStep (h : KvFrame gpu gpu') (idx : ℕ) : PageStep idx gpu gpu' :=
  { h with others := fun i _ => by rw [h.pages] }

/-! ### Giving up a reference -/

theorem PoolInv.returnToFreeList (h : PoolInv pps live gpu) (hlive : live idx)
    (hmain : idx < gpu.initialMainPages → (gpu.pages idx).pool = .main) :
    ∃ gpu', gpu.returnToFreeList pps idx = some gpu' ∧
      PoolInv pps (fun i => live i ∧ i ≠ idx) gpu' ∧ PageStep idx gpu gpu' ∧
      gpu'.pages idx = { (gpu.pages idx).describe 0 0 0 0 with replicated := false } := by
  unfold GpuPool.returnToFreeList
  simp only
  set pm : PageMeta := { (gpu.pages idx).describe 0 0 0 0 with replicated := false }
  have hset := h.setMeta idx pm
  have hself : (gpu.setMeta idx pm).pages idx = pm := Function.update_self ..
  have hstep : PageStep idx gpu (gpu.setMeta idx pm) :=
    ⟨fun i hi => Function.update_of_ne hi .., rfl, rfl, rfl, rfl⟩
  split
  · rename_i hcond
    obtain ⟨gpu', hgpu, hinv, hframe⟩ := hset.kvReturnPage hcond.2 hlive
    refine ⟨gpu', hgpu, hinv, ?_, ?_⟩
    · exact { hframe with others := fun i hi => by rw [hframe.pages]; exact hstep.others i hi }
    · rw [hframe.pages, hself]
  rename_i hcond
  have hzero : (gpu.pages idx).pool = .main → gpu.numSlabs = 0 := by
    intro hp
    by_contra hne
    exact hcond ⟨hp, (h.whole hne).1, hne⟩
  have hge : (gpu.pages idx).pool ≠ .main → gpu.initialMainPages ≤ idx :=
    fun hne => Nat.le_of_not_lt fun hlt => hne (hmain hlt)
  have hbase : gpu.numSlabs * pps ≤ idx := by
    by_cases hp : (gpu.pages idx).pool = .main
    · rw [hzero hp, Nat.zero_mul]
      exact Nat.zero_le _
    · exact Nat.le_trans h.span_le (hge hp)
  obtain ⟨hlist, hpages⟩ := PageStep.setFreeList (gpu.setMeta idx pm) (gpu.pages idx).pool
    ((gpu.setMeta idx pm).freeList (gpu.pages idx).pool ++ [idx]) idx
  refine ⟨_, rfl, hset.pushFree hlive hbase hzero hge, ?_, by rw [hpages, hself]⟩
  exact { hlist with others := fun i hi => by rw [hpages]; exact hstep.others i hi }

/-- The record of a page after a reference has been given up. -/
def PageMeta.dropped (pm : PageMeta) : PageMeta :=
  if pm.refcount - 1 = 0 then
    { { pm with refcount := pm.refcount - 1 }.describe 0 0 0 0 with replicated := false }
  else { pm with refcount := pm.refcount - 1 }

theorem PageMeta.dropped_refcount (pm : PageMeta) : pm.dropped.refcount = pm.refcount - 1 := by
  unfold PageMeta.dropped
  split <;> rfl

theorem PageMeta.dropped_pool (pm : PageMeta) : pm.dropped.pool = pm.pool := by
  unfold PageMeta.dropped
  split <;> rfl

theorem PageMeta.dropped_replicated (pm : PageMeta) :
    pm.dropped.replicated = (pm.replicated && decide (pm.refcount - 1 ≠ 0)) := by
  unfold PageMeta.dropped
  split
  · rename_i hzero
    simp [hzero]
  · rename_i hpos
    simp [hpos]

theorem GpuInv.dropRef (h : GpuInv pps gpu) (hlive : gpu.Live idx) :
    ∃ gpu', gpu.dropRef pps idx = some gpu' ∧ GpuInv pps gpu' ∧ PageStep idx gpu gpu' ∧
      gpu'.pages idx = (gpu.pages idx).dropped := by
  unfold GpuPool.dropRef PageMeta.dropped
  have hpos : 0 < (gpu.pages idx).refcount := hlive
  rw [if_pos hpos]
  set pm : PageMeta := { gpu.pages idx with refcount := (gpu.pages idx).refcount - 1 } with hpm
  have hself : (gpu.setMeta idx pm).pages idx = pm := Function.update_self ..
  have hothers : ∀ i, i ≠ idx → (gpu.setMeta idx pm).pages i = gpu.pages i :=
    fun i hi => Function.update_of_ne hi ..
  by_cases hlast : (gpu.pages idx).refcount - 1 = 0
  · rw [if_pos hlast, if_pos hlast]
    have hmain : idx < (gpu.setMeta idx pm).initialMainPages →
        ((gpu.setMeta idx pm).pages idx).pool = .main := by
      rw [hself]
      exact h.mainPool idx hlive
    obtain ⟨gpu', hgpu, hpool, hstep, hrec⟩ :=
      (h.pool.setMeta idx pm).returnToFreeList hlive hmain
    rw [hself] at hrec
    have hstep' : PageStep idx gpu gpu' :=
      { hstep with others := fun i hi => (hstep.others i hi).trans (hothers i hi) }
    have hdead : ¬ gpu'.Live idx := by
      unfold GpuPool.Live
      rw [hrec]
      show ¬ 0 < (gpu.pages idx).refcount - 1
      rw [hlast]
      exact Nat.lt_irrefl 0
    refine ⟨gpu', hgpu, h.page hstep' ?_ (fun hl => absurd hl hdead) ?_ ?_, hstep', hrec⟩
    · refine hpool.congr ?_
      intro i
      by_cases hi : i = idx
      · subst hi
        exact iff_of_false hdead fun hl => hl.2 rfl
      · unfold GpuPool.Live
        rw [hstep'.others i hi]
        exact ⟨fun hl => ⟨hl, hi⟩, fun hl => hl.1⟩
    · rw [hrec]
      exact fun _ => rfl
    · rw [hrec]
      exact h.notSide idx
  · rw [if_neg hlast, if_neg hlast]
    refine ⟨_, rfl, h.rewrite ?_ (fun hl hlt => h.mainPool idx hl hlt)
      (fun hnot => absurd hlive hnot) (h.notSide idx), ⟨hothers, rfl, rfl, rfl, rfl⟩, hself⟩
    exact iff_of_true (Nat.pos_of_ne_zero hlast) hlive

/-! ### Allocation -/

/-- **What an allocation of a page does**: nothing, or one page that was free is live and
not replicated. -/
structure Allocated (pps : ℕ) (gpu : GpuPool) (r : GpuPool × Option ℕ) : Prop where
  inv : GpuInv pps r.1
  refused : r.2 = none → r.1 = gpu
  fresh : ∀ idx, r.2 = some idx → ¬ gpu.Live idx ∧ idx < gpu.total
  step : ∀ idx, r.2 = some idx → PageStep idx gpu r.1
  live : ∀ idx, r.2 = some idx → r.1.Live idx ∧ (r.1.pages idx).replicated = false

theorem GpuInv.refuse (h : GpuInv pps gpu) : Allocated pps gpu (gpu, none) where
  inv := h
  refused := fun _ => rfl
  fresh := fun _ hidx => nomatch hidx
  step := fun _ hidx => nomatch hidx
  live := fun _ hidx => nomatch hidx

theorem GpuInv.allocated (h : GpuInv pps gpu) (hnot : ¬ gpu.Live idx)
    (hframe : PageStep idx gpu gpu') (hpool : PoolInv pps (fun i => gpu.Live i ∨ i = idx) gpu')
    (hlive : 0 < pm.refcount) (hmain : idx < gpu.initialMainPages → pm.pool = .main)
    (hkind : ∀ s, pm.pool ≠ .side s) (hrep : pm.replicated = (gpu.pages idx).replicated) :
    Allocated pps gpu (gpu'.setMeta idx pm, some idx) := by
  obtain ⟨hinv, hstep⟩ := h.claimed hframe hpool hlive hmain hkind
  have hself : (gpu'.setMeta idx pm).pages idx = pm := update_self ..
  have hbound := hpool.outside.bound idx (.inr rfl)
  have htotal : gpu'.total = gpu.total := by
    unfold total
    rw [hframe.main, hframe.spec]
  refine ⟨hinv, ?_, ?_, ?_, ?_⟩
  · exact fun hnone => nomatch hnone
  all_goals
    intro idx' hidx
    cases hidx
  · exact ⟨hnot, htotal ▸ hbound⟩
  · exact hstep
  · unfold GpuPool.Live
    simp only [hself]
    exact ⟨hlive, hrep.trans (h.idle idx hnot)⟩

variable {f : PageMeta → PageMeta}

theorem Allocated.write {r : GpuPool × Option ℕ} (h : Allocated pps gpu r)
    (hlive : ∀ pm, (f pm).refcount = pm.refcount) (hpool : ∀ pm, (f pm).pool = pm.pool)
    (hrep : ∀ pm, (f pm).replicated = pm.replicated) :
    Allocated pps gpu (writeMeta f r) := by
  unfold writeMeta
  cases hidx : r.2 with
  | none => exact h
  | some idx =>
    obtain ⟨hl, hr⟩ := h.live idx hidx
    have hstep := h.step idx hidx
    have hself : (r.1.setMeta idx (f (r.1.pages idx))).pages idx = f (r.1.pages idx) :=
      update_self ..
    refine ⟨?_, ?_, ?_, ?_, ?_⟩
    · refine h.inv.rewrite (by rw [hlive]; rfl) ?_ ?_ ?_
      · rw [hpool]
        exact h.inv.mainPool idx
      · rw [hrep]
        exact h.inv.idle idx
      · rw [hpool]
        exact h.inv.notSide idx
    · exact fun hnone => nomatch hnone
    all_goals
      intro idx' heq
      cases heq
    · exact h.fresh idx hidx
    · exact { hstep with others := fun i hi => (update_of_ne hi ..).trans (hstep.others i hi) }
    · unfold GpuPool.Live
      simp only [hself, hlive, hrep]
      exact ⟨hl, hr⟩

variable (h : GpuInv pps gpu)
include h

theorem GpuInv.kvAllocPage (seq tokenStart : ℕ) (unreserved : Bool) (preferSlab : Option ℕ)
    (hlive : ∀ pm, 0 < (f pm).refcount) (hmain : ∀ pm, (f pm).pool = .main)
    (hrep : ∀ pm, (f pm).replicated = pm.replicated) :
    ∃ r, (gpu.kvAllocPage pps seq tokenStart unreserved preferSlab).map (writeMeta f) =
      some r ∧ Allocated pps gpu r := by
  obtain ⟨r, hr, hsame, hfresh⟩ := h.pool.kvAllocPage seq tokenStart unreserved preferSlab
  rw [hr]
  refine ⟨_, rfl, ?_⟩
  unfold writeMeta
  cases hidx : r.2 with
  | none =>
    have heq : r = (gpu, none) := Prod.ext (hsame hidx) hidx
    rw [heq]
    exact h.refuse
  | some idx =>
    obtain ⟨hnot, hframe, hpool⟩ := hfresh idx hidx
    refine h.allocated hnot (hframe.pageStep idx) hpool (hlive _) (fun _ => hmain _) ?_ ?_
    · rw [hmain]
      exact fun _ heq => nomatch heq
    · rw [hrep, hframe.pages]

theorem GpuInv.allocateFromPool (hside : ∀ s, pool ≠ .side s) (minFree : ℤ) :
    Allocated pps gpu (gpu.allocateFromPool pool minFree) := by
  unfold GpuPool.allocateFromPool
  split
  · exact h.refuse
  cases hlast : (gpu.freeList pool).getLast? with
  | none => exact h.refuse
  | some idx =>
    have hperm : (gpu.freeList pool).Perm (idx :: (gpu.freeList pool).dropLast) := by
      conv_lhs => rw [← dropLast_append_getLast? idx hlast]
      exact perm_append_singleton _ _
    obtain ⟨hnot, _, _, hge, hpool⟩ := h.pool.popFree hperm
    obtain ⟨hstep, _⟩ := PageStep.setFreeList gpu pool (gpu.freeList pool).dropLast idx
    refine h.allocated hnot hstep hpool Nat.one_pos ?_ hside rfl
    intro hlt
    by_contra hne
    exact Nat.lt_irrefl _ (Nat.lt_of_lt_of_le hlt (hge hne))

/-- **`allocate` and `allocate_unreserved`** of a page of the main or speculation pool. -/
theorem GpuInv.allocatePage (hside : ∀ s, pool ≠ .side s) (unreserved : Bool) :
    ∃ r, gpu.allocatePage pps pool unreserved = some r ∧ Allocated pps gpu r := by
  have hbody : ∃ r, (if pool = .main ∧ gpu.KvSlabbed pps then
      (gpu.kvAllocPage pps anonymousRunSeq 0 unreserved none).map
        (writeMeta fun pm => pm.claim pool)
      else some (gpu.allocateFromPool pool (if unreserved then 0 else gpu.reserved pool))) =
        some r ∧ Allocated pps gpu r := by
    split
    · rename_i hcond
      exact h.kvAllocPage anonymousRunSeq 0 unreserved none (fun _ => Nat.one_pos)
        (fun _ => hcond.1) fun _ => rfl
    · exact ⟨_, rfl, h.allocateFromPool hside _⟩
  cases pool with
  | main | speculation => exact hbody
  | side s => exact absurd rfl (hside s)

theorem GpuInv.allocateForSequence (hside : ∀ s, pool ≠ .side s) (seq layer tokenStart tokenEnd : ℕ)
    (unreserved : Bool) :
    ∃ r, gpu.allocateForSequence pps pool seq layer tokenStart tokenEnd unreserved = some r ∧
      Allocated pps gpu r := by
  have hbody : ∃ r, ((if pool = .main ∧ gpu.KvSlabbed pps then
      (gpu.kvAllocPage pps seq tokenStart unreserved none).map
        (writeMeta fun pm => { pm with refcount := 1, pool := pool })
      else gpu.allocatePage pps pool unreserved).map
        (writeMeta fun pm => pm.describe seq layer tokenStart tokenEnd)) = some r ∧
      Allocated pps gpu r := by
    have halloc : ∃ r, (if pool = .main ∧ gpu.KvSlabbed pps then
        (gpu.kvAllocPage pps seq tokenStart unreserved none).map
          (writeMeta fun pm => { pm with refcount := 1, pool := pool })
        else gpu.allocatePage pps pool unreserved) = some r ∧ Allocated pps gpu r := by
      split
      · rename_i hcond
        exact h.kvAllocPage seq tokenStart unreserved none (fun _ => Nat.one_pos)
          (fun _ => hcond.1) fun _ => rfl
      · exact h.allocatePage hside unreserved
    obtain ⟨r, hr, hspec⟩ := halloc
    rw [hr]
    exact ⟨_, rfl, hspec.write (fun _ => rfl) (fun _ => rfl) fun _ => rfl⟩
  cases pool with
  | main | speculation => exact hbody
  | side s => exact absurd rfl (hside s)

end LayerStorm.Paging
