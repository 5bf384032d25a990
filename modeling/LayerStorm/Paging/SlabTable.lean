import LayerStorm.Lib.Tenancy
import LayerStorm.Paging.GpuPool

/-!
# The slab table of a GPU

The invariant of the slabs of a main pool, and how the moves of the allocator keep it.
It is stated over the components it is about (the slabs, the list of free slabs, the runs
of the sequences, the relation between tenants and slabs, and the set of live pages), so
that a change of anything else leaves it as it is.
-/

namespace LayerStorm.Paging

open Lib
open Function KvSlab List Nat

/-! ### Tenants -/

/-- Who has a slab: the run of a sequence, a page of a side pool, or a grant to the
expert cache. -/
inductive Tenant
  | sequence (seq : ℕ)
  | side (s : Side) (page : ℕ)
  | zone (start : ℕ)
  deriving DecidableEq

def GpuPool.Owns (gpu : GpuPool) : Tenant → ℕ → Prop
  | .sequence seq, sid => sid ∈ gpu.kvRuns seq
  | .side s page, sid => (gpu.side s).elastic = true ∧ 0 < ((gpu.side s).pages page).refcount ∧
      sid ∈ GpuPool.runSlabIds page (gpu.side s).runSlabs
  | .zone start, sid => ∃ n, gpu.expertZoneRuns start = some n ∧ sid ∈ GpuPool.runSlabIds start n

/-- A slab of a sequence: its pages below the bump offset are live or holes. -/
structure KvShape (pps seq : ℕ) (slab : KvSlab) : Prop where
  owner : slab.ownerSeq = seq
  bump_le : slab.bump ≤ pps
  nodup : slab.holes.Nodup
  below : ∀ off ∈ slab.holes, off < slab.bump
  count : slab.used + slab.holes.length = slab.bump

def KvSlab.liveOffsets (slab : KvSlab) : Finset ℕ :=
  Finset.range slab.bump \ slab.holes.toFinset

variable {slab : KvSlab}

theorem KvSlab.mem_liveOffsets {off : ℕ} :
    off ∈ slab.liveOffsets ↔ off < slab.bump ∧ off ∉ slab.holes := by
  unfold liveOffsets
  rw [Finset.mem_sdiff, Finset.mem_range, List.mem_toFinset]

/-- **A slab counts its live pages.** -/
theorem KvShape.card_live {pps seq : ℕ} (h : KvShape pps seq slab) :
    slab.liveOffsets.card = slab.used := by
  have hsub : slab.holes.toFinset ⊆ Finset.range slab.bump := by
    intro off hoff
    exact Finset.mem_range.2 (h.below off (List.mem_toFinset.1 hoff))
  unfold liveOffsets
  rw [Finset.card_sdiff_of_subset hsub, Finset.card_range,
    List.toFinset_card_of_nodup h.nodup, ← h.count, Nat.add_sub_cancel]

/-- A slab of a tenant that is no sequence. -/
structure KvSlab.Stamped (pps : ℕ) (slab : KvSlab) : Prop where
  used : slab.used = pps
  bump : slab.bump = pps
  holes : slab.holes = []

/-- A slab without a tenant. -/
structure KvSlab.Vacant (slab : KvSlab) : Prop where
  used : slab.used = 0
  bump : slab.bump = 0
  holes : slab.holes = []

/-! ### Pages of a slab -/

theorem page_inj {pps s s' off off' : ℕ} (hoff : off < pps) (hoff' : off' < pps)
    (heq : s * pps + off = s' * pps + off') : s = s' ∧ off = off' := by
  have hpos : 0 < pps := lt_of_le_of_lt (zero_le _) hoff
  have hs : s = s' := by
    have h₁ : (s * pps + off) / pps = s := by
      rw [mul_comm, mul_add_div hpos, div_eq_of_lt hoff, add_zero]
    have h₂ : (s' * pps + off') / pps = s' := by
      rw [mul_comm, mul_add_div hpos, div_eq_of_lt hoff', add_zero]
    rw [← h₁, heq, h₂]
  subst hs
  exact ⟨rfl, add_left_cancel heq⟩

/-! ### The invariant of the slabs -/

/-- **The slab table.**  Slabs are free or have exactly one tenant, free slabs are listed
once, and a page in a slab is live if and only if the slab belongs to a sequence and its
record says so. -/
structure SlabTable (pps n : ℕ) (slabs : ℕ → KvSlab) (free : List ℕ) (runs : ℕ → List ℕ)
    (owns : Tenant → ℕ → Prop) (live : ℕ → Prop) : Prop where
  tenancy : Tenancy (fun s => (slabs s).claimed = true) owns
  inRange : ∀ t s, owns t s → s < n
  runs_iff : ∀ seq s, owns (.sequence seq) s ↔ s ∈ runs seq
  runsNodup : ∀ seq, (runs seq).Nodup
  freeNodup : free.Nodup
  mem_free : ∀ s, s ∈ free ↔ s < n ∧ (slabs s).claimed = false
  vacant : ∀ s, (slabs s).claimed = false → (slabs s).Vacant
  shape : ∀ seq s, s ∈ runs seq → KvShape pps seq (slabs s)
  stamped : ∀ t s, owns t s → (∀ seq, t ≠ .sequence seq) → (slabs s).Stamped pps
  live_iff : ∀ s off, s < n → off < pps →
    (live (s * pps + off) ↔ (∃ seq, s ∈ runs seq) ∧ off ∈ (slabs s).liveOffsets)

/-- The free pages in slabs. -/
def slabRoom (pps n : ℕ) (slabs : ℕ → KvSlab) : ℤ :=
  ∑ s ∈ Finset.range n, ((pps : ℤ) - (slabs s).used)

theorem slabRoom_update {pps n s : ℕ} {slabs : ℕ → KvSlab} (hs : s < n) :
    slabRoom pps n (update slabs s slab) = slabRoom pps n slabs + (slabs s).used - slab.used := by
  unfold slabRoom
  rw [sum_change (f := fun r => (pps : ℤ) - (slabs r).used) (s := Finset.range n)
    (Finset.singleton_subset_iff.2 (Finset.mem_range.2 hs)), Finset.sum_singleton]
  · rw [update_self]
    ring
  · intro r _ hr
    rw [update_of_ne (Finset.notMem_singleton.1 hr)]

variable {pps n : ℕ} {slabs : ℕ → KvSlab} {free : List ℕ} {runs : ℕ → List ℕ}
variable {owns owns' : Tenant → ℕ → Prop} {live : ℕ → Prop} {seq s : ℕ}

namespace SlabTable

section

variable (h : SlabTable pps n slabs free runs owns live)
include h

theorem of_run (hs : s ∈ runs seq) : s < n ∧ (slabs s).claimed = true :=
  have ho := (h.runs_iff seq s).2 hs
  ⟨h.inRange _ s ho, h.tenancy.claimed_of_owns ho⟩

theorem run_unique {seq' : ℕ} (hs : s ∈ runs seq) (hs' : s ∈ runs seq') : seq = seq' :=
  Tenant.sequence.inj (h.tenancy.unique _ _ s ((h.runs_iff seq s).2 hs)
    ((h.runs_iff seq' s).2 hs'))

theorem not_run (hs : (slabs s).claimed = false) : s ∉ runs seq := by
  intro hmem
  rw [(h.of_run hmem).2] at hs
  cases hs

end

variable {off : ℕ}

theorem run_of_live (h : SlabTable pps n slabs free runs owns live) (hs : s < n) (hoff : off < pps)
    (hl : live (s * pps + off)) :
    ∃ seq, s ∈ runs seq ∧ off ∈ (slabs s).liveOffsets := by
  obtain ⟨⟨seq, hrun⟩, hmem⟩ := (h.live_iff s off hs hoff).1 hl
  exact ⟨seq, hrun, hmem⟩

theorem claim (h : SlabTable pps n slabs free runs owns live) (hs : s ∈ free)
    (hslab : KvShape pps seq slab) (hclaimed : slab.claimed = true) (hempty : slab.bump = 0)
    (howns : ∀ t r, owns' t r ↔ owns t r ∨ (t = .sequence seq ∧ r = s)) :
    SlabTable pps n (update slabs s slab) (free.erase s)
      (update runs seq (runs seq ++ [s])) owns' live := by
  obtain ⟨hlt, hfree⟩ := (h.mem_free s).1 hs
  have hnot : ∀ seq', s ∉ runs seq' := fun seq' => h.not_run hfree
  have hmem : ∀ seq' r, r ∈ update runs seq (runs seq ++ [s]) seq' ↔
      r ∈ runs seq' ∨ (seq' = seq ∧ r = s) := by
    intro seq' r
    by_cases hseq : seq' = seq
    · subst hseq
      simp
    · simp [hseq]
  constructor
  case tenancy =>
    refine h.tenancy.grant (fun t r => t = .sequence seq ∧ r = s) ?_ ?_ howns ?_
    · rintro t r ⟨_, rfl⟩
      rw [hfree]
      exact Bool.false_ne_true
    · rintro t t' r ⟨rfl, _⟩ ⟨rfl, _⟩
      rfl
    · intro r
      by_cases hr : r = s
      · subst hr
        simp [hclaimed]
      · simp [hr]
  case inRange =>
    intro t r ho
    rcases (howns t r).1 ho with ho | ⟨_, rfl⟩
    · exact h.inRange t r ho
    · exact hlt
  case runs_iff =>
    intro seq' r
    rw [howns, hmem, h.runs_iff]
    exact or_congr Iff.rfl (and_congr ⟨Tenant.sequence.inj, fun heq => by rw [heq]⟩ Iff.rfl)
  case runsNodup =>
    intro seq'
    by_cases hseq : seq' = seq
    · subst hseq
      rw [update_self]
      refine List.Nodup.append (h.runsNodup seq') (nodup_singleton s) ?_
      exact disjoint_singleton.2 (hnot seq')
    · rw [update_of_ne hseq]
      exact h.runsNodup seq'
  case freeNodup =>
    exact h.freeNodup.erase s
  case mem_free =>
    intro r
    rw [h.freeNodup.mem_erase_iff, h.mem_free]
    by_cases hr : r = s
    · subst hr
      simp [hclaimed]
    · simp [hr]
  case vacant =>
    intro r hr
    by_cases hrs : r = s
    · subst hrs
      rw [update_self, hclaimed] at hr
      cases hr
    · rw [update_of_ne hrs] at hr ⊢
      exact h.vacant r hr
  case shape =>
    intro seq' r hr
    rcases (hmem seq' r).1 hr with hr | ⟨rfl, rfl⟩
    · have hrs : r ≠ s := fun heq => hnot seq' (heq ▸ hr)
      rw [update_of_ne hrs]
      exact h.shape seq' r hr
    · rw [update_self]
      exact hslab
  case stamped =>
    intro t r ho hside
    rcases (howns t r).1 ho with ho | ⟨heq, _⟩
    · have hrs : r ≠ s := by
        rintro rfl
        have := h.tenancy.claimed_of_owns ho
        rw [hfree] at this
        cases this
      rw [update_of_ne hrs]
      exact h.stamped t r ho hside
    · exact absurd heq (hside seq)
  case live_iff =>
    intro r off hr hoff
    rw [h.live_iff r off hr hoff]
    by_cases hrs : r = s
    · subst hrs
      refine iff_of_false ?_ ?_
      · rintro ⟨⟨seq', hrun⟩, _⟩
        exact hnot seq' hrun
      · rintro ⟨_, hlive⟩
        rw [update_self, mem_liveOffsets, hempty] at hlive
        exact not_lt_zero _ hlive.1
    · rw [update_of_ne hrs]
      refine and_congr ?_ Iff.rfl
      refine exists_congr fun seq' => ?_
      rw [hmem]
      exact ⟨.inl, fun ho => ho.resolve_right fun hkg => hrs hkg.2⟩

variable {live' : ℕ → Prop}

section

variable (h : SlabTable pps n slabs free runs owns live)
include h

theorem change (hs : s ∈ runs seq) (hslab : KvShape pps seq slab) (hclaimed : slab.claimed = true)
    (hself : ∀ off < pps, live' (s * pps + off) ↔ off ∈ slab.liveOffsets)
    (hother : ∀ i, (∀ off < pps, i ≠ s * pps + off) → (live' i ↔ live i)) :
    SlabTable pps n (update slabs s slab) free runs owns live' := by
  obtain ⟨hlt, hold⟩ := h.of_run hs
  have hsame : ∀ r, (update slabs s slab r).claimed = (slabs r).claimed := by
    intro r
    by_cases hr : r = s
    · subst hr
      rw [update_self, hclaimed, hold]
    · rw [update_of_ne hr]
  refine ⟨?_, h.inRange, h.runs_iff, h.runsNodup, h.freeNodup, ?_, ?_, ?_, ?_, ?_⟩
  · simp only [hsame]
    exact h.tenancy
  · intro r
    rw [hsame]
    exact h.mem_free r
  · intro r hr
    have hrs : r ≠ s := by
      rintro rfl
      rw [hsame, hold] at hr
      cases hr
    rw [hsame] at hr
    rw [update_of_ne hrs]
    exact h.vacant r hr
  · intro seq' r hr
    by_cases hrs : r = s
    · subst hrs
      rw [update_self, ← h.run_unique hs hr]
      exact hslab
    · rw [update_of_ne hrs]
      exact h.shape seq' r hr
  · intro t r ho hside
    have hrs : r ≠ s := by
      rintro rfl
      exact hside seq (h.tenancy.unique t _ r ho ((h.runs_iff seq r).2 hs))
    rw [update_of_ne hrs]
    exact h.stamped t r ho hside
  · intro r off hr hoff
    by_cases hrs : r = s
    · subst hrs
      rw [hself off hoff, update_self]
      exact ⟨fun hl => ⟨⟨seq, hs⟩, hl⟩, fun hl => hl.2⟩
    · rw [update_of_ne hrs, hother, h.live_iff r off hr hoff]
      intro off' hoff' heq
      exact hrs (page_inj hoff hoff' heq).1

theorem take (hs : s ∈ runs seq) (hslab : KvShape pps seq slab) (hclaimed : slab.claimed = true)
    (hoff : off < pps)
    (hlive : ∀ off', off' ∈ slab.liveOffsets ↔ off' ∈ (slabs s).liveOffsets ∨ off' = off) :
    SlabTable pps n (update slabs s slab) free runs owns fun i => live i ∨ i = s * pps + off := by
  have hlt := (h.of_run hs).1
  refine h.change hs hslab hclaimed ?_ ?_
  · intro off' hoff'
    rw [hlive, h.live_iff s off' hlt hoff']
    refine or_congr ⟨fun hl => hl.2, fun hl => ⟨⟨seq, hs⟩, hl⟩⟩ ?_
    exact ⟨fun heq => (page_inj hoff' hoff heq).2, fun heq => by rw [heq]⟩
  · intro i hi
    exact ⟨fun hl => hl.resolve_right (hi off hoff), .inl⟩

theorem takeHole (hs : s ∈ runs seq) (hoff : off ∈ (slabs s).holes) (lo hi : ℕ) :
    SlabTable pps n (update slabs s { slabs s with
        holes := (slabs s).holes.erase off
        used := (slabs s).used + 1
        tokLo := lo
        tokHi := hi }) free runs owns fun i => live i ∨ i = s * pps + off := by
  have hshape := h.shape seq s hs
  have hlt := hshape.below off hoff
  refine h.take hs ?_ ?_ (lt_of_lt_of_le hlt hshape.bump_le) ?_
  · refine ⟨hshape.owner, hshape.bump_le, hshape.nodup.erase off, ?_, ?_⟩
    · exact fun off' hmem => hshape.below off' (mem_of_mem_erase hmem)
    have hcount := hshape.count
    have hpos := length_pos_of_mem hoff
    rw [length_erase_of_mem hoff]
    simp only
    omega
  · exact (h.of_run hs).2
  · intro off'
    rw [mem_liveOffsets, mem_liveOffsets, hshape.nodup.mem_erase_iff]
    by_cases heq : off' = off
    · subst heq
      simp [hlt]
    · simp [heq]

theorem takeBump (hs : s ∈ runs seq) (hroom : (slabs s).bump < pps) (lo hi : ℕ) :
    SlabTable pps n (update slabs s { slabs s with
        bump := (slabs s).bump + 1
        used := (slabs s).used + 1
        tokLo := lo
        tokHi := hi }) free runs owns fun i => live i ∨ i = s * pps + (slabs s).bump := by
  have hshape := h.shape seq s hs
  refine h.take hs ?_ ?_ hroom ?_
  · refine ⟨hshape.owner, hroom, hshape.nodup, ?_, ?_⟩
    · exact fun off hmem => lt_succ_of_lt (hshape.below off hmem)
    have hcount := hshape.count
    simp only
    omega
  · exact (h.of_run hs).2
  · intro off'
    rw [mem_liveOffsets, mem_liveOffsets]
    constructor
    · rintro ⟨hlt, hmem⟩
      rcases Nat.lt_succ_iff_lt_or_eq.1 hlt with hlt | heq
      · exact .inl ⟨hlt, hmem⟩
      · exact .inr heq
    · rintro (⟨hlt, hmem⟩ | rfl)
      · exact ⟨lt_succ_of_lt hlt, hmem⟩
      · exact ⟨lt_succ_self _, fun hmem => lt_irrefl _ (hshape.below _ hmem)⟩

theorem used_pos (hs : s ∈ runs seq) (hoff : off ∈ (slabs s).liveOffsets) : 0 < (slabs s).used := by
  rw [← (h.shape seq s hs).card_live]
  exact Finset.card_pos.2 ⟨off, hoff⟩

theorem giveHole (hs : s ∈ runs seq) {idx : ℕ} (hoff : off ∈ (slabs s).liveOffsets)
    (hidx : s * pps + off = idx) :
    SlabTable pps n (update slabs s { slabs s with
        used := (slabs s).used - 1
        holes := (slabs s).holes ++ [off] }) free runs owns fun i => live i ∧ i ≠ idx := by
  subst hidx
  have hshape := h.shape seq s hs
  have hused := h.used_pos hs hoff
  obtain ⟨hlt, hmem⟩ := mem_liveOffsets.1 hoff
  have hoffpps := Nat.lt_of_lt_of_le hlt hshape.bump_le
  refine h.change hs ?_ ?_ ?_ ?_
  · refine ⟨hshape.owner, hshape.bump_le, ?_, ?_, ?_⟩
    · exact List.Nodup.append hshape.nodup (List.nodup_singleton off)
        (List.disjoint_singleton.2 hmem)
    · intro off' hoff'
      rcases List.mem_append.1 hoff' with hoff' | hoff'
      · exact hshape.below off' hoff'
      · rw [List.mem_singleton.1 hoff']
        exact hlt
    · have hcount := hshape.count
      rw [List.length_append, List.length_singleton]
      simp only
      omega
  · exact (h.of_run hs).2
  · intro off' hoff'
    rw [h.live_iff s off' (h.of_run hs).1 hoff', mem_liveOffsets, mem_liveOffsets]
    simp only [List.mem_append, List.mem_singleton, not_or]
    constructor
    · rintro ⟨⟨_, hlt', hmem'⟩, hne⟩
      exact ⟨hlt', hmem', fun heq => hne (by rw [heq])⟩
    · rintro ⟨hlt', hmem', hne⟩
      exact ⟨⟨⟨seq, hs⟩, hlt', hmem'⟩, fun heq => hne (page_inj hoff' hoffpps heq).2⟩
  · intro i hi
    exact ⟨fun hl => hl.1, fun hl => ⟨hl, hi off hoffpps⟩⟩

theorem giveSlab (hs : s ∈ runs seq) {idx : ℕ} (hoff : off ∈ (slabs s).liveOffsets)
    (hidx : s * pps + off = idx) (hlast : (slabs s).used = 1)
    (howns : ∀ t r, owns' t r ↔ owns t r ∧ ¬ (t = .sequence seq ∧ r = s)) :
    SlabTable pps n (update slabs s fresh) (free ++ [s])
      (update runs seq ((runs seq).filter fun r => r ≠ s)) owns'
      fun i => live i ∧ i ≠ idx := by
  subst hidx
  have hshape := h.shape seq s hs
  obtain ⟨hlt, hclaimed⟩ := h.of_run hs
  have hoffpps : off < pps :=
    lt_of_lt_of_le (mem_liveOffsets.1 hoff).1 hshape.bump_le
  -- the last page of the slab goes
  have honly : ∀ off' ∈ (slabs s).liveOffsets, off' = off := by
    have hcard : (slabs s).liveOffsets.card ≤ 1 := by rw [hshape.card_live, hlast]
    exact fun off' hoff' => Finset.card_le_one.1 hcard off' hoff' off hoff
  have hmem : ∀ seq' r, r ∈ update runs seq ((runs seq).filter fun r => r ≠ s) seq' ↔
      r ∈ runs seq' ∧ ¬ (seq' = seq ∧ r = s) := by
    intro seq' r
    by_cases hseq : seq' = seq
    · subst hseq
      simp
    · simp [hseq]
  have hnot : ∀ seq', s ∉ update runs seq ((runs seq).filter fun r => r ≠ s) seq' := by
    intro seq' hin
    obtain ⟨hin, hne⟩ := (hmem seq' s).1 hin
    exact hne ⟨h.run_unique hin hs, rfl⟩
  constructor
  case tenancy =>
    refine h.tenancy.revoke (t := .sequence seq) (fun r => r = s) ?_ howns ?_
    · rintro r rfl
      exact (h.runs_iff seq r).2 hs
    · intro r
      by_cases hr : r = s
      · subst hr
        simp [fresh]
      · simp [hr]
  case inRange =>
    exact fun t r ho => h.inRange t r ((howns t r).1 ho).1
  case runs_iff =>
    intro seq' r
    rw [howns, hmem, h.runs_iff]
    refine and_congr Iff.rfl (not_congr (and_congr ?_ Iff.rfl))
    exact ⟨Tenant.sequence.inj, fun heq => by rw [heq]⟩
  case runsNodup =>
    intro seq'
    by_cases hseq : seq' = seq
    · subst hseq
      rw [update_self]
      exact (h.runsNodup seq').filter _
    · rw [update_of_ne hseq]
      exact h.runsNodup seq'
  case freeNodup =>
    refine List.Nodup.append h.freeNodup (nodup_singleton s) ?_
    rw [List.disjoint_singleton, h.mem_free, hclaimed]
    exact fun hf => Bool.noConfusion hf.2
  case mem_free =>
    intro r
    rw [mem_append, h.mem_free]
    by_cases hr : r = s
    · subst hr
      simp [fresh, hlt]
    · simp [hr]
  case vacant =>
    intro r hr
    by_cases hrs : r = s
    · subst hrs
      rw [update_self]
      exact ⟨rfl, rfl, rfl⟩
    · rw [update_of_ne hrs] at hr ⊢
      exact h.vacant r hr
  case shape =>
    intro seq' r hr
    have hrs : r ≠ s := fun heq => hnot seq' (heq ▸ hr)
    rw [update_of_ne hrs]
    exact h.shape seq' r ((hmem seq' r).1 hr).1
  case stamped =>
    intro t r ho hside
    have hold := ((howns t r).1 ho).1
    have hrs : r ≠ s := by
      rintro rfl
      exact hside seq (h.tenancy.unique t _ r hold ((h.runs_iff seq r).2 hs))
    rw [update_of_ne hrs]
    exact h.stamped t r hold hside
  case live_iff =>
    intro r off' hr hoff'
    by_cases hrs : r = s
    · subst hrs
      refine iff_of_false ?_ ?_
      · rintro ⟨hl, hne⟩
        obtain ⟨_, hmem'⟩ := (h.live_iff r off' hr hoff').1 hl
        exact hne (by rw [honly off' hmem'])
      · rintro ⟨⟨seq', hrun⟩, _⟩
        exact hnot seq' hrun
    · have hne : r * pps + off' ≠ s * pps + off := fun heq => hrs (page_inj hoff' hoffpps heq).1
      rw [update_of_ne hrs, h.live_iff r off' hr hoff']
      simp only [hne, ne_eq, not_false_eq_true, and_true]
      refine and_congr (exists_congr fun seq' => ?_) Iff.rfl
      rw [hmem]
      exact ⟨fun hrun => ⟨hrun, fun hkg => hrs hkg.2⟩, fun hrun => hrun.1⟩

end

variable {slabs' : ℕ → KvSlab} (h : SlabTable pps n slabs free runs owns live)
include h

theorem stamp {free' sids : List ℕ} (new : Tenant → ℕ → Prop)
    (hfree : ∀ r ∈ sids, r < n ∧ (slabs r).claimed = false)
    (hnew : ∀ t r, new t r → r ∈ sids ∧ ∀ seq, t ≠ .sequence seq)
    (hcover : ∀ r ∈ sids, ∃ t, new t r) (hunique : ∀ t t' r, new t r → new t' r → t = t')
    (hself : ∀ r ∈ sids, (slabs' r).Stamped pps ∧ (slabs' r).claimed = true)
    (hother : ∀ r, r ∉ sids → slabs' r = slabs r) (hnodup : free'.Nodup)
    (hmem : ∀ r, r ∈ free' ↔ r ∈ free ∧ r ∉ sids) (howns : ∀ t r, owns' t r ↔ owns t r ∨ new t r) :
    SlabTable pps n slabs' free' runs owns' live := by
  have hunclaimed : ∀ t r, new t r → ¬ (slabs r).claimed = true := by
    intro t r hn
    rw [(hfree r (hnew t r hn).1).2]
    exact Bool.false_ne_true
  have hold : ∀ t r, owns t r → r ∉ sids := by
    intro t r ho hr
    have hclaimed := h.tenancy.claimed_of_owns ho
    rw [(hfree r hr).2] at hclaimed
    cases hclaimed
  refine ⟨?_, ?_, ?_, h.runsNodup, hnodup, ?_, ?_, ?_, ?_, ?_⟩
  · refine h.tenancy.grant new hunclaimed hunique howns ?_
    intro r
    by_cases hr : r ∈ sids
    · exact iff_of_true (hself r hr).2 (.inr (hcover r hr))
    rw [hother r hr]
    refine ⟨.inl, fun ho => ho.resolve_right ?_⟩
    rintro ⟨t, hn⟩
    exact hr (hnew t r hn).1
  · intro t r ho
    rcases (howns t r).1 ho with ho | hn
    · exact h.inRange t r ho
    · exact (hfree r (hnew t r hn).1).1
  · intro seq r
    rw [howns, h.runs_iff]
    exact ⟨fun ho => ho.resolve_right fun hn => (hnew _ r hn).2 seq rfl, .inl⟩
  · intro r
    rw [hmem, h.mem_free]
    by_cases hr : r ∈ sids
    · simp [hr, (hself r hr).2]
    · simp [hr, hother r hr]
  · intro r hr
    have hrs : r ∉ sids := by
      intro hin
      rw [(hself r hin).2] at hr
      cases hr
    rw [hother r hrs] at hr ⊢
    exact h.vacant r hr
  · intro seq r hr
    rw [hother r (hold _ r ((h.runs_iff seq r).2 hr))]
    exact h.shape seq r hr
  · intro t r ho hside
    rcases (howns t r).1 ho with ho | hn
    · rw [hother r (hold t r ho)]
      exact h.stamped t r ho hside
    · exact (hself r (hnew t r hn).1).1
  · intro r off hr hoff
    rw [h.live_iff r off hr hoff]
    refine and_congr_right ?_
    rintro ⟨seq, hrun⟩
    rw [hother r (hold _ r ((h.runs_iff seq r).2 hrun))]

theorem unstamp {free' sids : List ℕ} {t : Tenant} (hside : ∀ seq, t ≠ .sequence seq)
    (hown : ∀ r, r ∈ sids ↔ owns t r) (hself : ∀ r ∈ sids, slabs' r = fresh)
    (hother : ∀ r, r ∉ sids → slabs' r = slabs r) (hnodup : free'.Nodup)
    (hmem : ∀ r, r ∈ free' ↔ r ∈ free ∨ r ∈ sids)
    (howns : ∀ t' r, owns' t' r ↔ owns t' r ∧ t' ≠ t) :
    SlabTable pps n slabs' free' runs owns' live := by
  have hkeep : ∀ t' r, owns t' r → t' ≠ t → r ∉ sids := by
    intro t' r ho hne hr
    exact hne (h.tenancy.unique t' t r ho ((hown r).1 hr))
  have hrun : ∀ seq r, r ∈ runs seq → r ∉ sids := by
    intro seq r hr
    exact hkeep _ r ((h.runs_iff seq r).2 hr) fun heq => hside seq heq.symm
  refine ⟨?_, ?_, ?_, h.runsNodup, hnodup, ?_, ?_, ?_, ?_, ?_⟩
  · refine h.tenancy.revoke (t := t) (fun r => r ∈ sids) (fun r hr => (hown r).1 hr) ?_ ?_
    · intro t' r
      rw [howns]
      refine and_congr_right fun ho => not_congr ⟨fun heq => ⟨heq, ?_⟩, fun hkg => hkg.1⟩
      exact (hown r).2 (heq ▸ ho)
    · intro r
      by_cases hr : r ∈ sids
      · simp [hr, hself r hr, fresh]
      · simp [hr, hother r hr]
  · exact fun t' r ho => h.inRange t' r ((howns t' r).1 ho).1
  · intro seq r
    rw [howns, h.runs_iff]
    exact ⟨fun ho => ho.1, fun hr => ⟨hr, fun heq => hside seq heq.symm⟩⟩
  · intro r
    rw [hmem, h.mem_free]
    by_cases hr : r ∈ sids
    · simp [hr, hself r hr, fresh, h.inRange t r ((hown r).1 hr)]
    · simp [hr, hother r hr]
  · intro r hr
    by_cases hrs : r ∈ sids
    · rw [hself r hrs]
      exact ⟨rfl, rfl, rfl⟩
    · rw [hother r hrs] at hr ⊢
      exact h.vacant r hr
  · intro seq r hr
    rw [hother r (hrun seq r hr)]
    exact h.shape seq r hr
  · intro t' r ho hside'
    obtain ⟨hold, hne⟩ := (howns t' r).1 ho
    rw [hother r (hkeep t' r hold hne)]
    exact h.stamped t' r hold hside'
  · intro r off hr hoff
    rw [h.live_iff r off hr hoff]
    refine and_congr_right ?_
    rintro ⟨seq, hr⟩
    rw [hother r (hrun seq r hr)]

theorem congr_live (hlive : ∀ i < n * pps, live' i ↔ live i) :
    SlabTable pps n slabs free runs owns live' := by
  refine { h with live_iff := ?_ }
  intro r off hr hoff
  rw [hlive, h.live_iff r off hr hoff]
  calc r * pps + off < r * pps + pps := Nat.add_lt_add_left hoff _
    _ = (r + 1) * pps := by ring
    _ ≤ n * pps := mul_le_mul_right _ hr

end SlabTable

/-! ### Free pages outside the slabs -/

/-- **The free lists of pages.**  The pages from `base` on are live or in exactly one of
the lists, once. -/
structure Outside (base main total : ℕ) (mainFree specFree loose : List ℕ) (live : ℕ → Prop) :
    Prop where
  nodup : (mainFree ++ specFree ++ loose).Nodup
  mem_iff : ∀ i, i ∈ mainFree ++ specFree ++ loose ↔ base ≤ i ∧ i < total ∧ ¬ live i
  spec_ge : ∀ i ∈ specFree, main ≤ i
  loose_ge : ∀ i ∈ loose, main ≤ i
  bound : ∀ i, live i → i < total

namespace Outside

variable {base main total : ℕ} {mainFree specFree loose mainFree' specFree' loose' : List ℕ}
variable (h : Outside base main total mainFree specFree loose live)
include h

theorem take {idx : ℕ}
    (hperm : (mainFree ++ specFree ++ loose).Perm (idx :: (mainFree' ++ specFree' ++ loose')))
    (hspec : ∀ i ∈ specFree', i ∈ specFree) (hloose : ∀ i ∈ loose', i ∈ loose) :
    Outside base main total mainFree' specFree' loose' fun i => live i ∨ i = idx := by
  have hnodup := hperm.nodup_iff.1 h.nodup
  have hidx := (h.mem_iff idx).1 (hperm.mem_iff.2 mem_cons_self)
  refine ⟨(nodup_cons.1 hnodup).2, ?_, fun i hi => h.spec_ge i (hspec i hi),
    fun i hi => h.loose_ge i (hloose i hi), ?_⟩
  · intro i
    by_cases hi : i = idx
    · subst hi
      refine iff_of_false (nodup_cons.1 hnodup).1 ?_
      exact fun hf => hf.2.2 (.inr rfl)
    · have hmem : i ∈ mainFree' ++ specFree' ++ loose' ↔ i ∈ mainFree ++ specFree ++ loose := by
        rw [hperm.mem_iff, List.mem_cons]
        exact ⟨.inr, fun ho => ho.resolve_left hi⟩
      rw [hmem, h.mem_iff]
      simp [hi]
  · rintro i (hl | rfl)
    · exact h.bound i hl
    · exact hidx.2.1

theorem give {idx : ℕ} (hidx : base ≤ idx) (hlive : live idx)
    (hperm : (mainFree' ++ specFree' ++ loose').Perm (idx :: (mainFree ++ specFree ++ loose)))
    (hspec : ∀ i ∈ specFree', main ≤ i) (hloose : ∀ i ∈ loose', main ≤ i) :
    Outside base main total mainFree' specFree' loose' fun i => live i ∧ i ≠ idx := by
  have hnot : idx ∉ mainFree ++ specFree ++ loose := fun hmem => ((h.mem_iff idx).1 hmem).2.2 hlive
  refine ⟨hperm.nodup_iff.2 (List.nodup_cons.2 ⟨hnot, h.nodup⟩), ?_, hspec, hloose,
    fun i hl => h.bound i hl.1⟩
  intro i
  rw [hperm.mem_iff, List.mem_cons, h.mem_iff]
  by_cases hi : i = idx
  · subst hi
    simp [hidx, h.bound i hlive]
  · simp [hi]

theorem congr_live {live' : ℕ → Prop} (hlive : ∀ i, base ≤ i → (live' i ↔ live i))
    (hbound : ∀ i < base, live' i → i < total) :
    Outside base main total mainFree specFree loose live' := by
  refine { h with mem_iff := ?_, bound := ?_ }
  · intro i
    rw [h.mem_iff]
    refine and_congr_right fun hi => and_congr_right fun _ => ?_
    rw [hlive i hi]
  · intro i hl
    rcases lt_or_ge i base with hi | hi
    · exact hbound i hi hl
    · exact h.bound i ((hlive i hi).1 hl)

end Outside

end LayerStorm.Paging
