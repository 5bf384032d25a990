import LayerStorm.Transfer.Engine

/-!
# The transfer engine's containers

Two groups of the engine's containers have to agree among themselves: the pinned
pool with the pending transfers that borrow its slots, and the priority queues with
the index of staged tokens and the bin counters.  Each group has an invariant and
one lemma for each way the operations change it.
-/

namespace LayerStorm.Transfer

open Lib
open Function List

variable {K P : Type}

/-! ### Pinned slots -/

/-- The slot `i` exists and is in use. -/
def SlotBusy (pool : List PinnedStagingSlot) (i : ℕ) : Prop :=
  ∃ s, pool[i]? = some s ∧ s.inUse = true

variable {pool : List PinnedStagingSlot}

theorem slotBusy_modify {i j : ℕ} {b : Bool} :
    SlotBusy (pool.modify i fun s => { s with inUse := b }) j ↔
      if i = j then b = true ∧ j < pool.length else SlotBusy pool j := by
  unfold SlotBusy
  by_cases h : i = j
  · subst h
    simp only [getElem?_modify]
    constructor
    · rintro ⟨s, hs, hb⟩
      obtain ⟨s', hs', rfl⟩ := Option.map_eq_some_iff.1 hs
      exact ⟨hb, (List.getElem?_eq_some_iff.1 hs').1⟩
    · rintro ⟨rfl, hlt⟩
      exact ⟨_, by rw [getElem?_eq_getElem hlt]; rfl, rfl⟩
  · simp [h]

theorem acquirePinnedSlot_spec (pool : List PinnedStagingSlot) :
    (∀ j, SlotBusy (acquirePinnedSlot pool).2 j ↔
      SlotBusy pool j ∨ (acquirePinnedSlot pool).1 = some j) ∧
    ∀ i, (acquirePinnedSlot pool).1 = some i → ¬ SlotBusy pool i ∧ i < pool.length := by
  unfold acquirePinnedSlot
  split
  · simp
  rename_i i hfind
  obtain ⟨hlt, hfree, _⟩ := findIdx?_eq_some_iff_getElem.1 hfind
  have hidle : ¬ SlotBusy pool i := by
    rintro ⟨s, hs, hbusy⟩
    rw [getElem?_eq_getElem hlt, Option.some.injEq] at hs
    simp [hs, hbusy] at hfree
  refine ⟨fun j => ?_, fun k hk => ?_⟩
  · rw [slotBusy_modify]
    by_cases hij : i = j
    · subst hij
      simp [hlt]
    · simp [hij]
  · cases hk
    exact ⟨hidle, hlt⟩

theorem slotBusy_release {slot : Option ℕ} {j : ℕ} :
    SlotBusy (releasePinnedSlot pool slot) j ↔ SlotBusy pool j ∧ slot ≠ some j := by
  cases slot with
  | none => simp [releasePinnedSlot]
  | some i =>
    simp only [releasePinnedSlot, slotBusy_modify]
    by_cases hij : i = j <;> simp [hij]

theorem stageThroughPool_spec (pool : List PinnedStagingSlot) (needs : Bool)
    (dir : TransferDirection) (bytes : ℕ) :
    (∀ j, SlotBusy (stageThroughPool pool needs dir bytes).2 j ↔
      SlotBusy pool j ∨ (stageThroughPool pool needs dir bytes).1 = some j) ∧
    ∀ i, (stageThroughPool pool needs dir bytes).1 = some i → ¬ SlotBusy pool i := by
  obtain ⟨hbusy, hfree⟩ := acquirePinnedSlot_spec pool
  unfold stageThroughPool
  split
  · split
    · rename_i pool' hacq
      rw [hacq] at hbusy
      simpa using hbusy
    rename_i i pool' hacq
    rw [hacq] at hbusy hfree
    split
    · split
      · exact ⟨hbusy, fun k hk => (hfree k hk).1⟩
      refine ⟨fun j => ?_, by simp⟩
      rw [slotBusy_release, hbusy j]
      constructor
      · rintro ⟨h | h, hne⟩
        · exact .inl h
        · exact absurd h hne
      · rintro (h | h)
        · refine ⟨.inl h, fun heq => ?_⟩
          exact (hfree j heq).1 h
        · cases h
    · -- an acquired index lies inside the pool
      rename_i hnone
      have hb : SlotBusy pool' i := (hbusy i).2 (.inr rfl)
      obtain ⟨s, hs, _⟩ := hb
      rw [hnone] at hs
      cases hs
  · simp

/-- The pending transfer `t` refers to the pinned slot `i`. -/
def RefersTo (pending : Map ℕ (PendingTransfer K P)) (t i : ℕ) : Prop :=
  ∃ pt, pending.lookup t = some pt ∧ pt.pinnedSlotIdx = some i

/-- A slot is in use exactly when a pending transfer refers to it, and no two do. -/
structure SlotInv (pool : List PinnedStagingSlot) (pending : Map ℕ (PendingTransfer K P)) :
    Prop where
  busy : ∀ i, SlotBusy pool i ↔ ∃ t, RefersTo pending t i
  once : ∀ i t t', RefersTo pending t i → RefersTo pending t' i → t = t'

variable {pending : Map ℕ (PendingTransfer K P)} {pt : PendingTransfer K P} {t : ℕ}

theorem refersTo_insert {u i : ℕ} : RefersTo (pending.insert t pt) u i ↔
      (u = t ∧ pt.pinnedSlotIdx = some i) ∨ (u ≠ t ∧ RefersTo pending u i) := by
  unfold RefersTo
  simp only [Map.lookup_insert_iff]
  constructor
  · rintro ⟨pt', ⟨rfl, rfl⟩ | ⟨hne, hl⟩, hs⟩
    · exact .inl ⟨rfl, hs⟩
    · exact .inr ⟨hne, pt', hl, hs⟩
  · rintro (⟨rfl, hs⟩ | ⟨hne, pt', hl, hs⟩)
    · exact ⟨pt, .inl ⟨rfl, rfl⟩, hs⟩
    · exact ⟨pt', .inr ⟨hne, hl⟩, hs⟩

theorem refersTo_erase {u i : ℕ} :
    RefersTo (pending.erase t) u i ↔ u ≠ t ∧ RefersTo pending u i := by
  unfold RefersTo
  simp only [Map.lookup_erase_iff]
  constructor
  · rintro ⟨pt, ⟨hne, hl⟩, hs⟩
    exact ⟨hne, pt, hl, hs⟩
  · rintro ⟨hne, pt, hl, hs⟩
    exact ⟨pt, ⟨hne, hl⟩, hs⟩

theorem SlotInv.dispatch (h : SlotInv pool pending) (ht : t ∉ pending) (needs : Bool)
    (dir : TransferDirection) (bytes : ℕ)
    (hpt : pt.pinnedSlotIdx = (stageThroughPool pool needs dir bytes).1) :
    SlotInv (stageThroughPool pool needs dir bytes).2 (pending.insert t pt) := by
  obtain ⟨hbusy, hfree⟩ := stageThroughPool_spec pool needs dir bytes
  have hnot : ∀ i, ¬ RefersTo pending t i := by
    rintro i ⟨pt', hl, _⟩
    exact ht (Map.mem_of_lookup hl)
  constructor
  · intro i
    rw [hbusy i, h.busy i, ← hpt]
    constructor
    · rintro (⟨u, hu⟩ | hi)
      · refine ⟨u, refersTo_insert.2 (.inr ⟨?_, hu⟩)⟩
        rintro rfl
        exact hnot i hu
      · exact ⟨t, refersTo_insert.2 (.inl ⟨rfl, hi⟩)⟩
    · rintro ⟨u, hu⟩
      rcases refersTo_insert.1 hu with ⟨rfl, hs⟩ | ⟨_, hu⟩
      · exact .inr hs
      · exact .inl ⟨u, hu⟩
  · intro i u u' hu hu'
    -- the slot taken was referred to by nobody
    have hnew : pt.pinnedSlotIdx = some i → ∀ v, ¬ RefersTo pending v i := by
      intro hs v hv
      rw [hpt] at hs
      exact hfree i hs ((h.busy i).2 ⟨v, hv⟩)
    rcases refersTo_insert.1 hu with ⟨rfl, hs⟩ | ⟨_, hold⟩ <;>
      rcases refersTo_insert.1 hu' with ⟨rfl, hs'⟩ | ⟨_, hold'⟩
    · rfl
    · exact absurd hold' (hnew hs u')
    · exact absurd hold (hnew hs' u)
    · exact h.once i u u' hold hold'

theorem SlotInv.finish (h : SlotInv pool pending) (ht : pending.lookup t = some pt) :
    SlotInv (releasePinnedSlot pool pt.pinnedSlotIdx) (pending.erase t) := by
  constructor
  · intro i
    rw [slotBusy_release, h.busy i]
    constructor
    · rintro ⟨⟨u, hu⟩, hne⟩
      refine ⟨u, refersTo_erase.2 ⟨?_, hu⟩⟩
      rintro rfl
      obtain ⟨pt', hl, hs⟩ := hu
      rw [ht, Option.some.injEq] at hl
      exact hne (hl ▸ hs)
    · rintro ⟨u, hu⟩
      obtain ⟨hne, hu⟩ := refersTo_erase.1 hu
      refine ⟨⟨u, hu⟩, fun hs => hne ?_⟩
      exact h.once i u t hu ⟨pt, ht, hs⟩
  · intro i u u' hu hu'
    exact h.once i u u' (refersTo_erase.1 hu).2 (refersTo_erase.1 hu').2

theorem SlotInv.mark (h : SlotInv pool pending) {pt' : PendingTransfer K P}
    (ht : pending.lookup t = some pt) (hs : pt'.pinnedSlotIdx = pt.pinnedSlotIdx) :
    SlotInv pool (pending.insert t pt') := by
  have hiff : ∀ u i, RefersTo (pending.insert t pt') u i ↔ RefersTo pending u i := by
    intro u i
    rw [refersTo_insert, hs]
    by_cases hut : u = t
    · subst hut
      constructor
      · rintro (⟨_, hs⟩ | ⟨hne, _⟩)
        · exact ⟨pt, ht, hs⟩
        · exact absurd rfl hne
      · rintro ⟨pt'', hl, hs'⟩
        rw [ht, Option.some.injEq] at hl
        exact .inl ⟨rfl, hl ▸ hs'⟩
    · simp [hut]
  constructor
  · intro i
    rw [h.busy i]
    simp only [hiff]
  · intro i u u'
    rw [hiff, hiff]
    exact h.once i u u'

/-! ### Live transfers -/

def LiveStaged (staged : ℕ → List (StagedTransfer K P)) (k : InFlightKey K) (t : ℕ) : Prop :=
  ∃ st ∈ staged k.gpuIdx, st.token = t ∧ st.inFlightKey = k

/-- The token is pending under the key and not cancelled. -/
def LivePending (pending : Map ℕ (PendingTransfer K P)) (k : InFlightKey K) (t : ℕ) : Prop :=
  ∃ pt, pending.lookup t = some pt ∧ pt.cancelled = false ∧ pt.inFlightKey = k

variable {l : List (StagedTransfer K P)} {st : StagedTransfer K P}

theorem liveStaged_push (staged : ℕ → List (StagedTransfer K P))
    (hl : l.Perm (st :: staged st.gpuIdx)) (k : InFlightKey K) (t : ℕ) :
    LiveStaged (update staged st.gpuIdx l) k t ↔
      LiveStaged staged k t ∨ (k = st.inFlightKey ∧ t = st.token) := by
  unfold LiveStaged
  by_cases hg : k.gpuIdx = st.gpuIdx
  · rw [hg, update_self]
    constructor
    · rintro ⟨st', hst', htok, hkey⟩
      rcases mem_cons.1 (hl.mem_iff.1 hst') with rfl | hold
      · exact .inr ⟨hkey.symm, htok.symm⟩
      · exact .inl ⟨st', hold, htok, hkey⟩
    · rintro (⟨st', hst', hrest⟩ | ⟨rfl, rfl⟩)
      · exact ⟨st', hl.mem_iff.2 (mem_cons_of_mem _ hst'), hrest⟩
      · exact ⟨st, hl.mem_iff.2 mem_cons_self, rfl, rfl⟩
  · rw [update_of_ne hg]
    constructor
    · exact .inl
    · rintro (hold | ⟨rfl, _⟩)
      · exact hold
      · exact absurd rfl hg

theorem liveStaged_remove {staged : ℕ → List (StagedTransfer K P)}
    (hl : (staged st.gpuIdx).Perm (st :: l)) (k : InFlightKey K) (t : ℕ) : LiveStaged staged k t ↔
      LiveStaged (update staged st.gpuIdx l) k t ∨ (k = st.inFlightKey ∧ t = st.token) := by
  have hperm : (staged st.gpuIdx).Perm (st :: update staged st.gpuIdx l st.gpuIdx) := by
    rwa [update_self]
  have hback := liveStaged_push (update staged st.gpuIdx l) hperm k t
  rwa [update_idem, update_eq_self] at hback

theorem livePending_insert (ht : t ∉ pending) (hlive : pt.cancelled = false) (k : InFlightKey K)
    (u : ℕ) : LivePending (pending.insert t pt) k u ↔
      LivePending pending k u ∨ (k = pt.inFlightKey ∧ u = t) := by
  constructor
  · rintro ⟨p, hp, hc, hk⟩
    rcases Map.lookup_insert_iff.1 hp with ⟨rfl, rfl⟩ | ⟨_, hl⟩
    · exact .inr ⟨hk.symm, rfl⟩
    · exact .inl ⟨p, hl, hc, hk⟩
  · rintro (⟨p, hl, hc, hk⟩ | ⟨rfl, rfl⟩)
    · refine ⟨p, Map.lookup_insert_iff.2 (.inr ⟨?_, hl⟩), hc, hk⟩
      rintro rfl
      exact ht (Map.mem_of_lookup hl)
    · exact ⟨pt, AList.lookup_insert pending, hlive, rfl⟩

theorem livePending_lose (pending' : Map ℕ (PendingTransfer K P)) (hpt : pending.lookup t = some pt)
    (hlive : pt.cancelled = false) (hne : ∀ u, u ≠ t → pending'.lookup u = pending.lookup u)
    (hdead : ∀ p, pending'.lookup t = some p → p.cancelled = true) (k : InFlightKey K) (u : ℕ) :
    LivePending pending k u ↔ LivePending pending' k u ∨ (k = pt.inFlightKey ∧ u = t) := by
  unfold LivePending
  by_cases hu : u = t
  · subst hu
    constructor
    · rintro ⟨p, hp, _, hk⟩
      rw [hpt, Option.some.injEq] at hp
      exact .inr ⟨by rw [hp, hk], rfl⟩
    · rintro (⟨p, hp, hc, _⟩ | ⟨rfl, _⟩)
      · rw [hdead p hp] at hc
        cases hc
      · exact ⟨pt, hpt, hlive, rfl⟩
  · simp only [hne u hu, hu, and_false, or_false]

/-! ### Staged transfers -/

theorem bumpBin_apply (counts : ℕ → ℕ → ℤ) (gpu bin : ℕ) (d : ℤ) (g b : ℕ) :
    bumpBin counts gpu bin d g b = counts g b + if g = gpu ∧ b = bin then d else 0 := by
  unfold bumpBin
  by_cases hg : g = gpu
  · subst hg
    by_cases hb : b = bin
    · subst hb
      simp
    · simp [hb]
  · simp [hg]

variable [LinearOrder P] {opts : Options P}

/-- The queues, the index of their tokens and the bin counters agree. -/
structure StagedInv (opts : Options P) (staged : ℕ → List (StagedTransfer K P))
    (index : Map ℕ ℕ) (counts : ℕ → ℕ → ℤ) : Prop where
  entry : ∀ g, ∀ st ∈ staged g, st.gpuIdx = g ∧ g < opts.numGpus ∧ index.lookup st.token = some g
  indexed : ∀ t g, index.lookup t = some g → ∃ st ∈ staged g, st.token = t
  nodup : ∀ g, ((staged g).map (·.token)).Nodup
  bins : ∀ g b, counts g b = (staged g).countP fun st => binFor opts st.priority = b

variable {staged : ℕ → List (StagedTransfer K P)} {index : Map ℕ ℕ} {counts : ℕ → ℕ → ℤ} {gpu : ℕ}

section

variable (h : StagedInv opts staged index counts)
include h

theorem StagedInv.perm (hl : l.Perm (staged gpu)) :
    StagedInv opts (update staged gpu l) index counts := by
  have hperm : ∀ g, (update staged gpu l g).Perm (staged g) := by
    intro g
    by_cases hg : g = gpu
    · subst hg
      rwa [update_self]
    · rw [update_of_ne hg]
  refine ⟨?_, ?_, ?_, ?_⟩
  · intro g st hst
    exact h.entry g st ((hperm g).mem_iff.1 hst)
  · intro t g ht
    obtain ⟨st, hst, rfl⟩ := h.indexed t g ht
    exact ⟨st, (hperm g).mem_iff.2 hst, rfl⟩
  · intro g
    exact ((hperm g).map _).nodup_iff.2 (h.nodup g)
  · intro g b
    rw [h.bins g b, (hperm g).countP_eq]

theorem StagedInv.push (hnew : st.token ∉ index) (hgpu : st.gpuIdx < opts.numGpus)
    (hl : l.Perm (st :: staged st.gpuIdx)) :
    StagedInv opts (update staged st.gpuIdx l) (index.insert st.token st.gpuIdx)
      (bumpBin counts st.gpuIdx (binFor opts st.priority) 1) := by
  have hfresh : ∀ g, ∀ st' ∈ staged g, st'.token ≠ st.token := by
    intro g st' hst' heq
    exact hnew (Map.mem_of_lookup (heq ▸ (h.entry g st' hst').2.2))
  have hmem : ∀ g st', st' ∈ update staged st.gpuIdx l g ↔
      (g = st.gpuIdx ∧ st' = st) ∨ st' ∈ staged g := by
    intro g st'
    by_cases hg : g = st.gpuIdx
    · subst hg
      rw [update_self, hl.mem_iff]
      simp
    · simp [hg]
  refine ⟨?_, ?_, ?_, ?_⟩
  · intro g st' hst'
    rcases (hmem g st').1 hst' with ⟨rfl, rfl⟩ | hold
    · exact ⟨rfl, hgpu, AList.lookup_insert index⟩
    · obtain ⟨h1, h2, h3⟩ := h.entry g st' hold
      exact ⟨h1, h2, (AList.lookup_insert_ne (hfresh g st' hold)).trans h3⟩
  · intro t g ht
    rcases Map.lookup_insert_iff.1 ht with ⟨rfl, rfl⟩ | ⟨_, hold⟩
    · exact ⟨st, (hmem _ _).2 (.inl ⟨rfl, rfl⟩), rfl⟩
    · obtain ⟨st', hst', hst'2⟩ := h.indexed t g hold
      exact ⟨st', (hmem _ _).2 (.inr hst'), hst'2⟩
  · intro g
    by_cases hg : g = st.gpuIdx
    · subst hg
      rw [update_self, (hl.map _).nodup_iff, map_cons, nodup_cons]
      refine ⟨?_, h.nodup _⟩
      rintro hmem'
      obtain ⟨st', hst', heq⟩ := mem_map.1 hmem'
      exact hfresh _ st' hst' heq
    · rw [update_of_ne hg]
      exact h.nodup g
  · intro g b
    rw [bumpBin_apply, h.bins g b]
    by_cases hg : g = st.gpuIdx
    · subst hg
      rw [update_self, hl.countP_eq]
      by_cases hb : b = binFor opts st.priority
      · simp [hb]
      · simp [hb, Ne.symm hb]
    · simp [hg]

theorem StagedInv.remove (hl : (staged gpu).Perm (st :: l)) :
    StagedInv opts (update staged gpu l) (index.erase st.token)
      (bumpBin counts gpu (binFor opts st.priority) (-1)) := by
  have hst : st ∈ staged gpu := hl.mem_iff.2 mem_cons_self
  have hidx := (h.entry gpu st hst).2.2
  have hnodup : ((st :: l).map (·.token)).Nodup := (hl.map _).nodup_iff.1 (h.nodup gpu)
  rw [map_cons, nodup_cons] at hnodup
  have hmem : ∀ g st', st' ∈ update staged gpu l g → st' ∈ staged g ∧ st'.token ≠ st.token := by
    intro g st' hst'
    by_cases hg : g = gpu
    · subst hg
      rw [update_self] at hst'
      refine ⟨hl.mem_iff.2 (mem_cons_of_mem _ hst'), fun heq => hnodup.1 ?_⟩
      exact mem_map.2 ⟨st', hst', heq⟩
    · rw [update_of_ne hg] at hst'
      refine ⟨hst', fun heq => hg ?_⟩
      -- the index knows one queue only for each token
      have := (h.entry g st' hst').2.2
      rw [heq, hidx, Option.some.injEq] at this
      exact this.symm
  refine ⟨?_, ?_, ?_, ?_⟩
  · intro g st' hst'
    obtain ⟨hold, hne⟩ := hmem g st' hst'
    obtain ⟨h1, h2, h3⟩ := h.entry g st' hold
    exact ⟨h1, h2, Map.lookup_erase_iff.2 ⟨hne, h3⟩⟩
  · intro t g ht
    obtain ⟨hne, hold⟩ := Map.lookup_erase_iff.1 ht
    obtain ⟨st', hst', rfl⟩ := h.indexed t g hold
    refine ⟨st', ?_, rfl⟩
    by_cases hg : g = gpu
    · subst hg
      rw [update_self]
      rcases mem_cons.1 (hl.mem_iff.1 hst') with rfl | hl'
      · exact absurd rfl hne
      · exact hl'
    · rwa [update_of_ne hg]
  · intro g
    by_cases hg : g = gpu
    · subst hg
      rw [update_self]
      exact hnodup.2
    · rw [update_of_ne hg]
      exact h.nodup g
  · intro g b
    rw [bumpBin_apply, h.bins g b]
    by_cases hg : g = gpu
    · subst hg
      rw [hl.countP_eq]
      by_cases hb : b = binFor opts st.priority
      · simp [hb]
      · simp [hb, Ne.symm hb]
    · simp [hg]

end

/-! ### Raising a priority -/

theorem raisePriority_token (token : ℕ) (priority : P) (st : StagedTransfer K P) :
    (raisePriority token priority st).token = st.token := by
  unfold raisePriority
  split <;> rfl

theorem raisePriority_gpuIdx (token : ℕ) (priority : P) (st : StagedTransfer K P) :
    (raisePriority token priority st).gpuIdx = st.gpuIdx := by
  unfold raisePriority
  split <;> rfl

theorem raisePriority_inFlightKey (token : ℕ) (priority : P) (st : StagedTransfer K P) :
    (raisePriority token priority st).inFlightKey = st.inFlightKey := by
  unfold raisePriority
  split <;> rfl

theorem liveStaged_raise {token : ℕ} {priority : P}
    (hl : l.Perm ((staged gpu).map (raisePriority token priority))) (k : InFlightKey K) (t : ℕ) :
    LiveStaged (update staged gpu l) k t ↔ LiveStaged staged k t := by
  unfold LiveStaged
  by_cases hg : k.gpuIdx = gpu
  · rw [hg, update_self]
    constructor
    · rintro ⟨st, hst, htok, hkey⟩
      obtain ⟨st', hst', rfl⟩ := mem_map.1 (hl.mem_iff.1 hst)
      rw [raisePriority_token] at htok
      rw [raisePriority_inFlightKey] at hkey
      exact ⟨st', hst', htok, hkey⟩
    · rintro ⟨st, hst, htok, hkey⟩
      refine ⟨raisePriority token priority st, hl.mem_iff.2 (mem_map_of_mem hst), ?_, ?_⟩
      · rw [raisePriority_token, htok]
      · rw [raisePriority_inFlightKey, hkey]
  · rw [update_of_ne hg]

theorem raiseBins_apply (gpu token : ℕ) (priority : P) (l : List (StagedTransfer K P)) :
    ∀ (counts : ℕ → ℕ → ℤ) (g b : ℕ),
      (l.filter fun st => st.token = token ∧ st.priority < priority).foldl (fun counts st =>
          bumpBin (bumpBin counts gpu (binFor opts st.priority) (-1)) gpu
            (binFor opts priority) 1) counts g b =
        counts g b + if g = gpu then
          ((l.map (raisePriority token priority)).countP fun st => binFor opts st.priority = b : ℤ) -
            (l.countP fun st => binFor opts st.priority = b) else 0 := by
  induction l with
  | nil => simp
  | cons st l ih =>
    intro counts g b
    by_cases hraise : st.token = token ∧ st.priority < priority
    · have hst : (raisePriority token priority st).priority = priority := by
        simp [raisePriority, hraise]
      rw [filter_cons_of_pos (by simpa using hraise), foldl_cons, ih, bumpBin_apply,
        bumpBin_apply, map_cons, countP_cons, countP_cons, hst]
      by_cases hg : g = gpu
      · simp only [decide_eq_true_eq]
        split_ifs <;> omega
      · simp [hg]
    · have hst : raisePriority token priority st = st := by
        simp [raisePriority, hraise]
      rw [filter_cons_of_neg (by simpa using hraise), ih, map_cons, countP_cons, countP_cons, hst]
      by_cases hg : g = gpu
      · omega
      · simp [hg]

theorem StagedInv.raise (h : StagedInv opts staged index counts) (token : ℕ) (priority : P)
    {order : List (StagedTransfer K P)} (horder : order.Perm (staged gpu))
    (hl : l.Perm (order.map (raisePriority token priority))) :
    StagedInv opts (update staged gpu l) index
      ((order.filter fun st => st.token = token ∧ st.priority < priority).foldl (fun counts st =>
          bumpBin (bumpBin counts gpu (binFor opts st.priority) (-1)) gpu
            (binFor opts priority) 1) counts) := by
  have hperm : l.Perm ((staged gpu).map (raisePriority token priority)) :=
    hl.trans (horder.map _)
  refine ⟨?_, ?_, ?_, ?_⟩
  · intro g st hst
    by_cases hg : g = gpu
    · subst hg
      rw [update_self, hperm.mem_iff] at hst
      obtain ⟨st', hst', rfl⟩ := mem_map.1 hst
      rw [raisePriority_gpuIdx, raisePriority_token]
      exact h.entry g st' hst'
    · rw [update_of_ne hg] at hst
      exact h.entry g st hst
  · intro t g ht
    obtain ⟨st, hst, rfl⟩ := h.indexed t g ht
    by_cases hg : g = gpu
    · subst hg
      refine ⟨raisePriority token priority st, ?_, raisePriority_token _ _ _⟩
      rw [update_self, hperm.mem_iff]
      exact mem_map_of_mem hst
    · rw [update_of_ne hg]
      exact ⟨st, hst, rfl⟩
  · intro g
    by_cases hg : g = gpu
    · subst hg
      rw [update_self, (hperm.map _).nodup_iff, map_map]
      have htok : ((·.token) ∘ raisePriority token priority : StagedTransfer K P → ℕ) = (·.token) :=
        funext fun st => raisePriority_token token priority st
      rw [htok]
      exact h.nodup g
    · rw [update_of_ne hg]
      exact h.nodup g
  · intro g b
    rw [raiseBins_apply, h.bins g b]
    by_cases hg : g = gpu
    · subst hg
      rw [update_self, hl.countP_eq, horder.countP_eq]
      simp
    · simp [hg]

end LayerStorm.Transfer
