import LayerStorm.GpuLoader.EvictScoreBoard

/-!
# The invariant of the eviction-score board

The invariant has two parts.  The *structure* (`BoardOk`) says that slots, keys,
heaps and the index over all GPUs fit together, and that each heap is ordered by the
effective scores as they are stored; it holds at every point of an operation.  The
*ranking* (`Ranked`) says of one expert that its copies are in their heaps with the
effective scores their ranks give; a change to a copy breaks it for that expert
alone, and `rerankExpert` restores it.
-/

namespace LayerStorm.GpuLoader

open EvictScoreBoard List Function PerGpu

set_option linter.unusedSectionVars false

open Lib Memory

variable {K R : Type} [DecidableEq K] [Score R]

/-! ### The comparisons -/

theorem PerGpu.strictWeak_heapLess (eff : ℕ → R) : StrictWeak (heapLess eff) := by
  refine StrictWeak.lex eff id fun a b => ?_
  unfold heapLess
  by_cases h : eff a = eff b
  · simp [h]
  · simp [h]

theorem EvictScoreBoard.strictWeak_ahead (b : EvictScoreBoard K R) : StrictWeak b.ahead := by
  refine StrictWeak.lex (fun e => OrderDual.toDual (b.rawAt e)) EntryRef.gpu fun a c => ?_
  unfold ahead
  by_cases h : b.rawAt a = b.rawAt c
  · simp [h]
  · simp [h]

theorem EvictScoreBoard.ahead_of_not {b : EvictScoreBoard K R} {a c : EntryRef}
    (hne : a.gpu ≠ c.gpu) (h : b.ahead c a = false) : b.ahead a c = true := by
  unfold ahead at h ⊢
  by_cases heq : b.rawAt a = b.rawAt c
  · simp only [heq, ne_eq, not_true_eq_false, if_false, decide_eq_false_iff_not] at h ⊢
    exact decide_eq_true (by omega)
  · have heq' : b.rawAt c ≠ b.rawAt a := fun he => heq he.symm
    simp only [heq, heq', ne_eq, not_false_eq_true, if_true, decide_eq_false_iff_not] at h ⊢
    exact decide_eq_true (lt_of_le_of_ne (not_lt.1 h) heq')

/-! ### The structure -/

structure SlotsOk (pg : PerGpu K R) : Prop where
  key : ∀ k s, pg.keyToSlot.lookup k = some s → pg.key s = some k
  lt : ∀ k s, pg.keyToSlot.lookup k = some s → s < pg.size
  notFree : ∀ k s, pg.keyToSlot.lookup k = some s → s ∉ pg.freeSlots
  freeLt : ∀ s ∈ pg.freeSlots, s < pg.size
  freeNodup : pg.freeSlots.Nodup
  inHeap : ∀ s, (pg.heap.pos s).isSome = true → ∃ k, pg.keyToSlot.lookup k = some s
  /-- The heap is one for the stored scores. -/
  heap : IndexedHeap.Valid (PerGpu.heapLess pg.eff) pg.heap

/-- **The structure of the board.** -/
structure BoardOk (b : EvictScoreBoard K R) : Prop where
  slots : ∀ g, SlotsOk (b.gpus g)
  /-- The index lists the copies there are. -/
  refs : ∀ k e, e ∈ b.refs k ↔ (b.gpus e.gpu).keyToSlot.lookup k = some e.slot
  nodup : ∀ k, (b.refs k).Nodup

/-- **The copies of an expert are scored by their ranks.** -/
def Ranked (b : EvictScoreBoard K R) (k : K) : Prop :=
  ∀ e ∈ b.refs k, ((b.gpus e.gpu).heap.pos e.slot).isSome = true ∧
    (b.gpus e.gpu).eff e.slot = EvictScoreBoard.penalised (b.rawAt e)
      ((b.refs k).countP fun a => b.ahead a e) b.baseScore

/-- **The invariant of the board.** -/
structure BoardInv (b : EvictScoreBoard K R) : Prop where
  ok : BoardOk b
  ranked : ∀ k, Ranked b k

variable {b b' : EvictScoreBoard K R} {pg : PerGpu K R} {g s : ℕ} {k k' : K} {v : R}

theorem SlotsOk.slot_inj (h : SlotsOk pg) (hk : pg.keyToSlot.lookup k = some s)
    (hk' : pg.keyToSlot.lookup k' = some s) : k = k' :=
  Option.some.inj ((h.key k s hk).symm.trans (h.key k' s hk'))

theorem BoardOk.gpus_nodup (h : BoardOk b) (k : K) : ((b.refs k).map (·.gpu)).Nodup := by
  refine List.Nodup.map_on ?_ (h.nodup k)
  rintro ⟨ga, sa⟩ ha ⟨gc, sc⟩ hc hg
  obtain rfl : ga = gc := hg
  have hs : some sa = some sc := ((h.refs k _).1 ha).symm.trans ((h.refs k _).1 hc)
  rw [Option.some.inj hs]

variable {e : EntryRef}

theorem BoardOk.refs_disjoint (h : BoardOk b) (hk : e ∈ b.refs k) (hk' : e ∈ b.refs k') : k = k' :=
  (h.slots e.gpu).slot_inj ((h.refs k e).1 hk) ((h.refs k' e).1 hk')

theorem slotsOk_empty : SlotsOk (PerGpu.empty : PerGpu K R) where
  key := by simp [PerGpu.empty]
  lt := by simp [PerGpu.empty]
  notFree := by simp [PerGpu.empty]
  freeLt := by simp [PerGpu.empty]
  freeNodup := nodup_nil
  inHeap := by simp [PerGpu.empty, IndexedHeap.empty]
  heap := IndexedHeap.valid_empty _ _

theorem BoardInv.init (numGpus : ℕ) (baseScore : R) :
    BoardInv (EvictScoreBoard.init numGpus baseScore : EvictScoreBoard K R) where
  ok :=
    { slots := fun _ => slotsOk_empty
      refs := by simp [EvictScoreBoard.init, EvictScoreBoard.refs, PerGpu.empty]
      nodup := by simp [EvictScoreBoard.init, EvictScoreBoard.refs] }
  ranked := by simp [Ranked, EvictScoreBoard.init, EvictScoreBoard.refs]

/-! ### Writing an effective score -/

/-- What `setEff` leaves alone. -/
structure SlotFrame (pg pg' : PerGpu K R) : Prop where
  size : pg'.size = pg.size
  key : pg'.key = pg.key
  raw : pg'.raw = pg.raw
  freeSlots : pg'.freeSlots = pg.freeSlots
  keyToSlot : pg'.keyToSlot = pg.keyToSlot

theorem setEff_frame (pg : PerGpu K R) (s : ℕ) (v : R) : SlotFrame pg (pg.setEff s v) := by
  unfold PerGpu.setEff
  split
  · exact ⟨rfl, rfl, rfl, rfl, rfl⟩
  · split <;> exact ⟨rfl, rfl, rfl, rfl, rfl⟩

theorem setEff_eff (pg : PerGpu K R) (s : ℕ) (v : R) :
    (pg.setEff s v).eff = Function.update pg.eff s v := by
  unfold PerGpu.setEff
  split
  · rfl
  rename_i heq
  rw [not_not] at heq
  have hself : Function.update pg.eff s v = pg.eff := by
    rw [← heq, update_eq_self]
  rw [hself]
  split <;> rfl

theorem setEff_valid (h : IndexedHeap.Valid (PerGpu.heapLess pg.eff) pg.heap) (s : ℕ) (v : R) :
    IndexedHeap.Valid (PerGpu.heapLess (pg.setEff s v).eff) (pg.setEff s v).heap := by
  have hw := PerGpu.strictWeak_heapLess (pg.eff)
  unfold setEff
  split
  · refine h.update hw (strictWeak_heapLess _) fun a c ha hc => ?_
    simp only [heapLess, heapUpdate, update_of_ne ha, update_of_ne hc]
  · split
    · exact h.update hw hw fun _ _ _ _ => rfl
    · exact h

theorem setEff_isSome (h : IndexedHeap.Valid (PerGpu.heapLess pg.eff) pg.heap) (s : ℕ) (v : R)
    (y : ℕ) : ((pg.setEff s v).heap.pos y).isSome = true ↔
      y = s ∨ (pg.heap.pos y).isSome = true := by
  unfold PerGpu.setEff
  split
  · exact IndexedHeap.update_isSome (strictWeak_heapLess _) h.indexed y
  split
  · exact IndexedHeap.update_isSome (strictWeak_heapLess _) h.indexed y
  rename_i hpos
  constructor
  · exact .inr
  · rintro (rfl | hy)
    · exact Option.isSome_iff_ne_none.2 hpos
    · exact hy

theorem SlotsOk.setEff (h : SlotsOk pg) (hk : pg.keyToSlot.lookup k = some s) (v : R) :
    SlotsOk (pg.setEff s v) := by
  have hf := setEff_frame pg s v
  refine ⟨?_, ?_, ?_, ?_, ?_, ?_, setEff_valid h.heap s v⟩
  · rw [hf.keyToSlot, hf.key]
    exact h.key
  · rw [hf.keyToSlot, hf.size]
    exact h.lt
  · rw [hf.keyToSlot, hf.freeSlots]
    exact h.notFree
  · rw [hf.freeSlots, hf.size]
    exact h.freeLt
  · rw [hf.freeSlots]
    exact h.freeNodup
  · intro y hy
    rw [hf.keyToSlot]
    rcases (setEff_isSome h.heap s v y).1 hy with rfl | hy
    · exact ⟨k, hk⟩
    · exact h.inHeap y hy

/-! ### The cascade -/

/-- What a change of scores leaves alone: everything but the effective scores and the
heaps. -/
structure ScoreFrame (b b' : EvictScoreBoard K R) : Prop where
  numGpus : b'.numGpus = b.numGpus
  experts : b'.experts = b.experts
  baseScore : b'.baseScore = b.baseScore
  recencyClock : b'.recencyClock = b.recencyClock
  slots : ∀ g, SlotFrame (b.gpus g) (b'.gpus g)

theorem ScoreFrame.refl (b : EvictScoreBoard K R) : ScoreFrame b b :=
  ⟨rfl, rfl, rfl, rfl, fun _ => ⟨rfl, rfl, rfl, rfl, rfl⟩⟩

section

variable (h : ScoreFrame b b')
include h

theorem ScoreFrame.trans {b'' : EvictScoreBoard K R} (h' : ScoreFrame b' b'') :
    ScoreFrame b b'' where
  numGpus := h'.numGpus.trans h.numGpus
  experts := h'.experts.trans h.experts
  baseScore := h'.baseScore.trans h.baseScore
  recencyClock := h'.recencyClock.trans h.recencyClock
  slots := fun g =>
    { size := (h'.slots g).size.trans (h.slots g).size
      key := (h'.slots g).key.trans (h.slots g).key
      raw := (h'.slots g).raw.trans (h.slots g).raw
      freeSlots := (h'.slots g).freeSlots.trans (h.slots g).freeSlots
      keyToSlot := (h'.slots g).keyToSlot.trans (h.slots g).keyToSlot }

theorem ScoreFrame.refs (k : K) : b'.refs k = b.refs k := by
  unfold EvictScoreBoard.refs
  rw [h.experts]

theorem ScoreFrame.rawAt (e : EntryRef) : b'.rawAt e = b.rawAt e := by
  unfold EvictScoreBoard.rawAt
  rw [(h.slots e.gpu).raw]

theorem ScoreFrame.ahead : b'.ahead = b.ahead := by
  funext a c
  unfold EvictScoreBoard.ahead
  rw [h.rawAt, h.rawAt]

end

/-- The effective score of a copy, and whether it is in its heap. -/
def copyState (b : EvictScoreBoard K R) (e : EntryRef) : R × Bool :=
  ((b.gpus e.gpu).eff e.slot, ((b.gpus e.gpu).heap.pos e.slot).isSome)

theorem rerankCopy_frame (b : EvictScoreBoard K R) (c : EntryRef × ℕ) :
    ScoreFrame b (b.rerankCopy c) := by
  refine ⟨rfl, rfl, rfl, rfl, fun g => ?_⟩
  unfold EvictScoreBoard.rerankCopy EvictScoreBoard.setGpu
  by_cases hg : g = c.1.gpu
  · subst hg
    simp only [update_self]
    exact setEff_frame _ _ _
  · simp only [update_of_ne hg]
    exact ⟨rfl, rfl, rfl, rfl, rfl⟩

theorem copyState_rerankCopy (h : BoardOk b) (c : EntryRef × ℕ) (e : EntryRef) :
    copyState (b.rerankCopy c) e =
      if e = c.1 then (EvictScoreBoard.penalised (b.rawAt e) c.2 b.baseScore, true)
      else copyState b e := by
  obtain ⟨⟨g, s⟩, r⟩ := c
  obtain ⟨g', s'⟩ := e
  unfold copyState EvictScoreBoard.rerankCopy EvictScoreBoard.setGpu
  by_cases hg : g' = g
  · subst hg
    have hsome := setEff_isSome (h.slots g').heap s
      (EvictScoreBoard.penalised (b.rawAt ⟨g', s⟩) r b.baseScore) s'
    simp only [update_self, setEff_eff, EntryRef.mk.injEq]
    by_cases hs : s' = s
    · subst hs
      simp only [update_self, if_true, Prod.mk.injEq, true_and]
      exact hsome.2 (.inl rfl)
    · simp only [hs, if_false, Prod.mk.injEq, true_and]
      rw [Bool.eq_iff_iff, hsome]
      simp [hs]
  · simp [hg]

theorem BoardOk.rerankCopy (h : BoardOk b) (he : e ∈ b.refs k) (r : ℕ) :
    BoardOk (b.rerankCopy (e, r)) := by
  have hf := rerankCopy_frame b (e, r)
  refine ⟨?_, ?_, ?_⟩
  · intro g
    unfold EvictScoreBoard.rerankCopy EvictScoreBoard.setGpu
    by_cases hg : g = e.gpu
    · subst hg
      simp only [update_self]
      exact (h.slots e.gpu).setEff ((h.refs k e).1 he) _
    · simp only [update_of_ne hg]
      exact h.slots g
  · intro k' e'
    rw [(hf.slots e'.gpu).keyToSlot]
    exact h.refs k' e'
  · intro k'
    exact h.nodup k'

theorem rerankCopies (k : K) : ∀ (l : List (EntryRef × ℕ)) {b : EvictScoreBoard K R},
    BoardOk b → (∀ c ∈ l, c.1 ∈ b.refs k) → (l.map (·.1)).Nodup →
      let b' := l.foldl EvictScoreBoard.rerankCopy b
      ScoreFrame b b' ∧ BoardOk b' ∧ (∀ c ∈ l, copyState b' c.1 =
          (EvictScoreBoard.penalised (b.rawAt c.1) c.2 b.baseScore, true)) ∧
        ∀ e, (∀ c ∈ l, c.1 ≠ e) → copyState b' e = copyState b e := by
  intro l
  induction l with
  | nil =>
    intro b h _ _
    exact ⟨ScoreFrame.refl b, h, by simp, fun _ _ => rfl⟩
  | cons c l ih =>
    intro b h hmem hnd
    rw [map_cons, nodup_cons] at hnd
    have hf := rerankCopy_frame b c
    have hok : BoardOk (b.rerankCopy c) := h.rerankCopy (hmem c mem_cons_self) c.2
    have hrest : ∀ d ∈ l, d.1 ∈ (b.rerankCopy c).refs k := by
      intro d hd
      exact hmem d (mem_cons_of_mem _ hd)
    obtain ⟨hf', hok', hin, hout⟩ := ih hok hrest hnd.2
    have hfirst : ∀ d ∈ l, d.1 ≠ c.1 := by
      intro d hd heq
      exact hnd.1 (heq ▸ mem_map_of_mem hd)
    refine ⟨hf.trans hf', hok', ?_, ?_⟩
    · intro d hd
      rcases mem_cons.1 hd with rfl | hd
      · rw [foldl_cons, hout d.1 hfirst, copyState_rerankCopy h, if_pos rfl]
      · rw [foldl_cons, hin d hd, hf.rawAt, hf.baseScore]
    · intro e he
      rw [foldl_cons, hout e fun d hd => he d (mem_cons_of_mem _ hd),
        copyState_rerankCopy h, if_neg fun heq => he c mem_cons_self heq.symm]

theorem mem_rankOrder {l : List EntryRef} : e ∈ b.rankOrder l ↔ e ∈ l :=
  (perm_insertionSort _ l).mem_iff

theorem rank_eq (h : BoardOk b) {r : ℕ} (he : (b.rankOrder (b.refs k))[r]? = some e) :
    r = (b.refs k).countP fun a => b.ahead a e := by
  have hw := b.strictWeak_ahead
  have hperm := perm_insertionSort (fun a c => b.ahead c a = false) (b.refs k)
  have hnd : ((b.rankOrder (b.refs k)).map (·.gpu)).Nodup :=
    (hperm.map _).nodup_iff.2 (h.gpus_nodup k)
  have : Std.Total fun a c => b.ahead c a = false := by
    refine ⟨fun a c => ?_⟩
    cases hca : b.ahead c a with
    | false => exact .inl rfl
    | true => exact .inr (hw.asymm c a hca)
  have : IsTrans EntryRef fun a c => b.ahead c a = false :=
    ⟨fun a c d hac hcd => hw.negTrans a c d hac hcd⟩
  have hsorted : (b.rankOrder (b.refs k)).Pairwise fun a c => b.ahead c a = false :=
    pairwise_insertionSort _ _
  -- distinct GPUs make the order strict
  have hstrict : (b.rankOrder (b.refs k)).Pairwise fun a c => b.ahead a c = true := by
    have hgpu := pairwise_map.1 hnd
    exact (hsorted.and hgpu).imp fun hac => EvictScoreBoard.ahead_of_not hac.2 hac.1
  rw [← hw.countP_sorted hstrict he]
  exact hperm.countP_eq _

theorem Ranked.of_same (hk : Ranked b k) (hrefs : b'.refs k = b.refs k)
    (hbase : b'.baseScore = b.baseScore)
    (hcopy : ∀ e ∈ b.refs k, copyState b' e = copyState b e ∧ b'.rawAt e = b.rawAt e) :
    Ranked b' k := by
  intro e he
  rw [hrefs] at he ⊢
  obtain ⟨hstate, hraw⟩ := hcopy e he
  have hahead : (b.refs k).countP (fun a => b'.ahead a e) =
      (b.refs k).countP (fun a => b.ahead a e) := by
    refine countP_congr fun a ha => ?_
    unfold EvictScoreBoard.ahead
    rw [hraw, (hcopy a ha).2]
  have heff := congrArg Prod.fst hstate
  have hpos := congrArg Prod.snd hstate
  simp only [copyState] at heff hpos
  rw [hraw, hbase, hahead, heff, hpos]
  exact hk e he

section

variable (h : BoardOk b)
include h

theorem rerankExpert_spec (k : K) :
    ScoreFrame b (b.rerankExpert k) ∧ BoardOk (b.rerankExpert k) ∧ Ranked (b.rerankExpert k) k ∧
      ∀ e, e ∉ b.refs k → copyState (b.rerankExpert k) e = copyState b e := by
  unfold EvictScoreBoard.rerankExpert
  cases hl : b.experts.lookup k with
  | none =>
    have hnil : b.refs k = [] := by simp [EvictScoreBoard.refs, hl]
    refine ⟨ScoreFrame.refl b, h, ?_, fun _ _ => rfl⟩
    intro e he
    simp [hnil] at he
  | some refs =>
    have hrefs : b.refs k = refs := by simp [EvictScoreBoard.refs, hl]
    subst hrefs
    have hmem : ∀ c ∈ (b.rankOrder (b.refs k)).zipIdx, c.1 ∈ b.refs k := fun c hc =>
      mem_rankOrder.1 (fst_mem_of_mem_zipIdx hc)
    have hnd : ((b.rankOrder (b.refs k)).zipIdx.map (·.1)).Nodup := by
      rw [zipIdx_map_fst]
      exact (perm_insertionSort _ _).nodup_iff.2 (h.nodup k)
    obtain ⟨hf, hok, hin, hout⟩ := rerankCopies k _ h hmem hnd
    refine ⟨hf, hok, ?_, ?_⟩
    · intro e he
      rw [hf.refs] at he ⊢
      obtain ⟨r, hr⟩ := mem_iff_getElem?.mp ((mem_rankOrder (b := b)).2 he)
      have hstate := hin (e, r) (mem_zipIdx_iff_getElem?.mpr hr)
      rw [hf.rawAt, hf.baseScore, hf.ahead, ← rank_eq h hr]
      exact ⟨congrArg Prod.snd hstate, congrArg Prod.fst hstate⟩
    · intro e he
      exact hout e fun c hc heq => he (heq ▸ hmem c hc)

theorem BoardOk.rerankExpert (k : K) : BoardOk (b.rerankExpert k) :=
  (rerankExpert_spec h k).2.1

theorem rerankExpert_frame (k : K) : ScoreFrame b (b.rerankExpert k) :=
  (rerankExpert_spec h k).1

theorem ranked_rerankExpert (k : K) : Ranked (b.rerankExpert k) k :=
  (rerankExpert_spec h k).2.2.1

theorem Ranked.rerankExpert (hk : Ranked b k) (k' : K) : Ranked (b.rerankExpert k') k := by
  by_cases hkk : k = k'
  · subst hkk
    exact ranked_rerankExpert h k
  · obtain ⟨hf, _, _, hout⟩ := rerankExpert_spec h k'
    refine hk.of_same (hf.refs k) hf.baseScore fun e he => ⟨?_, hf.rawAt e⟩
    exact hout e fun he' => hkk (h.refs_disjoint he he')

end

theorem rerankAll_spec : ∀ (ks : List K) {b : EvictScoreBoard K R}, BoardOk b →
    ScoreFrame b (b.rerankAll ks) ∧ BoardOk (b.rerankAll ks) ∧
      ∀ k, k ∈ ks ∨ Ranked b k → Ranked (b.rerankAll ks) k := by
  intro ks
  induction ks with
  | nil =>
    intro b h
    exact ⟨ScoreFrame.refl b, h, fun k hk => hk.resolve_left not_mem_nil⟩
  | cons k₀ ks ih =>
    intro b h
    obtain ⟨hf, hok, hranked⟩ := ih (h.rerankExpert k₀)
    refine ⟨(rerankExpert_frame h k₀).trans hf, hok, ?_⟩
    intro k hk
    refine hranked k ?_
    rcases hk with hk | hk
    · rcases mem_cons.1 hk with rfl | hk
      · exact .inr (ranked_rerankExpert h k)
      · exact .inl hk
    · exact .inr (hk.rerankExpert h k₀)

/-! ### The board's own check -/

theorem BoardOk.rankOf (h : BoardOk b) (hk : (b.gpus g).keyToSlot.lookup k = some s) :
    b.rankOf g k = some ((b.refs k).countP fun a => b.ahead a ⟨g, s⟩) := by
  have hmem : (⟨g, s⟩ : EntryRef) ∈ b.refs k := (h.refs k ⟨g, s⟩).2 hk
  unfold EvictScoreBoard.rankOf
  rw [hk]
  cases hl : b.experts.lookup k with
  | none =>
    simp [EvictScoreBoard.refs, hl] at hmem
  | some refs =>
    have hrefs : b.refs k = refs := by simp [EvictScoreBoard.refs, hl]
    subst hrefs
    refine congrArg some (countP_congr fun a ha => ?_)
    rw [Bool.and_eq_true, decide_eq_true_eq]
    constructor
    · exact fun hc => hc.2
    · intro hc
      refine ⟨?_, hc⟩
      intro hg
      -- a copy on the same GPU is the copy itself, and that is not ahead of itself
      have hsame := (h.refs k a).1 ha
      have ha' : a = ⟨g, s⟩ := by
        cases a
        simp_all
      rw [ha', b.strictWeak_ahead.irrefl] at hc
      exact Bool.false_ne_true hc

theorem BoardInv.checkPosition (h : BoardInv b) (g : ℕ) {hi : ℕ} (hhi : hi < (b.gpus g).heap.size) :
    b.checkPosition g hi = true := by
  have hslots := h.ok.slots g
  have hpos : (b.gpus g).heap.pos ((b.gpus g).heap.node hi) = some hi :=
    (hslots.heap.indexed _ _).2 ⟨hhi, rfl⟩
  obtain ⟨k, hk⟩ := hslots.inHeap _ (by rw [hpos]; rfl)
  have hmem : (⟨g, (b.gpus g).heap.node hi⟩ : EntryRef) ∈ b.refs k := (h.ok.refs k _).2 hk
  have hchild : ∀ c, 0 < c → IndexedHeap.parent c = hi →
      (decide (c < (b.gpus g).heap.size) && PerGpu.heapLess (b.gpus g).eff
        ((b.gpus g).heap.node c) ((b.gpus g).heap.node hi)) = false := by
    intro c hc hp
    by_cases hlt : c < (b.gpus g).heap.size
    · have := hslots.heap.ordered c hc hlt
      rw [hp] at this
      rw [this, Bool.and_false]
    · simp [hlt]
  have hleft := hchild (2 * hi + 1) (by omega) ((IndexedHeap.parent_eq_iff (by omega)).2
    (.inl rfl))
  have hright := hchild (2 * hi + 2) (by omega) ((IndexedHeap.parent_eq_iff (by omega)).2
    (.inr rfl))
  have heff := (h.ranked k _ hmem).2
  simp only [EvictScoreBoard.rawAt] at heff
  unfold EvictScoreBoard.checkPosition
  simp only [hpos, hslots.key k _ hk, hk, h.ok.rankOf hk, hleft, hright, contains_eq_mem, hmem,
    Option.any_some, heff, beq_self_eq_true, decide_true, Bool.not_false, Bool.and_self]

/-- **The invariant passes `check_invariant` on every GPU.** -/
theorem BoardInv.checkInvariant (h : BoardInv b) (hg : g < b.numGpus) :
    b.checkInvariant g = true := by
  have hslots := h.ok.slots g
  have hin : ∀ k s, (b.gpus g).keyToSlot.lookup k = some s →
      ((b.gpus g).heap.pos s).isSome = true := fun k s hk =>
    (h.ranked k ⟨g, s⟩ ((h.ok.refs k _).2 hk)).1
  -- the slots of the residents are distinct, and they are the slots in the heap
  have hnd : ((b.gpus g).keyToSlot.entries.map (·.2)).Nodup := by
    refine List.Nodup.map_on ?_ ((b.gpus g).keyToSlot.nodupKeys.nodup)
    rintro ⟨k, s⟩ hk ⟨k', s'⟩ hk' hs
    obtain rfl : s = s' := hs
    rw [hslots.slot_inj (AList.mem_lookup_iff.2 hk) (AList.mem_lookup_iff.2 hk')]
  have hsize : (b.gpus g).heap.size = (b.gpus g).keyToSlot.entries.length := by
    have := hslots.heap.indexed.size_eq_length hnd fun s => by
      constructor
      · intro hs
        obtain ⟨⟨k, s'⟩, hk, rfl⟩ := mem_map.1 hs
        exact hin k s' (AList.mem_lookup_iff.2 hk)
      · intro hs
        obtain ⟨k, hk⟩ := hslots.inHeap s hs
        exact mem_map.2 ⟨⟨k, s⟩, AList.mem_lookup_iff.1 hk, rfl⟩
    rwa [length_map] at this
  have hall : ((range (b.gpus g).heap.size).all (b.checkPosition g)) = true := by
    rw [all_eq_true]
    intro hi hhi
    exact h.checkPosition g (mem_range.1 hhi)
  have hslot : ((b.gpus g).keyToSlot.entries.all fun e =>
      ((b.gpus g).heap.pos e.2).isSome) = true := by
    rw [all_eq_true]
    rintro ⟨k, s⟩ hk
    exact hin k s (AList.mem_lookup_iff.2 hk)
  unfold EvictScoreBoard.checkInvariant
  simp only [hg, hsize, hslot, beq_self_eq_true, Bool.and_true]
  rw [← hsize]
  exact hall

end LayerStorm.GpuLoader
