import LayerStorm.GpuLoader.BoardInvariant

/-!
# The mutators of the eviction-score board

Each mutator changes entries first, which breaks the ranking of the experts it
touches and nothing else, and then ranks these experts again.  So each lemma here
says what a change does to the structure, to the set of residents and to the ranking
of the experts it does not touch; the mutators follow from `rerankAll_spec`.
-/

namespace LayerStorm.GpuLoader

open Function EvictScoreBoard List PerGpu

set_option linter.unusedSectionVars false

open Lib Memory

variable {K R : Type} [DecidableEq K] [Score R]
variable {b b' : EvictScoreBoard K R} {pg : PerGpu K R} {g s : ℕ} {k k' : K} {v : R}

/-! ### Changing scores -/

structure SameResidents (b b' : EvictScoreBoard K R) : Prop where
  numGpus : b'.numGpus = b.numGpus
  keyToSlot : ∀ g, (b'.gpus g).keyToSlot = (b.gpus g).keyToSlot

variable {b'' : EvictScoreBoard K R}

theorem SameResidents.trans (h : SameResidents b b') (h' : SameResidents b' b'') :
    SameResidents b b'' :=
  ⟨h'.numGpus.trans h.numGpus, fun g => (h'.keyToSlot g).trans (h.keyToSlot g)⟩

theorem ScoreFrame.sameResidents (h : ScoreFrame b b') : SameResidents b b' :=
  ⟨h.numGpus, fun g => (h.slots g).keyToSlot⟩

/-- Only raw scores have changed, and for experts outside `S` not even these. -/
structure Rescored (S : K → Prop) (b b' : EvictScoreBoard K R) : Prop where
  numGpus : b'.numGpus = b.numGpus
  experts : b'.experts = b.experts
  gpus : ∀ g, ∃ raw, b'.gpus g = { b.gpus g with raw := raw }
  base : ∀ k, ¬ S k → b'.baseScore = b.baseScore
  raw : ∀ k, ¬ S k → ∀ e ∈ b.refs k, b'.rawAt e = b.rawAt e

variable {S : K → Prop}

theorem Rescored.refl (S : K → Prop) (b : EvictScoreBoard K R) : Rescored S b b :=
  ⟨rfl, rfl, fun g => ⟨(b.gpus g).raw, rfl⟩, fun _ _ => rfl, fun _ _ _ _ => rfl⟩

section

variable (h : Rescored S b b')
include h

theorem Rescored.refs (k : K) : b'.refs k = b.refs k := by
  unfold EvictScoreBoard.refs
  rw [h.experts]

theorem Rescored.trans (h' : Rescored S b' b'') : Rescored S b b'' := by
  refine ⟨h'.numGpus.trans h.numGpus, h'.experts.trans h.experts, ?_, ?_, ?_⟩
  · intro g
    obtain ⟨raw, hraw⟩ := h.gpus g
    obtain ⟨raw', hraw'⟩ := h'.gpus g
    exact ⟨raw', by rw [hraw', hraw]⟩
  · exact fun k hk => (h'.base k hk).trans (h.base k hk)
  · intro k hk e he
    rw [h'.raw k hk e (by rwa [h.refs]), h.raw k hk e he]

theorem Rescored.mono {S' : K → Prop} (hS : ∀ k, S k → S' k) : Rescored S' b b' :=
  ⟨h.numGpus, h.experts, h.gpus, fun k hk => h.base k fun hS' => hk (hS k hS'),
    fun k hk => h.raw k fun hS' => hk (hS k hS')⟩

theorem Rescored.sameResidents : SameResidents b b' := by
  refine ⟨h.numGpus, fun g => ?_⟩
  obtain ⟨raw, hraw⟩ := h.gpus g
  rw [hraw]

theorem Rescored.copyState (e : EntryRef) : copyState b' e = copyState b e := by
  obtain ⟨raw, hraw⟩ := h.gpus e.gpu
  unfold GpuLoader.copyState
  rw [hraw]

theorem Rescored.ok (hb : BoardOk b) : BoardOk b' := by
  refine ⟨?_, ?_, ?_⟩
  · intro g
    obtain ⟨raw, hraw⟩ := h.gpus g
    have hs := hb.slots g
    rw [hraw]
    exact { hs with }
  · intro k e
    rw [h.refs, h.sameResidents.keyToSlot]
    exact hb.refs k e
  · intro k
    rw [h.refs]
    exact hb.nodup k

theorem Rescored.ranked (hk : ¬ S k) (hr : Ranked b k) : Ranked b' k :=
  hr.of_same (h.refs k) (h.base k hk) fun e he => ⟨h.copyState e, h.raw k hk e he⟩

end

theorem BoardInv.rescore (h : BoardInv b) (hr : Rescored S b b') (ks : List K)
    (hS : ∀ k, S k → k ∈ ks ∨ b.refs k = []) :
    BoardInv (b'.rerankAll ks) ∧ SameResidents b (b'.rerankAll ks) := by
  obtain ⟨hf, hok, hranked⟩ := rerankAll_spec ks (hr.ok h.ok)
  refine ⟨⟨hok, fun k => hranked k ?_⟩, hr.sameResidents.trans hf.sameResidents⟩
  by_cases hk : S k
  · refine (hS k hk).imp id fun hnil => ?_
    intro e he
    rw [hr.refs, hnil] at he
    exact absurd he not_mem_nil
  · exact .inr (hr.ranked hk (h.ranked k))

theorem rescored_setRaw (h : BoardOk b) {e : EntryRef} (he : e ∈ b.refs k) (v : R) :
    Rescored (· = k) b (b.setGpu e.gpu ((b.gpus e.gpu).setRaw e.slot v)) := by
  refine ⟨rfl, rfl, ?_, fun _ _ => rfl, ?_⟩
  · intro g
    by_cases hg : g = e.gpu
    · subst hg
      exact ⟨_, update_self ..⟩
    · exact ⟨(b.gpus g).raw, update_of_ne hg ..⟩
  · intro k' hk' e' he'
    unfold rawAt setGpu setRaw
    by_cases hg : e'.gpu = e.gpu
    · have hs : e'.slot ≠ e.slot := by
        intro hs
        have heq : e' = e := by
          cases e
          cases e'
          simp_all
        exact hk' (h.refs_disjoint (heq ▸ he') he)
      simp only [hg, update_self, update_of_ne hs]
    · simp only [update_of_ne hg]

theorem rescored_setRawExisting (h : BoardOk b) (g : ℕ) (k : K) (v : R) :
    Rescored (· = k) b (b.setRawExisting g k v) := by
  unfold setRawExisting
  split
  · rename_i slot hk
    exact rescored_setRaw h (e := ⟨g, slot⟩) ((h.refs k _).2 hk) v
  · exact Rescored.refl _ b

theorem rescored_foldl {α : Type} {f : EvictScoreBoard K R → α → EvictScoreBoard K R}
    {S : K → Prop} : ∀ (l : List α) {b : EvictScoreBoard K R}, BoardOk b →
      (∀ c a, a ∈ l → BoardOk c → Rescored S b c → Rescored S c (f c a)) →
      Rescored S b (l.foldl f b) := by
  intro l
  induction l with
  | nil =>
    intro b _ _
    exact Rescored.refl S b
  | cons a l ih =>
    intro b hb hf
    have hfirst := hf b a mem_cons_self hb (Rescored.refl S b)
    refine hfirst.trans (ih (hfirst.ok hb) ?_)
    intro c a' ha' hc hbc
    exact hf c a' (mem_cons_of_mem _ ha') hc (hfirst.trans hbc)

/-! ### The score feeds -/

theorem BoardInv.touchExisting (h : BoardInv b) (g : ℕ) (k : K) :
    BoardInv (b.touchExisting g k) ∧ SameResidents b (b.touchExisting g k) := by
  unfold EvictScoreBoard.touchExisting
  split
  · have hr := rescored_setRawExisting h.ok g k b.recencyClock
    exact h.rescore hr [k] fun k' hk' => .inl (by simp [hk'])
  · exact ⟨h, (ScoreFrame.refl b).sameResidents⟩

theorem BoardInv.updateExistingOnly (h : BoardInv b)
    (ups : List (EvictScoreBoard.ScoreUpdate K R)) :
    BoardInv (b.updateExistingOnly ups) ∧ SameResidents b (b.updateExistingOnly ups) := by
  unfold EvictScoreBoard.updateExistingOnly
  generalize ups.filter _ = present
  refine h.rescore (S := fun k => k ∈ present.map (·.key)) ?_ _ fun k hk =>
    .inl (mem_dedup.2 hk)
  refine rescored_foldl present h.ok fun c u hu hc _ => ?_
  refine (rescored_setRawExisting hc u.gpu u.key u.score).mono ?_
  rintro k rfl
  exact mem_map_of_mem hu

theorem rerankExpert_single {r : EntryRef} (hl : b.experts.lookup k = some [r]) :
    b.rerankExpert k = b.rerankCopy (r, 0) := by
  unfold rerankExpert
  rw [hl]
  rfl

theorem touchExistingAll_eq (b : EvictScoreBoard K R) (k : K) (rawBonus : R) :
    b.touchExistingAll k rawBonus = ((b.refs k).foldl (fun c r => c.setGpu r.gpu
        ((c.gpus r.gpu).setRaw r.slot (b.recencyClock + rawBonus))) b).rerankExpert k := by
  unfold touchExistingAll refs
  cases hl : b.experts.lookup k with
  | none => simp [rerankExpert, hl]
  | some refs =>
    cases refs with
    | nil => rfl
    | cons r rest =>
      cases rest with
      | nil =>
        simp only [Option.getD_some, foldl_cons, foldl_nil]
        have hl' : (b.setGpu r.gpu ((b.gpus r.gpu).setRaw r.slot
            (b.recencyClock + rawBonus))).experts.lookup k = some [r] := hl
        rw [rerankExpert_single hl']
        simp only [rerankCopy, rawAt, setGpu, penalised, setRaw, update_self, update_idem,
          Score.sub_zero_mul]
      | cons r' rest => rfl

theorem BoardInv.touchExistingAll (h : BoardInv b) (k : K) (rawBonus : R) :
    BoardInv (b.touchExistingAll k rawBonus) ∧ SameResidents b (b.touchExistingAll k rawBonus) := by
  rw [touchExistingAll_eq]
  refine h.rescore (S := (· = k)) ?_ [k] fun k' hk' => .inl (by simp [hk'])
  refine rescored_foldl (b.refs k) h.ok fun c r hr hc hbc => ?_
  exact rescored_setRaw hc (by rwa [hbc.refs]) _

theorem BoardInv.advanceRecency (h : BoardInv b) :
    BoardInv b.advanceRecency ∧ SameResidents b b.advanceRecency :=
  ⟨⟨{ h.ok with }, h.ranked⟩, ⟨rfl, fun _ => rfl⟩⟩

theorem mem_keys_or_refs_nil (b : EvictScoreBoard K R) (k : K) :
    k ∈ b.experts.keys ∨ b.refs k = [] := by
  by_cases hk : k ∈ b.experts
  · exact .inl (AList.mem_keys.1 hk)
  · exact .inr (by simp [refs, AList.lookup_eq_none.2 hk])

theorem BoardInv.setBaseScore (h : BoardInv b) (v : R) :
    BoardInv (b.setBaseScore v) ∧ SameResidents b (b.setBaseScore v) := by
  refine h.rescore (S := fun _ => True) ?_ _ fun k _ => mem_keys_or_refs_nil b k
  exact ⟨rfl, rfl, fun g => ⟨(b.gpus g).raw, rfl⟩, fun _ hk => absurd trivial hk,
    fun _ hk => absurd trivial hk⟩

theorem decayGpu_eq (factor : R) (pg : PerGpu K R) :
    ∃ raw, decayGpu factor pg = { pg with raw := raw } := by
  unfold decayGpu
  generalize pg.keyToSlot.entries = l
  induction l generalizing pg with
  | nil => exact ⟨pg.raw, rfl⟩
  | cons e l ih =>
    obtain ⟨raw, hraw⟩ := ih (pg.setRaw e.2 (pg.raw e.2 * factor))
    exact ⟨raw, hraw⟩

theorem BoardInv.decayAll (h : BoardInv b) (factor : R) :
    BoardInv (b.decayAll factor) ∧ SameResidents b (b.decayAll factor) := by
  unfold EvictScoreBoard.decayAll
  split
  · exact ⟨h, (ScoreFrame.refl b).sameResidents⟩
  refine h.rescore (S := fun _ => True) ?_ _ fun k _ => mem_keys_or_refs_nil b k
  refine ⟨rfl, rfl, ?_, fun _ hk => absurd trivial hk, fun _ hk => absurd trivial hk⟩
  intro g
  by_cases hg : g < b.numGpus
  · obtain ⟨raw, hraw⟩ := decayGpu_eq factor (b.gpus g)
    exact ⟨raw, by simp only [hg, if_true, hraw]⟩
  · exact ⟨(b.gpus g).raw, by simp only [hg, if_false]⟩

/-! ### Adding a resident -/

theorem SlotsOk.fresh (h : SlotsOk pg) (k : K) :
    pg.keyToSlot.lookup k ≠ some (pg.freeSlots.headD pg.size) := by
  intro hk
  cases hfree : pg.freeSlots with
  | nil =>
    rw [hfree] at hk
    exact absurd (h.lt k _ hk) (lt_irrefl _)
  | cons f free =>
    rw [hfree] at hk
    exact h.notFree k f hk (by simp [hfree])

theorem SlotsOk.allocSlot (h : SlotsOk pg) (hk : k ∉ pg.keyToSlot) (v : R) :
    SlotsOk (pg.allocSlot k v).1 := by
  have hfresh := h.fresh
  have hpos : pg.heap.pos (pg.freeSlots.headD pg.size) = none := by
    cases hp : pg.heap.pos (pg.freeSlots.headD pg.size) with
    | none => rfl
    | some i =>
      obtain ⟨k', hk'⟩ := h.inHeap _ (by rw [hp]; rfl)
      exact absurd hk' (hfresh k')
  have hlookup : ∀ k' s, (pg.keyToSlot.insert k (pg.freeSlots.headD pg.size)).lookup k' = some s →
      (k' = k ∧ s = pg.freeSlots.headD pg.size) ∨
      (k' ≠ k ∧ s ≠ pg.freeSlots.headD pg.size ∧ pg.keyToSlot.lookup k' = some s) := by
    intro k' s hs
    rcases Map.lookup_insert_iff.1 hs with ⟨rfl, rfl⟩ | ⟨hne, hs⟩
    · exact .inl ⟨rfl, rfl⟩
    · exact .inr ⟨hne, fun he => hfresh k' (he ▸ hs), hs⟩
  have hsize : pg.size ≤ (pg.allocSlot k v).1.size ∧
      pg.freeSlots.headD pg.size < (pg.allocSlot k v).1.size := by
    unfold PerGpu.allocSlot
    cases hfree : pg.freeSlots with
    | nil => simp
    | cons f free =>
      have := h.freeLt f (by simp [hfree])
      simpa using this
  have hhead : pg.freeSlots.headD pg.size ∉ pg.freeSlots.tail := by
    cases hfree : pg.freeSlots with
    | nil => simp
    | cons f free =>
      have := h.freeNodup
      rw [hfree, nodup_cons] at this
      simpa using this.1
  refine ⟨?_, ?_, ?_, ?_, ?_, ?_, ?_⟩
  · intro k' s hs
    simp only [PerGpu.allocSlot] at hs ⊢
    rcases hlookup k' s hs with ⟨rfl, rfl⟩ | ⟨_, hne, hs⟩
    · exact update_self ..
    · rw [update_of_ne hne]
      exact h.key k' s hs
  · intro k' s hs
    rcases hlookup k' s hs with ⟨rfl, rfl⟩ | ⟨_, _, hs⟩
    · exact hsize.2
    · exact (h.lt k' s hs).trans_le hsize.1
  · intro k' s hs hmem
    rcases hlookup k' s hs with ⟨rfl, rfl⟩ | ⟨_, _, hs⟩
    · exact hhead hmem
    · exact h.notFree k' s hs (mem_of_mem_tail hmem)
  · intro s hs
    exact (h.freeLt s (mem_of_mem_tail hs)).trans_le hsize.1
  · exact h.freeNodup.tail
  · intro s hs
    simp only [PerGpu.allocSlot, update_apply] at hs ⊢
    split at hs
    · exact absurd hs (by simp)
    obtain ⟨k', hk'⟩ := h.inHeap s hs
    refine ⟨k', Map.lookup_insert_iff.2 (.inr ⟨?_, hk'⟩)⟩
    rintro rfl
    exact hk (Map.mem_of_lookup hk')
  · have hself : update pg.heap.pos (pg.freeSlots.headD pg.size) none = pg.heap.pos := by
      rw [← hpos, update_eq_self]
    simp only [PerGpu.allocSlot, hself]
    refine h.heap.congr_less hpos fun a c ha hc => ?_
    simp only [heapLess, update_of_ne ha, update_of_ne hc]

theorem refs_indexAdd (hnew : ∀ r ∈ b.refs k, r.gpu ≠ g) (k' : K) :
    (b.indexAdd k g s).refs k' = if k' = k then b.refs k ++ [⟨g, s⟩] else b.refs k' := by
  have hnone : ((b.refs k).findIdx? fun r => r.gpu = g) = none := by
    rw [findIdx?_eq_none_iff]
    intro r hr
    simp [hnew r hr]
  unfold indexAdd
  rw [refs]
  simp only [hnone]
  by_cases hk : k' = k
  · subst hk
    simp
  · simp [hk, refs, AList.lookup_insert_ne hk]

theorem alloc_spec (h : BoardOk b) (hk : (b.gpus g).keyToSlot.lookup k = none) (v : R) :
    let b' := (b.setGpu g ((b.gpus g).allocSlot k v).1).indexAdd k g ((b.gpus g).allocSlot k v).2
    BoardOk b' ∧ (∀ k', k' ≠ k → Ranked b k' → Ranked b' k') ∧ b'.numGpus = b.numGpus ∧
      ∀ g' k', k' ∈ (b'.gpus g').keyToSlot ↔ (g' = g ∧ k' = k) ∨ k' ∈ (b.gpus g').keyToSlot := by
  intro b'
  have hslots := h.slots g
  have hfresh := hslots.fresh
  have hnotMem : k ∉ (b.gpus g).keyToSlot := AList.lookup_eq_none.1 hk
  have hnew : ∀ r ∈ b.refs k, r.gpu ≠ g := by
    intro r hr hg
    have := (h.refs k r).1 hr
    rw [hg, hk] at this
    exact absurd this (by simp)
  have hrefs : ∀ k', b'.refs k' =
      if k' = k then b.refs k ++ [⟨g, ((b.gpus g).allocSlot k v).2⟩] else b.refs k' :=
    refs_indexAdd (b := b.setGpu g ((b.gpus g).allocSlot k v).1) hnew
  have hgpus : b'.gpus = update b.gpus g ((b.gpus g).allocSlot k v).1 := rfl
  refine ⟨⟨?_, ?_, ?_⟩, ?_, rfl, ?_⟩
  · intro g'
    rw [hgpus]
    by_cases hg : g' = g
    · subst hg
      rw [update_self]
      exact hslots.allocSlot hnotMem v
    · rw [update_of_ne hg]
      exact h.slots g'
  · rintro k' ⟨g', s'⟩
    rw [hrefs, hgpus]
    have hold := h.refs k' ⟨g', s'⟩
    by_cases hg : g' = g
    · subst hg
      rw [update_self]
      simp only [allocSlot]
      by_cases hkk : k' = k
      · subst hkk
        simp [hold, hk, eq_comm]
      · simp [hkk, hold]
    · rw [update_of_ne hg]
      by_cases hkk : k' = k
      · subst hkk
        simp [hold, hg]
      · simp [hkk, hold]
  · intro k'
    rw [hrefs]
    split
    · refine nodup_append.2 ⟨h.nodup k, nodup_singleton _, ?_⟩
      rintro r hr r' hr' rfl
      rw [mem_singleton] at hr'
      exact hnew r hr (by rw [hr'])
    · exact h.nodup k'
  · intro k' hkk hr
    refine hr.of_same (by rw [hrefs, if_neg hkk]) rfl ?_
    rintro ⟨g', s'⟩ he
    by_cases hg : g' = g
    · subst hg
      have hs : s' ≠ (b.gpus g').freeSlots.headD (b.gpus g').size := by
        rintro rfl
        exact hfresh k' ((h.refs k' _).1 he)
      simp only [copyState, rawAt, hgpus, update_self, allocSlot, update_of_ne hs, and_self]
    · simp only [copyState, rawAt, hgpus, update_of_ne hg, and_self]
  · intro g' k'
    rw [hgpus]
    by_cases hg : g' = g
    · subst hg
      rw [update_self]
      simp only [allocSlot, AList.mem_insert, true_and]
    · simp [hg]

theorem upsertRawNoRerank_spec (h : BoardOk b) (hg : g < b.numGpus) (k : K) (v : R) :
    let b' := b.upsertRawNoRerank g k v
    BoardOk b' ∧ (∀ k', k' ≠ k → Ranked b k' → Ranked b' k') ∧ b'.numGpus = b.numGpus ∧
      ∀ g' k', k' ∈ (b'.gpus g').keyToSlot ↔ (g' = g ∧ k' = k) ∨ k' ∈ (b.gpus g').keyToSlot := by
  unfold upsertRawNoRerank
  rw [if_pos hg]
  split
  · rename_i slot hk
    have hr := rescored_setRaw h (e := ⟨g, slot⟩) ((h.refs k _).2 hk) v
    refine ⟨hr.ok h, fun k' hkk => hr.ranked hkk, hr.numGpus, ?_⟩
    intro g' k'
    have hkeys := hr.sameResidents.keyToSlot g'
    rw [hkeys]
    constructor
    · exact .inr
    · rintro (⟨rfl, rfl⟩ | hmem)
      · exact Map.mem_of_lookup hk
      · exact hmem
  · rename_i hk
    exact alloc_spec h hk v

theorem BoardInv.upsert (h : BoardInv b) (hg : g < b.numGpus) (k : K) (v : R) :
    let b' := (b.upsertRawNoRerank g k v).rerankExpert k
    BoardInv b' ∧ b'.numGpus = b.numGpus ∧ ∀ g' k', k' ∈ (b'.gpus g').keyToSlot ↔
        (g' = g ∧ k' = k) ∨ k' ∈ (b.gpus g').keyToSlot := by
  obtain ⟨hok, hranked, hnum, hmem⟩ := upsertRawNoRerank_spec h.ok hg k v
  have hf := rerankExpert_frame hok k
  refine ⟨⟨hok.rerankExpert k, ?_⟩, hf.numGpus.trans hnum, ?_⟩
  · intro k'
    by_cases hkk : k' = k
    · subst hkk
      exact ranked_rerankExpert hok k'
    · exact (hranked k' hkk (h.ranked k')).rerankExpert hok k
  · intro g' k'
    rw [(hf.slots g').keyToSlot]
    exact hmem g' k'

/-! ### Removing a resident -/

theorem SlotsOk.freeSlot (h : SlotsOk pg) (hk : pg.keyToSlot.lookup k = some s) :
    SlotsOk (pg.freeSlot s) := by
  have hw := strictWeak_heapLess pg.eff
  have hkey := h.key k s hk
  have hmap : (pg.freeSlot s).keyToSlot = pg.keyToSlot.erase k := by
    simp [PerGpu.freeSlot, PerGpu.heapRemove, hkey]
  -- the slots of the other residents are other slots
  have hother : ∀ k' s', (pg.freeSlot s).keyToSlot.lookup k' = some s' →
      pg.keyToSlot.lookup k' = some s' ∧ s' ≠ s := by
    intro k' s' hs'
    rw [hmap, Map.lookup_erase_iff] at hs'
    refine ⟨hs'.2, ?_⟩
    rintro rfl
    exact hs'.1 (h.slot_inj hs'.2 hk)
  refine ⟨?_, ?_, ?_, ?_, ?_, ?_, ?_⟩
  · exact fun k' s' hs' => h.key k' s' (hother k' s' hs').1
  · exact fun k' s' hs' => h.lt k' s' (hother k' s' hs').1
  · intro k' s' hs' hmem
    obtain ⟨hs', hne⟩ := hother k' s' hs'
    rcases mem_cons.1 hmem with rfl | hmem
    · exact hne rfl
    · exact h.notFree k' s' hs' hmem
  · intro s' hs'
    rcases mem_cons.1 hs' with rfl | hs'
    · exact h.lt k s' hk
    · exact h.freeLt s' hs'
  · exact nodup_cons.2 ⟨h.notFree k s hk, h.freeNodup⟩
  · intro s' hs'
    obtain ⟨hne, hs'⟩ := (IndexedHeap.remove_isSome hw h.heap.indexed s').1 hs'
    obtain ⟨k', hk'⟩ := h.inHeap s' hs'
    refine ⟨k', ?_⟩
    rw [hmap, Map.lookup_erase_iff]
    refine ⟨?_, hk'⟩
    rintro rfl
    exact hne (Option.some.inj (hk'.symm.trans hk))
  · exact h.heap.remove hw s

theorem swapRemove_perm {α : Type} {l : List α} {p : α → Bool} {i : ℕ} {back : α}
    (hi : l.findIdx? p = some i) (hback : l.getLast? = some back) :
    ∃ r, p r = true ∧ l.Perm (r :: (l.set i back).dropLast) := by
  obtain ⟨hlt, hp, _⟩ := findIdx?_eq_some_iff_getElem.1 hi
  refine ⟨l[i], hp, (getElem_cons_eraseIdx_perm hlt).symm.trans (List.Perm.cons _ ?_)⟩
  obtain ⟨front, rfl⟩ : ∃ front, l = front ++ [back] :=
    ⟨l.dropLast, (dropLast_append_getLast? back hback).symm⟩
  by_cases hend : i = front.length
  · subst hend
    rw [eraseIdx_append_of_length_le le_rfl]
    simp
  have hfront : i < front.length := by
    simp only [length_append, length_singleton] at hlt
    omega
  rw [set_append_left _ _ hfront, dropLast_concat, eraseIdx_append_of_lt_length hfront]
  exact perm_append_comm.trans (set_perm_cons_eraseIdx hfront back).symm

theorem refs_indexRemove (hnd : ((b.refs k).map (·.gpu)).Nodup) {e : EntryRef} (he : e ∈ b.refs k) :
    (b.refs k).Perm (e :: (b.indexRemove k e.gpu).refs k) ∧
      ∀ k', k' ≠ k → (b.indexRemove k e.gpu).refs k' = b.refs k' := by
  unfold EvictScoreBoard.indexRemove
  cases hl : b.experts.lookup k with
  | none => simp [EvictScoreBoard.refs, hl] at he
  | some refs =>
    have hrefs : b.refs k = refs := by simp [EvictScoreBoard.refs, hl]
    rw [hrefs] at he hnd ⊢
    obtain ⟨i, hi⟩ : ∃ i, (refs.findIdx? fun r => r.gpu = e.gpu) = some i := by
      rw [← Option.isSome_iff_exists, findIdx?_isSome, any_eq_true]
      exact ⟨e, he, by simp⟩
    obtain ⟨back, hback⟩ : ∃ back, refs.getLast? = some back := by
      rw [← Option.isSome_iff_exists, getLast?_isSome]
      exact ne_nil_of_mem he
    obtain ⟨r, hr, hperm⟩ := swapRemove_perm hi hback
    -- the copy found is the one on the GPU
    have hre : r = e :=
      inj_on_of_nodup_map hnd (hperm.mem_iff.2 mem_cons_self) he (by simpa using hr)
    subst hre
    simp only [hi, hback]
    constructor
    · refine hperm.trans (List.Perm.cons _ (List.Perm.of_eq ?_))
      by_cases hnil : (refs.set i back).dropLast = []
      · simp [EvictScoreBoard.refs, hnil]
      · simp [EvictScoreBoard.refs, hnil]
    · intro k' hkk
      unfold EvictScoreBoard.refs
      by_cases hnil : (refs.set i back).dropLast = []
      · simp [hnil, AList.lookup_erase_ne hkk]
      · simp [hnil, AList.lookup_insert_ne hkk]

theorem free_spec (h : BoardOk b) (hk : (b.gpus g).keyToSlot.lookup k = some s) :
    let b' := (b.setGpu g ((b.gpus g).freeSlot s)).indexRemove k g
    BoardOk b' ∧ (∀ k', k' ≠ k → Ranked b k' → Ranked b' k') ∧ b'.numGpus = b.numGpus ∧
      ∀ g' k', k' ∈ (b'.gpus g').keyToSlot ↔ ¬ (g' = g ∧ k' = k) ∧ k' ∈ (b.gpus g').keyToSlot := by
  intro b'
  have hw := strictWeak_heapLess (b.gpus g).eff
  have hslots := h.slots g
  have hkey := hslots.key k s hk
  have he : (⟨g, s⟩ : EntryRef) ∈ b.refs k := (h.refs k ⟨g, s⟩).2 hk
  obtain ⟨hperm, hother⟩ := refs_indexRemove (b := b.setGpu g ((b.gpus g).freeSlot s))
    (h.gpus_nodup k) he
  have hnd := hperm.nodup_iff.1 (h.nodup k)
  rw [nodup_cons] at hnd
  have hframe : b'.gpus = update b.gpus g ((b.gpus g).freeSlot s) ∧
      b'.numGpus = b.numGpus ∧ b'.baseScore = b.baseScore := by
    have hsame : ∀ c : EvictScoreBoard K R, (c.indexRemove k g).gpus = c.gpus ∧
        (c.indexRemove k g).numGpus = c.numGpus ∧
        (c.indexRemove k g).baseScore = c.baseScore := by
      intro c
      unfold indexRemove
      split <;> exact ⟨rfl, rfl, rfl⟩
    exact hsame _
  obtain ⟨hgpus, hnum, hbase⟩ := hframe
  have hmap : ((b.gpus g).freeSlot s).keyToSlot = (b.gpus g).keyToSlot.erase k := by
    simp [freeSlot, heapRemove, hkey]
  -- what is left at the expert: the copies on other GPUs
  have hleft : ∀ e, e ∈ b'.refs k ↔ e ∈ b.refs k ∧ e ≠ ⟨g, s⟩ := by
    intro e
    have hmem : e ∈ b.refs k ↔ e = ⟨g, s⟩ ∨ e ∈ b'.refs k := by
      rw [← mem_cons]
      exact hperm.mem_iff
    rw [hmem]
    constructor
    · intro hin
      refine ⟨.inr hin, ?_⟩
      rintro rfl
      exact hnd.1 hin
    · rintro ⟨rfl | hin, hne⟩
      · exact absurd rfl hne
      · exact hin
  refine ⟨⟨?_, ?_, ?_⟩, ?_, hnum, ?_⟩
  · intro g'
    rw [hgpus]
    by_cases hg : g' = g
    · subst hg
      rw [update_self]
      exact hslots.freeSlot hk
    · rw [update_of_ne hg]
      exact h.slots g'
  · rintro k' ⟨g', s'⟩
    have hold := h.refs k' ⟨g', s'⟩
    rw [hgpus]
    by_cases hkk : k' = k
    · subst hkk
      rw [hleft, hold]
      by_cases hg : g' = g
      · subst hg
        rw [update_self, hmap]
        simp only [hk, Option.some.injEq]
        constructor
        · rintro ⟨rfl, hne⟩
          exact absurd rfl hne
        · intro hc
          exact absurd hc (by simp)
      · simp [hg]
    · have hsame : b'.refs k' = b.refs k' := hother k' hkk
      rw [hsame, hold]
      by_cases hg : g' = g
      · subst hg
        rw [update_self, hmap, AList.lookup_erase_ne hkk]
      · rw [update_of_ne hg]
  · intro k'
    by_cases hkk : k' = k
    · subst hkk
      exact hnd.2
    · have hsame : b'.refs k' = b.refs k' := hother k' hkk
      rw [hsame]
      exact h.nodup k'
  · intro k' hkk hr
    refine hr.of_same (hother k' hkk) hbase ?_
    rintro ⟨g', s'⟩ he'
    by_cases hg : g' = g
    · subst hg
      have hs : s' ≠ s := by
        rintro rfl
        exact hkk (h.refs_disjoint he' he)
      have hpos : (((b.gpus g').freeSlot s).heap.pos s').isSome =
          ((b.gpus g').heap.pos s').isSome := by
        rw [Bool.eq_iff_iff]
        refine (IndexedHeap.remove_isSome hw hslots.heap.indexed s').trans ?_
        simp [hs]
      simp only [copyState, rawAt, hgpus, update_self, hpos]
      exact ⟨rfl, rfl⟩
    · simp only [copyState, rawAt, hgpus, update_of_ne hg, and_self]
  · intro g' k'
    rw [hgpus]
    by_cases hg : g' = g
    · subst hg
      rw [update_self, hmap]
      simp only [AList.mem_erase, true_and]
    · simp [hg]

theorem BoardInv.evict (h : BoardInv b) (g : ℕ) (k : K) :
    BoardInv (b.evict g k) ∧ (b.evict g k).numGpus = b.numGpus ∧
      (g < b.numGpus → ∀ g' k', k' ∈ ((b.evict g k).gpus g').keyToSlot ↔
        ¬ (g' = g ∧ k' = k) ∧ k' ∈ (b.gpus g').keyToSlot) := by
  unfold EvictScoreBoard.evict
  by_cases hres : b.isResident g k = true
  · rw [if_pos hres]
    obtain ⟨hg, hk⟩ : g < b.numGpus ∧ ((b.gpus g).keyToSlot.lookup k).isSome = true := by
      simpa [EvictScoreBoard.isResident] using hres
    obtain ⟨s, hs⟩ := Option.isSome_iff_exists.1 hk
    have hevict : b.evictNoRerank g k = (b.setGpu g ((b.gpus g).freeSlot s)).indexRemove k g := by
      simp only [EvictScoreBoard.evictNoRerank, if_pos hg, hs]
    obtain ⟨hok, hranked, hnum, hmem⟩ := free_spec h.ok hs
    rw [hevict]
    have hf := rerankExpert_frame hok k
    refine ⟨⟨hok.rerankExpert k, ?_⟩, hf.numGpus.trans hnum, ?_⟩
    · intro k'
      by_cases hkk : k' = k
      · subst hkk
        exact ranked_rerankExpert hok k'
      · exact (hranked k' hkk (h.ranked k')).rerankExpert hok k
    · intro _ g' k'
      rw [(hf.slots g').keyToSlot]
      exact hmem g' k'
  · rw [if_neg hres]
    refine ⟨h, rfl, fun hg g' k' => ?_⟩
    constructor
    · intro hmem
      refine ⟨?_, hmem⟩
      rintro ⟨rfl, rfl⟩
      obtain ⟨s, hs⟩ := Map.mem_iff.1 hmem
      exact hres (by simp [EvictScoreBoard.isResident, hg, hs])
    · exact fun hmem => hmem.2

/-! ### Batches -/

/-- Entries of experts in `S` were changed: the structure is kept, and so is the
ranking of all other experts. -/
structure Touched (S : K → Prop) (b b' : EvictScoreBoard K R) : Prop where
  ok : BoardOk b'
  numGpus : b'.numGpus = b.numGpus
  ranked : ∀ k, ¬ S k → Ranked b k → Ranked b' k

end LayerStorm.GpuLoader
