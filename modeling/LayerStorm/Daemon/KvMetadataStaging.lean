import LayerStorm.Lib.Fanout
import LayerStorm.Lib.Blocks
import LayerStorm.Lib.ExceptLoop
import LayerStorm.Daemon.KvMetadata

/-!
# What the two passes stage

Pass 1 stages the lengths and the slots of the rows, rank by rank and layer by layer, while the
sequences grow; pass 2 fills the tables.  Where they succeed, the arrays are what the positions and
the pages say.
-/

namespace LayerStorm.Daemon

open Lib
open Function List Nat

namespace KvMetaConfig

variable {cfg : KvMetaConfig}

/-! ### Pass 1 -/

variable (cfg) in
/-- What is staged for a row is what its position and its pages say. -/
structure RowStaged (n : ℕ) (x : BatchEntry × ℕ) (seqs : KvSequences) (st : Staging) : Prop where
  known : ∃ pages, seqs x.1.seqId = some pages ∧ x.1.tokenPos / cfg.pageSize < pages.length ∧
    ∀ rank < cfg.dcpSize, ∀ l < cfg.layers, st.slotMappings (rank, l * n + x.2) =
        cfg.slotOf rank x.2 x.1.tokenPos (handleAt pages (x.1.tokenPos / cfg.pageSize) l)
  trash : ∀ rank < cfg.dcpSize, ¬cfg.NoTrash rank x.1.tokenPos
  seqlens : ∀ rank < cfg.dcpSize, st.seqlensK (rank, x.2) = cfg.seqlenOf rank x.1.tokenPos
  global : cfg.sharded = true → st.globalSeqlens x.2 = x.1.tokenPos + 1

variable {n : ℕ}

theorem index_ne {b b' l l' : ℕ} (hb : b < n) (hb' : b' < n) (hne : b ≠ b') :
    l * n + b ≠ l' * n + b' := fun heq => hne (block_index hb hb' heq).2

/-- Two arrays agree on what concerns a row. -/
structure SameRow (n b : ℕ) (st st' : Staging) : Prop where
  seqlens : ∀ rank, st'.seqlensK (rank, b) = st.seqlensK (rank, b)
  slots : ∀ rank l, st'.slotMappings (rank, l * n + b) = st.slotMappings (rank, l * n + b)
  global : st'.globalSeqlens b = st.globalSeqlens b

variable {x : BatchEntry × ℕ} {seqs : KvSequences}

theorem RowStaged.mono {seqs' : KvSequences} {st st' : Staging} {D : ℕ → ℕ → Prop}
    (h : cfg.RowStaged n x seqs st) (hdrift : Drift D seqs seqs')
    (hD : ∀ pages, seqs' x.1.seqId = some pages → D x.1.seqId (x.1.tokenPos / cfg.pageSize) →
      ∀ l < cfg.layers, (handleAt pages (x.1.tokenPos / cfg.pageSize) l).demoted = false)
    (hsame : SameRow n x.2 st st') : cfg.RowStaged n x seqs' st' := by
  obtain ⟨pages, hpages, hcovered, hslots⟩ := h.known
  obtain ⟨pages', hpages', hlen, hhandles⟩ := hdrift.some _ _ hpages
  refine ⟨⟨pages', hpages', hcovered.trans_le hlen, fun rank hrank l hl => ?_⟩, h.trash,
    fun rank hrank => (hsame.seqlens rank).trans (h.seqlens rank hrank),
    fun hsh => hsame.global.trans (h.global hsh)⟩
  rw [hsame.slots, hslots rank hrank l hl]
  rcases hhandles _ hcovered l with heq | ⟨hd, heq⟩
  · rw [heq]
  have hkept := hD pages' hpages' hd l hl
  rw [heq] at hkept
  cases hkept

variable {pages : KvPages}

theorem stageRank_ok {b tokenPos : ℕ} {st st' : Staging} {rank : ℕ}
    (h : cfg.stageRank n b tokenPos pages st rank = .ok st') (hb : b < n) :
    ¬cfg.NoTrash rank tokenPos ∧ st'.seqlensK (rank, b) = cfg.seqlenOf rank tokenPos ∧
    (∀ l < cfg.layers, st'.slotMappings (rank, l * n + b) =
      cfg.slotOf rank b tokenPos (handleAt pages (tokenPos / cfg.pageSize) l)) ∧
    (∀ r b', r ≠ rank ∨ b' ≠ b → st'.seqlensK (r, b') = st.seqlensK (r, b')) ∧
    (∀ r l b', b' < n → r ≠ rank ∨ b' ≠ b →
      st'.slotMappings (r, l * n + b') = st.slotMappings (r, l * n + b')) ∧
    st'.globalSeqlens = st.globalSeqlens ∧ st'.blockTables = st.blockTables := by
  unfold stageRank at h
  by_cases hno : cfg.NoTrash rank tokenPos
  · rw [if_pos hno] at h
    cases h
  rw [if_neg hno] at h
  cases h
  refine ⟨hno, update_self _ _ _, fun l hl => ?_, fun r b' hne => ?_,
    fun r l b' hb' hne => ?_, rfl, rfl⟩
  · apply foldl_update_of_mem
    · intro l' _ heq
      have hl' : l' * n + b = l * n + b := (Prod.mk.inj heq).2
      rw [eq_of_mul_eq_mul_right (zero_lt_of_lt hb) (add_right_cancel hl')]
    · exact ⟨l, mem_range.2 hl, rfl⟩
  · apply update_of_ne
    intro heq
    cases heq
    exact hne.elim (fun h => h rfl) fun h => h rfl
  · apply foldl_update_of_notMem
    intro l' _ heq
    obtain ⟨hrank, hidx⟩ := Prod.mk.inj heq
    rcases hne with hne | hne
    · exact hne hrank.symm
    · exact index_ne hb hb' hne.symm hidx

theorem stageRanks_ok {b tokenPos : ℕ} {st st' : Staging} (hb : b < n)
    (h : (range cfg.dcpSize).foldlM (cfg.stageRank n b tokenPos pages) st = .ok st') :
    (∀ rank < cfg.dcpSize, ¬cfg.NoTrash rank tokenPos ∧
      st'.seqlensK (rank, b) = cfg.seqlenOf rank tokenPos ∧
      ∀ l < cfg.layers, st'.slotMappings (rank, l * n + b) =
        cfg.slotOf rank b tokenPos (handleAt pages (tokenPos / cfg.pageSize) l)) ∧
    (∀ b' < n, b' ≠ b → SameRow n b' st st') ∧
    st'.globalSeqlens = st.globalSeqlens ∧ st'.blockTables = st.blockTables := by
  have hranks := exceptLoop_establishes (I := fun _ => True) (P := fun rank s =>
    ¬cfg.NoTrash rank tokenPos ∧ s.seqlensK (rank, b) = cfg.seqlenOf rank tokenPos ∧
      ∀ l < cfg.layers, s.slotMappings (rank, l * n + b) =
        cfg.slotOf rank b tokenPos (handleAt pages (tokenPos / cfg.pageSize) l))
    nodup_range (fun _ _ _ _ _ _ => trivial)
    (by
      intro s rank t _ _ ht
      obtain ⟨hno, hlen, hslots, -⟩ := stageRank_ok ht hb
      exact ⟨hno, hlen, hslots⟩)
    (by
      rintro s rank t _ _ ht r _ hne ⟨hno, hlen, hslots⟩
      obtain ⟨-, -, -, hlens, hothers, -⟩ := stageRank_ok ht hb
      refine ⟨hno, (hlens r b (.inl hne)).trans hlen, fun l hl => ?_⟩
      exact (hothers r l b hb (.inl hne)).trans (hslots l hl))
    h trivial
  have hframe := exceptLoop_invariant (P := fun s => (∀ b' < n, b' ≠ b → SameRow n b' st s) ∧
      s.globalSeqlens = st.globalSeqlens ∧ s.blockTables = st.blockTables)
    (range cfg.dcpSize)
    (by
      rintro s rank t _ ⟨hsame, hglobal, htables⟩ ht
      obtain ⟨-, -, -, hlens, hothers, hg, hbt⟩ := stageRank_ok ht hb
      refine ⟨fun b' hb' hne => ?_, hg.trans hglobal, hbt.trans htables⟩
      obtain ⟨hs, hm, hgl⟩ := hsame b' hb' hne
      exact ⟨fun r => (hlens r b' (.inr hne)).trans (hs r),
        fun r l => (hothers r l b' hb' (.inr hne)).trans (hm r l), by rw [hg, hgl]⟩)
    h ⟨fun _ _ _ => ⟨fun _ => rfl, fun _ _ => rfl, rfl⟩, rfl, rfl⟩
  exact ⟨fun rank hrank => hranks rank (mem_range.2 hrank), hframe⟩

variable (cfg) in
structure RowDone (ids : List ℕ) (n : ℕ) (x : BatchEntry × ℕ) (p p' : Pass) : Prop where
  grown : Grown x.1.seqId p.growth p'.growth
  staged : cfg.RowStaged n x p'.growth.seqs p'.staging
  others : ∀ b' < n, b' ≠ x.2 → SameRow n b' p.staging p'.staging
  tables : p'.staging.blockTables = p.staging.blockTables
  clean : p'.btDirty = false → p.btDirty = false ∧ ids[x.2]? = some x.1.seqId ∧
    SameLengths p.growth.seqs p'.growth.seqs

variable {ids : List ℕ}

theorem stageRow_ok {p p' : Pass} (hx : x.2 < n) (h : cfg.stageRow ids n p x = .ok p') :
    cfg.RowDone ids n x p p' := by
  unfold stageRow at h
  cases hbefore : p.growth.seqs x.1.seqId with
  | none =>
    simp only [hbefore] at h
    cases h
  | some before =>
    simp only [hbefore] at h
    have hgrown : Grown x.1.seqId p.growth (cfg.ensurePages x.1.seqId x.1.tokenPos p.growth).1 :=
      ensurePages_spec _ _ _
    obtain ⟨pages, hpages, -, -⟩ := hgrown.drift.some _ _ hbefore
    generalize cfg.ensurePages x.1.seqId x.1.tokenPos p.growth = r at h hgrown hpages
    rw [hpages, Option.getD_some] at h
    by_cases hfail : r.2 = false
    · rw [if_pos hfail] at h
      cases h
    rw [if_neg hfail] at h
    by_cases hshort : pages.length ≤ x.1.tokenPos / cfg.pageSize
    · rw [if_pos hshort] at h
      cases h
    rw [if_neg hshort] at h
    generalize hst : (if cfg.sharded = true then
      ({ p.staging with globalSeqlens :=
          Function.update p.staging.globalSeqlens x.2 ((x.1.tokenPos : ℤ) + 1) } : Staging)
      else p.staging) = st at h
    cases hloop : (range cfg.dcpSize).foldlM (cfg.stageRank n x.2 x.1.tokenPos pages) st with
    | error st' =>
      rw [hloop] at h
      cases h
    | ok st' =>
      rw [hloop] at h
      cases h
      obtain ⟨hranks, hothers, hglobal, htables⟩ := stageRanks_ok hx hloop
      have hstart : (∀ b', b' ≠ x.2 → SameRow n b' p.staging st) ∧
          (cfg.sharded = true → st.globalSeqlens x.2 = x.1.tokenPos + 1) ∧
          st.blockTables = p.staging.blockTables := by
        by_cases hsh : cfg.sharded = true
        · rw [if_pos hsh] at hst
          subst hst
          refine ⟨fun b' hb' => ⟨fun _ => rfl, fun _ _ => rfl, ?_⟩, fun _ => ?_, rfl⟩
          · exact Function.update_of_ne hb' _ _
          · exact Function.update_self _ _ _
        · rw [if_neg hsh] at hst
          subst hst
          exact ⟨fun _ _ => ⟨fun _ => rfl, fun _ _ => rfl, rfl⟩, fun h => absurd h hsh, rfl⟩
      refine ⟨hgrown, ⟨⟨pages, hpages, not_le.1 hshort, fun rank hrank => (hranks rank hrank).2.2⟩,
        fun rank hrank => (hranks rank hrank).1, fun rank hrank => (hranks rank hrank).2.1,
        fun hsh => ?_⟩, fun b' hb' hne => ?_, htables.trans hstart.2.2, fun hclean => ?_⟩
      · rw [hglobal]
        exact hstart.2.1 hsh
      · obtain ⟨hs, hm, hg⟩ := hothers b' hb' hne
        obtain ⟨hs', hm', hg'⟩ := hstart.1 b' hne
        exact ⟨fun r => (hs r).trans (hs' r), fun r l => (hm r l).trans (hm' r l), hg.trans hg'⟩
      · simp only [Bool.or_eq_false_iff, decide_eq_false_iff_not, not_not] at hclean
        refine ⟨hclean.1.1, hclean.1.2, fun id => ?_⟩
        by_cases hid : id = x.1.seqId
        · subst hid
          rw [hpages, hbefore, Option.map_some, Option.map_some, hclean.2]
        · exact hgrown.others id hid

variable {rows : List BatchEntry}

theorem mem_zipIdx (hx : x ∈ rows.zipIdx) : x.2 < rows.length ∧ x.1 ∈ rows := by
  have hget := mem_zipIdx_iff_getElem?.mp hx
  exact ⟨(List.getElem?_eq_some_iff.1 hget).1, List.mem_of_getElem? hget⟩

theorem zipIdx_index_ne {y : BatchEntry × ℕ} (hx : x ∈ rows.zipIdx) (hy : y ∈ rows.zipIdx)
    (hne : x ≠ y) : x.2 ≠ y.2 := by
  intro heq
  have hgx := mem_zipIdx_iff_getElem?.mp hx
  have hgy := mem_zipIdx_iff_getElem?.mp hy
  rw [heq, hgy] at hgx
  exact hne (Prod.ext (Option.some.inj hgx).symm heq)

theorem nodup_zipIdx (rows : List BatchEntry) : rows.zipIdx.Nodup := by
  apply List.Nodup.of_map Prod.snd
  rw [zipIdx_map_snd]
  exact nodup_range'

variable (cfg) in
structure Pass1Done (ids : List ℕ) (rows : List BatchEntry) (p p' : Pass) : Prop where
  drift : Drift (Swept p.growth.tape) p.growth.seqs p'.growth.seqs
  staged : ∀ x ∈ rows.zipIdx, cfg.RowStaged rows.length x p'.growth.seqs p'.staging
  tables : p'.staging.blockTables = p.staging.blockTables
  clean : p'.btDirty = false → p.btDirty = false ∧
    SameLengths p.growth.seqs p'.growth.seqs ∧ ∀ x ∈ rows.zipIdx, ids[x.2]? = some x.1.seqId

/-- **Pass 1**, if no sweep takes a page that a row of the batch writes to. -/
theorem stageRows_ok {p p' : Pass}
    (hD : ∀ row ∈ rows, ¬Swept p.growth.tape row.seqId (row.tokenPos / cfg.pageSize))
    (h : rows.zipIdx.foldlM (cfg.stageRow ids rows.length) p = .ok p') :
    cfg.Pass1Done ids rows p p' := by
  have hswept : ∀ q : Pass, q.growth.tape ⊆ p.growth.tape → ∀ id j,
      Swept q.growth.tape id j → Swept p.growth.tape id j :=
    fun q hq id j ⟨a, ha, hkey⟩ => ⟨a, hq ha, hkey⟩
  have hI : ∀ (q : Pass) (x : BatchEntry × ℕ) (q' : Pass), x ∈ rows.zipIdx →
      (Drift (Swept p.growth.tape) p.growth.seqs q.growth.seqs ∧ q.growth.tape ⊆ p.growth.tape ∧
        q.staging.blockTables = p.staging.blockTables ∧
        (q.btDirty = false → p.btDirty = false ∧ SameLengths p.growth.seqs q.growth.seqs)) →
      cfg.stageRow ids rows.length q x = .ok q' →
      (Drift (Swept p.growth.tape) p.growth.seqs q'.growth.seqs ∧ q'.growth.tape ⊆ p.growth.tape ∧
        q'.staging.blockTables = p.staging.blockTables ∧
        (q'.btDirty = false → p.btDirty = false ∧ SameLengths p.growth.seqs q'.growth.seqs)) := by
    rintro q x q' hx ⟨hdrift, htape, htables, hclean⟩ hq'
    have hdone := stageRow_ok (mem_zipIdx hx).1 hq'
    refine ⟨hdrift.trans (hdone.grown.drift.mono (hswept q htape)),
      fun a ha => htape (hdone.grown.tape ha), hdone.tables.trans htables, fun hc => ?_⟩
    obtain ⟨hc, -, hlen⟩ := hdone.clean hc
    obtain ⟨hc, hlen'⟩ := hclean hc
    exact ⟨hc, fun id => (hlen id).trans (hlen' id)⟩
  have hstart : Drift (Swept p.growth.tape) p.growth.seqs p.growth.seqs ∧
      p.growth.tape ⊆ p.growth.tape ∧ p.staging.blockTables = p.staging.blockTables ∧
      (p.btDirty = false → p.btDirty = false ∧ SameLengths p.growth.seqs p.growth.seqs) :=
    ⟨.refl _ _, fun _ ha => ha, rfl, fun hc => ⟨hc, fun _ => rfl⟩⟩
  obtain ⟨hdrift, htape, htables, hclean⟩ := exceptLoop_invariant _ hI h hstart
  have hrows := exceptLoop_establishes (P := fun x q =>
    cfg.RowStaged rows.length x q.growth.seqs q.staging ∧
      (q.btDirty = false → ids[x.2]? = some x.1.seqId)) (nodup_zipIdx rows) hI
    (by
      intro q x q' hx _ hq'
      have hdone := stageRow_ok (mem_zipIdx hx).1 hq'
      exact ⟨hdone.staged, fun hc => (hdone.clean hc).2.1⟩)
    (by
      rintro q x q' hx ⟨-, htape, -⟩ hq' y hy hne ⟨hstaged, hid⟩
      have hdone := stageRow_ok (mem_zipIdx hx).1 hq'
      refine ⟨hstaged.mono hdone.grown.drift (fun _ _ hd => ?_)
        (hdone.others y.2 (mem_zipIdx hy).1 (zipIdx_index_ne hy hx hne)),
        fun hc => hid (hdone.clean hc).1⟩
      exact absurd (hswept q htape _ _ hd) (hD y.1 (mem_zipIdx hy).2))
    h hstart
  exact ⟨hdrift, fun x hx => (hrows x hx).1, htables,
    fun hc => ⟨(hclean hc).1, (hclean hc).2, fun x hx => (hrows x hx).2 hc⟩⟩

/-! ### Pass 2 -/

variable (cfg) in
/-- The entry of a table is within the allocation. -/
def Reaches (pages : KvPages) (rank j : ℕ) : Prop :=
  ∀ i ≤ j, cfg.globalPage rank i < pages.length

variable (cfg) in
def RowFilled (pages : KvPages) (rank l base : ℕ) (t : ℕ × ℕ → ℤ) : Prop :=
  ∀ j < cfg.maxBlocks, cfg.Reaches pages rank j →
    cfg.OnRank rank (handleAt pages (cfg.globalPage rank j) l) ∧
    t (rank, base + j) = (handleAt pages (cfg.globalPage rank j) l).pageIdx

theorem fillRow_ok {rank l base : ℕ} (fuel : ℕ) :
    ∀ {j : ℕ} {t t' : ℕ × ℕ → ℤ}, cfg.fillRow pages rank l base fuel j t = .ok t' →
      (∀ i, j ≤ i → i < j + fuel → (∀ i', j ≤ i' → i' ≤ i → cfg.globalPage rank i' < pages.length) →
        cfg.OnRank rank (handleAt pages (cfg.globalPage rank i) l) ∧
        t' (rank, base + i) = (handleAt pages (cfg.globalPage rank i) l).pageIdx) ∧
      ∀ k : ℕ × ℕ, (k.1 ≠ rank ∨ k.2 < base + j ∨ base + j + fuel ≤ k.2) → t' k = t k := by
  induction fuel with
  | zero =>
    intro j t t' h
    cases h
    exact ⟨fun i hi hlt => absurd hi (by omega), fun _ _ => rfl⟩
  | succ fuel ih =>
    intro j t t' h
    unfold fillRow at h
    by_cases hend : pages.length ≤ cfg.globalPage rank j
    · rw [if_pos hend] at h
      cases h
      exact ⟨fun i hi _ hreach => absurd (hreach j le_rfl hi) (not_lt.2 hend), fun _ _ => rfl⟩
    rw [if_neg hend] at h
    by_cases hrank : cfg.OnRank rank (handleAt pages (cfg.globalPage rank j) l)
    · rw [if_pos hrank] at h
      obtain ⟨hin, hout⟩ := ih h
      refine ⟨fun i hi hlt hreach => ?_, fun k hk => ?_⟩
      · rcases eq_or_lt_of_le hi with rfl | hi
        · refine ⟨hrank, ?_⟩
          rw [hout _ (.inr (.inl (by simp only; omega))), update_self]
        · exact hin i hi (by omega) fun i' hi' => hreach i' (by omega)
      · rw [hout k (by omega)]
        apply update_of_ne
        rintro rfl
        omega
    · rw [if_neg hrank] at h
      cases h

theorem fillRow_total {rank l base : ℕ} (fuel : ℕ) : ∀ {j : ℕ} {t : ℕ × ℕ → ℤ},
      (∀ i, j ≤ i → i < j + fuel → (∀ i', j ≤ i' → i' ≤ i → cfg.globalPage rank i' < pages.length) →
        cfg.OnRank rank (handleAt pages (cfg.globalPage rank i) l)) →
      ∃ t', cfg.fillRow pages rank l base fuel j t = .ok t' := by
  induction fuel with
  | zero =>
    intro j t _
    exact ⟨t, rfl⟩
  | succ fuel ih =>
    intro j t h
    unfold fillRow
    by_cases hend : pages.length ≤ cfg.globalPage rank j
    · rw [if_pos hend]
      exact ⟨t, rfl⟩
    have hrank := h j le_rfl (by omega) fun i' hi' hle => by
      rw [le_antisymm hle hi']
      exact not_le.1 hend
    rw [if_neg hend, if_pos hrank]
    apply ih
    intro i hi hlt hreach
    apply h i (by omega) (by omega)
    intro i' hi' hle
    rcases eq_or_lt_of_le hi' with rfl | hi'
    · exact not_le.1 hend
    · exact hreach i' hi' hle

theorem entry_ne {m b b' l l' j j' : ℕ} (hb : b < n) (hb' : b' < n) (hj : j < m) (hj' : j' < m)
    (hne : ¬(b = b' ∧ l = l')) : (l * n + b) * m + j ≠ (l' * n + b') * m + j' := by
  intro heq
  obtain ⟨hl, hb⟩ := block_index hb hb' (block_index hj hj' heq).1
  exact hne ⟨hb, hl⟩

theorem outside {m b b' l l' j : ℕ} (hb : b < n) (hb' : b' < n) (hj : j < m)
    (hne : ¬(b = b' ∧ l = l')) :
    (l * n + b) * m + j < (l' * n + b') * m ∨ (l' * n + b') * m + m ≤ (l * n + b) * m + j := by
  by_contra hin
  push Not at hin
  obtain ⟨hlo, hhi⟩ := hin
  obtain ⟨i, hi⟩ := Nat.exists_eq_add_of_le hlo
  exact entry_ne hb hb' hj (show i < m by omega) hne hi

variable (cfg) in
def RowTables (n b : ℕ) (pages : KvPages) (t : ℕ × ℕ → ℤ) : Prop :=
  ∀ rank < cfg.dcpSize, ∀ l < cfg.layers, cfg.RowFilled pages rank l ((l * n + b) * cfg.maxBlocks) t

theorem tableRow_ok {t t' : ℕ × ℕ → ℤ} (hx : x.2 < n) (h : cfg.tableRow seqs n t x = .ok t') :
    cfg.RowTables n x.2 ((seqs x.1.seqId).getD []) t' ∧
    ∀ rank l b j, b < n → b ≠ x.2 → j < cfg.maxBlocks →
      t' (rank, (l * n + b) * cfg.maxBlocks + j) = t (rank, (l * n + b) * cfg.maxBlocks + j) := by
  unfold tableRow at h
  generalize (seqs x.1.seqId).getD [] = pages at h ⊢
  refine ⟨?_, ?_⟩
  · have hfilled := exceptLoop_establishes (I := fun _ => True) (P := fun k t =>
      cfg.RowFilled pages k.1 k.2 ((k.2 * n + x.2) * cfg.maxBlocks) t)
      (nodup_range.product nodup_range) (fun _ _ _ _ _ _ => trivial)
      (by
        intro t k t' _ _ ht j hj hreach
        exact (fillRow_ok _ ht).1 j (zero_le _) (by omega) fun i _ hi => hreach i hi)
      (by
        intro t k t' _ _ ht c _ hne hc j hj hreach
        obtain ⟨hrank, hentry⟩ := hc j hj hreach
        refine ⟨hrank, ?_⟩
        rw [(fillRow_ok _ ht).2 _ ?_, hentry]
        by_cases heq : c.1 = k.1
        · right
          have hl : ¬(x.2 = x.2 ∧ c.2 = k.2) := fun h => hne (Prod.ext heq h.2)
          exact outside hx hx hj hl
        · exact .inl heq)
      h trivial
    intro rank hrank l hl
    exact hfilled (rank, l) (mem_product.2 ⟨mem_range.2 hrank, mem_range.2 hl⟩)
  · intro rank l b j hb hne hj
    exact exceptLoop_invariant (P := fun s => s (rank, (l * n + b) * cfg.maxBlocks + j) =
        t (rank, (l * n + b) * cfg.maxBlocks + j)) _
      (by
        intro s k s' _ hs hs'
        rw [(fillRow_ok _ hs').2 _ (.inr (outside hb hx hj fun h => hne h.1)), hs])
      h rfl

variable (cfg) in
/-- The tables are what the pages of some sequences say, row by row. -/
def TablesBuilt (seqs : KvSequences) (ids : List ℕ) (t : ℕ × ℕ → ℤ) : Prop :=
  ∀ b id, ids[b]? = some id → cfg.RowTables ids.length b ((seqs id).getD []) t

theorem getElem?_ids {b id : ℕ} (h : (rows.map BatchEntry.seqId)[b]? = some id) :
    ∃ row, (row, b) ∈ rows.zipIdx ∧ row.seqId = id := by
  rw [getElem?_map, Option.map_eq_some_iff] at h
  obtain ⟨row, hrow, hid⟩ := h
  exact ⟨row, mem_zipIdx_iff_getElem?.mpr hrow, hid⟩

theorem buildTables_ok {t t' : ℕ × ℕ → ℤ} (h : cfg.buildTables seqs rows t = .ok t') :
    cfg.TablesBuilt seqs (rows.map BatchEntry.seqId) t' := by
  have hrows := exceptLoop_establishes (I := fun _ => True) (P := fun x t =>
    cfg.RowTables rows.length x.2 ((seqs x.1.seqId).getD []) t) (nodup_zipIdx rows)
    (fun _ _ _ _ _ _ => trivial)
    (fun _ _ _ hx _ ht => (tableRow_ok (mem_zipIdx hx).1 ht).1)
    (by
      intro t x t' hx _ ht y hy hne hrow rank hrank l hl j hj hreach
      obtain ⟨honrank, hentry⟩ := hrow rank hrank l hl j hj hreach
      refine ⟨honrank, ?_⟩
      rw [(tableRow_ok (mem_zipIdx hx).1 ht).2 rank l y.2 j (mem_zipIdx hy).1
        (zipIdx_index_ne hy hx hne) hj, hentry])
    h trivial
  intro b id hid
  obtain ⟨row, hmem, rfl⟩ := getElem?_ids hid
  rw [length_map]
  exact hrows _ hmem

theorem buildTables_total (t : ℕ × ℕ → ℤ)
    (h : ∀ row ∈ rows, ∀ rank < cfg.dcpSize, ∀ l < cfg.layers, ∀ j < cfg.maxBlocks,
      cfg.Reaches ((seqs row.seqId).getD []) rank j →
        cfg.OnRank rank (handleAt ((seqs row.seqId).getD []) (cfg.globalPage rank j) l)) :
    ∃ t', cfg.buildTables seqs rows t = .ok t' := by
  obtain ⟨t', ht', -⟩ := exceptLoop_total (P := fun _ => True) rows.zipIdx (f :=
    cfg.tableRow seqs rows.length)
    (by
      intro t x hx _
      obtain ⟨t', ht', -⟩ := exceptLoop_total (P := fun _ => True) (f := fun t k =>
        cfg.fillRow ((seqs x.1.seqId).getD []) k.1 k.2 ((k.2 * rows.length + x.2) * cfg.maxBlocks)
          cfg.maxBlocks 0 t) (range cfg.dcpSize ×ˢ range cfg.layers)
        (by
          intro t k hk _
          obtain ⟨hrank, hl⟩ := mem_product.1 hk
          have hfill : ∃ t', cfg.fillRow ((seqs x.1.seqId).getD []) k.1 k.2
              ((k.2 * rows.length + x.2) * cfg.maxBlocks) cfg.maxBlocks 0 t = .ok t' := by
            apply fillRow_total
            intro j _ hj hreach
            apply h x.1 (mem_zipIdx hx).2 k.1 (mem_range.1 hrank) k.2 (mem_range.1 hl) j
            · omega
            · exact fun i hi => hreach i (zero_le _) hi
          obtain ⟨t', ht'⟩ := hfill
          exact ⟨t', ht', trivial⟩)
        (s := t) trivial
      exact ⟨t', ht', trivial⟩)
    (s := cfg.zeroed (cfg.layers * rows.length * cfg.maxBlocks) t) trivial
  exact ⟨t', ht'⟩

/-! ### The full rebuild -/

theorem globalPage_mono (cfg : KvMetaConfig) (rank : ℕ) {i j : ℕ} (hij : i ≤ j) :
    cfg.globalPage rank i ≤ cfg.globalPage rank j := by
  unfold globalPage globalPageOfLocal
  by_cases hsh : cfg.sharded = true
  · rw [if_pos hsh, if_pos hsh]
    by_cases hone : cfg.dcpSize ≤ 1
    · rw [if_pos hone, if_pos hone]
      exact hij
    rw [if_neg hone, if_neg hone]
    generalize cfg.ppc = p
    rcases Nat.eq_zero_or_pos p with rfl | hp
    · simpa using hij
    have hdiv : i / p ≤ j / p := Nat.div_le_div_right hij
    rcases eq_or_lt_of_le hdiv with heq | hlt
    · have hi := div_add_mod i p
      have hj := div_add_mod j p
      rw [heq] at hi ⊢
      omega
    · -- the next cycle begins after all chunks of this one
      have hmod := mod_lt i hp
      have hcycle : i / p * cfg.dcpSize + rank + 1 ≤ j / p * cfg.dcpSize + rank := by
        have hmul := mul_le_mul_right cfg.dcpSize (succ_le_of_lt hlt)
        rw [succ_mul] at hmul
        omega
      have hpages := mul_le_mul_right p hcycle
      rw [succ_mul] at hpages
      omega
  · rw [if_neg hsh, if_neg hsh]
    exact hij

theorem reaches_iff {rank j : ℕ} :
    cfg.Reaches pages rank j ↔ cfg.globalPage rank j < pages.length :=
  ⟨fun h => h j le_rfl, fun h _ hi => (globalPage_mono cfg rank hi).trans_lt h⟩

theorem stageRow_total (ids : List ℕ) (n : ℕ) {p : Pass}
    (hpages : p.growth.seqs x.1.seqId = some pages)
    (hcovered : x.1.tokenPos / cfg.pageSize < pages.length)
    (htrash : ∀ rank < cfg.dcpSize, ¬cfg.NoTrash rank x.1.tokenPos) :
    ∃ p', cfg.stageRow ids n p x = .ok p' ∧ p'.growth = p.growth ∧
      (p.btDirty = true → p'.btDirty = true) := by
  unfold stageRow
  rw [ensurePages_covered hpages hcovered]
  simp only [hpages, Option.getD_some]
  rw [if_neg (not_le.2 hcovered)]
  generalize (if cfg.sharded = true then
      ({ p.staging with globalSeqlens :=
          Function.update p.staging.globalSeqlens x.2 ((x.1.tokenPos : ℤ) + 1) } : Staging)
      else p.staging) = st
  obtain ⟨st', hst', -⟩ := exceptLoop_total (P := fun _ => True) (s := st) (range cfg.dcpSize)
    (f := cfg.stageRank n x.2 x.1.tokenPos pages)
    (by
      intro st rank hrank _
      unfold stageRank
      rw [if_neg (htrash rank (mem_range.1 hrank))]
      exact ⟨_, rfl, trivial⟩)
    trivial
  rw [hst']
  refine ⟨_, rfl, rfl, fun hdirty => ?_⟩
  simp only [hdirty, Bool.true_or]

/-- **The full rebuild** succeeds where every row is covered and the pages are on their ranks, and
stages what the pages say. -/
theorem rebuild_ok {s : KvMetaState} (hchunk : ¬(cfg.sharded = true ∧ cfg.chunk % cfg.pageSize ≠ 0))
    (hrows : ∀ row ∈ rows, (∃ pages, s.seqs row.seqId = some pages ∧
      row.tokenPos / cfg.pageSize < pages.length) ∧
      ∀ rank < cfg.dcpSize, ¬cfg.NoTrash rank row.tokenPos)
    (hranks : ∀ row ∈ rows, ∀ rank < cfg.dcpSize, ∀ l < cfg.layers, ∀ j < cfg.maxBlocks,
      cfg.Reaches ((s.seqs row.seqId).getD []) rank j →
        cfg.OnRank rank (handleAt ((s.seqs row.seqId).getD []) (cfg.globalPage rank j) l)) :
    ∃ fresh, cfg.buildKvMetadata s.fail rows [] = (fresh, .ok) ∧ fresh.seqs = s.seqs ∧
      (∀ x ∈ rows.zipIdx, cfg.RowStaged rows.length x s.seqs fresh.staging) ∧
      cfg.TablesBuilt s.seqs (rows.map BatchEntry.seqId) fresh.staging.blockTables := by
  have hmiss : s.fail.hit rows = false := by
    cases rows with
    | nil => rfl
    | cons row rows => simp [KvMetaState.hit, KvMetaState.fail, KvMetaState.invalidateKvMeta]
  have hdirty : s.fail.dirtyAtStart rows.length = true := by
    simp [KvMetaState.dirtyAtStart, KvMetaState.fail, KvMetaState.invalidateKvMeta]
  unfold buildKvMetadata
  rw [hmiss]
  rw [if_neg hchunk]
  obtain ⟨p, hp, hgrowth, hpdirty⟩ := exceptLoop_total (P := fun p : Pass =>
      p.growth = ⟨s.seqs, false, []⟩ ∧ p.btDirty = true)
    (f := cfg.stageRow s.fail.btSeqIds rows.length)
    (s := ⟨⟨s.fail.seqs, false, []⟩, s.fail.dirtyAtStart rows.length,
      cfg.clearStaging rows.length s.fail.staging⟩) rows.zipIdx
    (by
      rintro p x hx ⟨hgrowth, hd⟩
      obtain ⟨⟨pages, hpages, hcovered⟩, htrash⟩ := hrows x.1 (mem_zipIdx hx).2
      have hknown : p.growth.seqs x.1.seqId = some pages := by rw [hgrowth, ← hpages]
      obtain ⟨p', hp', hsame, hd'⟩ := stageRow_total s.fail.btSeqIds rows.length hknown hcovered
        htrash
      exact ⟨p', hp', hsame.trans hgrowth, hd' hd⟩)
    ⟨rfl, hdirty⟩
  have hdone : cfg.Pass1Done s.fail.btSeqIds rows _ p := stageRows_ok (by
    rintro row _ ⟨a, ha, -⟩
    cases ha) hp
  rw [hp]
  simp only [hpdirty]
  have hpseqs : p.growth.seqs = s.seqs := by rw [hgrowth]
  rw [hpseqs]
  obtain ⟨t, ht⟩ := buildTables_total p.staging.blockTables hranks
  rw [ht]
  refine ⟨_, rfl, rfl, fun x hx => ?_, buildTables_ok ht⟩
  have hstaged := hdone.staged x hx
  rw [hpseqs] at hstaged
  exact { hstaged with }

end KvMetaConfig

end LayerStorm.Daemon
