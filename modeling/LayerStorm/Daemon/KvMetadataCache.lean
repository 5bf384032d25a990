import LayerStorm.Daemon.KvMetadataStaging

/-!
# The metadata cache is transparent

A call that finds the batch of the last one stages nothing, and a call that finds the pages of the
tables unchanged keeps the tables.  What is staged is then what a full rebuild would stage, if the
guards are right in what they take to be unchanged.

## Main results

* `kv_metadata_transparent` — over all runs whose guards are right.
-/

namespace LayerStorm.Daemon

open Lib List BatchEntry KvMetaState

namespace KvMetaConfig

variable {cfg : KvMetaConfig}

/-! ### Transparency -/

section

variable (cfg)

/-- **What is staged is what a full rebuild stages** from the rows of the batch and the pages as
they are, which it finds to be in order: for every row, rank and layer, and for the entries of the
tables whose pages are in the allocation and have not been demoted. -/
def Transparent (s : KvMetaState) (rows : List BatchEntry) : Prop :=
  ∃ fresh, cfg.buildKvMetadata s.fail rows [] = (fresh, .ok) ∧ fresh.seqs = s.seqs ∧
    ∀ b row, rows[b]? = some row →
      (cfg.sharded = true → s.staging.globalSeqlens b = fresh.staging.globalSeqlens b) ∧
      ∀ rank < cfg.dcpSize, s.staging.seqlensK (rank, b) = fresh.staging.seqlensK (rank, b) ∧
        ∀ l < cfg.layers, s.staging.slotMappings (rank, l * rows.length + b) =
            fresh.staging.slotMappings (rank, l * rows.length + b) ∧
          ∀ pages, s.seqs row.seqId = some pages →
            ∀ j < cfg.maxBlocks, cfg.globalPage rank j < pages.length →
              (handleAt pages (cfg.globalPage rank j) l).demoted = false →
              s.staging.blockTables (rank, (l * rows.length + b) * cfg.maxBlocks + j) =
                fresh.staging.blockTables (rank, (l * rows.length + b) * cfg.maxBlocks + j)

/-- The page that a row writes to has not been demoted. -/
def Resident (seqs : KvSequences) (row : BatchEntry) : Prop :=
  ∀ pages, seqs row.seqId = some pages → ∀ l < cfg.layers,
    (handleAt pages (row.tokenPos / cfg.pageSize) l).demoted = false

def KeepsTables (s : KvMetaState) (rows : List BatchEntry) : Prop :=
  s.hit rows = true ∨ s.dirtyAtStart rows.length = false ∧ s.btSeqIds = rows.map BatchEntry.seqId ∧
    ∀ row ∈ rows, ∀ pages, s.seqs row.seqId = some pages →
      row.tokenPos / cfg.pageSize < pages.length

/-- **The guards are right**: a batch that looks like the last one is the last one, and the pages it
writes to are still there; tables that are kept were built when the sequences had the pages they
have now; and no sweep takes a page that a row of the batch writes to. -/
def Meets (s : KvMetaState) : Op → Prop
  | .build rows tape =>
    (s.hit rows = true → rows = s.lastRows ∧ ∀ row ∈ rows, cfg.Resident s.seqs row) ∧
    (cfg.KeepsTables s rows →
      s.btLengths = KvMetaState.lengths s.seqs (rows.map BatchEntry.seqId)) ∧
    ∀ row ∈ rows, ¬Swept tape row.seqId (row.tokenPos / cfg.pageSize)
  | _ => True

/-- Some pages may have been demoted since, and there may be more of them. -/
abbrev Since (old new : KvSequences) : Prop := Drift (fun _ _ => True) old new

/-- What is staged for a batch is right, and its tables are those of the same pages. -/
structure Good (s : KvMetaState) (rows : List BatchEntry) : Prop where
  chunk : ¬(cfg.sharded = true ∧ cfg.chunk % cfg.pageSize ≠ 0)
  staged : ∀ x ∈ rows.zipIdx, cfg.RowStaged rows.length x s.seqs s.staging
  tables : ∃ seqs, Since seqs s.seqs ∧ KvMetaState.lengths seqs (rows.map BatchEntry.seqId) =
      KvMetaState.lengths s.seqs (rows.map BatchEntry.seqId) ∧
    cfg.TablesBuilt seqs (rows.map BatchEntry.seqId) s.staging.blockTables

end

variable {rows : List BatchEntry} {s : KvMetaState}

theorem Good.pages_then {seqs : KvSequences} (hsince : Since seqs s.seqs)
    (hlen : lengths seqs (rows.map seqId) =
      lengths s.seqs (rows.map seqId)) {row : BatchEntry} (hrow : row ∈ rows)
    {pages : KvPages} (hpages : s.seqs row.seqId = some pages) :
    ∃ pages₀, seqs row.seqId = some pages₀ ∧ pages₀.length = pages.length ∧
      ∀ j < pages.length, ∀ l, handleAt pages j l = handleAt pages₀ j l ∨
        handleAt pages j l = (handleAt pages₀ j l).demote := by
  cases hthen : seqs row.seqId with
  | none =>
    have hnone := hsince.none _ hthen
    rw [hpages] at hnone
    cases hnone
  | some pages₀ =>
    obtain ⟨pages', hpages', -, hhandles⟩ := hsince.some _ _ hthen
    rw [hpages] at hpages'
    cases hpages'
    have heq : pages₀.length = pages.length := by
      have hid := (map_inj_left.1 hlen) row.seqId (mem_map_of_mem hrow)
      rw [hthen, hpages] at hid
      exact Option.some.inj hid
    refine ⟨pages₀, rfl, heq, fun j hj l => ?_⟩
    rcases hhandles j (heq ▸ hj) l with h | ⟨-, h⟩
    · exact .inl h
    · exact .inr h

theorem Good.transparent (h : cfg.Good s rows) : cfg.Transparent s rows := by
  obtain ⟨seqs, hsince, hlen, hbuilt⟩ := h.tables
  have hrow : ∀ row ∈ rows, ∃ b, (row, b) ∈ rows.zipIdx := by
    intro row hrow
    obtain ⟨b, hb⟩ := getElem?_of_mem hrow
    exact ⟨b, mem_zipIdx_iff_getElem?.mpr hb⟩
  have hrows : ∀ row ∈ rows, (∃ pages, s.seqs row.seqId = some pages ∧
      row.tokenPos / cfg.pageSize < pages.length) ∧
      ∀ rank < cfg.dcpSize, ¬cfg.NoTrash rank row.tokenPos := by
    intro row hmem
    obtain ⟨b, hb⟩ := hrow row hmem
    obtain ⟨⟨pages, hpages, hcovered, -⟩, htrash, -, -⟩ := h.staged _ hb
    exact ⟨⟨pages, hpages, hcovered⟩, htrash⟩
  -- an entry of the tables, then and now
  have hentry : ∀ b row, (row, b) ∈ rows.zipIdx → ∀ pages, s.seqs row.seqId = some pages →
      ∀ rank < cfg.dcpSize, ∀ l < cfg.layers, ∀ j < cfg.maxBlocks,
        cfg.Reaches pages rank j → ∃ h₀ : KvHandle, cfg.OnRank rank h₀ ∧
          s.staging.blockTables (rank, (l * rows.length + b) * cfg.maxBlocks + j) = h₀.pageIdx ∧
          (handleAt pages (cfg.globalPage rank j) l = h₀ ∨
            handleAt pages (cfg.globalPage rank j) l = h₀.demote) := by
    intro b row hb pages hpages rank hrank l hl j hj hreach
    obtain ⟨pages₀, hthen, heq, hhandles⟩ :=
      Good.pages_then hsince hlen (mem_zipIdx hb).2 hpages
    have hid : (rows.map seqId)[b]? = some row.seqId := by
      rw [getElem?_map, mem_zipIdx_iff_getElem?.mp hb, Option.map_some]
    have hfilled := hbuilt b _ hid rank hrank l hl
    rw [hthen, length_map] at hfilled
    obtain ⟨honrank, hvalue⟩ := hfilled j hj fun i hi => heq ▸ hreach i hi
    exact ⟨_, honrank, hvalue, hhandles _ (reaches_iff.1 hreach) l⟩
  have hranks : ∀ row ∈ rows, ∀ rank < cfg.dcpSize, ∀ l < cfg.layers, ∀ j < cfg.maxBlocks,
      cfg.Reaches ((s.seqs row.seqId).getD []) rank j →
        cfg.OnRank rank (handleAt ((s.seqs row.seqId).getD []) (cfg.globalPage rank j) l) := by
    intro row hmem rank hrank l hl j hj hreach
    obtain ⟨⟨pages, hpages, -⟩, -⟩ := hrows row hmem
    obtain ⟨b, hb⟩ := hrow row hmem
    rw [hpages, Option.getD_some] at hreach ⊢
    obtain ⟨h₀, honrank, -, heq | heq⟩ := hentry b row hb pages hpages rank hrank l hl j hj hreach
    · rw [heq]
      exact honrank
    · rw [heq]
      exact honrank
  obtain ⟨fresh, hfresh, hseqs, hstaged, htables⟩ := rebuild_ok h.chunk hrows hranks
  refine ⟨fresh, hfresh, hseqs, fun b row hb => ?_⟩
  have hmem : (row, b) ∈ rows.zipIdx := mem_zipIdx_iff_getElem?.mpr hb
  obtain ⟨⟨pages, hpages, hcovered, hslots⟩, -, hlens, hglobal⟩ := h.staged _ hmem
  obtain ⟨⟨pages', hpages', -, hslots'⟩, -, hlens', hglobal'⟩ := hstaged _ hmem
  rw [hpages] at hpages'
  cases hpages'
  refine ⟨fun hsh => (hglobal hsh).trans (hglobal' hsh).symm, fun rank hrank =>
    ⟨(hlens rank hrank).trans (hlens' rank hrank).symm, fun l hl =>
      ⟨(hslots rank hrank l hl).trans (hslots' rank hrank l hl).symm, ?_⟩⟩⟩
  intro pages' hpages' j hj hreach hkept
  rw [hpages] at hpages'
  cases hpages'
  obtain ⟨h₀, -, hvalue, heq | heq⟩ :=
    hentry b row hmem pages hpages rank hrank l hl j hj (reaches_iff.2 hreach)
  · have hid : (rows.map seqId)[b]? = some row.seqId := by
      rw [getElem?_map, hb, Option.map_some]
    have hfilled := htables b _ hid rank hrank l hl
    rw [hpages, Option.getD_some, length_map] at hfilled
    rw [hvalue, (hfilled j hj (reaches_iff.2 hreach)).2, heq]
  · rw [heq] at hkept
    cases hkept

/-! ### Runs -/

variable (cfg) in
/-- What the guards stand for. -/
structure KvMetaInv (s : KvMetaState) : Prop where
  epochs : ∀ e, s.builtEpoch = some e → e ≤ s.pagesEpoch
  tables : s.builtEpoch = some s.pagesEpoch → ∃ seqs, Since seqs s.seqs ∧
    s.btLengths = KvMetaState.lengths seqs s.btSeqIds ∧
    cfg.TablesBuilt seqs s.btSeqIds s.staging.blockTables
  rows : s.lastBatchSize ≠ none → ¬(cfg.sharded = true ∧ cfg.chunk % cfg.pageSize ≠ 0) ∧
    s.builtEpoch = some s.pagesEpoch ∧ s.btSeqIds = s.lastRows.map BatchEntry.seqId ∧
    ∃ seqs, Since seqs s.seqs ∧
      ∀ x ∈ s.lastRows.zipIdx, cfg.RowStaged s.lastRows.length x seqs s.staging

namespace KvMetaInv

theorem init (st : Staging) : cfg.KvMetaInv (.init st) :=
  ⟨fun _ h => (by cases h), fun h => (by cases h), fun h => absurd rfl h⟩

variable {s : KvMetaState}

theorem since (h : cfg.KvMetaInv s) {seqs : KvSequences} (hsince : Since s.seqs seqs) :
    cfg.KvMetaInv { s with seqs := seqs } := by
  refine ⟨h.epochs, fun hbuilt => ?_, fun hlast => ?_⟩
  · obtain ⟨old, hold, hlen, htables⟩ := h.tables hbuilt
    exact ⟨old, hold.trans hsince, hlen, htables⟩
  · obtain ⟨hchunk, hbuilt, hids, old, hold, hrows⟩ := h.rows hlast
    exact ⟨hchunk, hbuilt, hids, old, hold.trans hsince, hrows⟩

theorem invalidate (h : cfg.KvMetaInv s) (seqs : KvSequences) :
    cfg.KvMetaInv { s with seqs := seqs }.invalidateKvMeta := by
  refine ⟨fun e he => (h.epochs e he).trans (Nat.le_succ _), fun hbuilt => ?_,
    fun hlast => absurd rfl hlast⟩
  exact absurd (h.epochs _ hbuilt) (Nat.not_succ_le_self _)

theorem fail (s : KvMetaState) : cfg.KvMetaInv s.fail :=
  ⟨fun _ h => (by cases h), fun h => (by cases h), fun h => absurd rfl h⟩

variable {rows : List BatchEntry} {tape : List PageAttempt}

theorem hit (h : cfg.KvMetaInv s) (hm : cfg.Meets s (.build rows tape)) (hhit : s.hit rows = true) :
    cfg.Good s rows := by
  obtain ⟨hsame, hkept, -⟩ := hm
  obtain ⟨hrows, hresident⟩ := hsame hhit
  have hlast : s.lastBatchSize ≠ none := by
    intro hnone
    cases rows with
    | nil => cases hhit
    | cons row rows =>
      unfold hit at hhit
      rw [hnone, decide_eq_true_eq] at hhit
      cases hhit.1
  obtain ⟨hchunk, hbuilt, hids, seqs, hsince, hstaged⟩ := h.rows hlast
  obtain ⟨old, hold, hlen, htables⟩ := h.tables hbuilt
  rw [← hrows] at hids hstaged
  refine ⟨hchunk, fun x hx => ?_, old, hold, ?_, hids ▸ htables⟩
  · apply (hstaged x hx).mono hsince
    · exact fun pages hpages _ => hresident x.1 (mem_zipIdx hx).2 pages hpages
    · exact ⟨fun _ => rfl, fun _ _ => rfl, rfl⟩
  · rw [← hids, ← hlen, hkept (.inl hhit), hids]

theorem of_recorded (hepochs : ∀ e, s.builtEpoch = some e → e ≤ s.pagesEpoch)
    (hbuilt : s.builtEpoch = some s.pagesEpoch) (hids : s.btSeqIds = rows.map seqId)
    (hlast : s.lastRows = rows)
    (hlen : s.btLengths = lengths s.seqs (rows.map seqId))
    (h : cfg.Good s rows) : cfg.KvMetaInv s := by
  obtain ⟨seqs, hsince, hsame, htables⟩ := h.tables
  refine ⟨hepochs, fun _ => ⟨seqs, hsince, ?_, hids ▸ htables⟩, fun _ => ?_⟩
  · rw [hlen, hids, hsame]
  · subst hlast
    exact ⟨h.chunk, hbuilt, hids, s.seqs, .refl _ _, h.staged⟩

theorem kept (h : cfg.KvMetaInv s) {p : Pass} (hdone : cfg.Pass1Done s.btSeqIds rows
      ⟨⟨s.seqs, false, tape⟩, s.dirtyAtStart rows.length, cfg.clearStaging rows.length s.staging⟩ p)
    (hdirty : p.btDirty = false) (hkept : cfg.KeepsTables s rows →
      s.btLengths = lengths s.seqs (rows.map seqId)) :
    s.builtEpoch = some s.pagesEpoch ∧ s.btSeqIds = rows.map seqId ∧
    s.btLengths = lengths p.growth.seqs (rows.map seqId) ∧
    ∃ seqs, Since seqs p.growth.seqs ∧ lengths seqs (rows.map seqId) =
        lengths p.growth.seqs (rows.map seqId) ∧
      cfg.TablesBuilt seqs (rows.map seqId) p.staging.blockTables := by
  obtain ⟨hclean, hsame, hids⟩ := hdone.clean hdirty
  have hstart := hclean
  simp only [dirtyAtStart, decide_eq_false_iff_not, not_or, not_not] at hstart
  obtain ⟨hbuilt, -, hsize⟩ := hstart
  have hidsEq : s.btSeqIds = rows.map seqId := by
    apply ext_getElem?
    intro b
    rw [getElem?_map]
    cases hb : rows[b]? with
    | none =>
      rw [Option.map_none]
      rw [getElem?_eq_none_iff] at hb ⊢
      exact hsize ▸ hb
    | some row =>
      exact hids (row, b) (mem_zipIdx_iff_getElem?.mpr hb)
  have hlengths : lengths p.growth.seqs (rows.map seqId) = lengths s.seqs (rows.map seqId) :=
    map_congr_left fun id _ => hsame id
  -- no row needed more pages
  have hcovered : ∀ row ∈ rows, ∀ pages, s.seqs row.seqId = some pages →
      row.tokenPos / cfg.pageSize < pages.length := by
    intro row hrow pages hpages
    obtain ⟨b, hb⟩ := getElem?_of_mem hrow
    obtain ⟨⟨pages', hpages', hcov, -⟩, -⟩ :=
      hdone.staged (row, b) (mem_zipIdx_iff_getElem?.mpr hb)
    have hlen : (p.growth.seqs row.seqId).map length =
        (s.seqs row.seqId).map length := hsame row.seqId
    rw [hpages', hpages] at hlen
    exact (Option.some.inj hlen) ▸ hcov
  obtain ⟨old, hold, hlen, htables⟩ := h.tables hbuilt
  have hthen := (hkept (.inr ⟨hclean, hidsEq, hcovered⟩)).trans hlengths.symm
  have hsince : Since s.seqs p.growth.seqs := hdone.drift.mono fun _ _ _ => trivial
  have hbt : p.staging.blockTables = s.staging.blockTables := hdone.tables
  refine ⟨hbuilt, hidsEq, hthen, old, hold.trans hsince, ?_, ?_⟩
  · rw [← hthen, hlen, hidsEq]
  · rw [hbt, ← hidsEq]
    exact htables

theorem build (h : cfg.KvMetaInv s) (hm : cfg.Meets s (.build rows tape)) :
    cfg.KvMetaInv (cfg.buildKvMetadata s rows tape).1 ∧
    ((cfg.buildKvMetadata s rows tape).2 = .ok →
      cfg.Good (cfg.buildKvMetadata s rows tape).1 rows) := by
  by_cases hhit : s.hit rows = true
  · unfold buildKvMetadata
    rw [if_pos hhit]
    exact ⟨h, fun _ => h.hit hm hhit⟩
  obtain ⟨-, hkept, hswept⟩ := hm
  unfold buildKvMetadata
  rw [if_neg hhit]
  by_cases hchunk : cfg.sharded = true ∧ cfg.chunk % cfg.pageSize ≠ 0
  · rw [if_pos hchunk]
    exact ⟨.fail _, fun hok => (by cases hok)⟩
  rw [if_neg hchunk]
  cases hpass : rows.zipIdx.foldlM (cfg.stageRow s.btSeqIds rows.length)
      ⟨⟨s.seqs, false, tape⟩, s.dirtyAtStart rows.length,
        cfg.clearStaging rows.length s.staging⟩ with
  | error p => exact ⟨.fail _, fun hok => (by cases hok)⟩
  | ok p =>
    have hdone : cfg.Pass1Done s.btSeqIds rows _ p := stageRows_ok hswept hpass
    -- the arrays of a row do not depend on the tables
    have hrows : ∀ t : ℕ × ℕ → ℤ, ∀ x ∈ rows.zipIdx,
        cfg.RowStaged rows.length x p.growth.seqs { p.staging with blockTables := t } := by
      intro t x hx
      have hrow := hdone.staged x hx
      exact { hrow with }
    simp only
    cases hdirty : p.btDirty with
    | true =>
      cases htables : cfg.buildTables p.growth.seqs rows p.staging.blockTables with
      | error t => exact ⟨.fail _, fun hok => (by cases hok)⟩
      | ok t =>
        have hgood : cfg.Good (({ s with
            seqs := p.growth.seqs
            staging := { p.staging with blockTables := t } }.recordRows rows).recordTables rows)
            rows := ⟨hchunk, hrows t, p.growth.seqs, .refl _ _, rfl, buildTables_ok htables⟩
        refine ⟨of_recorded ?_ rfl rfl rfl rfl hgood, fun _ => hgood⟩
        intro e he
        cases he
        exact le_rfl
    | false =>
      obtain ⟨hbuilt, hids, hlen, hold⟩ := h.kept hdone hdirty hkept
      have hgood : cfg.Good
          ({ s with seqs := p.growth.seqs, staging := p.staging }.recordRows rows) rows :=
        ⟨hchunk, hrows p.staging.blockTables, hold⟩
      exact ⟨of_recorded h.epochs hbuilt hids rfl hlen hgood, fun _ => hgood⟩

theorem step (h : cfg.KvMetaInv s) {op : Op} (hm : cfg.Meets s op) :
    cfg.KvMetaInv (cfg.step s op) := by
  cases op with
  | build rows tape => exact (h.build hm).1
  | install seqId pages | invalidate => exact h.invalidate _
  | seqFree seqId =>
    simp only [KvMetaConfig.step]
    by_cases hnone : s.seqs seqId = none
    · rw [if_pos hnone]
      exact h
    · rw [if_neg hnone]
      exact h.invalidate _
  | allocPage seqId j l answer =>
    simp only [KvMetaConfig.step]
    cases s.seqs seqId with
    | none => exact h
    | some pages =>
      cases answer with
      | none => exact h
      | some handle =>
        simp only
        by_cases hin : j < pages.length ∧ l < cfg.layers
        · rw [if_pos hin]
          exact h.invalidate _
        · rw [if_neg hin]
          exact h
  | freePage key v4 =>
    cases v4 with
    | true => exact h.invalidate _
    | false => exact h.since ((freePage_drift s.seqs key).mono fun _ _ _ => trivial)
  | restore seqId tokenCount tape readable =>
    simp only [KvMetaConfig.step]
    by_cases hnone : s.seqs seqId = none
    · rw [if_pos hnone]
      exact h
    rw [if_neg hnone]
    have hgrown : Grown seqId ⟨s.seqs, false, tape⟩
        (cfg.ensurePages seqId (tokenCount - 1) ⟨s.seqs, false, tape⟩).1 := ensurePages_spec _ _ _
    cases ((cfg.ensurePages seqId (tokenCount - 1) ⟨s.seqs, false, tape⟩).2 && readable) with
    | true => exact h.invalidate _
    | false => exact h.since (hgrown.drift.mono fun _ _ _ => trivial)

end KvMetaInv

/-- **The cache is transparent in every run whose guards are right**: a call that returns `ok`
leaves staged what a full rebuild stages. -/
theorem kv_metadata_transparent (cfg : KvMetaConfig) {st : Staging} {ops : List Op}
    {s : KvMetaState} {rows : List BatchEntry} {tape : List PageAttempt}
    (hrun : GuardedRun (fun s op => some (cfg.step s op)) cfg.Meets (.init st) ops s)
    (hm : cfg.Meets s (.build rows tape)) (hok : (cfg.buildKvMetadata s rows tape).2 = .ok) :
    cfg.Transparent (cfg.buildKvMetadata s rows tape).1 rows := by
  have hinv : cfg.KvMetaInv s := by
    apply hrun.invariant _ (.init st)
    intro t op u ht hop hu
    cases hu
    exact ht.step hop
  exact ((hinv.build hm).2 hok).transparent

end KvMetaConfig

open KvMetaConfig

/-- One layer on one rank, in pages of four tokens. -/
def oneRank : KvMetaConfig where
  layers := 1
  pageSize := 4
  maxBlocks := 4
  chunkSizePages := 1
  dcpSize := 1
  kvSharded := false
  dcpChunkTokens := 0
  routesByToken := false
  dcpGpuForToken := fun _ => 0
  rankGpu := fun _ => 0
  trashSlotBase := fun _ => -1
  layerTakesKMainPage := fun _ => true
  tiering := false

/-- Arrays of zeros. -/
def noStaging : Staging := ⟨fun _ => 0, fun _ => 0, fun _ => 0, fun _ => 0⟩

def mainPage (pageIdx : ℤ) : List KvHandle := [⟨0, pageIdx, .main, false⟩]

/-- The second token of a sequence: the tables are kept, the rest is staged again. -/
theorem kv_metadata_transparent_second_token : ∃ s : KvMetaState,
    GuardedRun (fun s op => some (oneRank.step s op)) oneRank.Meets (.init noStaging)
      [.install 7 [mainPage 5], .build [⟨7, 0⟩] []] s ∧
    oneRank.Meets s (.build [⟨7, 1⟩] []) ∧
    (oneRank.buildKvMetadata s [⟨7, 1⟩] []).2 = .ok ∧
    oneRank.Transparent (oneRank.buildKvMetadata s [⟨7, 1⟩] []).1 [⟨7, 1⟩] := by
  have hnone : ∀ id j, ¬Swept [] id j := by
    rintro id j ⟨a, ha, -⟩
    cases ha
  obtain ⟨s₁, hs₁⟩ : ∃ s, s = oneRank.step (.init noStaging) (.install 7 [mainPage 5]) := ⟨_, rfl⟩
  obtain ⟨s₂, hs₂⟩ : ∃ s, s = oneRank.step s₁ (.build [⟨7, 0⟩] []) := ⟨_, rfl⟩
  have hfirst : oneRank.Meets s₁ (.build [⟨7, 0⟩] []) := by
    subst hs₁
    refine ⟨fun h => (by cases h), ?_, fun row _ => hnone _ _⟩
    rintro (h | ⟨h, -⟩)
    · cases h
    · cases h
  have hsecond : oneRank.Meets s₂ (.build [⟨7, 1⟩] []) := by
    subst hs₂ hs₁
    exact ⟨fun h => (by cases h), fun _ => rfl, fun row _ => hnone _ _⟩
  have hok : (oneRank.buildKvMetadata s₂ [⟨7, 1⟩] []).2 = .ok := by
    subst hs₂ hs₁
    rfl
  have hrun : GuardedRun (fun s op => some (oneRank.step s op)) oneRank.Meets (.init noStaging)
      [.install 7 [mainPage 5], .build [⟨7, 0⟩] []] s₂ :=
    .cons trivial (congrArg some hs₁.symm) (.cons hfirst (congrArg some hs₂.symm) (.nil s₂))
  exact ⟨s₂, hrun, hsecond, hok, KvMetaConfig.kv_metadata_transparent oneRank hrun hsecond hok⟩

/-- **What the guards miss**: a batch that differs from the last one in its second row only keeps
the slot of the old row, and a restore that fails after it has added a page leaves tables in use
that do not have it. -/
theorem guards_miss_row_and_growth :
    (∃ s : KvMetaState, Run (fun s op => some (oneRank.step s op)) (.init noStaging)
        [.install 7 [mainPage 5], .install 8 [mainPage 6], .install 9 [mainPage 1],
          .build [⟨7, 0⟩, ⟨8, 0⟩] []] s ∧
      (oneRank.buildKvMetadata s [⟨7, 0⟩, ⟨9, 0⟩] []).2 = .ok ∧
      ¬oneRank.Transparent (oneRank.buildKvMetadata s [⟨7, 0⟩, ⟨9, 0⟩] []).1 [⟨7, 0⟩, ⟨9, 0⟩]) ∧
    ∃ s : KvMetaState, Run (fun s op => some (oneRank.step s op)) (.init noStaging)
        [.install 7 [mainPage 5], .build [⟨7, 0⟩] [],
          .restore 7 5 [⟨some ⟨0, 6, .main, false⟩, 0, [], none⟩] false] s ∧
      (oneRank.buildKvMetadata s [⟨7, 0⟩] []).2 = .ok ∧
      ¬oneRank.Transparent (oneRank.buildKvMetadata s [⟨7, 0⟩] []).1 [⟨7, 0⟩] := by
  refine ⟨⟨_, Run.of_foldlM rfl, rfl, ?_⟩, ⟨_, Run.of_foldlM rfl, rfl, ?_⟩⟩
  · rintro ⟨fresh, hfresh, -, hrows⟩
    obtain rfl := congrArg Prod.fst hfresh
    have hslot := (((hrows 1 ⟨9, 0⟩ rfl).2 0 (by decide)).2 0 (by decide)).1
    revert hslot
    decide
  · rintro ⟨fresh, hfresh, -, hrows⟩
    obtain rfl := congrArg Prod.fst hfresh
    have hentry := (((hrows 0 ⟨7, 0⟩ rfl).2 0 (by decide)).2 0 (by decide)).2
      [mainPage 5, mainPage 6] rfl 1 (by decide) (by decide) rfl
    revert hentry
    decide

end LayerStorm.Daemon
