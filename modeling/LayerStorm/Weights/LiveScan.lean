import LayerStorm.Weights.LiveSource

/-!
# Both paths find the same slices

The weight loader and the live source walk the tensors of the shards in the same order.  For each
layer, projection and expert, the bundle that the packer will take is the slice that the live source
reads.
-/

namespace LayerStorm.Weights

open GgufModel
open Function List

def ProjSource.bundle (ps : ProjSource) (s : Shard) (c : TensorComponent) (e : ℕ) : Bundle where
  component := c
  data := ⟨s.base + ps.absOffset + e * ps.perExpertBytes, ps.perExpertBytes⟩
  dtype := .u8
  ggufType := some ps.kquant
  aux := []

/-- The bundles collected so far and the slices found so far agree. -/
structure Stacked (M : GgufModel) (experts : Experts) (table : LayerTable) : Prop where
  /-- The bundle that the packer takes is the slice that is read. -/
  last : ∀ l < M.numHiddenLayers, ∀ c p, c.projection = some p → ∀ e < M.nRoutedExperts,
    lastBundle ((experts l).getD e []) c =
      (table l p).bind fun ps => M.shards[ps.shardIdx]?.map fun s => ps.bundle s c e
  typed : ∀ l, ∀ bundles ∈ experts l, ∀ b ∈ bundles, b.ggufType.isSome
  /-- The slices lie in their shards. -/
  inside : ∀ l p ps, table l p = some ps → ∃ s, M.shards[ps.shardIdx]? = some s ∧
    ps.absOffset + M.nRoutedExperts * ps.perExpertBytes ≤ s.file.length

variable {M : GgufModel} {experts experts' : Experts} {table table' : LayerTable}

theorem lastBundle_append (bundles : List Bundle) (b : Bundle) (c : TensorComponent) :
    lastBundle (bundles ++ [b]) c = if b.component = c then some b else lastBundle bundles c := by
  by_cases h : b.component = c <;> simp [lastBundle, filter_append, h]

variable {p : Projection}

theorem projection_inj {c c' : TensorComponent} (h : c.projection = some p)
    (h' : c'.projection = some p) : c = c' := by
  cases p <;> cases c <;> cases h <;> cases c' <;> first | rfl | cases h'

variable {entry : GgufEntry}

theorem perExpertBytes_eq {who who' : String} {x y : KQuant × ℕ}
    (h : M.perExpertBytes who entry = .ok x) (h' : M.perExpertBytes who' entry = .ok y) :
    x = y := by
  unfold GgufModel.perExpertBytes at h h'
  split at h
  · next heq =>
    rw [heq] at h'
    dsimp only at h'
    split at h
    · cases h
    next hn =>
    rw [if_neg hn] at h'
    split at h
    · cases h
    next kt hkt =>
    simp only [hkt, bind_eq_ok] at h h'
    obtain ⟨n, hsize, -, -, h⟩ := h
    obtain ⟨n', hsize', -, -, h'⟩ := h'
    rw [hsize] at hsize'
    cases hsize'
    cases h
    cases h'
    rfl
  · cases h

theorem perExpertBytes_mul {who : String} {kt : KQuant} {n : ℕ}
    (h : M.perExpertBytes who entry = .ok (kt, n)) :
    M.nRoutedExperts * n = entry.dataSizeBytes := by
  unfold GgufModel.perExpertBytes at h
  split at h
  · split at h
    · cases h
    next hn =>
    split at h
    · cases h
    simp only [bind_eq_ok] at h
    obtain ⟨n', -, u, hcheck, h⟩ := h
    cases h
    unfold check at hcheck
    split at hcheck
    · next hmul =>
      rw [not_not.1 hn] at hmul
      rw [Nat.mul_comm]
      exact hmul
    · cases hcheck
  · cases h

variable {x : ℕ × Shard × GgufEntry}

theorem mem_tensors (h : x ∈ M.tensors) : M.shards[x.1]? = some x.2.1 ∧ x.2.2 ∈ x.2.1.entries := by
  obtain ⟨⟨s, i⟩, hs, hx⟩ := mem_flatMap.1 h
  obtain ⟨e, he, rfl⟩ := mem_map.1 hx
  exact ⟨mem_zipIdx_iff_getElem?.mp hs, he⟩

theorem nRouted_le_live : M.numHiddenLayers ≤ M.nLiveLayers := Nat.le_add_right _ _

variable {id : TensorId}

theorem destack_spec {s : Shard} (h : M.destackExpertTensor experts id s entry = .ok experts') :
    (M.numHiddenLayers ≤ id.layerIdx ∧ experts' = experts) ∨
      (id.layerIdx < M.numHiddenLayers ∧ ∃ who kt n, M.perExpertBytes who entry = .ok (kt, n) ∧
        (∀ l, l ≠ id.layerIdx → experts' l = experts l) ∧
        (∀ e < M.nRoutedExperts, (experts' id.layerIdx).getD e [] =
          (experts id.layerIdx).getD e [] ++ [stackedBundle s entry id.component kt n e]) ∧
        ∀ bundles ∈ experts' id.layerIdx, ∀ b ∈ bundles,
          (∃ old ∈ experts id.layerIdx, b ∈ old) ∨ b.ggufType.isSome) := by
  unfold GgufModel.destackExpertTensor at h
  split at h
  · next hle =>
    cases h
    exact .inl ⟨hle, rfl⟩
  next hlt =>
  simp only [bind_eq_ok] at h
  obtain ⟨⟨kt, n⟩, hper, h⟩ := h
  cases h
  refine .inr ⟨Nat.not_le.1 hlt, _, kt, n, hper, fun l hl => update_of_ne hl .., ?_, ?_⟩
  · intro e he
    rw [update_self, getD_eq_getElem?_getD, getElem?_mapIdx, getD_eq_getElem?_getD]
    rcases Nat.lt_or_ge e (experts id.layerIdx).length with hlt | hge
    · rw [getElem?_append_left hlt, getElem?_eq_getElem hlt]
      simp [he]
    -- the list is filled up with empty ones
    have hlt : e - (experts id.layerIdx).length <
        M.nRoutedExperts - (experts id.layerIdx).length := by omega
    rw [getElem?_append_right hge, getElem?_replicate_of_lt hlt, getElem?_eq_none hge]
    simp [he]
  · intro bundles hb b hbb
    rw [update_self] at hb
    obtain ⟨e, he, rfl⟩ := mem_mapIdx.1 hb
    have hold : ∀ b ∈ (experts id.layerIdx ++ replicate
        (M.nRoutedExperts - (experts id.layerIdx).length) [])[e],
        ∃ old ∈ experts id.layerIdx, b ∈ old := by
      intro b hb
      rcases mem_append.1 (getElem_mem he) with hmem | hmem
      · exact ⟨_, hmem, hb⟩
      · rw [eq_of_mem_replicate hmem] at hb
        cases hb
    split at hbb
    · rcases mem_append.1 hbb with hbb | hbb
      · exact .inl (hold b hbb)
      · rw [mem_singleton.1 hbb]
        exact .inr rfl
    · exact .inl (hold b hbb)

theorem scan_spec (hid : x.2.2.id = some id) (hrouted : id.routedExpert = true)
    (h : M.scanTensor table x = .ok table') :
    (id.component.projection = none ∧ table' = table) ∨
      ∃ p, id.component.projection = some p ∧ ∃ who kt n, M.perExpertBytes who x.2.2 = .ok (kt, n) ∧
          ((M.nLiveLayers ≤ id.layerIdx ∧ table' = table) ∨
            (id.layerIdx < M.nLiveLayers ∧ table' = update table id.layerIdx
              (update (table id.layerIdx) p
                (some ⟨x.1, x.2.1.dataBlobOffset + x.2.2.dataOffset, n, kt⟩)))) := by
  simp only [scanTensor, hid, hrouted, if_true] at h
  split at h
  · next hproj =>
    cases h
    exact .inl ⟨hproj, rfl⟩
  next p hproj =>
  simp only [bind_eq_ok] at h
  obtain ⟨⟨kt, n⟩, hper, h⟩ := h
  refine .inr ⟨p, hproj, _, kt, n, hper, ?_⟩
  split at h
  · next hle =>
    split at h
    · cases h
      exact .inl ⟨hle, rfl⟩
    · cases h
  · next hlt =>
    cases h
    exact .inr ⟨Nat.not_le.1 hlt, rfl⟩

theorem inside_update (h : ∀ l p ps, table l p = some ps → ∃ s, M.shards[ps.shardIdx]? = some s ∧
      ps.absOffset + M.nRoutedExperts * ps.perExpertBytes ≤ s.file.length) {l : ℕ} {ps : ProjSource}
    {s : Shard} (hs : M.shards[ps.shardIdx]? = some s)
    (hle : ps.absOffset + M.nRoutedExperts * ps.perExpertBytes ≤ s.file.length) :
    ∀ l' p' ps', update table l (update (table l) p (some ps)) l' p' = some ps' →
      ∃ s, M.shards[ps'.shardIdx]? = some s ∧
        ps'.absOffset + M.nRoutedExperts * ps'.perExpertBytes ≤ s.file.length := by
  intro l' p' ps' htable
  by_cases hl : l' = l
  · subst hl
    rw [update_self] at htable
    by_cases hp : p' = p
    · subst hp
      rw [update_self] at htable
      cases htable
      exact ⟨s, hs, hle⟩
    · rw [update_of_ne hp] at htable
      exact h l' p' ps' htable
  · rw [update_of_ne hl] at htable
    exact h l' p' ps' htable

namespace Stacked

theorem scan (h : Stacked M experts table) {x : ℕ × Shard × GgufEntry} (hx : x ∈ M.tensors)
    (hload : M.loadTensor experts x = .ok experts') (hscan : M.scanTensor table x = .ok table') :
    Stacked M experts' table' := by
  obtain ⟨hshard, hentry⟩ := mem_tensors hx
  rcases hid : x.2.2.id with _ | id
  · simp only [loadTensor, hid] at hload
    simp only [scanTensor, hid] at hscan
    cases hload
    cases hscan
    exact h
  by_cases hrouted : id.routedExpert = true
  · simp only [loadTensor, hid, hrouted] at hload
    have hfits := x.2.1.fits _ hentry
    rcases destack_spec hload with ⟨hle, rfl⟩ | ⟨hlt, who, kt, n, hper, hother, hpush, htyped⟩
    · -- the loader leaves the layer out; the table may know it
      rcases scan_spec hid hrouted hscan with ⟨-, rfl⟩ | ⟨p, hproj, who', kt', n', hper', hrest⟩
      · exact h
      rcases hrest with ⟨-, rfl⟩ | ⟨-, rfl⟩
      · exact h
      have hmul := perExpertBytes_mul hper'
      refine ⟨fun l hl c p' hp e he => ?_, h.typed, inside_update h.inside hshard ?_⟩
      · rw [update_of_ne (by omega)]
        exact h.last l hl c p' hp e he
      · dsimp only
        omega
    · have htyped' : ∀ l, ∀ bundles ∈ experts' l, ∀ b ∈ bundles, b.ggufType.isSome := by
        intro l bundles hb b hbb
        by_cases hl : l = id.layerIdx
        · subst hl
          rcases htyped bundles hb b hbb with ⟨old, hold, hbo⟩ | hsome
          · exact h.typed _ old hold b hbo
          · exact hsome
        · rw [hother l hl] at hb
          exact h.typed l bundles hb b hbb
      rcases scan_spec hid hrouted hscan with ⟨hproj, rfl⟩ | ⟨p, hproj, who', kt', n', hper', hrest⟩
      · -- an auxiliary tensor: the packer does not look at it
        refine ⟨fun l hl c p' hp e he => ?_, htyped', h.inside⟩
        by_cases hll : l = id.layerIdx
        · subst hll
          rw [hpush e he, lastBundle_append, if_neg (fun heq => ?_)]
          · exact h.last _ hl c p' hp e he
          · have hcomp : id.component = c := heq
            rw [hcomp, hp] at hproj
            cases hproj
        · rw [hother l hll]
          exact h.last l hl c p' hp e he
      · have heq := perExpertBytes_eq hper hper'
        cases heq
        have hmul := perExpertBytes_mul hper
        rcases hrest with ⟨hle, -⟩ | ⟨-, rfl⟩
        · exact absurd (nRouted_le_live.trans hle) (Nat.not_le.2 hlt)
        refine ⟨fun l hl c p' hp e he => ?_, htyped', inside_update h.inside hshard ?_⟩
        · by_cases hll : l = id.layerIdx
          · subst hll
            rw [hpush e he, lastBundle_append, update_self, stackedBundle_component]
            by_cases hc : id.component = c
            · subst hc
              rw [hproj] at hp
              cases hp
              rw [if_pos rfl, update_self, Option.bind_some, hshard]
              rfl
            · have hne : p' ≠ p := fun heq => hc (projection_inj hproj (heq ▸ hp))
              rw [if_neg hc, update_of_ne hne]
              exact h.last _ hl c p' hp e he
          · rw [hother l hll, update_of_ne hll]
            exact h.last l hl c p' hp e he
        · dsimp only
          omega
  · have hfalse : id.routedExpert = false := Bool.not_eq_true _ ▸ hrouted
    simp only [loadTensor, hid, hfalse] at hload
    cases hload
    simp only [scanTensor, hid, hfalse] at hscan
    split at hscan
    · cases hscan
      exact h
    · cases hscan
      exact h

theorem empty : Stacked M M.emptyExperts fun _ _ => none where
  last l _ c p _ e _ := by
    unfold emptyExperts
    split
    · rw [getD_eq_getElem?_getD, getElem?_replicate]
      split <;> rfl
    · rfl
  typed l bundles hb b hbb := by
    unfold emptyExperts at hb
    split at hb
    · rw [eq_of_mem_replicate hb] at hbb
      cases hbb
    · cases hb
  inside _ _ _ h := by cases h

theorem scanAll (h : Stacked M experts table) {xs : List (ℕ × Shard × GgufEntry)}
    (hxs : ∀ x ∈ xs, x ∈ M.tensors) (hload : xs.foldlM M.loadTensor experts = .ok experts')
    (hscan : xs.foldlM M.scanTensor table = .ok table') : Stacked M experts' table' := by
  induction xs generalizing experts table with
  | nil =>
    cases hload
    cases hscan
    exact h
  | cons x xs ih =>
    rw [foldlM_cons, bind_eq_ok] at hload hscan
    obtain ⟨experts₁, hx, hload⟩ := hload
    obtain ⟨table₁, hx', hscan⟩ := hscan
    exact ih (h.scan (hxs x mem_cons_self) hx hx')
      (fun y hy => hxs y (mem_cons_of_mem _ hy)) hload hscan

end Stacked

/-- **Both paths find the same slices.** -/
theorem stacked_of_load (hload : M.loadRoutedExperts = .ok experts)
    (hscan : M.tensors.foldlM M.scanTensor (fun _ _ => none) = .ok table) :
    Stacked M experts table :=
  Stacked.empty.scanAll (fun _ h => h) hload hscan

end LayerStorm.Weights
