import LayerStorm.Weights.LiveRead

/-!
# The live source serves the prepacked slots

For every model that both paths accept, the bytes that the live source puts in a slot are those that
the prepacker has written to the file of the expert at the position of the layer.  Direct reads cover
whole sectors around a slice; what is handed on from them to the slot is the slice.

## Main results

* `live_slot_eq_prepacked` — the live slot is the prepacked one.
* `direct_window_exceeds_slice` — a direct read reads bytes outside the slice.
-/

namespace LayerStorm.Weights

open GgufModel LiveSource

variable {M : GgufModel} {quant : QuantInterface} {direct : ℕ → Bool} {S : LiveSource}
  {packers : Packers} {path : String} {freshness : ℕ × String} {src : Source} {ei l : ℕ}
  {file : List UInt8}

/-! ### What the constructor has found -/

/-- Where the slices of a layer are, after the checks. -/
structure LayerOk (M : GgufModel) (table : LayerTable) (slotSize l : ℕ) (li : LayerInfo) : Prop where
  gate : table l .gate = some li.gate
  up : table l .up = some li.up
  down : table l .down = some li.down
  gateBytes : li.types.bytesPerProjection M.shape .gate = some li.gate.perExpertBytes
  upBytes : li.types.bytesPerProjection M.shape .up = some li.up.perExpertBytes
  downBytes : li.types.bytesPerProjection M.shape .down = some li.down.perExpertBytes
  total : li.packedTotal ≤ slotSize

variable {slotSize : ℕ}

theorem layerOk_of_layerInfo {table : LayerTable} {li : LayerInfo}
    (h : M.layerInfo slotSize table l = .ok li) : LayerOk M table slotSize l li := by
  unfold GgufModel.layerInfo at h
  split at h
  · cases h
  split at h
  · next gate up down hgate hup hdown =>
    simp only [bind_eq_ok, orThrow_eq_ok, check_eq_ok] at h
    obtain ⟨gateB, hg, upB, hu, downB, hd, -, ⟨rfl, rfl, rfl⟩, -, htotal, h⟩ := h
    cases h
    exact ⟨hgate, hup, hdown, hg, hu, hd, htotal.2⟩
  · cases h

theorem lookup_of_mapM {β : Type} {f : ℕ → Except String β} : ∀ {ls : List ℕ}
    {infos : List (ℕ × β)}, (ls.mapM fun l => (f l).map (l, ·)) = .ok infos → ∀ l ∈ ls,
      ∃ b, infos.lookup l = some b ∧ f l = .ok b := by
  intro ls
  induction ls with
  | nil =>
    intro infos _ l hl
    cases hl
  | cons x ls ih =>
    intro infos h l hl
    rw [List.mapM_cons, bind_eq_ok] at h
    obtain ⟨y, hy, h⟩ := h
    rw [bind_eq_ok] at h
    obtain ⟨rest, hrest, h⟩ := h
    cases h
    rcases hfx : f x with e | b
    · rw [hfx] at hy
      cases hy
    rw [hfx] at hy
    cases hy
    rw [List.lookup_cons]
    by_cases hlx : l = x
    · subst hlx
      exact ⟨b, by rw [beq_self_eq_true], hfx⟩
    · rw [beq_false_of_ne hlx]
      exact ih hrest l ((List.mem_cons.1 hl).resolve_left hlx)

theorem live_spec (h : M.live quant direct = .ok S) :
    S.shards = M.shards ∧ S.direct = direct ∧ S.shape = M.shape ∧ S.nExperts = M.nRoutedExperts ∧
      quant.bytesPerExpert M.shape = some S.slotSizeBytesRaw ∧
        ∃ table, M.tensors.foldlM M.scanTensor (fun _ _ => none) = .ok table ∧
          ∀ l ∈ M.moeLayerIndices, ∃ li, S.layers l = some li ∧
            LayerOk M table S.slotSizeBytesRaw l li := by
  simp only [GgufModel.live, bind_eq_ok, orThrow_eq_ok] at h
  obtain ⟨slotSize, hsize, table, htable, infos, hinfos, h⟩ := h
  cases h
  refine ⟨rfl, rfl, rfl, rfl, hsize, table, htable, fun l hl => ?_⟩
  obtain ⟨li, hli, hinfo⟩ := lookup_of_mapM hinfos l hl
  exact ⟨li, hli, layerOk_of_layerInfo hinfo⟩

/-! ### What the prepacker has written -/

/-- The place of a bundle that the prepacker takes for an expert. -/
def ExpertSlice (M : GgufModel) (src : Source) (l ei si off len : ℕ) : Prop :=
  ∃ s experts bundles c b, M.shards[si]? = some s ∧ src.layers[l]? = some experts ∧
    experts[ei]? = some bundles ∧ lastBundle bundles c = some b ∧ b.data = ⟨s.base + off, len⟩

def sliceBytes (S : LiveSource) (rg : Range) : List UInt8 :=
  (List.range rg.len).map fun i => S.byte rg.shardIdx (rg.off + i)

theorem source_spec (h : M.source packers quant path freshness = .ok src) :
    ∃ experts, M.loadRoutedExperts = .ok experts ∧
      src.layers = (List.range M.numHiddenLayers).map experts ∧ src.mem = M.mem ∧
        src.quant = quant ∧ src.shape = M.shape ∧ src.moeLayerIndices = M.moeLayerIndices ∧
          src.nRoutedExperts = M.nRoutedExperts := by
  simp only [GgufModel.source, bind_eq_ok] at h
  obtain ⟨experts, hexperts, h⟩ := h
  cases h
  exact ⟨experts, hexperts, rfl, rfl, rfl, rfl, rfl, rfl⟩

theorem Source.slot_gguf {types : List GgufTypes} {pos : ℕ} {slot : List UInt8}
    (hpos : src.moeLayerIndices[pos]? = some l)
    (htyped : ∀ experts, src.layers[l]? = some experts → ∀ bundles ∈ experts, ∀ b ∈ bundles,
      b.ggufType.isSome) (h : src.slot types ei pos = .ok slot) :
    ∃ experts bundles gate up down, src.layers[l]? = some experts ∧ experts[ei]? = some bundles ∧
      lastBundle bundles .gateProj = some gate ∧ lastBundle bundles .upProj = some up ∧
      lastBundle bundles .downProj = some down ∧
      slot = padded src.slotStride
        (gate.data.bytes src.mem ++ up.data.bytes src.mem ++ down.data.bytes src.mem) := by
  unfold Source.slot at h
  rw [hpos] at h
  dsimp only at h
  split at h
  · cases h
  next experts hexperts =>
  split at h
  · cases h
  next bundles hbundles =>
  unfold packAndWriteSlot packContent at h
  split at h
  · cases h
  next first rest =>
  have hfirst : first.ggufType.isSome = true := htyped experts hexperts _
    (List.mem_of_getElem? hbundles) first List.mem_cons_self
  rw [if_pos hfirst] at h
  split at h
  · cases h
  next data hpack =>
  split at h
  · cases h
  cases h
  obtain ⟨gate, up, down, -, hg, hu, hd, -, -, -, -, -, -, -, rfl⟩ :=
    packGgufExpert_eq hpack
  exact ⟨experts, _, gate, up, down, hexperts, hbundles, hg, hu, hd, rfl⟩

def rangeOf (S : LiveSource) (ps : ProjSource) (ei asmOff : ℕ) : Range :=
  ⟨ps.shardIdx, S.direct ps.shardIdx, ps.absOffset + ei * ps.perExpertBytes, ps.perExpertBytes,
    asmOff⟩

variable {experts : Experts} {table : LayerTable} {ps : ProjSource}

theorem slice_fits {n : ℕ} (h : ps.absOffset + M.nRoutedExperts * ps.perExpertBytes ≤ n)
    (hei : ei < M.nRoutedExperts) :
    ps.absOffset + ei * ps.perExpertBytes + ps.perExpertBytes ≤ n := by
  have hmul := Nat.mul_le_mul_right ps.perExpertBytes hei
  rw [Nat.succ_mul] at hmul
  omega

variable {c : TensorComponent}

theorem bytes_bundle (hshards : S.shards = M.shards) {s : Shard}
    (hs : M.shards[ps.shardIdx]? = some s)
    (hfits : ps.absOffset + M.nRoutedExperts * ps.perExpertBytes ≤ s.file.length)
    (hei : ei < M.nRoutedExperts) (asmOff : ℕ) :
    (ps.bundle s c ei).data.bytes M.mem = sliceBytes S (rangeOf S ps ei asmOff) := by
  refine List.map_congr_left fun i hi => ?_
  have hlt : i < ps.perExpertBytes := List.mem_range.1 hi
  have hend := slice_fits hfits hei
  have hmap := M.mapped s (List.mem_of_getElem? hs)
    (ps.absOffset + ei * ps.perExpertBytes + i) (by omega)
  simp only [ProjSource.bundle, rangeOf, LiveSource.byte, hshards, hs, Option.map_some,
    Option.getD_some]
  rw [← hmap, Nat.add_assoc, Nat.add_assoc, Nat.add_assoc]

theorem Stacked.bundle_eq (h : Stacked M experts table) (hl : l < M.numHiddenLayers)
    (hei : ei < M.nRoutedExperts) {p : Projection} (hc : c.projection = some p)
    (hps : table l p = some ps) {b : Bundle} (hb : lastBundle ((experts l).getD ei []) c = some b) :
    ∃ s, M.shards[ps.shardIdx]? = some s ∧ b = ps.bundle s c ei ∧
      ps.absOffset + M.nRoutedExperts * ps.perExpertBytes ≤ s.file.length := by
  rw [h.last l hl c p hc ei hei, hps, Option.bind_some, Option.map_eq_some_iff] at hb
  obtain ⟨s, hs, rfl⟩ := hb
  obtain ⟨s', hs', hfits⟩ := h.inside l p ps hps
  rw [hs] at hs'
  cases hs'
  exact ⟨s, hs, rfl, hfits⟩

theorem prepacked_slot (hlive : M.live quant direct = .ok S)
    (hsrc : M.source packers quant path freshness = .ok src) (hfile : src.packedFile ei = .ok file)
    (hl : l ∈ M.moeLayerIndices) (hei : ei < M.nRoutedExperts) :
    ∃ li, S.layers l = some li ∧ (∃ table, LayerOk M table S.slotSizeBytesRaw l li) ∧
      src.slotStride = S.slotStrideBytes ∧
      (file.drop (slotOffset (M.moeLayerIndices.idxOf l) S.slotStrideBytes)).take
          S.slotStrideBytes =
        padded S.slotStrideBytes (sliceBytes S (rangeOf S li.gate ei 0) ++
          sliceBytes S (rangeOf S li.up ei li.gate.perExpertBytes) ++
          sliceBytes S (rangeOf S li.down ei (li.gate.perExpertBytes + li.up.perExpertBytes))) ∧
      ∀ ps ∈ li.projs, ExpertSlice M src l ei ps.shardIdx (ps.absOffset + ei * ps.perExpertBytes)
        ps.perExpertBytes ∧ ∃ s, M.shards[ps.shardIdx]? = some s ∧
          ps.absOffset + M.nRoutedExperts * ps.perExpertBytes ≤ s.file.length := by
  obtain ⟨hshards, -, -, -, hsize, table, htable, hlayers⟩ := live_spec hlive
  obtain ⟨experts, hexperts, hsl, hmem, hquant, hshape, hmoe, -⟩ := source_spec hsrc
  obtain ⟨li, hli, hok⟩ := hlayers l hl
  have hst := stacked_of_load hexperts htable
  have hstride : src.slotStride = S.slotStrideBytes := by
    unfold Source.slotStride Source.slotSize LiveSource.slotStrideBytes
    rw [hquant, hshape, hsize, Option.getD_some]
  simp only [Source.packedFile, bind_eq_ok] at hfile
  obtain ⟨types, -, hslots⟩ := hfile
  have hpos : M.moeLayerIndices.idxOf l < src.moeLayerIndices.length := by
    rw [hmoe]
    exact List.idxOf_lt_length_of_mem hl
  have hslot := Source.slot_of_slots le_rfl hslots hpos
  rw [hstride] at hslot
  have hget : src.moeLayerIndices[M.moeLayerIndices.idxOf l]? = some l := by
    rw [hmoe, List.getElem?_idxOf hl]
  have htyped : ∀ experts, src.layers[l]? = some experts → ∀ bundles ∈ experts, ∀ b ∈ bundles,
      b.ggufType.isSome := by
    intro es hes bundles hb
    rw [hsl, List.getElem?_map, Option.map_eq_some_iff] at hes
    obtain ⟨l', -, rfl⟩ := hes
    exact hst.typed l' bundles hb
  obtain ⟨es, bundles, gate, up, down, hes, hbundles, hg, hu, hd, hbytes⟩ :=
    Source.slot_gguf hget htyped hslot
  obtain ⟨hlt, rfl⟩ : l < M.numHiddenLayers ∧ experts l = es := by
    rw [hsl, List.getElem?_map] at hes
    by_cases hlt : l < M.numHiddenLayers
    · rw [List.getElem?_range hlt] at hes
      exact ⟨hlt, Option.some.inj hes⟩
    · rw [List.getElem?_eq_none (by rw [List.length_range]; omega)] at hes
      cases hes
  have hgetD : (experts l).getD ei [] = bundles := by
    rw [List.getD_eq_getElem?_getD, hbundles, Option.getD_some]
  obtain ⟨sg, hsg, rfl, hfg⟩ := hst.bundle_eq hlt hei (c := .gateProj) rfl hok.gate (hgetD ▸ hg)
  obtain ⟨su, hsu, rfl, hfu⟩ := hst.bundle_eq hlt hei (c := .upProj) rfl hok.up (hgetD ▸ hu)
  obtain ⟨sd, hsd, rfl, hfd⟩ := hst.bundle_eq hlt hei (c := .downProj) rfl hok.down (hgetD ▸ hd)
  refine ⟨li, hli, ⟨table, hok⟩, hstride, ?_, fun ps hps => ?_⟩
  · rw [hbytes, hstride, hmem, bytes_bundle hshards hsg hfg hei 0,
      bytes_bundle hshards hsu hfu hei li.gate.perExpertBytes,
      bytes_bundle hshards hsd hfd hei (li.gate.perExpertBytes + li.up.perExpertBytes)]
  · have hslice : ∀ {ps : ProjSource} {s : Shard} {c : TensorComponent},
        M.shards[ps.shardIdx]? = some s → lastBundle bundles c = some (ps.bundle s c ei) →
        ExpertSlice M src l ei ps.shardIdx (ps.absOffset + ei * ps.perExpertBytes)
          ps.perExpertBytes := by
      intro ps s c hs hlast
      refine ⟨s, experts l, bundles, c, _, hs, hes, hbundles, hlast, ?_⟩
      rw [ProjSource.bundle, Nat.add_assoc]
    simp only [LayerInfo.projs, List.mem_cons, List.not_mem_nil, or_false] at hps
    rcases hps with rfl | rfl | rfl
    · exact ⟨hslice hsg hg, sg, hsg, hfg⟩
    · exact ⟨hslice hsu hu, su, hsu, hfu⟩
    · exact ⟨hslice hsd hd, sd, hsd, hfd⟩

/-! ### What the live source commits -/

variable {li : LayerInfo} {a : Answers} {sc : Scratch}

theorem ranges_eq (S : LiveSource) (li : LayerInfo) (ei : ℕ) : S.ranges ei li.projs 0 =
    [rangeOf S li.gate ei 0, rangeOf S li.up ei li.gate.perExpertBytes,
      rangeOf S li.down ei (li.gate.perExpertBytes + li.up.perExpertBytes)] := by
  simp only [LayerInfo.projs, ranges, rangeOf, Nat.zero_add]

theorem packGgufExpert_adjoining {mem : ℕ → UInt8} {shape : ExpertShape} {t : GgufTypes} {g u d : ℕ}
    (hg : t.bytesPerProjection shape .gate = some g) (hu : t.bytesPerProjection shape .up = some u)
    (hd : t.bytesPerProjection shape .down = some d) :
    packGgufExpert mem [⟨.gateProj, ⟨0, g⟩, .u8, some t.gate, []⟩,
      ⟨.upProj, ⟨g, u⟩, .u8, some t.up, []⟩, ⟨.downProj, ⟨g + u, d⟩, .u8, some t.down, []⟩] shape
        (some t) = some ((Span.mk 0 (g + u + d)).bytes mem) := by
  simp [packGgufExpert, lastBundle, hg, hu, hd, guard]

theorem bytes_assembled {rg : Range} (h : Assembled S sc.assembly rg) :
    (Span.mk rg.asmOff rg.len).bytes sc.assembly = sliceBytes S rg :=
  List.map_congr_left fun i hi => h i (List.mem_range.1 hi)

theorem commit_eq (hok : LayerOk M table slotSize l li) (hshape : S.shape = M.shape)
    (hall : ∀ rg ∈ S.ranges ei li.projs 0, Assembled S sc.assembly rg) :
    S.commit li (S.ranges ei li.projs 0) sc =
      .loaded (padded S.slotStrideBytes (sliceBytes S (rangeOf S li.gate ei 0) ++
        sliceBytes S (rangeOf S li.up ei li.gate.perExpertBytes) ++
        sliceBytes S (rangeOf S li.down ei (li.gate.perExpertBytes + li.up.perExpertBytes)))) := by
  rw [ranges_eq] at hall ⊢
  simp only [List.forall_mem_cons, List.not_mem_nil, false_imp_iff, implies_true, and_true] at hall
  obtain ⟨hg, hu, hd⟩ := hall
  have hpack : packGgufExpert sc.assembly (assemblyBundles li [rangeOf S li.gate ei 0,
      rangeOf S li.up ei li.gate.perExpertBytes,
      rangeOf S li.down ei (li.gate.perExpertBytes + li.up.perExpertBytes)]) S.shape
        (some li.types) = some ((Span.mk 0 li.packedTotal).bytes sc.assembly) := by
    rw [hshape]
    exact packGgufExpert_adjoining hok.gateBytes hok.upBytes hok.downBytes
  have hlen : ((Span.mk 0 li.packedTotal).bytes sc.assembly).length = li.packedTotal :=
    Span.length_bytes _ _
  simp only [commit, hpack, hlen, ne_eq]
  rw [← bytes_assembled hg, ← bytes_assembled hu, ← bytes_assembled hd]
  have hfirst := Span.bytes_append sc.assembly 0 li.gate.perExpertBytes li.up.perExpertBytes
  have hsecond := Span.bytes_append sc.assembly 0
    (li.gate.perExpertBytes + li.up.perExpertBytes) li.down.perExpertBytes
  rw [Nat.zero_add] at hfirst hsecond
  simp only [rangeOf]
  rw [hfirst, hsecond]
  rfl

theorem layout_ranges (hshards : S.shards = M.shards) (hei : ei < M.nRoutedExperts)
    (hin : ∀ ps ∈ li.projs, ∃ s, M.shards[ps.shardIdx]? = some s ∧
      ps.absOffset + M.nRoutedExperts * ps.perExpertBytes ≤ s.file.length) :
    Layout S (S.ranges ei li.projs 0) := by
  have hfits : ∀ ps ∈ li.projs, ∀ asmOff, (rangeOf S ps ei asmOff).off +
      (rangeOf S ps ei asmOff).len ≤ S.fileSize (rangeOf S ps ei asmOff).shardIdx := by
    intro ps hps asmOff
    obtain ⟨s, hs, hle⟩ := hin ps hps
    simp only [rangeOf, fileSize, hshards, hs]
    exact slice_fits hle hei
  rw [ranges_eq]
  constructor
  · simp only [List.forall_mem_cons, List.not_mem_nil, false_imp_iff, implies_true, and_true]
    exact ⟨hfits _ (by simp [LayerInfo.projs]) _, hfits _ (by simp [LayerInfo.projs]) _,
      hfits _ (by simp [LayerInfo.projs]) _⟩
  · simp only [List.forall_mem_cons, List.not_mem_nil, false_imp_iff, implies_true, and_true,
      rangeOf, true_or, true_and]
    omega

/-! ### One slot -/

/-- The slot that the three slices of an expert make up. -/
def slotOf (S : LiveSource) (li : LayerInfo) (ei : ℕ) : List UInt8 :=
  padded S.slotStrideBytes (sliceBytes S (rangeOf S li.gate ei 0) ++
    sliceBytes S (rangeOf S li.up ei li.gate.perExpertBytes) ++
    sliceBytes S (rangeOf S li.down ei (li.gate.perExpertBytes + li.up.perExpertBytes)))

theorem assembled_all {rgs : List Range} (hL : Layout S rgs) (htidy : Tidy rgs sc) :
    let x := S.ringReads a (directReads rgs 0) sc
    let y := S.directLoop a x.2 (directReads rgs 0).zipIdx x.1
    let z := S.bufferedLoop a rgs.zipIdx y.1
    Tidy rgs y.1 ∧ Tidy rgs z.1 ∧
      (y.2 = true → z.2 = true → ∀ rg ∈ rgs, Assembled S z.1.assembly rg) := by
  intro x y z
  have hring : RingOk S rgs x := ringReads_ok hL htidy
  have hindexed : ∀ w ∈ (directReads rgs 0).zipIdx, (directReads rgs 0)[w.2]? = some w.1 :=
    fun w hw => List.mem_zipIdx_iff_getElem?.mp hw
  obtain ⟨-, hty, hdirect⟩ := directLoop_spec (a := a) hL
    (fun w hw => List.mem_of_getElem? (hindexed w hw))
    (fun w hw hdone => hring.done w.2 hdone w.1 (hindexed w hw)) hring.tidy
  obtain ⟨hkeep, htz, hbuffered⟩ := bufferedLoop_spec (a := a) (l := rgs.zipIdx) hL
    (fun w hw => List.mem_of_getElem? (List.mem_zipIdx_iff_getElem?.mp hw)) hty
  refine ⟨hty, htz, fun hy hz rg hrg => ?_⟩
  cases hd : rg.direct with
  | true =>
    obtain ⟨dr, hdr, rfl⟩ := exists_directRead hd hrg
    obtain ⟨i, hi⟩ := List.mem_iff_getElem?.mp hdr
    exact hkeep _ hrg (hdirect hy (dr, i) (List.mem_zipIdx_iff_getElem?.mpr hi))
  | false =>
    obtain ⟨p, hp⟩ := List.mem_iff_getElem?.mp hrg
    exact hbuffered hz (rg, p) (List.mem_zipIdx_iff_getElem?.mpr hp) hd

theorem range_len_le (hok : LayerOk M table slotSize l li) :
    ∀ rg ∈ S.ranges ei li.projs 0, rg.len ≤ slotSize := by
  have htotal := hok.total
  unfold LayerInfo.packedTotal at htotal
  rw [ranges_eq]
  simp only [List.forall_mem_cons, List.not_mem_nil, false_imp_iff, implies_true, and_true, rangeOf]
  omega

theorem loadInto_spec (hli : S.layers l = some li) (hei : ei < S.nExperts)
    (hok : LayerOk M table S.slotSizeBytesRaw l li) (hshape : S.shape = M.shape)
    (hL : Layout S (S.ranges ei li.projs 0)) (htidy : Tidy (S.ranges ei li.projs 0) sc) :
    Tidy (S.ranges ei li.projs 0) (S.loadInto a l ei sc).2 ∧
      ((S.loadInto a l ei sc).1 = .loaded (slotOf S li ei) ∨
        (S.loadInto a l ei sc).1 = .bounceFailed ∨ (S.loadInto a l ei sc).1 = .readFailed) ∧
      (Delivers a (S.slotSizeBytesRaw + kAlign) →
        (S.loadInto a l ei sc).1 = .loaded (slotOf S li ei)) := by
  obtain ⟨hty, htz, hall⟩ := assembled_all (a := a) hL htidy
  have hlen : ∀ rg ∈ S.ranges ei li.projs 0, rg.len ≤ S.slotSizeBytesRaw := range_len_le hok
  have hdirect : Delivers a (S.slotSizeBytesRaw + kAlign) → (S.directLoop a
      (S.ringReads a (directReads (S.ranges ei li.projs 0) 0) sc).2
      (directReads (S.ranges ei li.projs 0) 0).zipIdx
      (S.ringReads a (directReads (S.ranges ei li.projs 0) 0) sc).1).2 = true := by
    intro ha
    refine directLoop_ok hL ha fun w hw => ?_
    have hdr := List.mem_of_getElem? (List.mem_zipIdx_iff_getElem?.mp hw)
    exact ⟨hdr, Nat.add_le_add_right (hlen _ (mem_range_of_directRead hdr)) _⟩
  have hbuffered : ∀ sc', Delivers a (S.slotSizeBytesRaw + kAlign) →
      (S.bufferedLoop a (S.ranges ei li.projs 0).zipIdx sc').2 = true := by
    intro sc' ha
    refine bufferedLoop_ok hL ha fun w hw => ?_
    have hrg := List.mem_of_getElem? (List.mem_zipIdx_iff_getElem?.mp hw)
    exact ⟨hrg, (hlen _ hrg).trans (Nat.le_add_right _ _)⟩
  simp only [loadInto, hli, if_neg hei.not_ge]
  split
  · next hbounce =>
    exact ⟨htidy, .inr (.inl rfl), fun ha => absurd ha.1 (by rw [hbounce.2]; decide)⟩
  split
  · next hy =>
    refine ⟨hty, .inr (.inr rfl), fun ha => ?_⟩
    rw [hdirect ha] at hy
    cases hy
  · next hy =>
    split
    · next hz =>
      refine ⟨htz, .inr (.inr rfl), fun ha => ?_⟩
      rw [hbuffered _ ha] at hz
      cases hz
    · next hz =>
      have hcommit := commit_eq hok hshape
        (hall (Bool.eq_true_of_not_eq_false hy) (Bool.eq_true_of_not_eq_false hz))
      exact ⟨htz, .inl hcommit, fun _ => hcommit⟩

/-- What loading the slot of an expert comes to: `x` is the outcome with the buffers and the trace,
`stored` the slot in the file that the prepacker has written. -/
structure SlotLoaded (M : GgufModel) (src : Source) (S : LiveSource) (a : Answers) (l ei : ℕ)
    (stored : List UInt8) (x : Outcome × Scratch) : Prop where
  outcome : x.1 = .loaded stored ∨ x.1 = .bounceFailed ∨ x.1 = .readFailed
  delivered : Delivers a (S.slotSizeBytesRaw + kAlign) → x.1 = .loaded stored
  /-- The slot is gate, up and down one behind the other, with a tail of zeros. -/
  contents : ∃ li, S.layers l = some li ∧ stored = slotOf S li ei ∧
    li.packedTotal ≤ S.slotStrideBytes ∧ stored.length = S.slotStrideBytes
  handed : ∀ h ∈ x.2.handed, ∃ off len, ExpertSlice M src l ei h.shardIdx off len ∧
    off ≤ h.off ∧ h.off + h.len ≤ off + len
  /-- A buffered read reads a slice only. -/
  buffered : ∀ rd ∈ x.2.reads, rd.target = .assembly →
    ∃ off len, ExpertSlice M src l ei rd.shardIdx off len ∧ off ≤ rd.off ∧
      rd.off + rd.len ≤ off + len
  /-- A direct read stays in its part of the bounce buffer and reads the sectors that a slice
  touches. -/
  direct : ∃ dreads : List DirectRead, dreads.Pairwise (fun dr dr' => dr.buf + dr.aLen ≤ dr'.buf) ∧
    (∀ dr ∈ dreads, dr.buf + dr.aLen ≤ (dreads.map DirectRead.aLen).sum) ∧
    (∀ rd ∈ x.2.reads, rd.target = .bounce → ∃ dr ∈ dreads,
      dr.buf ≤ rd.pos ∧ rd.pos + rd.len ≤ dr.buf + dr.aLen ∧
      ∃ off len, ExpertSlice M src l ei rd.shardIdx off len ∧ alignDown off ≤ rd.off ∧
        rd.off + rd.len ≤ alignUp (off + len))

theorem alignDown_le_alignUp {x y : ℕ} (h : x ≤ y) : alignDown x ≤ alignUp y :=
  (alignDown_le x).trans (h.trans (le_alignUp y))

theorem slotLoaded_of_tidy {stored : List UInt8} {x : Outcome × Scratch}
    (hlen : S.slotStrideBytes = stored.length) (hstored : stored = slotOf S li ei)
    (hli : S.layers l = some li) (hok : LayerOk M table S.slotSizeBytesRaw l li)
    (hslices : ∀ ps ∈ li.projs, ExpertSlice M src l ei ps.shardIdx
      (ps.absOffset + ei * ps.perExpertBytes) ps.perExpertBytes)
    (htidy : Tidy (S.ranges ei li.projs 0) x.2)
    (houtcome : x.1 = .loaded stored ∨ x.1 = .bounceFailed ∨ x.1 = .readFailed)
    (hdelivered : Delivers a (S.slotSizeBytesRaw + kAlign) → x.1 = .loaded stored) :
    SlotLoaded M src S a l ei stored x := by
  have hrange : ∀ rg ∈ S.ranges ei li.projs 0, ExpertSlice M src l ei rg.shardIdx rg.off rg.len := by
    rw [ranges_eq]
    simp only [List.forall_mem_cons, List.not_mem_nil, false_imp_iff, implies_true, and_true,
      rangeOf]
    exact ⟨hslices _ (by simp [LayerInfo.projs]), hslices _ (by simp [LayerInfo.projs]),
      hslices _ (by simp [LayerInfo.projs])⟩
  obtain ⟨hpair, hsum⟩ := directReads_pairwise (S.ranges ei li.projs 0) 0
  refine ⟨houtcome, hdelivered,
    ⟨li, hli, hstored, hok.total.trans (le_alignedSlotStride _), hlen.symm⟩, ?_, ?_,
    directReads (S.ranges ei li.projs 0) 0, hpair, fun dr hdr => ?_, ?_⟩
  · intro h hh
    obtain ⟨rg, hrg, k, hsi, hoff, -, hle⟩ := htidy.handed h hh
    exact ⟨rg.off, rg.len, hsi ▸ hrange rg hrg, by omega, by omega⟩
  · intro rd hrd htarget
    have hread := htidy.reads rd hrd
    simp only [ReadOk, htarget] at hread
    obtain ⟨rg, hrg, k, hsi, hoff, -, hle⟩ := hread
    exact ⟨rg.off, rg.len, hsi ▸ hrange rg hrg, by omega, by omega⟩
  · have hle := hsum dr hdr
    rwa [Nat.zero_add] at hle
  · intro rd hrd htarget
    have hread := htidy.reads rd hrd
    simp only [ReadOk, htarget] at hread
    obtain ⟨dr, hdr, k, hsi, hoff, hpos, hle⟩ := hread
    obtain ⟨hrg, -, -, haOff, haLen⟩ := mem_directReads hdr
    have hwin := alignDown_le_alignUp (Nat.le_add_right dr.range.off dr.range.len)
    exact ⟨dr, hdr, by omega, by omega, dr.range.off, dr.range.len, hsi ▸ hrange _ hrg, by omega,
      by omega⟩

/-- **The live slot is the prepacked one.**  For a call that begins with an empty trace: whatever
the reads return, a slot that is loaded is the one at the position of the layer in the file of the
expert, and when the reads deliver it is loaded. -/
theorem live_slot_eq_prepacked (hlive : M.live quant direct = .ok S)
    (hsrc : M.source packers quant path freshness = .ok src) (hfile : src.packedFile ei = .ok file)
    (hl : l ∈ M.moeLayerIndices) (hei : ei < M.nRoutedExperts) (a : Answers)
    (hreads : sc.reads = []) (hhanded : sc.handed = []) :
    SlotLoaded M src S a l ei
      ((file.drop (slotOffset (M.moeLayerIndices.idxOf l) S.slotStrideBytes)).take
        S.slotStrideBytes) (S.loadInto a l ei sc) := by
  obtain ⟨li, hli, ⟨table, hok⟩, hstride, hstored, hslices⟩ :=
    prepacked_slot hlive hsrc hfile hl hei
  obtain ⟨hshards, -, hshape, hn, -⟩ := live_spec hlive
  have hL : Layout S (S.ranges ei li.projs 0) :=
    layout_ranges hshards hei fun ps hps => (hslices ps hps).2
  have htidy : Tidy (S.ranges ei li.projs 0) sc := by
    constructor
    · rw [hreads]
      exact fun rd hrd => absurd hrd List.not_mem_nil
    · rw [hhanded]
      exact fun h hh => absurd hh List.not_mem_nil
  obtain ⟨htidy', houtcome, hdelivered⟩ := loadInto_spec (a := a) hli (hn ▸ hei) hok hshape hL htidy
  rw [hstored]
  refine slotLoaded_of_tidy ?_ rfl hli hok (fun ps hps => (hslices ps hps).1) htidy' houtcome
    hdelivered
  refine (length_padded ?_).symm
  have htotal := hok.total.trans (le_alignedSlotStride S.slotSizeBytesRaw)
  simp only [List.length_append, sliceBytes, List.length_map, List.length_range]
  exact htotal

/-! ### A model of one expert -/

def oneExpertEntry (c : TensorComponent) (dataOffset : ℕ) : GgufEntry :=
  ⟨"ffn_exps", some ⟨true, c, 0⟩, [32, 32, 1], some .mxfp4, dataOffset, 544⟩

/-- A shard with the three projections behind a head of 64 bytes. -/
def oneExpertShard : Shard where
  file := List.replicate 1700 7
  base := 0
  dataBlobOffset := 64
  entries := [oneExpertEntry .gateProj 0, oneExpertEntry .upProj 544, oneExpertEntry .downProj 1088]
  fits e he := by
    rw [List.length_replicate]
    simp only [List.mem_cons, List.not_mem_nil, or_false] at he
    rcases he with rfl | rfl | rfl
    · decide
    · decide
    · decide

def oneExpertModel : GgufModel where
  shards := [oneExpertShard]
  mem := oneExpertShard.byte
  mapped s hs i _ := by
    rw [List.mem_singleton.1 hs]
    exact congrArg _ (Nat.zero_add i)
  shape := ⟨32, 32⟩
  nRoutedExperts := 1
  numHiddenLayers := 1
  numNextnPredictLayers := 0
  moeLayerIndices := [0]

/-- The format of the model. -/
def oneExpertQuant : QuantInterface := GgufTypes.quant ⟨.mxfp4, .mxfp4, .mxfp4⟩

/-- Packers for other formats. -/
def noPackers : Packers := ⟨fun _ _ _ _ => [], fun _ _ _ => []⟩

/-- Answers with a short completion of the ring and single reads that transfer all they are asked
for. -/
def someAnswers : Answers :=
  ⟨true, true, 3, true, [(1, 100)], fun _ => [4096, 4096], fun _ => [4096]⟩

/-- The buffers at the beginning. -/
def freshScratch : Scratch := ⟨fun _ => 0, fun _ => 0, [], []⟩

theorem eq_ok_of_toOption {ε α : Type} {x : Except ε α} {a : α} (h : x.toOption = some a) :
    x = .ok a := by
  cases x with
  | error e => cases h
  | ok b => exact congrArg _ (Option.some.inj h)

theorem live_slot_eq_prepacked_one : ∃ S src file,
    oneExpertModel.live oneExpertQuant (fun _ => true) = .ok S ∧
    oneExpertModel.source noPackers oneExpertQuant "model.gguf" (0, "") = .ok src ∧
    src.packedFile 0 = .ok file ∧
    SlotLoaded oneExpertModel src S someAnswers 0 0
      ((file.drop (slotOffset (oneExpertModel.moeLayerIndices.idxOf 0) S.slotStrideBytes)).take
        S.slotStrideBytes) (S.loadInto someAnswers 0 0 freshScratch) := by
  obtain ⟨S, hS, -⟩ := (Option.any_eq_true _ _).1
    (show (oneExpertModel.live oneExpertQuant fun _ => true).toOption.any (fun _ => true) = true by
      decide +kernel)
  obtain ⟨src, hsrc, hpacked⟩ := (Option.any_eq_true _ _).1
    (show (oneExpertModel.source noPackers oneExpertQuant "model.gguf" (0, "")).toOption.any
      (fun src => (src.packedFile 0).toOption.any fun _ => true) = true by decide +kernel)
  obtain ⟨file, hfile, -⟩ := (Option.any_eq_true _ _).1 hpacked
  have hlive := eq_ok_of_toOption hS
  have hsource := eq_ok_of_toOption hsrc
  have hfile' := eq_ok_of_toOption hfile
  exact ⟨S, src, file, hlive, hsource, hfile',
    live_slot_eq_prepacked hlive hsource hfile' (by decide) (by decide) someAnswers rfl rfl⟩

/-- **A direct read reads bytes outside the slices of the expert**: the window of the first slice
begins with the head of the shard. -/
theorem direct_window_exceeds_slice : ∃ S src,
    oneExpertModel.live oneExpertQuant (fun _ => true) = .ok S ∧
    oneExpertModel.source noPackers oneExpertQuant "model.gguf" (0, "") = .ok src ∧
    ∃ rd ∈ (S.loadInto someAnswers 0 0 freshScratch).2.reads, ∀ off len,
      ExpertSlice oneExpertModel src 0 0 rd.shardIdx off len →
        ¬(off ≤ rd.off ∧ rd.off + rd.len ≤ off + len) := by
  obtain ⟨S, hS, hread⟩ := (Option.any_eq_true _ _).1
    (show (oneExpertModel.live oneExpertQuant fun _ => true).toOption.any (fun S =>
      (S.loadInto someAnswers 0 0 freshScratch).2.reads.any fun rd => decide (rd.off < 64)) = true by
      decide +kernel)
  obtain ⟨src, hsrc, hbundles⟩ := (Option.any_eq_true _ _).1
    (show (oneExpertModel.source noPackers oneExpertQuant "model.gguf" (0, "")).toOption.any
      (fun src => src.layers.all fun experts => experts.all fun bundles =>
        bundles.all fun b => decide (64 ≤ b.data.addr)) = true by decide +kernel)
  obtain ⟨rd, hrd, hlt⟩ := List.any_eq_true.1 hread
  refine ⟨S, src, eq_ok_of_toOption hS, eq_ok_of_toOption hsrc, rd, hrd, ?_⟩
  rintro off len ⟨s, experts, bundles, c, b, hs, hexperts, hexpert, hlast, hdata⟩ ⟨hle, -⟩
  have hb : b ∈ bundles := by
    exact List.mem_of_mem_filter (List.mem_of_getLast? hlast)
  have haddr := of_decide_eq_true (List.all_eq_true.1 (List.all_eq_true.1 (List.all_eq_true.1
    hbundles experts (List.mem_of_getElem? hexperts)) bundles (List.mem_of_getElem? hexpert)) b hb)
  have hbase : s.base = 0 := by
    rw [List.mem_singleton.1 (List.mem_of_getElem? hs)]
    rfl
  rw [hdata] at haddr
  have hoff := of_decide_eq_true hlt
  dsimp only at haddr
  omega

end LayerStorm.Weights
