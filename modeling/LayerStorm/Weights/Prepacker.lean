import LayerStorm.Weights.ManifestAddress

/-!
# Prepacking the experts of a model

`prepack_experts` writes one file for each expert, slot by slot, to a temporary file that is then
renamed, skips the files that have the right size already, and writes the manifest last.  A run is
modelled operation by operation, so that it can stop after any of them; what the file system
answers is up to the environment.
-/

namespace LayerStorm.Weights

/-- A format over the dimensions of a manifest. -/
def QuantInterface.ofManifest (q : QuantInterface) : Prepacked.QuantInterface where
  name := q.name
  weightQuant := q.weightQuant
  bytesPerProjection shape proj :=
    (q.bytesPerProjection ⟨shape.hiddenSize.toNat, shape.intermediateSize.toNat⟩ proj).map Nat.cast
  ggufTypes := q.ggufTypes

/-! ### What a run reads -/

/-- The input of a run; `layers` are the routed experts of the layers of the model. -/
structure Source where
  mem : ℕ → UInt8
  layers : List (List (List Bundle))
  packers : Packers
  quant : QuantInterface
  shape : ExpertShape
  moeLayerIndices : List ℕ
  nRoutedExperts : ℕ
  weightsPath : String
  freshness : ℕ × String

namespace Source

variable (src : Source)

/-- `slot_size`; a size that throws has ended the run. -/
def slotSize : ℕ := (src.quant.bytesPerExpert src.shape).getD 0

def slotStride : ℕ := alignedSlotStride src.slotSize

def expectedSize : ℕ := expectedFileSize src.moeLayerIndices.length src.slotStride

/-- `gguf_triple_from_bundles`. -/
def tripleFromBundles (bundles : List Bundle) (expertIdx layerIdx : ℕ) : Except String GgufTypes :=
  let type (c : TensorComponent) :=
    (bundles.filter fun b => b.component = c ∧ b.ggufType.isSome).getLast?.bind Bundle.ggufType
  match type .gateProj, type .upProj, type .downProj with
  | some gate, some up, some down => .ok ⟨gate, up, down⟩
  | gate, up, down =>
    .error (s!"expert {expertIdx} layer {layerIdx}: routed expert missing GGUF k-quant type " ++
      s!"(gate={gate.isSome} up={up.isSome} down={down.isSome})")

/-- The k-quant types of one layer, read from its expert 0. -/
def layerTypes (layerIdx : ℕ) : Except String GgufTypes :=
  match src.layers[layerIdx]? with
  | some ((b :: bs) :: _) => do
    let triple ← tripleFromBundles (b :: bs) 0 layerIdx
    let layerTotal ← orThrow (triple.bytesPerExpert src.shape)
    check (layerTotal ≤ src.slotSize)
      (s!"GGUF prepack: layer {layerIdx} packed total {layerTotal} exceeds slot size " ++
        s!"{src.slotSize} (global gguf_types must be the per-projection MAX)")
    .ok triple
  | _ =>
    .error s!"GGUF prepack: layer {layerIdx} has no loaded routed experts to read k-quant types from"

def layerGgufTypes : Except String (List GgufTypes) :=
  if src.quant.isGguf then src.moeLayerIndices.mapM src.layerTypes else .ok []

def slot (types : List GgufTypes) (ei layerPos : ℕ) : Except String (List UInt8) :=
  match src.moeLayerIndices[layerPos]? with
  | none => .ok []
  | some layerIdx =>
    match src.layers[layerIdx]? with
    | none =>
      .error s!"expert {ei}: layer_idx {layerIdx} out of range (model has {src.layers.length} layers)"
    | some experts =>
      match experts[ei]? with
      | none =>
        .error s!"expert {ei}: layer {layerIdx} has only {experts.length} routed experts"
      | some bundles =>
        packAndWriteSlot src.packers src.mem experts bundles src.shape src.slotSize src.slotStride
          types[layerPos]? ei layerIdx

/-- The first slots of an expert file. -/
def slots (types : List GgufTypes) (ei : ℕ) : ℕ → Except String (List UInt8)
  | 0 => .ok []
  | k + 1 => do
    let text ← slots types ei k
    let slot ← src.slot types ei k
    .ok (text ++ slot)

/-- **The contents an expert file should have**: the packed slots of the expert. -/
def packedFile (ei : ℕ) : Except String (List UInt8) := do
  let types ← src.layerGgufTypes
  src.slots types ei src.moeLayerIndices.length

def manifest (types : List GgufTypes) : Except String Prepacked.Manifest := do
  let gguf := src.quant.name ≠ "nvfp4" ∧ src.quant.isGguf = true
  check (gguf → src.quant.ggufTypes.isSome)
    ("GGUF prepack requires a GgufQuantInterface to record per-projection k-quant types in the " ++
      "manifest")
  let slot ← buildSlotFromQuant src.quant src.shape
  .ok {
    formatVersion := kFormatVersion
    engineVersion := kFormatVersion
    sourceModelPath := src.weightsPath
    sourceFreshnessTimestamp := src.freshness.1
    sourceFreshnessFile := src.freshness.2
    quantFormat := Prepacked.expectedQuantFormat src.quant.ofManifest
    nRoutedExperts := src.nRoutedExperts
    nExpertFiles := src.nRoutedExperts
    expertDimensions := ⟨src.shape.hiddenSize, src.shape.intermediateSize⟩
    moeLayers := ⟨src.moeLayerIndices.length, src.moeLayerIndices.headD 0,
      src.moeLayerIndices.getLastD 0, src.moeLayerIndices.map Nat.cast⟩
    ggufTypes := if gguf then src.quant.ggufTypes else none
    ggufTypesPerLayer := if gguf then types else []
    slot := slot }

end Source

/-! ### Packed files -/

variable {src : Source} {types : List GgufTypes} {ei k : ℕ} {text : List UInt8}

theorem Source.length_slot {layerPos : ℕ} (hlt : layerPos < src.moeLayerIndices.length)
    (h : src.slot types ei layerPos = .ok text) : text.length = src.slotStride := by
  unfold Source.slot at h
  rw [List.getElem?_eq_getElem hlt] at h
  dsimp only at h
  split at h
  · cases h
  split at h
  · cases h
  · exact length_packAndWriteSlot (le_alignedSlotStride _) h

theorem Source.length_slots (hk : k ≤ src.moeLayerIndices.length)
    (h : src.slots types ei k = .ok text) : text.length = k * src.slotStride := by
  induction k generalizing text with
  | zero =>
    cases h
    rw [Nat.zero_mul, List.length_nil]
  | succ k ih =>
    simp only [Source.slots, bind_eq_ok] at h
    obtain ⟨t, ht, s, hs, h⟩ := h
    cases h
    rw [List.length_append, ih (Nat.le_of_succ_le hk) ht, Source.length_slot hk hs, Nat.succ_mul]

theorem Source.length_packedFile (h : src.packedFile ei = .ok text) :
    text.length = src.expectedSize := by
  simp only [Source.packedFile, bind_eq_ok] at h
  obtain ⟨types, -, h⟩ := h
  exact Source.length_slots le_rfl h

/-- **Where a slot stands** in the text of the first slots. -/
theorem Source.slot_of_slots {pos : ℕ} (hk : k ≤ src.moeLayerIndices.length)
    (h : src.slots types ei k = .ok text) (hpos : pos < k) :
    src.slot types ei pos = .ok ((text.drop (slotOffset pos src.slotStride)).take
      src.slotStride) := by
  unfold slotOffset
  induction k generalizing text with
  | zero => exact absurd hpos (Nat.not_lt_zero pos)
  | succ k ih =>
    simp only [Source.slots, bind_eq_ok] at h
    obtain ⟨t, ht, s, hs, h⟩ := h
    cases h
    have htlen := Source.length_slots (Nat.le_of_succ_le hk) ht
    rcases Nat.lt_succ_iff_lt_or_eq.1 hpos with hlt | rfl
    · have hmul := Nat.mul_le_mul_right src.slotStride hlt
      rw [Nat.succ_mul] at hmul
      rw [ih (Nat.le_of_succ_le hk) ht hlt, List.drop_append_of_le_length (by omega),
        List.take_append_of_le_length (by rw [List.length_drop]; omega)]
    · rw [← htlen, List.drop_left, ← Source.length_slot hk hs, List.take_length]
      exact hs

/-! ### The directory and the run -/

/-- `manifest.json`: a text that ends early, or a whole one with the run that wrote it. -/
inductive ManifestFile
  | torn
  | whole (m : Prepacked.Manifest) (author : Source)

/-- The output directory: `expert_NNN.bin`, `expert_NNN.bin.tmp` and the manifest. -/
structure Dir where
  files : ℕ → Option (List UInt8)
  tmps : ℕ → Option (List UInt8)
  manifest : Option ManifestFile

/-- Where a run stands. -/
inductive Phase
  /-- The expert file is looked at next. -/
  | look (ei : ℕ)
  /-- The slot at a layer position is written next; the text is what was written before. -/
  | slots (ei layerPos : ℕ) (text : List UInt8)
  /-- The temporary file is closed. -/
  | closed (ei : ℕ)
  /-- The size of the temporary file was right. -/
  | sized (ei : ℕ)
  /-- The manifest is opened next. -/
  | manifest
  /-- The manifest is empty and is written next. -/
  | manifestOpen (m : Prepacked.Manifest)
  /-- The run has returned; `none` is a return without error. -/
  | done (error : Option String)

/-- A run with the counters of its result. -/
structure Run where
  src : Source
  types : List GgufTypes
  phase : Phase
  expertsWritten : ℕ
  expertsSkipped : ℕ
  bytesWritten : ℕ

/-- The answers of the file system to one operation: whether it succeeds, how many bytes of the
text have reached the temporary file, and whether that file is removed after an error. -/
structure Answer where
  ok : Bool
  reached : ℕ
  removed : Bool

namespace Run

variable (r : Run)

/-- `prepack_experts` up to the loop over the experts. -/
def begin (src : Source) (mkdirOk : Bool) : Run :=
  let start (types : List GgufTypes) (phase : Phase) : Run := ⟨src, types, phase, 0, 0, 0⟩
  if mkdirOk = false then start [] (.done (some "cannot create directory"))
  else
    match src.quant.bytesPerExpert src.shape with
    | none => start [] (.done (some "exception"))
    | some _ =>
      if src.moeLayerIndices.length = 0 ∨ src.nRoutedExperts = 0 then
        -- nothing to do
        start [] (.done none)
      else
        match src.layerGgufTypes with
        | .error e => start [] (.done (some e))
        | .ok types => start types (.look 0)

/-- The run returns an error; the temporary file of the expert is removed if that succeeds. -/
def fail (d : Dir) (ei : ℕ) (a : Answer) (e : String) : Dir × Run :=
  (if a.removed = true then { d with tmps := Function.update d.tmps ei none } else d,
    { r with phase := .done (some e) })

/-- One operation of a run; `none` when it has returned. -/
def step (d : Dir) (a : Answer) : Option (Dir × Run) :=
  match r.phase with
  | .look ei =>
    if r.src.nRoutedExperts ≤ ei then some (d, { r with phase := .manifest })
    else if (d.files ei).any fun f => f.length = r.src.expectedSize then
      -- the file has the right size
      some (d, { r with phase := .look (ei + 1), expertsSkipped := r.expertsSkipped + 1 })
    else if a.ok = true then
      some ({ d with tmps := Function.update d.tmps ei (some []) },
        { r with phase := .slots ei 0 [] })
    else some (d, { r with phase := .done (some "cannot open the temporary file for writing") })
  | .slots ei layerPos text =>
    let tmp (t : List UInt8) : Dir :=
      { d with tmps := Function.update d.tmps ei (some (t.take a.reached)) }
    if layerPos < r.src.moeLayerIndices.length then
      match r.src.slot r.types ei layerPos with
      | .error e => some (r.fail (tmp text) ei a e)
      | .ok slot =>
        if a.ok = true then
          some (tmp (text ++ slot), { r with phase := .slots ei (layerPos + 1) (text ++ slot) })
        else
          let layerIdx := r.src.moeLayerIndices.getD layerPos 0
          some (r.fail (tmp (text ++ slot)) ei a
            s!"expert {ei} layer {layerIdx}: write failed (disk full?)")
    else some (tmp text, { r with phase := .closed ei })
  | .closed ei =>
    if a.ok = true ∧ (d.tmps ei).any fun f => f.length = r.src.expectedSize then
      some (d, { r with phase := .sized ei })
    else some (r.fail d ei a s!"expert {ei}: written file size != expected {r.src.expectedSize}")
  | .sized ei =>
    if a.ok = true then
      some ({ d with
          files := Function.update d.files ei (d.tmps ei)
          tmps := Function.update d.tmps ei none },
        { r with
          phase := .look (ei + 1)
          expertsWritten := r.expertsWritten + 1
          bytesWritten := r.bytesWritten + r.src.expectedSize })
    else some (r.fail d ei a s!"expert {ei}: rename failed")
  | .manifest =>
    match r.src.manifest r.types with
    | .error e => some (d, { r with phase := .done (some e) })
    | .ok m =>
      if a.ok = true then
        some ({ d with manifest := some .torn }, { r with phase := .manifestOpen m })
      else some (d, { r with phase := .done (some "Cannot write manifest") })
  | .manifestOpen m =>
    -- the stream is not tested after the write
    some (if a.ok = true then { d with manifest := some (.whole m r.src) } else d,
      { r with phase := .done (match Prepacked.verifyManifest m r.src.quant.ofManifest with
        | .ok _ => none
        | .error e => some ("manifest self-verification failed: " ++ e)) })
  | .done _ => none

end Run

/-! ### Histories -/

/-- The directory and the run that works on it, if there is one. -/
structure World where
  dir : Dir
  run : Option Run

/-- A start, an operation of the run, or a stop of the process. -/
inductive PrepackAction
  | start (src : Source) (mkdirOk : Bool)
  | op (a : Answer)
  | stop

def World.step (w : World) : PrepackAction → Option World
  | .start src mkdirOk =>
    match w.run with
    | none => some { w with run := some (Run.begin src mkdirOk) }
    | some r =>
      match r.phase with
      | .done _ => some { w with run := some (Run.begin src mkdirOk) }
      | _ => none
  | .op a => w.run.bind fun r => (r.step w.dir a).map fun x => ⟨x.1, some x.2⟩
  | .stop => some { w with run := none }

def World.empty : World := ⟨⟨fun _ => none, fun _ => none, none⟩, none⟩

end LayerStorm.Weights
