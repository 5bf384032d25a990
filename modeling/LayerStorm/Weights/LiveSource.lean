import LayerStorm.Weights.GgufModel

/-!
# The live source of expert slots

`LiveGgufExpertSource` builds a slot straight from the shards: it reads the three slices of an
expert, those of a shard opened for direct reads in windows of whole sectors through a bounce
buffer, puts them one behind the other and packs them as the prepacker does.  What the reads return
is up to the environment; the direct reads of one slot may be submitted to a ring, which is empty
when the slot is begun.
-/

namespace LayerStorm.Weights

/-! ### Construction -/

structure ProjSource where
  shardIdx : ℕ
  absOffset : ℕ
  perExpertBytes : ℕ
  kquant : KQuant
  deriving DecidableEq, Repr

abbrev LayerTable := ℕ → Projection → Option ProjSource

def TensorComponent.projection : TensorComponent → Option Projection
  | .gateProj => some .gate
  | .upProj => some .up
  | .downProj => some .down
  | .other => none

namespace GgufModel

variable (M : GgufModel)

/-- `layers_.size()`: the hidden layers, and the prediction layers when they count as MoE layers. -/
def nLiveLayers : ℕ :=
  M.numHiddenLayers +
    if M.numHiddenLayers ∈ M.moeLayerIndices then M.numNextnPredictLayers else 0

def scanTensor (layers : LayerTable) (x : ℕ × Shard × GgufEntry) : Except String LayerTable :=
  match x.2.2.id with
  | none => .ok layers
  | some id =>
    match id.component.projection with
    | none => .ok layers
    | some proj =>
      if id.routedExpert = true then do
        let (kt, perExpert) ← M.perExpertBytes "live prepack:" x.2.2
        if M.nLiveLayers ≤ id.layerIdx then
          -- the prediction layers are skipped
          if id.layerIdx < M.nLiveLayers + M.numNextnPredictLayers then .ok layers
          else .error s!"live prepack: '{x.2.2.name}' layer index out of range"
        else
          .ok (Function.update layers id.layerIdx (Function.update (layers id.layerIdx) proj
            (some ⟨x.1, x.2.1.dataBlobOffset + x.2.2.dataOffset, perExpert, kt⟩)))
      else .ok layers

end GgufModel

/-- The three projections of a MoE layer. -/
structure LayerInfo where
  gate : ProjSource
  up : ProjSource
  down : ProjSource
  deriving DecidableEq, Repr

namespace LayerInfo

variable (li : LayerInfo)

def types : GgufTypes := ⟨li.gate.kquant, li.up.kquant, li.down.kquant⟩

/-- The projections in the order of the slot. -/
def projs : List ProjSource := [li.gate, li.up, li.down]

def packedTotal : ℕ :=
  li.gate.perExpertBytes + li.up.perExpertBytes + li.down.perExpertBytes

end LayerInfo

/-- `LiveGgufExpertSource`; `direct` tells the shards that were opened for direct reads. -/
structure LiveSource where
  shards : List Shard
  direct : ℕ → Bool
  shape : ExpertShape
  nExperts : ℕ
  slotSizeBytesRaw : ℕ
  layers : ℕ → Option LayerInfo

def LiveSource.slotStrideBytes (S : LiveSource) : ℕ := alignedSlotStride S.slotSizeBytesRaw

namespace GgufModel

variable (M : GgufModel)

/-- The checks of one MoE layer. -/
def layerInfo (slotSize : ℕ) (table : LayerTable) (l : ℕ) : Except String LayerInfo :=
  if M.nLiveLayers ≤ l then .error s!"live prepack: MoE layer index {l} out of range"
  else
    match table l .gate, table l .up, table l .down with
    | some gate, some up, some down => do
      let li : LayerInfo := ⟨gate, up, down⟩
      let gateB ← orThrow (li.types.bytesPerProjection M.shape .gate)
      let upB ← orThrow (li.types.bytesPerProjection M.shape .up)
      let downB ← orThrow (li.types.bytesPerProjection M.shape .down)
      check (gateB = gate.perExpertBytes ∧ upB = up.perExpertBytes ∧ downB = down.perExpertBytes)
        (s!"live prepack: layer {l} per-expert projection bytes disagree with the k-quant " ++
          "type-derived sizes (config shape vs GGUF dims mismatch?)")
      check (0 < li.packedTotal ∧ li.packedTotal ≤ slotSize)
        (s!"live prepack: layer {l} packed total {li.packedTotal} exceeds slot size {slotSize} " ++
          "(global gguf_types must be the per-projection MAX)")
      .ok li
    | _, _, _ =>
      .error s!"live prepack: layer {l} is missing a stacked routed-expert projection in the GGUF"

/-- The constructor. -/
def live (quant : QuantInterface) (direct : ℕ → Bool) : Except String LiveSource := do
  let slotSize ← orThrow (quant.bytesPerExpert M.shape)
  let table ← M.tensors.foldlM M.scanTensor fun _ _ => none
  let infos ← M.moeLayerIndices.mapM fun l => (M.layerInfo slotSize table l).map (l, ·)
  .ok {
    shards := M.shards
    direct := direct
    shape := M.shape
    nExperts := M.nRoutedExperts
    slotSizeBytesRaw := slotSize
    layers := fun l => infos.lookup l }

end GgufModel

/-! ### Reading a slot -/

def kAlign : ℕ := kSlotAlignBytes

def alignDown (x : ℕ) : ℕ := x / kAlign * kAlign

def alignUp (x : ℕ) : ℕ := (x + kAlign - 1) / kAlign * kAlign

/-- The slice of one projection, and where it goes in the assembly. -/
structure Range where
  shardIdx : ℕ
  direct : Bool
  off : ℕ
  len : ℕ
  asmOff : ℕ
  deriving DecidableEq, Repr

/-- A direct read: the window of whole sectors around a slice, and its part of the bounce buffer. -/
structure DirectRead where
  range : Range
  aOff : ℕ
  aLen : ℕ
  buf : ℕ
  deriving DecidableEq, Repr

/-- The buffers that a read can go to. -/
inductive Target
  | bounce | assembly
  deriving DecidableEq, Repr

/-- A read: it stores `len` bytes of a shard from `off` on at a position of a buffer that was given
`room` bytes for it from `start` on. -/
structure Read where
  shardIdx : ℕ
  off : ℕ
  len : ℕ
  target : Target
  pos : ℕ
  start : ℕ
  room : ℕ
  deriving DecidableEq, Repr

/-- A piece of a shard that is handed on to the assembly. -/
structure Handed where
  shardIdx : ℕ
  off : ℕ
  len : ℕ
  asmOff : ℕ
  deriving DecidableEq, Repr

/-- The scratch buffers of a thread, with a trace of what was read and handed on. -/
structure Scratch where
  bounce : ℕ → UInt8
  assembly : ℕ → UInt8
  reads : List Read
  handed : List Handed

/-- Storing bytes in a buffer. -/
def storeAt (buf : ℕ → UInt8) (pos n : ℕ) (src : ℕ → UInt8) : ℕ → UInt8 := fun i =>
  if pos ≤ i ∧ i < pos + n then src (i - pos) else buf i

/-- What the reads of one slot return: the entries that the ring gives, whether they are submitted,
the completions in the order of their arrival until a wait fails, and the results of the single
reads. -/
structure Answers where
  bounceOk : Bool
  ring : Bool
  sqes : ℕ
  submitOk : Bool
  cqes : List (ℕ × ℤ)
  direct : ℕ → List ℤ
  buffered : ℕ → List ℤ

/-- How reading a slot ends. -/
inductive Outcome
  | missing
  | bounceFailed
  | readFailed
  | packFailed
  | loaded (slot : List UInt8)
  deriving DecidableEq, Repr

namespace LiveSource

variable (S : LiveSource)

def byte (si i : ℕ) : UInt8 := (S.shards[si]?.map fun s => s.byte i).getD 0

def fileSize (si : ℕ) : ℕ := (S.shards[si]?.map fun s => s.file.length).getD 0

/-- The ranges of an expert, from an offset of the assembly on. -/
def ranges (ei : ℕ) : List ProjSource → ℕ → List Range
  | [], _ => []
  | ps :: rest, asmOff =>
    ⟨ps.shardIdx, S.direct ps.shardIdx, ps.absOffset + ei * ps.perExpertBytes, ps.perExpertBytes,
      asmOff⟩ :: ranges ei rest (asmOff + ps.perExpertBytes)

/-- The direct reads of some ranges, from a cursor of the bounce buffer on. -/
def directReads : List Range → ℕ → List DirectRead
  | [], _ => []
  | rg :: rest, cursor =>
    if rg.direct = true then
      let aOff := alignDown rg.off
      let aLen := alignUp (rg.off + rg.len) - aOff
      ⟨rg, aOff, aLen, cursor⟩ :: directReads rest (cursor + aLen)
    else directReads rest cursor

def bounceNeed (rgs : List Range) : ℕ := ((directReads rgs 0).map DirectRead.aLen).sum

/-- The number of bytes that a read transfers: not more than was asked for, and not beyond the end
of the file. -/
def transfer (si off count : ℕ) (r : ℤ) : ℕ := min r.toNat (min count (S.fileSize si - off))

/-- A read stores its bytes. -/
def doRead (sc : Scratch) (rd : Read) : Scratch :=
  match rd.target with
  | .bounce => { sc with
      bounce := storeAt sc.bounce rd.pos rd.len fun i => S.byte rd.shardIdx (rd.off + i)
      reads := rd :: sc.reads }
  | .assembly => { sc with
      assembly := storeAt sc.assembly rd.pos rd.len fun i => S.byte rd.shardIdx (rd.off + i)
      reads := rd :: sc.reads
      handed := ⟨rd.shardIdx, rd.off, rd.len, rd.pos⟩ :: sc.handed }

/-- The loop of a single read: `pread` until `want` bytes are there. -/
def preadLoop (si off count want : ℕ) (target : Target) (start : ℕ) :
    List ℤ → ℕ → Scratch → Scratch × Bool
  | answers, got, sc =>
    if want ≤ got then (sc, true)
    else
      match answers with
      | [] => (sc, false)
      | r :: rest =>
        let n := S.transfer si (off + got) (count - got) r
        if n = 0 then (sc, false)
        else
          preadLoop si off count want target start rest (got + n)
            (S.doRead sc ⟨si, off + got, n, target, start + got, start, count⟩)

/-- The slice of a direct read is copied out of the bounce buffer. -/
def copyOut (sc : Scratch) (dr : DirectRead) : Scratch :=
  { sc with
    assembly := storeAt sc.assembly dr.range.asmOff dr.range.len fun i =>
      sc.bounce (dr.buf + (dr.range.off - dr.aOff) + i)
    handed := ⟨dr.range.shardIdx, dr.range.off, dr.range.len, dr.range.asmOff⟩ :: sc.handed }

def complete (dreads : List DirectRead) (x : Scratch × List ℕ) (cqe : ℕ × ℤ) : Scratch × List ℕ :=
  match dreads[cqe.1]? with
  | none => x
  | some dr =>
    let n := S.transfer dr.range.shardIdx dr.aOff dr.aLen cqe.2
    let sc := S.doRead x.1 ⟨dr.range.shardIdx, dr.aOff, n, .bounce, dr.buf, dr.buf, dr.aLen⟩
    -- complete if the read covered the slice
    if 0 < n ∧ dr.range.off + dr.range.len ≤ dr.aOff + n then
      (copyOut sc dr, cqe.1 :: x.2)
    else (sc, x.2)

def ringReads (a : Answers) (dreads : List DirectRead) (sc : Scratch) : Scratch × List ℕ :=
  let submitted := dreads.take a.sqes
  if 1 < dreads.length ∧ a.ring = true ∧ 0 < submitted.length ∧ a.submitOk = true then
    (a.cqes.take submitted.length).foldl (S.complete submitted) (sc, [])
  else (sc, [])

/-- The direct reads that the ring has not completed. -/
def directLoop (a : Answers) (done : List ℕ) : List (DirectRead × ℕ) → Scratch → Scratch × Bool
  | [], sc => (sc, true)
  | (dr, i) :: rest, sc =>
    if i ∈ done then directLoop a done rest sc
    else
      let want := dr.range.off + dr.range.len - dr.aOff
      let x := S.preadLoop dr.range.shardIdx dr.aOff dr.aLen want .bounce dr.buf (a.direct i) 0 sc
      if x.2 = true then directLoop a done rest (copyOut x.1 dr) else (x.1, false)

def bufferedLoop (a : Answers) : List (Range × ℕ) → Scratch → Scratch × Bool
  | [], sc => (sc, true)
  | (rg, p) :: rest, sc =>
    if rg.direct = true then bufferedLoop a rest sc
    else
      let x := S.preadLoop rg.shardIdx rg.off rg.len rg.len .assembly rg.asmOff (a.buffered p) 0 sc
      if x.2 = true then bufferedLoop a rest x.1 else (x.1, false)

def assemblyBundles (li : LayerInfo) (rgs : List Range) : List Bundle :=
  (([TensorComponent.gateProj, .upProj, .downProj].zip li.projs).zip rgs).map fun x =>
    ⟨x.1.1, ⟨x.2.asmOff, x.1.2.perExpertBytes⟩, .u8, some x.1.2.kquant, []⟩

/-- Packing and padding what was assembled. -/
def commit (li : LayerInfo) (rgs : List Range) (sc : Scratch) : Outcome :=
  match packGgufExpert sc.assembly (assemblyBundles li rgs) S.shape (some li.types) with
  | none => .packFailed
  | some slot =>
    if slot.length ≠ li.packedTotal then .packFailed
    else .loaded (padded S.slotStrideBytes slot)

def loadInto (a : Answers) (layer ei : ℕ) (sc : Scratch) : Outcome × Scratch :=
  match S.layers layer with
  | none => (.missing, sc)
  | some li =>
    if S.nExperts ≤ ei then (.missing, sc)
    else
      let rgs := S.ranges ei li.projs 0
      if 0 < bounceNeed rgs ∧ a.bounceOk = false then (.bounceFailed, sc)
      else
        let dreads := directReads rgs 0
        let x := S.ringReads a dreads sc
        let y := S.directLoop a x.2 dreads.zipIdx x.1
        if y.2 = false then (.readFailed, y.1)
        else
          let z := S.bufferedLoop a rgs.zipIdx y.1
          if z.2 = false then (.readFailed, z.1) else (S.commit li rgs z.1, z.1)

end LiveSource

end LayerStorm.Weights
