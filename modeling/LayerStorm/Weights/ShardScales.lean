import LayerStorm.Lib.BinaryFloat
import LayerStorm.Weights.TpSharder

/-!
# Sharding block-scaled weights

A weight of a quantised model has a tensor of scales, one for each block of its elements.  A rank
gets a shard of the weight and a shard of the scales; it counts the blocks from the origin of its
shard.

## Main results

* `shard_dequant_iff` — for attention and FFN components.
-/

namespace LayerStorm.Weights

open Nat
namespace Tp

open Lib

variable {β : Type}

/-! ### Components -/

inductive TensorComponent
  | qAProj | qANorm | qBProj | kvAProjWithMqa | kvANorm | kvBProj | oProj
  | indexerWqB | indexerWk | indexerKNormWeight | indexerKNormBias | indexerWeightsProj
  | indexerCompressorWkv | indexerCompressorWgate | indexerCompressorApe | indexerCompressorNorm
  | inputLayernorm | postAttentionLayernorm
  | gateWeight | gateEScoreCorrectionBias
  | gateProj | upProj | downProj
  | embedding | outputHead | finalNorm
  | mtpEnorm | mtpHnorm | mtpEhProj | mtpSharedHeadWeight | mtpSharedHeadNorm | mtpEmbedTokens
  | mlaKBSplit | mlaVBSplit
  | oProjA | oProjB | attnSinks | compressorWkv | compressorWgate | compressorApe | compressorNorm
  | hcAttnFn | hcAttnBase | hcAttnScale | hcFfnFn | hcFfnBase | hcFfnScale | gateTid2eid
  | outputHcFn | outputHcBase | outputHcScale
  | kdaQProj | kdaKProj | kdaVProj | kdaBProj | kdaFAProj | kdaFBProj | kdaGAProj | kdaGBProj
  | kdaQConv1d | kdaKConv1d | kdaVConv1d | kdaALog | kdaDtBias | kdaONorm
  deriving DecidableEq, Repr

inductive ShardMode
  | replicated | columnParallel | rowParallel
  deriving DecidableEq, Repr

def shardModeFor : TensorComponent → ShardMode
  | .qBProj | .kvBProj => .columnParallel
  | .oProj => .rowParallel
  | .oProjA => .columnParallel
  | .oProjB => .rowParallel
  | .kdaQProj | .kdaKProj | .kdaVProj | .kdaBProj | .kdaFBProj | .kdaGBProj | .kdaQConv1d
  | .kdaKConv1d | .kdaVConv1d | .kdaALog | .kdaDtBias => .columnParallel
  | .kdaFAProj | .kdaGAProj | .kdaONorm => .replicated
  | _ => .replicated

def shardModeForFfn : TensorComponent → ShardMode
  | .gateProj | .upProj => .columnParallel
  | .downProj => .rowParallel
  | _ => .replicated

inductive TensorRole
  | weight | weightScale | weightScale2 | inputScale | bias
  deriving DecidableEq, Repr

structure WeightBundle (β : Type) where
  component : TensorComponent
  weight : RawTensor β
  aux : List (TensorRole × RawTensor β)

structure ShardedWeightBundle (β : Type) where
  component : TensorComponent
  weight : ShardedTensor β
  aux : List (TensorRole × ShardedTensor β)

def findAux {α : Type} (aux : List (TensorRole × α)) (role : TensorRole) : Option α :=
  (aux.find? (·.1 = role)).map (·.2)

/-! ### Splitting a bundle -/

variable (tp : TpWeightSharder)

def shardByMode (mode : ShardMode) (t : RawTensor β) (rank : ℕ) :
    Except ShardError (ShardedTensor β) :=
  match mode with
  | .columnParallel => shardColumnParallel tp t rank
  | .rowParallel => shardRowParallel tp t rank
  | .replicated => .ok (wrapReplicated t)

def shardScale (scale : RawTensor β) (role : TensorRole) (parentMode : ShardMode) (rank : ℕ) :
    Except ShardError (ShardedTensor β) :=
  if role = .weightScale2 ∨ role = .inputScale then .ok (wrapReplicated scale)
  else if role = .bias then .ok (wrapReplicated scale)
  else if scale.shape.length < 2 then .ok (wrapReplicated scale)
  else shardByMode tp parentMode scale rank

/-- Splitting the weight, then its auxiliary tensors. -/
def shardBundle (mode : ShardMode) (bundle : WeightBundle β) (rank : ℕ) :
    Except ShardError (ShardedWeightBundle β) := do
  let weight ← shardByMode tp mode bundle.weight rank
  let aux ← bundle.aux.mapM fun p => do
    let scale ← shardScale tp p.2 p.1 mode rank
    return (p.1, scale)
  return ⟨bundle.component, weight, aux⟩

/-- The mode that is used: a single rank has everything. -/
def effectiveMode (mode : ShardMode) : ShardMode :=
  if tp.tpDegree ≤ 1 then .replicated else mode

/-- `shard_attention`; it puts the k-quant type of the weight on the shard. -/
def shardAttention (bundle : WeightBundle β) (rank : ℕ) :
    Except ShardError (ShardedWeightBundle β) :=
  (shardBundle tp (effectiveMode tp (shardModeFor bundle.component)) bundle rank).map fun s =>
    { s with weight := { s.weight with ggufType := bundle.weight.ggufType } }

def shardFfn (bundle : WeightBundle β) (rank : ℕ) : Except ShardError (ShardedWeightBundle β) :=
  shardBundle tp (effectiveMode tp (shardModeForFfn bundle.component)) bundle rank

/-! ### Block-scaled formats -/

/-- `decode` of `fp8_e4m3`: no infinities. -/
def fp8E4m3 : BinaryFormat := ⟨4, 3, 7, fun exponent fraction => exponent = 15 ∧ fraction = 7⟩

/-- `decode` of `fp8_e5m2`. -/
def fp8E5m2 : BinaryFormat := ⟨5, 2, 15, fun exponent _ => exponent = 31⟩

/-- A `float`. -/
def binary32 : BinaryFormat := ⟨8, 23, 127, fun exponent _ => exponent = 255⟩

/-- `decode_e2m1`, with `kE2M1Magnitudes`. -/
def decodeE2m1 (nibble : ℕ) : ℚ :=
  let mag := [0, 1 / 2, 1, 3 / 2, 2, 3, 4, 6].getD (nibble % 8) 0
  if nibble / 8 % 2 = 1 then -mag else mag

/-- A `float` in memory. -/
def decodeFloat (bytes : List UInt8) : Option (Option ℚ) :=
  match bytes with
  | [b₀, b₁, b₂, b₃] =>
    some (binary32.decode (b₀.toNat + 2 ^ 8 * b₁.toNat + 2 ^ 16 * b₂.toNat + 2 ^ 24 * b₃.toNat))
  | _ => none

inductive BlockFormat
  | fp8 | nvfp4
  deriving DecidableEq, Repr

namespace BlockFormat

/-- The rows of a block: `kBlockScaleTile` in the one format. -/
def blockRows : BlockFormat → ℕ
  | fp8 => 128
  | nvfp4 => 1

/-- The columns of a block: `kBlockScaleTile`, or `kGroupSize`. -/
def blockCols : BlockFormat → ℕ
  | fp8 => 128
  | nvfp4 => 16

/-- The values in a byte of the weight. -/
def pack : BlockFormat → ℕ
  | fp8 => 1
  | nvfp4 => 2

/-- The types that the handlers admit for the weight. -/
def WeightDtype : BlockFormat → SafetensorsDtype → Prop
  | fp8, dtype => dtype = .f8E4m3 ∨ dtype = .f8E5m2
  | nvfp4, dtype => dtype = .u8

def scaleDtype : BlockFormat → SafetensorsDtype
  | fp8 => .f32
  | nvfp4 => .f8E4m3

def scalars : BlockFormat → List TensorRole
  | fp8 => []
  | nvfp4 => [.weightScale2, .inputScale]

/-- The number of a value of the weight: a byte, or the low and then the high half of one. -/
def decodeValue (format : BlockFormat) (dtype : SafetensorsDtype) (bytes : List UInt8) (k : ℕ) :
    Option (Option ℚ) :=
  match bytes with
  | [b] =>
    match format with
    | fp8 => some ((if dtype = .f8E5m2 then fp8E5m2 else fp8E4m3).decode b.toNat)
    | nvfp4 => some (some (decodeE2m1 (b.toNat / 16 ^ k % 16)))
  | _ => none

def decodeScale (format : BlockFormat) (bytes : List UInt8) : Option (Option ℚ) :=
  match format, bytes with
  | fp8, bytes => decodeFloat bytes
  | nvfp4, [b] => some (fp8E4m3.decode b.toNat)
  | nvfp4, _ => none

end BlockFormat

/-- The product of two numbers, if both are numbers. -/
def exactMul (x y : Option ℚ) : Option ℚ := do return (← x) * (← y)

/-- The number that an element of a weight stands for; `none` where a byte is missing.  The blocks
are counted from the origin of the tensor. -/
def dequant (format : BlockFormat) (b : ShardedWeightBundle UInt8) (i j : ℕ) :
    Option (Option ℚ) := do
  let scales ← findAux b.aux .weightScale
  let value ← format.decodeValue b.weight.dtype
    (b.weight.element (i * b.weight.shape.getD 1 1 + j / format.pack)).1 (j % format.pack)
  let scale ← format.decodeScale
    (scales.element (i / format.blockRows * scales.shape.getD 1 1 + j / format.blockCols)).1
  match format with
  | .fp8 => return exactMul value scale
  | .nvfp4 =>
    let scale2 ← (findAux b.aux .weightScale2).bind fun s => decodeFloat s.data
    return exactMul (exactMul value scale) scale2

/-- The blocks of a number of rows or columns, as the handlers round. -/
def blockCount (n tile : ℕ) : ℕ := (n + tile - 1) / tile

structure BlockScaled (format : BlockFormat) (rows stored : ℕ) (b : WeightBundle β) : Prop where
  shape : b.weight.shape = [rows, stored]
  dtype : format.WeightDtype b.weight.dtype
  plain : b.weight.ggufType = none
  scale : ∃ scales, findAux b.aux .weightScale = some scales ∧ scales.shape =
      [blockCount rows format.blockRows, blockCount (stored * format.pack) format.blockCols] ∧
    scales.dtype = format.scaleDtype ∧ scales.ggufType = none
  scalars : ∀ role ∈ format.scalars, ∃ scalar, findAux b.aux role = some scalar ∧
    scalar.shape = [] ∧ scalar.dtype = .f32 ∧ scalar.ggufType = none

def wholeBundle (b : WeightBundle β) : ShardedWeightBundle β :=
  ⟨b.component, wrapReplicated b.weight, b.aux.map fun p => (p.1, wrapReplicated p.2)⟩

/-! ### The slice of a rank -/

def sliceRows (mode : ShardMode) (rows : ℕ) : ℕ :=
  if mode = .columnParallel then rows / tp.tpDegree else rows

/-- The columns of a rank. -/
def sliceCols (mode : ShardMode) (cols : ℕ) : ℕ :=
  if mode = .rowParallel then cols / tp.tpDegree else cols

def firstRow (mode : ShardMode) (rows rank : ℕ) : ℕ :=
  if mode = .columnParallel then rank * (rows / tp.tpDegree) else 0

def firstCol (mode : ShardMode) (cols rank : ℕ) : ℕ :=
  if mode = .rowParallel then rank * (cols / tp.tpDegree) else 0

/-- Splitting commutes with dequantising: where a bundle is split, the shard of each rank stands for
its slice of what the weight stands for. -/
def Commutes (format : BlockFormat) (component : TensorComponent) (mode : ShardMode)
    (rows stored : ℕ)
    (split : WeightBundle UInt8 → ℕ → Except ShardError (ShardedWeightBundle UInt8)) : Prop :=
  ∀ b, BlockScaled format rows stored b → b.component = component →
    ∀ rank < tp.tpDegree, ∀ s, split b rank = .ok s →
      s.weight.shape = [sliceRows tp mode rows, sliceCols tp mode stored] ∧
      ∀ i < sliceRows tp mode rows, ∀ j < sliceCols tp mode stored * format.pack,
        dequant format s i j = dequant format (wholeBundle b) (firstRow tp mode rows rank + i)
            (firstCol tp mode stored rank * format.pack + j)

/-- No boundary between two ranks falls inside a block; a split that throws has no boundaries. -/
def Aligned (format : BlockFormat) (rows stored : ℕ) : ShardMode → Prop
  | .replicated => True
  | .columnParallel =>
    1 < tp.tpDegree → tp.tpDegree ∣ rows → tp.tpDegree ∣ blockCount rows format.blockRows →
      stored = 0 ∨ format.blockRows ∣ rows / tp.tpDegree
  | .rowParallel =>
    1 < tp.tpDegree → tp.tpDegree ∣ stored →
      tp.tpDegree ∣ blockCount (stored * format.pack) format.blockCols →
      rows = 0 ∨ format.blockCols ∣ stored / tp.tpDegree * format.pack

/-! ### Blocks -/

namespace BlockFormat

theorem blockRows_pos (format : BlockFormat) : 0 < format.blockRows := by
  cases format <;> decide

theorem blockCols_pos (format : BlockFormat) : 0 < format.blockCols := by
  cases format <;> decide

theorem pack_pos (format : BlockFormat) : 0 < format.pack := by
  cases format <;> decide

end BlockFormat

variable {tile : ℕ}

theorem blockCount_mul (htile : 0 < tile) (m : ℕ) : blockCount (m * tile) tile = m := by
  have hsum : m * tile + tile - 1 = tile * m + (tile - 1) := by
    rw [mul_comm]
    omega
  rw [blockCount, hsum, mul_add_div htile, div_eq_of_lt (by omega), add_zero]

theorem le_blockCount_mul (htile : 0 < tile) (n : ℕ) : n ≤ blockCount n tile * tile := by
  have h := lt_div_mul_add (a := n + tile - 1) htile
  rw [blockCount]
  omega

variable {n : ℕ}

theorem div_lt_blockCount (htile : 0 < tile) {j : ℕ} (hj : j < n) :
    j / tile < blockCount n tile := by
  rw [div_lt_iff_lt_mul htile]
  have h := le_blockCount_mul htile n
  omega

theorem blockCount_pos (htile : 0 < tile) (hn : 0 < n) : 0 < blockCount n tile :=
  (zero_le _).trans_lt (div_lt_blockCount htile hn)

theorem blockCount_div_ne (htile : 0 < tile) {ranks : ℕ} (hranks : 0 < ranks)
    (hdvd : ranks ∣ blockCount (ranks * n) tile) (hn : ¬ tile ∣ n) :
    blockCount (ranks * n) tile / ranks ≠ n / tile := by
  intro heq
  obtain ⟨m, hm⟩ := hdvd
  rw [hm, Nat.mul_div_cancel_left _ hranks] at heq
  have hcover := le_blockCount_mul htile (ranks * n)
  rw [hm, mul_assoc] at hcover
  have hle : n ≤ m * tile := le_of_mul_le_mul_left hcover hranks
  -- the blocks of a rank would have to be full
  have hfull : m * tile ≤ n := by
    rw [heq]
    exact div_mul_le_self n tile
  exact hn ⟨m, by rw [mul_comm]; omega⟩

/-! ### The slice of a matrix -/

structure MatrixSlice (mode : ShardMode) (rows cols rank : ℕ) (t : RawTensor β)
    (s : ShardedTensor β) : Prop where
  rows_dvd : mode = .columnParallel → tp.tpDegree ∣ rows
  cols_dvd : mode = .rowParallel → tp.tpDegree ∣ cols
  dtype : s.dtype = t.dtype
  ggufType : s.ggufType = t.ggufType
  shape : s.shape = [sliceRows tp mode rows, sliceCols tp mode cols]
  element : ∀ i < sliceRows tp mode rows, ∀ j < sliceCols tp mode cols,
    s.element (i * sliceCols tp mode cols + j) =
      t.element ((firstRow tp mode rows rank + i) * cols + (firstCol tp mode cols rank + j))

variable {tp} {t : RawTensor β} {mode : ShardMode} {rows cols rank : ℕ}

theorem shardByMode_matrix (mode : ShardMode) (hplain : t.ggufType = none)
    (hshape : t.shape = [rows, cols]) (hrank : rank < tp.tpDegree) :
    (∃ s, shardByMode tp mode t rank = .ok s ∧ MatrixSlice tp mode rows cols rank t s) ∨
      (∃ e, shardByMode tp mode t rank = .error e) ∧
        ¬ ((mode = .columnParallel → tp.tpDegree ∣ rows) ∧
          (mode = .rowParallel → tp.tpDegree ∣ cols)) := by
  cases mode with
  | replicated =>
    exact .inl ⟨_, rfl, by simp, by simp, rfl, rfl, hshape, fun i _ j _ => by
      simp [sliceCols, firstRow, firstCol, wrapReplicated, ShardedTensor.element]⟩
  | columnParallel =>
    by_cases hdvd : tp.tpDegree ∣ rows
    · obtain ⟨c, rfl⟩ := hdvd
      obtain ⟨s, hs, -, hslice⟩ := shardColumnParallel_plain hplain hshape hrank
      refine .inl ⟨s, hs, by simp, by simp, hslice.dtype, hslice.ggufType, ?_, ?_⟩
      · simp [hslice.shape, hshape, sliceRows, sliceCols]
      · intro i hi j hj
        have h := hslice.elements 0 (by simp) i (by simpa [hshape, sliceRows] using hi) j
          (by simpa [hshape, sliceCols] using hj)
        simpa [hshape, sliceCols, firstRow, firstCol] using h
    · obtain ⟨e, -, he⟩ := shardColumnParallel_throws hshape (by simp [hplain])
        (fun h => hdvd h.1) rank
      exact .inr ⟨⟨e, he⟩, fun h => hdvd (h.1 rfl)⟩
  | rowParallel =>
    by_cases hdvd : tp.tpDegree ∣ cols
    · obtain ⟨c, rfl⟩ := hdvd
      have hshape' : t.shape = rows :: tp.tpDegree * (c * unitValues t.ggufType) :: [] := by
        rw [hshape, hplain, unitValues, mul_one]
      obtain ⟨s, hs, -, hslice⟩ := shardRowParallel_slice hshape' (.inl rfl) hrank
      refine .inl ⟨s, hs, by simp, by simp, hslice.dtype, hslice.ggufType, ?_, ?_⟩
      · simp [hslice.shape, hshape, sliceRows, sliceCols]
      · intro i hi j hj
        have h := hslice.elements i (by simpa [hshape, sliceRows] using hi) j
          (by simpa [hshape, sliceCols] using hj) 0 (by simp [hshape])
        simpa [hshape, sliceCols, firstRow, firstCol, add_assoc] using h
    · obtain ⟨e, -, he⟩ := shardRowParallel_throws hshape
        (fun h => hdvd (dvd_trans (dvd_mul_right ..) h)) rank
      exact .inr ⟨⟨e, he⟩, fun h => hdvd (h.2 rfl)⟩

theorem matrixSlice_of_ok {s : ShardedTensor β} (hplain : t.ggufType = none)
    (hshape : t.shape = [rows, cols]) (hrank : rank < tp.tpDegree)
    (hs : shardByMode tp mode t rank = .ok s) : MatrixSlice tp mode rows cols rank t s := by
  rcases shardByMode_matrix mode hplain hshape hrank with ⟨s', hs', h⟩ | ⟨⟨e, he⟩, -⟩
  · rw [hs] at hs'
    cases hs'
    exact h
  · rw [hs] at he
    cases he

/-! ### The slice of a bundle -/

theorem findAux_mapM {f : TensorRole → RawTensor β → Except ShardError (ShardedTensor β)}
    {aux : List (TensorRole × RawTensor β)} {out : List (TensorRole × ShardedTensor β)}
    {role : TensorRole} {raw : RawTensor β} (h : (aux.mapM fun p => do
      let scale ← f p.1 p.2
      return (p.1, scale)) = .ok out) (hraw : findAux aux role = some raw) :
    ∃ s, f role raw = .ok s ∧ findAux out role = some s := by
  induction aux generalizing out with
  | nil => simp [findAux] at hraw
  | cons p aux ih =>
    rw [List.mapM_cons] at h
    cases hp : f p.1 p.2 with
    | error e =>
      rw [hp] at h
      cases h
    | ok s =>
      rw [hp] at h
      cases hrest : (aux.mapM fun p => do
        let scale ← f p.1 p.2
        return (p.1, scale)) with
      | error e =>
        rw [hrest] at h
        cases h
      | ok rest =>
        rw [hrest] at h
        cases h
        by_cases hrole : p.1 = role
        · have hraw' : p.2 = raw := by simpa [findAux, hrole] using hraw
          refine ⟨s, by rw [← hrole, ← hraw']; exact hp, by simp [findAux, hrole]⟩
        · have hraw' : findAux aux role = some raw := by simpa [findAux, hrole] using hraw
          obtain ⟨s', hs', hout⟩ := ih hrest hraw'
          exact ⟨s', hs', by simpa [findAux, hrole] using hout⟩

theorem findAux_wholeBundle (b : WeightBundle β) (role : TensorRole) :
    findAux (wholeBundle b).aux role = (findAux b.aux role).map wrapReplicated := by
  simp [findAux, wholeBundle, List.find?_map, Function.comp_def]

theorem shardBundle_ok {b : WeightBundle β} {s : ShardedWeightBundle β}
    (h : shardBundle tp mode b rank = .ok s) :
    shardByMode tp mode b.weight rank = .ok s.weight ∧
      ∀ role raw, findAux b.aux role = some raw → ∃ scale,
        shardScale tp raw role mode rank = .ok scale ∧ findAux s.aux role = some scale := by
  rw [shardBundle] at h
  cases hweight : shardByMode tp mode b.weight rank with
  | error e =>
    rw [hweight] at h
    cases h
  | ok weight =>
    rw [hweight] at h
    cases haux : (b.aux.mapM fun p => do
        let scale ← shardScale tp p.2 p.1 mode rank
        return (p.1, scale)) with
    | error e =>
      rw [haux] at h
      cases h
    | ok aux =>
      rw [haux] at h
      cases h
      exact ⟨rfl, fun role raw hraw =>
        findAux_mapM (f := fun role raw => shardScale tp raw role mode rank) haux hraw⟩

variable {s : ShardedWeightBundle UInt8} {b : WeightBundle UInt8}

theorem dequant_of_slices {format : BlockFormat} {scales : RawTensor UInt8}
    {scales' : ShardedTensor UInt8} {stored scaleRows scaleCols i j : ℕ}
    (hshape : b.weight.shape = [rows, stored]) (hscaleShape : scales.shape = [scaleRows, scaleCols])
    (hweight : MatrixSlice tp mode rows stored rank b.weight s.weight)
    (hscales : MatrixSlice tp mode scaleRows scaleCols rank scales scales')
    (hfind : findAux b.aux .weightScale = some scales)
    (hfind' : findAux s.aux .weightScale = some scales') (hglobal : format = .nvfp4 →
      findAux s.aux .weightScale2 = (findAux b.aux .weightScale2).map wrapReplicated)
    (hi : i < sliceRows tp mode rows) (hj : j < sliceCols tp mode stored * format.pack)
    (hi' : i / format.blockRows < sliceRows tp mode scaleRows)
    (hj' : j / format.blockCols < sliceCols tp mode scaleCols)
    (hrow : (firstRow tp mode rows rank + i) / format.blockRows =
      firstRow tp mode scaleRows rank + i / format.blockRows)
    (hcol : (firstCol tp mode stored rank * format.pack + j) / format.blockCols =
      firstCol tp mode scaleCols rank + j / format.blockCols) :
    dequant format s i j = dequant format (wholeBundle b) (firstRow tp mode rows rank + i)
        (firstCol tp mode stored rank * format.pack + j) := by
  have hpack := format.pack_pos
  have hstored : j / format.pack < sliceCols tp mode stored := by
    rwa [div_lt_iff_lt_mul hpack]
  have hdiv : (firstCol tp mode stored rank * format.pack + j) / format.pack =
      firstCol tp mode stored rank + j / format.pack := by
    rw [mul_comm, mul_add_div hpack]
  have hvalue := hweight.element i hi (j / format.pack) hstored
  have hscale := hscales.element _ hi' _ hj'
  have hscaleCols : scales'.shape.getD 1 1 = sliceCols tp mode scaleCols := by
    rw [hscales.shape]
    rfl
  have hscaleCols' : (wrapReplicated scales).shape.getD 1 1 = scaleCols := by
    rw [wrapReplicated, hscaleShape]
    rfl
  have hcols : s.weight.shape.getD 1 1 = sliceCols tp mode stored := by
    rw [hweight.shape]
    rfl
  have hcols' : (wholeBundle b).weight.shape.getD 1 1 = stored := by
    rw [wholeBundle, wrapReplicated, hshape]
    rfl
  have hwhole : findAux (wholeBundle b).aux .weightScale = some (wrapReplicated scales) := by
    rw [findAux_wholeBundle, hfind]
    rfl
  have hdtype : (wholeBundle b).weight.dtype = s.weight.dtype := hweight.dtype.symm
  simp only [dequant, hfind', hwhole, Option.bind_eq_bind, Option.bind_some, hscaleCols,
    hscaleCols', hcols, hcols', hdtype, hrow, hcol, hdiv, hvalue, hscale,
    mul_add_mod_self_right]
  cases format with
  | fp8 => rfl
  | nvfp4 =>
    rw [hglobal rfl, findAux_wholeBundle]
    rfl

theorem shardScale_matrix {scales : RawTensor β} (hshape : scales.shape = [rows, cols]) :
    shardScale tp scales .weightScale mode rank = shardByMode tp mode scales rank := by
  simp [shardScale, hshape]

theorem blocks_of_slice {i : ℕ} (htile : 0 < tile) (hdvd : tp.tpDegree ∣ n)
    (halign : tile ∣ n / tp.tpDegree) (hi : i < n / tp.tpDegree) :
    i / tile < blockCount n tile / tp.tpDegree ∧ (rank * (n / tp.tpDegree) + i) / tile =
        rank * (blockCount n tile / tp.tpDegree) + i / tile := by
  obtain ⟨c, rfl⟩ := hdvd
  rw [Nat.mul_div_cancel_left _ tp.pos] at halign hi ⊢
  obtain ⟨m, rfl⟩ := halign
  have hblocks : blockCount (tp.tpDegree * (tile * m)) tile / tp.tpDegree = m := by
    rw [Nat.mul_comm tile, ← Nat.mul_assoc, blockCount_mul htile, Nat.mul_div_cancel_left _ tp.pos]
  have hindex : rank * (tile * m) + i = tile * (rank * m) + i := by ring
  rw [hblocks, hindex, mul_add_div htile]
  exact ⟨Nat.div_lt_of_lt_mul hi, rfl⟩

theorem dequant_shardBundle {format : BlockFormat} {stored : ℕ}
    (hb : BlockScaled format rows stored b) (hrank : rank < tp.tpDegree)
    (hs : shardBundle tp mode b rank = .ok s)
    (halignRows : mode = .columnParallel → tp.tpDegree ∣ rows →
      tp.tpDegree ∣ blockCount rows format.blockRows →
        stored = 0 ∨ format.blockRows ∣ rows / tp.tpDegree)
    (halignCols : mode = .rowParallel → tp.tpDegree ∣ stored →
      tp.tpDegree ∣ blockCount (stored * format.pack) format.blockCols →
        rows = 0 ∨ format.blockCols ∣ stored / tp.tpDegree * format.pack) :
    s.weight.ggufType = none ∧
    s.weight.shape = [sliceRows tp mode rows, sliceCols tp mode stored] ∧
      ∀ i < sliceRows tp mode rows, ∀ j < sliceCols tp mode stored * format.pack,
        dequant format s i j = dequant format (wholeBundle b) (firstRow tp mode rows rank + i)
            (firstCol tp mode stored rank * format.pack + j) := by
  have hbr := format.blockRows_pos
  have hbc := format.blockCols_pos
  obtain ⟨scales, hfind, hscaleShape, -, hscalePlain⟩ := hb.scale
  obtain ⟨hweight, haux⟩ := shardBundle_ok hs
  have hslice := matrixSlice_of_ok hb.plain hb.shape hrank hweight
  obtain ⟨scales', hscale, hfind'⟩ := haux _ _ hfind
  rw [shardScale_matrix hscaleShape] at hscale
  have hscaleSlice := matrixSlice_of_ok hscalePlain hscaleShape hrank hscale
  have hglobal : format = .nvfp4 →
      findAux s.aux .weightScale2 = (findAux b.aux .weightScale2).map wrapReplicated := by
    intro hformat
    obtain ⟨scalar, hscalar, -⟩ := hb.scalars .weightScale2 (by simp [hformat, BlockFormat.scalars])
    obtain ⟨scalar', hok, hscalar'⟩ := haux _ _ hscalar
    rw [hscalar, hscalar', ← Except.ok.inj hok]
    rfl
  refine ⟨hslice.ggufType.trans hb.plain, hslice.shape, fun i hi j hj => ?_⟩
  suffices hrows : i / format.blockRows < sliceRows tp mode (blockCount rows format.blockRows) ∧
      (firstRow tp mode rows rank + i) / format.blockRows =
        firstRow tp mode (blockCount rows format.blockRows) rank + i / format.blockRows by
    suffices hcols : j / format.blockCols <
          sliceCols tp mode (blockCount (stored * format.pack) format.blockCols) ∧
        (firstCol tp mode stored rank * format.pack + j) / format.blockCols =
          firstCol tp mode (blockCount (stored * format.pack) format.blockCols) rank +
            j / format.blockCols by
      exact dequant_of_slices hb.shape hscaleShape hslice hscaleSlice hfind hfind' hglobal hi hj
        hrows.1 hcols.1 hrows.2 hcols.2
    by_cases hmode : mode = .rowParallel
    · simp only [sliceCols, firstCol, sliceRows, hmode, if_true] at hi hj ⊢
      have hdvd := hslice.cols_dvd hmode
      rcases halignCols hmode hdvd (hscaleSlice.cols_dvd hmode) with h0 | halign
      · rw [if_neg (by simp)] at hi
        omega
      have hmul : stored / tp.tpDegree * format.pack = stored * format.pack / tp.tpDegree := by
        rw [Nat.mul_comm, ← Nat.mul_div_assoc _ hdvd, Nat.mul_comm]
      rw [hmul] at halign hj
      rw [mul_assoc, hmul]
      exact blocks_of_slice hbc (hdvd.mul_right _) halign hj
    · simp only [sliceCols, firstCol, if_neg hmode] at hj ⊢
      rw [zero_mul, zero_add, zero_add]
      exact ⟨div_lt_blockCount hbc hj, rfl⟩
  by_cases hmode : mode = .columnParallel
  · simp only [sliceCols, hmode] at hi hj ⊢
    have hdvd := hslice.rows_dvd hmode
    rcases halignRows hmode hdvd (hscaleSlice.rows_dvd hmode) with h0 | halign
    · rw [if_neg (by simp), h0] at hj
      omega
    · exact blocks_of_slice hbr hdvd halign hi
  · simp only [sliceRows, firstRow, if_neg hmode] at hi ⊢
    rw [zero_add, zero_add]
    exact ⟨div_lt_blockCount hbr hi, rfl⟩

/-! ### A weight of ones -/

/-- A tensor of one byte for each element. -/
def filled (dtype : SafetensorsDtype) (hdtype : dtype.size = 1) (shape : List ℕ) (byte : UInt8) :
    RawTensor UInt8 where
  data := List.replicate shape.prod byte
  dtype := dtype
  shape := shape
  ggufType := none
  whole := one_dvd _
  length_data := by rw [storedBytes_none, hdtype, List.length_replicate, Nat.mul_one]

def unitScalar : RawTensor UInt8 where
  data := [0, 0, 0x80, 0x3F]
  dtype := .f32
  shape := []
  ggufType := none
  whole := one_dvd _
  length_data := rfl

namespace BlockFormat

/-- The type of a weight of ones. -/
def unitDtype : BlockFormat → SafetensorsDtype
  | fp8 => .f8E4m3
  | nvfp4 => .u8

theorem size_unitDtype (format : BlockFormat) : format.unitDtype.size = 1 := by
  cases format <;> rfl

def unitByte : BlockFormat → UInt8
  | fp8 => 0x38
  | nvfp4 => 0x22

def scaleCode : BlockFormat → Bool → List UInt8
  | fp8, big => if big then [0, 0, 0, 0x40] else [0, 0, 0x80, 0x3F]
  | nvfp4, big => if big then [0x40] else [0x38]

theorem length_scaleCode (format : BlockFormat) (big : Bool) :
    (format.scaleCode big).length = format.scaleDtype.size := by
  cases format <;> cases big <;> rfl

variable {f : BinaryFormat}

theorem decode_bias (h0 : f.bias ≠ 0) (hlt : f.bias < 2 ^ f.exponentBits)
    (hreserved : f.reserved f.bias 0 = false) :
    f.decode (f.bias * 2 ^ f.fractionBits) = some 1 := by
  rw [BinaryFormat.decode_power h0 hlt hreserved, sub_self, zpow_zero]

theorem decode_bias_succ (hlt : f.bias + 1 < 2 ^ f.exponentBits)
    (hreserved : f.reserved (f.bias + 1) 0 = false) :
    f.decode ((f.bias + 1) * 2 ^ f.fractionBits) = some 2 := by
  rw [BinaryFormat.decode_power (succ_ne_zero _) hlt hreserved, cast_succ,
    add_sub_cancel_left, zpow_one]

theorem decodeScale_scaleCode (format : BlockFormat) (big : Bool) :
    format.decodeScale (format.scaleCode big) = some (some (if big then 2 else 1)) := by
  cases format with
  | fp8 =>
    cases big
    · exact congrArg some (decode_bias (f := binary32) (by decide) (by decide) rfl)
    · exact congrArg some (decode_bias_succ (f := binary32) (by decide) rfl)
  | nvfp4 =>
    cases big
    · exact congrArg some (decode_bias (f := fp8E4m3) (by decide) (by decide) rfl)
    · exact congrArg some (decode_bias_succ (f := fp8E4m3) (by decide) rfl)

theorem decodeValue_unitByte (format : BlockFormat) :
    format.decodeValue format.unitDtype [format.unitByte] 0 = some (some 1) := by
  cases format with
  | fp8 => exact congrArg some (decode_bias (f := fp8E4m3) (by decide) (by decide) rfl)
  | nvfp4 => rfl

end BlockFormat

/-- A matrix of scales, two where told and one elsewhere. -/
def scaleTensor (format : BlockFormat) (rows cols : ℕ) (big : ℕ → ℕ → Bool) : RawTensor UInt8 where
  data := (List.range (rows * cols)).flatMap fun n => format.scaleCode (big (n / cols) (n % cols))
  dtype := format.scaleDtype
  shape := [rows, cols]
  ggufType := none
  whole := one_dvd _
  length_data := by
    rw [List.length_flatMap, List.map_congr_left (g := fun _ => format.scaleDtype.size)]
    · simp
    · intro n _
      exact format.length_scaleCode _

/-- A weight of ones with such scales. -/
def unitBundle (format : BlockFormat) (component : TensorComponent) (rows stored : ℕ)
    (big : ℕ → ℕ → Bool) : WeightBundle UInt8 where
  component := component
  weight := filled format.unitDtype format.size_unitDtype [rows, stored] format.unitByte
  aux := [(.weightScale, scaleTensor format (blockCount rows format.blockRows)
      (blockCount (stored * format.pack) format.blockCols) big),
    (.weightScale2, unitScalar), (.inputScale, unitScalar)]

theorem blockScaled_unitBundle (format : BlockFormat) (component : TensorComponent)
    (rows stored : ℕ) (big : ℕ → ℕ → Bool) :
    BlockScaled format rows stored (unitBundle format component rows stored big) where
  shape := rfl
  dtype := by cases format <;> simp [BlockFormat.WeightDtype, unitBundle, filled,
    BlockFormat.unitDtype]
  plain := rfl
  scale := ⟨_, rfl, rfl, rfl, rfl⟩
  scalars := by cases format <;> simp [BlockFormat.scalars, unitBundle, findAux, unitScalar]

theorem element_filled {dtype : SafetensorsDtype} (hdtype : dtype.size = 1) {shape : List ℕ}
    {byte : UInt8} (hn : n < shape.prod) :
    ((filled dtype hdtype shape byte).element n).1 = [byte] := by
  have htake : min 1 (shape.prod - n) = 1 := by omega
  simp [ShardedTensor.element, filled, unitValues, unitBytes, hdtype, List.take_replicate,
    List.drop_replicate, htake]

theorem element_scaleTensor {format : BlockFormat} {big : ℕ → ℕ → Bool} {a c : ℕ} (ha : a < rows)
    (hc : c < cols) :
    ((scaleTensor format rows cols big).element (a * cols + c)).1 = format.scaleCode (big a c) := by
  have hn : a * cols + c < rows * cols := block_lt ha hc
  have hblock := take_drop_flatMap (l := List.range (rows * cols))
    (f := fun n => format.scaleCode (big (n / cols) (n % cols))) (n := format.scaleDtype.size)
    (m := format.scaleDtype.size) (i := 0) (fun n _ => format.length_scaleCode _)
    (List.getElem?_range hn) (by omega)
  have hdiv : (a * cols + c) / cols = a := by
    rw [mul_comm, mul_add_div (by omega), div_eq_of_lt hc, add_zero]
  rw [hdiv, mul_add_mod_of_lt hc, add_zero, List.drop_zero,
    List.take_of_length_le (format.length_scaleCode _).le] at hblock
  simpa [ShardedTensor.element, scaleTensor, unitValues, unitBytes] using hblock

/-! ### A boundary inside a block -/

theorem dequant_unit {format : BlockFormat} (scales : ShardedTensor UInt8) {big : Bool} (i j : ℕ)
    (hj : j % format.pack = 0) (hdtype : s.weight.dtype = format.unitDtype)
    (hfind : findAux s.aux .weightScale = some scales)
    (hglobal : findAux s.aux .weightScale2 = some (wrapReplicated unitScalar))
    (hvalue : (s.weight.element (i * s.weight.shape.getD 1 1 + j / format.pack)).1 =
      [format.unitByte]) (hscale : (scales.element
      (i / format.blockRows * scales.shape.getD 1 1 + j / format.blockCols)).1 =
        format.scaleCode big) :
    dequant format s i j = some (some (if big then 2 else 1)) := by
  simp only [dequant, hfind, hdtype, hvalue, hscale, hj, format.decodeValue_unitByte,
    format.decodeScale_scaleCode, Option.bind_eq_bind, Option.bind_some]
  cases format with
  | fp8 => simp [exactMul]
  | nvfp4 =>
    have hone : decodeFloat (wrapReplicated unitScalar).data = some (some 1) :=
      BlockFormat.decodeScale_scaleCode .fp8 false
    simp [hglobal, hone, exactMul]

theorem firstRow_add_le (mode : ShardMode) (rows : ℕ) (hrank : rank < tp.tpDegree) :
    firstRow tp mode rows rank + sliceRows tp mode rows ≤ rows := by
  rw [firstRow, sliceRows]
  split
  · calc
      _ = (rank + 1) * (rows / tp.tpDegree) := by ring
      _ ≤ tp.tpDegree * (rows / tp.tpDegree) := mul_le_mul_right _ hrank
      _ ≤ rows := mul_div_le rows tp.tpDegree
  · omega

theorem firstCol_add_le (mode : ShardMode) (cols : ℕ) (hrank : rank < tp.tpDegree) :
    firstCol tp mode cols rank + sliceCols tp mode cols ≤ cols := by
  rw [firstCol, sliceCols]
  split
  · calc
      _ = (rank + 1) * (cols / tp.tpDegree) := by ring
      _ ≤ tp.tpDegree * (cols / tp.tpDegree) := mul_le_mul_right _ hrank
      _ ≤ cols := mul_div_le cols tp.tpDegree
  · omega

theorem shardByMode_ok (mode : ShardMode) (hplain : t.ggufType = none)
    (hshape : t.shape = [rows, cols]) (hrank : rank < tp.tpDegree)
    (hrows : mode = .columnParallel → tp.tpDegree ∣ rows)
    (hcols : mode = .rowParallel → tp.tpDegree ∣ cols) :
    ∃ s, shardByMode tp mode t rank = .ok s ∧ MatrixSlice tp mode rows cols rank t s := by
  rcases shardByMode_matrix mode hplain hshape hrank with h | ⟨-, h⟩
  · exact h
  · exact absurd ⟨hrows, hcols⟩ h

theorem shardBundle_eq {b : WeightBundle β} {raw scalar : RawTensor β}
    {weight scales : ShardedTensor β} (hweight : shardByMode tp mode b.weight rank = .ok weight)
    (haux : b.aux = [(.weightScale, raw), (.weightScale2, scalar), (.inputScale, scalar)])
    (hscales : shardScale tp raw .weightScale mode rank = .ok scales) :
    shardBundle tp mode b rank = .ok ⟨b.component, weight, [(.weightScale, scales),
      (.weightScale2, wrapReplicated scalar), (.inputScale, wrapReplicated scalar)]⟩ := by
  rw [shardBundle, hweight, haux]
  simp only [List.mapM_cons, hscales]
  rfl

theorem dequant_differs (format : BlockFormat) (component : TensorComponent) (mode : ShardMode)
    {stored : ℕ} (hrank : rank < tp.tpDegree) (hrows : mode = .columnParallel → tp.tpDegree ∣ rows)
    (hcols : mode = .rowParallel → tp.tpDegree ∣ stored)
    (hscaleRows : mode = .columnParallel → tp.tpDegree ∣ blockCount rows format.blockRows)
    (hscaleCols : mode = .rowParallel →
      tp.tpDegree ∣ blockCount (stored * format.pack) format.blockCols)
    (hrowsPos : 0 < sliceRows tp mode rows) (hcolsPos : 0 < sliceCols tp mode stored)
    (hscaleRowsPos : 0 < sliceRows tp mode (blockCount rows format.blockRows))
    (hscaleColsPos : 0 < sliceCols tp mode (blockCount (stored * format.pack) format.blockCols))
    (hne : ¬ (firstRow tp mode (blockCount rows format.blockRows) rank =
        firstRow tp mode rows rank / format.blockRows ∧
      firstCol tp mode (blockCount (stored * format.pack) format.blockCols) rank =
        firstCol tp mode stored rank * format.pack / format.blockCols)) :
    ∃ b s, BlockScaled format rows stored b ∧ b.component = component ∧
      shardBundle tp mode b rank = .ok s ∧ s.weight.ggufType = b.weight.ggufType ∧
      dequant format s 0 0 ≠ dequant format (wholeBundle b) (firstRow tp mode rows rank)
        (firstCol tp mode stored rank * format.pack) := by
  set blockRow := firstRow tp mode rows rank / format.blockRows
  set blockCol := firstCol tp mode stored rank * format.pack / format.blockCols
  set big : ℕ → ℕ → Bool := fun a c => decide (a = blockRow ∧ c = blockCol) with hbig
  have hpack := format.pack_pos
  have hrowLt := firstRow_add_le mode rows hrank
  have hcolLt := firstCol_add_le mode stored hrank
  have hscaleRowLt := firstRow_add_le mode (blockCount rows format.blockRows) hrank
  have hscaleColLt :=
    firstCol_add_le mode (blockCount (stored * format.pack) format.blockCols) hrank
  set b := unitBundle format component rows stored big
  obtain ⟨weight, hweight, hslice⟩ := shardByMode_ok (t := b.weight) mode rfl rfl hrank hrows hcols
  obtain ⟨scales, hscales, hscaleSlice⟩ := shardByMode_ok
    (t := scaleTensor format (blockCount rows format.blockRows)
      (blockCount (stored * format.pack) format.blockCols) big) mode rfl rfl hrank hscaleRows
        hscaleCols
  have hsplit := shardBundle_eq hweight rfl ((shardScale_matrix rfl).trans hscales)
  refine ⟨b, _, blockScaled_unitBundle .., rfl, hsplit, hslice.ggufType, ?_⟩
  have hprod : (firstRow tp mode rows rank + 0) * stored + (firstCol tp mode stored rank + 0) <
      [rows, stored].prod := by
    rw [List.prod_pair]
    exact block_lt (by omega) (by omega)
  -- the shard reads a scale of one
  have hshard : dequant format ⟨b.component, weight, [(.weightScale, scales),
      (.weightScale2, wrapReplicated unitScalar), (.inputScale, wrapReplicated unitScalar)]⟩ 0 0 =
        some (some (if false then 2 else 1)) := by
    apply dequant_unit scales 0 0 (zero_mod _) hslice.dtype rfl rfl
    · have h := hslice.element 0 hrowsPos 0 hcolsPos
      rw [zero_mul] at h
      rw [Nat.zero_mul, Nat.zero_div, h]
      exact element_filled format.size_unitDtype hprod
    · have h := hscaleSlice.element 0 hscaleRowsPos 0 hscaleColsPos
      rw [zero_mul] at h
      have hfalse : big (firstRow tp mode (blockCount rows format.blockRows) rank + 0)
          (firstCol tp mode (blockCount (stored * format.pack) format.blockCols) rank + 0) =
            false := by
        exact decide_eq_false hne
      rw [Nat.zero_div, Nat.zero_div, Nat.zero_mul, Nat.zero_add, h,
        element_scaleTensor (by omega) (by omega), hfalse]
  -- its element of the whole weight has a scale of two
  have hwhole : dequant format (wholeBundle b) (firstRow tp mode rows rank)
      (firstCol tp mode stored rank * format.pack) = some (some (if true then 2 else 1)) := by
    apply dequant_unit _ _ _ (mul_mod_left ..) rfl rfl rfl
    · rw [Nat.mul_div_cancel _ hpack]
      exact element_filled format.size_unitDtype hprod
    · have hrow : blockRow < blockCount rows format.blockRows :=
        div_lt_blockCount format.blockRows_pos (by omega)
      have hcol : blockCol < blockCount (stored * format.pack) format.blockCols :=
        div_lt_blockCount format.blockCols_pos (mul_lt_mul_of_pos_right (by omega) hpack)
      have htrue : big blockRow blockCol = true := by simp [hbig]
      rw [← htrue]
      exact element_scaleTensor hrow hcol
  rw [hshard, hwhole]
  simp

/-! ### Main result -/

variable {format : BlockFormat} {component : TensorComponent} {stored : ℕ}
  {split : WeightBundle UInt8 → ℕ → Except ShardError (ShardedWeightBundle UInt8)}

theorem slice_of_single (mode : ShardMode) (htp : tp.tpDegree ≤ 1) (hrank : rank < tp.tpDegree)
    (n : ℕ) :
    sliceRows tp mode n = n ∧ sliceCols tp mode n = n ∧ firstRow tp mode n rank = 0 ∧
      firstCol tp mode n rank = 0 := by
  have hone : tp.tpDegree = 1 := by omega
  have hzero : rank = 0 := by omega
  simp [sliceRows, sliceCols, firstRow, firstCol, hone, hzero]

/-- **Where no block is cut**, splitting commutes with dequantising. -/
theorem commutes_of_aligned (hsplit : ∀ b rank s, b.component = component → split b rank = .ok s →
      ∃ s', shardBundle tp (effectiveMode tp mode) b rank = .ok s' ∧
        (s'.weight.ggufType = b.weight.ggufType → s = s'))
    (halign : Aligned tp format rows stored mode) :
    Commutes tp format component mode rows stored split := by
  intro b hb hcomponent rank hrank s hs
  obtain ⟨s', hs', heq⟩ := hsplit b rank s hcomponent hs
  by_cases htp : tp.tpDegree ≤ 1
  · rw [effectiveMode, if_pos htp] at hs'
    obtain ⟨htype, hshape, hdequant⟩ := dequant_shardBundle hb hrank hs' (by simp) (by simp)
    obtain rfl := heq (htype.trans hb.plain.symm)
    obtain ⟨hrows, -, hrow, -⟩ := slice_of_single mode htp hrank rows
    obtain ⟨-, hcols, -, hcol⟩ := slice_of_single mode htp hrank stored
    rw [hrows, hcols, hrow, hcol]
    simpa [sliceRows, sliceCols, firstRow, firstCol] using And.intro hshape hdequant
  · rw [effectiveMode, if_neg htp] at hs'
    have hlt := not_le.1 htp
    obtain ⟨htype, hrest⟩ := dequant_shardBundle hb hrank hs' (fun h => by
        subst h
        exact halign hlt)
      (fun h => by
        subst h
        exact halign hlt)
    obtain rfl := heq (htype.trans hb.plain.symm)
    exact hrest

/-- **Where splitting commutes with dequantising**, no block is cut. -/
theorem aligned_of_commutes (hsplit : ∀ b rank s, b.component = component →
      shardBundle tp (effectiveMode tp mode) b rank = .ok s →
        s.weight.ggufType = b.weight.ggufType → split b rank = .ok s)
    (h : Commutes tp format component mode rows stored split) :
    Aligned tp format rows stored mode := by
  -- the first element of the second rank tells
  have hdiffers : ∀ {b s}, 1 < tp.tpDegree → BlockScaled format rows stored b →
      b.component = component → shardBundle tp mode b 1 = .ok s →
      s.weight.ggufType = b.weight.ggufType → 0 < sliceRows tp mode rows →
      0 < sliceCols tp mode stored →
      dequant format s 0 0 = dequant format (wholeBundle b) (firstRow tp mode rows 1)
        (firstCol tp mode stored 1 * format.pack) := by
    intro b s htp hb hcomponent hs htype hrows hcols
    have hmode : effectiveMode tp mode = mode := if_neg (not_le.2 htp)
    have hok := hsplit b 1 s hcomponent (by rwa [hmode]) htype
    exact (h b hb hcomponent 1 htp s hok).2 0 hrows 0 (Nat.mul_pos hcols format.pack_pos)
  have hbr := format.blockRows_pos
  have hbc := format.blockCols_pos
  cases mode with
  | replicated => trivial
  | columnParallel =>
    intro htp hrows hscaleRows
    by_contra hcut
    obtain ⟨hstored, hcut⟩ := not_or.1 hcut
    obtain ⟨c, rfl⟩ := hrows
    rw [Nat.mul_div_cancel_left _ tp.pos] at hcut
    have hc : 0 < c := Nat.pos_of_ne_zero fun h0 => hcut (h0 ▸ dvd_zero _)
    have hcPos : 0 < sliceRows tp .columnParallel (tp.tpDegree * c) := by
      simpa [sliceRows, tp.pos] using hc
    have hstoredPos := Nat.pos_of_ne_zero hstored
    have hblocks := blockCount_pos hbr (Nat.mul_pos tp.pos hc)
    obtain ⟨b, s, hb, hcomponent, hs, htype, hne⟩ := dequant_differs format component
      .columnParallel htp (fun _ => dvd_mul_right _ c) (by simp) (fun _ => hscaleRows) (by simp)
      hcPos hstoredPos
      (Nat.div_pos (Nat.le_of_dvd hblocks hscaleRows) tp.pos)
      (blockCount_pos hbc (Nat.mul_pos hstoredPos format.pack_pos)) (by
        rintro ⟨heq, -⟩
        simp only [firstRow, Nat.one_mul, Nat.mul_div_cancel_left _ tp.pos] at heq
        exact blockCount_div_ne hbr tp.pos hscaleRows hcut heq)
    exact hne (hdiffers htp hb hcomponent hs htype hcPos hstoredPos)
  | rowParallel =>
    intro htp hcols hscaleCols
    by_contra hcut
    obtain ⟨hrows, hcut⟩ := not_or.1 hcut
    obtain ⟨c, rfl⟩ := hcols
    rw [Nat.mul_div_cancel_left _ tp.pos] at hcut
    have hc : 0 < c := Nat.pos_of_ne_zero fun h0 => hcut (by simp [h0])
    have hcPos : 0 < sliceCols tp .rowParallel (tp.tpDegree * c) := by
      simpa [sliceCols, tp.pos] using hc
    have hrowsPos := Nat.pos_of_ne_zero hrows
    have hblocks := blockCount_pos hbc (Nat.mul_pos (Nat.mul_pos tp.pos hc) format.pack_pos)
    obtain ⟨b, s, hb, hcomponent, hs, htype, hne⟩ := dequant_differs format component
      .rowParallel htp (by simp) (fun _ => dvd_mul_right _ c) (by simp) (fun _ => hscaleCols)
      hrowsPos hcPos
      (blockCount_pos hbr hrowsPos) (Nat.div_pos (Nat.le_of_dvd hblocks hscaleCols) tp.pos) (by
        rintro ⟨-, heq⟩
        simp only [firstCol, Nat.one_mul, Nat.mul_div_cancel_left _ tp.pos] at heq
        rw [Nat.mul_assoc] at hscaleCols heq
        exact blockCount_div_ne hbc tp.pos hscaleCols hcut heq)
    exact hne (hdiffers htp hb hcomponent hs htype hrowsPos hcPos)

/-- **When splitting commutes with dequantising**: exactly where no boundary between two ranks falls
inside a block, for attention and for FFN components. -/
theorem shard_dequant_iff (tp : TpWeightSharder) (format : BlockFormat)
    (component : TensorComponent) (rows stored : ℕ) :
    (Commutes tp format component (shardModeFor component) rows stored (shardAttention tp) ↔
      Aligned tp format rows stored (shardModeFor component)) ∧
    (Commutes tp format component (shardModeForFfn component) rows stored (shardFfn tp) ↔
      Aligned tp format rows stored (shardModeForFfn component)) := by
  constructor
  · constructor
    · apply aligned_of_commutes
      intro b rank s hcomponent hs htype
      rw [shardAttention, hcomponent, hs, ← htype]
      rfl
    · apply commutes_of_aligned
      intro b rank s hcomponent hs
      rw [shardAttention, hcomponent] at hs
      cases hsplit : shardBundle tp (effectiveMode tp (shardModeFor component)) b rank with
      | error e =>
        rw [hsplit] at hs
        cases hs
      | ok s' =>
        rw [hsplit] at hs
        refine ⟨s', rfl, fun htype => ?_⟩
        rw [← Except.ok.inj hs, ← htype]
  · constructor
    · apply aligned_of_commutes
      intro b rank s hcomponent hs _
      rw [shardFfn, hcomponent, hs]
    · apply commutes_of_aligned
      intro b rank s hcomponent hs
      rw [shardFfn, hcomponent] at hs
      exact ⟨s, hs, fun _ => rfl⟩

/-- Two ranks share the rows of two blocks, of which the second is short. -/
theorem short_block_cut : ¬ Commutes ⟨2, by decide⟩ .fp8 .qBProj (shardModeFor .qBProj) 192 128
      (shardAttention ⟨2, by decide⟩) := by
  intro h
  have halign := aligned_of_commutes (fun b rank s hcomponent hs htype => by
    rw [shardAttention, hcomponent, hs, ← htype]
    rfl) h
  exact absurd (halign (by decide) (by decide) (by decide)) (by decide)

end Tp
end LayerStorm.Weights
