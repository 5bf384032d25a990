import LayerStorm.Compute.PackedProjection

/-!
# The expert GEMM on one and on several NUMA nodes

The device of one node reads the packed weights where the pointers of the call say they are.  The
device of several nodes splits the output rows among them; every node copies its rows of each expert
into memory of its own and keeps a record of which slice stands at which offset, so that a later
call need not copy it again.  The record knows the source pointer and the rows, and nothing else.
-/

namespace LayerStorm.Compute

open Lib

variable {Act : Type*}

/-! ### Calls -/

/-- `ik::GgufType`, the types the kernels have. -/
inductive IkType
  | q8_0 | q4_k | q5_k | q6_k
  deriving DecidableEq, Repr

/-- `to_ik_gguf`; `none` where it throws. -/
def toIkGguf : GgufQuantType → Option IkType
  | .q4K => some .q4_k
  | .q5K => some .q5_k
  | .q6K => some .q6_k
  | .q80 => some .q8_0
  | .q2K | .q3K | .mxfp4 => none

def weightRowBytes (type : GgufQuantType) (K : ℕ) : ℕ := K / type.blockValues * type.blockBytes

/-- The length of a packed row; an NVFP4 projection has none. -/
def Format.rowBytes (format : Format) (K : ℕ) : ℕ :=
  match format with
  | .nvfp4 => 0
  | .gguf type => weightRowBytes type K

/-- The parameters of a grouped GEMM.  The expert offsets are given by the number of tokens of each
expert, the activations by their rows. -/
structure GemmParams (Act : Type*) where
  format : Format
  bPtrs : Option (ℕ → ℕ)
  counts : List ℕ
  N : ℕ
  K : ℕ
  dFp32 : Bool
  A : ℕ → Act

namespace GemmParams

variable (p : GemmParams Act)

def numExperts : ℕ := p.counts.length

def expertOffsets (e : ℕ) : ℕ := (p.counts.take e).sum

def totalTokens : ℕ := p.expertOffsets p.numExperts

/-- An expert to which tokens are routed in the call. -/
def active (e : ℕ) : Bool := p.expertOffsets e < p.expertOffsets (e + 1)

def rowExpert (m : ℕ) : Option ℕ :=
  (List.range p.numExperts).find? fun e => p.expertOffsets e ≤ m && m < p.expertOffsets (e + 1)

/-- The length of a packed row of the call. -/
abbrev wrow : ℕ := p.format.rowBytes p.K

end GemmParams

/-- The arithmetic of the kernels; the lossless mode has kernels of its own. -/
structure Kernels (Act : Type*) where
  ggufSupported : IkType → Bool
  dot : Format → ℕ → PackedRow → Act → UInt16
  dotLossless : Format → ℕ → PackedRow → Act → UInt16

/-- The output of a call, by row and column. -/
abbrev Output := ℕ → ℕ → UInt16

/-- The errors of the two devices. -/
inductive GemmError
  | noFp32Out | noBPtrs | unsupportedType | unsupportedHost
  deriving DecidableEq, Repr

/-- The kernels over the columns `[lo, hi)`: `row e i` is the `i`-th weight row of expert `e`. -/
def gemmRows (kernel : PackedRow → Act → UInt16) (p : GemmParams Act) (row : ℕ → ℕ → PackedRow)
    (lo hi : ℕ) (D : Output) : Output := fun m =>
  match p.rowExpert m with
  | none => D m
  | some e => fillSlice (fun n => kernel (row e (n - lo)) (p.A m)) (D m) (lo, hi)

/-! ### One node -/

/-- The calls for which the device of one node has lossless kernels. -/
def losslessFormat : Format → Bool
  | .nvfp4 => true
  | .gguf type => type = .q4K || type = .q5K || type = .q6K

/-- The weight rows of the call, where the pointers say they are. -/
def sourceRow (p : GemmParams Act) (mem : ℕ → UInt8) (src : ℕ → ℕ) (e n : ℕ) : PackedRow :=
  packedRow p.format p.wrow mem (src e) p.N p.K n

/-- `NumaCpuExpertDevice::nvfp4_grouped_gemm` and `gguf_grouped_gemm`. -/
def numaGroupedGemm (k : Kernels Act) (lossless : Bool) (mem : ℕ → UInt8) (p : GemmParams Act)
    (D : Output) : Output × Option GemmError :=
  match p.format with
  | .nvfp4 =>
    match p.bPtrs with
    | none => (D, some .noBPtrs)
    | some src =>
      let kernel := if lossless then k.dotLossless p.format p.K else k.dot p.format p.K
      (gemmRows kernel p (sourceRow p mem src) 0 p.N D, none)
  | .gguf type =>
    if p.dFp32 then (D, some .noFp32Out)
    else if p.numExperts = 0 then (D, none)
    else
      match p.bPtrs with
      | none => (D, some .noBPtrs)
      | some src =>
        if lossless && losslessFormat p.format then
          (gemmRows (k.dotLossless p.format p.K) p (sourceRow p mem src) 0 p.N D, none)
        else
          match toIkGguf type with
          | none => (D, some .unsupportedType)
          | some ik =>
            if p.N = 0 then (D, none)
            else if k.ggufSupported ik then
              (gemmRows (k.dot p.format p.K) p (sourceRow p mem src) 0 p.N D, none)
            else (D, some .unsupportedHost)

/-! ### The staging memory of a node -/

structure SliceKey where
  src : ℕ
  n0 : ℕ
  n1 : ℕ
  deriving DecidableEq, Repr

/-- What a slab was staged from: the call's format and shape, and the slice. -/
structure Staged where
  format : Format
  N : ℕ
  K : ℕ
  key : SliceKey
  deriving DecidableEq, Repr

def Staged.copies (s : Staged) : List Copy :=
  stageCopies s.format (s.format.rowBytes s.K) s.N s.K s.key.n0 s.key.n1

/-- Two stretches `[a, a + m)` and `[b, b + n)` have a point in common. -/
def meets (a m b n : ℕ) : Bool := 0 < m && 0 < n && a < b + n && b < a + m

/-- The staging memory of a node: `stage_bufs_`, `stage_caps_`, `stage_base_` and `occupant_`, with
the null pointer as address 0.  The last field is a ghost: what was staged at an offset, as long as
nothing was written over it and its source was not written to. -/
structure NodeStage where
  stageBuf : ℕ
  stageCap : ℕ
  stageBase : ℕ
  occupant : ℕ → Option SliceKey
  cells : ℕ → UInt8
  staged : ℕ → Option Staged

namespace NodeStage

/-- A node before its first call. -/
def empty : NodeStage where
  stageBuf := 0
  stageCap := 0
  stageBase := 0
  occupant _ := none
  cells _ := 0
  staged _ := none

/-- Writing `len` bytes at `a`. -/
def write (st : NodeStage) (a len : ℕ) (f : ℕ → UInt8) : NodeStage :=
  { st with
    cells := fun x => if a ≤ x ∧ x < a + len then f (x - a) else st.cells x
    staged := fun off => (st.staged off).filter fun s =>
      !s.copies.any fun c => meets (st.stageBase + off + c.dst) c.len a len }

/-- `std::memcpy` from the memory of the host. -/
def copy (st : NodeStage) (mem : ℕ → UInt8) (dst src len : ℕ) : NodeStage :=
  st.write dst len fun i => mem (src + i)

/-- `occ[off] = key`. -/
def occupy (st : NodeStage) (off : ℕ) (s : Staged) : NodeStage :=
  { st with
    occupant := Function.update st.occupant off (some s.key)
    staged := Function.update st.staged off (some s) }

/-- The memory of the host is written to. -/
def sourceWritten (st : NodeStage) (a len : ℕ) : NodeStage :=
  { st with
    staged := fun off => (st.staged off).filter fun s =>
      !s.copies.any fun c => meets (s.key.src + c.src) c.len a len }

/-- A buffer of `cap` bytes at `addr` with what stands in it when it is allocated. -/
def grow (st : NodeStage) (addr cap : ℕ) (fresh : ℕ → UInt8) : NodeStage :=
  { st with
    stageBuf := addr
    stageCap := cap
    cells := fun x => if addr ≤ x ∧ x < addr + cap then fresh x else st.cells x
    staged := fun _ => none }

/-- The last part of `acquire_stage`: with another base the offsets are moot. -/
def rebase (st : NodeStage) (base : ℕ) : NodeStage :=
  if base ≠ st.stageBase then
    { st with stageBase := base, occupant := fun _ => none, staged := fun _ => none }
  else st

end NodeStage

/-- A freshly allocated buffer: where it is and what stands in it. -/
structure Alloc where
  addr : ℕ
  fresh : ℕ → UInt8

/-- `acquire_stage`: the scratch of the arena if it is large enough, otherwise a buffer of the node's
own.  `alloc` is the buffer the system hands out if one is asked for; without one the source writes
through a null pointer, which is left out. -/
def acquireStage (scratch : Option (ℕ × ℕ)) (alloc : Alloc) (bytes : ℕ) (st : NodeStage) :
    NodeStage :=
  match scratch.filter fun sc => bytes ≤ sc.2 with
  | some sc => st.rebase sc.1
  | none =>
    let st := if st.stageCap < bytes then
        st.grow alloc.addr (bytes + bytes / 4 + 4096) alloc.fresh
      else st
    st.rebase st.stageBuf

/-! ### One slice -/

variable (p : GemmParams Act) (mem : ℕ → UInt8) (src : ℕ → ℕ)

/-- What the call stages for expert `e`. -/
def slabOf (nb ne e : ℕ) : Staged := ⟨p.format, p.N, p.K, ⟨src e, nb, ne⟩⟩

def slabBytes (nb ne : ℕ) : ℕ := sliceBytes p.format p.wrow (ne - nb) p.K

/-- One round of the staging loop. -/
def stageSlab (nb ne : ℕ) (st : NodeStage) (e : ℕ) : NodeStage :=
  let off := e * slabBytes p nb ne
  if p.active e ∧ st.occupant off ≠ some (slabOf p src nb ne e).key then
    (((slabOf p src nb ne e).copies.foldl (fun st c =>
      st.copy mem (st.stageBase + off + c.dst) (src e + c.src) c.len) st).occupy off
        (slabOf p src nb ne e))
  else st

def stageSlabs (nb ne : ℕ) (st : NodeStage) : NodeStage :=
  (List.range p.numExperts).foldl (stageSlab p mem src nb ne) st

/-- The weight rows as the kernels find them in the slabs. -/
def stagedRow (st : NodeStage) (nb ne e i : ℕ) : PackedRow :=
  packedRow p.format p.wrow st.cells (st.stageBase + e * slabBytes p nb ne) (ne - nb) p.K i

/-- Byte `i` of a contiguous `[tokens, Nj]` output. -/
def subDByte (Nj nb : ℕ) (D : Output) (i : ℕ) : UInt8 :=
  let v := D (i / 2 / Nj) (nb + i / 2 % Nj)
  if i % 2 = 0 then v.toUInt8 else (v >>> 8).toUInt8

/-- What one node does in a call: the slab contents its kernels read, its memory afterwards and the
output. -/
structure SliceRun where
  stage : NodeStage
  rows : ℕ → ℕ → PackedRow
  D : Output

/-- `compute_slice`: the output of the slice is collected behind the slabs before it is scattered
into the columns of the call's output. -/
def computeSlice (k : Kernels Act) (scratch : Option (ℕ × ℕ)) (alloc : Alloc) (nb ne : ℕ)
    (st : NodeStage) (D : Output) : SliceRun :=
  let Nj := ne - nb
  let weightsBytes := p.numExperts * slabBytes p nb ne
  let subDBytes := p.totalTokens * Nj * 2
  let st := stageSlabs p mem src nb ne (acquireStage scratch alloc (weightsBytes + subDBytes) st)
  let D := gemmRows (k.dot p.format p.K) p (stagedRow p st nb ne) nb ne D
  ⟨st.write (st.stageBase + weightsBytes) subDBytes (subDByte Nj nb D), stagedRow p st nb ne, D⟩

def computeGgufSlice (k : Kernels Act) (scratch : Option (ℕ × ℕ)) (alloc : Alloc) (nb ne : ℕ)
    (st : NodeStage) (D : Output) : SliceRun :=
  let st := stageSlabs p mem src nb ne
    (acquireStage scratch alloc (p.numExperts * slabBytes p nb ne) st)
  ⟨st, stagedRow p st nb ne, gemmRows (k.dot p.format p.K) p (stagedRow p st nb ne) nb ne D⟩

/-- `run_slice` for a slice that is not empty. -/
def runSlice (k : Kernels Act) (scratch : Option (ℕ × ℕ)) (alloc : Alloc) (nb ne : ℕ)
    (st : NodeStage) (D : Output) : SliceRun :=
  match p.format with
  | .nvfp4 => computeSlice p mem src k scratch alloc nb ne st D
  | .gguf _ => computeGgufSlice p mem src k scratch alloc nb ne st D

/-! ### Several nodes -/

/-- What a device is made with: the number of its nodes and the scratch of the arena on each. -/
structure Config where
  M : ℕ
  hM : 0 < M
  scratch : ℕ → Option (ℕ × ℕ)
  lossless : Bool

/-- The nodes and the output while the slices of a call are computed; `rows` is what the kernels of
each node have read. -/
structure Work where
  nodes : ℕ → NodeStage
  rows : ℕ → ℕ → ℕ → PackedRow
  D : Output

/-- One node's part of a call. -/
def runNode (k : Kernels Act) (cfg : Config) (alloc : ℕ → Alloc) (w : Work)
    (x : (ℕ × ℕ) × ℕ) : Work :=
  if x.1.1 < x.1.2 then
    let r := runSlice p mem src k (cfg.scratch x.2) (alloc x.2) x.1.1 x.1.2 (w.nodes x.2) w.D
    ⟨Function.update w.nodes x.2 r.stage, Function.update w.rows x.2 r.rows, r.D⟩
  else w

def rowSlices (M : ℕ) : List (ℕ × ℕ) :=
  match p.format with
  | .nvfp4 => partitionRows128 p.N M
  | .gguf _ => partitionRowsBalanced p.N M

/-- All nodes do their part. -/
def runNodes (k : Kernels Act) (cfg : Config) (alloc : ℕ → Alloc) (nodes : ℕ → NodeStage)
    (D : Output) : Work :=
  (rowSlices p cfg.M).zipIdx.foldl (runNode p mem src k cfg alloc) ⟨nodes, fun _ _ _ => .gguf [], D⟩

/-- What a call has done; `work` is `none` if no slice was run. -/
structure Outcome where
  D : Output
  error : Option GemmError
  work : Option Work

/-- `MultiNumaCpuExpertDevice::nvfp4_grouped_gemm` and `gguf_grouped_gemm`. -/
def multiGroupedGemm (k : Kernels Act) (cfg : Config) (alloc : ℕ → Alloc) (nodes : ℕ → NodeStage)
    (D : Output) : Outcome :=
  match p.format with
  | .nvfp4 =>
    if p.numExperts = 0 ∨ p.N = 0 then ⟨D, none, none⟩
    else
      match p.bPtrs with
      | none => ⟨D, some .noBPtrs, none⟩
      | some src =>
        let w := runNodes p mem src k cfg alloc nodes D
        ⟨w.D, none, some w⟩
  | .gguf type =>
    if p.dFp32 then ⟨D, some .noFp32Out, none⟩
    else if p.numExperts = 0 ∨ p.N = 0 then ⟨D, none, none⟩
    else
      match p.bPtrs with
      | none => ⟨D, some .noBPtrs, none⟩
      | some src =>
        match toIkGguf type with
        | none => ⟨D, some .unsupportedType, none⟩
        | some ik =>
          if k.ggufSupported ik = false then ⟨D, some .unsupportedHost, none⟩
          else if p.totalTokens = 0 then ⟨D, none, none⟩
          else
            let w := runNodes p mem src k cfg alloc nodes D
            ⟨w.D, none, some w⟩

/-! ### The device -/

/-- A call and what it has done: the memory behind the pointers at that time, the output before and
afterwards. -/
structure CallRecord (Act : Type*) where
  p : GemmParams Act
  mem : ℕ → UInt8
  before : Output
  outcome : Outcome

/-- The device and the memory behind the weight pointers; `last` is the last call. -/
structure Device (Act : Type*) where
  mem : ℕ → UInt8
  nodes : ℕ → NodeStage
  last : Option (CallRecord Act)

/-- A device before its first call. -/
def Device.boot (mem : ℕ → UInt8) : Device Act := ⟨mem, fun _ => NodeStage.empty, none⟩

inductive DeviceAction (Act : Type*)
  /-- A grouped GEMM into an output; `alloc` answers the allocations of the nodes. -/
  | gemm (p : GemmParams Act) (D : Output) (alloc : ℕ → Alloc)
  /-- Other weights are written to the memory of the host. -/
  | write (a : ℕ) (bytes : List UInt8)

def Device.step (k : Kernels Act) (cfg : Config) (d : Device Act) :
    DeviceAction Act → Option (Device Act)
  | .gemm p D alloc =>
    let o := multiGroupedGemm p d.mem k cfg alloc d.nodes D
    some { d with
      nodes := (o.work.map Work.nodes).getD d.nodes
      last := some ⟨p, d.mem, D, o⟩ }
  | .write a bytes =>
    some { d with
      mem := fun x => if a ≤ x ∧ x < a + bytes.length then bytes.getD (x - a) 0 else d.mem x
      nodes := fun j => (d.nodes j).sourceWritten a bytes.length }

end LayerStorm.Compute
