import LayerStorm.Lib.Tiling

/-!
# The context window of the draft model

The draft model attends to rows that are made of hidden states of the target: for every position, of
one hidden row of each of a few layers, the aux slots.  The hidden rows arrive window by window
while the target runs, slot after slot.  The rows of a window that fits the staging are staged, and
fused when the last slot has arrived; the rows of a larger one, and those of an epoch whose slots
come in several windows, are folded piece by piece into an accumulator.  The context rows go to an
arena whose row 0 is at the base position; when it would overflow, the newest rows are moved to its
front.

The rows are those of rank 0; the other ranks hold shards of the same rows.
-/

namespace LayerStorm.Speculation

/-- What a draft runtime is made with: the number of aux slots, the capacities of the arena and of
the staging (the schema asks for at least 16 rows), whether the arena rotates (never for the V4
arm), the limits of a step, and the arithmetic of the kernels on rows. -/
structure Draft (Hidden M Row : Type*) where
  auxCount : ℕ
  ctxCap : ℕ
  auxRowsCap : ℕ
  auxRowsCap_pos : 0 < auxRowsCap
  rotate : Bool
  isV4Dflash : Bool
  v4_rotate : isV4Dflash = true → rotate = false
  blockSize : ℕ
  specTokens : ℕ
  V : ℕ
  fc : ℕ → Hidden → M
  hiddenNorm : M → M
  kvRow : ℕ → M → Row

variable {Hidden M Row : Type*} [AddCommMonoid M]

def Draft.contextRow (d : Draft Hidden M Row) (p : ℕ) (h : ℕ → Hidden) : Row :=
  d.kvRow p (d.hiddenNorm (∑ slot ∈ Finset.range d.auxCount, d.fc slot (h slot)))

/-! ### The buffers -/

/-- What may go wrong with a row of a buffer, and with a rotation. -/
inductive Fault
  | stageRow | accumulatorRow | normedRow | arenaRow | rotationOverlap | rotationGeometry
  deriving DecidableEq, Repr

/-- `aux_stage_` by row and slot, `ctx_hidden_`, `ctx_normed_` and the arena by row, and the faults
so far. -/
structure Buffers (Hidden M Row : Type*) where
  auxStage : ℕ → ℕ → Hidden
  ctxHidden : ℕ → M
  ctxNormed : ℕ → M
  arena : ℕ → Row
  faults : List Fault

namespace Buffers

variable (d : Draft Hidden M Row) (b : Buffers Hidden M Row)

/-- A fault is recorded unless the access is in order. -/
def check (ok : Bool) (f : Fault) : Buffers Hidden M Row :=
  if ok then b else { b with faults := f :: b.faults }

/-- The number of rows of `ctx_hidden_`. -/
def accRows (d : Draft Hidden M Row) : ℕ := max d.auxRowsCap d.ctxCap

/-- A strided copy of `rows` rows of the target into the column of a slot. -/
def copyStage (slot : ℕ) (x : ℕ → Hidden) (off rows : ℕ) : Buffers Hidden M Row :=
  { b with
    auxStage := fun i j => if i < rows ∧ j = slot then x (off + i) else b.auxStage i j }.check
      (rows ≤ d.auxRowsCap) .stageRow

/-- The staged rows of slot 0 are stored in the accumulator from `acc` on. -/
def storeSlot (acc rows : ℕ) : Buffers Hidden M Row :=
  { b with
    ctxHidden := fun i => if acc ≤ i ∧ i < acc + rows then d.fc 0 (b.auxStage (i - acc) 0)
      else b.ctxHidden i }.check (acc + rows ≤ accRows d) .accumulatorRow

/-- The staged rows of a later slot are added to the accumulator, by way of `ctx_normed_`. -/
def addSlot (slot acc rows : ℕ) : Buffers Hidden M Row :=
  ({ b with
    ctxNormed := fun i => if i < rows then d.fc slot (b.auxStage i slot) else b.ctxNormed i
    ctxHidden := fun i => if acc ≤ i ∧ i < acc + rows then
        b.ctxHidden i + d.fc slot (b.auxStage (i - acc) slot)
      else b.ctxHidden i }.check (rows ≤ d.auxRowsCap) .normedRow).check
        (acc + rows ≤ accRows d) .accumulatorRow

/-- The fusion of all slots of the staged rows. -/
def fuse (rows : ℕ) : Buffers Hidden M Row :=
  { b with
    ctxHidden := fun i => if i < rows then
        ∑ slot ∈ Finset.range d.auxCount, d.fc slot (b.auxStage i slot)
      else b.ctxHidden i }.check (rows ≤ d.auxRowsCap) .stageRow

/-- The norm of `rows` rows of the accumulator. -/
def normRows (acc rows : ℕ) : Buffers Hidden M Row :=
  ({ b with
    ctxNormed := fun i => if i < rows then d.hiddenNorm (b.ctxHidden (acc + i))
      else b.ctxNormed i }.check (rows ≤ d.auxRowsCap) .normedRow).check
        (acc + rows ≤ accRows d) .accumulatorRow

/-- `append_context_kv`: the rows go to the arena at the offset of their position from the base; in
the V4 arm (`v4_append_context_kv`) at the position itself. -/
def appendContextKv (base rows start : ℕ) : Buffers Hidden M Row :=
  let row := if d.isV4Dflash then start else start - base
  { b with
    arena := fun i => if row ≤ i ∧ i < row + rows then
        d.kvRow (start + (i - row)) (b.ctxNormed (i - row))
      else b.arena i }.check ((d.isV4Dflash ∨ base ≤ start) ∧ row + rows ≤ d.ctxCap) .arenaRow

/-- The copies of a rotation; a copy whose source and target overlap is a fault. -/
def moveRows (shift rows : ℕ) : Buffers Hidden M Row :=
  ({ b with
    arena := fun i => if i < rows then b.arena (i + shift) else b.arena i }.check
      (rows ≤ shift) .rotationOverlap).check (shift + rows ≤ d.ctxCap) .arenaRow

/-- One piece of `capture_slot_chunked`. -/
def foldPiece (slot : ℕ) (x : ℕ → Hidden) (base : ℕ) (b : Buffers Hidden M Row) (piece : ℕ × ℕ) :
    Buffers Hidden M Row :=
  let b := b.copyStage d slot x piece.1 piece.2
  if slot = 0 then b.storeSlot d (base + piece.1) piece.2
  else b.addSlot d slot (base + piece.1) piece.2

/-- The loop of `capture_slot_chunked`. -/
def foldSlot (slot : ℕ) (x : ℕ → Hidden) (rows base : ℕ) : Buffers Hidden M Row :=
  (Lib.chunks d.auxRowsCap rows).foldl (foldPiece d slot x base) b

/-- One piece of `finalize_context_chunked`. -/
def appendPiece (base start : ℕ) (b : Buffers Hidden M Row) (piece : ℕ × ℕ) :
    Buffers Hidden M Row :=
  (b.normRows d piece.1 piece.2).appendContextKv d base piece.2 (start + piece.1)

/-- The loop of `finalize_context_chunked`. -/
def appendPieces (base rows start : ℕ) : Buffers Hidden M Row :=
  (Lib.chunks d.auxRowsCap rows).foldl (appendPiece d base start) b

end Buffers

/-! ### The tracking -/

/-- The state of a runtime.  The source device of the captures is the one of `ev_capture_done_`.
The last two fields are ghosts: the rows delivered in the open epoch, and those of the epoch that
was finalised last for a position, by position and slot. -/
structure Runtime (Hidden M Row : Type*) where
  bufs : Buffers Hidden M Row
  ctxSeqId : ℕ
  ctxLen : ℕ
  ctxValid : Bool
  ctxBase : ℕ
  rearmPending : Bool
  dormSeq : ℕ
  dormSlot0End : ℕ
  dormLastEnd : ℕ
  capRows : ℕ
  capStartPos : ℕ
  capSeq : ℕ
  capSlotMask : Finset ℕ
  capMulti : Bool
  capSlotEnd : ℕ → ℕ
  captureBackend : Option ℕ
  delivered : ℕ → ℕ → Option Hidden
  finalised : ℕ → ℕ → Option Hidden

/-- A part of a call: `error` if the call has returned. -/
abbrev Flow (Hidden M Row : Type*) := Except (Runtime Hidden M Row) (Runtime Hidden M Row)

namespace Runtime

variable (d : Draft Hidden M Row)

/-- A runtime before its first call; nothing is known of the contents of the buffers. -/
def boot (b : Buffers Hidden M Row) : Runtime Hidden M Row where
  bufs := { b with faults := [] }
  ctxSeqId := 2 ^ 64 - 1
  ctxLen := 0
  ctxValid := false
  ctxBase := 0
  rearmPending := false
  dormSeq := 2 ^ 64 - 1
  dormSlot0End := 0
  dormLastEnd := 0
  capRows := 0
  capStartPos := 0
  capSeq := 2 ^ 64 - 1
  capSlotMask := ∅
  capMulti := false
  capSlotEnd _ := 0
  captureBackend := none
  delivered _ _ := none
  finalised _ _ := none

def invalidateContext (s : Runtime Hidden M Row) : Runtime Hidden M Row :=
  { s with ctxValid := false, capSlotMask := ∅, capMulti := false, rearmPending := false }

def enterDormant (seq slot0End lastEnd : ℕ) (s : Runtime Hidden M Row) : Runtime Hidden M Row :=
  { s.invalidateContext with
    rearmPending := true
    dormSeq := seq
    dormSlot0End := slot0End
    dormLastEnd := if d.auxCount = 1 then slot0End else lastEnd }

def ensureCaptureEvent (src : ℕ) (s : Runtime Hidden M Row) : Flow Hidden M Row :=
  match s.captureBackend with
  | none => .ok { s with captureBackend := some src }
  | some b => if b = src then .ok s else .error s.invalidateContext

def deliver (slot : ℕ) (x : ℕ → Hidden) (rows start : ℕ) (s : Runtime Hidden M Row) :
    Runtime Hidden M Row :=
  { s with
    delivered := fun p j => if j = slot ∧ start ≤ p ∧ p < start + rows then some (x (p - start))
      else s.delivered p j }

def finalise (rows start : ℕ) (s : Runtime Hidden M Row) : Runtime Hidden M Row :=
  { s with
    finalised := fun p j => if start ≤ p ∧ p < start + rows then s.delivered p j
      else s.finalised p j }

def captureSlotChunked (slot : ℕ) (x : ℕ → Hidden) (rows accRowBase src : ℕ)
    (s : Runtime Hidden M Row) : Runtime Hidden M Row :=
  match s.ensureCaptureEvent src with
  | .error s => s
  | .ok s => { s with bufs := s.bufs.foldSlot d slot x rows accRowBase }

def beginMultiWindowEpoch (src : ℕ) (s : Runtime Hidden M Row) : Flow Hidden M Row :=
  if d.auxRowsCap < s.capRows then .ok s
  else
    match s.ensureCaptureEvent src with
    | .error s => .error s
    | .ok s => .ok { s with bufs := s.bufs.storeSlot d 0 s.capRows }

def maybeRotateArena (rows start : ℕ) (s : Runtime Hidden M Row) : Runtime Hidden M Row :=
  if d.rotate = false then s
  else if start + rows - s.ctxBase ≤ d.ctxCap then s
  else
    let keepPost := max (d.ctxCap / 2) rows
    let newBase := start + rows - keepPost
    if newBase ≤ s.ctxBase ∨ start < newBase ∨ d.ctxCap < rows then
      { s.invalidateContext with
        bufs := { s.bufs with faults := .rotationGeometry :: s.bufs.faults } }
    else
      { s with
        bufs := s.bufs.moveRows d (newBase - s.ctxBase) (start - newBase)
        ctxBase := newBase }

def ingestContext (rows start : ℕ) (s : Runtime Hidden M Row) : Runtime Hidden M Row :=
  let s := s.maybeRotateArena d rows start
  { s with
    bufs := (((s.bufs.fuse d rows).normRows d 0 rows).appendContextKv d s.ctxBase rows start) }

def finalizeContextChunked (rows start : ℕ) (s : Runtime Hidden M Row) : Runtime Hidden M Row :=
  let s := s.maybeRotateArena d rows start
  { s with bufs := s.bufs.appendPieces d s.ctxBase rows start }

/-! ### Capture -/

/-- The part of `capture_aux` that keeps the context continuous: what a slot-0 window of another
sequence, or one that comes while there is no context, does. -/
def continuity (seq start rows : ℕ) (s : Runtime Hidden M Row) : Flow Hidden M Row :=
  if seq ≠ s.ctxSeqId ∨ s.ctxValid = false then
    if start = 0 then
      .ok { s with
        ctxSeqId := seq, ctxLen := 0, ctxValid := true, ctxBase := 0
        rearmPending := false, capSlotMask := ∅, capMulti := false }
    else if s.ctxValid = true ∧ seq ≠ s.ctxSeqId ∧ start ≤ s.ctxLen ∧ s.ctxBase ≤ start then
      -- the context is adopted by another sequence
      .ok { s with ctxSeqId := seq, capSlotMask := ∅, capMulti := false }
    else if s.rearmPending = true ∧ s.ctxValid = false then
      if seq ≠ s.dormSeq then .error s.invalidateContext
      else if s.dormLastEnd = s.dormSlot0End ∧ start = s.dormSlot0End ∧ rows ≤ d.ctxCap then
        -- the oversized epoch has come on every slot: an empty window begins here
        .ok { s with
          ctxSeqId := seq, ctxValid := true, ctxBase := start, ctxLen := start
          rearmPending := false, capSlotMask := ∅, capMulti := false }
      else if start = s.dormSlot0End then
        .error { s with
          dormSlot0End := s.dormSlot0End + rows
          dormLastEnd := if d.auxCount = 1 then s.dormSlot0End + rows else s.dormLastEnd }
      else .error s.invalidateContext
    else if seq ≠ s.ctxSeqId then .error s.invalidateContext
    else .error s
  else .ok s

/-- The end of a slot-0 window that extends the epoch. -/
def growEpoch (stop : ℕ) (s : Runtime Hidden M Row) : Runtime Hidden M Row :=
  if s.ctxValid then { s with capSlotEnd := Function.update s.capSlotEnd 0 stop } else s

/-- A slot-0 window that extends the open epoch. -/
def extendEpoch (x : ℕ → Hidden) (rows seq start src : ℕ) (s : Runtime Hidden M Row) :
    Runtime Hidden M Row :=
  if d.rotate = true ∧ d.ctxCap < start + rows - s.capStartPos then
    s.enterDormant d seq (start + rows) s.capStartPos
  else
    match if s.capMulti then .ok s else s.beginMultiWindowEpoch d src with
    | .error s => s
    | .ok s =>
      (({ s with capMulti := true }.deliver 0 x rows start).captureSlotChunked d 0 x rows
        (start - s.capStartPos) src).growEpoch (start + rows)

/-- What `capture_aux` does with a slot-0 window once the context is continuous. -/
def openEpoch (x : ℕ → Hidden) (rows seq start src : ℕ) (s : Runtime Hidden M Row) :
    Flow Hidden M Row :=
  if s.capSlotMask = {0} ∧ s.capSeq = seq ∧ start = s.capSlotEnd 0 then
    .error (s.extendEpoch d x rows seq start src)
  else if d.rotate = true ∧ d.ctxCap < rows then
    .error (s.enterDormant d seq (start + rows) start)
  else if d.rotate = true ∧ start < s.ctxBase then .error s.invalidateContext
  else if s.ctxLen < start then .error s.invalidateContext
  else
    .ok ({ s with
      capRows := rows, capStartPos := start, capSeq := seq, capSlotMask := {0}, capMulti := false
      capSlotEnd := Function.update (fun _ => start) 0 (start + rows)
      delivered := fun _ _ => none }.deliver 0 x rows start)

/-- A window of a later slot while there is no context. -/
def dormantWindow (slot rows seq start : ℕ) (s : Runtime Hidden M Row) : Runtime Hidden M Row :=
  if s.rearmPending = true ∧ seq = s.dormSeq ∧ slot = d.auxCount - 1 then
    if start = s.dormLastEnd ∧ start + rows ≤ s.dormSlot0End then
      { s with dormLastEnd := start + rows }
    else s.invalidateContext
  else s

/-- The end of a window of a later slot in an epoch whose slots come in several windows; with the
last window of the last slot it is finalised. -/
def endWindow (slot stop target : ℕ) (s : Runtime Hidden M Row) : Runtime Hidden M Row :=
  if s.ctxValid = false then s
  else
    let s := { s with capSlotEnd := Function.update s.capSlotEnd slot stop }
    if slot = d.auxCount - 1 ∧ stop = target then
      if s.capSlotMask ≠ Finset.range d.auxCount then s.invalidateContext
      else
        { (s.finalizeContextChunked d (target - s.capStartPos) s.capStartPos).finalise
            (target - s.capStartPos) s.capStartPos with
          ctxLen := target, capSlotMask := ∅, capMulti := false }
    else s

/-- A window of a later slot in an epoch whose slots come in several windows. -/
def multiWindow (slot : ℕ) (x : ℕ → Hidden) (rows seq start src : ℕ) (s : Runtime Hidden M Row) :
    Runtime Hidden M Row :=
  let target := s.capSlotEnd 0
  let expect := if slot ∈ s.capSlotMask then s.capSlotEnd slot else s.capStartPos
  if s.capSeq ≠ seq ∨ start ≠ expect ∨ target < start + rows ∨
      (slot ∉ s.capSlotMask ∧ s.capSlotEnd (slot - 1) ≠ target) then
    s.invalidateContext
  else
    (({ s with capSlotMask := insert slot s.capSlotMask }.deliver slot x rows
      start).captureSlotChunked d slot x rows (start - s.capStartPos) src).endWindow d slot
        (start + rows) target

/-- What `capture_aux` does with a window of a later slot before it is captured. -/
def laterSlot (slot : ℕ) (x : ℕ → Hidden) (rows seq start src : ℕ) (s : Runtime Hidden M Row) :
    Flow Hidden M Row :=
  if s.ctxValid = false then .error (s.dormantWindow d slot rows seq start)
  else if s.capMulti then .error (s.multiWindow d slot x rows seq start src)
  else if s.capSeq ≠ seq ∨ s.capRows ≠ rows ∨ s.capStartPos ≠ start ∨ 0 ∉ s.capSlotMask ∨
      slot ∈ s.capSlotMask then
    .error s.invalidateContext
  else
    .ok ({ s with
      capSlotMask := insert slot s.capSlotMask
      capSlotEnd := Function.update s.capSlotEnd slot (start + rows) }.deliver slot x rows start)

/-- The last part of `capture_aux`: the rows of a single-window epoch. -/
def captureWindow (slot : ℕ) (x : ℕ → Hidden) (rows start src : ℕ) (s : Runtime Hidden M Row) :
    Runtime Hidden M Row :=
  if d.auxRowsCap < rows then
    let s := s.captureSlotChunked d slot x rows 0 src
    if s.ctxValid = false then s
    else if slot = d.auxCount - 1 then
      if s.capSlotMask ≠ Finset.range d.auxCount then s.invalidateContext
      else
        { (s.finalizeContextChunked d rows start).finalise rows start with
          ctxLen := start + rows, capSlotMask := ∅ }
    else s
  else
    let s := { s with bufs := s.bufs.copyStage d slot x 0 rows }
    if slot = d.auxCount - 1 then
      if s.capSlotMask ≠ Finset.range d.auxCount then s.invalidateContext
      else
        match s.ensureCaptureEvent src with
        | .error s => s
        | .ok s =>
          { (s.ingestContext d rows start).finalise rows start with
            ctxLen := start + rows, capSlotMask := ∅ }
    else s

/-- `capture_aux`; `buf` is `none` for a null pointer. -/
def captureAux (slot : ℕ) (buf : Option (ℕ → Hidden)) (rows seq start src : ℕ)
    (s : Runtime Hidden M Row) : Runtime Hidden M Row :=
  if d.auxCount ≤ slot ∨ rows = 0 then s
  else
    match buf with
    | none => s
    | some x =>
      if d.rotate = false ∧ d.ctxCap < start + rows then s.invalidateContext
      else
        match if slot = 0 then
            (s.continuity d seq start rows).bind fun s => s.openEpoch d x rows seq start src
          else s.laterSlot d slot x rows seq start src with
        | .error s => s
        | .ok s => s.captureWindow d slot x rows start src

/-! ### Steps of the draft -/

/-- Why `run_step` refuses. -/
inductive StepError
  | noContext | queryRows | beyondContext | belowBase | tokenId
  deriving DecidableEq, Repr

/-- The validation of `run_step`. -/
def runStep (seq token anchor : ℕ) (numQuery : ℤ) (s : Runtime Hidden M Row) : Option StepError :=
  let ndraft := if 0 < numQuery then numQuery.toNat else d.specTokens
  if s.ctxValid = false ∨ seq ≠ s.ctxSeqId then some .noContext
  else if d.blockSize < ndraft + 1 then some .queryRows
  else if s.ctxLen < anchor then some .beyondContext
  else if anchor < s.ctxBase then some .belowBase
  else if d.V ≤ token then some .tokenId
  else none

/-- What the attention of a step that is accepted reads: the arena rows of `[ctx_base, anchor)`. -/
def readContext (anchor : ℕ) (s : Runtime Hidden M Row) : Runtime Hidden M Row :=
  { s with bufs := s.bufs.check (anchor - s.ctxBase ≤ d.ctxCap) .arenaRow }

/-- What happens to a runtime. -/
inductive Action (Hidden : Type*)
  | captureAux (slot : ℕ) (buf : Option (ℕ → Hidden)) (rows seq start src : ℕ)
  | invalidateContext
  | runStep (seq token anchor : ℕ) (numQuery : ℤ)

def step (s : Runtime Hidden M Row) : Action Hidden → Option (Runtime Hidden M Row)
  | .captureAux slot buf rows seq start src => some (s.captureAux d slot buf rows seq start src)
  | .invalidateContext => some s.invalidateContext
  | .runStep seq token anchor numQuery =>
    some (if s.runStep d seq token anchor numQuery = none then s.readContext d anchor else s)

end Runtime
end LayerStorm.Speculation
