import LayerStorm.Memory.ArenaCache

/-!
# The NVMe tier

Experts are stored in one file for each expert index, with one slot for each MoE layer.  Writes go
to a drive's ring and complete later, in any order and with any result; a slot is handed out once
it is marked written.  A run of the engine starts with a scan of the files that are there.
-/

namespace LayerStorm.Memory
namespace Nvme

open Function Lib

/-! ### Geometry and files -/

/-- `NvmeTier::Options`, as far as the constructor accepts them. -/
structure Options where
  numDrives : ℕ
  queueDepth : ℤ
  slotSizeBytes : ℕ
  numMoeLayers : ℕ
  numExpertsPerLayer : ℕ
  firstMoeLayer : ℕ
  numDrives_pos : 0 < numDrives
  slotSizeBytes_pos : 0 < slotSizeBytes
  numMoeLayers_pos : 0 < numMoeLayers
  numExpertsPerLayer_pos : 0 < numExpertsPerLayer

variable (o : Options)

def Options.layerPos (key : ExpertKey) : Option ℕ :=
  if o.firstMoeLayer ≤ key.layerIdx ∧ key.layerIdx - o.firstMoeLayer < o.numMoeLayers then
    some (key.layerIdx - o.firstMoeLayer)
  else none

def Options.slotOffset (layerPos : ℕ) : ℕ := layerPos * o.slotSizeBytes

def Options.expectedFileSize : ℕ := o.numMoeLayers * o.slotSizeBytes

def Options.driveForExpert (key : ExpertKey) : ℕ := key.expertIdx % o.numDrives

/-- Where the contents of a slot come from. -/
inductive Source
  | write (id : ℕ)
  | prepacked
  deriving DecidableEq

/-- A byte of a file: zero, or byte `k` of the contents written for a key. -/
abbrev Cell := Option (Source × ExpertKey × ℕ)

structure File where
  size : ℕ
  cell : ℕ → Cell

/-- Store those of `len` bytes at an offset that `p` selects. -/
def File.store (f : File) (off len : ℕ) (src : Source) (key : ExpertKey) (p : ℕ → Bool) : File :=
  { f with cell := fun b =>
      if off ≤ b ∧ b < off + len ∧ p (b - off) = true then some (src, key, b - off)
      else f.cell b }

/-- `fallocate`: the file is extended with zeros. -/
def File.presize (f : File) (expected : ℕ) : File :=
  if f.size < expected then
    { size := expected, cell := fun b => if b < f.size then f.cell b else none }
  else f

def prepackedFile (expertIdx : ℕ) : File where
  size := o.expectedFileSize
  cell b := some (.prepacked, ⟨o.firstMoeLayer + b / o.slotSizeBytes, expertIdx⟩,
    b % o.slotSizeBytes)

/-! ### The tier, the device and the files -/

/-- `PendingOp`, with the buffer it owns. -/
structure PendingOp where
  key : ExpertKey
  driveIdx : ℕ
  writeBuf : Option ℕ
  deriving DecidableEq

structure CancelledWrite where
  buf : Option ℕ
  driveIdx : ℕ
  deriving DecidableEq

/-- A submitted write whose completion has not been consumed. -/
structure Flight where
  token : ℕ
  drive : ℕ
  key : ExpertKey
  write : ℕ
  /-- The owned buffer that the device reads. -/
  buf : Option ℕ
  /-- The result code, once the write has ended. -/
  result : Option ℤ
  deriving DecidableEq

/-- `IoCompletion` of a write. -/
structure IoCompletion where
  token : ℕ
  key : ExpertKey
  success : Bool
  errorCode : ℤ
  deriving DecidableEq

/-- The tier, its device and the files. -/
structure World where
  opts : Options
  /-- The expert's file is mapped, with a descriptor. -/
  mapped : ℕ → Bool
  slotWritten : ℕ → ℕ → Bool
  nvmeUsedBytes : ℕ
  nextToken : ℕ
  pending : Map ℕ PendingOp
  inflightKeys : Map ExpertKey ℕ
  cancelledWrites : Map ℕ CancelledWrite
  numInflight : ℕ → ℤ
  /-- The device: writes whose completion has not been consumed. -/
  flights : List Flight
  /-- The device: the drives of the cancel requests whose completion has not been consumed. -/
  cancels : List ℕ
  disk : ℕ → Option File
  /-- The next owned buffer that a caller hands over. -/
  nextBuf : ℕ
  /-- The buffers that were freed. -/
  freed : List ℕ
  nextWrite : ℕ
  /-- The completed full-size writes of all runs. -/
  full : List (ℕ × ExpertKey)
  /-- The first write of this run. -/
  runStart : ℕ
  /-- The files that the scan of this run found. -/
  scanned : ℕ → Bool

namespace World

variable (s : World)

variable (key : ExpertKey) (c : Consumer) (o : Options) (r : MapResult)

/-- The write of a key fills its slot: the bytes that `p` selects. -/
def storeBytes (lpos write : ℕ) (p : ℕ → Bool) : World :=
  { s with disk := update s.disk key.expertIdx ((s.disk key.expertIdx).map fun f =>
      f.store (s.opts.slotOffset lpos) s.opts.slotSizeBytes (.write write) key p) }

/-- `slot_written_[eidx][lp] = true`. -/
def markWritten (lpos : ℕ) : World :=
  { s with
    nvmeUsedBytes := if s.slotWritten key.expertIdx lpos then s.nvmeUsedBytes
      else s.nvmeUsedBytes + s.opts.slotSizeBytes
    slotWritten := update s.slotWritten key.expertIdx
      (update (s.slotWritten key.expertIdx) lpos true) }

/-- What the system calls of `ensure_mmap` return. -/
inductive MapResult
  | openFails
  /-- The file is there, perhaps newly created, but cannot be sized. -/
  | sizeFails
  | mapFails
  | ok

def ensureMmap (expertIdx : ℕ) (r : MapResult) : World :=
  if s.opts.numExpertsPerLayer ≤ expertIdx ∨ s.mapped expertIdx = true then s
  else
    let file := (s.disk expertIdx).getD ⟨0, fun _ => none⟩
    let sized := file.presize s.opts.expectedFileSize
    match r with
    | .openFails => s
    | .sizeFails => { s with disk := update s.disk expertIdx (some file) }
    | .mapFails => { s with disk := update s.disk expertIdx (some sized) }
    | .ok =>
      { s with
        disk := update s.disk expertIdx (some sized)
        mapped := update s.mapped expertIdx true }

/-- Free an owned buffer. -/
def free (buf : Option ℕ) : World := { s with freed := buf.toList ++ s.freed }

/-- `write_expert_sync`: `written` is what `pwrite` returns.  An expert index outside the vectors
is undefined behaviour. -/
def writeExpertSync (written : ℤ) : Option World :=
  match s.opts.layerPos key with
  | none => some s
  | some lpos =>
    if s.opts.numExpertsPerLayer ≤ key.expertIdx then none
    else
      let s := s.ensureMmap key.expertIdx r
      if s.mapped key.expertIdx = true then
        let stored := { s.storeBytes key lpos s.nextWrite fun k => (k : ℤ) < written with
          nextWrite := s.nextWrite + 1 }
        if written = s.opts.slotSizeBytes then
          some ({ stored with full := (s.nextWrite, key) :: s.full }.markWritten key lpos)
        else some stored
      else some s

/-- A write is submitted to the drive's ring. -/
def submit (buf : Option ℕ) : World :=
  let drv := s.opts.driveForExpert key
  { s with
    nextToken := s.nextToken + 1
    pending := s.pending.insert s.nextToken ⟨key, drv, buf⟩
    inflightKeys := s.inflightKeys.insert key s.nextToken
    numInflight := update s.numInflight drv (s.numInflight drv + 1)
    flights := ⟨s.nextToken, drv, key, s.nextWrite, buf, none⟩ :: s.flights
    nextWrite := s.nextWrite + 1 }

/-- `write_expert(key, host_ptr)`; `sqe` says whether the ring has a free entry. -/
def writeExpert (sqe : Bool) : Option (World × Option ℕ) :=
  if key ∈ s.inflightKeys then some (s, none)
  else
    match s.opts.layerPos key with
    | none => some (s, none)
    | some _ =>
      let s := s.ensureMmap key.expertIdx r
      if s.opts.queueDepth ≤ s.numInflight (s.opts.driveForExpert key) then some (s, none)
      else if s.opts.numExpertsPerLayer ≤ key.expertIdx then none
      else if s.mapped key.expertIdx = true ∧ sqe = true then
        some (s.submit key none, some s.nextToken)
      else some (s, none)

/-- `write_expert(key, buf)`: the tier takes over the next buffer.  `r'` and `written` belong to the
fallback. -/
def writeExpertOwned (sqe : Bool) (r' : MapResult) (written : ℤ) : Option (World × Option ℕ) :=
  let buf := s.nextBuf
  let s := { s with nextBuf := s.nextBuf + 1 }
  if key ∈ s.inflightKeys then some (s.free buf, none)
  else
    match s.opts.layerPos key with
    | none => some (s.free buf, none)
    | some _ =>
      let s := s.ensureMmap key.expertIdx r
      if s.opts.numExpertsPerLayer ≤ key.expertIdx then none
      else if s.numInflight (s.opts.driveForExpert key) < s.opts.queueDepth ∧
          s.mapped key.expertIdx = true ∧ sqe = true then
        some (s.submit key (some buf), some s.nextToken)
      else (s.writeExpertSync key r' written).map fun s => (s.free buf, some 0)

/-- `cancel`; `sqe` says whether the ring has a free entry for the request. -/
def cancel (token : ℕ) (sqe : Bool) : World :=
  match s.pending.lookup token with
  | none => s
  | some op =>
    { s with
      pending := s.pending.erase token
      inflightKeys := s.inflightKeys.erase op.key
      cancelledWrites := s.cancelledWrites.insert token ⟨op.writeBuf, op.driveIdx⟩
      cancels := if sqe then op.driveIdx :: s.cancels else s.cancels }

/-! ### Completions -/

/-- A completion that the device delivers. -/
inductive Cqe
  | write (token : ℕ)
  | cancel
  deriving DecidableEq

/-- Who consumes a completion. -/
inductive Consumer
  | poll
  | drain
  deriving DecidableEq

/-- Whether a consumer takes a result for success. -/
def succeeds (res : ℤ) : Bool :=
  match c with
  | .poll => 0 ≤ res ∧ (s.opts.slotSizeBytes : ℤ) ≤ res
  | .drain => 0 ≤ res

/-- `drive.num_inflight--`. -/
def decInflight (d : ℕ) : World :=
  { s with numInflight := update s.numInflight d (s.numInflight d - 1) }

/-- The completion of a write that is still pending: the slot is marked, the buffer is freed. -/
def settle (token : ℕ) (op : PendingOp) (res : ℤ) : World :=
  let marked := match s.succeeds c res, s.opts.layerPos op.key with
    | true, some lpos => s.markWritten op.key lpos
    | _, _ => s
  { marked.free op.writeBuf with
    inflightKeys := s.inflightKeys.erase op.key
    pending := s.pending.erase token }

/-- The completion of a cancelled write: the buffer is freed. -/
def settleCancelled (token : ℕ) : World :=
  match s.cancelledWrites.lookup token with
  | none => s
  | some cw => { s.free cw.buf with cancelledWrites := s.cancelledWrites.erase token }

/-- The loop body of `poll_completions` and `drain` for one completion of a drive, which the
device must have; and what the poll reports. -/
def consume (d : ℕ) (e : Cqe) : Option (World × Option IoCompletion) :=
  match e with
  | .cancel =>
    -- the completion of a cancel request, with user data 0
    if d ∈ s.cancels then some ({ s with cancels := s.cancels.erase d }.decInflight d, none)
    else none
  | .write token =>
    match s.flights.find? fun f => f.token = token ∧ f.drive = d with
    | none => none
    | some f =>
      match f.result with
      | none => none
      | some res =>
        let s := { s with flights := s.flights.erase f }
        match s.pending.lookup token with
        | some op =>
          let success := s.succeeds .poll res
          some ((s.settle c token op res).decInflight d,
            some ⟨token, op.key, success, if success then 0 else if res < 0 then -res else 0⟩)
        | none => some ((s.settleCancelled token).decInflight d, none)

def pollDrive (s : World × List IoCompletion) (b : ℕ × List Cqe) :
    Option (World × List IoCompletion) :=
  if s.1.numInflight b.1 = 0 then some s
  else b.2.foldlM (fun s e => (s.1.consume .poll b.1 e).map fun r => (r.1, s.2 ++ r.2.toList)) s

/-- `poll_completions`; `ready d` are the completions that are there for a drive. -/
def pollCompletions (ready : ℕ → List Cqe) : Option (World × List IoCompletion) :=
  ((List.range s.opts.numDrives).map fun d => (d, ready d)).foldlM pollDrive (s, [])

/-- Waiting for one completion of each drive; `none` is a wait that fails, which ends the pass. -/
def drainDrives : List (ℕ × Option Cqe) → World → Option World
  | [], s => some s
  | (d, e) :: l, s =>
    if s.numInflight d = 0 then drainDrives l s
    else
      match e with
      | none => some s
      | some e => (s.consume .drain d e).bind fun r => drainDrives l r.1

/-- Something is left to be drained. -/
def undrained : Prop := s.pending.entries ≠ [] ∨ s.cancelledWrites.entries ≠ []

instance : Decidable s.undrained := inferInstanceAs (Decidable (_ ∨ _))

/-- One pass of the loop of `drain`. -/
def drainPass (next : ℕ → Option Cqe) : Option World :=
  if s.undrained then
    drainDrives ((List.range s.opts.numDrives).map fun d => (d, next d)) s
  else none

/-! ### Reading -/

/-- `host_ptr`: the expert file and the offset in it. -/
def hostPtr : Option (ℕ × ℕ) :=
  match s.opts.layerPos key with
  | none => none
  | some lpos =>
    if key.expertIdx < s.opts.numExpertsPerLayer ∧ s.mapped key.expertIdx = true ∧
        s.slotWritten key.expertIdx lpos = true then
      some (key.expertIdx, s.opts.slotOffset lpos)
    else none

/-- `read_expert`: the token of an immediate completion. -/
def readExpert : Option ℕ := (s.hostPtr key).map fun _ => 0

/-! ### The device and the restart -/

/-- The device stores byte `k` of a running write. -/
def deviceStore (token k : ℕ) : Option World :=
  match s.flights.find? fun f => f.token = token with
  | none => none
  | some f =>
    match f.result, s.opts.layerPos f.key with
    | none, some lpos => some (s.storeBytes f.key lpos f.write fun j => j = k)
    | _, _ => none

/-- The device ends a running write.  With a full result all bytes are stored. -/
def deviceFinish (token : ℕ) (res : ℤ) : Option World :=
  match s.flights.find? fun f => f.token = token with
  | none => none
  | some f =>
    match f.result, s.opts.layerPos f.key with
    | none, some lpos =>
      let ended := { s with
        flights := s.flights.map fun g => if g.token = token then { g with result := some res } else g }
      if (s.opts.slotSizeBytes : ℤ) ≤ res then
        some { ended.storeBytes f.key lpos f.write fun _ => true with
          full := (f.write, f.key) :: s.full }
      else some ended
    | _, _ => none

def rightSized (disk : ℕ → Option File) (e : ℕ) : Bool :=
  e < o.numExpertsPerLayer ∧ (disk e).any fun f => f.size = o.expectedFileSize

/-- The constructor with `scan_and_mmap_existing_files`; `openable e` says that the calls on an
existing file succeed. -/
def construct (disk : ℕ → Option File) (openable : ℕ → Bool)
    (full : List (ℕ × ExpertKey)) (nextWrite : ℕ) : World where
  opts := o
  mapped e := rightSized o disk e && openable e
  slotWritten e _ := rightSized o disk e && openable e
  nvmeUsedBytes := ((List.range o.numExpertsPerLayer).countP fun e =>
    rightSized o disk e && openable e) * o.expectedFileSize
  nextToken := 1
  pending := ∅
  inflightKeys := ∅
  cancelledWrites := ∅
  numInflight _ := 0
  flights := []
  cancels := []
  disk := disk
  nextBuf := 0
  freed := []
  nextWrite := nextWrite
  full := full
  runStart := nextWrite
  scanned e := rightSized o disk e && openable e

/-- The files after some were replaced by prepacked ones. -/
def placeFiles (placed : ℕ → Bool) (disk : ℕ → Option File) : ℕ → Option File :=
  fun e => if placed e = true then some (prepackedFile o e) else disk e

/-- An action of the engine, of the device, or a stop with a new start. -/
inductive Action
  | ensureMmap (expertIdx : ℕ) (r : MapResult)
  | writeExpert (key : ExpertKey) (r : MapResult) (sqe : Bool)
  | writeExpertOwned (key : ExpertKey) (r : MapResult) (sqe : Bool) (r' : MapResult) (written : ℤ)
  | writeExpertSync (key : ExpertKey) (r : MapResult) (written : ℤ)
  | cancel (token : ℕ) (sqe : Bool)
  | poll (ready : ℕ → List Cqe)
  | drainPass (next : ℕ → Option Cqe)
  | deviceStore (token k : ℕ)
  | deviceFinish (token : ℕ) (res : ℤ)
  | restart (o : Options) (placed openable : ℕ → Bool)

def step (s : World) : Action → Option World
  | .ensureMmap e r => some (s.ensureMmap e r)
  | .writeExpert key r sqe => (s.writeExpert key r sqe).map (·.1)
  | .writeExpertOwned key r sqe r' written => (s.writeExpertOwned key r sqe r' written).map (·.1)
  | .writeExpertSync key r written => s.writeExpertSync key r written
  | .cancel token sqe => some (s.cancel token sqe)
  | .poll ready => (s.pollCompletions ready).map (·.1)
  | .drainPass next => s.drainPass next
  | .deviceStore token k => s.deviceStore token k
  | .deviceFinish token res => s.deviceFinish token res
  | .restart o placed openable =>
    some (construct o (placeFiles o placed s.disk) openable s.full s.nextWrite)

end World

end Nvme
end LayerStorm.Memory
