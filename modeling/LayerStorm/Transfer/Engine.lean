import Mathlib
import LayerStorm.Lib.Map
import LayerStorm.Lib.PriorityQueue
import LayerStorm.Lib.Run

/-!
# The transfer engine

`TransferEngine` moves expert weights between host memory and the GPUs.  A
transfer is *enqueued* under a token; it is either dispatched at once onto the
GPU's copy stream (and is then *pending* until its event fires) or *staged* in the
GPU's priority queue until a flush, a forced dispatch, a completion or the final
drain dispatches it.  Pending and staged transfers are found by key through a
dedup map, copies from unpinned memory borrow a slot of a pinned pool, and staged
transfers are counted by priority bin.

The engine is driven by one thread.  What the outside world decides is part of an
action: the clock, which device events have fired with which status and in which
order the hash map yields them, and whether a pinned allocation succeeds.  A
callback only leaves a record: it belongs to the caller.
-/

namespace LayerStorm.Transfer

open Function Lib

inductive TransferDirection
  | h2d
  | d2h
  deriving DecidableEq, Repr

/-- The key of the dedup map. -/
structure InFlightKey (K : Type) where
  key : K
  gpuIdx : ℕ
  dir : TransferDirection
  deriving DecidableEq

/-- A transfer waiting in a GPU's priority queue. -/
structure StagedTransfer (K P : Type) where
  token : ℕ
  key : K
  gpuIdx : ℕ
  direction : TransferDirection
  bytes : ℕ
  priority : P
  delayUs : ℤ
  enqueueTimeUs : ℤ
  callback : Bool
  needsPinnedStaging : Bool
  deriving DecidableEq

/-- A transfer dispatched onto a copy stream. -/
structure PendingTransfer (K P : Type) where
  token : ℕ
  key : K
  gpuIdx : ℕ
  direction : TransferDirection
  bytes : ℕ
  priority : P
  callback : Bool
  pinnedSlotIdx : Option ℕ
  cancelled : Bool

/-- A slot of the pinned staging pool; `data` says that its buffer was allocated. -/
structure PinnedStagingSlot where
  data : Bool
  size : ℕ
  inUse : Bool
  deriving DecidableEq

/-- A record returned by a poll. -/
structure TransferCompletion (K : Type) where
  token : ℕ
  key : K
  gpuIdx : ℕ
  direction : TransferDirection
  bytes : ℕ
  success : Bool

/-- What `cancel` returns for the caller's clean-up. -/
structure CancelledTransfer (K : Type) where
  key : K
  gpuIdx : ℕ
  direction : TransferDirection

/-- The options.  The constructor refuses an empty list of devices, and thresholds that are not
sorted. -/
structure Options (P : Type) [LinearOrder P] where
  numGpus : ℕ
  minDispatchPerGpu : ℤ
  maxInflightPerGpu : ℤ
  priorityBinThresholds : List P

def StagedTransfer.inFlightKey {K P : Type} (st : StagedTransfer K P) : InFlightKey K :=
  ⟨st.key, st.gpuIdx, st.direction⟩

def PendingTransfer.inFlightKey {K P : Type} (pt : PendingTransfer K P) : InFlightKey K :=
  ⟨pt.key, pt.gpuIdx, pt.direction⟩

/-- The engine.  The last four fields only record: the completions returned by
polls, the tokens whose cancellation is finished, the callbacks run, and the
tokens for which `cancel` has returned a result. -/
structure Engine (K P : Type) where
  inflight : Map (InFlightKey K) ℕ
  pending : Map ℕ (PendingTransfer K P)
  staged : ℕ → List (StagedTransfer K P)
  stagedTokenGpu : Map ℕ ℕ
  nextToken : ℕ
  stagedBinCounts : ℕ → ℕ → ℤ
  pinnedPool : List PinnedStagingSlot
  completed : List (TransferCompletion K)
  cancelled : List ℕ
  callbacks : List (ℕ × Bool)
  cancelGranted : List ℕ

/-- A freshly constructed engine. -/
def Engine.init {K P : Type} : Engine K P where
  inflight := ∅
  pending := ∅
  staged := fun _ => []
  stagedTokenGpu := ∅
  nextToken := 1
  stagedBinCounts := fun _ _ => 0
  pinnedPool := []
  completed := []
  cancelled := []
  callbacks := []
  cancelGranted := []

variable {K P : Type} [DecidableEq K] [LinearOrder P]

/-! ### Bins and slots -/

/-- `bin_for`: `std::upper_bound` in the sorted thresholds. -/
def binFor (opts : Options P) (priority : P) : ℕ :=
  (opts.priorityBinThresholds.takeWhile fun t => ¬ priority < t).length

def bumpBin (counts : ℕ → ℕ → ℤ) (gpu bin : ℕ) (d : ℤ) : ℕ → ℕ → ℤ :=
  update counts gpu (update (counts gpu) bin (counts gpu bin + d))

/-- `acquire_pinned_slot`: the first free slot with a buffer. -/
def acquirePinnedSlot (pool : List PinnedStagingSlot) : Option ℕ × List PinnedStagingSlot :=
  match pool.findIdx? fun s => !s.inUse && s.data with
  | none => (none, pool)
  | some i => (some i, pool.modify i fun s => { s with inUse := true })

/-- `release_pinned_slot`; an index out of range is ignored. -/
def releasePinnedSlot (pool : List PinnedStagingSlot) : Option ℕ → List PinnedStagingSlot
  | none => pool
  | some i => pool.modify i fun s => { s with inUse := false }

/-- The slot a dispatch copies through: none for sources that need no staging, when
the pool is exhausted, or when the copy is larger than the slot. -/
def stageThroughPool (pool : List PinnedStagingSlot) (needsPinnedStaging : Bool)
    (dir : TransferDirection) (bytes : ℕ) : Option ℕ × List PinnedStagingSlot :=
  if needsPinnedStaging ∧ dir = .h2d then
    match acquirePinnedSlot pool with
    | (none, pool) => (none, pool)
    | (some i, pool) =>
      match pool[i]? with
      | some slot =>
        if bytes ≤ slot.size then (some i, pool) else (none, releasePinnedSlot pool (some i))
      | none => (none, pool)
  else (none, pool)

/-! ### Enqueue and dispatch -/

/-- `inflight_count(gpu_idx)`. -/
def Engine.inflightCount (e : Engine K P) (gpu : ℕ) : ℕ :=
  e.inflight.countEntries fun ifk _ => ifk.gpuIdx == gpu

/-- The dispatched transfers of a GPU, as `flush_staged` and `replenish_gpu` count
them. -/
def Engine.dispatchedCount (e : Engine K P) (gpu : ℕ) : ℕ :=
  e.inflight.countEntries fun ifk tok => ifk.gpuIdx == gpu && !decide (tok ∈ e.stagedTokenGpu)

variable (Q : PriorityQueue fun x y : StagedTransfer K P => x.priority < y.priority)
variable (opts : Options P)

/-- The arguments of `enqueue_h2d` and `enqueue_d2h`. -/
structure EnqueueRequest (K P : Type) where
  dir : TransferDirection
  key : K
  gpuIdx : ℕ
  bytes : ℕ
  priority : P
  delayUs : ℤ
  callback : Bool
  needsPinnedStaging : Bool

def enqueueImpl (e : Engine K P) (r : EnqueueRequest K P) (now : ℤ) : Engine K P × Option ℕ :=
  let ifk : InFlightKey K := ⟨r.key, r.gpuIdx, r.dir⟩
  if ifk ∈ e.inflight then (e, none)
  else
    let token := e.nextToken
    if r.delayUs ≤ 0 ∧ (e.inflightCount r.gpuIdx : ℤ) < opts.minDispatchPerGpu then
      let slot := stageThroughPool e.pinnedPool r.needsPinnedStaging r.dir r.bytes
      ({ e with
          nextToken := token + 1
          inflight := e.inflight.insert ifk token
          pinnedPool := slot.2
          pending := e.pending.insert token
            ⟨token, r.key, r.gpuIdx, r.dir, r.bytes, r.priority, r.callback, slot.1, false⟩ },
        some token)
    else
      ({ e with
          nextToken := token + 1
          inflight := e.inflight.insert ifk token
          staged := update e.staged r.gpuIdx (Q.push
            ⟨token, r.key, r.gpuIdx, r.dir, r.bytes, r.priority, r.delayUs, now, r.callback,
              r.needsPinnedStaging⟩ (e.staged r.gpuIdx))
          stagedTokenGpu := e.stagedTokenGpu.insert token r.gpuIdx
          stagedBinCounts := bumpBin e.stagedBinCounts r.gpuIdx (binFor opts r.priority) 1 },
        some token)

/-- `dispatch_staged`, for a transfer already popped from its queue. -/
def dispatchStaged (e : Engine K P) (st : StagedTransfer K P) : Engine K P :=
  let slot := stageThroughPool e.pinnedPool st.needsPinnedStaging st.direction st.bytes
  { e with
    pinnedPool := slot.2
    stagedBinCounts := bumpBin e.stagedBinCounts st.gpuIdx (binFor opts st.priority) (-1)
    pending := e.pending.insert st.token
      ⟨st.token, st.key, st.gpuIdx, st.direction, st.bytes, st.priority, st.callback, slot.1, false⟩
    stagedTokenGpu := e.stagedTokenGpu.erase st.token }

def StagedTransfer.delayed (st : StagedTransfer K P) (now : ℤ) : Bool :=
  0 < st.delayUs && now - st.enqueueTimeUs < st.delayUs

/-- The loop shared by the operations that dispatch from a queue: pop while
`mayTake` holds of the number dispatched so far and the top; a transfer that is
still delayed goes back and ends the sweep.  `fuel` bounds the number of rounds by
the length of the queue. -/
def sweep (mayTake : ℕ → StagedTransfer K P → Bool) (delayed : StagedTransfer K P → Bool)
    (gpu : ℕ) : (fuel dispatched : ℕ) → Engine K P → Engine K P
  | 0, _, e => e
  | fuel + 1, dispatched, e =>
    match Q.pop (e.staged gpu) with
    | none => e
    | some (st, rest) =>
      if mayTake dispatched st then
        if delayed st then
          { e with staged := update e.staged gpu (Q.push st rest) }
        else
          sweep mayTake delayed gpu fuel (dispatched + 1)
            (dispatchStaged opts { e with staged := update e.staged gpu rest } st)
      else e

/-- A sweep bounded by a number of dispatched transfers: the loop of
`flush_staged` and `replenish_gpu`. -/
def sweepUpTo (bound : ℤ) (now : ℤ) (e : Engine K P) (gpu : ℕ) : Engine K P :=
  sweep Q opts (fun dispatched _ => (e.dispatchedCount gpu + dispatched : ℤ) < bound)
    (fun st => st.delayed now) gpu (e.staged gpu).length 0 e

def replenishGpu (now : ℤ) (e : Engine K P) (gpu : ℕ) : Engine K P :=
  sweepUpTo Q opts opts.minDispatchPerGpu now e gpu

def flushStaged (now : ℤ) (e : Engine K P) : Engine K P :=
  (List.range opts.numGpus).foldl (sweepUpTo Q opts opts.maxInflightPerGpu now) e

/-- `dispatch_staged_at_least`; a GPU out of range is ignored. -/
def dispatchStagedAtLeast (gpu : ℕ) (minPriority : P) (now : ℤ) (e : Engine K P) : Engine K P :=
  if gpu < opts.numGpus then
    sweep Q opts (fun _ st => minPriority ≤ st.priority) (fun st => st.delayed now) gpu
      (e.staged gpu).length 0 e
  else e

/-! ### Completion polling -/

/-- One completed event: a cancelled transfer is cleaned up silently, a live one
runs its callback, is reported and leaves the dedup map.  The second component
collects the GPUs to replenish. -/
def finishPending (eg : Engine K P × List ℕ) (done : ℕ × Bool) : Option (Engine K P × List ℕ) :=
  match eg.1.pending.lookup done.1 with
  | none => none
  | some pt =>
    let e := eg.1
    if pt.cancelled then
      some ({ e with
        pinnedPool := releasePinnedSlot e.pinnedPool pt.pinnedSlotIdx
        pending := e.pending.erase done.1
        cancelled := e.cancelled ++ [done.1] }, eg.2)
    else
      some ({ e with
        callbacks := if pt.callback then e.callbacks ++ [(pt.token, done.2)] else e.callbacks
        completed := e.completed ++ [⟨pt.token, pt.key, pt.gpuIdx, pt.direction, pt.bytes, done.2⟩]
        pinnedPool := releasePinnedSlot e.pinnedPool pt.pinnedSlotIdx
        inflight := e.inflight.erase pt.inFlightKey
        pending := e.pending.erase done.1 }, eg.2 ++ [pt.gpuIdx])

/-- `poll_completions`, when the events `done` have fired; `now gpu` is the clock
when that GPU is replenished. -/
def pollCompletions (done : List (ℕ × Bool)) (now : ℕ → ℤ) (e : Engine K P) : Option (Engine K P) :=
  if (done.map Prod.fst).Nodup ∧ ∀ d ∈ done, d.1 ∈ e.pending then do
    let eg ← done.foldlM finishPending (e, [])
    let gpus := (List.range opts.numGpus).filter fun gpu => gpu ∈ eg.2
    pure (gpus.foldl (fun e gpu => replenishGpu Q opts (now gpu) e gpu) eg.1)
  else none

/-! ### Cancellation, priorities, shutdown -/

/-- `cancel`: a staged transfer is removed at once, a pending one is marked and
reaped when its event fires. -/
def cancel (e : Engine K P) (token : ℕ) : Engine K P × Option (CancelledTransfer K) :=
  match e.stagedTokenGpu.lookup token with
  | some gpu =>
    let order := Q.popAll (e.staged gpu)
    let e' := { e with
      stagedTokenGpu := e.stagedTokenGpu.erase token
      staged := update e.staged gpu (Q.ofList (order.eraseP fun st => st.token = token)) }
    match order.find? fun st => st.token = token with
    | some st =>
      ({ e' with
          inflight := e.inflight.erase st.inFlightKey
          stagedBinCounts := bumpBin e.stagedBinCounts gpu (binFor opts st.priority) (-1)
          cancelled := e.cancelled ++ [token]
          cancelGranted := e.cancelGranted ++ [token] },
        some ⟨st.key, st.gpuIdx, st.direction⟩)
    | none => cancelPending e' token
  | none => cancelPending e token
where
  /-- The second half of `cancel`: the transfer is on a stream already. -/
  cancelPending (e : Engine K P) (token : ℕ) : Engine K P × Option (CancelledTransfer K) :=
    match e.pending.lookup token with
    | none => (e, none)
    | some pt =>
      if pt.cancelled then (e, none)
      else
        ({ e with
            pending := e.pending.insert token { pt with cancelled := true }
            inflight := e.inflight.erase pt.inFlightKey
            cancelGranted := e.cancelGranted ++ [token] },
          some ⟨pt.key, pt.gpuIdx, pt.direction⟩)

/-- The entry of a queue after a raise of `token`'s priority. -/
def raisePriority (token : ℕ) (priority : P) (st : StagedTransfer K P) : StagedTransfer K P :=
  if st.token = token ∧ st.priority < priority then { st with priority := priority } else st

/-- `reprioritize`: never lowers, and only reaches staged transfers. -/
def reprioritize (e : Engine K P) (token : ℕ) (priority : P) : Engine K P × Bool :=
  match e.stagedTokenGpu.lookup token with
  | none => (e, false)
  | some gpu =>
    let order := Q.popAll (e.staged gpu)
    let raised := order.filter fun st => st.token = token ∧ st.priority < priority
    ({ e with
        staged := update e.staged gpu (Q.ofList (order.map (raisePriority token priority)))
        stagedBinCounts := raised.foldl (fun counts st =>
            bumpBin (bumpBin counts gpu (binFor opts st.priority) (-1)) gpu
              (binFor opts priority) 1) e.stagedBinCounts },
      !raised.isEmpty)

/-- The polls of `drain`, each made because something is still pending. -/
def drainPolls : List (List (ℕ × Bool) × (ℕ → ℤ)) → Engine K P → Option (Engine K P)
  | [], e => if e.pending.entries = [] then some e else none
  | (done, now) :: polls, e =>
    if e.pending.entries = [] then none
    else pollCompletions Q opts done now e >>= drainPolls polls

/-- `drain`: dispatch everything staged regardless of delays, then poll until
nothing is pending. -/
def drain (polls : List (List (ℕ × Bool) × (ℕ → ℤ))) (e : Engine K P) : Option (Engine K P) :=
  drainPolls Q opts polls ((List.range opts.numGpus).foldl
    (fun e gpu => sweep Q opts (fun _ _ => true) (fun _ => false) gpu (e.staged gpu).length 0 e) e)

/-- `init_pinned_pool`; `allocs` says which allocations succeed.  A pool that exists
already, an empty one and a missing backend are ignored. -/
def initPinnedPool (bufferSize : ℕ) (allocs : List Bool) (hasBackend : Bool) (e : Engine K P) :
    Engine K P :=
  if e.pinnedPool ≠ [] ∨ allocs = [] ∨ bufferSize = 0 ∨ hasBackend = false then e
  else { e with
    pinnedPool := allocs.map fun ok => if ok then ⟨true, bufferSize, false⟩ else ⟨false, 0, false⟩ }

/-! ### Calls -/

/-- A call of the engine, with what the outside world contributes to it. -/
inductive Action (K P : Type)
  | enqueue (r : EnqueueRequest K P) (now : ℤ)
  | flushStaged (now : ℤ)
  | dispatchStagedAtLeast (gpu : ℕ) (minPriority : P) (now : ℤ)
  | pollCompletions (done : List (ℕ × Bool)) (now : ℕ → ℤ)
  | cancel (token : ℕ)
  | reprioritize (token : ℕ) (priority : P)
  | drain (polls : List (List (ℕ × Bool) × (ℕ → ℤ)))
  | initPinnedPool (bufferSize : ℕ) (allocs : List Bool) (hasBackend : Bool)

/-- One call.  An enqueue must name one of the engine's GPUs. -/
def step (e : Engine K P) : Action K P → Option (Engine K P)
  | .enqueue r now =>
    if r.gpuIdx < opts.numGpus then some (enqueueImpl Q opts e r now).1 else none
  | .flushStaged now => some (flushStaged Q opts now e)
  | .dispatchStagedAtLeast gpu minPriority now =>
    some (dispatchStagedAtLeast Q opts gpu minPriority now e)
  | .pollCompletions done now => pollCompletions Q opts done now e
  | .cancel token => some (cancel Q opts e token).1
  | .reprioritize token priority => some (reprioritize Q opts e token priority).1
  | .drain polls => drain Q opts polls e
  | .initPinnedPool bufferSize allocs hasBackend =>
    some (initPinnedPool bufferSize allocs hasBackend e)

end LayerStorm.Transfer
