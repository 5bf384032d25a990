import Mathlib
import LayerStorm.Lib.Run
import LayerStorm.Lib.SwapWalk

/-!
# Polling the compute events

A compute command is answered when the GPU has passed the event recorded behind its work.
The dispatcher keeps one pending entry per command, with the events of its pipeline
checkpoints and its final event; `pollComputeCompletions` walks the pending entries, writes
the completions that have become due and destroys the events it no longer needs.  The walk
runs backwards and removes by swapping.
-/

namespace LayerStorm.Daemon

open List
namespace Compute

open Lib

/-! ### Records -/

/-- `EventQueryResult`: the answer to a query of an event. -/
inductive EventStatus
  | ready
  | notReady
  | error (code : ℤ)
deriving DecidableEq, Repr

/-- A checkpoint of a multi-layer pipeline; its event is dropped when it is emitted. -/
structure PipelineCheckpoint where
  cudaEvent : Option ℕ
  layerIdx : ℕ
  checkpointType : ℕ
  hostBufOffset : ℕ
  dataBytes : ℕ
  emitted : Bool
deriving DecidableEq, Repr

/-- The data of the single checkpoint that goes with a final completion. -/
structure CheckpointData where
  checkpointType : ℕ
  hostBufOffset : ℕ
  dataBytes : ℕ
deriving DecidableEq, Repr

/-- A command whose work is on the GPU.  Probabilities are kept as bit patterns. -/
structure PendingCompute where
  cmdSeq : ℕ
  gpuIdx : ℕ
  cmdType : ℕ
  layerIdx : ℕ
  cudaEvent : Option ℕ
  computeTStart : Option ℕ := none
  computeTEnd : Option ℕ := none
  checkpointData : Option CheckpointData := none
  pipelineCheckpoints : List PipelineCheckpoint := []
  hostBufOffset : ℕ := 0
  dataBytes : ℕ := 0
  top1Prob : ℕ := 0
  entropy : ℕ := 0
  hasConfidence : Bool := false
  routedMissCount : ℕ := 0
  moeDegraded : ℕ := 0
  indexerDense : ℕ := 0
  transientSweepMask : ℕ := 0
deriving DecidableEq, Repr

/-- The completions a poll writes. -/
inductive Completion
  /-- `CMP_CHECKPOINT`. -/
  | checkpoint (origCmdType cmdSeq gpuIdx layerIdx checkpointType hostBufOffset dataBytes : ℕ)
  /-- `CMP_COMPUTE_DONE`. -/
  | computeDone (origCmdType cmdSeq gpuIdx layerIdx status hostBufOffset dataBytes top1Prob
      entropy routedMissCount moeDegraded indexerDense : ℕ)
  /-- `CMP_ERROR` of category `kGpuFatal`. -/
  | error (cmdSeq gpuIdx : ℕ) (message : String)
  /-- `CMP_GPU_FATAL`, which answers no command. -/
  | gpuFatal (gpuIdx : ℕ) (vendorErrorCode : ℤ) (message : String)
deriving DecidableEq, Repr

/-- The completion is the last one of its command. -/
def Completion.isFinal : Completion → Bool
  | .computeDone .. => true
  | .error .. => true
  | _ => false

/-- `gpu_idx` of a completion. -/
def Completion.gpuIdx : Completion → ℕ
  | .checkpoint _ _ g .. => g
  | .computeDone _ _ g .. => g
  | .error _ g _ => g
  | .gpuFatal g .. => g

/-- A pending entry, with the number of the push that made it. -/
structure Entry where
  id : ℕ
  pc : PendingCompute
deriving DecidableEq, Repr

/-! ### Effects -/

/-- What the dispatcher does to the outside, on behalf of one entry. -/
inductive Effect
  /-- The loop looks at the entry. -/
  | examined (id : ℕ)
  /-- A completion is handed to the ring, which takes it or is full. -/
  | completion (id : ℕ) (c : Completion) (accepted : Bool)
  /-- An event of the entry is destroyed. -/
  | destroyed (id : ℕ) (event : ℕ)
  /-- The streaming residents of the command are released. -/
  | swept (id : ℕ) (mask : ℕ)
deriving DecidableEq, Repr

/-- What the outside answers during one poll. -/
structure Env where
  query : Option ℕ → EventStatus
  /-- Whether the completion ring is full at the write of that number. -/
  ringFull : ℕ → Bool
  /-- `confidence_host_staging_`: top-1 probability and entropy for each GPU. -/
  staging : List (ℕ × ℕ) := []

/-- What a poll changes besides the list of pending entries. -/
structure Reaper where
  /-- `gpu_fatal_emitted_`, one flag for each device backend. -/
  gpuFatalEmitted : List Bool
  /-- The number of writes to the completion ring so far. -/
  writes : ℕ
  /-- The count that the poll returns. -/
  written : ℕ
  /-- Everything done so far. -/
  trail : List Effect
deriving DecidableEq, Repr

namespace Reaper

/-- The number of device backends. -/
def numGpus (r : Reaper) : ℕ := r.gpuFatalEmitted.length

def log (r : Reaper) (x : Effect) : Reaper := { r with trail := r.trail ++ [x] }

/-- `cmp_ring->try_write`: a completion is dropped when the ring is full. -/
def tryWrite (env : Env) (r : Reaper) (id : ℕ) (c : Completion) : Reaper :=
  { r with writes := r.writes + 1, trail := r.trail ++ [.completion id c !env.ringFull r.writes] }

/-- `StreamManager::query_event`. -/
def queryEvent (env : Env) (r : Reaper) (event : Option ℕ) (gpuIdx : ℕ) : EventStatus :=
  if gpuIdx < r.numGpus then env.query event else .error (-1)

/-- `StreamManager::destroy_event`: nothing happens for a GPU that is not wired. -/
def destroyEvent (r : Reaper) (id : ℕ) (event : Option ℕ) (gpuIdx : ℕ) : Reaper :=
  match event with
  | none => r
  | some ev => if gpuIdx < r.numGpus then r.log (.destroyed id ev) else r

end Reaper

/-! ### The checkpoints of an entry -/

variable (pc : PendingCompute)

def PendingCompute.ckptCompletion (ckpt : PipelineCheckpoint) : Completion :=
  .checkpoint pc.cmdType pc.cmdSeq pc.gpuIdx ckpt.layerIdx ckpt.checkpointType ckpt.hostBufOffset
    ckpt.dataBytes

def PipelineCheckpoint.emit (ckpt : PipelineCheckpoint) : PipelineCheckpoint :=
  { ckpt with cudaEvent := none, emitted := true }

/-- The loop over the checkpoints: emit those that are ready, up to the first that is not, and
answer how that one stands; the answer `ready` says that all are emitted. -/
def scanCheckpoints (env : Env) (id : ℕ) (pc : PendingCompute) :
    List PipelineCheckpoint → Reaper → Reaper × List PipelineCheckpoint × EventStatus
  | [], r => (r, [], .ready)
  | ckpt :: rest, r =>
    if ckpt.emitted then
      let next := scanCheckpoints env id pc rest r
      (next.1, ckpt :: next.2.1, next.2.2)
    else
      match r.queryEvent env ckpt.cudaEvent pc.gpuIdx with
      | .error code => (r, ckpt :: rest, .error code)
      | .notReady => (r, ckpt :: rest, .notReady)
      | .ready =>
        let r := r.tryWrite env id (pc.ckptCompletion ckpt)
        let r := r.destroyEvent id ckpt.cudaEvent pc.gpuIdx
        let next := scanCheckpoints env id pc rest { r with written := r.written + 1 }
        (next.1, ckpt.emit :: next.2.1, next.2.2)

/-! ### The body of the loop -/

/-- The completion of a finished command. -/
def PendingCompute.doneCompletion : Completion :=
  .computeDone pc.cmdType pc.cmdSeq pc.gpuIdx pc.layerIdx 0 pc.hostBufOffset pc.dataBytes
    pc.top1Prob pc.entropy pc.routedMissCount pc.moeDegraded pc.indexerDense

def PendingCompute.dataCompletion (d : CheckpointData) : Completion :=
  .checkpoint pc.cmdType pc.cmdSeq pc.gpuIdx pc.layerIdx d.checkpointType d.hostBufOffset
    d.dataBytes

/-- The completion of a command whose GPU has failed. -/
def PendingCompute.errorCompletion (code : ℤ) : Completion :=
  .error pc.cmdSeq pc.gpuIdx s!"GPU fatal error during compute (vendor err={code})"

/-- The announcement that a GPU has failed. -/
def PendingCompute.fatalCompletion (code : ℤ) : Completion :=
  .gpuFatal pc.gpuIdx code s!"GPU {pc.gpuIdx} device-fatal (vendor err={code})"

/-- Read the confidence of the command from the staging. -/
def PendingCompute.withConfidence (env : Env) (pc : PendingCompute) : PendingCompute :=
  if pc.hasConfidence then
    match env.staging[pc.gpuIdx]? with
    | some (top1Prob, entropy) => { pc with top1Prob := top1Prob, entropy := entropy }
    | none => pc
  else pc

/-- `CMP_GPU_FATAL` is emitted once for each GPU. -/
def announceFatal (env : Env) (code : ℤ) (r : Reaper) (e : Entry) : Reaper :=
  if r.gpuFatalEmitted[e.pc.gpuIdx]? = some false then
    { r with gpuFatalEmitted := r.gpuFatalEmitted.set e.pc.gpuIdx true }.tryWrite env e.id
      (e.pc.fatalCompletion code)
  else r

/-- The timing events on the error path. -/
def failTiming (r : Reaper) (e : Entry) : Reaper :=
  if e.pc.computeTStart.isSome then
    (r.destroyEvent e.id e.pc.computeTStart e.pc.gpuIdx).destroyEvent e.id e.pc.computeTEnd
      e.pc.gpuIdx
  else r

/-- The timing events on the normal path. -/
def completeTiming (r : Reaper) (e : Entry) : Reaper :=
  if e.pc.computeTStart.isSome ∧ e.pc.computeTEnd.isSome then
    (r.destroyEvent e.id e.pc.computeTStart e.pc.gpuIdx).destroyEvent e.id e.pc.computeTEnd
      e.pc.gpuIdx
  else r

/-- The error path: announce, answer, and destroy every event of the entry. -/
def fail (env : Env) (code : ℤ) (r : Reaper) (e : Entry) : Reaper :=
  let r := announceFatal env code r e
  let r := r.tryWrite env e.id (e.pc.errorCompletion code)
  let r := r.destroyEvent e.id e.pc.cudaEvent e.pc.gpuIdx
  let r := failTiming r e
  let r := e.pc.pipelineCheckpoints.foldl (fun r ckpt =>
    if ckpt.emitted then r else r.destroyEvent e.id ckpt.cudaEvent e.pc.gpuIdx) r
  { r with written := r.written + 1 }

def writeCheckpointData (env : Env) (r : Reaper) (id : ℕ) (pc : PendingCompute) : Reaper :=
  match pc.checkpointData with
  | some d => r.tryWrite env id (pc.dataCompletion d)
  | none => r

/-- The streaming residents of the command are released when its event is ready. -/
def sweepTransient (r : Reaper) (id : ℕ) (pc : PendingCompute) : Reaper :=
  if pc.transientSweepMask ≠ 0 then r.log (.swept id pc.transientSweepMask) else r

/-- The normal path: the data of the checkpoint, the answer, and the events. -/
def complete (env : Env) (r : Reaper) (e : Entry) : Reaper :=
  let pc := e.pc.withConfidence env
  let r := writeCheckpointData env r e.id pc
  let r := r.tryWrite env e.id pc.doneCompletion
  let r := sweepTransient r e.id pc
  let r := r.destroyEvent e.id pc.cudaEvent pc.gpuIdx
  let r := completeTiming r e
  { r with written := r.written + 1 }

/-- What becomes of an entry: it stays, or it is answered and removed. -/
def settle (env : Env) (r : Reaper) (e : Entry) : EventStatus → Reaper × Option Entry
  | .error code => (fail env code r e, none)
  | .notReady => (r, some e)
  | .ready => (complete env r e, none)

/-- The body of the loop: the checkpoints first, and the final event once they are all
emitted. -/
def examine (env : Env) (r : Reaper) (e : Entry) : Reaper × Option Entry :=
  let scan := scanCheckpoints env e.id e.pc e.pc.pipelineCheckpoints (r.log (.examined e.id))
  let r := scan.1
  let e := { e with pc := { e.pc with pipelineCheckpoints := scan.2.1 } }
  if scan.2.2 = .ready then settle env r e (r.queryEvent env e.pc.cudaEvent e.pc.gpuIdx)
  else settle env r e scan.2.2

/-! ### The dispatcher -/

/-- The pending entries, what polls have done, and every entry ever pushed. -/
structure Dispatcher where
  pending : List Entry
  reaper : Reaper
  pushed : List PendingCompute
deriving DecidableEq, Repr

/-- The dispatcher before the first command, with `n` device backends. -/
def Dispatcher.init (n : ℕ) : Dispatcher :=
  ⟨[], ⟨List.replicate n false, 0, 0, []⟩, []⟩

/-- **`poll_compute_completions`**: walk the pending entries from the last one to the first
one. -/
def pollComputeCompletions (env : Env) (d : Dispatcher) : Dispatcher :=
  let walk := walkBack (examine env) d.pending.length ({ d.reaper with written := 0 }, d.pending)
  { d with pending := walk.2, reaper := walk.1 }

/-- What the handlers push: a command of a wired GPU, with its final event and the events of
its checkpoints recorded, none of them emitted; an end of the timing goes with a start. -/
def PendingCompute.Fresh (n : ℕ) (pc : PendingCompute) : Prop :=
  pc.gpuIdx < n ∧ pc.cudaEvent.isSome ∧ (pc.computeTEnd.isSome → pc.computeTStart.isSome) ∧
    ∀ ckpt ∈ pc.pipelineCheckpoints, ckpt.cudaEvent.isSome ∧ ckpt.emitted = false

instance (n : ℕ) (pc : PendingCompute) : Decidable (pc.Fresh n) :=
  inferInstanceAs (Decidable (_ ∧ _ ∧ _ ∧ _))

/-- What happens to the dispatcher. -/
inductive Action
  /-- A handler pushes an entry. -/
  | push (pc : PendingCompute)
  /-- The daemon loop polls. -/
  | poll (env : Env)

def step (d : Dispatcher) : Action → Option Dispatcher
  | .push pc =>
    if pc.Fresh d.reaper.numGpus then
      some { d with pending := d.pending ++ [⟨d.pushed.length, pc⟩], pushed := d.pushed ++ [pc] }
    else none
  | .poll env => some (pollComputeCompletions env d)

/-! ### Reading the trail -/

/-- The entry on whose behalf an effect happens. -/
def Effect.owner : Effect → ℕ
  | .examined id => id
  | .completion id _ _ => id
  | .destroyed id _ => id
  | .swept id _ => id

def Effect.completion? : Effect → Option Completion
  | .completion _ c _ => some c
  | _ => none

def Effect.destroyed? : Effect → Option ℕ
  | .destroyed _ ev => some ev
  | _ => none

def Effect.examined? : Effect → Option ℕ
  | .examined id => some id
  | _ => none

/-- The write was not dropped. -/
def Effect.accepted : Effect → Bool
  | .completion _ _ a => a
  | _ => true

/-- The entry whose final completion on GPU `g` this is. -/
def Effect.finalOn (g : ℕ) : Effect → Option ℕ
  | .completion id c _ => if c.isFinal ∧ c.gpuIdx = g then some id else none
  | _ => none

/-- The completions written for an entry, in the order of the writes. -/
def completionsOf (id : ℕ) (t : List Effect) : List Completion :=
  (t.filter (·.owner = id)).filterMap Effect.completion?

/-- The events destroyed for an entry. -/
def destroyedOf (id : ℕ) (t : List Effect) : List ℕ :=
  (t.filter (·.owner = id)).filterMap Effect.destroyed?

/-- The entries examined, in order. -/
def examinedIn (t : List Effect) : List ℕ := t.filterMap Effect.examined?

/-- The entries whose final completions have been written for GPU `g`, in order. -/
def finalsOn (g : ℕ) (t : List Effect) : List ℕ := t.filterMap (Effect.finalOn g)

/-- No write has been dropped. -/
def AllAccepted (t : List Effect) : Prop := ∀ x ∈ t, x.accepted = true

instance (t : List Effect) : Decidable (AllAccepted t) :=
  inferInstanceAs (Decidable (∀ x ∈ t, x.accepted = true))

/-! ### What a piece of code adds to the trail -/

/-- Between `r` and `r'` the completions `cs` have been written and the events `ds` have been
destroyed on behalf of the entry `id`, and nothing was done for any other entry. -/
structure Adds (env : Env) (id : ℕ) (cs : List Completion) (ds : List ℕ) (r r' : Reaper) :
    Prop where
  numGpus : r'.numGpus = r.numGpus
  effects : ∃ seg, r'.trail = r.trail ++ seg ∧ (∀ x ∈ seg, x.owner = id) ∧
    seg.filterMap Effect.completion? = cs ∧ seg.filterMap Effect.destroyed? = ds ∧
    seg.filterMap Effect.examined? = [] ∧
    ((∀ n, env.ringFull n = false) → ∀ x ∈ seg, x.accepted = true)

namespace Adds

variable {env : Env} {id : ℕ} {cs cs' : List Completion} {ds ds' : List ℕ} {r r' r'' : Reaper}

theorem refl (env : Env) (id : ℕ) (r : Reaper) : Adds env id [] [] r r :=
  ⟨rfl, [], by simp⟩

theorem trans (h : Adds env id cs ds r r') (h' : Adds env id cs' ds' r' r'') :
    Adds env id (cs ++ cs') (ds ++ ds') r r'' := by
  obtain ⟨seg, ht, ho, hc, hd, he, ha⟩ := h.effects
  obtain ⟨seg', ht', ho', hc', hd', he', ha'⟩ := h'.effects
  refine ⟨h'.numGpus.trans h.numGpus, seg ++ seg', ?_, ?_, ?_, ?_, ?_, ?_⟩
  · rw [ht', ht, append_assoc]
  · intro x hx
    exact (mem_append.1 hx).elim (ho x) (ho' x)
  · rw [filterMap_append, hc, hc']
  · rw [filterMap_append, hd, hd']
  · rw [filterMap_append, he, he', append_nil]
  · intro hfull x hx
    exact (mem_append.1 hx).elim (ha hfull x) (ha' hfull x)

theorem tryWrite (env : Env) (id : ℕ) (c : Completion) (r : Reaper) :
    Adds env id [c] [] r (r.tryWrite env id c) := by
  refine ⟨rfl, [.completion id c !env.ringFull r.writes], rfl, ?_, rfl, rfl, rfl, ?_⟩
  · simp [Effect.owner]
  · intro hfull
    simp [Effect.accepted, hfull]

theorem swept (env : Env) (id mask : ℕ) (r : Reaper) :
    Adds env id [] [] r (r.log (.swept id mask)) :=
  ⟨rfl, [.swept id mask], rfl, by simp [Effect.owner], rfl, rfl, rfl, by simp [Effect.accepted]⟩

theorem destroyEvent (env : Env) (id : ℕ) (event : Option ℕ) {g : ℕ} {r : Reaper}
    (hg : g < r.numGpus) : Adds env id [] event.toList r (r.destroyEvent id event g) := by
  cases event with
  | none => exact refl env id r
  | some ev =>
    simp only [Reaper.destroyEvent, if_pos hg]
    exact ⟨rfl, [.destroyed id ev], rfl, by simp [Effect.owner], rfl, rfl, rfl,
      by simp [Effect.accepted]⟩

variable (h : Adds env id cs ds r r')
include h

theorem count (n : ℕ) : Adds env id cs ds r { r' with written := n } :=
  ⟨h.numGpus, h.effects⟩

theorem completionsOf (i : ℕ) :
    completionsOf i r'.trail = completionsOf i r.trail ++ if i = id then cs else [] := by
  obtain ⟨seg, ht, ho, hc, -⟩ := h.effects
  rw [ht, Compute.completionsOf, filter_append, filterMap_append]
  congr 1
  split
  next hi =>
    rw [filter_eq_self.2 fun x hx => by simp [ho x hx, hi], hc]
  next hi =>
    rw [filter_eq_nil_iff.2 fun x hx => by simpa [ho x hx] using Ne.symm hi]
    rfl

theorem destroyedOf (i : ℕ) :
    destroyedOf i r'.trail = destroyedOf i r.trail ++ if i = id then ds else [] := by
  obtain ⟨seg, ht, ho, -, hd, -⟩ := h.effects
  rw [ht, Compute.destroyedOf, filter_append, filterMap_append]
  congr 1
  split
  next hi =>
    rw [filter_eq_self.2 fun x hx => by simp [ho x hx, hi], hd]
  next hi =>
    rw [filter_eq_nil_iff.2 fun x hx => by simpa [ho x hx] using Ne.symm hi]
    rfl

theorem examinedIn : examinedIn r'.trail = examinedIn r.trail := by
  obtain ⟨seg, ht, -, -, -, he, -⟩ := h.effects
  rw [ht, Compute.examinedIn, filterMap_append, he, append_nil]
  rfl

theorem allAccepted (hfull : ∀ n, env.ringFull n = false) (ha : AllAccepted r.trail) :
    AllAccepted r'.trail := by
  obtain ⟨seg, ht, -, -, -, -, hs⟩ := h.effects
  rw [ht]
  intro x hx
  exact (mem_append.1 hx).elim (ha x) (hs hfull x)

theorem finalsOn (g : ℕ) : finalsOn g r'.trail = finalsOn g r.trail ++
      (cs.filter fun c => c.isFinal ∧ c.gpuIdx = g).map fun _ => id := by
  obtain ⟨seg, ht, ho, rfl, -⟩ := h.effects
  rw [ht, Compute.finalsOn, filterMap_append]
  congr 1
  clear ht h
  induction seg with
  | nil => rfl
  | cons x seg ih =>
    have hrest := ih fun y hy => ho y (mem_cons_of_mem _ hy)
    have hx := ho x mem_cons_self
    rcases x with i | ⟨i, c, a⟩ | ⟨i, ev⟩ | ⟨i, mask⟩
    · exact hrest
    · obtain rfl : i = id := hx
      rw [filterMap_cons, filterMap_cons]
      simp only [Effect.finalOn, Effect.completion?, filter_cons]
      by_cases hc : c.isFinal = true ∧ c.gpuIdx = g
      · rw [if_pos hc, if_pos (by simpa using hc), map_cons, hrest]
      · rw [if_neg hc, if_neg (by simpa using hc), hrest]
    · exact hrest
    · exact hrest

end Adds

/-! ### How an entry stands -/

/-- The first answer of a list of events that is not `ready`. -/
def firstOpen (env : Env) : List (Option ℕ) → EventStatus
  | [] => .ready
  | ev :: evs => if env.query ev = .ready then firstOpen env evs else env.query ev

/-- **How an entry stands at a poll**: it is ready when all its open events are, it fails when
the first one that is not ready has an error, and it waits otherwise. -/
def outcome (env : Env) (pc : PendingCompute) : EventStatus :=
  firstOpen env ((pc.pipelineCheckpoints.filter (!·.emitted)).map (·.cudaEvent) ++ [pc.cudaEvent])

theorem firstOpen_append (env : Env) (xs ys : List (Option ℕ)) : firstOpen env (xs ++ ys) =
      if firstOpen env xs = .ready then firstOpen env ys else firstOpen env xs := by
  induction xs with
  | nil => simp [firstOpen]
  | cons x xs ih =>
    simp only [cons_append, firstOpen]
    split
    next => exact ih
    next => rfl

/-- The command with its first `k` checkpoints emitted. -/
def PendingCompute.emitFirst (o : PendingCompute) (k : ℕ) : PendingCompute :=
  { o with pipelineCheckpoints :=
      (o.pipelineCheckpoints.take k).map PipelineCheckpoint.emit ++ o.pipelineCheckpoints.drop k }

theorem scanCheckpoints_emitted (env : Env) (id : ℕ) (pc : PendingCompute) (r : Reaper)
    (xs ys : List PipelineCheckpoint) :
    scanCheckpoints env id pc (xs.map PipelineCheckpoint.emit ++ ys) r =
      ((scanCheckpoints env id pc ys r).1,
        xs.map PipelineCheckpoint.emit ++ (scanCheckpoints env id pc ys r).2.1,
        (scanCheckpoints env id pc ys r).2.2) := by
  induction xs with
  | nil => rfl
  | cons x xs ih =>
    have hx : x.emit.emitted = true := rfl
    simp only [map_cons, cons_append, scanCheckpoints, hx, if_true, ih]

/-- **The loop over the checkpoints**: of checkpoints that are still open, a first part is
emitted in order; it ends as the first open answer says, and with all of them emitted when
all are ready. -/
theorem scanCheckpoints_fresh (env : Env) (id : ℕ) (pc : PendingCompute) :
    ∀ (os : List PipelineCheckpoint) (r : Reaper), pc.gpuIdx < r.numGpus →
      (∀ o ∈ os, o.emitted = false) →
      ∃ j ≤ os.length, (scanCheckpoints env id pc os r).2.1 =
          (os.take j).map PipelineCheckpoint.emit ++ os.drop j ∧
        (scanCheckpoints env id pc os r).2.2 = firstOpen env (os.map (·.cudaEvent)) ∧
        (firstOpen env (os.map (·.cudaEvent)) = .ready → j = os.length) ∧
        Adds env id ((os.take j).map pc.ckptCompletion) ((os.take j).filterMap (·.cudaEvent)) r
          (scanCheckpoints env id pc os r).1 := by
  intro os
  induction os with
  | nil =>
    intro r _ _
    exact ⟨0, le_rfl, rfl, rfl, fun _ => rfl, Adds.refl env id r⟩
  | cons o os ih =>
    intro r hg hos
    have ho := hos o mem_cons_self
    simp only [scanCheckpoints, ho, Bool.false_eq_true, if_false, Reaper.queryEvent, if_pos hg,
      map_cons, firstOpen]
    cases hq : env.query o.cudaEvent with
    | error code | notReady => exact ⟨0, Nat.zero_le _, rfl, rfl, by simp, Adds.refl env id r⟩
    | ready =>
      have hw := Adds.tryWrite env id (pc.ckptCompletion o) r
      have hd := Adds.destroyEvent env id o.cudaEvent
        (show pc.gpuIdx < (r.tryWrite env id (pc.ckptCompletion o)).numGpus from hg)
      have hone := (hw.trans hd).count (((r.tryWrite env id (pc.ckptCompletion o)).destroyEvent
        id o.cudaEvent pc.gpuIdx).written + 1)
      obtain ⟨j, hj, hlist, hscan, hall, hadds⟩ := ih _ (hone.numGpus.symm ▸ hg)
        fun x hx => hos x (mem_cons_of_mem _ hx)
      refine ⟨j + 1, Nat.succ_le_succ hj, ?_, hscan, fun h => by rw [hall h]; rfl, ?_⟩
      · simp only [hlist, take_succ_cons, map_cons, drop_succ_cons, cons_append]
      · have h := hone.trans hadds
        cases hev : o.cudaEvent with
        | none | some ev => simpa [hev] using h

variable {o : PendingCompute}

theorem filter_emitFirst (ho : ∀ ckpt ∈ o.pipelineCheckpoints, ckpt.emitted = false) (k : ℕ) :
    (o.emitFirst k).pipelineCheckpoints.filter (!·.emitted) = o.pipelineCheckpoints.drop k := by
  have hdone : ((o.pipelineCheckpoints.take k).map PipelineCheckpoint.emit).filter
      (!·.emitted) = [] := by
    rw [filter_eq_nil_iff]
    intro x hx
    obtain ⟨y, -, rfl⟩ := mem_map.1 hx
    simp [PipelineCheckpoint.emit]
  have hopen : (o.pipelineCheckpoints.drop k).filter (!·.emitted) =
      o.pipelineCheckpoints.drop k := by
    rw [filter_eq_self]
    intro x hx
    simp [ho x (mem_of_mem_drop hx)]
  simp only [PendingCompute.emitFirst, filter_append, hdone, hopen, nil_append]

theorem outcome_emitFirst (env : Env) (ho : ∀ ckpt ∈ o.pipelineCheckpoints, ckpt.emitted = false)
    (k : ℕ) :
    outcome env (o.emitFirst k) =
      firstOpen env ((o.pipelineCheckpoints.drop k).map (·.cudaEvent) ++ [o.cudaEvent]) := by
  rw [outcome, filter_emitFirst ho]
  rfl

/-! ### What one round does -/

theorem adds_announceFatal (env : Env) (code : ℤ) (r : Reaper) (e : Entry) :
    ∃ fatal, (fatal = [] ∨ fatal = [e.pc.fatalCompletion code]) ∧
      Adds env e.id fatal [] r (announceFatal env code r e) := by
  unfold announceFatal
  split
  next =>
    refine ⟨_, .inr rfl, ?_⟩
    have h := Adds.tryWrite env e.id (e.pc.fatalCompletion code)
      { r with gpuFatalEmitted := r.gpuFatalEmitted.set e.pc.gpuIdx true }
    exact ⟨h.numGpus.trans (by simp [Reaper.numGpus]), h.effects⟩
  next => exact ⟨[], .inl rfl, Adds.refl ..⟩

variable {r : Reaper} {e : Entry}

section

variable (env : Env)
include env

theorem adds_failTiming (hg : e.pc.gpuIdx < r.numGpus)
    (ht : e.pc.computeTEnd.isSome → e.pc.computeTStart.isSome) :
    Adds env e.id [] (e.pc.computeTStart.toList ++ e.pc.computeTEnd.toList) r (failTiming r e) := by
  unfold failTiming
  split
  next =>
    have h := Adds.destroyEvent env e.id e.pc.computeTStart hg
    exact h.trans (Adds.destroyEvent env e.id e.pc.computeTEnd (h.numGpus ▸ hg))
  next hs =>
    have hstart : e.pc.computeTStart = none := by simpa using hs
    have hend : e.pc.computeTEnd = none := by
      rw [← Option.not_isSome_iff_eq_none]
      exact fun h => hs (ht h)
    rw [hstart, hend]
    exact Adds.refl ..

theorem adds_completeTiming (hg : e.pc.gpuIdx < r.numGpus)
    (ht : e.pc.computeTEnd.isSome → e.pc.computeTStart.isSome)
    (hpair : e.pc.computeTStart.isSome → e.pc.computeTEnd.isSome) :
    Adds env e.id [] (e.pc.computeTStart.toList ++ e.pc.computeTEnd.toList) r
      (completeTiming r e) := by
  have hsame : completeTiming r e = failTiming r e := by
    unfold completeTiming failTiming
    by_cases hs : e.pc.computeTStart.isSome
    · rw [if_pos ⟨hs, hpair hs⟩, if_pos hs]
    · rw [if_neg fun h => hs h.1, if_neg hs]
  rw [hsame]
  exact adds_failTiming env hg ht

theorem adds_destroyRest (id : ℕ) {g : ℕ} :
    ∀ (ckpts : List PipelineCheckpoint) (r : Reaper), g < r.numGpus →
      Adds env id [] ((ckpts.filter (!·.emitted)).filterMap (·.cudaEvent)) r
        (ckpts.foldl (fun r ckpt =>
          if ckpt.emitted then r else r.destroyEvent id ckpt.cudaEvent g) r) := by
  intro ckpts
  induction ckpts with
  | nil => exact fun r _ => Adds.refl env id r
  | cons c ckpts ih =>
    intro r hg
    rw [foldl_cons, filter_cons]
    cases hc : c.emitted with
    | true => simpa using ih r hg
    | false =>
      have h := Adds.destroyEvent env id c.cudaEvent hg
      have hrest := h.trans (ih _ (h.numGpus.symm ▸ hg))
      cases hev : c.cudaEvent with
      | none | some ev => simpa [hev] using hrest

theorem adds_fail (code : ℤ) (hg : e.pc.gpuIdx < r.numGpus)
    (ht : e.pc.computeTEnd.isSome → e.pc.computeTStart.isSome) :
    ∃ fatal, (fatal = [] ∨ fatal = [e.pc.fatalCompletion code]) ∧
      Adds env e.id (fatal ++ [e.pc.errorCompletion code])
        (e.pc.cudaEvent.toList ++ (e.pc.computeTStart.toList ++ e.pc.computeTEnd.toList) ++
          (e.pc.pipelineCheckpoints.filter (!·.emitted)).filterMap (·.cudaEvent)) r
        (fail env code r e) := by
  obtain ⟨fatal, hfatal, h₁⟩ := adds_announceFatal env code r e
  have h₂ := h₁.trans (Adds.tryWrite env e.id (e.pc.errorCompletion code) _)
  have h₃ := h₂.trans (Adds.destroyEvent env e.id e.pc.cudaEvent (h₂.numGpus.symm ▸ hg))
  have h₄ := h₃.trans (adds_failTiming env (h₃.numGpus.symm ▸ hg) ht)
  have h₅ := h₄.trans (adds_destroyRest env e.id e.pc.pipelineCheckpoints _ (h₄.numGpus.symm ▸ hg))
  refine ⟨fatal, hfatal, ?_⟩
  have h := h₅.count ((fail env code r e).written)
  simp only [append_nil] at h
  exact h

theorem adds_writeCheckpointData (r : Reaper) (id : ℕ) (pc : PendingCompute) :
    Adds env id (pc.checkpointData.toList.map pc.dataCompletion) [] r
      (writeCheckpointData env r id pc) := by
  unfold writeCheckpointData
  cases pc.checkpointData with
  | none => exact Adds.refl ..
  | some d => exact Adds.tryWrite ..

theorem adds_sweepTransient (r : Reaper) (id : ℕ) (pc : PendingCompute) :
    Adds env id [] [] r (sweepTransient r id pc) := by
  unfold sweepTransient
  split
  next => exact Adds.swept ..
  next => exact Adds.refl ..

theorem withConfidence_eq (pc : PendingCompute) :
    ∃ t en, pc.withConfidence env = { pc with top1Prob := t, entropy := en } := by
  unfold PendingCompute.withConfidence
  split
  · split
    next t en _ => exact ⟨t, en, rfl⟩
    next => exact ⟨_, _, rfl⟩
  · exact ⟨_, _, rfl⟩

theorem adds_complete (hg : e.pc.gpuIdx < r.numGpus)
    (ht : e.pc.computeTEnd.isSome → e.pc.computeTStart.isSome)
    (hpair : e.pc.computeTStart.isSome → e.pc.computeTEnd.isSome) :
    Adds env e.id (e.pc.checkpointData.toList.map e.pc.dataCompletion ++
        [(e.pc.withConfidence env).doneCompletion])
      (e.pc.cudaEvent.toList ++ (e.pc.computeTStart.toList ++ e.pc.computeTEnd.toList)) r
      (complete env r e) := by
  obtain ⟨t, en, hconf⟩ := withConfidence_eq env e.pc
  simp only [complete]
  rw [hconf]
  have h₁ := adds_writeCheckpointData env r e.id { e.pc with top1Prob := t, entropy := en }
  have h₂ := h₁.trans (Adds.tryWrite env e.id
    (PendingCompute.doneCompletion { e.pc with top1Prob := t, entropy := en }) _)
  have h₃ := h₂.trans (adds_sweepTransient env _ e.id { e.pc with top1Prob := t, entropy := en })
  have h₄ := h₃.trans (Adds.destroyEvent env e.id e.pc.cudaEvent (h₃.numGpus.symm ▸ hg))
  have h₅ := h₄.trans (adds_completeTiming env (h₄.numGpus.symm ▸ hg) ht hpair)
  have h := h₅.count ((complete env r e).written)
  simp only [append_nil] at h
  simp only [complete, hconf] at h
  exact h

end

section Round

variable {env : Env} {r : Reaper} {o : PendingCompute} {k : ℕ}

theorem examine_eq_settle (env : Env) (id k : ℕ) (ho : o.Fresh r.numGpus) :
    ∃ j ≤ (o.pipelineCheckpoints.drop k).length, ∃ r', examine env r ⟨id, o.emitFirst k⟩ =
        settle env r' ⟨id, o.emitFirst (k + j)⟩ (outcome env (o.emitFirst k)) ∧
      (outcome env (o.emitFirst k) = .ready → j = (o.pipelineCheckpoints.drop k).length) ∧
      Adds env id (((o.pipelineCheckpoints.drop k).take j).map o.ckptCompletion)
        (((o.pipelineCheckpoints.drop k).take j).filterMap (·.cudaEvent))
        (r.log (.examined id)) r' := by
  obtain ⟨j, hj, hlist, hstatus, hall, hadds⟩ := scanCheckpoints_fresh env id (o.emitFirst k)
    (o.pipelineCheckpoints.drop k) (r.log (.examined id)) ho.1
    fun x hx => (ho.2.2.2 x (mem_of_mem_drop hx)).2
  have hpass := scanCheckpoints_emitted env id (o.emitFirst k) (r.log (.examined id))
    (o.pipelineCheckpoints.take k) (o.pipelineCheckpoints.drop k)
  have hpc : { o.emitFirst k with pipelineCheckpoints :=
      (o.pipelineCheckpoints.take k).map PipelineCheckpoint.emit ++
        (scanCheckpoints env id (o.emitFirst k) (o.pipelineCheckpoints.drop k)
          (r.log (.examined id))).2.1 } = o.emitFirst (k + j) := by
    rw [hlist]
    simp only [PendingCompute.emitFirst]
    rw [← append_assoc, ← map_append, take_add, drop_drop]
  have hout : outcome env (o.emitFirst k) = _ :=
    (outcome_emitFirst env (fun x hx => (ho.2.2.2 x hx).2) k).trans (firstOpen_append ..)
  have hlast : firstOpen env [o.cudaEvent] = env.query o.cudaEvent := by
    simp only [firstOpen]
    split
    next h => exact h.symm
    next => rfl
  refine ⟨j, hj, _, ?_, ?_, hadds⟩
  · have hscan : scanCheckpoints env id (o.emitFirst k) (o.emitFirst k).pipelineCheckpoints
        (r.log (.examined id)) = _ := hpass
    have hg : (o.emitFirst k).gpuIdx < (scanCheckpoints env id (o.emitFirst k)
        (o.pipelineCheckpoints.drop k) (r.log (.examined id))).1.numGpus :=
      hadds.numGpus.symm ▸ ho.1
    simp only [examine, hscan, hpc, Reaper.queryEvent]
    rw [hstatus, hout, hlast]
    split
    next => rfl
    next => rfl
  · intro h
    apply hall
    by_contra hne
    rw [hout, if_neg hne] at h
    exact hne h

/-- **A waiting entry** stays, with more of its checkpoints emitted. -/
theorem examine_waiting (id : ℕ) (ho : o.Fresh r.numGpus)
    (hout : outcome env (o.emitFirst k) = .notReady) :
    ∃ j ≤ (o.pipelineCheckpoints.drop k).length,
      (examine env r ⟨id, o.emitFirst k⟩).2 = some ⟨id, o.emitFirst (k + j)⟩ ∧
      Adds env id (((o.pipelineCheckpoints.drop k).take j).map o.ckptCompletion)
        (((o.pipelineCheckpoints.drop k).take j).filterMap (·.cudaEvent))
        (r.log (.examined id)) (examine env r ⟨id, o.emitFirst k⟩).1 := by
  obtain ⟨j, hj, r', hex, -, hadds⟩ := examine_eq_settle env id k ho
  rw [hex, hout]
  exact ⟨j, hj, rfl, hadds⟩

/-- **A failed entry** is answered by one error, after the checkpoints that were still
emitted, and all its events are destroyed. -/
theorem examine_error (id : ℕ) {code : ℤ} (ho : o.Fresh r.numGpus)
    (hout : outcome env (o.emitFirst k) = .error code) :
    ∃ j fatal, (fatal = [] ∨ fatal = [o.fatalCompletion code]) ∧
      (examine env r ⟨id, o.emitFirst k⟩).2 = none ∧
      Adds env id (((o.pipelineCheckpoints.drop k).take j).map o.ckptCompletion ++
          (fatal ++ [o.errorCompletion code]))
        (((o.pipelineCheckpoints.drop k).take j).filterMap (·.cudaEvent) ++
          (o.cudaEvent.toList ++ (o.computeTStart.toList ++ o.computeTEnd.toList) ++
            (o.pipelineCheckpoints.drop (k + j)).filterMap (·.cudaEvent)))
        (r.log (.examined id)) (examine env r ⟨id, o.emitFirst k⟩).1 := by
  obtain ⟨j, -, r', hex, -, hadds⟩ := examine_eq_settle env id k ho
  have hg : o.gpuIdx < r'.numGpus := hadds.numGpus.symm ▸ ho.1
  obtain ⟨fatal, hfatal, hfail⟩ :=
    adds_fail env code (e := Entry.mk id (o.emitFirst (k + j))) hg ho.2.2.1
  rw [filter_emitFirst fun x hx => (ho.2.2.2 x hx).2] at hfail
  rw [hex, hout]
  exact ⟨j, fatal, hfatal, rfl, hadds.trans hfail⟩

/-- **A ready entry** is answered after all its checkpoints, and all its events are destroyed
when its timing events come as a pair. -/
theorem examine_ready (id : ℕ) (ho : o.Fresh r.numGpus)
    (hout : outcome env (o.emitFirst k) = .ready)
    (hpair : o.computeTStart.isSome → o.computeTEnd.isSome) :
    ∃ t en, (examine env r ⟨id, o.emitFirst k⟩).2 = none ∧
      Adds env id ((o.pipelineCheckpoints.drop k).map o.ckptCompletion ++
          (o.checkpointData.toList.map o.dataCompletion ++
            [PendingCompute.doneCompletion { o with top1Prob := t, entropy := en }]))
        ((o.pipelineCheckpoints.drop k).filterMap (·.cudaEvent) ++
          (o.cudaEvent.toList ++ (o.computeTStart.toList ++ o.computeTEnd.toList)))
        (r.log (.examined id)) (examine env r ⟨id, o.emitFirst k⟩).1 := by
  obtain ⟨j, -, r', hex, hall, hadds⟩ := examine_eq_settle env id k ho
  have hg : o.gpuIdx < r'.numGpus := hadds.numGpus.symm ▸ ho.1
  have hdone := adds_complete env (e := Entry.mk id (o.emitFirst (k + j))) hg ho.2.2.1 hpair
  obtain ⟨t, en, hconf⟩ := withConfidence_eq env (o.emitFirst (k + j))
  rw [hconf] at hdone
  rw [hall hout, take_length] at hadds
  rw [hex, hout]
  exact ⟨t, en, rfl, hadds.trans hdone⟩

end Round

end Compute
end LayerStorm.Daemon
