import Mathlib

/-!
# The ring bridge

`EngineBridge` drives the daemon over two rings: it writes commands into one and reads their
completions from the other.  A completion carries the number of its command, but `wait` looks
for a completion of a given *type*; only the completions of fire-and-forget commands and of the
asynchronous draft are recognised by their numbers.  Whether every operation reads the answers to
its own commands therefore depends on what its predecessors have left in the ring.

The daemon executes the commands in order and answers each one with one completion.  How it
answers, how far it has come when a command is written, and what the host finds in the sideband
are given by a `Daemon`.
-/

namespace LayerStorm.Bridge

/-! ### Commands and completions -/

inductive CmpType
  | computeDone
  | seqOpDone
  | cacheOpDone
  | checkpoint
  | error
deriving DecidableEq, Repr

/-- The commands the bridge sends. -/
inductive CmdType
  | seqCreate
  | seqFree
  | seqFork
  | seqForkFrozen
  | seqHibernate
  | embeddingLookup
  | outputHead
  | sampleTokens
  | runAttention
  | runMoe
  | prefetchBatch
  | fetchAndRunMoe
  | fetchAndRunMoeBig
  | reefRoute
  | farForwardLayer
  | mtpProject
  | kdaSnapshot
  | kdaRestore
  | kdaCkpt
  | runDsparkStep
deriving DecidableEq, Repr

/-- The type of the completion of a command that succeeds. -/
def CmdType.done : CmdType → CmpType
  | .seqCreate | .seqFree | .seqFork | .seqForkFrozen | .seqHibernate => .seqOpDone
  | .prefetchBatch => .cacheOpDone
  | _ => .computeDone

/-- A command and its number; the slot's `cmd_seq` has 32 bits, so a run has fewer than `2 ^ 32`. -/
structure Command where
  type : CmdType
  seq : ℕ
deriving DecidableEq, Repr

/-- A completion, with the number of its command. -/
structure Cmp where
  type : CmpType
  cmdSeq : ℕ
  status : ℕ
  errCategory : ℕ
deriving DecidableEq, Repr

/-- How the daemon answers a command. -/
inductive Reply
  | done (status : ℕ)
  | error (category : ℕ)
deriving DecidableEq, Repr

/-- The other side of the rings. -/
structure Daemon where
  /-- The answer to the command with a given number. -/
  reply : ℕ → Reply
  /-- How many commands are executed just before the command with a given number is written. -/
  pace : ℕ → ℕ
  /-- What the host finds when it looks at the sideband for the given time. -/
  host : ℕ → Bool

def Daemon.answer (d : Daemon) (c : Command) : Cmp :=
  match d.reply c.seq with
  | .done status => ⟨c.type.done, c.seq, status, 0⟩
  | .error category => ⟨.error, c.seq, 0, category⟩

/-! ### The state -/

/-- The two ways to assign experts to GPUs. -/
inductive RouteArm
  | reef
  | act
deriving DecidableEq, Repr

/-- How the bridge was set up.  The rings of the engine have 8192 slots each. -/
structure Config where
  /-- The compiled fast path is loaded. -/
  v2 : Bool
  routeArm : RouteArm
  useFar : Bool
  farBurst : Bool
  numLayers : ℕ
  firstMoeLayer : ℕ
  cmdCount : ℕ
  cmpCount : ℕ
  four_le_cmdCount : 4 ≤ cmdCount

/-- `EngineBridge` between two rings. -/
structure EngineBridge where
  nextSeq : ℕ
  fireForget : List ℕ
  /-- `_dspark_pending_seq`, with 0 for none. -/
  pendingSeq : ℕ
  dsparkCmp : Option Cmp
  /-- `_dspark_err`, by the number of the draft it is about. -/
  dsparkErr : Option ℕ
  commands : List Command
  completions : List Cmp
  /-- How often the host has looked at the sideband. -/
  checks : ℕ
  /-- The last asynchronous draft. -/
  draft : ℕ
  /-- The route commands published with their fetch command. -/
  fused : List ℕ
  /-- Of every wait, its command and that of the completion it took. -/
  trail : List (ℕ × ℕ)
deriving DecidableEq, Repr

/-- The bridge after `__init__`. -/
def EngineBridge.init : EngineBridge := ⟨1, [], 0, none, none, [], [], 0, 0, [], []⟩

/-- `BridgeError`; the draft errors are the subclass `DsparkDraftError`. -/
inductive BridgeError
  | ringFull
  | timeout
  | cmpError (category : ℕ)
  | status (status : ℕ)
  | unexpected (type : CmpType) (seq : ℕ)
  | host
  | draft
deriving DecidableEq, Repr

/-- The methods of the bridge: an exception leaves the state as it is when it is raised. -/
abbrev BridgeM := EStateM BridgeError EngineBridge

section

variable (d : Daemon) (cfg : Config)

/-! ### Ring primitives -/

/-- The daemon executes up to `k` commands. -/
def EngineBridge.work (k : ℕ) (s : EngineBridge) : EngineBridge :=
  { s with
    commands := s.commands.drop k
    completions := s.completions ++ (s.commands.take k).map d.answer }

def nextSeq : BridgeM ℕ := fun s => .ok s.nextSeq { s with nextSeq := s.nextSeq + 1 }

/-- Write a command into the ring. -/
def publish (c : Command) : BridgeM Unit := fun s =>
  let t := s.work d (d.pace c.seq)
  if cfg.cmdCount ≤ t.commands.length then .error .ringFull t
  else .ok () { t with commands := t.commands ++ [c] }

variable (type : CmdType)

/-- `send`, with a number of its own for every command. -/
def send : BridgeM ℕ := do
  let seq ← nextSeq
  publish d cfg ⟨type, seq⟩
  pure seq

/-- Read one completion.  When the ring is empty, the daemon executes its next command first. -/
def EngineBridge.poll (s : EngineBridge) : Option (Cmp × EngineBridge) :=
  match s.completions with
  | c :: cs => some (c, { s with completions := cs })
  | [] =>
    match s.commands with
    | c :: cs => some (d.answer c, { s with commands := cs })
    | [] => none

/-- What `wait` does about a completion. -/
inductive Verdict
  | skip
  | done
  | fail (e : BridgeError)
deriving DecidableEq, Repr

namespace EngineBridge

variable (s : EngineBridge)

/-- Forget a fire-and-forget command. -/
def discard (seq : ℕ) : EngineBridge :=
  { s with fireForget := s.fireForget.erase seq }

/-- Keep the error of the asynchronous draft. -/
def stashError (c : Cmp) : EngineBridge :=
  { s with pendingSeq := 0, dsparkErr := some c.cmdSeq }

/-- Keep the completion of the asynchronous draft. -/
def stash (c : Cmp) : EngineBridge :=
  { s with pendingSeq := 0, dsparkCmp := some c }

/-- The loop body of `wait` without the fast path. -/
def inspect (expected : CmpType) (c : Cmp) : EngineBridge × Verdict :=
  if c.cmdSeq ∈ s.fireForget then (s.discard c.cmdSeq, .skip)
  else if s.pendingSeq ≠ 0 ∧ c.cmdSeq = s.pendingSeq then
    if c.type = .error then (s.stashError c, .skip) else (s.stash c, .skip)
  else if c.type = .error then (s, .fail (.cmpError c.errCategory))
  else if c.type = .checkpoint then (s, .skip)
  else if c.type = expected then (s, .done)
  else (s, .skip)

/-- The loop body of `wait` with the fast path: `wait_cmp` sorts the completions, and the
bridge looks at the numbers afterwards. -/
def inspectV2 (expected : CmpType) (c : Cmp) : EngineBridge × Verdict :=
  if c.type = .checkpoint then (s, .skip)
  else if c.type = .error then
    if c.cmdSeq ∈ s.fireForget then (s.discard c.cmdSeq, .skip)
    else if c.cmdSeq = s.pendingSeq then (s.stashError c, .skip)
    else (s, .fail (.cmpError c.errCategory))
  else if s.pendingSeq ≠ 0 ∧ c.cmdSeq = s.pendingSeq then (s.stash c, .skip)
  else if c.type = expected then
    if c.cmdSeq ∈ s.fireForget then (s.discard c.cmdSeq, .skip) else (s, .done)
  else if c.cmdSeq ∈ s.fireForget then (s.discard c.cmdSeq, .skip)
  else (s, .skip)

/-- A wait for one command came to an end with the completion of another, or of the same. -/
def note (cmd seq : ℕ) : EngineBridge :=
  { s with trail := s.trail ++ [(cmd, seq)] }

/-- What is left to read: the completions in the ring and those still to come. -/
def inFlight : List Cmp := s.completions ++ s.commands.map d.answer

end EngineBridge

/-- The loop of `wait`. -/
def waitLoop (expected : CmpType) (cmd : ℕ) : ℕ → BridgeM Cmp
  | 0, s => .error .timeout s
  | n + 1, s =>
    match s.poll d with
    | none => .error .timeout s
    | some (c, t) =>
      match if cfg.v2 then t.inspectV2 expected c else t.inspect expected c with
      | (u, .skip) => waitLoop expected cmd n u
      | (u, .done) => .ok c (u.note cmd c.cmdSeq)
      | (u, .fail e) => .error e (u.note cmd c.cmdSeq)

/-- `wait`, on behalf of the command `cmd`.  It times out when nothing is left to come. -/
def wait (expected : CmpType) (cmd : ℕ) : BridgeM Cmp := fun s =>
  waitLoop d cfg expected cmd (s.inFlight d).length s

def look : BridgeM Bool := fun s => .ok (d.host s.checks) { s with checks := s.checks + 1 }

/-- The host looks at the sideband and raises an exception if something is wrong. -/
def hostCheck : BridgeM Unit := do
  if ← look d then pure () else throw .host

/-- Send a command and wait for its completion. -/
def exchange : BridgeM Cmp := do
  let seq ← send d cfg type
  wait d cfg type.done seq

/-- The check that follows most waits. -/
def checkStatus (out : Cmp) : BridgeM Unit :=
  if out.status ≠ 0 then throw (.status out.status) else pure ()

/-- Send a command, wait for its completion and check its status. -/
def request : BridgeM Unit := do
  let out ← exchange d cfg type
  checkStatus out

/-! ### Sequences -/

/-- `free_sequence` swallows the error of its own command, and any other it sees. -/
def freeSequence : BridgeM Unit := do
  let seq ← send d cfg .seqFree
  tryCatch (do let _ ← wait d cfg .seqOpDone seq) fun _ => pure ()

/-- `spill_sequence`: status 2 is an answer, not an error. -/
def spillSequence : BridgeM Unit := do
  let out ← exchange d cfg .seqHibernate
  if out.status ≠ 0 ∧ out.status ≠ 2 then throw (.status out.status)

/-! ### Layers -/

/-- `reef_route_fetch_from_export`: both commands are published back to back. -/
def reefRouteFetchFromExport : BridgeM (ℕ × ℕ) := do
  let route ← nextSeq
  let fetch ← nextSeq
  hostCheck d
  publish d cfg ⟨.reefRoute, route⟩
  modify fun s => { s with fused := s.fused ++ [route] }
  publish d cfg ⟨.fetchAndRunMoe, fetch⟩
  pure (route, fetch)

def reefMoe : BridgeM Unit := do
  if cfg.v2 then
    let (route, fetch) ← reefRouteFetchFromExport d cfg
    let out ← wait d cfg .computeDone route
    checkStatus out
    let out ← wait d cfg .computeDone fetch
    checkStatus out
  else
    hostCheck d
    request d cfg .reefRoute
    request d cfg .fetchAndRunMoe

def routedMoe (lrus prefetchRecord : Bool) : BridgeM Unit := do
  if lrus = false ∧ prefetchRecord = false ∧ cfg.routeArm = .reef then reefMoe d cfg
  else if lrus = false ∧ cfg.v2 = true ∧ prefetchRecord = false then
    let fetch ← nextSeq
    hostCheck d
    publish d cfg ⟨.fetchAndRunMoe, fetch⟩
    let out ← wait d cfg .computeDone fetch
    checkStatus out
  else
    hostCheck d
    request d cfg .fetchAndRunMoe

/-- Run a piece of code and keep its error. -/
def observe (x : BridgeM Unit) : BridgeM (Option BridgeError) :=
  tryCatch (do x; pure none) fun e => pure (some e)

/-- `collect_one` of the burst: the first error is kept for later. -/
def collectOne (seq : ℕ) (firstErr : Option BridgeError) : BridgeM (Option BridgeError) := do
  let err ← observe do
    let out ← wait d cfg .computeDone seq
    checkStatus out
  pure (firstErr.or err)

/-- Collect while `window` or more commands are in flight. -/
def collectWhile (window : ℕ) : List ℕ → Option BridgeError → BridgeM (List ℕ × Option BridgeError)
  | [], firstErr => pure ([], firstErr)
  | seq :: pending, firstErr =>
    if window ≤ (seq :: pending).length then do
      let firstErr ← collectOne d cfg seq firstErr
      collectWhile window pending firstErr
    else pure (seq :: pending, firstErr)

/-- The sends of the burst: after an error no further layer is sent. -/
def sweep (window : ℕ) : ℕ → List ℕ → Option BridgeError → BridgeM (List ℕ × Option BridgeError)
  | 0, pending, firstErr => pure (pending, firstErr)
  | layers + 1, pending, firstErr => do
    let (pending, firstErr) ← collectWhile d cfg window pending firstErr
    if firstErr.isSome then pure (pending, firstErr)
    else
      let seq ← send d cfg .farForwardLayer
      sweep window layers (pending ++ [seq]) firstErr

/-- The number of layers in flight at most. -/
def Config.window : ℕ := max 4 (min cfg.cmdCount cfg.cmpCount / 2)

/-- `_far_sweep_burst`: whatever was sent is collected before an error is raised. -/
def farSweepBurst : BridgeM Unit := do
  let (pending, firstErr) ← sweep d cfg cfg.window cfg.numLayers [] none
  let (_, firstErr) ← collectWhile d cfg 0 pending firstErr
  match firstErr with
  | none => pure ()
  | some e => throw e

def prefetchFire : BridgeM Unit := do
  let seq ← nextSeq
  modify fun s => { s with fireForget := seq :: s.fireForget }
  publish d cfg ⟨.prefetchBatch, seq⟩

/-- One layer, command by command. -/
def layerStep (lrus prefetch : Bool) (layer : ℕ) : BridgeM Unit := do
  if prefetch = true ∧ cfg.firstMoeLayer ≤ layer then
    if ← look d then prefetchFire d cfg
  if cfg.useFar = true ∧ lrus = false ∧ prefetch = false then request d cfg .farForwardLayer
  else
    request d cfg .runAttention
    if cfg.firstMoeLayer ≤ layer then routedMoe d cfg lrus prefetch else request d cfg .runMoe

/-- All layers, pipelined or one after the other. -/
def layers (lrus prefetch : Bool) : BridgeM Unit :=
  if cfg.useFar = true ∧ lrus = false ∧ prefetch = false ∧ cfg.farBurst = true then
    farSweepBurst d cfg
  else (List.range cfg.numLayers).forM (layerStep d cfg lrus prefetch)

/-! ### Steps -/

/-- `decode_step_fetch_and_run`. -/
def decodeStep (lrus logitsReadback : Bool) : BridgeM Unit := do
  request d cfg .embeddingLookup
  layers d cfg lrus false
  request d cfg .outputHead
  if logitsReadback = false then request d cfg .sampleTokens

/-- The head of a verify pass, and what the host reads back of it. -/
def headReadback : BridgeM Unit := do
  request d cfg .outputHead
  hostCheck d
  hostCheck d

/-- `verify_step_fetch_and_run`. -/
def verifyStep (lrus prefetch : Bool) : BridgeM Unit := do
  request d cfg .embeddingLookup
  layers d cfg lrus prefetch
  headReadback d cfg

/-- `prefill_chunk_fetch_and_run`. -/
def prefillChunk (lrus : Bool) : BridgeM Unit := do
  request d cfg .embeddingLookup
  layers d cfg lrus false

/-- The sub-chunks of a superchunk: their offsets and lengths, on the absolute grid. -/
def subchunks (pos₀ sub : ℕ) : ℕ → ℕ → ℕ → List (ℕ × ℕ)
  | 0, _, _ => []
  | fuel + 1, off, n =>
    if off < n then
      let ln := min (sub - (pos₀ + off) % sub) (n - off)
      (off, ln) :: subchunks pos₀ sub fuel (off + ln) n
    else []

/-- One layer of a superchunk: an attention launch for each sub-chunk, then one MoE command. -/
def superchunkLayer (subs : List (ℕ × ℕ)) (layer : ℕ) : BridgeM Unit := do
  subs.forM fun _ => do
    request d cfg .runAttention
    if cfg.firstMoeLayer ≤ layer then hostCheck d
  if layer < cfg.firstMoeLayer then request d cfg .runMoe
  else
    hostCheck d
    if cfg.routeArm = .reef then request d cfg .reefRoute
    request d cfg .fetchAndRunMoeBig

/-- `prefill_superchunk_fetch_and_run`. -/
def prefillSuperchunk (n pos₀ sub : ℕ) : BridgeM Unit := do
  let subs := subchunks pos₀ (max 1 (min sub 512)) n 0 n
  subs.forM fun _ => request d cfg .embeddingLookup
  (List.range cfg.numLayers).forM (superchunkLayer d cfg subs)

/-! ### The MTP layer -/

def mtpProbeStep : BridgeM Unit := do
  request d cfg .mtpProject
  request d cfg .runAttention
  hostCheck d
  request d cfg .fetchAndRunMoe
  request d cfg .outputHead

def mtpVerifyPass : BridgeM Unit := do
  request d cfg .embeddingLookup
  farSweepBurst d cfg
  headReadback d cfg

def mtpRow (head : Bool) : BridgeM Unit := do
  request d cfg .mtpProject
  request d cfg .farForwardLayer
  if head = true then headReadback d cfg

def mtpChainRow : BridgeM Unit := mtpRow d cfg true

def mtpPrefillFill (n : ℕ) : BridgeM Unit :=
  if n = 0 then pure ()
  else do
    (List.range n).forM fun _ => request d cfg .mtpProject
    request d cfg .runAttention
    routedMoe d cfg false false

/-! ### The draft -/

/-- `_parse_dspark`: what is wrong with a draft is the fault of the draft only. -/
def parseDspark : BridgeM Unit := do
  if ← look d then pure () else throw .draft

def dsparkDraftStep : BridgeM Unit := do
  request d cfg .runDsparkStep
  parseDspark d

def dsparkSendAsync : BridgeM Unit := do
  modify fun s => { s with dsparkCmp := none, dsparkErr := none }
  let seq ← send d cfg .runDsparkStep
  modify fun s => { s with pendingSeq := seq, draft := seq }

/-- The loop of `dspark_collect_async`. -/
def collectLoop : ℕ → BridgeM Cmp
  | 0, s => .error .timeout { s with pendingSeq := 0 }
  | n + 1, s =>
    match s.poll d with
    | none => .error .timeout { s with pendingSeq := 0 }
    | some (c, t) =>
      if c.cmdSeq ∈ t.fireForget then collectLoop n (t.discard c.cmdSeq)
      else if c.type = .error then
        if c.cmdSeq = t.pendingSeq then
          .error .draft ({ t with pendingSeq := 0 }.note t.draft c.cmdSeq)
        else .error (.cmpError c.errCategory) ({ t with pendingSeq := 0 }.note t.draft c.cmdSeq)
      else if c.type = .checkpoint then collectLoop n t
      else if c.cmdSeq = t.pendingSeq then
        .ok c ({ t with pendingSeq := 0 }.note t.draft c.cmdSeq)
      else .error (.unexpected c.type c.cmdSeq) (t.note t.draft c.cmdSeq)

def dsparkCollectAsync : BridgeM Unit := do
  let s ← get
  match s.dsparkErr, s.dsparkCmp with
  | some seq, _ =>
    set ({ s with dsparkErr := none }.note s.draft seq)
    throw .draft
  | none, some c =>
    set ({ s with dsparkCmp := none }.note s.draft c.cmdSeq)
    parseDspark d
  | none, none =>
    let _ ← collectLoop d (s.inFlight d).length
    parseDspark d

def drainPendingDspark : BridgeM Unit := do
  let s ← get
  if s.pendingSeq ≠ 0 ∧ s.dsparkCmp = none then
    tryCatch (dsparkCollectAsync d) fun _ => pure ()
  modify fun s => { s with dsparkCmp := none, dsparkErr := none }

end

/-! ### Runs -/

/-- The operations of the bridge. -/
inductive Op
  | createSequence
  | freeSequence
  | forkSequence (frozen : Bool)
  | hibernateSequence
  | spillSequence
  | decodeStep (lrus logitsReadback : Bool)
  | verifyStep (lrus prefetch : Bool)
  | prefillChunk (lrus : Bool)
  | prefillSuperchunk (n pos₀ sub : ℕ)
  | mtpProbeStep
  | mtpVerifyPass
  | mtpRow (head : Bool)
  | mtpChainRow
  | mtpPrefillFill (n : ℕ)
  | normOnlyHead
  | kdaSnapshot
  | kdaRestore
  | kdaCkpt
  | dsparkDraftStep
  | dsparkSendAsync
  | dsparkCollectAsync
  | drainPendingDspark
deriving DecidableEq, Repr

def Op.code (d : Daemon) (cfg : Config) : Op → BridgeM Unit
  | .createSequence => request d cfg .seqCreate
  | .freeSequence => Bridge.freeSequence d cfg
  | .forkSequence frozen => request d cfg (if frozen then .seqForkFrozen else .seqFork)
  | .hibernateSequence => request d cfg .seqHibernate
  | .spillSequence => Bridge.spillSequence d cfg
  | .decodeStep lrus logitsReadback => Bridge.decodeStep d cfg lrus logitsReadback
  | .verifyStep lrus prefetch => Bridge.verifyStep d cfg lrus prefetch
  | .prefillChunk lrus => Bridge.prefillChunk d cfg lrus
  | .prefillSuperchunk n pos₀ sub => Bridge.prefillSuperchunk d cfg n pos₀ sub
  | .mtpProbeStep => Bridge.mtpProbeStep d cfg
  | .mtpVerifyPass => Bridge.mtpVerifyPass d cfg
  | .mtpRow head => Bridge.mtpRow d cfg head
  | .mtpChainRow => Bridge.mtpChainRow d cfg
  | .mtpPrefillFill n => Bridge.mtpPrefillFill d cfg n
  | .normOnlyHead => request d cfg .outputHead
  | .kdaSnapshot => request d cfg .kdaSnapshot
  | .kdaRestore => request d cfg .kdaRestore
  | .kdaCkpt => do let _ ← exchange d cfg .kdaCkpt
  | .dsparkDraftStep => Bridge.dsparkDraftStep d cfg
  | .dsparkSendAsync => Bridge.dsparkSendAsync d cfg
  | .dsparkCollectAsync => Bridge.dsparkCollectAsync d
  | .drainPendingDspark => Bridge.drainPendingDspark d

/-- The state an operation leaves behind, whether it succeeds or not. -/
def finalState {α : Type} (x : BridgeM α) (s : EngineBridge) : EngineBridge :=
  match x s with
  | .ok _ t => t
  | .error _ t => t

/-- One operation after another. -/
def perform (d : Daemon) (cfg : Config) (s : EngineBridge) (op : Op) : Option EngineBridge :=
  some (finalState (op.code d cfg) s)

end LayerStorm.Bridge
