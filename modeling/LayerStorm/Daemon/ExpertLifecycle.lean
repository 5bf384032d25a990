import LayerStorm.Memory.ExpertCache

/-!
# The expert lifecycle manager

`ExpertLifecycleManager` makes experts resident on a GPU on request, from whatever
tier they are in: an expert on NVMe is read into host memory first, then a cache
slot is reserved and the weights are copied to the device.  A request is an
*interest* in a (key, GPU) entry; it is known by its token until it is completed or
cancelled.  All work that does not finish at once is continued by `poll`, which the
daemon feeds with the completions of the arena loader, the NVMe tier and the
transfer engine.

The cache is the model of `ExpertCache`.  The other services (transfer engine, NVMe
tier, host source resolver) are represented by a tape of answers, one record for
each question the manager asks, so that a theorem about every tape is a theorem
about every behaviour of the services.  GPU indices are those of the configuration:
a call with another one throws out of the cache and is not modelled.  Slot addresses
are never null.
-/

namespace LayerStorm.Daemon

open Function Lib Memory

/-! ### Data model -/

/-- Where an expert is on the host side. -/
inductive HostTier
  | cold
  | loadingToRam
  | warm
  deriving DecidableEq, Repr

/-- Where an expert is on the side of one GPU. -/
inductive GpuTier
  | absent
  | reserved
  | transferring
  | draining
  | partial1
  | partial12
  | hot
  deriving DecidableEq, Repr

/-- One request for residency that has not been answered. -/
structure Interest where
  token : ℕ
  cmdSeq : ℕ
  zone : CacheZone
  deriving DecidableEq

/-- The state of an expert on one GPU. -/
structure GpuEntry where
  tier : GpuTier
  transferToken : ℕ
  interests : List Interest
  drainCmdSeq : ℕ
  deriving DecidableEq

/-- `PendingGpuChain`: a GPU that waits for the host to load an expert. -/
structure PendingGpuChain where
  gpuIdx : ℕ
  zone : CacheZone
  deriving DecidableEq

/-- The state of an expert on the host. -/
structure HostEntry where
  tier : HostTier
  nvmeToken : ℕ
  gpuWaiters : List PendingGpuChain
  deriving DecidableEq

/-- What the owner of a request is told. -/
structure LifecycleCompletion (K : Type) where
  token : ℕ
  cmdSeq : ℕ
  key : K
  gpuIdx : ℕ
  success : Bool
  isEviction : Bool

/-- An H2D copy has been started for a command. -/
structure ProgressEvent (K : Type) where
  key : K
  gpuIdx : ℕ
  phase : ℕ
  cmdSeq : ℕ

/-- What the host source resolver finds: data to copy from, none, a load that is
still running, or an arena without a free slot. -/
inductive HostSource
  | found
  | missing
  | pending
  | backpressure
  deriving DecidableEq

/-- The answers of the services to one question of the manager, which looks at the
fields its question is about. -/
structure Answer where
  /-- `compute_host_tier`. -/
  hostTier : HostTier
  /-- `read_expert`: refused, done at once (token 0) or under way. -/
  nvmeRead : Option ℕ
  /-- `resolve_host_source`. -/
  hostSource : HostSource
  /-- `enqueue_h2d`. -/
  enqueueH2d : Option ℕ
  /-- `is_inflight_h2d`. -/
  inflightH2d : Bool
  /-- `enqueue_d2h`, refused also where a service for draining is not configured. -/
  enqueueD2h : Option ℕ

structure Manager (K : Type) where
  cache : ExpertCache K
  gpuEntries : K → ℕ → Option GpuEntry
  hostEntries : K → Option HostEntry
  arenaLoadWaiters : K → List (K × ℕ)
  slotPressureWaiters : List (K × ℕ)
  tokenIndex : ℕ → Option (K × ℕ)
  cmdSeqToToken : List (ℕ × ℕ)
  pendingCompletions : List (LifecycleCompletion K)
  pendingProgress : List (ProgressEvent K)
  nextToken : ℕ
  emitProgress : Bool
  /-- What the services will answer. -/
  answers : ℕ → Answer

/-- What `poll` returns. -/
structure PollResult (K : Type) where
  lifecycle : List (LifecycleCompletion K)
  progress : List (ProgressEvent K)
  unhandledTransfers : List (K × ℕ)
  unhandledNvme : List K

structure ArenaLoadCompletion (K : Type) where
  key : K
  success : Bool

/-- An NVMe read has ended. -/
structure IoCompletion (K : Type) where
  key : K
  success : Bool

inductive TransferDirection
  | h2d
  | d2h
  deriving DecidableEq

/-- A copy has ended. -/
structure TransferCompletion (K : Type) where
  key : K
  gpuIdx : ℕ
  direction : TransferDirection
  success : Bool

variable {K : Type} [DecidableEq K]

/-- The constructor, over an empty cache. -/
def Manager.init (gpuCount : ℕ) (layout : ℕ → GpuLayout) (emitProgress : Bool)
    (answers : ℕ → Answer) : Manager K where
  cache := ExpertCache.init gpuCount layout
  gpuEntries := fun _ _ => none
  hostEntries := fun _ => none
  arenaLoadWaiters := fun _ => []
  slotPressureWaiters := []
  tokenIndex := fun _ => none
  cmdSeqToToken := []
  pendingCompletions := []
  pendingProgress := []
  nextToken := 1
  emitProgress := emitProgress
  answers := answers

namespace Manager

/-! ### Access to the maps -/

variable (m : Manager K)

/-- The entry of a key on a GPU; a fresh one where there is none. -/
def gpuEntry (k : K) (g : ℕ) : GpuEntry :=
  (m.gpuEntries k g).getD ⟨.absent, 0, [], 0⟩

/-- The host entry of a key; a fresh one where there is none. -/
def hostEntry (k : K) : HostEntry :=
  (m.hostEntries k).getD ⟨.cold, 0, []⟩

def setGpuEntry (k : K) (g : ℕ) (ge : GpuEntry) : Manager K :=
  { m with gpuEntries :=
      update m.gpuEntries k (update (m.gpuEntries k) g (some ge)) }

def setHostEntry (k : K) (he : HostEntry) : Manager K :=
  { m with hostEntries := update m.hostEntries k (some he) }

/-- The next question to a service has been asked. -/
def ask : Manager K := { m with answers := fun n => m.answers (n + 1) }

/-- Queueing completions for the next `poll`. -/
def queue (out : List (LifecycleCompletion K)) : Manager K :=
  { m with pendingCompletions := m.pendingCompletions ++ out }

/-- Giving up the cache slot of a key. -/
def evictSlot (k : K) (g : ℕ) : Manager K :=
  { m with cache := m.cache.commit g (.evict k) ((m.cache.gpus g).evict k).1 }

@[simp] theorem gpuEntry_setGpuEntry (k : K) (g : ℕ) (ge : GpuEntry) (k' : K)
    (g' : ℕ) : (m.setGpuEntry k g ge).gpuEntry k' g' =
      if k' = k ∧ g' = g then ge else m.gpuEntry k' g' := by
  unfold gpuEntry setGpuEntry
  by_cases hk : k' = k
  · subst hk
    by_cases hg : g' = g
    · subst hg
      simp
    · simp [hg]
  · simp [hk]

theorem gpuEntries_setGpuEntry_of_ne {k : K} {g : ℕ} (ge : GpuEntry) {k' : K}
    {g' : ℕ} (hne : ¬ (k' = k ∧ g' = g)) :
    (m.setGpuEntry k g ge).gpuEntries k' g' = m.gpuEntries k' g' := by
  unfold setGpuEntry
  by_cases hk : k' = k
  · subst hk
    have hg : g' ≠ g := fun heq => hne ⟨rfl, heq⟩
    simp [update_of_ne hg]
  · simp [update_of_ne hk]

@[simp] theorem hostEntry_setHostEntry (k : K) (he : HostEntry) (k' : K) :
    (m.setHostEntry k he).hostEntry k' = if k' = k then he else m.hostEntry k' := by
  unfold hostEntry setHostEntry
  by_cases hk : k' = k
  · subst hk
    simp
  · simp [hk]

@[simp] theorem gpuEntry_setHostEntry (m : Manager K) (k : K) (he : HostEntry) (k' : K) (g : ℕ) :
    (m.setHostEntry k he).gpuEntry k' g = m.gpuEntry k' g := rfl

omit [DecidableEq K] in
theorem gpuEntry_of_some {m : Manager K} {k : K} {g : ℕ} {ge : GpuEntry}
    (h : m.gpuEntries k g = some ge) : m.gpuEntry k g = ge := by
  rw [gpuEntry, h, Option.getD_some]

omit [DecidableEq K] in
theorem hostEntry_of_some {m : Manager K} {k : K} {he : HostEntry}
    (h : m.hostEntries k = some he) : m.hostEntry k = he := by
  rw [hostEntry, h, Option.getD_some]

/-! ### Internal moves -/

/-- A key's retry list with one more waiter, unless it is there. -/
def enlist (waiters : List (K × ℕ)) (k : K) (g : ℕ) : List (K × ℕ) :=
  if (k, g) ∈ waiters then waiters else waiters ++ [(k, g)]

/-- The entry's copy is under way. -/
def markTransferring (k : K) (g token : ℕ) : Manager K :=
  m.setGpuEntry k g { m.gpuEntry k g with tier := .transferring, transferToken := token }

/-- `try_start_h2d`: start the copy of a reserved entry.  Where the source is still
being loaded, or the arena is full, the entry is put on a retry list. -/
def tryStartH2d (k : K) (g : ℕ) : Manager K :=
  let a := m.answers 0
  let m := m.ask
  match a.hostSource with
  | .pending =>
    { m with arenaLoadWaiters :=
        update m.arenaLoadWaiters k (enlist (m.arenaLoadWaiters k) k g) }
  | .backpressure => { m with slotPressureWaiters := enlist m.slotPressureWaiters k g }
  | .missing => m
  | .found =>
    if k ∈ (m.cache.gpus g).residents then
      match a.enqueueH2d with
      | some token =>
        let m := m.markTransferring k g token
        match (m.gpuEntry k g).interests with
        | [] => m
        | i :: _ =>
          if m.emitProgress then
            { m with pendingProgress := m.pendingProgress ++ [⟨k, g, 3, i.cmdSeq⟩] }
          else m
      | none =>
        -- the copy of another command is in flight
        if a.inflightH2d then m.markTransferring k g 0 else m
    else m

/-- `revert_gpu_entry`: give the slot up and forget the GPU as a waiter. -/
def revertGpuEntry (k : K) (g : ℕ) : Manager K :=
  let ge := m.gpuEntry k g
  let m :=
    match ge.tier with
    | .transferring | .reserved | .draining => m.evictSlot k g
    | .hot | .partial1 | .partial12 | .absent => m
  let m := m.setGpuEntry k g { ge with
      tier := .absent
      transferToken := 0
      drainCmdSeq := if ge.tier = .draining then 0 else ge.drainCmdSeq }
  match m.hostEntries k with
  | none => m
  | some he =>
    m.setHostEntry k { he with gpuWaiters := he.gpuWaiters.filter fun w => w.gpuIdx ≠ g }

/-- Taking an interest out of both indexes. -/
def unindex (i : Interest) : Manager K :=
  { m with
    tokenIndex := update m.tokenIndex i.token none
    cmdSeqToToken := m.cmdSeqToToken.erase (i.cmdSeq, i.token) }

/-- `complete_interests`: answer all interests of an entry; a failure reverts it. -/
def completeInterests (k : K) (g : ℕ) (success : Bool) : Manager K × List (LifecycleCompletion K) :=
  let ge := m.gpuEntry k g
  let out := ge.interests.map fun i => ⟨i.token, i.cmdSeq, k, g, success, false⟩
  let m := (ge.interests.foldl unindex m).setGpuEntry k g { ge with interests := [] }
  (if success then m else m.revertGpuEntry k g, out)

def takeSlot (k : K) (g : ℕ) (zone : CacheZone) : Manager K :=
  let gs := ((m.cache.gpus g).reserve k g zone false).1
  Manager.setGpuEntry { m with cache := m.cache.commit g (.reserve k zone false) gs } k g
    { m.gpuEntry k g with tier := .reserved }

/-- Reserving a slot for an absent entry whose data is on the host, and starting the
copy; with the cache full, all interests fail. -/
def reserveAndStart (k : K) (g : ℕ) (zone : CacheZone) : Manager K × List (LifecycleCompletion K) :=
  match ((m.cache.gpus g).reserve k g zone false).2 with
  | none => m.completeInterests k g false
  | some _ => ((m.takeSlot k g zone).tryStartH2d k g, [])

/-! ### Requests -/

/-- The host entry of a key, created on first access, with its tier looked up if it is
not known. -/
def initHostTier (k : K) : Manager K :=
  let he := m.hostEntry k
  if he.tier = .cold ∧ he.gpuWaiters = [] ∧ he.nvmeToken = 0 then
    m.ask.setHostEntry k { he with tier := (m.answers 0).hostTier }
  else m.setHostEntry k he

/-- A new token, in both indexes, for an entry that is created on first access. -/
def issueToken (k : K) (g cmdSeq : ℕ) : Manager K :=
  let m' : Manager K := { m with
    nextToken := m.nextToken + 1
    tokenIndex := update m.tokenIndex m.nextToken (some (k, g))
    cmdSeqToToken := (cmdSeq, m.nextToken) :: m.cmdSeqToToken }
  m'.setGpuEntry k g (m.gpuEntry k g)

/-- The bookkeeping of a new request. -/
def register (k : K) (g cmdSeq : ℕ) : Manager K :=
  (m.issueToken k g cmdSeq).initHostTier k

def addInterest (k : K) (g : ℕ) (i : Interest) : Manager K :=
  m.setGpuEntry k g { m.gpuEntry k g with interests := (m.gpuEntry k g).interests ++ [i] }

/-- Waiting for the host to load the expert. -/
def addWaiter (k : K) (g : ℕ) (zone : CacheZone) : Manager K :=
  m.setHostEntry k { m.hostEntry k with gpuWaiters := (m.hostEntry k).gpuWaiters ++ [⟨g, zone⟩] }

/-- The chain of an absent entry that has just got an interest, by the host tier. -/
def startChain (k : K) (g : ℕ) (zone : CacheZone) : Manager K :=
  match (m.hostEntry k).tier with
  | .warm =>
    let r := m.reserveAndStart k g zone
    r.1.queue r.2
  | .loadingToRam => m.addWaiter k g zone
  | .cold =>
    let a := m.answers 0
    let m := m.ask
    match a.nvmeRead with
    | some 0 =>
      let r := (m.setHostEntry k { m.hostEntry k with tier := .warm }).reserveAndStart k g zone
      r.1.queue r.2
    | some (token + 1) =>
      (m.setHostEntry k { m.hostEntry k with
        tier := .loadingToRam, nvmeToken := token + 1 }).addWaiter k g zone
    | none =>
      let r := m.completeInterests k g false
      r.1.queue r.2

/-- `ensure_resident`: the manager afterwards; the token returned is `nextToken`. -/
def ensureResident (k : K) (g : ℕ) (zone : CacheZone) (cmdSeq : ℕ) : Manager K :=
  let i : Interest := ⟨m.nextToken, cmdSeq, zone⟩
  let m := m.register k g cmdSeq
  match (m.gpuEntry k g).tier with
  | .hot | .partial1 | .partial12 =>
    if k ∈ (m.cache.gpus g).residents then m.queue [⟨i.token, cmdSeq, k, g, true, false⟩]
    else
      -- an eviction went past the manager: heal the entry and fetch again
      let m := m.setGpuEntry k g { m.gpuEntry k g with tier := .absent, transferToken := 0 }
      (m.addInterest k g i).startChain k g zone
  | .transferring => m.addInterest k g i
  | .reserved =>
    let m := m.addInterest k g i
    if (m.hostEntry k).tier = .warm then m.tryStartH2d k g else m
  | .absent => (m.addInterest k g i).startChain k g zone
  | .draining => m.queue [⟨i.token, cmdSeq, k, g, false, false⟩]

/-- `request_evict`; refused while interests are pending or a copy is under way. -/
def requestEvict (k : K) (g : ℕ) : Manager K × Bool :=
  let evicted := ((m.cache.gpus g).evict k).2
  match m.gpuEntries k g with
  | none => (m.evictSlot k g, evicted)
  | some ge =>
    if ge.interests ≠ [] then (m, false)
    else if ge.tier = .transferring ∨ ge.tier = .draining then (m, false)
    else if evicted then
      ((m.evictSlot k g).setGpuEntry k g { ge with tier := .absent, transferToken := 0 }, true)
    else (m.evictSlot k g, false)

/-- `state`: the tier of an expert on a GPU, from the cache if the manager does not
know it. -/
def gpuTier (k : K) (g : ℕ) : GpuTier :=
  match m.gpuEntries k g with
  | some ge => ge.tier
  | none =>
    match (m.cache.gpus g).residents.lookup k with
    | some e => if e.subComponentsReady = allReady then .hot else .reserved
    | none => .absent

/-- The inline eviction of `ensure_residents`: victims are tried in order until one
frees a slot; the victims that are left. -/
def makeRoom (m : Manager K) (g : ℕ) : List K → Manager K × List K
  | [] => (m, [])
  | victim :: victims =>
    let r := m.requestEvict victim g
    if r.2 then (r.1, victims) else makeRoom r.1 g victims

/-- `ensure_residents`: the manager afterwards and how many requests have a slot. -/
def ensureResidents (m : Manager K) (g cmdSeq : ℕ) : List (K × CacheZone) → List K → Manager K × ℕ
  | [], _ => (m, 0)
  | req :: reqs, victims =>
    let r :=
      if req.2 = .stable ∧ m.gpuTier req.1 g = .absent ∧
          (m.cache.gpus g).freeSlots .stable ≤ 0 then m.makeRoom g victims
      else (m, victims)
    let m := r.1.ensureResident req.1 g req.2 cmdSeq
    let rest := ensureResidents m g cmdSeq reqs r.2
    (rest.1, if m.gpuTier req.1 g ≠ .absent then rest.2 + 1 else rest.2)

/-- `request_drain`: a hot entry without interests starts its copy to the host. -/
def requestDrain (k : K) (g cmdSeq : ℕ) : Manager K × Bool :=
  match m.gpuEntries k g with
  | none => (m, false)
  | some ge =>
    if ge.tier = .hot ∧ ge.interests = [] ∧ k ∈ (m.cache.gpus g).residents then
      match (m.answers 0).enqueueD2h with
      | none => (m.ask, false)
      | some token =>
        (m.ask.setGpuEntry k g
          { ge with tier := .draining, transferToken := token, drainCmdSeq := cmdSeq }, true)
    else (m, false)

/-- `cancel`: take back one interest, or an immediate completion that has not been
returned.  The last interest of an entry reverts it. -/
def cancel (token : ℕ) : Manager K :=
  match m.tokenIndex token with
  | none => m
  | some (k, g) =>
    let m := { m with tokenIndex := update m.tokenIndex token none }
    match m.gpuEntries k g with
    | none => m
    | some ge =>
      let m :=
        match ge.interests.find? fun i => i.token = token with
        | none => m
        | some i =>
          { m with cmdSeqToToken := m.cmdSeqToToken.erase (i.cmdSeq, token) }.setGpuEntry k g
            { ge with interests := ge.interests.eraseP fun i => i.token = token }
      let m := { m with
        pendingCompletions := m.pendingCompletions.filter fun c => c.token ≠ token }
      if (m.gpuEntry k g).interests = [] then m.revertGpuEntry k g else m

/-- `promote`; only hot entries, or ones the manager does not know. -/
def promote (k : K) (g : ℕ) : Manager K × Bool :=
  match m.gpuEntries k g with
  | some ge =>
    if ge.tier ≠ .hot then (m, false)
    else
      let r := (m.cache.gpus g).promote k
      ({ m with cache := m.cache.commit g (.promote k) r.1 }, r.2)
  | none =>
    let r := (m.cache.gpus g).promote k
    ({ m with cache := m.cache.commit g (.promote k) r.1 }, r.2)

/-- `demote`; only hot entries, or ones the manager does not know. -/
def demote (k : K) (g : ℕ) : Manager K × Bool :=
  match m.gpuEntries k g with
  | some ge =>
    if ge.tier ≠ .hot then (m, false)
    else
      let r := (m.cache.gpus g).demote k
      ({ m with cache := m.cache.commit g (.demote k) r.1 }, r.2)
  | none =>
    let r := (m.cache.gpus g).demote k
    ({ m with cache := m.cache.commit g (.demote k) r.1 }, r.2)

/-! ### Poll -/

/-- The manager and the result that `poll` builds up. -/
abbrev Polling (K : Type) := Manager K × PollResult K

def report (r : PollResult K) (out : List (LifecycleCompletion K)) : PollResult K :=
  { r with lifecycle := r.lifecycle ++ out }

/-- A retry of an entry that is still reserved. -/
def retry (gk : K × ℕ) : Manager K :=
  match m.gpuEntries gk.1 gk.2 with
  | none => m
  | some ge => if ge.tier = .reserved then m.tryStartH2d gk.1 gk.2 else m

def failReserved (s : Polling K) (gk : K × ℕ) : Polling K :=
  match s.1.gpuEntries gk.1 gk.2 with
  | none => s
  | some ge =>
    if ge.tier = .reserved then
      let r := s.1.completeInterests gk.1 gk.2 false
      (r.1, report s.2 r.2)
    else s

/-- One round of `process_arena_loads`: the waiters of the load are taken off their
list and driven again, or failed. -/
def arenaLoadDone (s : Polling K) (lc : ArenaLoadCompletion K) : Polling K :=
  let waiters := s.1.arenaLoadWaiters lc.key
  let m := { s.1 with
    arenaLoadWaiters := update s.1.arenaLoadWaiters lc.key [] }
  if lc.success then (waiters.foldl retry m, s.2)
  else waiters.foldl failReserved (m, s.2)

/-- A waiter whose expert has been loaded. -/
def startWaiter (k : K) (s : Polling K) (w : PendingGpuChain) : Polling K :=
  let m := s.1.setGpuEntry k w.gpuIdx (s.1.gpuEntry k w.gpuIdx)
  match (m.gpuEntry k w.gpuIdx).tier with
  | .absent =>
    let r := m.reserveAndStart k w.gpuIdx w.zone
    (r.1, report s.2 r.2)
  | .reserved => (m.tryStartH2d k w.gpuIdx, s.2)
  | _ => (m, s.2)

/-- A waiter whose expert could not be loaded. -/
def failWaiter (k : K) (s : Polling K) (w : PendingGpuChain) : Polling K :=
  match s.1.gpuEntries k w.gpuIdx with
  | none => s
  | some _ =>
    let r := s.1.completeInterests k w.gpuIdx false
    (r.1, report s.2 r.2)

/-- The loop `for (waiter : he.gpu_waiters)` with its bounds fixed at the start: the
rounds left, the position, and the storage of the vector.  A visit may erase from the
vector; the elements kept move to the front and the rest of the storage stays as it
was. -/
def driveWaiters (visit : Polling K → PendingGpuChain → Polling K) (k : K) :
    ℕ → ℕ → List PendingGpuChain → Polling K → Polling K
  | 0, _, _, s => s
  | rounds + 1, pos, storage, s =>
    match storage[pos]? with
    | none => s
    | some w =>
      let s := visit s w
      let kept := (s.1.hostEntry k).gpuWaiters
      driveWaiters visit k rounds (pos + 1) (kept ++ storage.drop kept.length) s

omit [DecidableEq K] in
theorem driveWaiters_invariant {P : Polling K → Prop}
    {visit : Polling K → PendingGpuChain → Polling K} {k : K}
    (hvisit : ∀ s w, P s → P (visit s w)) (rounds : ℕ) :
    ∀ {pos : ℕ} {storage : List PendingGpuChain} {s : Polling K}, P s →
      P (driveWaiters visit k rounds pos storage s) := by
  induction rounds with
  | zero => exact fun h => h
  | succ rounds ih =>
    intro pos storage s h
    unfold driveWaiters
    split
    · exact h
    · exact ih (hvisit _ _ h)

def clearWaiters (k : K) : Manager K :=
  m.setHostEntry k { m.hostEntry k with gpuWaiters := [] }

/-- A load has ended: the host entry gets its tier, all waiters are visited, and their
vector is cleared. -/
def finishLoad (k : K) (he : HostEntry) (tier : HostTier)
    (visit : Polling K → PendingGpuChain → Polling K) (s : Polling K) : Polling K :=
  let m := s.1.setHostEntry k { he with tier := tier, nvmeToken := 0 }
  let s := driveWaiters visit k he.gpuWaiters.length 0 he.gpuWaiters (m, s.2)
  (s.1.clearWaiters k, s.2)

def nvmeDone (s : Polling K) (nc : IoCompletion K) : Polling K :=
  match s.1.hostEntries nc.key with
  | none => (s.1, { s.2 with unhandledNvme := s.2.unhandledNvme ++ [nc.key] })
  | some he =>
    if he.tier ≠ .loadingToRam then
      (s.1, { s.2 with unhandledNvme := s.2.unhandledNvme ++ [nc.key] })
    else if nc.success then finishLoad nc.key he .warm (startWaiter nc.key) s
    else finishLoad nc.key he .cold (failWaiter nc.key) s

/-- The entry's data is on the device. -/
def markHot (k : K) (g : ℕ) (ge : GpuEntry) (gs : GpuState K) : Manager K :=
  Manager.setGpuEntry { m with cache := m.cache.commit g (.markAllReady k) gs } k g
    { ge with tier := .hot, transferToken := 0 }

/-- The entries that wait for a slot of the arena are taken off their list and driven
again. -/
def redrivePressured : Manager K :=
  m.slotPressureWaiters.foldl retry { m with slotPressureWaiters := [] }

/-- A copy to the device has ended well: the entry is hot, and the slot of the arena
it has freed is offered to the entries that wait for one.  The expert must be in the
cache. -/
def h2dDone (k : K) (g : ℕ) (ge : GpuEntry) : Option (Manager K × List (LifecycleCompletion K)) :=
  ((m.cache.gpus g).markAllReady k).map fun gs =>
    let r := (m.markHot k g ge gs).completeInterests k g true
    (r.1.redrivePressured, r.2)

/-- A copy to the host has ended: the slot is given up whether it succeeded or not. -/
def d2hDone (k : K) (g : ℕ) (ge : GpuEntry) (success : Bool) :
    Manager K × List (LifecycleCompletion K) :=
  ((m.evictSlot k g).setGpuEntry k g
      { ge with tier := .absent, transferToken := 0, drainCmdSeq := 0 },
    [⟨0, ge.drainCmdSeq, k, g, success, true⟩])

def transferDone (s : Polling K) (xc : TransferCompletion K) : Option (Polling K) :=
  let unhandled : Polling K :=
    (s.1, { s.2 with unhandledTransfers := s.2.unhandledTransfers ++ [(xc.key, xc.gpuIdx)] })
  match s.1.gpuEntries xc.key xc.gpuIdx with
  | none => some unhandled
  | some ge =>
    match xc.direction with
    | .h2d =>
      if ge.tier ≠ .transferring then some unhandled
      else if xc.success then
        (s.1.h2dDone xc.key xc.gpuIdx ge).map fun r => (r.1, report s.2 r.2)
      else
        let m := s.1.setGpuEntry xc.key xc.gpuIdx { ge with transferToken := 0 }
        let r := m.completeInterests xc.key xc.gpuIdx false
        some (r.1, report s.2 r.2)
    | .d2h =>
      if ge.tier ≠ .draining then some unhandled
      else
        let r := s.1.d2hDone xc.key xc.gpuIdx ge xc.success
        some (r.1, report s.2 r.2)

/-- What `poll` starts from: the queued completions and events are returned. -/
def startPoll : Polling K :=
  ({ m with pendingCompletions := [], pendingProgress := [] },
    ⟨m.pendingCompletions, m.pendingProgress, [], []⟩)

def poll (loads : List (ArenaLoadCompletion K)) (nvme : List (IoCompletion K))
    (transfers : List (TransferCompletion K)) : Option (Polling K) :=
  transfers.foldlM transferDone (nvme.foldl nvmeDone (loads.foldl arenaLoadDone m.startPoll))

end Manager

/-! ### Calls -/

/-- A call of the manager. -/
inductive Action (K : Type)
  | ensureResident (key : K) (gpu : ℕ) (zone : CacheZone) (cmdSeq : ℕ)
  | ensureResidents (gpu cmdSeq : ℕ) (reqs : List (K × CacheZone)) (victims : List K)
  | requestEvict (key : K) (gpu : ℕ)
  | requestDrain (key : K) (gpu cmdSeq : ℕ)
  | cancel (token : ℕ)
  | promote (key : K) (gpu : ℕ)
  | demote (key : K) (gpu : ℕ)
  | poll (loads : List (ArenaLoadCompletion K)) (nvme : List (IoCompletion K))
      (transfers : List (TransferCompletion K))

/-- One call: the manager afterwards and, for `poll`, what it returns. -/
def Manager.perform (m : Manager K) : Action K → Option (Manager.Polling K)
  | .ensureResident key gpu zone cmdSeq =>
    some (m.ensureResident key gpu zone cmdSeq, ⟨[], [], [], []⟩)
  | .ensureResidents gpu cmdSeq reqs victims =>
    some ((m.ensureResidents gpu cmdSeq reqs victims).1, ⟨[], [], [], []⟩)
  | .requestEvict key gpu => some ((m.requestEvict key gpu).1, ⟨[], [], [], []⟩)
  | .requestDrain key gpu cmdSeq => some ((m.requestDrain key gpu cmdSeq).1, ⟨[], [], [], []⟩)
  | .cancel token => some (m.cancel token, ⟨[], [], [], []⟩)
  | .promote key gpu => some ((m.promote key gpu).1, ⟨[], [], [], []⟩)
  | .demote key gpu => some ((m.demote key gpu).1, ⟨[], [], [], []⟩)
  | .poll loads nvme transfers => m.poll loads nvme transfers

def Manager.step (m : Manager K) (a : Action K) : Option (Manager K) :=
  (m.perform a).map Prod.fst

end LayerStorm.Daemon
