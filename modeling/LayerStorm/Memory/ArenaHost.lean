import LayerStorm.Memory.ArenaCache
import LayerStorm.Memory.ArenaLocation

/-!
# The arena with its loads, migrations and crashes

The arena together with everything that writes into its slots.  A *job* writes the
bytes of one expert into one slot, a byte at a time and in any order: a load reads
them from the expert's file, a relocation copies them from the slot that holds the
expert.  A runtime miss reserves a slot, marks it loading and submits a job; the
synchronous fallback and the boot-time preload fill a slot that is not marked, and
nothing that could evict runs until they are done.  When a load has written all bytes
its slot becomes ready, when a relocation has the migrator commits it.

The process may stop at any time.  What it has stored so far stays, everything else is
lost, and the next process adopts what the record table vouches for.
-/

namespace LayerStorm.Memory

open Lib

variable {β : Type} {size : ℕ}

/-! ### Data model -/

/-- A job that fills `slot` of `node` with the bytes of `key`, from its file or, for a
relocation, from another slot; `written` are the offsets done so far. -/
structure Job (size : ℕ) where
  key : ExpertKey
  node : ℕ
  slot : ℕ
  source : Option (ℕ × ℕ)
  written : Finset (Fin size)
  deriving DecidableEq

/-- A process and the shared memory: the arena, the cache's index, the jobs and the file
identities die with the process, the store survives it. -/
structure Host (β : Type) (size : ℕ) where
  arena : PinnedArena ExpertKey
  index : ℕ → Option (ℕ × ℕ)
  jobs : List (Job size)
  idents : List FileIdentity
  store : Store β size

/-- The topology, the number of slots of each node with the order of the record table, and
the persistence layer. -/
structure HostConfig (β : Type) (size : ℕ) where
  arena : ArenaConfig ExpertKey
  numSlots : ℕ → ℕ
  tableNodes : List ℕ
  cache : CacheConfig β size

/-- How a miss is filled: by the loader, on the spot because there is none, or on the spot
because the loader declined. -/
inductive FillMode
  | async
  | sync
  | declined
  deriving DecidableEq, Repr

/-- An operation of the process. -/
inductive HostOp (size : ℕ)
  | request (key : ExpertKey) (gpu : Option ℕ) (mode : FillMode)
  | preload (key : ExpertKey) (planned gpu : Option ℕ)
  | write (job : ℕ) (offset : Fin size)
  | finish (job : ℕ) (success : Bool)
  | release (key : ExpertKey)
  | evictKey (key : ExpertKey)
  | relocate (key : ExpertKey) (target : ℕ)
  | commit (job : ℕ)
  | restart (idents : List FileIdentity) (numLayers numExperts : ℕ)

namespace HostConfig

variable (cfg : HostConfig β size)

/-- All slots, in the order of the record table. -/
def slots : List (ℕ × ℕ) :=
  cfg.tableNodes.flatMap fun n => (List.range (cfg.numSlots n)).map fun i => (n, i)

/-- The state of a fresh process over a store. -/
def boot (store : Store β size) (idents : List FileIdentity) : Host β size :=
  ⟨PinnedArena.init cfg.numSlots, fun _ => none, [], idents, store⟩

variable (h : Host β size) (j : Job size) (key : ExpertKey)

/-- Is every job's slot marked loading? -/
def quiet : Bool :=
  h.jobs.all fun j => (h.arena.arenas j.node).isLoading j.key

/-- The bytes a job writes. -/
def jobData : Fin size → β :=
  match j.source with
  | none => cfg.cache.fileBytes (identOf h.idents j.key) j.key
  | some (m, i) => h.store.mem m i

/-! ### Operations -/

/-- The arena moves on and makes calls: the index and the store follow. -/
def after (arena : PinnedArena ExpertKey) (calls : List (Call ExpertKey))
    (jobs : List (Job size)) : Host β size × List (PWrite β size) :=
  let ws := cfg.cache.callsWrites h.idents h.store calls
  ({ h with
      arena := arena
      index := cfg.cache.callsIndex h.idents h.store h.index calls
      jobs := jobs
      store := h.store.writes ws }, ws)

/-- A resident expert is handed out for a copy to a GPU. -/
def handOut (arena : PinnedArena ExpertKey) (key : ExpertKey) :
    Host β size × List (PWrite β size) :=
  cfg.after h (cfg.arena.acquireInflight (cfg.arena.touch arena key) key) [] h.jobs

/-- A miss: reserve a slot and start to fill it. -/
def fill (gpu : Option ℕ) (mode : FillMode) : Host β size × List (PWrite β size) :=
  match cfg.arena.reserveForFill h.arena key gpu false with
  | (arena, none, calls) => cfg.after h arena calls h.jobs
  | (arena, some (n, i), calls) =>
    let jobs := h.jobs ++ [⟨key, n, i, none, ∅⟩]
    match mode with
    | .sync => cfg.after h arena calls jobs
    | .async =>
      let marked := cfg.arena.markLoading arena key none
      cfg.after h marked.1 (calls ++ marked.2) jobs
    | .declined =>
      let marked := cfg.arena.markLoading arena key none
      let cleared := cfg.arena.clearLoading marked.1 key none
      cfg.after h cleared.1 (calls ++ marked.2 ++ cleared.2) jobs

/-- `resolve_expert_host_source`, the arena's part: hand out what is ready, wait for what is
loading, adopt what a free slot still holds, else fill. -/
def request (gpu : Option ℕ) (mode : FillMode) : Host β size × List (PWrite β size) :=
  match cfg.arena.locatedArena h.arena key with
  | some a =>
    if a.isReady key then cfg.handOut h h.arena key
    else if a.isLoading key then (h, [])
    else cfg.fill h key gpu mode
  | none =>
    match cfg.arena.tryAdopt h.arena key (cfg.cache.lookup h.idents h.store h.index key) with
    | (arena, true) => cfg.handOut h arena key
    | (_, false) => cfg.fill h key gpu mode

/-- The jobs after a reserve for a load: one more if a slot was given. -/
def submitted : Option (ℕ × ℕ) → List (Job size)
  | none => h.jobs
  | some (n, i) => h.jobs ++ [⟨key, n, i, none, ∅⟩]

/-- One expert of `preload`: unless it is ready, reserve a slot on the planned node, else on
any node, without evicting, and start to fill it. -/
def preload (planned gpu : Option ℕ) : Host β size × List (PWrite β size) :=
  if cfg.arena.isReady h.arena key then (h, [])
  else
    let placed := planned.elim (h.arena, none, []) (cfg.arena.reserveOnNode h.arena key)
    if placed.2.1.isSome then cfg.after h placed.1 placed.2.2 (submitted h key placed.2.1)
    else
      let extended := cfg.arena.reserveForFill placed.1 key gpu true
      cfg.after h extended.1 (placed.2.2 ++ extended.2.2) (submitted h key extended.2.1)

def writeByte (idx : ℕ) (o : Fin size) : Host β size × List (PWrite β size) :=
  let ws := [PWrite.byte j.node j.slot o (cfg.jobData h j o)]
  ({ h with
      jobs := h.jobs.set idx { j with written := insert o j.written }
      store := h.store.writes ws }, ws)

/-- A load is done: its slot becomes ready, or after a failure is loadable again. -/
def finish (idx : ℕ) (success : Bool) : Host β size × List (PWrite β size) :=
  if success then
    let marked := cfg.arena.markReady h.arena j.key none
    cfg.after h marked.1 marked.2 (h.jobs.eraseIdx idx)
  else if (h.arena.arenas j.node).isLoading j.key then
    let cleared := cfg.arena.clearLoading h.arena j.key none
    cfg.after h cleared.1 cleared.2 (h.jobs.eraseIdx idx)
  else cfg.after h h.arena [] (h.jobs.eraseIdx idx)

/-- `begin_relocation`: begin the migration and submit the copy from the slot that the key
resolves to. -/
def relocate (target : ℕ) : Host β size × List (PWrite β size) :=
  match cfg.arena.migrateBegin h.arena key target with
  | (arena, none, calls) => cfg.after h arena calls h.jobs
  | (arena, some (n, i), calls) =>
    match cfg.arena.resolve arena key with
    | some src => cfg.after h arena calls (h.jobs ++ [⟨key, n, i, some src, ∅⟩])
    | none =>
      let aborted := cfg.arena.migrateAbort arena key target
      cfg.after h aborted.1 (calls ++ aborted.2) h.jobs

/-- A relocation whose copy is done: commit it, or keep it for the next try. -/
def commit (idx : ℕ) : Host β size × List (PWrite β size) :=
  match cfg.arena.migrateCommit h.arena j.key j.node with
  | (arena, .committed, calls) => cfg.after h arena calls (h.jobs.eraseIdx idx)
  | (arena, .retry, calls) => cfg.after h arena calls h.jobs

/-- A process attaches to the store: scan the records, adopt the slots found and reset all
other records. -/
def restart (store : Store β size) (idents : List FileIdentity) (numLayers numExperts : ℕ) :
    Host β size × List (PWrite β size) :=
  let scan := cfg.cache.scanAdoptable idents numLayers numExperts store cfg.slots
  let ws := scan.reset.map fun p => PWrite.state p.1 p.2 .empty
  let arena := scan.adopted.foldl (fun a p => (cfg.arena.adoptReady a p.2.2 p.1 p.2.1).1)
    (PinnedArena.init cfg.numSlots)
  (⟨arena, scan.index, [], idents, store.writes ws⟩, ws)

/-- One operation: the state afterwards and the writes it did, or `none` if it cannot take
place now.  While a slot that is not marked is being filled, only the fills go on. -/
def perform : HostOp size → Option (Host β size × List (PWrite β size))
  | .request key gpu mode => if quiet h then some (cfg.request h key gpu mode) else none
  | .preload key planned gpu =>
    if h.jobs.any fun j => j.key = key then none else some (cfg.preload h key planned gpu)
  | .write idx o => (h.jobs[idx]?).map fun j => cfg.writeByte h j idx o
  | .finish idx success =>
    (h.jobs[idx]?).bind fun j =>
      if j.source = none ∧ (success → j.written = Finset.univ) then
        some (cfg.finish h j idx success)
      else none
  | .release key =>
    if cfg.arena.Contract h.arena (.releaseInflight key) then
      some (cfg.after h (cfg.arena.releaseInflight h.arena key) [] h.jobs)
    else none
  | .evictKey key =>
    if quiet h then some (cfg.after h (cfg.arena.evictKey h.arena key).1 [] h.jobs) else none
  | .relocate key target => if quiet h then some (cfg.relocate h key target) else none
  | .commit idx =>
    (h.jobs[idx]?).bind fun j =>
      if quiet h ∧ j.source ≠ none ∧ j.written = Finset.univ then some (cfg.commit h j idx)
      else none
  | .restart idents numLayers numExperts =>
    some (cfg.restart h.store idents numLayers numExperts)

/-! ### Crashes -/

/-- Performing an operation, or stopping after the first `done` of its writes. -/
inductive Event (size : ℕ)
  | op (op : HostOp size)
  | crash (op : HostOp size) (done : ℕ)

/-- The event commits a relocation. -/
def Event.Commits : Event size → Prop
  | .op done | .crash done _ => ∃ idx, done = .commit idx

/-- The transition system, with the log of all persistent writes: after a crash there is a
process that has not attached yet. -/
def step (s : Host β size × List (PWrite β size)) :
    Event size → Option (Host β size × List (PWrite β size))
  | .op op => (cfg.perform s.1 op).map fun r => (r.1, s.2 ++ r.2)
  | .crash op done =>
    (cfg.perform s.1 op).map fun r =>
      (cfg.boot (s.1.store.writes (r.2.take done)) s.1.idents, s.2 ++ r.2.take done)

/-- The first process over shared memory that no process has used: all records are empty. -/
def init (mem : ℕ → ℕ → Fin size → β) (idents : List FileIdentity) :
    Host β size × List (PWrite β size) :=
  (cfg.boot (Store.fresh mem) idents, [])

/-! ### What a fill leaves behind -/

/-- The contents that completed fills for a key leave in a slot: the file's bytes after the
hook, and, if experts have `moved`, what a relocation makes of such contents. -/
inductive Final (moved : Prop) (ident : FileIdentity) (key : ExpertKey) : (Fin size → β) → Prop
  /-- A load. -/
  | load : Final moved ident key (cfg.cache.filled key (cfg.cache.fileBytes ident key))
  /-- A relocation: the copy passes through the hook again. -/
  | move {c : Fin size → β} :
    moved → Final moved ident key c → Final moved ident key (cfg.cache.filled key c)

end HostConfig

end LayerStorm.Memory
