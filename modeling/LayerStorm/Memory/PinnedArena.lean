import LayerStorm.Memory.NodeArena
import LayerStorm.Lib.Run

/-!
# The pinned expert arena

`PinnedExpertArena` is the set of the per-node arenas with one location index over
them: for every resident key the node that holds it.  A miss is placed by
`reserve_for_fill`: on the computing GPU's own node while that has a free slot, else
on a spill node, else by evicting.  An expert moves between nodes in two phases:
`migrate_begin` pins the source slot and reserves a target slot, and once the bytes
are copied `migrate_commit` makes the target ready, drops the source and flips the
location.

The topology is a parameter: which nodes have an arena, the home node of an expert,
the node of a GPU and the spill candidates, sorted by descending weight.  A key that
stands for "none evicted" is `none` here, and slots are named by their node and index
instead of their address.  The published snapshot of the location index and the trace
sink are left out.
-/

namespace LayerStorm.Memory

variable {K : Type} [DecidableEq K]

/-! ### Data model -/

/-- The topology: the nodes with an arena, the nodes of experts and GPUs, and the spill
candidates with their weights, heaviest first. -/
structure ArenaConfig (K : Type) where
  nodes : Finset ℕ
  expertHomeNode : K → Option ℕ
  gpuNumaNode : ℕ → Option ℕ
  spillOrder : List (ℕ × ℕ)

/-- The per-node arenas, the location index and the round-robin ticks of the spill
nodes. -/
structure PinnedArena (K : Type) where
  arenas : ℕ → NodeArena K
  location : K → Option ℕ
  rrCounter : ℕ → ℕ

def PinnedArena.init (numSlots : ℕ → ℕ) : PinnedArena K :=
  ⟨fun n => NodeArena.init n (numSlots n), fun _ => none, fun _ => 0⟩

namespace ArenaConfig

variable (cfg : ArenaConfig K)

variable (s : PinnedArena K)

def nodeArena (n : ℕ) : Option (NodeArena K) :=
  if n ∈ cfg.nodes then some (s.arenas n) else none

/-- `arena_for`: the arena of an expert's home node. -/
def arenaFor (key : K) : Option (NodeArena K) :=
  (cfg.expertHomeNode key).bind (cfg.nodeArena s)

/-- `arena_for_gpu`: the arena of a GPU's node. -/
def arenaForGpu (gpu : ℕ) : Option (NodeArena K) :=
  (cfg.gpuNumaNode gpu).bind (cfg.nodeArena s)

/-- `located_arena`: the arena that holds a key. -/
def locatedArena (key : K) : Option (NodeArena K) :=
  (s.location key).bind (cfg.nodeArena s)

/-- The arena an operation on a key goes to: the one that holds it, else that of the
GPU if one is given, else that of its home node. -/
def routedArena (key : K) (gpu : Option ℕ) : Option (NodeArena K) :=
  match cfg.locatedArena s key with
  | some a => some a
  | none =>
    match gpu with
    | some g => cfg.arenaForGpu s g
    | none => cfg.arenaFor s key

/-- `resolve`: the node and the slot of a key whose data is ready. -/
def resolve (key : K) : Option (ℕ × ℕ) :=
  (cfg.routedArena s key none).bind fun a => (a.resolve key).map fun i => (a.node, i)

def isReady (key : K) : Bool :=
  (cfg.routedArena s key none).any fun a => a.isReady key

end ArenaConfig

namespace PinnedArena

variable (s : PinnedArena K)

def setArena (a : NodeArena K) : PinnedArena K :=
  { s with arenas := Function.update s.arenas a.node a }

def setLocation (key : K) (n : Option ℕ) : PinnedArena K :=
  { s with location := Function.update s.location key n }

/-- The location index after a reserve that evicted a key. -/
def dropEvicted (evicted : Option K) : PinnedArena K :=
  match evicted with
  | some old => s.setLocation old none
  | none => s

end PinnedArena

namespace ArenaConfig

variable (cfg : ArenaConfig K)

/-! ### Placement -/

variable (s : PinnedArena K)

/-- The order within a group of spill nodes of equal weight: fewest occupied first, then
by round-robin tick, then by node. -/
def spillBefore (m n : ℕ) : Bool :=
  if (s.arenas m).occupied ≠ (s.arenas n).occupied then
    (s.arenas m).occupied < (s.arenas n).occupied
  else if s.rrCounter m ≠ s.rrCounter n then s.rrCounter m < s.rrCounter n
  else m ≤ n

/-- `spill_candidates_in_order`: the spill nodes with an arena other than `exclude`, group
by group of equal weight; the tick of each is advanced. -/
def spillCandidatesInOrder (exclude : Option ℕ) : List ℕ × PinnedArena K :=
  let groups := (cfg.spillOrder.splitBy fun p q => p.2 == q.2).map fun g =>
    ((g.map Prod.fst).filter fun n => some n ≠ exclude ∧ n ∈ cfg.nodes).mergeSort (spillBefore s)
  (groups.flatten, { s with rrCounter := fun n => s.rrCounter n + groups.flatten.count n })

/-- Reserving on one node for a key that is not located: the evicted key loses its
location and the key gets this one. -/
def placeOn (key : K) (n : ℕ) : Option (PinnedArena K × (ℕ × ℕ) × List (Call K)) :=
  ((s.arenas n).reserve key).map fun r =>
    (((s.setArena r.arena).dropEvicted r.evicted).setLocation key (some n), (n, r.slot), r.calls)

/-- The candidate loops of `reserve_for_fill`: the first node that `ok` admits and that
has a slot to give. -/
def placeFirst (ok : NodeArena K → Bool) (s : PinnedArena K) (key : K) :
    List ℕ → Option (PinnedArena K × (ℕ × ℕ) × List (Call K))
  | [] => none
  | n :: rest =>
    if ok (s.arenas n) then
      match placeOn s key n with
      | some r => some r
      | none => placeFirst ok s key rest
    else placeFirst ok s key rest

/-- Reserving on the node that holds a key already: nothing moves. -/
def reserveLocated (key : K) (a : NodeArena K) : PinnedArena K × Option (ℕ × ℕ) × List (Call K) :=
  match a.reserve key with
  | some r => (s.setArena r.arena, some (a.node, r.slot), r.calls)
  | none => (s, none, [])

/-- `reserve`: placement on the node that holds the key, else on its home node. -/
def reserve (key : K) : PinnedArena K × Option (ℕ × ℕ) × List (Call K) :=
  match cfg.routedArena s key none with
  | none => (s, none, [])
  | some a =>
    match placeOn s key a.node with
    | some (s', p, calls) => (s', some p, calls)
    | none => (s, none, [])

/-- The candidates of `reserve_for_fill`: the GPU's own node, then the spill nodes; if
there are none, the home node. -/
def fillCandidates (key : K) (gpu : Option ℕ) : List ℕ × PinnedArena K :=
  let localNode := gpu.bind cfg.gpuNumaNode
  let (spill, s) := cfg.spillCandidatesInOrder s localNode
  let cands := (localNode.toList.filter fun n => n ∈ cfg.nodes) ++ spill
  let cands :=
    if cands = [] then (cfg.expertHomeNode key).toList.filter fun n => n ∈ cfg.nodes else cands
  (cands, s)

/-- `reserve_for_fill`: the key's own slot if it is located; else the first candidate with
a free slot; else, unless only extending is allowed, the first candidate that can evict. -/
def reserveForFill (key : K) (gpu : Option ℕ) (extendOnly : Bool) :
    PinnedArena K × Option (ℕ × ℕ) × List (Call K) :=
  match cfg.locatedArena s key with
  | some a => reserveLocated s key a
  | none =>
    let (cands, s) := cfg.fillCandidates s key gpu
    match placeFirst (fun a => a.hasFreeSlot) s key cands with
    | some (s', p, calls) => (s', some p, calls)
    | none =>
      if extendOnly then (s, none, [])
      else
        match placeFirst (fun _ => true) s key cands with
        | some (s', p, calls) => (s', some p, calls)
        | none => (s, none, [])

/-- `reserve_on_node`: on one given node, only if it has a free slot. -/
def reserveOnNode (key : K) (n : ℕ) : PinnedArena K × Option (ℕ × ℕ) × List (Call K) :=
  match cfg.locatedArena s key with
  | some a => reserveLocated s key a
  | none =>
    if n ∈ cfg.nodes ∧ (s.arenas n).hasFreeSlot then
      match placeOn s key n with
      | some (s', p, calls) => (s', some p, calls)
      | none => (s, none, [])
    else (s, none, [])

/-! ### State of a slot -/

def onRouted (key : K) (gpu : Option ℕ)
    (f : NodeArena K → NodeArena K × List (Call K)) : PinnedArena K × List (Call K) :=
  match cfg.routedArena s key gpu with
  | none => (s, [])
  | some a => (s.setArena (f a).1, (f a).2)

def markLoading (key : K) (gpu : Option ℕ) : PinnedArena K × List (Call K) :=
  cfg.onRouted s key gpu fun a => a.markLoading key

def clearLoading (key : K) (gpu : Option ℕ) : PinnedArena K × List (Call K) :=
  cfg.onRouted s key gpu fun a => a.clearLoading key

def markReady (key : K) (gpu : Option ℕ) : PinnedArena K × List (Call K) :=
  cfg.onRouted s key gpu fun a => a.markReady key

/-- `touch`, on the arena that holds the key. -/
def touch (key : K) : PinnedArena K :=
  match cfg.locatedArena s key with
  | none => s
  | some a => s.setArena (a.touch key)

def acquireInflight (key : K) : PinnedArena K :=
  (cfg.onRouted s key none fun a => (a.acquireInflight key, [])).1

def releaseInflight (key : K) : PinnedArena K :=
  (cfg.onRouted s key none fun a => (a.releaseInflight key, [])).1

/-- `evict_key`; refused for a key that is not located, pinned or loading. -/
def evictKey (key : K) : PinnedArena K × Bool :=
  match cfg.locatedArena s key with
  | none => (s, false)
  | some a =>
    match a.evict key with
    | none => (s, false)
    | some a' => ((s.setArena a').setLocation key none, true)

/-- `adopt_ready`: occupy a slot of a node for a key that is resident nowhere. -/
def adoptReady (key : K) (n i : ℕ) : PinnedArena K × Bool :=
  match cfg.nodeArena s n with
  | none => (s, false)
  | some a =>
    if (s.location key).isSome then (s, false)
    else
      match a.adoptSlot key i with
      | none => (s, false)
      | some a' => ((s.setArena a').setLocation key (some n), true)

/-- `try_adopt`, given the slot that the persistence layer finds for the key. -/
def tryAdopt (key : K) (hit : Option (ℕ × ℕ)) : PinnedArena K × Bool :=
  match hit with
  | none => (s, false)
  | some (n, i) =>
    match cfg.nodeArena s n with
    | none => (s, false)
    | some a => if a.slotOccupied i then (s, false) else cfg.adoptReady s key n i

/-! ### Migration -/

/-- `migrate_begin`: pin the source slot, reserve a free slot of the target and mark it
loading. -/
def migrateBegin (key : K) (target : ℕ) : PinnedArena K × Option (ℕ × ℕ) × List (Call K) :=
  match cfg.locatedArena s key with
  | none => (s, none, [])
  | some src =>
    if src.node = target ∨ src.isReady key = false then (s, none, [])
    else
      match cfg.nodeArena s target with
      | none => (s, none, [])
      | some tgt =>
        if tgt.hasFreeSlot = false ∨ tgt.resident key then (s, none, [])
        else
          let s := s.setArena (src.acquireInflight key)
          match tgt.reserve key with
          | none => (s.setArena ((src.acquireInflight key).releaseInflight key), none, [])
          | some r =>
            let marked := r.arena.markLoading key
            ((s.setArena marked.1).dropEvicted r.evicted, some (target, r.slot),
              r.calls ++ marked.2)

/-- The outcome of `migrate_commit`. -/
inductive MigrateCommit
  | committed
  | retry
  deriving DecidableEq, Repr

/-- `migrate_commit`: once nobody but the migration pins the source, make the target
ready, give the source slot up and flip the location. -/
def migrateCommit (key : K) (target : ℕ) : PinnedArena K × MigrateCommit × List (Call K) :=
  match cfg.locatedArena s key, cfg.nodeArena s target with
  | some src, some tgt =>
    if tgt.resident key = false then (s, .retry, [])
    else if 1 < src.inflight key then (s, .retry, [])
    else
      let ready := tgt.markReady key
      let s := s.setArena ready.1
      -- the source may be the target itself: it is read again
      let src := (s.arenas src.node).releaseInflight key
      let s := s.setArena ((src.evict key).getD src)
      (s.setLocation key (some target), .committed, ready.2)
  | _, _ => (s, .retry, [])

/-- The first half of `migrate_abort`: give the target slot up if it is not ready. -/
def abortTarget (key : K) (target : ℕ) : PinnedArena K × List (Call K) :=
  match cfg.nodeArena s target with
  | none => (s, [])
  | some tgt =>
    if tgt.resident key ∧ tgt.isReady key = false then
      let cleared := tgt.clearLoading key
      (s.setArena ((cleared.1.evict key).getD cleared.1), cleared.2)
    else (s, [])

/-- The second half of `migrate_abort`: take the pin off the source. -/
def unpinSource (key : K) : PinnedArena K :=
  match cfg.locatedArena s key with
  | none => s
  | some src => s.setArena (src.releaseInflight key)

def migrateAbort (key : K) (target : ℕ) : PinnedArena K × List (Call K) :=
  let aborted := cfg.abortTarget s key target
  (cfg.unpinSource aborted.1 key, aborted.2)

end ArenaConfig

/-! ### The interface -/

inductive ArenaOp (K : Type)
  | reserve (key : K)
  | reserveForFill (key : K) (gpu : Option ℕ) (extendOnly : Bool)
  | reserveOnNode (key : K) (node : ℕ)
  | markLoading (key : K) (gpu : Option ℕ)
  | clearLoading (key : K) (gpu : Option ℕ)
  | markReady (key : K) (gpu : Option ℕ)
  | touch (key : K)
  | acquireInflight (key : K)
  | releaseInflight (key : K)
  | evictKey (key : K)
  | adoptReady (key : K) (node slot : ℕ)
  | tryAdopt (key : K) (hit : Option (ℕ × ℕ))
  | migrateBegin (key : K) (target : ℕ)
  | migrateCommit (key : K) (target : ℕ)
  | migrateAbort (key : K) (target : ℕ)
  deriving DecidableEq

/-- One operation: the state afterwards and the calls made. -/
def ArenaConfig.perform (cfg : ArenaConfig K) (s : PinnedArena K) :
    ArenaOp K → PinnedArena K × List (Call K)
  | .reserve key => let r := cfg.reserve s key; (r.1, r.2.2)
  | .reserveForFill key gpu extendOnly =>
    let r := cfg.reserveForFill s key gpu extendOnly; (r.1, r.2.2)
  | .reserveOnNode key node => let r := cfg.reserveOnNode s key node; (r.1, r.2.2)
  | .markLoading key gpu => cfg.markLoading s key gpu
  | .clearLoading key gpu => cfg.clearLoading s key gpu
  | .markReady key gpu => cfg.markReady s key gpu
  | .touch key => (cfg.touch s key, [])
  | .acquireInflight key => (cfg.acquireInflight s key, [])
  | .releaseInflight key => (cfg.releaseInflight s key, [])
  | .evictKey key => ((cfg.evictKey s key).1, [])
  | .adoptReady key node slot => ((cfg.adoptReady s key node slot).1, [])
  | .tryAdopt key hit => ((cfg.tryAdopt s key hit).1, [])
  | .migrateBegin key target => let r := cfg.migrateBegin s key target; (r.1, r.2.2)
  | .migrateCommit key target => let r := cfg.migrateCommit s key target; (r.1, r.2.2)
  | .migrateAbort key target => cfg.migrateAbort s key target

/-- The arena as a transition system. -/
def ArenaConfig.step (cfg : ArenaConfig K) (s : PinnedArena K) (op : ArenaOp K) :
    Option (PinnedArena K) :=
  some (cfg.perform s op).1

end LayerStorm.Memory
