import Mathlib
import LayerStorm.Lib.Run

/-!
# The prefix cache of the orchestrator

`PrefixCache` keeps frozen holder sequences of prompts that were prefilled before, as a
radix tree: the parent of an entry is the longest registered proper prefix of its
tokens.  A later request that starts with a registered prefix forks from the holder.
Entries are evicted when there are too many, when their unique tokens exceed the budget
and when the engine reports an exhausted pool; three orders say which ones may go and
which goes first.

Entries are objects with an identity, that is a number, and a heap holds their fields.
The bridge to the engine is an argument of the operations that fork: what it answers to
each attempt.  The sequences passed to `free_sequence` are logged.  Wall-clock stamps,
the spill flags and the hibernation of a fresh holder, whose failure is ignored, are left
out.
-/

namespace LayerStorm.Orchestrator

open Lib

variable {τ : Type} [DecidableEq τ]

/-! ### Data model -/

/-- `_PrefixEntry`: a node of the tree. -/
structure PrefixEntry (τ : Type) where
  tokens : List τ
  seqId : ℕ
  lastUsed : ℕ
  parent : Option ℕ
  children : List ℕ
  kdaCkpts : List ℕ
  kdaCkptBytes : ℕ

/-- `PrefixCacheConfig`, with the grid of the superchunk path. -/
structure PrefixCacheConfig where
  maxCachedTokens : ℕ
  maxEntries : ℕ
  maxEntryTokens : ℕ
  scGrid : ℕ

/-- Why `register` skipped a prefix. -/
inductive SkipReason
  | empty
  | duplicate (len : ℕ)
  | overEntryCap (len cap : ℕ)
  | overBudget (len budget : ℕ)
  | forkFailed
  deriving DecidableEq, Repr

/-- The state of the cache: the objects, the live ones in order of registration, those
without a parent, the counters, and the log of the sequences that were freed. -/
structure PrefixCache (τ : Type) where
  heap : ℕ → PrefixEntry τ
  next : ℕ
  entries : List ℕ
  roots : List ℕ
  clock : ℕ
  hits : ℕ
  misses : ℕ
  evictions : ℕ
  kdaCkptBytes : ℕ
  kdaCkptHits : ℕ
  lastKdaLcp : ℕ
  lastSkip : Option SkipReason
  freed : List ℕ

def PrefixCache.init : PrefixCache τ :=
  ⟨fun _ => ⟨[], 0, 0, none, [], [], 0⟩, 0, [], [], 0, 0, 0, 0, 0, 0, 0, none, []⟩

/-- A call of the bridge's `fork_sequence`. -/
structure ForkCall where
  src : ℕ
  dst : ℕ
  frozen : Bool
  prefixLen : ℕ
  reserveTokens : ℕ

/-- What the bridge answers: the reservation granted, an exhausted pool, or another error. -/
inductive ForkAnswer
  | granted (tokens : ℕ)
  | exhausted
  | failed
  deriving DecidableEq, Repr

namespace PrefixCache

/-! ### The tree -/

variable (s : PrefixCache τ)

def tokens (e : ℕ) : List τ := (s.heap e).tokens

/-- Rewriting the fields of an object. -/
def modify (e : ℕ) (f : PrefixEntry τ → PrefixEntry τ) : PrefixCache τ :=
  { s with heap := Function.update s.heap e (f (s.heap e)) }

/-- The children of an entry, or the roots. -/
def siblings : Option ℕ → List ℕ
  | none => s.roots
  | some p => (s.heap p).children

/-- Replacing the children of an entry, or the roots. -/
def setSiblings (l : List ℕ) : Option ℕ → PrefixCache τ
  | none => { s with roots := l }
  | some p => s.modify p fun n => { n with children := l }

/-- The loop of `_descend`: step to the first candidate that is a prefix of the tokens and
not too long. -/
def descendFrom (s : PrefixCache τ) (tokens : List τ) (maxLen : ℕ) : ℕ → Option ℕ → Option ℕ
  | 0, best => best
  | fuel + 1, best =>
    match (s.siblings best).find? fun c =>
      (s.tokens c).length ≤ maxLen ∧ s.tokens c <+: tokens with
    | none => best
    | some c => descendFrom s tokens maxLen fuel (some c)

/-- `_descend`: the deepest registered prefix of length at most `maxLen`. -/
def descend (tokens : List τ) (maxLen : ℕ) : Option ℕ :=
  s.descendFrom tokens maxLen (tokens.length + 2) none

/-- `_attach`: link an object that is not in the tree under its longest registered proper
prefix, and below it the siblings that extend it. -/
def attach (e : ℕ) : PrefixCache τ :=
  let parent := s.descend (s.tokens e) ((s.tokens e).length - 1)
  let siblings := s.siblings parent
  let moved := siblings.filter fun c => s.tokens e <+: s.tokens c
  let s := moved.foldl (fun s c => s.modify c fun n => { n with parent := some e }) s
  let s := s.modify e fun n => { n with parent := parent, children := n.children ++ moved }
  let s := s.setSiblings (siblings.diff moved ++ [e]) parent
  { s with entries := s.entries ++ [e] }

/-- `_detach`: unlink an entry; its children go to its parent. -/
def detach (e : ℕ) : PrefixCache τ :=
  let parent := (s.heap e).parent
  let children := (s.heap e).children
  let siblings := (s.siblings parent).erase e
  let s := children.foldl (fun s c => s.modify c fun n => { n with parent := parent }) s
  let s := s.setSiblings (siblings ++ children) parent
  let s := s.modify e fun n => { n with parent := none, children := [] }
  { s with entries := s.entries.erase e }

/-- The length of the parent of an entry, zero for a root. -/
def parentLen (e : ℕ) : ℕ :=
  match (s.heap e).parent with
  | none => 0
  | some p => (s.tokens p).length

/-- `total_unique_tokens`: every entry counts with the tokens beyond its parent. -/
def totalUniqueTokens : ℤ :=
  (s.entries.map fun e => ((s.tokens e).length : ℤ) - s.parentLen e).sum

/-! ### Evictions -/

/-- `_free_holder`: settle the checkpoint bytes and free the sequence. -/
def freeHolder (e : ℕ) : PrefixCache τ :=
  let bytes := (s.heap e).kdaCkptBytes
  let freed := s.freed ++ [(s.heap e).seqId]
  if bytes ≠ 0 then
    { s.modify e fun n => { n with kdaCkpts := [], kdaCkptBytes := 0 } with
      evictions := s.evictions + 1, kdaCkptBytes := s.kdaCkptBytes - bytes, freed := freed }
  else { s with evictions := s.evictions + 1, freed := freed }

def evict (e : ℕ) : PrefixCache τ := (s.detach e).freeHolder e

/-- Tuples of integers compare lexicographically. -/
def keyLe : List ℤ → List ℤ → Bool
  | a :: as, b :: bs => a < b || (a == b && keyLe as bs)
  | [], _ => true
  | _ :: _, [] => false

/-- `sorted` with a key, stable. -/
def sortedBy (key : ℕ → List ℤ) (l : List ℕ) : List ℕ :=
  l.insertionSort fun a b => keyLe (key a) (key b) = true

def isLeaf (e : ℕ) : Bool := (s.heap e).children.isEmpty

/-- `_victim_order`: the leaves, the least recently used first, then the deepest. -/
def victimOrder : List ℕ :=
  sortedBy (fun e => [(s.heap e).lastUsed, -((s.tokens e).length : ℤ)]) (s.entries.filter s.isLeaf)

/-- `_slot_victim_order`: the leaves and the entries with a single child. -/
def slotVictimOrder : List ℕ :=
  sortedBy (fun e => [(s.heap e).lastUsed, if s.isLeaf e then 1 else 0,
      if s.isLeaf e then -((s.tokens e).length : ℤ) else (s.tokens e).length])
    (s.entries.filter fun e => (s.heap e).children.length ≤ 1)

/-- The order of the last resort in `_evict_one`: every entry. -/
def fallbackOrder : List ℕ :=
  sortedBy (fun e => [(s.heap e).lastUsed, -((s.tokens e).length : ℤ)]) s.entries

end PrefixCache

namespace PrefixCacheConfig

variable (cfg : PrefixCacheConfig)

variable (s : PrefixCache τ)

/-- `_non_grid_interior`: an extended entry whose length is off the grid. -/
def nonGridInterior (e : ℕ) : Bool :=
  0 < cfg.scGrid ∧ s.isLeaf e = false ∧ (s.tokens e).length % cfg.scGrid ≠ 0

/-- `_pool_victim_order`: the leaves and the extended entries off the grid. -/
def poolVictimOrder : List ℕ :=
  PrefixCache.sortedBy (fun e => [(s.heap e).lastUsed, if s.isLeaf e then 0 else 1,
      -((s.tokens e).length : ℤ)])
    (s.entries.filter fun e => s.isLeaf e || cfg.nonGridInterior s e)

/-- `_evict_one`: the first victim that is not protected, else any entry that is not. -/
def evictOne (protect : Option ℕ) : Option (PrefixCache τ) :=
  match (cfg.poolVictimOrder s).find? fun e => some e ≠ protect with
  | some e => some (s.evict e)
  | none => (s.fallbackOrder.find? fun e => some e ≠ protect).map s.evict

/-- Are there too many entries? -/
def overSlots : Bool := cfg.maxEntries < s.entries.length

/-- Are there too many tokens? -/
def overBytes : Bool := cfg.maxCachedTokens < s.totalUniqueTokens

/-- The victim of one round of `_evict_over_budget`. -/
def budgetVictim (protect : Option ℕ) : Option ℕ :=
  if cfg.overSlots s then s.slotVictimOrder.find? fun e => some e ≠ protect
  else if cfg.overBytes s then s.victimOrder.find? fun e => some e ≠ protect
  else none

/-- `_evict_over_budget`: one victim per round, while there is one. -/
def evictOverBudget (protect : Option ℕ) : ℕ → PrefixCache τ → PrefixCache τ
  | 0, s => s
  | fuel + 1, s =>
    match cfg.budgetVictim s protect with
    | none => s
    | some e => evictOverBudget protect fuel (s.evict e)

/-- The outcome of `_fork_with_evict_retry`. -/
inductive ForkResult
  | granted (tokens : ℕ)
  | exhausted
  | raised
  deriving DecidableEq, Repr

/-- `_fork_with_evict_retry`: retry after each eviction while the pool is exhausted. -/
def forkWithEvictRetry (protect : Option ℕ) (call : ForkCall) :
    ℕ → (ℕ → ForkCall → ForkAnswer) → PrefixCache τ → PrefixCache τ × ForkResult
  | 0, _, s => (s, .exhausted)
  | fuel + 1, bridge, s =>
    match bridge 0 call with
    | .granted n => (s, .granted n)
    | .failed => (s, .raised)
    | .exhausted =>
      match cfg.evictOne s protect with
      | none => (s, .exhausted)
      | some s' => forkWithEvictRetry protect call fuel (fun i => bridge (i + 1)) s'

end PrefixCacheConfig

namespace PrefixCache

/-! ### Lookups -/

/-- Touch an entry and its ancestors. -/
def touchPath (stamp : ℕ) : ℕ → Option ℕ → PrefixCache τ → PrefixCache τ
  | 0, _, s | _ + 1, none, s => s
  | fuel + 1, some e, s =>
    touchPath stamp fuel (s.heap e).parent (s.modify e fun n => { n with lastUsed := stamp })

variable (s : PrefixCache τ)

/-- A hit: the entry and its ancestors get a fresh stamp. -/
def touch (e : ℕ) : PrefixCache τ :=
  touchPath (s.clock + 1) ((s.tokens e).length + 1) (some e)
    { s with clock := s.clock + 1, hits := s.hits + 1 }

/-- The loop of `lookup`: the deepest entry on the way down whose length is valid. -/
def lookupFrom (s : PrefixCache τ) (key : List τ) (valid : Option (ℕ → Bool)) :
    ℕ → Option ℕ → Option ℕ → Option ℕ
  | 0, _, best => best
  | fuel + 1, at_, best =>
    match (s.siblings at_).find? fun c =>
      (s.tokens c).length < key.length ∧ s.tokens c <+: key with
    | none => best
    | some c =>
      lookupFrom s key valid fuel (some c)
        (if valid.all fun v => v (s.tokens c).length then some c else best)

def lookup (prompt : List τ) (valid : Option (ℕ → Bool)) : PrefixCache τ × Option ℕ :=
  match s.lookupFrom prompt valid (prompt.length + 1) none none with
  | some e => (s.touch e, some e)
  | none => ({ s with misses := s.misses + 1 }, none)

/-- The number of leading tokens two strings share. -/
def commonPrefix : List τ → List τ → ℕ
  | a :: as, b :: bs => if a = b then commonPrefix as bs + 1 else 0
  | _, _ => 0

/-- The length of an entry, zero for none. -/
def lenOf (e : Option ℕ) : ℕ := (e.map fun e => (s.tokens e).length).getD 0

/-- The length of the match with a candidate, `floor` if it is not one beyond `floor`. -/
def matchLen (key : List τ) (cap floor c : ℕ) : ℕ :=
  let hi := min (s.tokens c).length cap
  if hi ≤ floor ∨ (s.tokens c).take floor ≠ key.take floor then floor
  else floor + commonPrefix (((s.tokens c).take hi).drop floor) (key.drop floor)

/-- An ancestor, or the entry itself, that has exactly the given length. -/
def exactAncestor (s : PrefixCache τ) (len : ℕ) : ℕ → Option ℕ → Option ℕ
  | 0, _ | _ + 1, none => none
  | fuel + 1, some e =>
    if (s.tokens e).length < len then none
    else if (s.tokens e).length = len then some e
    else exactAncestor s len fuel (s.heap e).parent

/-- The reuse point for a match of length `lcp` with an entry of length `len`: the whole match
if finer points are allowed or the entry is usable as a whole, else on the grid. -/
def reusePoint (subgrid : Bool) (grid cap len lcp : ℕ) : ℕ :=
  if subgrid then lcp
  else if lcp = len ∧ (lcp % grid = 0 ∨ lcp = cap) then lcp
  else lcp / grid * grid

/-- `lookup_mid_edge`: the deepest reuse point within the tokens of an entry. -/
def lookupMidEdge (prompt : List τ) (grid : ℕ) (subgrid : Bool) : PrefixCache τ × Option (ℕ × ℕ) :=
  let cap := prompt.length - 1
  if cap = 0 then (s, none)
  else
    let best := s.descend prompt cap
    let floor := s.lenOf best
    let scan := (s.siblings best).foldl (fun (acc : Option ℕ × ℕ) c =>
        let n := s.matchLen prompt cap floor c
        if acc.2 < n then (some c, n) else acc) (best, floor)
    match scan.1 with
    | none => ({ s with misses := s.misses + 1 }, none)
    | some node =>
      let reuse := reusePoint subgrid grid cap (s.tokens node).length scan.2
      if reuse = 0 then ({ s with misses := s.misses + 1 }, none)
      else
        let node := (best.filter fun b => reuse ≤ (s.tokens b).length).getD node
        let node := (s.exactAncestor reuse ((s.tokens node).length + 1) (some node)).getD node
        (s.touch node, some (node, reuse))

/-- The largest checkpoint position up to a limit among those of an entry and its
ancestors, with the entry that has it, if it exceeds the best so far. -/
def bestCkpt (s : PrefixCache τ) (lcp : ℕ) : ℕ → Option ℕ → Option ℕ × ℕ → Option ℕ × ℕ
  | 0, _, acc | _ + 1, none, acc => acc
  | fuel + 1, some e, acc =>
    let limit := min lcp ((s.tokens e).length - 1)
    let acc :=
      match (s.heap e).kdaCkpts.reverse.find? fun p => p ≤ limit with
      | none => acc
      | some p => if acc.2 < p then (some e, p) else acc
    bestCkpt s lcp fuel (s.heap e).parent acc

/-- `lookup_kda_ckpt`: the deepest checkpoint at or below the point of divergence. -/
def lookupKdaCkpt (prompt : List τ) : PrefixCache τ × Option (ℕ × ℕ) :=
  let cap := prompt.length - 1
  if cap = 0 then ({ s with lastKdaLcp := 0 }, none)
  else
    let best := s.descend prompt cap
    let floor := s.lenOf best
    let cands := (best.toList.map fun b => (b, floor)) ++
      ((s.siblings best).map fun c => (c, s.matchLen prompt cap floor c)).filter
        fun p => floor < p.2
    let found := cands.foldl
      (fun acc p => s.bestCkpt p.2 ((s.tokens p.1).length + 1) (some p.1) acc) (none, 0)
    ({ s with lastKdaLcp := (cands.map Prod.snd).foldl max 0 }, found.1.map fun e => (e, found.2))

def noteKdaCkptHit (e : ℕ) : PrefixCache τ :=
  let s := s.touch e
  { s with kdaCkptHits := s.kdaCkptHits + 1 }

def hasExact (tokens : List τ) : Bool :=
  (s.descend tokens tokens.length).any fun e => s.tokens e = tokens

/-- `drop_leaf`: evict one leaf. -/
def dropLeaf (e : ℕ) : PrefixCache τ × Bool :=
  if s.isLeaf e = false ∨ e ∉ s.entries then (s, false) else (s.evict e, true)

/-- The loop of `clear`: the last entry goes first. -/
def clearFrom : ℕ → PrefixCache τ → PrefixCache τ
  | 0, s => s
  | fuel + 1, s =>
    match s.entries.getLast? with
    | none => s
    | some e => clearFrom fuel (s.evict e)

def clear : PrefixCache τ := clearFrom s.entries.length s

end PrefixCache

namespace PrefixCacheConfig

variable (cfg : PrefixCacheConfig)

/-! ### Registering and forking -/

variable (s : PrefixCache τ)

/-- The fork with retries of `register` and `fork_from`. -/
def fork (protect : Option ℕ) (call : ForkCall)
    (bridge : ℕ → ForkCall → ForkAnswer) : PrefixCache τ × ForkResult :=
  cfg.forkWithEvictRetry protect call (s.entries.length + 1) bridge s

/-- The checks of `register` before the fork. -/
def skipReason (tokens : List τ) : Option SkipReason :=
  if tokens = [] then some .empty
  else if s.hasExact tokens then some (.duplicate tokens.length)
  else if 0 < cfg.maxEntryTokens ∧ cfg.maxEntryTokens < tokens.length then
    some (.overEntryCap tokens.length cfg.maxEntryTokens)
  else if cfg.maxCachedTokens < tokens.length then
    some (.overBudget tokens.length cfg.maxCachedTokens)
  else none

/-- The second half of `register`: a new entry for the holder. -/
def insert (tokens : List τ) (holder : ℕ) (ckpts : List ℕ) (bytes : ℕ) : PrefixCache τ :=
  let e := s.next
  let bytes := if ckpts = [] then 0 else bytes
  let entry : PrefixEntry τ :=
    ⟨tokens, holder, s.clock + 1, none, [], ckpts.insertionSort (· ≤ ·), bytes⟩
  let s := { s with
    clock := s.clock + 1
    heap := Function.update s.heap e entry
    next := e + 1
    kdaCkptBytes := s.kdaCkptBytes + bytes }
  let s := s.attach e
  cfg.evictOverBudget (some e) s.entries.length s

/-- `register`: the state afterwards, and whether the prefix was registered; `none` if the
bridge raised an error. -/
def register (tokens : List τ) (src holder : ℕ) (ckpts : List ℕ)
    (bytes : ℕ) (bridge : ℕ → ForkCall → ForkAnswer) : PrefixCache τ × Option Bool :=
  match cfg.skipReason s tokens with
  | some reason => ({ s with lastSkip := some reason }, some false)
  | none =>
    let s := { s with lastSkip := none }
    match cfg.fork s none ⟨src, holder, true, 0, 0⟩ bridge with
    | (s, .raised) => (s, none)
    | (s, .exhausted) => ({ s with lastSkip := some .forkFailed }, some false)
    | (s, .granted _) => (cfg.insert s tokens holder ckpts bytes, some true)

/-- `fork_from`: the state afterwards and the reservation granted; `none` if an error is
raised. -/
def forkFrom (e dst : ℕ) (reuseLen : Option ℕ) (reserveTokens : ℕ)
    (bridge : ℕ → ForkCall → ForkAnswer) : PrefixCache τ × Option ℕ :=
  -- the whole holder is a fork with no prefix length
  let prefixLen := reuseLen.filter fun r => r < (s.tokens e).length
  if prefixLen = some 0 then (s, none)
  else
    let call : ForkCall := ⟨(s.heap e).seqId, dst, false, prefixLen.getD 0, reserveTokens⟩
    match cfg.fork s (some e) call bridge with
    | (s, .granted n) => (s, some n)
    | (s, .exhausted) | (s, .raised) => (s, none)

def evictForAdmission : PrefixCache τ × Bool :=
  match cfg.evictOne s none with
  | none => (s, false)
  | some s => (s, true)

end PrefixCacheConfig

/-! ### The interface -/

/-- An operation of the cache; the bridge's answers belong to those that fork. -/
inductive CacheOp (τ : Type)
  | register (tokens : List τ) (src holder : ℕ) (ckpts : List ℕ) (bytes : ℕ)
      (bridge : ℕ → ForkCall → ForkAnswer)
  | lookup (prompt : List τ) (valid : Option (ℕ → Bool))
  | lookupMidEdge (prompt : List τ) (grid : ℕ) (subgrid : Bool)
  | lookupKdaCkpt (prompt : List τ)
  | noteKdaCkptHit (e : ℕ)
  | forkFrom (e dst : ℕ) (reuseLen : Option ℕ) (reserveTokens : ℕ)
      (bridge : ℕ → ForkCall → ForkAnswer)
  | evictForAdmission
  | dropLeaf (e : ℕ)
  | clear

/-- The cache as a transition system; `lookup_mid_edge` asserts that the grid is not zero. -/
def PrefixCacheConfig.step (cfg : PrefixCacheConfig) (s : PrefixCache τ) :
    CacheOp τ → Option (PrefixCache τ)
  | .register tokens src holder ckpts bytes bridge =>
    some (cfg.register s tokens src holder ckpts bytes bridge).1
  | .lookup prompt valid => some (s.lookup prompt valid).1
  | .lookupMidEdge prompt grid subgrid =>
    if 0 < grid then some (s.lookupMidEdge prompt grid subgrid).1 else none
  | .lookupKdaCkpt prompt => some (s.lookupKdaCkpt prompt).1
  | .noteKdaCkptHit e => some (s.noteKdaCkptHit e)
  | .forkFrom e dst reuseLen reserveTokens bridge =>
    some (cfg.forkFrom s e dst reuseLen reserveTokens bridge).1
  | .evictForAdmission => some (cfg.evictForAdmission s).1
  | .dropLeaf e => some (s.dropLeaf e).1
  | .clear => some s.clear

end LayerStorm.Orchestrator
