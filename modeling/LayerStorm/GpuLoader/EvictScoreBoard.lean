import LayerStorm.Lib.IndexedHeap
import LayerStorm.Memory.ExpertCache

/-!
# The eviction-score board

`EvictScoreBoard` keeps, for every GPU, a score for each expert in the stable zone
of the cache there, so that the loader finds the cheapest victims first.  A GPU has
a pool of slots (key, raw score, effective score), recycled through a free list,
and an indexed min-heap of slots ordered by effective score.  An index over all
GPUs lists the copies of each expert: the copy with the largest raw score has rank
0, and a copy's effective score is its raw score less a penalty for each rank, but
not below 0.  A change to any copy of an expert ranks all of its copies again.

The board is the residency listener of the cache; membership follows the cache's
notifications, and the score feeds only change scores.

The vectors of a slot pool are functions of the slot together with their size.
Scores are real numbers for the source; the model asks of them only what the code
relies on.  A call for a GPU index the board does not have is ignored.
-/

namespace LayerStorm.GpuLoader

open Lib Memory

/-- Scores.  The law is that the copy of rank 0 pays no penalty. -/
class Score (R : Type) extends LinearOrder R, Zero R, One R, Add R, Sub R, Mul R, NatCast R where
  sub_zero_mul : ∀ x b : R, x - ((0 : ℕ) : R) * b = x

attribute [instance (50)] Score.toZero

instance : Score ℚ where
  sub_zero_mul := by simp

/-- The board's data for one GPU; `size` is the length of the slot vectors, and the
free list is kept with its back first. -/
structure PerGpu (K R : Type) where
  size : ℕ
  key : ℕ → Option K
  raw : ℕ → R
  eff : ℕ → R
  freeSlots : List ℕ
  keyToSlot : Map K ℕ
  heap : IndexedHeap ℕ

/-- A copy of an expert. -/
structure EntryRef where
  gpu : ℕ
  slot : ℕ
  deriving DecidableEq

structure EvictScoreBoard (K R : Type) where
  numGpus : ℕ
  gpus : ℕ → PerGpu K R
  experts : Map K (List EntryRef)
  baseScore : R
  recencyClock : R

variable {K R : Type} [DecidableEq K] [Score R]

namespace PerGpu

/-- A GPU without residents. -/
def empty : PerGpu K R := ⟨0, fun _ => none, fun _ => 0, fun _ => 0, [], ∅, IndexedHeap.empty 0⟩

/-! ### Slots and the heap -/

/-- `heap_less`: by effective score, then by slot. -/
def heapLess (eff : ℕ → R) (a b : ℕ) : Bool :=
  if eff a ≠ eff b then eff a < eff b else a < b

variable (pg : PerGpu K R)

/-- `alloc_slot`: the last slot freed, or a new one. -/
def allocSlot (k : K) (rawScore : R) : PerGpu K R × ℕ :=
  let slot := pg.freeSlots.headD pg.size
  ({ pg with
      size := if pg.freeSlots = [] then pg.size + 1 else pg.size
      key := Function.update pg.key slot (some k)
      raw := Function.update pg.raw slot rawScore
      eff := Function.update pg.eff slot rawScore
      freeSlots := pg.freeSlots.tail
      keyToSlot := pg.keyToSlot.insert k slot
      heap := { pg.heap with pos := Function.update pg.heap.pos slot none } }, slot)

def heapRemove (slot : ℕ) : PerGpu K R :=
  { pg with heap := pg.heap.remove (heapLess pg.eff) slot }

/-- `heap_update`: after the slot's effective score changed; a slot that is not in
the heap yet is inserted. -/
def heapUpdate (slot : ℕ) : PerGpu K R :=
  { pg with heap := pg.heap.update (heapLess pg.eff) slot }

def freeSlot (slot : ℕ) : PerGpu K R :=
  let pg := pg.heapRemove slot
  { pg with
    keyToSlot := match pg.key slot with
      | some k => pg.keyToSlot.erase k
      | none => pg.keyToSlot
    freeSlots := slot :: pg.freeSlots }

/-- Writing a raw score. -/
def setRaw (slot : ℕ) (v : R) : PerGpu K R :=
  { pg with raw := Function.update pg.raw slot v }

/-- Writing an effective score and moving the slot in the heap, if the score changed
or the slot is not in the heap yet. -/
def setEff (slot : ℕ) (v : R) : PerGpu K R :=
  if pg.eff slot ≠ v then { pg with eff := Function.update pg.eff slot v }.heapUpdate slot
  else if pg.heap.pos slot = none then pg.heapUpdate slot
  else pg

end PerGpu

namespace EvictScoreBoard

/-- The constructor.  The capacity is a hint for the vectors only. -/
def init (numGpus : ℕ) (baseScore : R) : EvictScoreBoard K R :=
  ⟨numGpus, fun _ => PerGpu.empty, ∅, baseScore, 0⟩

variable (b : EvictScoreBoard K R)

def setGpu (g : ℕ) (pg : PerGpu K R) : EvictScoreBoard K R :=
  { b with gpus := Function.update b.gpus g pg }

/-! ### The index over all GPUs -/

def refs (k : K) : List EntryRef := (b.experts.lookup k).getD []

/-- `index_add`: a copy on the same GPU is refreshed. -/
def indexAdd (k : K) (gpu slot : ℕ) : EvictScoreBoard K R :=
  let refs := b.refs k
  { b with
    experts := b.experts.insert k (match refs.findIdx? fun r => r.gpu = gpu with
        | some i => refs.set i ⟨gpu, slot⟩
        | none => refs ++ [⟨gpu, slot⟩]) }

/-- `index_remove`: the last copy takes the place of the one removed; an expert
without copies leaves the index. -/
def indexRemove (k : K) (gpu : ℕ) : EvictScoreBoard K R :=
  match b.experts.lookup k with
  | none => b
  | some refs =>
    let refs' := match refs.findIdx? fun r => r.gpu = gpu, refs.getLast? with
      | some i, some back => (refs.set i back).dropLast
      | _, _ => refs
    { b with experts := if refs' = [] then b.experts.erase k else b.experts.insert k refs' }

/-! ### The cascade -/

def rawAt (e : EntryRef) : R := (b.gpus e.gpu).raw e.slot

/-- The order of the copies: by raw score, the largest first, then by GPU. -/
def ahead (a c : EntryRef) : Bool :=
  if b.rawAt a ≠ b.rawAt c then b.rawAt c < b.rawAt a else a.gpu < c.gpu

def rankOrder (refs : List EntryRef) : List EntryRef :=
  refs.insertionSort fun a c => b.ahead c a = false

/-- The effective score of a copy of rank `r`, never below 0. -/
def penalised (raw : R) (r : ℕ) (baseScore : R) : R :=
  let v := raw - (r : R) * baseScore
  if v < 0 then 0 else v

/-- One round of the cascade: the copy of rank `r`. -/
def rerankCopy (c : EntryRef × ℕ) : EvictScoreBoard K R :=
  b.setGpu c.1.gpu ((b.gpus c.1.gpu).setEff c.1.slot (penalised (b.rawAt c.1) c.2 b.baseScore))

/-- `rerank_expert`: rank the copies of an expert and write their effective scores. -/
def rerankExpert (k : K) : EvictScoreBoard K R :=
  match b.experts.lookup k with
  | none => b
  | some refs => (b.rankOrder refs).zipIdx.foldl rerankCopy b

/-- Ranking several experts. -/
def rerankAll (ks : List K) : EvictScoreBoard K R :=
  ks.foldl rerankExpert b

/-! ### Single entries, without ranking -/

def upsertRawNoRerank (g : ℕ) (k : K) (rawScore : R) : EvictScoreBoard K R :=
  if g < b.numGpus then
    match (b.gpus g).keyToSlot.lookup k with
    | some slot => b.setGpu g ((b.gpus g).setRaw slot rawScore)
    | none =>
      let (pg, slot) := (b.gpus g).allocSlot k rawScore
      (b.setGpu g pg).indexAdd k g slot
  else b

def evictNoRerank (g : ℕ) (k : K) : EvictScoreBoard K R :=
  if g < b.numGpus then
    match (b.gpus g).keyToSlot.lookup k with
    | some slot => (b.setGpu g ((b.gpus g).freeSlot slot)).indexRemove k g
    | none => b
  else b

/-- Overwriting the raw score of a resident; anything else is ignored. -/
def setRawExisting (g : ℕ) (k : K) (v : R) : EvictScoreBoard K R :=
  match (b.gpus g).keyToSlot.lookup k with
  | some slot => b.setGpu g ((b.gpus g).setRaw slot v)
  | none => b

/-! ### The mutators -/

/-- A score for a resident, `ScoreUpdate`. -/
structure ScoreUpdate (K R : Type) where
  gpu : ℕ
  key : K
  score : R

/-- Whether the board holds an expert on a GPU, `is_resident`. -/
def isResident (g : ℕ) (k : K) : Bool :=
  g < b.numGpus && ((b.gpus g).keyToSlot.lookup k).isSome

def evict (g : ℕ) (k : K) : EvictScoreBoard K R :=
  if b.isResident g k then (b.evictNoRerank g k).rerankExpert k else b

/-- `update_existing_only`: entries that are not resident are ignored. -/
def updateExistingOnly (ups : List (ScoreUpdate K R)) : EvictScoreBoard K R :=
  let present := ups.filter fun u => b.isResident u.gpu u.key
  (present.foldl (fun b u => b.setRawExisting u.gpu u.key u.score) b).rerankAll
    (present.map (·.key)).dedup

/-- `advance_recency`: one layer visit. -/
def advanceRecency : EvictScoreBoard K R :=
  { b with recencyClock := b.recencyClock + 1 }

/-- `touch_existing`: a routed use of a resident. -/
def touchExisting (g : ℕ) (k : K) : EvictScoreBoard K R :=
  if b.isResident g k then (b.setRawExisting g k b.recencyClock).rerankExpert k else b

/-- `touch_existing_all`: a routed use of every copy.  A single copy takes a short
cut past the ranking. -/
def touchExistingAll (k : K) (rawBonus : R) : EvictScoreBoard K R :=
  let raw := b.recencyClock + rawBonus
  match b.experts.lookup k with
  | none => b
  | some [r] =>
    b.setGpu r.gpu (((b.gpus r.gpu).setRaw r.slot raw).setEff r.slot (if raw < 0 then 0 else raw))
  | some refs =>
    (refs.foldl (fun b r => b.setGpu r.gpu ((b.gpus r.gpu).setRaw r.slot raw)) b).rerankExpert k

def setBaseScore (v : R) : EvictScoreBoard K R :=
  { b with baseScore := v }.rerankAll b.experts.keys

/-- The raw scores of a GPU's residents, each multiplied by a factor. -/
def decayGpu (factor : R) (pg : PerGpu K R) : PerGpu K R :=
  pg.keyToSlot.entries.foldl (fun pg e => pg.setRaw e.2 (pg.raw e.2 * factor)) pg

def decayAll (factor : R) : EvictScoreBoard K R :=
  if factor = 1 then b
  else
    { b with gpus := fun g => if g < b.numGpus then decayGpu factor (b.gpus g) else b.gpus g
      }.rerankAll b.experts.keys

/-! ### The listener -/

/-- `on_resident_added` and `on_resident_removed`. -/
def onResident : ResidencyEvent K → EvictScoreBoard K R
  | .added k g =>
    if g < b.numGpus then (b.upsertRawNoRerank g k b.recencyClock).rerankExpert k else b
  | .removed k g => b.evict g k

/-! ### Queries -/

/-- `rank_of`: the number of copies ahead on other GPUs. -/
def rankOf (g : ℕ) (k : K) : Option ℕ :=
  match (b.gpus g).keyToSlot.lookup k, b.experts.lookup k with
  | some slot, some refs => some (refs.countP fun e => e.gpu ≠ g && b.ahead e ⟨g, slot⟩)
  | _, _ => none

/-- `check_invariant` at one position of the heap. -/
def checkPosition (g hi : ℕ) : Bool :=
  let pg := b.gpus g
  let slot := pg.heap.node hi
  let inOrder := fun c => !(c < pg.heap.size && PerGpu.heapLess pg.eff (pg.heap.node c) slot)
  pg.heap.pos slot == some hi &&
    match pg.key slot with
    | none => false
    | some k =>
      pg.keyToSlot.lookup k == some slot &&
        (b.rankOf g k).any (fun r => pg.eff slot = penalised (pg.raw slot) r b.baseScore) &&
        (b.refs k).contains ⟨g, slot⟩ && inOrder (2 * hi + 1) && inOrder (2 * hi + 2)

def checkInvariant (g : ℕ) : Bool :=
  let pg := b.gpus g
  decide (g < b.numGpus) && pg.heap.size == pg.keyToSlot.entries.length &&
    ((List.range pg.heap.size).all (b.checkPosition g)) &&
    pg.keyToSlot.entries.all fun e => (pg.heap.pos e.2).isSome

end EvictScoreBoard

/-! ### The cache and its listener -/

/-- The cache with the board as its listener. -/
structure Mirrored (K R : Type) where
  cache : ExpertCache K
  board : EvictScoreBoard K R

/-- A call of the cache, or of a score feed of the board. -/
inductive MirrorAction (K R : Type)
  | cache (gpu : ℕ) (op : CacheOp K)
  | touchExisting (gpu : ℕ) (key : K)
  | touchExistingAll (key : K) (rawBonus : R)
  | updateExistingOnly (ups : List (EvictScoreBoard.ScoreUpdate K R))
  | advanceRecency
  | decayAll (factor : R)
  | setBaseScore (v : R)

/-- One call.  The board hears the notifications that the call adds to the cache's
log, in their order. -/
def Mirrored.step (layout : ℕ → GpuLayout) (s : Mirrored K R) :
    MirrorAction K R → Option (Mirrored K R)
  | .cache gpu op => (s.cache.step layout (gpu, op)).map fun cache =>
    ⟨cache, (cache.events.drop s.cache.events.length).foldl EvictScoreBoard.onResident s.board⟩
  | .touchExisting gpu key => some { s with board := s.board.touchExisting gpu key }
  | .touchExistingAll key rawBonus =>
    some { s with board := s.board.touchExistingAll key rawBonus }
  | .updateExistingOnly ups => some { s with board := s.board.updateExistingOnly ups }
  | .advanceRecency => some { s with board := s.board.advanceRecency }
  | .decayAll factor => some { s with board := s.board.decayAll factor }
  | .setBaseScore v => some { s with board := s.board.setBaseScore v }

def Mirrored.register (cache : ExpertCache K) (baseScore : R) : Mirrored K R :=
  ⟨cache, EvictScoreBoard.init cache.gpuCount baseScore⟩

end LayerStorm.GpuLoader
