import Mathlib
import LayerStorm.Lib.Run
import LayerStorm.Lib.Map

/-!
# Tiering of the compressed attention pages

The pages of the compressed (CSA) attention layers that lie behind a retention window are
demoted: their bytes are copied to the host, the pool page is freed and the entry of the page
list is neutralised.  Before an attention that selects one of their blocks they are promoted
again into fresh pool pages.  Tiering is meant to change the place of the bytes and nothing
else.

The model holds the page lists of the dispatcher, the pool with the references to each of its
pages, the memory of every rank, the cold copies and the block-table rows of the current step.
Two fields do not exist in the source: `view`, the values as a system without tiering would
hold them, and `demoted`, the bytes that a page had when it was last demoted.
-/

namespace LayerStorm.Daemon
namespace V4

open Function Lib

/-! ### State -/

/-- The options of the tiering, with the capacity of the cold pool for one sequence and the
number of layers in the page list.  Tiering is armed on at least one rank and with a page
size only. -/
structure TieringOptions where
  dcpSize : ℕ
  dcp_pos : 0 < dcpSize
  csaRatio : ℕ
  pageTokens : ℕ
  page_pos : 0 < pageTokens
  retentionTokens : ℕ
  indexTopk : ℕ
  coldCapPages : ℕ
  csaLayers : List Bool
  kvLayers : ℕ

namespace TieringOptions

/-- The retention window in tokens; by default twice the selection. -/
def retention (o : TieringOptions) : ℕ :=
  if 0 < o.retentionTokens then o.retentionTokens
  else 2 * max o.indexTopk 1 * max o.csaRatio 1

def blocksPerPage (o : TieringOptions) : ℕ := max (o.pageTokens / o.csaRatio) 1

end TieringOptions

/-- An entry of a page list: the page of a logical block of a layer of a sequence. -/
structure PageKey where
  seq : ℕ
  layer : ℕ
  logical : ℕ
deriving DecidableEq, Repr

/-- The same entry of another sequence. -/
def PageKey.ofSeq (k : PageKey) (seq : ℕ) : PageKey := ⟨seq, k.layer, k.logical⟩

/-- Read the entries of `dst` as those of `src`. -/
def PageKey.redirect (k : PageKey) (dst src : ℕ) : PageKey :=
  if k.seq = dst then k.ofSeq src else k

/-- The content of a page, by the position inside it. -/
abbrev Page (V : Type) := ℕ → V

/-- The block-table rows of the current step, one for each rank. -/
structure StepBt where
  seq : ℕ
  layer : ℕ
  len : ℕ
  rows : List (ℕ → Option ℕ)

/-- Write a page id into every row of the step. -/
def StepBt.name (st : StepBt) (lp page : ℕ) : StepBt :=
  { st with rows := st.rows.map fun row =>
      if lp < st.len then update row lp (some page) else row }

/-- The state around the tiering. -/
structure Tiering (V : Type) where
  /-- The sequences that exist, and all that ever did. -/
  live : List ℕ
  used : List ℕ
  /-- The number of logical pages and, for each layer, of tokens of a sequence. -/
  numLogical : ℕ → ℕ
  len : ℕ → ℕ → ℕ
  /-- The page lists; `none` is a neutralised entry. -/
  kvPages : PageKey → Option ℕ
  /-- The references to each page of the pool, by the entry they were handed out for. -/
  held : ℕ → List PageKey
  /-- The memory of each rank. -/
  mem : ℕ → ℕ → Page V
  /-- The cold copies of each sequence. -/
  cold : ℕ → Map (ℕ × ℕ) (Page V)
  stepBt : Option StepBt
  statDemotes : ℕ
  statRepromotes : ℕ
  statSkippedFull : ℕ
  /-- The values as they were written. -/
  view : ℕ → ℕ → ℕ → V
  /-- The bytes of a page when it was last demoted. -/
  demoted : PageKey → Option (Page V)

variable {V : Type}

/-- Nothing has happened yet. -/
def Tiering.init [Inhabited V] : Tiering V where
  live := []
  used := []
  numLogical := fun _ => 0
  len := fun _ _ => 0
  kvPages := fun _ => none
  held := fun _ => []
  mem := fun _ _ _ => default
  cold := fun _ => ∅
  stepBt := none
  statDemotes := 0
  statRepromotes := 0
  statSkippedFull := 0
  view := fun _ _ _ => default
  demoted := fun _ => none

namespace Tiering

/-! ### Demotion -/

/-- `unordered_map::emplace`: an older copy is not replaced. -/
def emplace (m : Map (ℕ × ℕ) (Page V)) (k : ℕ × ℕ) (b : Page V) : Map (ℕ × ℕ) (Page V) :=
  if k ∈ m then m else m.insert k b

variable (o : TieringOptions) (w : Tiering V) (k : PageKey)

/-- Demote one page: the bytes of rank 0 go to the host, and `free_page` returns the page and
neutralises its entry. -/
def demote (page : ℕ) : Tiering V :=
  { w with
    cold := update w.cold k.seq
      (emplace (w.cold k.seq) (k.layer, k.logical) (w.mem 0 page))
    kvPages := update w.kvPages k none
    held := update w.held page ((w.held page).erase k)
    statDemotes := w.statDemotes + 1
    demoted := update w.demoted k (some (w.mem 0 page)) }

/-- The sweep over the logical pages of a layer; it stops when the cold pool is full. -/
def demoteSweep (o : TieringOptions) (seq layer : ℕ) : List ℕ → Tiering V → Tiering V
  | [], w => w
  | lp :: lps, w =>
    match w.kvPages ⟨seq, layer, lp⟩ with
    | none => demoteSweep o seq layer lps w
    | some page =>
      if o.coldCapPages ≤ (w.cold seq).keys.length then
        { w with statSkippedFull := w.statSkippedFull + 1 }
      else demoteSweep o seq layer lps (w.demote ⟨seq, layer, lp⟩ page)

/-- **`after_attention`**: demote the pages of a CSA layer that lie behind the window. -/
def afterAttention (seq layer pos : ℕ) : Tiering V :=
  if o.csaLayers[layer]? = some true then
    demoteSweep o seq layer
      (List.range (min ((pos + 1 - o.retention) / o.pageTokens) (w.numLogical seq))) w
  else w

/-! ### Promotion -/

/-- `set_step_bt`: the rows as the dispatcher has built them from the page list. -/
def setStepBt (seq layer len : ℕ) : Tiering V :=
  { w with stepBt := some ⟨seq, layer, len,
      List.replicate o.dcpSize fun lp => w.kvPages ⟨seq, layer, lp⟩⟩ }

/-- The selected blocks: a list of ids with `-1` as padding, or all blocks below a bound. -/
inductive Selection
  | ids (l : List ℤ)
  | iota (n : ℕ)
deriving DecidableEq, Repr

def Selection.blocks : Selection → List ℤ
  | .ids l => l
  | .iota n => (List.range n).map Int.ofNat

def neededPages (cold : Map (ℕ × ℕ) (Page V)) (layer : ℕ) (blocks : List ℤ) : List ℕ :=
  blocks.foldl (fun pages block =>
    if block < 0 then pages
    else if (layer, block.toNat / o.blocksPerPage) ∉ cold then pages
    else if block.toNat / o.blocksPerPage ∈ pages then pages
    else pages ++ [block.toNat / o.blocksPerPage]) []

/-- Promote one page into a page of the pool: `alloc_page` has installed it, every rank gets
the cold bytes, and the rows of the step name it. -/
def repromote (page : ℕ) (bytes : Page V) : Tiering V :=
  { w with
    kvPages := update w.kvPages k (some page)
    held := update w.held page (k :: w.held page)
    mem := fun r q => if r < o.dcpSize ∧ q = page then bytes else w.mem r q
    stepBt := w.stepBt.map (·.name k.logical page)
    statRepromotes := w.statRepromotes + 1 }

/-- Promote the needed pages one by one.  `answers` are the answers of `alloc_page`, a fresh
page or a refusal; a refusal ends the call with an error, in the middle of the work. -/
def repromoteAll (o : TieringOptions) (seq layer : ℕ) :
    List ℕ → List (Option ℕ) → Tiering V → Option (Bool × Tiering V)
  | [], _, w => some (true, w)
  | lp :: lps, answers, w =>
    match answers.head?.join, (w.cold seq).lookup (layer, lp) with
    | none, _ => some (false, w)
    | some _, none => none
    | some page, some bytes =>
      if w.held page = [] then
        repromoteAll o seq layer lps answers.tail (w.repromote o ⟨seq, layer, lp⟩ page bytes)
      else none

def dropCold (seq layer : ℕ) (pages : List ℕ) : Tiering V :=
  { w with
    cold := update w.cold seq
      (pages.foldl (fun m lp => m.erase (layer, lp)) (w.cold seq)) }

/-- **`ensure_hot`**: promote the cold pages of the selected blocks, and drop their cold copies
at the end.  The answer says whether the call returns or throws. -/
def ensureHot (o : TieringOptions) (w : Tiering V) (seq layer : ℕ) (sel : Selection)
    (answers : List (Option ℕ)) : Option (Bool × Tiering V) :=
  if (w.cold seq).keys = [] then some (true, w)
  else
    match w.stepBt with
    | none => some (false, w)
    | some st =>
      if st.seq = seq ∧ st.layer = layer then
        let pages := neededPages o (w.cold seq) layer sel.blocks
        (repromoteAll o seq layer pages answers w).map fun res =>
          if res.1 then (true, res.2.dropCold seq layer pages) else res
      else some (false, w)

/-! ### Sequences -/

/-- A new sequence without pages. -/
def create (seq : ℕ) : Tiering V :=
  { w with
    live := seq :: w.live
    used := seq :: w.used
    len := update w.len seq fun _ => 0
    demoted := fun k => if k.seq = seq then none else w.demoted k }

/-- The dispatcher appends one logical page: a fresh page of the pool for each layer. -/
def grow (seq : ℕ) (pages : List ℕ) : Tiering V :=
  { w with
    numLogical := update w.numLogical seq (w.numLogical seq + 1)
    kvPages := fun k =>
      if k.seq = seq ∧ k.logical = w.numLogical seq then pages[k.layer]? else w.kvPages k
    held := fun p =>
      if p ∈ pages then [⟨seq, pages.idxOf p, w.numLogical seq⟩] else w.held p }

/-- A layer writes the value of the next token, on every rank. -/
def write (seq layer page : ℕ) (v : V) : Tiering V :=
  { w with
    len := update w.len seq (update (w.len seq) layer (w.len seq layer + 1))
    mem := fun r q => if r < o.dcpSize ∧ q = page then
      update (w.mem r q) (w.len seq layer % o.pageTokens) v else w.mem r q
    view := update w.view seq (update (w.view seq) layer
      (update (w.view seq layer) (w.len seq layer) v)) }

/-- `on_seq_fork`: the cold copies are copied. -/
def onSeqFork (src dst : ℕ) (w : Tiering V) : Tiering V :=
  { w with cold := update w.cold dst (w.cold src) }

/-- A fork: the child shares the pages of its parent, with a reference to each of them. -/
def fork (src dst : ℕ) : Tiering V :=
  onSeqFork src dst { w with
    live := dst :: w.live
    used := dst :: w.used
    numLogical := update w.numLogical dst (w.numLogical src)
    len := update w.len dst (w.len src)
    kvPages := fun k => w.kvPages (k.redirect dst src)
    held := fun p => w.held p ++
      ((w.held p).filter fun k => k.seq = src ∧ w.kvPages k = some p).map (·.ofSeq dst)
    view := update w.view dst (w.view src)
    demoted := fun k => w.demoted (k.redirect dst src) }

/-- Copy on write: an entry gets a page of its own with the same bytes. -/
def cowCopy (page fresh : ℕ) : Tiering V :=
  { w with
    kvPages := update w.kvPages k (some fresh)
    held := update (update w.held page ((w.held page).erase k)) fresh [k]
    mem := fun r q => if r < o.dcpSize ∧ q = fresh then w.mem r page else w.mem r q }

/-- `free_sequence`: the cold copies are dropped. -/
def freeSequence (seq : ℕ) (w : Tiering V) : Tiering V :=
  { w with cold := update w.cold seq ∅ }

/-- The dispatcher frees a sequence: the pages of its list go back to the pool. -/
def release (seq : ℕ) : Tiering V :=
  freeSequence seq { w with
    live := w.live.filter (· ≠ seq)
    numLogical := update w.numLogical seq 0
    kvPages := fun k => if k.seq = seq then none else w.kvPages k
    held := fun p => (w.held p).filter fun k =>
      ¬ (k.seq = seq ∧ w.kvPages k = some p) }

end Tiering

/-! ### Runs -/

/-- What happens around the tiering. -/
inductive Action (V : Type)
  | create (seq : ℕ)
  | grow (seq : ℕ) (pages : List ℕ)
  | write (seq layer : ℕ) (v : V)
  | setStepBt (seq layer len : ℕ)
  | ensureHot (seq layer : ℕ) (sel : Tiering.Selection) (answers : List (Option ℕ))
  | afterAttention (seq layer pos : ℕ)
  | fork (src dst : ℕ)
  | cowCopy (k : PageKey) (fresh : ℕ)
  | free (seq : ℕ)

open Tiering in
/-- One step.  Sequence ids are not used again; the pool hands out pages nobody refers to; a
layer writes at the frontier, into a page where no other holder has a token at that place; the
sweep comes after the write of its position; pages of the child of a fork are split before
its first step. -/
def step (o : TieringOptions) (w : Tiering V) : Action V → Option (Tiering V)
  | .create seq => if seq ∈ w.used then none else some (w.create seq)
  | .grow seq pages =>
    if seq ∈ w.live ∧ pages.length = o.kvLayers ∧ pages.Nodup ∧ ∀ p ∈ pages, w.held p = [] then
      some (w.grow seq pages)
    else none
  | .write seq layer v =>
    match w.kvPages ⟨seq, layer, w.len seq layer / o.pageTokens⟩ with
    | none => none
    | some page =>
      if ∀ k ∈ w.held page, k.seq ≠ seq → w.len k.seq k.layer ≤ w.len seq layer then
        some (w.write o seq layer page v)
      else none
  | .setStepBt seq layer len =>
    if seq ∈ w.live ∧ len ≤ w.numLogical seq then some (w.setStepBt o seq layer len) else none
  | .ensureHot seq layer sel answers => (w.ensureHot o seq layer sel answers).map Prod.snd
  | .afterAttention seq layer pos =>
    if layer < o.kvLayers ∧ pos < w.len seq layer then some (w.afterAttention o seq layer pos)
    else none
  | .fork src dst => if src ∈ w.live ∧ dst ∉ w.used then some (w.fork src dst) else none
  | .cowCopy k fresh =>
    match w.kvPages k with
    | none => none
    | some page =>
      if w.held fresh = [] ∧ ∀ st ∈ w.stepBt, st.seq ≠ k.seq then
        some (w.cowCopy o k page fresh)
      else none
  | .free seq => if seq ∈ w.live then some (w.release seq) else none

end V4
end LayerStorm.Daemon
