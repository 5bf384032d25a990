import LayerStorm.Lib.FirstOccurrences

/-!
# The fused issue of a routed layer

After the gated attention of a layer the routing export names, for every row, the experts that
were selected.  `EngineBridge` issues the layer in three ways.  The plain one reads the union of
the export, writes it into the sideband and sends the commands; the fused ones do all of this in
one call of the compiled bridge; and the daemon builds the union itself when it runs the whole
layer.

The ring is a pair of free-running counters with its slots.  The daemon may consume commands at any
time; it does so before the first claim or between the two claims of the route arm.

## Main results

* `fused_issue_refines` — **and nothing is published when they fail**, but for a ring with room for
  the route command alone.
-/

namespace LayerStorm.Bridge

open List
namespace FusedIssue

open Lib

/-! ### Commands and the ring -/

/-- The payload of `E_CMD_FETCH_AND_RUN_MOE`; the weight threshold is kept as its bits. -/
structure FetchAndRunMoe where
  layerIdx : UInt32
  numSeqs : UInt32
  expertCount : UInt32
  timeoutUs : UInt32
  moeMode : UInt8 := 0
  weightCount : UInt8 := 0
  minExperts : UInt16 := 0
  maxNewFetches : UInt16 := 0
  haveEvictMap : UInt8 := 0
  gatingWeightThreshold : UInt32 := 0
  deriving DecidableEq, Repr

inductive Payload
  | zeroed
  | reefRoute (layerIdx expertCount : UInt32)
  | fetchAndRunMoe (p : FetchAndRunMoe)
  deriving DecidableEq, Repr

structure Command where
  cmdType : UInt32 := 0
  cmdSeq : UInt32 := 0
  gpuIdx : UInt32 := 0
  streamId : UInt32 := 0
  payload : Payload := .zeroed
  deriving DecidableEq, Repr

/-- `E_CMD_REEF_ROUTE`. -/
def cmdReefRoute : UInt32 := 0x0C05

/-- `E_CMD_FETCH_AND_RUN_MOE`. -/
def cmdFetchAndRunMoe : UInt32 := 0x0C02

/-- The command ring: the counters of its producer and its consumer, and its slots. -/
@[ext]
structure CmdRing where
  prod : UInt64
  cons : UInt64
  count : UInt64
  mask : UInt64
  slots : UInt64 → Command

namespace CmdRing

variable (r : CmdRing)

/-- The slot `i` is overwritten. -/
def fill (i : UInt64) (c : Command) : CmdRing := { r with slots := Function.update r.slots i c }

/-- `_claim`: the next slot, zeroed. -/
def claim : Option (UInt64 × CmdRing) :=
  if r.prod - r.cons ≥ r.count then none
  else some (r.prod &&& r.mask, r.fill (r.prod &&& r.mask) {})

def publish : CmdRing := { r with prod := r.prod + 1 }

/-- `ring_write`, the core of `send`. -/
def ringWrite (c : Command) : Option CmdRing :=
  if r.prod - r.cons ≥ r.count then none
  else some { r with slots := Function.update r.slots (r.prod &&& r.mask) c, prod := r.prod + 1 }

/-- The daemon has consumed the commands up to `cons`. -/
def consumedTo (cons : UInt64) : CmdRing := { r with cons := cons }

/-- There is a free slot. -/
def HasRoom : Prop := r.prod - r.cons < r.count

instance : Decidable r.HasRoom := inferInstanceAs (Decidable (_ < _))

/-- Claim a slot, fill it and publish it; whether there was one. -/
def issue (c : Command) : Bool × CmdRing :=
  match r.claim with
  | none => (false, r)
  | some (d, r') => (true, (r'.fill d c).publish)

/-- `send`, as far as the ring: whether the command was written. -/
def send (c : Command) : Bool × CmdRing :=
  match r.ringWrite c with
  | none => (false, r)
  | some r' => (true, r')

theorem issue_eq_send (c : Command) : r.issue c = r.send c := by
  by_cases hfull : r.prod - r.cons ≥ r.count
  · simp [issue, send, claim, ringWrite, hfull]
  · simp [issue, send, claim, ringWrite, hfull, fill, publish]

theorem send_of_room {r : CmdRing} (h : r.HasRoom) (c : Command) :
    (r.send c).1 = true ∧ { r.publish with slots := (r.send c).2.slots } = (r.send c).2 := by
  have hfree : ¬r.prod - r.cons ≥ r.count := by simpa [HasRoom] using h
  simp [send, ringWrite, hfree, publish]

theorem send_of_full {r : CmdRing} (h : ¬r.HasRoom) (c : Command) : r.send c = (false, r) := by
  have hfull : r.prod - r.cons ≥ r.count := by simpa [HasRoom] using h
  simp [send, ringWrite, hfull]

end CmdRing

/-! ### The export and the sideband -/

structure RoutingExport where
  numTokens : UInt32
  topk : UInt32
  layerIdx : UInt32
  indices : ℕ → Int32

/-- The first `rn` indices of the export. -/
def RoutingExport.take (ex : RoutingExport) (rn : ℕ) : List Int32 := (List.range rn).map ex.indices

structure ExpertPrefetchEntry where
  layerIdx : UInt32
  expertIdx : UInt16
  zone : UInt8
  gpuIdx : UInt8
  deriving DecidableEq, Repr

structure ExpertEvictionEntry where
  layerIdx : UInt32
  expertIdx : UInt16
  gpuIdx : UInt8
  pad : UInt8
  deriving DecidableEq, Repr

/-- The entries of a layer in the sideband. -/
@[ext]
structure Sideband where
  prefetch : ℕ → ExpertPrefetchEntry
  evict : ℕ → ExpertEvictionEntry

namespace Sideband

variable (sb : Sideband)

/-- Write the prefetch entry `i`. -/
def setPrefetch (i : ℕ) (e : ExpertPrefetchEntry) : Sideband :=
  { sb with prefetch := Function.update sb.prefetch i e }

/-- Write the eviction entry `i`. -/
def setEvict (i : ℕ) (e : ExpertEvictionEntry) : Sideband :=
  { sb with evict := Function.update sb.evict i e }

end Sideband

/-- The expert that stands for no victim. -/
def noVictim : UInt16 := 0xFFFF

def maxExpertPrefetch : ℕ := 512

/-- What the bridge knows of the engine.  Routed experts are hosted by at least one device. -/
structure Config where
  numExperts : ℕ
  moeGpus : ℕ

namespace Config

variable (cfg : Config)

/-- The index names an expert. -/
def accepts (e : Int32) : Bool := decide (0 ≤ e.toInt ∧ e.toInt < cfg.numExperts)

/-- The static target of an expert. -/
def target (e : Int32) : UInt8 := UInt8.ofNat (e.toInt.toNat % cfg.moeGpus)

end Config

/-- The index of an expert as the entries hold it. -/
def expertIdx (e : Int32) : UInt16 := UInt16.ofNat e.toInt.toNat

/-- How a routed layer was issued: what is returned, the ring and the sideband. -/
structure Issue (ρ : Type) where
  result : ρ
  ring : CmdRing
  sideband : Sideband

/-! ### The fused arms -/

/-- The loop of the fused arms: the number of entries and the sideband, and what is written for an
expert. -/
def exportLoop (cfg : Config) (maxEntries : ℕ) (write : ℕ → Int32 → Sideband → Sideband)
    (idx : List Int32) (sb : Sideband) : ℕ × Sideband :=
  collect cfg.accepts (fun s => decide (maxEntries ≤ s.1)) (fun s e => (s.1 + 1, write s.1 e s.2)) []
    idx (0, sb)

/-- What the static arm writes for its entry `n`. -/
def writeStatic (cfg : Config) (layer : UInt32) (n : ℕ) (e : Int32) (sb : Sideband) : Sideband :=
  (sb.setPrefetch n ⟨layer, expertIdx e, 0, cfg.target e⟩).setEvict n
    ⟨layer, noVictim, cfg.target e, 0⟩

/-- What the route arm writes for its entry `n`; the daemon fills in the device. -/
def writeReef (layer : UInt32) (n : ℕ) (e : Int32) (sb : Sideband) : Sideband :=
  sb.setPrefetch n ⟨layer, expertIdx e, 0, 0⟩

def routeCommand (seq layer : UInt32) (n : ℕ) : Command :=
  { cmdType := cmdReefRoute, cmdSeq := seq, payload := .reefRoute layer (UInt32.ofNat n) }

def fetchCommand (seq layer numSeqs timeoutUs : UInt32) (haveEvictMap : Bool) (n : ℕ) : Command :=
  { cmdType := cmdFetchAndRunMoe, cmdSeq := seq
    payload := .fetchAndRunMoe
      { layerIdx := layer, numSeqs := numSeqs, expertCount := UInt32.ofNat n
        timeoutUs := timeoutUs, haveEvictMap := if haveEvictMap then 1 else 0 } }

/-- A command, and when it was sent a second one.  By then the daemon has consumed up to `cons`. -/
def sendBoth (send : CmdRing → Command → Bool × CmdRing) (cons : UInt64) (c c' : ℕ → Command)
    (r : CmdRing) (n : ℕ) : Bool × CmdRing :=
  match send r (c n) with
  | (false, r₁) => (false, r₁)
  | (true, r₁) => send (r₁.consumedTo cons) (c' n)

variable (cfg : Config) (r : CmdRing) (sb : Sideband) (ex : RoutingExport)

/-- The fused arms: what is written for an expert, and how the commands are issued. -/
def fusedIssue (write : ℕ → Int32 → Sideband → Sideband) (sends : CmdRing → ℕ → Bool × CmdRing)
    (layer numSeqs : UInt32) (maxEntries : ℕ) : Issue ℤ :=
  if ex.numTokens ≠ numSeqs then ⟨-2, r, sb⟩
  else if ex.layerIdx ≠ layer then ⟨-3, r, sb⟩
  else if 512 < cfg.numExperts then ⟨-5, r, sb⟩
  else
    let rn := ex.numTokens * ex.topk
    let (n, sb') := exportLoop cfg maxEntries write (ex.take rn.toNat) sb
    if n = 0 then ⟨-4, r, sb'⟩
    else match sends r n with
      | (false, r') => ⟨-1, r', sb'⟩
      | (true, r') => ⟨n, r', sb'⟩

def fetchMoeFromExport (seq layer numSeqs timeoutUs : UInt32) (maxEntries : ℕ) : Issue ℤ :=
  fusedIssue cfg r sb ex (writeStatic cfg layer)
    (fun r n => r.issue (fetchCommand seq layer numSeqs timeoutUs false n)) layer numSeqs maxEntries

/-- `reef_route_fetch_from_export`.  The second claim reads the consumer at `cons`. -/
def reefRouteFetchFromExport (cons : UInt64) (seqRoute seqFetch layer numSeqs timeoutUs : UInt32)
    (maxEntries : ℕ) : Issue ℤ :=
  fusedIssue cfg r sb ex (writeReef layer)
    (sendBoth CmdRing.issue cons (routeCommand seqRoute layer)
      (fetchCommand seqFetch layer numSeqs timeoutUs true)) layer numSeqs maxEntries

/-! ### The plain arms -/

/-- What the plain arms raise. -/
inductive BridgeError
  /-- "command ring full" -/
  | ringFull
  /-- "routing export rows … != …" -/
  | exportRows
  /-- "routing-export layer mismatch: … != …" -/
  | exportLayer
  /-- "no routed experts exported" -/
  | noExperts
  /-- the number of indices does not fit the parameter of `routing_union` -/
  | overflow
  /-- `assert n <= MAX_EXPERT_PREFETCH` -/
  | tooManyEntries
  deriving DecidableEq, Repr

/-- The loop of `read_routing_union`, and of `routing_union` in the compiled bridge. -/
def routingUnion (idx : List Int32) : List Int32 :=
  collect cfg.accepts (fun _ => false) (fun out e => out ++ [e]) [] idx []

/-- `read_routing_union`.  With the compiled bridge the number of indices is passed as an unsigned
number of 32 bits. -/
def readRoutingUnion (compiled : Bool) (layer expectRows : UInt32) :
    Except BridgeError (List Int32) :=
  if ex.numTokens ≠ expectRows then .error .exportRows
  else if ex.layerIdx ≠ layer then .error .exportLayer
  else
    let rn := ex.numTokens.toNat * ex.topk.toNat
    if compiled = true ∧ 2 ^ 32 ≤ rn then .error .overflow
    else .ok (routingUnion cfg (ex.take rn))

/-- One turn of `write_moe_entries`. -/
def writeMoeEntry (layer : UInt32) (i : ℕ) (e : Int32) (assign : UInt8)
    (victim : UInt32 × UInt16 × UInt8) (sb : Sideband) : Sideband :=
  (sb.setPrefetch i ⟨layer, expertIdx e, 0, assign⟩).setEvict i
    ⟨victim.1, victim.2.1, victim.2.2, 0⟩

/-- The loop of `write_moe_entries` from entry `i` on, over lists of the same length. -/
def writeMoeLoop (layer : UInt32) : ℕ → List Int32 → List UInt8 →
    List (UInt32 × UInt16 × UInt8) → Sideband → Sideband
  | i, e :: experts, a :: assigns, v :: victims, sb =>
    writeMoeLoop layer (i + 1) experts assigns victims (writeMoeEntry layer i e a v sb)
  | _, _, _, _, sb => sb

def writeMoeEntries (layer : UInt32) (experts : List Int32) (assigns : List UInt8)
    (victims : List (UInt32 × UInt16 × UInt8)) : Except BridgeError (ℕ × Sideband) :=
  if maxExpertPrefetch < experts.length then .error .tooManyEntries
  else .ok (experts.length, writeMoeLoop layer 0 experts assigns victims sb)

/-- The plain arms: the devices and the victims of the experts, and how the commands are sent. -/
def plainIssue (assigns : List Int32 → List UInt8)
    (victims : List Int32 → List (UInt32 × UInt16 × UInt8))
    (sends : CmdRing → ℕ → Bool × CmdRing) (compiled : Bool) (layer numSeqs : UInt32) :
    Issue (Except BridgeError ℕ) :=
  match readRoutingUnion cfg ex compiled layer numSeqs with
  | .error err => ⟨.error err, r, sb⟩
  | .ok topk =>
    if topk = [] then ⟨.error .noExperts, r, sb⟩
    else match writeMoeEntries sb layer topk (assigns topk) (victims topk) with
      | .error err => ⟨.error err, r, sb⟩
      | .ok (n, sb') =>
        match sends r n with
        | (false, r') => ⟨.error .ringFull, r', sb'⟩
        | (true, r') => ⟨.ok n, r', sb'⟩

/-- `_routed_moe` as far as its command: read, fill without caches to evict from
(`fill_moe_entries`), send. -/
def routedMoe (compiled : Bool) (seq layer numSeqs timeoutUs : UInt32) :
    Issue (Except BridgeError ℕ) :=
  plainIssue cfg r sb ex (fun topk => topk.map cfg.target)
    (fun topk => (topk.map cfg.target).map fun a => (layer, noVictim, a))
    (fun r n => r.send (fetchCommand seq layer numSeqs timeoutUs false n)) compiled layer numSeqs

/-- `_reef_moe` as far as its commands: read, write, send the route command, send the fetch
command.  The second `send` reads the consumer at `cons`. -/
def reefMoe (compiled : Bool) (cons : UInt64) (seqRoute seqFetch layer numSeqs timeoutUs : UInt32) :
    Issue (Except BridgeError ℕ) :=
  plainIssue cfg r sb ex (fun topk => List.replicate topk.length 0)
    (fun topk => List.replicate topk.length (layer, noVictim, 0))
    (sendBoth CmdRing.send cons (routeCommand seqRoute layer)
      (fetchCommand seqFetch layer numSeqs timeoutUs true)) compiled layer numSeqs

/-! ### The daemon -/

def kMaxExperts : ℕ := 320

/-- `build_routed_union`, over the indices of an export. -/
def buildRoutedUnion : Option (List UInt16) :=
  if kMaxExperts < cfg.numExperts then none
  else
    let rn := ex.numTokens * ex.topk
    some (collect cfg.accepts (fun out => decide (maxExpertPrefetch ≤ out.length))
      (fun out e => out ++ [expertIdx e]) [] (ex.take rn.toNat) [])

/-! ### The union -/

/-- The experts an export names, in the order of their first occurrence. -/
def union (idx : List Int32) : List Int32 := firsts cfg.accepts [] idx

variable {cfg}

theorem length_union_le (idx : List Int32) : (union cfg idx).length ≤ cfg.numExperts := by
  apply length_firsts_le fun e => e.toInt.toNat
  · intro e he
    have hbounds := of_decide_eq_true he
    omega
  · intro a b ha hb hab
    have hboundsa := of_decide_eq_true ha
    have hboundsb := of_decide_eq_true hb
    apply Int32.toInt_inj.1
    omega

theorem foldl_snoc {α β : Type} (f : α → β) (l : List α) :
    l.foldl (fun out e => out ++ [f e]) [] = l.map f := by
  induction l using reverseRecOn with
  | nil => rfl
  | append_singleton l e ih => rw [foldl_append, ih, map_append]; rfl

theorem routingUnion_eq (idx : List Int32) : routingUnion cfg idx = union cfg idx := by
  have hfold : routingUnion cfg idx = (union cfg idx).foldl (fun out e => out ++ [e]) [] := by
    apply collect_eq_foldl length (union cfg idx).length (fun _ _ => rfl)
    · exact fun out e => length_append
    · exact (Nat.zero_add _).le
  rw [hfold, foldl_snoc (fun e => e), map_id']

theorem buildRoutedUnion_eq {ex : RoutingExport} (h : cfg.numExperts ≤ kMaxExperts) :
    buildRoutedUnion cfg ex =
      some ((union cfg (ex.take (ex.numTokens * ex.topk).toNat)).map expertIdx) := by
  unfold buildRoutedUnion
  rw [if_neg (not_lt.2 h), ← foldl_snoc]
  apply congrArg some
  apply collect_eq_foldl length maxExpertPrefetch
  · exact fun out hout => decide_eq_false (not_le.2 hout)
  · exact fun out e => length_append
  · rw [length_nil, Nat.zero_add]
    exact (length_union_le _).trans (h.trans (by decide))

/-! ### What is written -/

/-- The entries of a list of experts, from entry `n` on. -/
def writeFrom (write : ℕ → Int32 → Sideband → Sideband) : ℕ → List Int32 → Sideband → Sideband
  | _, [], sb => sb
  | n, e :: l, sb => writeFrom write (n + 1) l (write n e sb)

theorem exportLoop_eq (write : ℕ → Int32 → Sideband → Sideband) (idx : List Int32) (sb : Sideband)
    {maxEntries : ℕ} (h : cfg.numExperts ≤ maxEntries) :
    exportLoop cfg maxEntries write idx sb =
      ((union cfg idx).length, writeFrom write 0 (union cfg idx) sb) := by
  have hfold : exportLoop cfg maxEntries write idx sb =
      (union cfg idx).foldl (fun s e => (s.1 + 1, write s.1 e s.2)) (0, sb) := by
    apply collect_eq_foldl Prod.fst maxEntries
    · exact fun s hs => decide_eq_false (not_le.2 hs)
    · exact fun s e => rfl
    · exact (Nat.zero_add _).le.trans ((length_union_le _).trans h)
  have hrun : ∀ (l : List Int32) (n : ℕ) (sb : Sideband),
      l.foldl (fun s e => (s.1 + 1, write s.1 e s.2)) (n, sb) =
        (n + l.length, writeFrom write n l sb) := by
    intro l
    induction l with
    | nil => exact fun _ _ => rfl
    | cons e l ih =>
      intro n sb
      rw [foldl_cons, ih, Nat.add_assoc, Nat.add_comm 1]
      rfl
  rw [hfold, hrun, Nat.zero_add]

theorem writeMoeLoop_map (layer : UInt32) (assign : Int32 → UInt8)
    (victim : Int32 → UInt32 × UInt16 × UInt8) : ∀ (l : List Int32) (i : ℕ) (sb : Sideband),
    writeMoeLoop layer i l (l.map assign) (l.map victim) sb =
      writeFrom (fun i e => writeMoeEntry layer i e (assign e) (victim e)) i l sb := by
  intro l
  induction l with
  | nil => exact fun _ _ => rfl
  | cons e l ih => exact fun i sb => ih (i + 1) _

theorem writeFrom_prefetch_congr {write write' : ℕ → Int32 → Sideband → Sideband}
    (h : ∀ i e sb sb', sb.prefetch = sb'.prefetch →
      (write i e sb).prefetch = (write' i e sb').prefetch) :
    ∀ (l : List Int32) (n : ℕ) (sb sb' : Sideband), sb.prefetch = sb'.prefetch →
      (writeFrom write n l sb).prefetch = (writeFrom write' n l sb').prefetch := by
  intro l
  induction l with
  | nil => exact fun _ _ _ hsb => hsb
  | cons e l ih => exact fun n sb sb' hsb => ih (n + 1) _ _ (h n e sb sb' hsb)

/-- The experts of the first `n` prefetch entries. -/
def Sideband.experts (sb : Sideband) (n : ℕ) : List UInt16 :=
  (List.range n).map fun i => (sb.prefetch i).expertIdx

/-- A way to write entries: an expert is written to its entry, and to no other. -/
structure Writes (write : ℕ → Int32 → Sideband → Sideband) : Prop where
  self : ∀ n e sb, ((write n e sb).prefetch n).expertIdx = expertIdx e
  frame : ∀ n e sb j, j ≠ n → (write n e sb).prefetch j = sb.prefetch j

theorem writes_static (layer : UInt32) : Writes (writeStatic cfg layer) where
  self n e sb := by simp [writeStatic, Sideband.setPrefetch, Sideband.setEvict]
  frame n e sb j hj := by simp [writeStatic, Sideband.setPrefetch, Sideband.setEvict, hj]

theorem writes_reef (layer : UInt32) : Writes (writeReef layer) where
  self n e sb := by simp [writeReef, Sideband.setPrefetch]
  frame n e sb j hj := by simp [writeReef, Sideband.setPrefetch, hj]

section Writes

variable {write : ℕ → Int32 → Sideband → Sideband} (hw : Writes write)
include hw

theorem Writes.from_frame : ∀ (l : List Int32) (n : ℕ) (sb : Sideband) (j : ℕ), j < n →
    (writeFrom write n l sb).prefetch j = sb.prefetch j := by
  intro l
  induction l with
  | nil => exact fun _ _ _ _ => rfl
  | cons e l ih =>
    intro n sb j hj
    show (writeFrom write (n + 1) l (write n e sb)).prefetch j = _
    rw [ih (n + 1) _ j (by omega), hw.frame n e sb j hj.ne]

theorem Writes.from_expert : ∀ (l : List Int32) (n : ℕ) (sb : Sideband) (i : ℕ) (hi : i < l.length),
    ((writeFrom write n l sb).prefetch (n + i)).expertIdx = expertIdx l[i] := by
  intro l
  induction l with
  | nil => exact fun _ _ _ hi => absurd hi (Nat.not_lt_zero _)
  | cons e l ih =>
    intro n sb i hi
    cases i with
    | zero =>
      -- the entry is written first, and stays
      show ((writeFrom write (n + 1) l (write n e sb)).prefetch n).expertIdx = expertIdx e
      rw [hw.from_frame l (n + 1) _ n (Nat.lt_succ_self n), hw.self]
    | succ i =>
      have hstep := ih (n + 1) (write n e sb) i (Nat.lt_of_succ_lt_succ hi)
      rwa [show n + 1 + i = n + (i + 1) by omega] at hstep

theorem Writes.experts_from (l : List Int32) (sb : Sideband) :
    (writeFrom write 0 l sb).experts l.length = l.map expertIdx := by
  apply ext_getElem
  · simp [Sideband.experts]
  · intro i hi hi'
    have hlen : i < l.length := by simpa using hi'
    have hentry := hw.from_expert l 0 sb i hlen
    simpa [Sideband.experts] using hentry

end Writes

/-! ### The arms -/

variable {r : CmdRing} {sb : Sideband} {ex : RoutingExport}

/-- The code with which the fused arms report what the plain arms raise. -/
def codeOf : Except BridgeError ℕ → Option ℤ
  | .ok n => some n
  | .error .ringFull => some (-1)
  | .error .exportRows => some (-2)
  | .error .exportLayer => some (-3)
  | .error .noExperts => some (-4)
  | .error _ => none

/-- The number of indices fits in 32 bits, so the product of the header's fields is exact. -/
def RoutingExport.Fits (ex : RoutingExport) : Prop := ex.numTokens.toNat * ex.topk.toNat < 2 ^ 32

theorem RoutingExport.Fits.toNat_mul (h : ex.Fits) :
    (ex.numTokens * ex.topk).toNat = ex.numTokens.toNat * ex.topk.toNat := by
  exact Nat.mod_eq_of_lt h

def RoutingExport.union (ex : RoutingExport) (cfg : Config) : List Int32 :=
  FusedIssue.union cfg (ex.take (ex.numTokens * ex.topk).toNat)

theorem readRoutingUnion_eq (h : ex.Fits) (compiled : Bool) (layer expectRows : UInt32) :
    readRoutingUnion cfg ex compiled layer expectRows =
      if ex.numTokens ≠ expectRows then .error .exportRows
      else if ex.layerIdx ≠ layer then .error .exportLayer
      else .ok (ex.union cfg) := by
  unfold readRoutingUnion RoutingExport.union
  rw [h.toNat_mul]
  have hno : ¬(compiled = true ∧ 2 ^ 32 ≤ ex.numTokens.toNat * ex.topk.toNat) := by
    rintro ⟨-, hle⟩
    exact absurd h (not_lt.2 hle)
  simp only [if_neg hno, routingUnion_eq]

section Bounded

variable (h512 : cfg.numExperts ≤ 512)
include h512

theorem fused_eq_plain {write : ℕ → Int32 → Sideband → Sideband}
    {sends : CmdRing → ℕ → Bool × CmdRing} (assign : Int32 → UInt8)
    (victim : Int32 → UInt32 × UInt16 × UInt8) {assigns : List Int32 → List UInt8}
    {victims : List Int32 → List (UInt32 × UInt16 × UInt8)} {layer : UInt32}
    {R : Sideband → Sideband → Prop} (hfits : ex.Fits) (hassign : ∀ l, assigns l = l.map assign)
    (hvictim : ∀ l, victims l = l.map victim) (hrefl : R sb sb)
    (hR : ∀ l, R (writeFrom write 0 l sb)
      (writeFrom (fun i e => writeMoeEntry layer i e (assign e) (victim e)) 0 l sb))
    (compiled : Bool) (numSeqs : UInt32) :
    let fused := fusedIssue cfg r sb ex write sends layer numSeqs maxExpertPrefetch
    let plain := plainIssue cfg r sb ex assigns victims sends compiled layer numSeqs
    codeOf plain.result = some fused.result ∧ fused.ring = plain.ring ∧
      R fused.sideband plain.sideband := by
  have hloop : exportLoop cfg maxExpertPrefetch write (ex.take (ex.numTokens * ex.topk).toNat) sb =
        ((ex.union cfg).length, writeFrom write 0 (ex.union cfg) sb) := exportLoop_eq write _ sb h512
  have hwrite : writeMoeEntries sb layer (ex.union cfg) (assigns (ex.union cfg))
      (victims (ex.union cfg)) = .ok ((ex.union cfg).length,
        writeFrom (fun i e => writeMoeEntry layer i e (assign e) (victim e)) 0 (ex.union cfg) sb) := by
    have hlen : (ex.union cfg).length ≤ maxExpertPrefetch := (length_union_le _).trans h512
    unfold writeMoeEntries
    rw [if_neg (not_lt.2 hlen), hassign, hvictim, writeMoeLoop_map]
  unfold fusedIssue plainIssue
  rw [readRoutingUnion_eq hfits, if_neg (not_lt.2 h512)]
  simp only [hloop]
  by_cases hrows : ex.numTokens = numSeqs
  swap
  · simpa [hrows, codeOf] using hrefl
  by_cases hlayer : ex.layerIdx = layer
  swap
  · simpa [hrows, hlayer, codeOf] using hrefl
  by_cases hnil : ex.union cfg = []
  · simpa [hrows, hlayer, hnil, codeOf, writeFrom] using hrefl
  simp only [hrows, hlayer, hnil, hwrite, length_eq_zero_iff, ne_eq, not_true_eq_false, if_false]
  match sends r (ex.union cfg).length with
  | (false, r') => exact ⟨rfl, rfl, hR _⟩
  | (true, r') => exact ⟨rfl, rfl, hR _⟩

omit h512 in
/-- What an issue with the union `l` has come to: it failed, with the code of an empty union only
for one, and `undone` says what became of the ring; or the union is in the entries. -/
def CameTo (l : List Int32) (undone : Prop) (fused : Issue ℤ) : Prop :=
  (fused.result < 0 ∧ undone ∧ (fused.result = -4 → l = [])) ∨
    (fused.result = l.length ∧ fused.sideband.experts l.length = l.map expertIdx)

theorem fused_cameTo {write : ℕ → Int32 → Sideband → Sideband} (hw : Writes write)
    {sends : CmdRing → ℕ → Bool × CmdRing} (layer numSeqs : UInt32) (failed : CmdRing → Prop)
    (hself : failed r) (hsends : ∀ n, (sends r n).1 = false → failed (sends r n).2) :
    let fused := fusedIssue cfg r sb ex write sends layer numSeqs maxExpertPrefetch
    CameTo (ex.union cfg) (failed fused.ring) fused := by
  have hloop : exportLoop cfg maxExpertPrefetch write (ex.take (ex.numTokens * ex.topk).toNat) sb =
        ((ex.union cfg).length, writeFrom write 0 (ex.union cfg) sb) := exportLoop_eq write _ sb h512
  unfold fusedIssue
  rw [if_neg (not_lt.2 h512)]
  simp only [hloop]
  by_cases hrows : ex.numTokens = numSeqs
  swap
  · exact .inl (by simpa [hrows] using hself)
  by_cases hlayer : ex.layerIdx = layer
  swap
  · exact .inl (by simpa [hrows, hlayer] using hself)
  by_cases hnil : ex.union cfg = []
  · exact .inl (by simpa [hrows, hlayer, hnil] using hself)
  simp only [hrows, hlayer, hnil, length_eq_zero_iff, ne_eq]
  have hfailed := hsends (ex.union cfg).length
  revert hfailed
  match sends r (ex.union cfg).length with
  | (false, r') =>
    refine fun hfailed => .inl ⟨show (-1 : ℤ) < 0 by decide, hfailed rfl, fun h => ?_⟩
    exact absurd (show (-1 : ℤ) = -4 from h) (by decide)
  | (true, r') => exact fun _ => .inr ⟨rfl, hw.experts_from _ _⟩

end Bounded

/-- What an issue reports is the union `l`: its length when it succeeds, with the experts in their
entries, and an empty union by its own code. -/
def ReportsUnion (fused : Issue ℤ) (l : List UInt16) : Prop :=
  (0 ≤ fused.result → fused.result = l.length ∧ fused.sideband.experts l.length = l) ∧
    (fused.result = -4 → l = [])

theorem CameTo.reportsUnion {l : List Int32} {undone : Prop} {fused : Issue ℤ}
    (h : CameTo l undone fused) : ReportsUnion fused (l.map expertIdx) := by
  unfold ReportsUnion
  rw [length_map]
  rcases h with ⟨hneg, -, hempty⟩ | ⟨hcount, hexperts⟩
  · exact ⟨fun hpos => absurd hneg (not_lt.2 hpos), fun hcode => by rw [hempty hcode]; rfl⟩
  · exact ⟨fun _ => ⟨hcount, hexperts⟩, fun hcode => by omega⟩

theorem CameTo.undone {l : List Int32} {undone : Prop} {fused : Issue ℤ}
    (h : CameTo l undone fused) (hneg : fused.result < 0) : undone := by
  rcases h with ⟨-, hundone, -⟩ | ⟨hcount, -⟩
  · exact hundone
  · omega

theorem sendBoth_fails {cons : UInt64} {c c' : ℕ → Command} {n : ℕ}
    (hroom : r.HasRoom → (r.publish.consumedTo cons).HasRoom)
    (h : (sendBoth CmdRing.send cons c c' r n).1 = false) :
    (sendBoth CmdRing.send cons c c' r n).2 = r := by
  unfold sendBoth at h ⊢
  by_cases hfree : r.HasRoom
  · obtain ⟨hsent, hring⟩ := CmdRing.send_of_room hfree (c n)
    -- the free slots do not depend on what the slots hold
    have hfree₂ : ((r.send (c n)).2.consumedTo cons).HasRoom := by
      rw [← hring]
      exact hroom hfree
    have hsent₂ := (CmdRing.send_of_room hfree₂ (c' n)).1
    revert h hsent hsent₂
    match r.send (c n) with
    | (false, r₁) => exact fun _ hsent => absurd hsent Bool.false_ne_true
    | (true, r₁) => exact fun h _ hsent₂ => absurd (h.symm.trans hsent₂) Bool.false_ne_true
  · rw [CmdRing.send_of_full hfree]

/-- **The fused issue of a layer refines the plain one, and the daemon's.**  For every export and
every ring: where the number of indices fits in 32 bits, both fused arms return, publish and write
what the plain arms do; the union they report is the one the daemon builds, where it builds one;
and a failed issue has published nothing, where a ring with room for the route command has room for
the fetch command behind it. -/
theorem fused_issue_refines (cfg : Config) (r : CmdRing) (sb : Sideband) (ex : RoutingExport)
    (compiled : Bool) (cons : UInt64) (seqRoute seqFetch layer numSeqs timeoutUs : UInt32)
    (h512 : cfg.numExperts ≤ 512) :
    let static := fetchMoeFromExport cfg r sb ex seqFetch layer numSeqs timeoutUs maxExpertPrefetch
    let reef := reefRouteFetchFromExport cfg r sb ex cons seqRoute seqFetch layer numSeqs timeoutUs
      maxExpertPrefetch
    let staticPlain := routedMoe cfg r sb ex compiled seqFetch layer numSeqs timeoutUs
    let reefPlain := reefMoe cfg r sb ex compiled cons seqRoute seqFetch layer numSeqs timeoutUs
    (ex.Fits → codeOf staticPlain.result = some static.result ∧ static.ring = staticPlain.ring ∧
      static.sideband = staticPlain.sideband) ∧
    (ex.Fits → codeOf reefPlain.result = some reef.result ∧ reef.ring = reefPlain.ring ∧
      reef.sideband.prefetch = reefPlain.sideband.prefetch) ∧
    (cfg.numExperts ≤ kMaxExperts → ∃ l, buildRoutedUnion cfg ex = some l ∧
      ReportsUnion static l ∧ ReportsUnion reef l) ∧
    (static.result < 0 → static.ring = r) ∧
    (reef.result < 0 → (r.HasRoom → (r.publish.consumedTo cons).HasRoom) → reef.ring = r) := by
  intro static reef staticPlain reefPlain
  have hissue : CmdRing.issue = CmdRing.send := funext fun r => funext r.issue_eq_send
  have hstatic : CameTo (ex.union cfg) (static.ring = r) static := by
    apply fused_cameTo h512 (writes_static layer) layer numSeqs (fun r' => r' = r) rfl
    intro n hn
    rw [hissue] at hn ⊢
    by_cases hfree : r.HasRoom
    · exact absurd (hn.symm.trans (CmdRing.send_of_room hfree _).1) Bool.false_ne_true
    · rw [CmdRing.send_of_full hfree]
  have hreef : CameTo (ex.union cfg)
      ((r.HasRoom → (r.publish.consumedTo cons).HasRoom) → reef.ring = r) reef := by
    apply fused_cameTo h512 (writes_reef layer) layer numSeqs
      (fun r' => (r.HasRoom → (r.publish.consumedTo cons).HasRoom) → r' = r) fun _ => rfl
    intro n hn hroom
    rw [hissue] at hn ⊢
    exact sendBoth_fails hroom hn
  refine ⟨fun hfits => ?_, fun hfits => ?_, fun h320 => ?_, hstatic.undone, hreef.undone⟩
  · unfold static fetchMoeFromExport
    rw [hissue]
    apply fused_eq_plain h512 cfg.target (fun e => (layer, noVictim, cfg.target e)) (R := Eq) hfits
    · exact fun l => rfl
    · intro l
      rw [map_map]
      rfl
    · rfl
    · exact fun l => rfl
  · unfold reef reefRouteFetchFromExport
    rw [hissue]
    apply fused_eq_plain h512 (fun _ => 0) (fun _ => (layer, noVictim, 0))
      (R := fun a b => a.prefetch = b.prefetch) hfits
    · exact fun l => map_const'.symm
    · exact fun l => map_const'.symm
    · rfl
    · intro l
      -- the fused loop leaves the eviction entries to the daemon
      apply writeFrom_prefetch_congr _ _ _ _ _ rfl
      intro i e sb sb' hsb
      show Function.update sb.prefetch i _ = Function.update sb'.prefetch i _
      rw [hsb]
  · exact ⟨_, buildRoutedUnion_eq h320, hstatic.reportsUnion, hreef.reportsUnion⟩

/-- Three experts on two devices. -/
def sampleConfig : Config := ⟨3, 2⟩

/-- An export of two rows with two indices each, one of them repeated and one negative. -/
def sampleExport : RoutingExport where
  numTokens := 2
  topk := 2
  layerIdx := 7
  indices k := [2, 0, 2, -1].getD k 0

/-- A ring of four slots with the counters `prod` and `cons`. -/
def sampleRing (prod cons : UInt64) : CmdRing := ⟨prod, cons, 4, 3, fun _ => {}⟩

/-- Empty entries. -/
def sampleSideband : Sideband := ⟨fun _ => ⟨0, 0, 0, 0⟩, fun _ => ⟨0, 0, 0, 0⟩⟩

/-- The refinement for an export with two experts and a ring with room. -/
theorem fused_issue_refines_sample :
    (codeOf (routedMoe sampleConfig (sampleRing 5 3) sampleSideband sampleExport true 11 7 2
        1000).result = some 2) ∧
      (reefRouteFetchFromExport sampleConfig (sampleRing 5 3) sampleSideband sampleExport 3 10 11
        7 2 1000 maxExpertPrefetch).result = 2 := by
  have h := fused_issue_refines sampleConfig (sampleRing 5 3) sampleSideband sampleExport true 3
    10 11 7 2 1000 (by decide)
  have hfits : sampleExport.Fits := by unfold RoutingExport.Fits; decide
  refine ⟨(h.1 hfits).1.trans (by decide), by decide⟩

/-- One expert more than the daemon has room for. -/
def bigConfig : Config := ⟨321, 2⟩

/-- The daemon has no union for more experts than `kMaxExperts`, where the bridge issues the layer;
and a ring with room for one command takes the route command of an issue that fails. -/
theorem fused_issue_apart :
    ((fetchMoeFromExport bigConfig (sampleRing 5 3) sampleSideband sampleExport 11 7 2 1000
        maxExpertPrefetch).result = 2 ∧
      buildRoutedUnion bigConfig sampleExport = none) ∧
    ((reefRouteFetchFromExport sampleConfig (sampleRing 6 3) sampleSideband sampleExport 3 10 11 7
        2 1000 maxExpertPrefetch).result = -1 ∧
      (reefRouteFetchFromExport sampleConfig (sampleRing 6 3) sampleSideband sampleExport 3 10 11 7
        2 1000 maxExpertPrefetch).ring.prod = 7) := by
  refine ⟨⟨by decide, by decide⟩, by decide, by decide⟩

end FusedIssue
end LayerStorm.Bridge
