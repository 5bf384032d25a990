import LayerStorm.Lib.Map
import LayerStorm.Lib.GreedyPlacement

/-!
# Decode span graphs

`DecodeSpanGraphs::run` executes a span of launches.  The first time it sees a key it calls the
span's `emit`; afterwards it captures the launches into a graph, under a fingerprint of everything
that is baked into them, and replays the graph when the fingerprint comes again.  A key holds a few
graphs, and a new fingerprint takes the place of the least recently used one when it comes twice in
a row.  When a call to the driver fails, the launches are emitted eagerly, and the key is dead.

What a span emits is a function of its key and of the pointers and scalars that its caller adds to
the fingerprint.  A call to the driver that fails does no work on the stream.  The answers of the
driver, and whether `emit` throws, come with each call.  Handles of graphs are numbered by the
driver in the order in which it gives them out.
-/

namespace LayerStorm.Compute
namespace SpanGraph

open Lib

/-! ### Fingerprints -/

/-- The pointers and scalars that a caller adds, in order. -/
structure Args where
  ptrs : List UInt64
  scalars : List Int64
  deriving DecidableEq, Repr

/-- `kMaxPtrs`. -/
def maxPtrs : ℕ := 40

/-- `kMaxScalars`. -/
def maxScalars : ℕ := 8

/-- Fingerprint of everything baked into the span's launch params. -/
structure Fp where
  p : List UInt64 := []
  s : List Int64 := []
  deriving DecidableEq, Repr

/-- Add a pointer, if there is room. -/
def Fp.add (fp : Fp) (ptr : UInt64) : Fp :=
  if fp.p.length < maxPtrs then { fp with p := fp.p ++ [ptr] } else fp

/-- Add a scalar, if there is room. -/
def Fp.addS (fp : Fp) (v : Int64) : Fp :=
  if fp.s.length < maxScalars then { fp with s := fp.s ++ [v] } else fp

/-- The fingerprint of a caller's pointers and scalars. -/
def Args.fp (args : Args) : Fp :=
  args.scalars.foldl Fp.addS (args.ptrs.foldl Fp.add {})

/-! ### What happens on the stream -/

variable {W : Type*}

/-- What happens on the stream and to the graphs, in order. -/
inductive Event (W : Type*)
  /-- Launches are emitted onto the stream. -/
  | executed (work : W)
  /-- `emit` throws while it emits onto the stream. -/
  | interrupted
  /-- A graph is launched. -/
  | launched (handle : ℕ) (recorded : W)
  /-- A graph is destroyed. -/
  | destroyed (handle : ℕ)
  /-- No graph of the key has the fingerprint. -/
  | missed (key : UInt32) (args : Args)
  /-- A graph of the key makes room for a fingerprint. -/
  | evicted (key : UInt32) (args : Args) (victim : ℕ) (held : List ℕ)

def Event.work : Event W → Option W
  | .executed w => some w
  | .launched _ w => some w
  | _ => none

/-- The graph an event uses or destroys. -/
def Event.handle : Event W → Option ℕ
  | .launched id _ => some id
  | .destroyed id => some id
  | _ => none

def Event.launch : Event W → Option ℕ
  | .launched id _ => some id
  | _ => none

/-- The arguments with which a key is missed. -/
def Event.miss (key : UInt32) : Event W → Option Args
  | .missed k args => if k = key then some args else none
  | _ => none

/-! ### Data model -/

/-- A graph that has been captured. -/
structure Entry (W : Type*) where
  exec : ℕ
  recorded : W
  fp : Fp
  lastUse : ℕ

/-- What is kept for a key; `pending` is the fingerprint of a first miss when all places are
taken. -/
structure KeyState (W : Type*) where
  runs : ℕ := 0
  dead : Bool := false
  variants : List (Entry W) := []
  pending : Option Fp := none

/-- `kVariantCap`. -/
def variantCap : ℕ := 4

/-- Introspection. -/
structure Stats where
  eager : ℕ := 0
  captured : ℕ := 0
  replayed : ℕ := 0
  failed : ℕ := 0
  evicted : ℕ := 0
  deriving DecidableEq, Repr

/-- The runner, with what has happened on the stream so far. -/
structure DecodeSpanGraphs (W : Type*) where
  keys : Map UInt32 (KeyState W) := ∅
  clock : ℕ := 0
  stats : Stats := {}
  enabled : Bool := true
  bypass : ℤ := 0
  nextHandle : ℕ := 0
  log : List (Event W) := []

/-- One call of `run`, with what `emit` and the driver do during the call. -/
structure Call where
  key : UInt32
  args : Args
  eagerThrows : Bool := false
  replayOk : Bool := true
  beginOk : Bool := true
  captureThrows : Bool := false
  endOk : Bool := true
  endGraph : Bool := true
  instantiateOk : Bool := true
  launchOk : Bool := true

variable (emit : UInt32 → Args → W)

namespace DecodeSpanGraphs

variable (g : DecodeSpanGraphs W) (c : Call) (ks : KeyState W)

/-! ### Running a span -/

/-- Something happens. -/
def tell (event : Event W) : DecodeSpanGraphs W := { g with log := g.log ++ [event] }

/-- Change what is kept for a key. -/
def store (key : UInt32) (ks : KeyState W) : DecodeSpanGraphs W :=
  { g with keys := g.keys.insert key ks }

def keyState (key : UInt32) : KeyState W := (g.keys.lookup key).getD {}

/-- Call `emit` outside a capture; the result says whether it returns. -/
def callEmit : DecodeSpanGraphs W × Bool :=
  if c.eagerThrows then (g.tell .interrupted, false)
  else (g.tell (.executed (emit c.key c.args)), true)

def runEager : DecodeSpanGraphs W × Bool :=
  let r := callEmit emit g c
  if r.2 then ({ r.1 with stats := { r.1.stats with eager := r.1.stats.eager + 1 } }, true)
  else r

/-- A call to the driver has failed: the key is dead. -/
def markFailed : DecodeSpanGraphs W :=
  { g.store c.key { ks with dead := true } with
    stats := { g.stats with failed := g.stats.failed + 1 } }

/-- The driver gives out a handle. -/
def takeHandle : DecodeSpanGraphs W := { g with nextHandle := g.nextHandle + 1 }

def dropGraph (returned : Bool) : DecodeSpanGraphs W :=
  if returned then g.takeHandle.tell (.destroyed g.nextHandle) else g

/-- Stamp the variant of a fingerprint. -/
def touch (fp : Fp) (stamp : ℕ) : List (Entry W) → List (Entry W)
  | [] => []
  | e :: es => if e.fp = fp then { e with lastUse := stamp } :: es else e :: touch fp stamp es

/-- The variant of a fingerprint. -/
def hit (fp : Fp) : Option (Entry W) :=
  if ks.dead then none else ks.variants.find? fun e => e.fp = fp

def replay (e : Entry W) : DecodeSpanGraphs W × Bool :=
  if c.replayOk then
    let stamp := g.clock + 1
    ({ (g.tell (.launched e.exec e.recorded)).store c.key
        { ks with variants := touch c.args.fp stamp ks.variants, pending := none } with
      clock := stamp
      stats := { g.stats with replayed := g.stats.replayed + 1 } }, true)
  else runEager emit (g.markFailed c ks) c

def capture : DecodeSpanGraphs W × Bool :=
  if !c.beginOk then runEager emit (g.markFailed c ks) c
  else if c.captureThrows then ((g.dropGraph c.endGraph).markFailed c ks, false)
  else if !c.endOk || !c.endGraph then
    runEager emit ((g.dropGraph c.endGraph).markFailed c ks) c
  else
    -- the captured graph is destroyed whether it could be instantiated or not
    let g := g.dropGraph true
    if !c.instantiateOk then runEager emit (g.markFailed c ks) c
    else
      let exec := g.nextHandle
      let g := g.takeHandle
      if !c.launchOk then runEager emit ((g.tell (.destroyed exec)).markFailed c ks) c
      else
        let stamp := g.clock + 1
        let entry : Entry W := ⟨exec, emit c.key c.args, c.args.fp, stamp⟩
        ({ (g.tell (.launched exec (emit c.key c.args))).store c.key
            { ks with variants := ks.variants ++ [entry], pending := none } with
          clock := stamp
          stats := { g.stats with captured := g.stats.captured + 1 } }, true)

def stampAt (variants : List (Entry W)) (i : ℕ) : ℕ := (variants[i]?.map Entry.lastUse).getD 0

/-- The first variant with the smallest stamp. -/
def lru (variants : List (Entry W)) : ℕ :=
  (firstBest (fun i j => stampAt variants i < stampAt variants j)
    (List.range variants.length)).getD 0

/-- Destroy the least recently replayed variant. -/
def evict : DecodeSpanGraphs W :=
  match ks.variants[lru ks.variants]? with
  | some victim =>
    { ((g.tell (.evicted c.key c.args victim.exec (ks.variants.map Entry.exec))).tell
        (.destroyed victim.exec)).store c.key
        { ks with variants := ks.variants.eraseIdx (lru ks.variants), pending := none } with
      stats := { g.stats with evicted := g.stats.evicted + 1 } }
  | none => g

/-- No graph of the key has the fingerprint. -/
def missed : DecodeSpanGraphs W × Bool :=
  let ks := { ks with runs := ks.runs + 1 }
  let g := (g.tell (.missed c.key c.args)).store c.key ks
  if ks.dead || ks.runs < 2 then runEager emit g c
  else if ks.variants.length ≥ variantCap then
    if ks.pending = some c.args.fp then
      let g := g.evict c ks
      capture emit g c (g.keyState c.key)
    else runEager emit (g.store c.key { ks with pending := some c.args.fp }) c
  else capture emit g c ks

/-- Execute the span; the result says whether the call returns normally. -/
def run : DecodeSpanGraphs W × Bool :=
  if !g.enabled || g.bypass ≠ 0 then
    callEmit emit (if g.bypass ≠ 0 then
      { g with stats := { g.stats with eager := g.stats.eager + 1 } } else g) c
  else
    let ks := g.keyState c.key
    let g := g.store c.key ks
    match hit ks c.args.fp with
    | some e => g.replay emit c ks e
    | none => g.missed emit c ks

/-- The destructor: the graphs that are still held are destroyed. -/
def close : DecodeSpanGraphs W :=
  { g with
    keys := ∅
    log := g.log ++ (g.keys.entries.flatMap fun p => p.2.variants.map Entry.exec).map .destroyed }

end DecodeSpanGraphs

/-! ### Runs -/

/-- What is done with a runner: calls, and scopes in which it is bypassed. -/
inductive Op
  | run (c : Call)
  | enterBypass
  | leaveBypass

/-- One operation. -/
def DecodeSpanGraphs.perform (g : DecodeSpanGraphs W) : Op → DecodeSpanGraphs W
  | .run c => (g.run emit c).1
  | .enterBypass => { g with bypass := g.bypass + 1 }
  | .leaveBypass => { g with bypass := g.bypass - 1 }

/-- A sequence of operations on a new runner, which may be disabled by the environment. -/
def runAll (enabled : Bool) (ops : List Op) : DecodeSpanGraphs W :=
  ops.foldl (DecodeSpanGraphs.perform emit) { enabled := enabled }

end SpanGraph
end LayerStorm.Compute
