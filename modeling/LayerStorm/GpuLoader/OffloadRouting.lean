import LayerStorm.GpuLoader.CpuOffload
import LayerStorm.Memory.ArenaCache

/-!
# Splitting the routed experts between host and devices

A fetch-and-run command lists the routed experts of a layer.  With the CPU solver on,
`route_moe_by_loader` decides which of them the host computes: either
`apply_cpu_offload_never_lose` does it from the placement of the command, or the post-pass of
`shadow_solve_and_log` from the placement that the solver has found.  The picked experts are kept in
a map by layer, which the host reads when it computes them, and are marked in the state of the
command, so that no device computes them.  The first reading of the map enters the experts that the
environment forces.

What the solver finds, where experts are resident and on which nodes they lie is up to the
environment.
-/

namespace LayerStorm.GpuLoader

open Memory (ExpertKey)

variable {F : Type} [Field F] [LinearOrder F]

/-! ### The price of an offload -/

structure PlaceSumWeights (F : Type) where
  residTax : F
  wResid : F
  wNuma : F
  wHotness : F
  hbmOffloadBase : F
  ddrOffloadPenalty : F
  offnodeProtect : F
  targetRareEncourage : F
  deriving DecidableEq

def PlaceSumWeights.allZero (w : PlaceSumWeights F) : Bool :=
  w.residTax = 0 ∧ w.wResid = 0 ∧ w.wNuma = 0 ∧ w.wHotness = 0 ∧ w.hbmOffloadBase = 0 ∧
    w.ddrOffloadPenalty = 0 ∧ w.offnodeProtect = 0 ∧ w.targetRareEncourage = 0

structure PlaceSumFactors (F : Type) where
  residBaseline : F
  numaPenalty : F
  hotness : F
  homeHbm : F
  targetRare : F

def residencyBaseline (recurProb fetchUs : F) : F := max 0 (min 1 recurProb) * max 0 fetchUs

def cpuPlaceCost (w : PlaceSumWeights F) (f : PlaceSumFactors F) : F :=
  let nodeBias := w.hbmOffloadBase * f.homeHbm + w.ddrOffloadPenalty * (1 - f.homeHbm)
  let targetBias := w.offnodeProtect * (1 - f.targetRare) - w.targetRareEncourage * f.targetRare
  let c := w.residTax + w.wResid * f.residBaseline + w.wNuma * f.numaPenalty +
    w.wHotness * f.hotness + nodeBias + targetBias
  if 0 < c then c else 0

/-! ### Settings, answers and state -/

/-- The settings of the loader, with the CPU solver on.  `quiet` says that neither the dump nor the
log of the shadow solve is on, `force` is the parsed `LS_CPU_EXPERT_FORCE`. -/
structure LoaderConfig (F : Type) where
  shadow : Bool
  act : Bool
  forceIdentity : Bool
  pinHits : Bool
  placeAffinity : Bool
  quiet : Bool
  skipB1 : Bool
  cpuSolverNode : ℤ
  placeSum : Bool
  placeWNumaEnv : Bool
  placeOffloadNode : ℤ
  placeRarityThresh : F
  hotnessUseFreq : Bool
  hotnessFhot : F
  hotnessFreq : ExpertKey → F
  curve : CpuCurve F
  nBackends : ℕ
  constants : Option (LoaderConstants F)
  ablated : Option (LoaderConstants F)
  force : List (ℕ × List ℕ)

/-- What the other components answer during one command; a node is negative when it is not known,
and `assignment` is the placement that the solver has found. -/
structure LoaderEnv where
  expertHomeNode : ℕ → ℤ
  locationNode : ExpertKey → ℤ
  nodeIsHbm : ℤ → Bool
  resident : ExpertKey → ℤ → Bool
  assignment : List ℤ

structure ExpertPrefetchEntry where
  layerIdx : ℕ
  expertIdx : ℕ
  gpuIdx : ℕ
  deriving DecidableEq, Repr

def ExpertPrefetchEntry.key (e : ExpertPrefetchEntry) : ExpertKey := ⟨e.layerIdx, e.expertIdx⟩

structure FetchAndRunMoe where
  layerIdx : ℕ
  numSeqs : ℕ
  entries : List ExpertPrefetchEntry
  deriving DecidableEq, Repr

/-- `ExpertRequest`, as far as routing reads it. -/
structure ExpertRequest where
  key : ExpertKey
  targetGpu : ℤ
  wasCached : Bool
  isArrived : Bool
  cpuForced : Bool
  deriving DecidableEq, Repr

/-- `ProgressiveMoeState`, as far as routing goes. -/
structure ProgressiveMoeState where
  experts : List ExpertRequest
  cpuForcedCount : ℕ
  deriving DecidableEq, Repr

/-- What routing a command has come to: the state of the command, the experts that the host finds
for its layer, the indices at which the positions of the solver were overwritten, and the picked
misses with what they were picked from. -/
structure Routed (F : Type) where
  command : FetchAndRunMoe
  state : ProgressiveMoeState
  forced : List ℕ
  writes : List ℕ
  picks : Option (OffloadInput F × List (CpuMiss F))

/-- The state of the dispatcher; `routed` is the last command that was routed. -/
structure Dispatcher (F : Type) where
  cpuForcedExperts : ℕ → List ℕ
  prevRoundExperts : ℕ → List ℕ
  placeSumW : PlaceSumWeights F
  calibAdopted : Bool
  forcedParsed : Bool
  routed : Option (Routed F)

variable (cfg : LoaderConfig F) (exp : F → F) (env : LoaderEnv)

def Dispatcher.boot (w : PlaceSumWeights F) : Dispatcher F :=
  ⟨fun _ => [], fun _ => [], w, false, false, none⟩

/-- The state that the handler builds before it routes. -/
def buildState (cmd : FetchAndRunMoe) : ProgressiveMoeState where
  experts := cmd.entries.map fun e =>
    let cached := env.resident e.key e.gpuIdx
    ⟨e.key, e.gpuIdx, cached, cached, false⟩
  cpuForcedCount := 0

/-! ### Marking -/

/-- Marking one expert of the command. -/
def ProgressiveMoeState.mark (st : ProgressiveMoeState) (i : ℕ) : ProgressiveMoeState where
  experts := st.experts.modify i fun er => { er with cpuForced := true }
  cpuForcedCount := st.cpuForcedCount + 1

/-- The picked misses are marked and entered in the map. -/
def markChosen (x : ProgressiveMoeState × List ℕ) (mm : CpuMiss F) : ProgressiveMoeState × List ℕ :=
  match x.1.experts[mm.i]? with
  | none => x
  | some er => if er.cpuForced = true then x else (x.1.mark mm.i, x.2 ++ [mm.eidx])

/-! ### The driver without the shadow solve -/

/-- The placement cost of a miss whose fetch takes `fetch`. -/
def placeCost (w : PlaceSumWeights F) (prevRound : List ℕ) (key : ExpertKey) (fetch : F) : F :=
  let node := env.expertHomeNode key.expertIdx
  let recur : F := if key.expertIdx ∈ prevRound then 1 else 0
  let hot := cfg.hotnessUseFreq = true ∧ 0 < cfg.hotnessFhot
  let h : F := if hot then min 1 (cfg.hotnessFreq key / cfg.hotnessFhot) else 0
  let targetRare := cfg.placeOffloadNode ≠ -1 ∧ (w.offnodeProtect ≠ 0 ∨ w.targetRareEncourage ≠ 0) ∧
    (cfg.placeOffloadNode = -2 ∨ env.locationNode key = cfg.placeOffloadNode) ∧
    h < cfg.placeRarityThresh
  let homeHbm := (w.hbmOffloadBase ≠ 0 ∨ w.ddrOffloadPenalty ≠ 0) ∧ 0 ≤ env.locationNode key ∧
    env.nodeIsHbm (env.locationNode key) = true
  cpuPlaceCost w {
    residBaseline := residencyBaseline recur fetch
    numaPenalty := if 0 ≤ node ∧ node ≠ cfg.cpuSolverNode then 1 else 0
    hotness := h
    homeHbm := if homeHbm then 1 else 0
    targetRare := if targetRare then 1 else 0 }

/-- The record of an expert of the command, if it is a miss on a device. -/
def missRecord (K : LoaderConstants F) (w : PlaceSumWeights F) (prevRound : List ℕ)
    (placeSumOn : Bool) (x : ExpertRequest × ℕ) : Option (CpuMiss F) :=
  match K.jOfPos x.1.targetGpu with
  | none => none
  | some j =>
    if x.1.cpuForced = true ∨ x.1.wasCached = true ∨ x.1.isArrived = true then none
    else
      let node := env.expertHomeNode x.1.key.expertIdx
      let locNode := if cfg.placeOffloadNode ≠ -1 then env.locationNode x.1.key else -1
      let fetchNode := if 0 ≤ locNode then locNode else node
      let fetch := K.fetchUs (if 0 ≤ fetchNode then K.bankOfNode fetchNode else 0) j
      let cost := if placeSumOn = true then placeCost cfg env w prevRound x.1.key fetch else 0
      some ⟨fetch, cost, x.2, x.1.key.expertIdx, x.2, j⟩

/-- The input of the decision that some records make up. -/
def offloadInput (K : LoaderConstants F) (chunkWidth : ℕ) (misses : List (CpuMiss F))
    (cnt : ℕ → ℤ) : OffloadInput F where
  K := K
  chunkWidth := chunkWidth
  curve := cfg.curve
  stack j := misses.filter fun m => m.device = j
  sub j := ((misses.filter fun m => m.device = j).map CpuMiss.fetch).sum
  cnt := cnt

def DeviceSetOk (K : LoaderConstants F) (n : ℕ) : Prop :=
  K.numDevices = cfg.nBackends ∧ n ≠ 0 ∧ 0 < K.numDevices ∧ K.numDevices ≤ kMaxDevices

instance (K : LoaderConstants F) (n : ℕ) : Decidable (DeviceSetOk cfg K n) :=
  inferInstanceAs (Decidable (_ ∧ _ ∧ _ ∧ _))

/-- The trained weight is adopted once. -/
def Dispatcher.adopt (d : Dispatcher F) (K : LoaderConstants F) : Dispatcher F :=
  if d.calibAdopted = true then d
  else
    { d with
      calibAdopted := true
      placeSumW :=
        match K.placeWNuma with
        | some wNuma =>
          if cfg.placeSum = true ∧ cfg.placeWNumaEnv = false then
            { d.placeSumW with wNuma := wNuma }
          else d.placeSumW
        | none => d.placeSumW }

def Dispatcher.placeSumOn (d : Dispatcher F) : Bool := cfg.placeSum && !d.placeSumW.allZero

/-- The input of the decision without the shadow solve. -/
def neverLoseInput (K : LoaderConstants F) (d : Dispatcher F) (cmd : FetchAndRunMoe)
    (st : ProgressiveMoeState) : OffloadInput F :=
  let prevRound := if d.placeSumOn cfg = true then d.prevRoundExperts cmd.layerIdx else []
  let misses := st.experts.zipIdx.filterMap
    (missRecord cfg env K d.placeSumW prevRound (d.placeSumOn cfg))
  offloadInput cfg K cmd.numSeqs misses fun j =>
    (st.experts.countP fun er => K.jOfPos er.targetGpu = some j : ℕ)

def applyCpuOffloadNeverLose (d : Dispatcher F) (cmd : FetchAndRunMoe) (st : ProgressiveMoeState) :
    Dispatcher F × ProgressiveMoeState × Option (OffloadInput F × List (CpuMiss F)) :=
  match cfg.constants with
  | none => (d, st, none)
  | some K =>
    let d := d.adopt cfg K
    -- the early return leaves the map as it is
    if ¬DeviceSetOk cfg K cmd.entries.length then (d, st, none)
    else
      let cleared := Function.update d.cpuForcedExperts cmd.layerIdx []
      if cfg.skipB1 = true ∧ cmd.numSeqs ≤ 1 then ({ d with cpuForcedExperts := cleared }, st, none)
      else
        let counted := st.experts.filter fun er => (K.jOfPos er.targetGpu).isSome
        let inp := neverLoseInput cfg env K d cmd st
        let chosen := inp.chooseCpuOffload exp
        let marked := chosen.foldl markChosen (st, [])
        ({ d with
            cpuForcedExperts := Function.update d.cpuForcedExperts cmd.layerIdx marked.2
            prevRoundExperts :=
              if d.placeSumOn cfg = true then
                Function.update d.prevRoundExperts cmd.layerIdx
                  (counted.map fun er => er.key.expertIdx)
              else d.prevRoundExperts },
          marked.1, some (inp, chosen))

/-! ### The shadow solve -/

/-- A routed expert is resident on a device. -/
def cachedOn (K : LoaderConstants F) (e : ExpertPrefetchEntry) (j : ℕ) : Bool :=
  decide (0 ≤ K.position j ∧ K.position j < cfg.nBackends) && env.resident e.key (K.position j)

def pinned (K : LoaderConstants F) (e : ExpertPrefetchEntry) : Option ℕ :=
  if cfg.pinHits = false then none
  else
    match (K.jOfPos e.gpuIdx).filter (cachedOn cfg env K e) with
    | some oj => some oj
    | none =>
      if cfg.placeAffinity = true then (List.range K.numDevices).find? (cachedOn cfg env K e)
      else none

/-- The device on which the solver has placed an expert. -/
def assigned (K : LoaderConstants F) (i : ℕ) : Option ℕ :=
  (env.assignment[i]?).bind fun jj =>
    if 0 ≤ jj ∧ jj < K.numDevices then some jj.toNat else none

/-- The record of an expert in the post-pass, written as `{fetch, i, expert_idx}`: the index of the
entry becomes the placement cost, the expert the index, and the expert itself stays 0. -/
def postRecord (K : LoaderConstants F) (x : ExpertPrefetchEntry × ℕ) : Option (CpuMiss F) :=
  if (pinned cfg env K x.1).isSome then none
  else
    match assigned env K x.2 with
    | none => none
    | some jj =>
      if cachedOn cfg env K x.1 jj = true then none
      else
        let node := env.expertHomeNode x.1.expertIdx
        let bank := if 0 ≤ node then K.bankOfNode node else 0
        some ⟨K.fetchUs bank jj, x.2, x.1.expertIdx, 0, x.2, jj⟩

/-- The guard of the shadow solve. -/
def ShadowSkipped (K : LoaderConstants F) (n : ℕ) : Prop :=
  K.numDevices ≠ cfg.nBackends ∨ n = 0 ∨ kMaxDevices < K.numDevices ∨ kMaxExperts < n

instance (K : LoaderConstants F) (n : ℕ) : Decidable (ShadowSkipped cfg K n) :=
  inferInstanceAs (Decidable (_ ∨ _ ∨ _ ∨ _))

/-- All experts are pinned, so there is nothing to solve. -/
def AllPinned (K : LoaderConstants F) (cmd : FetchAndRunMoe) : Prop :=
  cfg.pinHits = true ∧ cfg.quiet = true ∧ ∀ e ∈ cmd.entries, (pinned cfg env K e).isSome = true

instance (K : LoaderConstants F) (cmd : FetchAndRunMoe) : Decidable (AllPinned cfg env K cmd) :=
  inferInstanceAs (Decidable (_ ∧ _ ∧ _))

def postInput (K : LoaderConstants F) (cmd : FetchAndRunMoe) : OffloadInput F :=
  offloadInput cfg K cmd.numSeqs (cmd.entries.zipIdx.filterMap (postRecord cfg env K)) fun j =>
    ((List.range cmd.entries.length).countP fun i => assigned env K i = some j : ℕ)

/-- What the shadow solve hands back: the experts of the layer in the map, the positions, the
indices that the post-pass has overwritten, and the picks. -/
structure ShadowResult (F : Type) where
  forced : List ℕ
  outPos : List ℤ
  writes : List ℕ
  picks : Option (OffloadInput F × List (CpuMiss F))

/-- `shadow_solve_and_log`. -/
def shadowSolve (K : LoaderConstants F) (cmd : FetchAndRunMoe) : ShadowResult F :=
  let n := cmd.entries.length
  let K := cfg.ablated.getD K
  if ShadowSkipped cfg K n then ⟨[], List.replicate n (-1), [], none⟩
  else if AllPinned cfg env K cmd then
    ⟨[], cmd.entries.map fun e => ((pinned cfg env K e).map K.position).getD (-1), [], none⟩
  else
    let inp := postInput cfg env K cmd
    let chosen := inp.chooseCpuOffload exp
    let solved := (List.range n).map fun i => ((assigned env K i).map K.position).getD (-1)
    let writes := if cfg.act = true then chosen.map CpuMiss.i else []
    ⟨chosen.map CpuMiss.eidx, writes.foldl (fun l i => l.set i (-1)) solved, writes,
      some (inp, chosen)⟩

/-! ### Routing -/

/-- Reading `LS_CPU_EXPERT_FORCE`, once. -/
def Dispatcher.parseForced (d : Dispatcher F) : Dispatcher F :=
  if d.forcedParsed = true then d
  else
    { d with
      forcedParsed := true
      cpuForcedExperts := cfg.force.foldl (fun map x =>
        Function.update map x.1 (map x.1 ++ x.2)) d.cpuForcedExperts }

/-- The experts that the host computes for a layer: `cpu_layer_has_forced` sees to it that the
environment was read. -/
def Dispatcher.hostForced (d : Dispatcher F) (layer : ℕ) : List ℕ :=
  (d.parseForced cfg).cpuForcedExperts layer

/-- The misses are rerouted to the positions that the solver has found. -/
def reroute (solverPos : List ℤ) (st : ProgressiveMoeState) : ProgressiveMoeState :=
  if solverPos.length ≠ st.experts.length then st
  else
    { st with
      experts := st.experts.mapIdx fun i er =>
        let sp := solverPos.getD i (-1)
        if 0 ≤ sp ∧ sp < cfg.nBackends ∧ er.wasCached = false then { er with targetGpu := sp }
        else er }

def freeMiss (forced : List ℕ) (er : ExpertRequest) : Bool :=
  !er.cpuForced && !er.isArrived && decide (er.key.expertIdx ∈ forced)

/-- The free misses whose experts are in the map are marked. -/
def markForced (forced : List ℕ) (st : ProgressiveMoeState) : ProgressiveMoeState where
  experts := st.experts.map fun er =>
    if freeMiss forced er = true then { er with cpuForced := true } else er
  cpuForcedCount := st.cpuForcedCount + st.experts.countP (freeMiss forced)

/-- `route_moe_by_loader`, with the handler's state build before it. -/
def routeMoeByLoader (d : Dispatcher F) (cmd : FetchAndRunMoe) : Dispatcher F :=
  let st := buildState env cmd
  if cfg.shadow = false then
    let x := applyCpuOffloadNeverLose cfg exp env d cmd st
    { x.1 with routed := some ⟨cmd, x.2.1, x.1.hostForced cfg cmd.layerIdx, [], x.2.2⟩ }
  else
    match cfg.constants with
    | none => { d with routed := some ⟨cmd, st, d.hostForced cfg cmd.layerIdx, [], none⟩ }
    | some K =>
      if K.numDevices = 0 then
        { d with routed := some ⟨cmd, st, d.hostForced cfg cmd.layerIdx, [], none⟩ }
      else
        let r := shadowSolve cfg exp env K cmd
        let pos :=
          if cfg.forceIdentity = true then cmd.entries.map fun e => (e.gpuIdx : ℤ) else r.outPos
        let st := if cfg.act = true then reroute cfg pos st else st
        let d :=
          { d with cpuForcedExperts := Function.update d.cpuForcedExperts cmd.layerIdx r.forced }
        let forced := d.hostForced cfg cmd.layerIdx
        { d with routed := some ⟨cmd, markForced r.forced st, forced, r.writes, r.picks⟩ }

/-- A command with what the others answer meanwhile, or the first look at the forced experts of the
environment. -/
inductive RouteAction
  | fetchAndRun (cmd : FetchAndRunMoe) (env : LoaderEnv)
  | parseForced

def Dispatcher.step (d : Dispatcher F) : RouteAction → Option (Dispatcher F)
  | .fetchAndRun cmd env => some (routeMoeByLoader cfg exp env d cmd)
  | .parseForced => some (d.parseForced cfg)

end LayerStorm.GpuLoader
