import Mathlib

/-!
# Per-expert statistics

`ExpertStats` keeps exponentially weighted averages for every expert of every MoE layer: how
often it is activated, and with which routing weight.  The frequency of an expert decays with
every token, but the decay is lazy: it is applied when the expert is activated or asked for.
`frequency_vector` copies the frequencies of all experts into snapshots that are kept for as
long as the token counter stands still, and the normalised queries divide by maxima that are
tracked while updating and computed again from scratch every thousand tokens.

Doubles are rationals, so `exp (gap * log (1 - α))` is `(1 - α) ^ gap`.  The dense arrays are
functions of the index, and the token counters are naturals.
-/

namespace LayerStorm.Statistics

/-! ### Data model -/

structure ExpertKey where
  layerIdx : UInt32
  expertIdx : UInt16
  deriving DecidableEq, Repr

/-- A single expert activation from gating output. -/
structure ExpertActivation where
  key : ExpertKey
  routingWeight : ℚ
  deriving DecidableEq, Repr

/-- Gating result for one pair of a token and a layer. -/
structure GatingResult where
  tokenId : UInt64
  layerIdx : UInt32
  activations : List ExpertActivation
  deriving DecidableEq, Repr

namespace ExpertStats

/-- The options; the rate of the averages is a number between 0 and 1. -/
structure Options where
  ewmaAlpha : ℚ
  numMoeLayers : UInt32
  numExperts : UInt32
  firstMoeLayer : UInt32
  maxRecencyTokens : UInt32
  alpha_nonneg : 0 ≤ ewmaAlpha
  alpha_le_one : ewmaAlpha ≤ 1

end ExpertStats

structure PerExpertState where
  ewmaFrequency : ℚ := 0
  ewmaRoutingWeight : ℚ := 0
  lastUsedToken : ℕ := 0
  lastFreqUpdateToken : ℕ := 0
  deriving DecidableEq, Repr

structure ExpertStats where
  globalTokenCounter : ℕ := 0
  lastSeenTokenId : UInt64 := 0
  hasSeenAnyToken : Bool := false
  states : ℕ → PerExpertState := fun _ => {}
  maxFrequency : ℚ := 0
  maxRoutingWeight : ℚ := 0
  lastFullRecomputeToken : ℕ := 0
  freqSnapshots : ℕ → ℕ → ℚ := fun _ _ => 0
  /-- `freq_snapshot_token_`, which starts as `UINT64_MAX` to force the first computation. -/
  freqSnapshotToken : Option ℕ := none

namespace ExpertStats

variable (o : Options)

/-! ### Helpers -/

/-- `kRecomputeInterval`. -/
def recomputeInterval : ℕ := 1000

/-- The number of states. -/
def Options.total : ℕ := o.numMoeLayers.toNat * o.numExperts.toNat

def stateIndex (key : ExpertKey) : ℕ :=
  (key.layerIdx - o.firstMoeLayer).toNat * o.numExperts.toNat + key.expertIdx.toNat

/-- Is the key within bounds of the dense array? -/
def validKey (key : ExpertKey) : Bool :=
  o.firstMoeLayer ≤ key.layerIdx && key.layerIdx < o.firstMoeLayer + o.numMoeLayers &&
    key.expertIdx.toUInt32 < o.numExperts

/-- `(1 - α) ^ gap`. -/
def decayFactor (gap : ℕ) : ℚ :=
  if gap = 0 then 1
  else if gap = 1 then 1 - o.ewmaAlpha
  else (1 - o.ewmaAlpha) ^ gap

def materializedFrequency (st : ExpertStats) (s : PerExpertState) : ℚ :=
  s.ewmaFrequency * decayFactor o (st.globalTokenCounter - s.lastFreqUpdateToken)

/-! ### Core update -/

def advance (st : ExpertStats) (tokenId : UInt64) : ExpertStats :=
  if !st.hasSeenAnyToken || tokenId != st.lastSeenTokenId then
    { st with hasSeenAnyToken := true, lastSeenTokenId := tokenId,
              globalTokenCounter := st.globalTokenCounter + 1 }
  else st

def activated (st : ExpertStats) (s : PerExpertState) (weight : ℚ) : PerExpertState where
  ewmaFrequency := s.ewmaFrequency * decayFactor o (st.globalTokenCounter - s.lastFreqUpdateToken)
    + o.ewmaAlpha
  lastFreqUpdateToken := st.globalTokenCounter
  ewmaRoutingWeight := (1 - o.ewmaAlpha) * s.ewmaRoutingWeight + o.ewmaAlpha * weight
  lastUsedToken := st.globalTokenCounter

def activate (st : ExpertStats) (act : ExpertActivation) : ExpertStats :=
  if !validKey o act.key then st
  else
    let s := activated o st (st.states (stateIndex o act.key)) act.routingWeight
    { st with
      states := Function.update st.states (stateIndex o act.key) s
      maxFrequency := if s.ewmaFrequency > st.maxFrequency then s.ewmaFrequency
        else st.maxFrequency
      maxRoutingWeight := if s.ewmaRoutingWeight > st.maxRoutingWeight then s.ewmaRoutingWeight
        else st.maxRoutingWeight }

def process (st : ExpertStats) (result : GatingResult) : ExpertStats :=
  result.activations.foldl (activate o) (advance st result.tokenId)

/-- One step of the scan of `recompute_maxima`. -/
def raiseMaxima (st : ExpertStats) (m : ℚ × ℚ) (i : ℕ) : ℚ × ℚ :=
  let s := st.states i
  let freq := materializedFrequency o st s
  (if freq > m.1 then freq else m.1,
    if s.ewmaRoutingWeight > m.2 then s.ewmaRoutingWeight else m.2)

def recomputeMaxima (st : ExpertStats) : ExpertStats :=
  let m := (List.range o.total).foldl (raiseMaxima o st) (0, 0)
  { st with maxFrequency := m.1, maxRoutingWeight := m.2,
            lastFullRecomputeToken := st.globalTokenCounter }

/-- The maxima are due for a full computation. -/
def recomputeDue (st : ExpertStats) : Bool :=
  st.globalTokenCounter - st.lastFullRecomputeToken ≥ recomputeInterval

/-- Called once per orchestrator cycle with completed gating results. -/
def update (st : ExpertStats) (completed : List GatingResult) : ExpertStats :=
  let st := completed.foldl (process o) st
  if recomputeDue st then recomputeMaxima o st else st

/-! ### Queries -/

/-- Activation frequency, normalised. -/
def frequency (st : ExpertStats) (key : ExpertKey) : ℚ :=
  if !validKey o key || st.maxFrequency ≤ 0 then 0
  else min 1 (materializedFrequency o st (st.states (stateIndex o key)) / st.maxFrequency)

def routingWeight (st : ExpertStats) (key : ExpertKey) : ℚ :=
  if !validKey o key || st.maxRoutingWeight ≤ 0 then 0
  else min 1 ((st.states (stateIndex o key)).ewmaRoutingWeight / st.maxRoutingWeight)

/-- The frequency with its decay, not normalised. -/
def rawFrequency (st : ExpertStats) (key : ExpertKey) : ℚ :=
  if !validKey o key then 0
  else materializedFrequency o st (st.states (stateIndex o key))

/-- Make the snapshots those of the current token. -/
def ensureFreqSnapshotsFresh (st : ExpertStats) : ExpertStats :=
  if st.freqSnapshotToken = some st.globalTokenCounter then st
  else
    { st with
      freqSnapshots := fun layer e =>
        materializedFrequency o st (st.states (layer * o.numExperts.toNat + e))
      freqSnapshotToken := some st.globalTokenCounter }

def frequencyVector (st : ExpertStats) (layerIdx : UInt32) : List ℚ × ExpertStats :=
  let moeOffset := layerIdx - o.firstMoeLayer
  if moeOffset ≥ o.numMoeLayers then ([], st)
  else
    let st := ensureFreqSnapshotsFresh o st
    ((List.range o.numExperts.toNat).map (st.freqSnapshots moeOffset.toNat), st)

/-! ### Keys and their states -/

variable {o} {key : ExpertKey}

theorem validKey_iff : validKey o key = true ↔ o.firstMoeLayer.toNat ≤ key.layerIdx.toNat ∧
      key.layerIdx.toNat < (o.firstMoeLayer.toNat + o.numMoeLayers.toNat) % 2 ^ 32 ∧
        key.expertIdx.toNat < o.numExperts.toNat := by
  simp [validKey, UInt32.le_iff_toNat_le, UInt32.lt_iff_toNat_lt, UInt32.toNat_add, and_assoc]

theorem offset_of_valid (h : validKey o key = true) :
    (key.layerIdx - o.firstMoeLayer).toNat = key.layerIdx.toNat - o.firstMoeLayer.toNat ∧
      key.layerIdx.toNat - o.firstMoeLayer.toNat < o.numMoeLayers.toNat := by
  obtain ⟨hlo, hhi, -⟩ := validKey_iff.1 h
  rw [UInt32.toNat_sub]
  omega

theorem stateIndex_inj {k k' : ExpertKey} (h : validKey o k = true) (h' : validKey o k' = true)
    (heq : stateIndex o k = stateIndex o k') : k = k' := by
  obtain ⟨hoff, -⟩ := offset_of_valid h
  obtain ⟨hoff', -⟩ := offset_of_valid h'
  obtain ⟨hlo, -, he⟩ := validKey_iff.1 h
  obtain ⟨hlo', -, he'⟩ := validKey_iff.1 h'
  rw [stateIndex, stateIndex] at heq
  have hdiv := congrArg (· / o.numExperts.toNat) heq
  have hmod := congrArg (· % o.numExperts.toNat) heq
  have hpos : 0 < o.numExperts.toNat := by omega
  simp only [Nat.mul_comm _ o.numExperts.toNat, Nat.mul_add_div hpos, Nat.mul_add_mod,
    Nat.div_eq_of_lt he, Nat.div_eq_of_lt he', Nat.mod_eq_of_lt he, Nat.mod_eq_of_lt he',
    Nat.add_zero] at hdiv hmod
  obtain ⟨l, e⟩ := k
  obtain ⟨l', e'⟩ := k'
  simp only [ExpertKey.mk.injEq]
  exact ⟨UInt32.toNat_inj.1 (by simp only at *; omega), UInt16.toNat_inj.1 hmod⟩

/-! ### Decay -/

theorem decayFactor_eq (gap : ℕ) : decayFactor o gap = (1 - o.ewmaAlpha) ^ gap := by
  unfold decayFactor
  split
  · next h => simp [h]
  split
  · next h => simp [h]
  · rfl

theorem decayFactor_succ (gap : ℕ) :
    decayFactor o (gap + 1) = (1 - o.ewmaAlpha) * decayFactor o gap := by
  rw [decayFactor_eq, decayFactor_eq, pow_succ, mul_comm]

theorem decayFactor_nonneg (gap : ℕ) : 0 ≤ decayFactor o gap := by
  rw [decayFactor_eq]
  exact pow_nonneg (sub_nonneg.2 o.alpha_le_one) gap

/-- A new token: `advance` takes the first branch. -/
def newToken (st : ExpertStats) (tokenId : UInt64) : Bool :=
  !st.hasSeenAnyToken || tokenId != st.lastSeenTokenId

@[simp] theorem advance_states (st : ExpertStats) (t : UInt64) :
    (advance st t).states = st.states := by
  unfold advance
  split <;> rfl

theorem advance_counter (st : ExpertStats) (t : UInt64) : (advance st t).globalTokenCounter =
    if newToken st t then st.globalTokenCounter + 1 else st.globalTokenCounter := by
  unfold advance newToken
  split <;> rfl

variable {st : ExpertStats}

/-- **A new token multiplies every frequency by `1 - α`.** -/
theorem materializedFrequency_advance {s : PerExpertState} (t : UInt64)
    (h : s.lastFreqUpdateToken ≤ st.globalTokenCounter) :
    materializedFrequency o (advance st t) s =
      if newToken st t then (1 - o.ewmaAlpha) * materializedFrequency o st s
      else materializedFrequency o st s := by
  unfold materializedFrequency
  rw [advance_counter]
  split
  · rw [Nat.sub_add_comm h, decayFactor_succ]
    ring
  · rfl

@[simp] theorem activate_counter (st : ExpertStats) (act : ExpertActivation) :
    (activate o st act).globalTokenCounter = st.globalTokenCounter := by
  unfold activate
  split <;> rfl

variable {act : ExpertActivation}

theorem activate_of_invalid (h : validKey o act.key = false) : activate o st act = st := by
  simp [activate, h]

theorem activate_states (h : validKey o act.key = true) : (activate o st act).states =
      Function.update st.states (stateIndex o act.key)
        (activated o st (st.states (stateIndex o act.key)) act.routingWeight) := by
  simp [activate, h]

/-- **An activation adds `α` to the frequency of its expert.** -/
theorem materializedFrequency_activate_self (h : validKey o act.key = true) :
    materializedFrequency o (activate o st act)
        ((activate o st act).states (stateIndex o act.key)) =
      materializedFrequency o st (st.states (stateIndex o act.key)) + o.ewmaAlpha := by
  rw [activate_states h]
  simp [materializedFrequency, activated, decayFactor]

theorem materializedFrequency_activate_of_ne {i : ℕ}
    (hi : validKey o act.key = true → i ≠ stateIndex o act.key) :
    materializedFrequency o (activate o st act) ((activate o st act).states i) =
      materializedFrequency o st (st.states i) := by
  cases h : validKey o act.key with
  | false => rw [activate_of_invalid h]
  | true =>
    rw [activate_states h, Function.update_of_ne (hi h)]
    simp [materializedFrequency]

end ExpertStats
end LayerStorm.Statistics
