import LayerStorm.Statistics.ExpertStats

/-!
# Co-activation graph

`CoactivationGraph` keeps one matrix for each MoE layer.  A gating result adds one to the entry of
every pair of experts it activates, every new token multiplies all entries by the decay factor, and
a workload shift multiplies them by another.  The decay of a token is lazy: a layer is decayed when
a result for it arrives, and a query multiplies what it reads by the decay that is pending.

Floats are rationals, so `exp (gap * log decay)` is `decay ^ gap`.  The flat array is a function of
the layer and the two experts, and the token counters are naturals.
-/

namespace LayerStorm.Statistics

/-! ### Data model -/

namespace CoactivationGraph

/-- The options; the experts of a layer are counted with sixteen bits. -/
structure Options where
  numMoeLayers : UInt32
  numExperts : UInt32
  firstMoeLayer : UInt32
  decayFactor : ℚ
  decay_nonneg : 0 ≤ decayFactor
  experts_le : numExperts.toNat ≤ 65535

end CoactivationGraph

/-- The matrices of all layers. -/
structure CoactivationGraph where
  globalTokenCounter : ℕ := 0
  lastSeenTokenId : UInt64 := 0
  hasSeenAnyToken : Bool := false
  lastDecayedToken : ℕ → ℕ := fun _ => 0
  matrices : ℕ → ℕ → ℕ → ℚ := fun _ _ _ => 0
  rowBuf : List ℚ := []

namespace CoactivationGraph

variable (o : Options)

/-! ### Helpers -/

/-- Is the layer within MoE range? -/
def validLayer (layerIdx : UInt32) : Bool :=
  o.firstMoeLayer ≤ layerIdx && layerIdx < o.firstMoeLayer + o.numMoeLayers

def layerOffset (layerIdx : UInt32) : ℕ := (layerIdx - o.firstMoeLayer).toNat

/-- `decay_factor ^ gap`. -/
def computeDecay (gap : ℕ) : ℚ :=
  if gap = 0 then 1
  else if gap = 1 then o.decayFactor
  else o.decayFactor ^ gap

/-- The tokens for which a layer has not been decayed. -/
def gap (st : CoactivationGraph) (off : ℕ) : ℕ :=
  st.globalTokenCounter - st.lastDecayedToken off

/-- Multiply a layer's matrix by the decay for the given token gap. -/
def decayLayer (st : CoactivationGraph) (off gap : ℕ) : CoactivationGraph :=
  { st with matrices := Function.update st.matrices off (fun i j =>
      st.matrices off i j * computeDecay o gap) }

/-! ### Core update -/

def advance (st : CoactivationGraph) (tokenId : UInt64) : CoactivationGraph :=
  if !st.hasSeenAnyToken || tokenId != st.lastSeenTokenId then
    { st with hasSeenAnyToken := true, lastSeenTokenId := tokenId,
              globalTokenCounter := st.globalTokenCounter + 1 }
  else st

/-- Apply pending decay to a layer if it is stale. -/
def settleLayer (st : CoactivationGraph) (off : ℕ) : CoactivationGraph :=
  if gap st off > 0 then
    { decayLayer o st off (gap st off) with
      lastDecayedToken := Function.update st.lastDecayedToken off st.globalTokenCounter }
  else st

/-- One entry of a matrix, plus one. -/
def bump (mat : ℕ → ℕ → ℚ) (i j : ℕ) : ℕ → ℕ → ℚ :=
  Function.update mat i (Function.update (mat i) j (mat i j + 1))

/-- The inner loop for one pair. -/
def incrementPair (ei : UInt16) (mat : ℕ → ℕ → ℚ) (ej : UInt16) : ℕ → ℕ → ℚ :=
  if ej.toUInt32 ≥ o.numExperts || ei == ej then mat
  else bump (bump mat ei.toNat ej.toNat) ej.toNat ei.toNat

/-- Increment all pairwise entries for co-activated experts. -/
def increment : List UInt16 → (ℕ → ℕ → ℚ) → ℕ → ℕ → ℚ
  | [], mat => mat
  | ei :: rest, mat =>
    increment rest (if ei.toUInt32 ≥ o.numExperts then mat else rest.foldl (incrementPair o ei) mat)

def experts (result : GatingResult) : List UInt16 :=
  result.activations.map fun act => act.key.expertIdx

def incrementLayer (st : CoactivationGraph) (off : ℕ) (acts : List UInt16) : CoactivationGraph :=
  { st with matrices := Function.update st.matrices off (increment o acts (st.matrices off)) }

def process (st : CoactivationGraph) (result : GatingResult) : CoactivationGraph :=
  let st := advance st result.tokenId
  if !validLayer o result.layerIdx then st
  else
    let off := layerOffset o result.layerIdx
    incrementLayer o (settleLayer o st off) off (experts result)

def update (st : CoactivationGraph) (completed : List GatingResult) : CoactivationGraph :=
  completed.foldl (process o) st

/-- Multiply all matrices by a factor. -/
def applyShiftDecay (st : CoactivationGraph) (factor : ℚ≥0) : CoactivationGraph :=
  { st with matrices := fun off i j => st.matrices off i j * factor }

/-! ### Queries -/

/-- Co-activation weight between two experts on a layer. -/
def weight (st : CoactivationGraph) (layerIdx : UInt32) (expertI expertJ : UInt16) : ℚ :=
  if !validLayer o layerIdx then 0
  else if expertI.toUInt32 ≥ o.numExperts || expertJ.toUInt32 ≥ o.numExperts then 0
  else if expertI == expertJ then 0
  else
    let off := layerOffset o layerIdx
    let raw := st.matrices off expertI.toNat expertJ.toNat
    if gap st off > 0 then raw * computeDecay o (gap st off) else raw

def row (st : CoactivationGraph) (layerIdx : UInt32) (expertIdx : UInt16) :
    List ℚ × CoactivationGraph :=
  if !validLayer o layerIdx || expertIdx.toUInt32 ≥ o.numExperts then ([], st)
  else
    let off := layerOffset o layerIdx
    let rowStart := (List.range o.numExperts.toNat).map (st.matrices off expertIdx.toNat)
    let buf := if gap st off > 0 then rowStart.map (· * computeDecay o (gap st off)) else rowStart
    (buf, { st with rowBuf := buf })

variable {o}

/-! ### Layers and decay -/

theorem layerOffset_inj {l l' : UInt32} (h : layerOffset o l = layerOffset o l') : l = l' := by
  have := UInt32.toNat_inj.1 h
  simpa using this

@[simp] theorem computeDecay_eq (gap : ℕ) : computeDecay o gap = o.decayFactor ^ gap := by
  unfold computeDecay
  split
  · next h => simp [h]
  split
  · next h => simp [h]
  · rfl

theorem computeDecay_nonneg (gap : ℕ) : 0 ≤ computeDecay o gap := by
  rw [computeDecay_eq]
  exact pow_nonneg o.decay_nonneg gap

variable (o)

/-- An entry with the decay that is pending. -/
def materialized (st : CoactivationGraph) (off i j : ℕ) : ℚ :=
  st.matrices off i j * computeDecay o (gap st off)

variable {o}

theorem materialized_eq_ite (st : CoactivationGraph) (off i j : ℕ) : materialized o st off i j =
    if gap st off > 0 then st.matrices off i j * computeDecay o (gap st off)
    else st.matrices off i j := by
  unfold materialized
  split
  · rfl
  next h =>
  have : gap st off = 0 := by omega
  simp [this]

theorem weight_of_valid (st : CoactivationGraph) {l : UInt32} {i j : UInt16}
    (hl : validLayer o l = true) (hi : i.toNat < o.numExperts.toNat)
    (hj : j.toNat < o.numExperts.toNat) (hij : i ≠ j) :
    weight o st l i j = materialized o st (layerOffset o l) i.toNat j.toNat := by
  have hbound : ∀ e : UInt16, e.toNat < o.numExperts.toNat → ¬ e.toUInt32 ≥ o.numExperts := by
    intro e he
    rw [ge_iff_le, UInt32.le_iff_toNat_le, UInt16.toNat_toUInt32]
    omega
  simp [weight, materialized_eq_ite, hl, hbound i hi, hbound j hj, hij]

/-! ### Increments -/

theorem bump_apply (mat : ℕ → ℕ → ℚ) (i j a b : ℕ) :
    bump mat i j a b = mat a b + if a = i ∧ b = j then 1 else 0 := by
  unfold bump
  by_cases ha : a = i
  · subst ha
    by_cases hb : b = j
    · simp [hb]
    · simp [hb]
  · simp [ha]

/-- How often an expert is among the activations. -/
def occurrences (acts : List UInt16) (e : ℕ) : ℕ := acts.countP fun x => x.toNat = e

@[simp] theorem occurrences_nil (e : ℕ) : occurrences [] e = 0 := rfl

@[simp] theorem occurrences_cons (x : UInt16) (acts : List UInt16) (e : ℕ) :
    occurrences (x :: acts) e = occurrences acts e + if x.toNat = e then 1 else 0 := by
  simp [occurrences, List.countP_cons]

variable (o)

/-- The pairs of activations in which two different experts of the layer meet. -/
def coactivations (acts : List UInt16) (a b : ℕ) : ℕ :=
  if a ≠ b ∧ a < o.numExperts.toNat ∧ b < o.numExperts.toNat then
    occurrences acts a * occurrences acts b
  else 0

variable {o}

theorem coactivations_comm (acts : List UInt16) (a b : ℕ) :
    coactivations o acts a b = coactivations o acts b a := by
  unfold coactivations
  by_cases hab : a = b
  · rw [hab]
  · simp only [ne_eq, hab, Ne.symm hab, not_false_eq_true, true_and, Nat.mul_comm,
      and_comm (a := a < _)]

@[simp] theorem coactivations_self (acts : List UInt16) (a : ℕ) : coactivations o acts a a = 0 := by
  simp [coactivations]

theorem incrementPair_apply {ei : UInt16} (hei : ei.toNat < o.numExperts.toNat) (mat : ℕ → ℕ → ℚ)
    (ej : UInt16) (a b : ℕ) : incrementPair o ei mat ej a b = mat a b +
      if a ≠ b ∧ a < o.numExperts.toNat ∧ b < o.numExperts.toNat ∧
        (ei.toNat = a ∧ ej.toNat = b ∨ ei.toNat = b ∧ ej.toNat = a) then 1 else 0 := by
  unfold incrementPair
  by_cases hskip : ej.toUInt32 ≥ o.numExperts ∨ ei = ej
  · have hno : ¬ (a ≠ b ∧ a < o.numExperts.toNat ∧ b < o.numExperts.toNat ∧
        (ei.toNat = a ∧ ej.toNat = b ∨ ei.toNat = b ∧ ej.toNat = a)) := by
      rintro ⟨hab, ha, hb, hpair⟩
      rcases hskip with hge | rfl
      · rw [ge_iff_le, UInt32.le_iff_toNat_le, UInt16.toNat_toUInt32] at hge
        omega
      · omega
    rw [if_neg hno, add_zero, if_pos (by simpa using hskip)]
  rw [if_neg (by simpa using hskip)]
  rw [not_or, ge_iff_le, UInt32.not_le, UInt32.lt_iff_toNat_lt, UInt16.toNat_toUInt32] at hskip
  have hne : ei.toNat ≠ ej.toNat := fun h => hskip.2 (UInt16.toNat_inj.1 h)
  rw [bump_apply, bump_apply, add_assoc]
  congr 1
  -- the two bumps are at different places, since the experts are
  by_cases h₁ : a = ei.toNat ∧ b = ej.toNat
  · obtain ⟨rfl, rfl⟩ := h₁
    simp [hne, hei, hskip.1]
  by_cases h₂ : a = ej.toNat ∧ b = ei.toNat
  · obtain ⟨rfl, rfl⟩ := h₂
    simp [hne, hne.symm, hei, hskip.1]
  · rw [if_neg h₁, if_neg h₂, if_neg (by omega), add_zero]

theorem foldl_incrementPair {ei : UInt16} (hei : ei.toNat < o.numExperts.toNat) (rest : List UInt16)
    (mat : ℕ → ℕ → ℚ) (a b : ℕ) :
    rest.foldl (incrementPair o ei) mat a b = mat a b +
      ((if a ≠ b ∧ a < o.numExperts.toNat ∧ b < o.numExperts.toNat then
        (if ei.toNat = a then occurrences rest b else 0) +
          (if ei.toNat = b then occurrences rest a else 0)
      else 0 : ℕ) : ℚ) := by
  induction rest generalizing mat with
  | nil => simp
  | cons ej rest ih =>
    rw [List.foldl_cons, ih, incrementPair_apply hei, add_assoc]
    congr 1
    by_cases hab : a ≠ b ∧ a < o.numExperts.toNat ∧ b < o.numExperts.toNat
    · rw [if_pos hab, if_pos hab]
      simp only [hab.1, hab.2.1, hab.2.2, ne_eq, not_false_eq_true, true_and, occurrences_cons]
      have hne := hab.1
      by_cases hea : ei.toNat = a
      · simp [hea, hne, add_comm]
      by_cases heb : ei.toNat = b
      · simp [heb, hne.symm, add_comm]
      · simp [hea, heb]
    · have hno : ¬ (a ≠ b ∧ a < o.numExperts.toNat ∧ b < o.numExperts.toNat ∧
          (ei.toNat = a ∧ ej.toNat = b ∨ ei.toNat = b ∧ ej.toNat = a)) :=
        fun h => hab ⟨h.1, h.2.1, h.2.2.1⟩
      rw [if_neg hab, if_neg hab, if_neg hno]
      simp

theorem increment_apply (acts : List UInt16) (mat : ℕ → ℕ → ℚ) (a b : ℕ) :
    increment o acts mat a b = mat a b + coactivations o acts a b := by
  induction acts generalizing mat with
  | nil => simp [increment, coactivations]
  | cons ei rest ih =>
    rw [increment, ih]
    unfold coactivations
    by_cases hab : a ≠ b ∧ a < o.numExperts.toNat ∧ b < o.numExperts.toNat
    · simp only [if_pos hab, occurrences_cons]
      by_cases hge : ei.toUInt32 ≥ o.numExperts
      · -- an expert out of range is none of the two
        rw [if_pos hge]
        rw [ge_iff_le, UInt32.le_iff_toNat_le, UInt16.toNat_toUInt32] at hge
        simp [show ei.toNat ≠ a by omega, show ei.toNat ≠ b by omega]
      rw [if_neg hge]
      rw [ge_iff_le, UInt32.not_le, UInt32.lt_iff_toNat_lt, UInt16.toNat_toUInt32] at hge
      rw [foldl_incrementPair hge, if_pos hab]
      by_cases hea : ei.toNat = a
      · simp only [hea, hab.1, if_true, if_false]
        push_cast
        ring
      · by_cases heb : ei.toNat = b
        · simp only [heb, Ne.symm hab.1, if_true, if_false]
          push_cast
          ring
        · simp [hea, heb]
    · simp only [if_neg hab]
      by_cases hge : ei.toUInt32 ≥ o.numExperts
      · rw [if_pos hge]
      rw [if_neg hge]
      rw [ge_iff_le, UInt32.not_le, UInt32.lt_iff_toNat_lt, UInt16.toNat_toUInt32] at hge
      rw [foldl_incrementPair hge, if_neg hab]
      simp

/-! ### What an update does to a weight -/

/-- A new token: `advance` takes the first branch. -/
def newToken (st : CoactivationGraph) (tokenId : UInt64) : Bool :=
  !st.hasSeenAnyToken || tokenId != st.lastSeenTokenId

section

variable (st : CoactivationGraph)
include st

@[simp] theorem advance_matrices (t : UInt64) : (advance st t).matrices = st.matrices := by
  unfold advance
  split <;> rfl

@[simp] theorem advance_lastDecayedToken (t : UInt64) :
    (advance st t).lastDecayedToken = st.lastDecayedToken := by
  unfold advance
  split <;> rfl

theorem advance_counter (t : UInt64) : (advance st t).globalTokenCounter =
    if newToken st t then st.globalTokenCounter + 1 else st.globalTokenCounter := by
  unfold advance newToken
  split <;> rfl

@[simp] theorem settleLayer_counter (off : ℕ) :
    (settleLayer o st off).globalTokenCounter = st.globalTokenCounter := by
  unfold settleLayer
  split <;> rfl

@[simp] theorem settleLayer_hasSeenAnyToken (off : ℕ) :
    (settleLayer o st off).hasSeenAnyToken = st.hasSeenAnyToken := by
  unfold settleLayer
  split <;> rfl

@[simp] theorem settleLayer_lastSeenTokenId (off : ℕ) :
    (settleLayer o st off).lastSeenTokenId = st.lastSeenTokenId := by
  unfold settleLayer
  split <;> rfl

theorem gap_settleLayer (off off' : ℕ) :
    gap (settleLayer o st off) off' = if off' = off then 0 else gap st off' := by
  unfold settleLayer
  split
  · by_cases h : off' = off
    · simp [gap, decayLayer, h]
    · simp [gap, decayLayer, h]
  · next hgap =>
    split
    · next h => rw [h]; omega
    · rfl

/-- Settling a layer changes no weight. -/
@[simp] theorem materialized_settleLayer (off off' i j : ℕ) :
    materialized o (settleLayer o st off) off' i j = materialized o st off' i j := by
  unfold materialized
  rw [gap_settleLayer]
  unfold settleLayer
  split
  · by_cases h : off' = off
    · simp [decayLayer, h]
    · simp [decayLayer, h]
  next hgap =>
  split
  · next h =>
    have : gap st off' = 0 := by rw [h]; omega
    simp [this]
  · rfl

theorem materialized_advance (t : UInt64) (off i j : ℕ)
    (h : st.lastDecayedToken off ≤ st.globalTokenCounter) :
    materialized o (advance st t) off i j =
      materialized o st off i j * if newToken st t then o.decayFactor else 1 := by
  simp only [materialized, advance_matrices, gap, advance_lastDecayedToken, advance_counter,
    computeDecay_eq]
  split
  · rw [Nat.sub_add_comm h, pow_succ]
    ring
  · rw [mul_one]

@[simp] theorem gap_incrementLayer (off : ℕ) (acts : List UInt16) (off' : ℕ) :
    gap (incrementLayer o st off acts) off' = gap st off' := rfl

end

variable {st : CoactivationGraph}

theorem materialized_incrementLayer {off : ℕ} (h : gap st off = 0) (acts : List UInt16)
    (off' i j : ℕ) : materialized o (incrementLayer o st off acts) off' i j =
      materialized o st off' i j + if off = off' then (coactivations o acts i j : ℚ) else 0 := by
  unfold materialized
  rw [gap_incrementLayer]
  by_cases hoff : off = off'
  · subst hoff
    simp [incrementLayer, increment_apply, h]
  · simp [incrementLayer, hoff, Ne.symm hoff]

/-- **What a result does to a weight**: a new token decays it, and activations raise it. -/
theorem materialized_process (st : CoactivationGraph) (r : GatingResult) (off i j : ℕ)
    (h : st.lastDecayedToken off ≤ st.globalTokenCounter) :
    materialized o (process o st r) off i j =
      materialized o st off i j * (if newToken st r.tokenId then o.decayFactor else 1) +
        if validLayer o r.layerIdx = true ∧ layerOffset o r.layerIdx = off then
          (coactivations o (experts r) i j : ℚ) else 0 := by
  rw [← materialized_advance st r.tokenId off i j h]
  unfold process
  cases hl : validLayer o r.layerIdx with
  | false => simp
  | true =>
    have hgap : gap (settleLayer o (advance st r.tokenId) (layerOffset o r.layerIdx))
        (layerOffset o r.layerIdx) = 0 := by rw [gap_settleLayer, if_pos rfl]
    simp [materialized_incrementLayer hgap]

theorem lastDecayedToken_process (st : CoactivationGraph) (r : GatingResult)
    (h : ∀ off, st.lastDecayedToken off ≤ st.globalTokenCounter) (off : ℕ) :
    (process o st r).lastDecayedToken off ≤ (process o st r).globalTokenCounter := by
  have hadv : ∀ off, (advance st r.tokenId).lastDecayedToken off ≤
      (advance st r.tokenId).globalTokenCounter := by
    intro off
    rw [advance_lastDecayedToken, advance_counter]
    have := h off
    split <;> omega
  unfold process
  split
  · exact hadv off
  show (settleLayer o _ _).lastDecayedToken off ≤ (settleLayer o _ _).globalTokenCounter
  rw [settleLayer_counter]
  unfold settleLayer
  split
  · by_cases hoff : off = layerOffset o r.layerIdx
    · simp [hoff]
    · simpa [hoff] using hadv off
  · exact hadv off

/-! ### The history of a graph -/

/-- What changes the weights. -/
inductive Event
  | result (r : GatingResult)
  | shift (factor : ℚ≥0)

def lastToken (last : Option UInt64) : List Event → Option UInt64
  | [] => last
  | .result r :: es => lastToken (some r.tokenId) es
  | .shift _ :: es => lastToken last es

/-- How many new tokens begin, when `last` was the token before. -/
def tokensSince (last : Option UInt64) : List Event → ℕ
  | [] => 0
  | .result r :: es =>
    (if last = some r.tokenId then 0 else 1) + tokensSince (some r.tokenId) es
  | .shift _ :: es => tokensSince last es

/-- The product of the shift factors. -/
def shiftsSince : List Event → ℚ
  | [] => 1
  | .result _ :: es => shiftsSince es
  | .shift factor :: es => factor * shiftsSince es

variable (o)

/-- The co-activations of two experts in a result for a layer. -/
def meetings (layerIdx : UInt32) (i j : ℕ) (r : GatingResult) : ℕ :=
  if r.layerIdx = layerIdx then coactivations o (experts r) i j else 0

/-- The eager weight: every co-activation counts with the decay of the tokens since, and with
every shift factor since. -/
def eagerWeight (layerIdx : UInt32) (i j : ℕ) : List Event → ℚ
  | [] => 0
  | .result r :: es => meetings o layerIdx i j r *
      (o.decayFactor ^ tokensSince (some r.tokenId) es * shiftsSince es) +
        eagerWeight layerIdx i j es
  | .shift _ :: es => eagerWeight layerIdx i j es

variable {o}

theorem tokensSince_append (last : Option UInt64) (es es' : List Event) :
    tokensSince last (es ++ es') = tokensSince last es + tokensSince (lastToken last es) es' := by
  induction es generalizing last with
  | nil => simp [tokensSince, lastToken]
  | cons e es ih =>
    cases e with
    | result r => simp [tokensSince, lastToken, ih, Nat.add_assoc]
    | shift f => simp [tokensSince, lastToken, ih]

theorem shiftsSince_append (es es' : List Event) :
    shiftsSince (es ++ es') = shiftsSince es * shiftsSince es' := by
  induction es with
  | nil => simp [shiftsSince]
  | cons e es ih =>
    cases e with
    | result r => simp [shiftsSince, ih]
    | shift f => simp [shiftsSince, ih, mul_assoc]

theorem lastToken_append (last : Option UInt64) (es es' : List Event) :
    lastToken last (es ++ es') = lastToken (lastToken last es) es' := by
  induction es generalizing last with
  | nil => rfl
  | cons e es ih =>
    cases e with
    | result r | shift f => exact ih _

theorem eagerWeight_append (l : UInt32) (i j : ℕ) (last : Option UInt64) (es es' : List Event) :
    eagerWeight o l i j (es ++ es') = eagerWeight o l i j es *
      (o.decayFactor ^ tokensSince (lastToken last es) es' * shiftsSince es') +
        eagerWeight o l i j es' := by
  induction es generalizing last with
  | nil => simp [eagerWeight]
  | cons e es ih =>
    cases e with
    | result r =>
      simp only [List.cons_append, eagerWeight, lastToken, ih (some r.tokenId), tokensSince_append,
        shiftsSince_append, pow_add]
      ring
    | shift f =>
      simp only [List.cons_append, eagerWeight, lastToken]
      exact ih last

theorem eagerWeight_result (l : UInt32) (i j : ℕ) (es : List Event) (r : GatingResult) :
    eagerWeight o l i j (es ++ [.result r]) = eagerWeight o l i j es *
      (if lastToken none es = some r.tokenId then 1 else o.decayFactor) + meetings o l i j r := by
  rw [eagerWeight_append l i j none]
  simp only [eagerWeight, tokensSince, shiftsSince, pow_zero, mul_one, add_zero]
  congr 2
  split <;> simp

theorem eagerWeight_shift (l : UInt32) (i j : ℕ) (es : List Event) (f : ℚ≥0) :
    eagerWeight o l i j (es ++ [.shift f]) = eagerWeight o l i j es * f := by
  rw [eagerWeight_append l i j none]
  simp [eagerWeight, tokensSince, shiftsSince]

/-! ### Runs -/

/-- The calls that change the object; the other queries are functions of it. -/
inductive Call
  | update (completed : List GatingResult)
  | applyShiftDecay (factor : ℚ≥0)
  | row (layerIdx : UInt32) (expertIdx : UInt16)

def Call.events : Call → List Event
  | .update completed => completed.map .result
  | .applyShiftDecay factor => [.shift factor]
  | .row _ _ => []

variable (o)

def perform (st : CoactivationGraph) : Call → CoactivationGraph
  | .update completed => st.update o completed
  | .applyShiftDecay factor => st.applyShiftDecay factor
  | .row layerIdx expertIdx => (st.row o layerIdx expertIdx).2

/-- A sequence of calls on a new object. -/
def run (calls : List Call) : CoactivationGraph := calls.foldl (perform o) {}

structure Faithful (st : CoactivationGraph) (es : List Event) : Prop where
  token : lastToken none es = if st.hasSeenAnyToken then some st.lastSeenTokenId else none
  decayed : ∀ off, st.lastDecayedToken off ≤ st.globalTokenCounter
  eager : ∀ l, validLayer o l = true → ∀ i j,
    materialized o st (layerOffset o l) i j = eagerWeight o l i j es
  symm : ∀ off i j, st.matrices off i j = st.matrices off j i
  diag : ∀ off i, st.matrices off i i = 0
  nonneg : ∀ off i j, 0 ≤ st.matrices off i j
  unused : ∀ off, (∀ l, validLayer o l = true → layerOffset o l ≠ off) →
    ∀ i j, st.matrices off i j = 0

variable {o}

theorem faithful_init : Faithful o {} [] where
  token := rfl
  decayed _ := le_rfl
  eager _ _ _ _ := by simp [materialized, eagerWeight]
  symm _ _ _ := rfl
  diag _ _ := rfl
  nonneg _ _ _ := le_rfl
  unused _ _ _ _ := rfl

variable {es : List Event}

theorem newToken_eq (h : Faithful o st es) (t : UInt64) :
    newToken st t = !decide (lastToken none es = some t) := by
  rw [h.token, newToken]
  cases st.hasSeenAnyToken with
  | false => simp
  | true =>
    rcases eq_or_ne t st.lastSeenTokenId with ht | ht
    · simp [ht]
    · simp [ht, ht.symm]

theorem matrices_settleLayer (st : CoactivationGraph) (off off' : ℕ) :
    ∃ d : ℚ, 0 ≤ d ∧ ∀ i j, (settleLayer o st off).matrices off' i j = st.matrices off' i j * d := by
  unfold settleLayer
  split
  · by_cases hoff : off' = off
    · refine ⟨computeDecay o (gap st off), computeDecay_nonneg _, fun i j => ?_⟩
      simp [decayLayer, hoff]
    · exact ⟨1, zero_le_one, fun i j => by simp [decayLayer, hoff]⟩
  · exact ⟨1, zero_le_one, fun i j => (mul_one _).symm⟩

theorem matrices_process (st : CoactivationGraph) (r : GatingResult) (off : ℕ) :
    ∃ d : ℚ, 0 ≤ d ∧ ∃ acts : List UInt16,
      ((∀ l, validLayer o l = true → layerOffset o l ≠ off) → acts = []) ∧
        ∀ i j, (process o st r).matrices off i j =
          st.matrices off i j * d + coactivations o acts i j := by
  unfold process
  cases hl : validLayer o r.layerIdx with
  | false => exact ⟨1, zero_le_one, [], fun _ => rfl, by simp [coactivations]⟩
  | true =>
    obtain ⟨d, hd, hset⟩ := matrices_settleLayer (o := o) (advance st r.tokenId)
      (layerOffset o r.layerIdx) off
    rw [advance_matrices] at hset
    refine ⟨d, hd, ?_⟩
    by_cases hoff : off = layerOffset o r.layerIdx
    · subst hoff
      refine ⟨experts r, fun hun => absurd rfl (hun _ hl), fun i j => ?_⟩
      simp [incrementLayer, increment_apply, hset]
    · refine ⟨[], fun _ => rfl, fun i j => ?_⟩
      simp [incrementLayer, hoff, hset, coactivations]

section

variable (h : Faithful o st es)
include h

theorem Faithful.process (r : GatingResult) : Faithful o (process o st r) (es ++ [.result r]) where
  token := by
    have hseen : (CoactivationGraph.process o st r).hasSeenAnyToken = true ∧
        (CoactivationGraph.process o st r).lastSeenTokenId = r.tokenId := by
      have hadv : (CoactivationGraph.advance st r.tokenId).hasSeenAnyToken = true ∧
          (CoactivationGraph.advance st r.tokenId).lastSeenTokenId = r.tokenId := by
        unfold CoactivationGraph.advance
        split
        · exact ⟨rfl, rfl⟩
        next hnew =>
        simp only [Bool.or_eq_true, Bool.not_eq_true', bne_iff_ne, ne_eq, not_or,
          Bool.not_eq_false, not_not] at hnew
        exact ⟨hnew.1, hnew.2.symm⟩
      unfold CoactivationGraph.process
      split
      · exact hadv
      · simpa [incrementLayer] using hadv
    rw [hseen.1, hseen.2, lastToken_append]
    rfl
  decayed := lastDecayedToken_process st r h.decayed
  eager l hl i j := by
    rw [materialized_process st r _ i j (h.decayed _), h.eager l hl, eagerWeight_result,
      newToken_eq h]
    congr 1
    · by_cases ht : lastToken none es = some r.tokenId
      · simp [ht]
      · simp [ht]
    · rw [meetings]
      by_cases hr : r.layerIdx = l
      · simp [hr, hl]
      · rw [if_neg fun h => hr (layerOffset_inj h.2), if_neg hr, Nat.cast_zero]
  symm off i j := by
    obtain ⟨d, -, acts, -, heq⟩ := matrices_process (o := o) st r off
    rw [heq, heq, h.symm, coactivations_comm]
  diag off i := by
    obtain ⟨d, -, acts, -, heq⟩ := matrices_process (o := o) st r off
    rw [heq, h.diag, coactivations_self, zero_mul, Nat.cast_zero, add_zero]
  nonneg off i j := by
    obtain ⟨d, hd, acts, -, heq⟩ := matrices_process (o := o) st r off
    rw [heq]
    exact add_nonneg (mul_nonneg (h.nonneg _ _ _) hd) (Nat.cast_nonneg _)
  unused off hun i j := by
    obtain ⟨d, -, acts, hnil, heq⟩ := matrices_process (o := o) st r off
    rw [heq, h.unused off hun, hnil hun, zero_mul]
    simp [coactivations]

theorem Faithful.update (completed : List GatingResult) :
    Faithful o (st.update o completed) (es ++ completed.map .result) := by
  induction completed generalizing st es with
  | nil => simpa [CoactivationGraph.update] using h
  | cons r completed ih =>
    have := ih (h.process r)
    rwa [List.append_assoc] at this

theorem Faithful.applyShiftDecay (f : ℚ≥0) :
    Faithful o (st.applyShiftDecay f) (es ++ [.shift f]) where
  token := by
    rw [lastToken_append]
    exact h.token
  decayed := h.decayed
  eager l hl i j := by
    rw [eagerWeight_shift, ← h.eager l hl i j]
    exact mul_right_comm _ _ _
  symm off i j := congrArg (· * (f : ℚ)) (h.symm off i j)
  diag off i := by
    show st.matrices off i i * f = 0
    rw [h.diag, zero_mul]
  nonneg off i j := mul_nonneg (h.nonneg off i j) f.2
  unused off hun i j := by
    show st.matrices off i j * f = 0
    rw [h.unused off hun, zero_mul]

theorem Faithful.row (l : UInt32) (e : UInt16) : Faithful o (st.row o l e).2 es := by
  unfold CoactivationGraph.row
  split
  · exact h
  · exact { h with }

end

theorem run_append_singleton (calls : List Call) (c : Call) :
    run o (calls ++ [c]) = perform o (run o calls) c := by
  simp [run]

/-- **Pending decay is never lost and never applied twice.** -/
theorem run_faithful (calls : List Call) :
    Faithful o (run o calls) (calls.flatMap Call.events) := by
  induction calls using List.reverseRecOn with
  | nil => exact faithful_init
  | append_singleton calls c ih =>
    rw [run_append_singleton, List.flatMap_append, List.flatMap_singleton]
    cases c with
    | update completed => exact ih.update completed
    | applyShiftDecay f => exact ih.applyShiftDecay f
    | row l e =>
      show Faithful o _ (_ ++ [])
      rw [List.append_nil]
      exact ih.row l e

end CoactivationGraph
end LayerStorm.Statistics
