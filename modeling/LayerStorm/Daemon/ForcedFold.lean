import LayerStorm.Weights.ExpertSlot

/-!
# The fold of the experts on the CPU

Some routed experts of a layer are forced onto the CPU.  `cpu_forced_produce` masks the routing to
them, lets the CPU device permute the rows of their tokens into groups by expert, looks up the
weights of each expert, runs the expert's projections over the groups, and combines the rows with
the weights of the routing.  An expert whose weights are not found is left out of the lists of
weights and of offsets, but not of the rows.

The kernels of the CPU device are parameters: a projection of one row with the weights at an address,
the activation, and the sums of the combination.  What the permutation does is `Permutes`.

## Main results

* `fold_right_iff` — **the fold is right exactly if the weights of every forced expert with a routed
  token are found.**
-/

namespace LayerStorm.Daemon

open List
namespace ForcedFold

open Weights

variable {Row Val Out : Type}

/-! ### The CPU device -/

/-- The kernels of the CPU device: a row times the weights at an address, SwiGLU of a gate and an up
row, the term of a slot, and the sum of a token over its slots.  A slot that is dropped has neither
weight nor row. -/
structure Kernels (Row Val Out : Type) where
  gemm : KQuant → ℕ → Row → Row
  swiglu : Row → Row → Row
  slotTerm : (bf16Payload : Bool) → Option (Val × Row) → Out
  tokenSum : List (Option (Val × Row)) → Out

/-- `gguf_grouped_gemm`: the block `i` of weights is applied to the rows from offset `i` to offset
`i + 1`; all other rows stay. -/
def groupedGemm {B : Type} {Row' : Type} (f : B → Row → Row') (A : ℕ → Row) :
    List B → List ℕ → (ℕ → Row') → ℕ → Row'
  | b :: bs, o :: o' :: offs, D =>
    groupedGemm f A bs (o' :: offs) fun r => if o ≤ r ∧ r < o' then f b (A r) else D r
  | _, _, D => D

/-- What `moe_permute` returns. -/
structure Permuted (Row : Type) where
  rows : ℕ → Row
  expertOffsets : ℕ → ℕ
  srcToDest : ℕ → Option ℕ

def Routed (nExperts : ℕ) (idx : ℕ → ℤ) (p : ℕ) (e : ℕ) : Prop := idx p = e ∧ e < nExperts

/-- The slots that are routed to an expert are grouped by it in ascending order, with the prefix
counts as offsets; all other slots are dropped. -/
structure Permutes (nExperts topk P : ℕ) (hidden : ℕ → Row) (idx : ℕ → ℤ) (out : Permuted Row) :
    Prop where
  offsets : ∀ e ≤ nExperts,
    out.expertOffsets e = ((List.range P).filter fun p => decide (0 ≤ idx p ∧ idx p < e)).length
  dropped : ∀ p < P, (∀ e, ¬Routed nExperts idx p e) → out.srcToDest p = none
  row : ∀ p < P, ∀ e, Routed nExperts idx p e → ∃ r, out.srcToDest p = some r ∧
    out.expertOffsets e ≤ r ∧ r < out.expertOffsets (e + 1) ∧ out.rows r = hidden (p / topk)

/-! ### The fold -/

/-- The layer as the fold knows it. -/
structure Layer where
  hiddenSize : ℕ
  moeIntermediateSize : ℕ
  nRoutedExperts : ℕ
  numExpertsPerTok : ℕ
  gate : KQuant
  up : KQuant
  down : KQuant
  forced : List UInt16

/-- What is read from the first rank: the normalized hidden rows and the routing. -/
structure Input (Row Val : Type) where
  numTokens : ℕ
  hidden : ℕ → Row
  topkIndices : ℕ → ℤ
  topkWeights : ℕ → Val

/-- What the fold finds: the device, the scratch of the rank, new buffers with what is in them, the
permutation and the addresses of the experts. -/
structure Env (Row : Type) where
  haveCpu : Bool
  scratchReady : Bool
  allocated : Bool
  gateO : ℕ → Row
  upO : ℕ → Row
  downO : ℕ → Row
  permuted : Permuted Row
  hostSource : ℕ → Option ℕ

/-- What became of `cpu_forced_produce`. -/
inductive Produced (Out : Type)
  | failed
  | noop
  | folded (moeO : List Out)
  deriving DecidableEq

variable (K : Kernels Row Val Out) (layer : Layer) (inp : Input Row Val) (env : Env Row)

def slots : ℕ := inp.numTokens * layer.numExpertsPerTok

/-- The routing, masked to the forced experts. -/
def maskedIdx (p : ℕ) : ℤ :=
  let e := inp.topkIndices p
  if (0 ≤ e ∧ e < layer.nRoutedExperts) ∧ layer.forced.any (fun f => decide ((f.toNat : ℤ) = e))
  then e else -1

/-- A forced expert has a routed token. -/
def hasToken (e : ℕ) : Bool :=
  (List.range (slots layer inp)).any fun p => decide (maskedIdx layer inp p = e)

/-- The forced experts in ascending order, as often as they are listed. -/
def forcedSorted : List ℕ := (layer.forced.map UInt16.toNat).insertionSort (· ≤ ·)

/-- The active experts with the addresses of their weights. -/
def active : List (ℕ × ℕ) :=
  (forcedSorted layer).filterMap fun e =>
    if hasToken layer inp e then (env.hostSource e).map fun base => (e, base) else none

def activeOffsets : List ℕ :=
  0 :: (active layer inp env).map fun a => env.permuted.expertOffsets (a.1 + 1)

/-- `run_gemm`: the projection that stands `off` bytes behind the addresses. -/
def runGemm (type : KQuant) (off : ℕ) (A D : ℕ → Row) : ℕ → Row :=
  if (active layer inp env).length = 0 then D
  else groupedGemm (K.gemm type) A ((active layer inp env).map fun a => a.2 + off)
    (activeOffsets layer inp env) D

/-- The rows after the projections, given where the up and the down projection stand. -/
def downRows (upOff downOff : ℕ) : ℕ → Row :=
  let gateO := runGemm K layer inp env layer.gate 0 env.permuted.rows env.gateO
  let upO := runGemm K layer inp env layer.up upOff env.permuted.rows env.upO
  let swig := fun p => K.swiglu (gateO p) (upO p)
  runGemm K layer inp env layer.down downOff swig env.downO

/-- `moe_unpermute` over the slots with their weights and rows. -/
def unpermute (perslot bf16Payload : Bool) (slot : ℕ → Option (Val × Row)) : List Out :=
  if perslot then (List.range (slots layer inp)).map fun p => K.slotTerm bf16Payload (slot p)
  else (List.range inp.numTokens).map fun b =>
    K.tokenSum ((List.range layer.numExpertsPerTok).map fun k =>
      slot (b * layer.numExpertsPerTok + k))

def slotRow (down : ℕ → Row) (p : ℕ) : Option (Val × Row) :=
  (env.permuted.srcToDest p).map fun r => (inp.topkWeights p, down r)

/-- Where the up and the down projection of an expert stand; `none` where the sizes do not fit. -/
def projectionOffs : Option (ℕ × ℕ) :=
  (ggufPackedBytes layer.moeIntermediateSize layer.hiddenSize layer.gate).bind fun upOff =>
    (ggufPackedBytes layer.moeIntermediateSize layer.hiddenSize layer.up).map fun n =>
      (upOff, upOff + n)

def cpuForcedProduce (perslot bf16Payload : Bool) : Produced Out :=
  if layer.forced = [] then .noop
  else if env.haveCpu = false then .failed
  else if slots layer inp = 0 then .noop
  else if env.scratchReady = false then .failed
  else match projectionOffs layer with
    | none => .failed
    | some (upOff, downOff) =>
      if env.allocated = false then .failed
      else .folded (unpermute K layer inp perslot bf16Payload
        (slotRow inp env (downRows K layer inp env upOff downOff)))

/-! ### What it should be -/

/-- An expert's network on one row, with the weights at `base`. -/
def ffn (upOff downOff base : ℕ) (x : Row) : Row :=
  K.gemm layer.down (base + downOff)
    (K.swiglu (K.gemm layer.gate (base + 0) x) (K.gemm layer.up (base + upOff) x))

/-- What should stand in a slot: the weight and the row of its expert, if that is forced and its
weights are found. -/
def expectedSlot (upOff downOff : ℕ) (p : ℕ) : Option (Val × Row) :=
  if maskedIdx layer inp p = -1 then none
  else (env.hostSource (maskedIdx layer inp p).toNat).map fun base =>
    (inp.topkWeights p, ffn K layer upOff downOff base (inp.hidden (p / layer.numExpertsPerTok)))

/-- The address of the weights a row is computed with, if it is computed. -/
def computedWith (r : ℕ) : Option ℕ :=
  groupedGemm (fun base _ => some base) env.permuted.rows ((active layer inp env).map Prod.snd)
    (activeOffsets layer inp env) (fun _ => none) r

/-- **The fold is right**: it combines what should stand in the slots, and every row that is combined
is computed with the weights of its own expert. -/
def RightFold (perslot bf16Payload : Bool) (moeO : List Out) : Prop :=
  (∃ upOff downOff, projectionOffs layer = some (upOff, downOff) ∧
    moeO = unpermute K layer inp perslot bf16Payload (expectedSlot K layer inp env upOff downOff)) ∧
  ∀ p < slots layer inp, ∀ r, env.permuted.srcToDest p = some r →
    ∃ base, env.hostSource (maskedIdx layer inp p).toNat = some base ∧
      computedWith layer inp env r = some base

/-- The weights of the forced experts with a routed token are found. -/
def SourcesFound : Prop :=
  ∀ p < slots layer inp, maskedIdx layer inp p ≠ -1 →
    (env.hostSource (maskedIdx layer inp p).toNat).isSome = true

/-! ### Groups -/

section Groups

variable {Row' : Type} {f : ℕ → Row → Row'} {A : ℕ → Row} {offsets : ℕ → ℕ} {base : ℕ → ℕ}

theorem groupedGemm_before : ∀ (es : List ℕ) (o : ℕ) (D : ℕ → Row') (r : ℕ), r < o →
    es.Pairwise (· ≤ ·) → (∀ e ∈ es, o ≤ offsets (e + 1)) →
    (∀ e e', e ≤ e' → offsets (e + 1) ≤ offsets (e' + 1)) →
    groupedGemm f A (es.map base) (o :: es.map fun e => offsets (e + 1)) D r = D r := by
  intro es
  induction es with
  | nil => exact fun _ _ _ _ _ _ _ => rfl
  | cons a es ih =>
    intro o D r hr hsorted ho hmono
    obtain ⟨ha, hes⟩ := pairwise_cons.1 hsorted
    have hoa : o ≤ offsets (a + 1) := ho a mem_cons_self
    show groupedGemm f A (es.map base) (offsets (a + 1) :: es.map fun e => offsets (e + 1)) _ r = _
    rw [ih _ _ r (by omega) hes (fun e he => hmono a e (ha e he)) hmono, if_neg (by omega)]

/-- **A row of an expert in the list is computed with its weights**, when every expert with rows
behind the offset `o` is in the list. -/
theorem groupedGemm_row {e r : ℕ} (her : offsets e ≤ r) (hre : r < offsets (e + 1))
    (hmono : ∀ e e', e ≤ e' → offsets e ≤ offsets e') :
    ∀ (es : List ℕ) (o : ℕ) (D : ℕ → Row'), es.Pairwise (· ≤ ·) → o ≤ offsets e →
    (∀ a ∈ es, o ≤ offsets (a + 1)) →
    (∀ e', o ≤ offsets e' → offsets e' < offsets (e' + 1) → e' ≤ e → e' ∈ es) →
    groupedGemm f A (es.map base) (o :: es.map fun e => offsets (e + 1)) D r = f (base e) (A r) := by
  intro es
  induction es with
  | nil =>
    intro o D _ ho _ hin
    exact absurd (hin e ho (by omega) le_rfl) not_mem_nil
  | cons a es ih =>
    intro o D hsorted ho hos hin
    obtain ⟨ha, hes⟩ := pairwise_cons.1 hsorted
    have hoa : o ≤ offsets (a + 1) := hos a mem_cons_self
    have hlater : ∀ e' ∈ es, offsets (a + 1) ≤ offsets (e' + 1) := fun e' he' =>
      hmono _ _ (Nat.succ_le_succ (ha e' he'))
    have hmem : e ∈ a :: es := hin e ho (by omega) le_rfl
    show groupedGemm f A (es.map base) (offsets (a + 1) :: es.map fun e => offsets (e + 1)) _ r = _
    by_cases hae : a = e
    · -- the group of the expert, which no later one touches
      subst hae
      rw [groupedGemm_before es _ _ r hre hes hlater fun e e' h => hmono _ _ (Nat.succ_le_succ h),
        if_pos ⟨by omega, hre⟩]
    · -- an earlier expert; no rows lie between its group and the next
      have hle : a ≤ e := by
        rcases mem_cons.1 hmem with heq | htail
        · exact absurd heq.symm hae
        · exact ha e htail
      apply ih (offsets (a + 1)) _ hes (hmono (a + 1) e (by omega)) hlater
      intro e' ho' hrows hle'
      have hne : e' ≠ a := by
        rintro rfl
        omega
      exact (mem_cons.1 (hin e' (by omega) hrows hle')).resolve_left hne

end Groups

/-! ### Prefix counts -/

/-- The number of slots that are routed to an expert below `e`. -/
def count (idx : ℕ → ℤ) (P e : ℕ) : ℕ :=
  ((List.range P).filter fun p => decide (0 ≤ idx p ∧ idx p < e)).length

theorem count_mono {idx : ℕ → ℤ} {P : ℕ} : ∀ e e', e ≤ e' → count idx P e ≤ count idx P e' := by
  intro e e' h
  have hsub : ((range P).filter fun p => decide (0 ≤ idx p ∧ idx p < e)).Sublist
      ((range P).filter fun p => decide (0 ≤ idx p ∧ idx p < e')) := by
    apply monotone_filter_right
    intro p hp
    have hp' := of_decide_eq_true hp
    exact decide_eq_true ⟨hp'.1, by omega⟩
  exact hsub.length_le

theorem exists_of_count_lt {idx : ℕ → ℤ} {P e : ℕ} (h : count idx P e < count idx P (e + 1)) :
    ∃ p < P, idx p = e := by
  by_contra hno
  apply h.ne
  unfold count
  congr 1
  apply filter_congr
  intro p hp
  have hne : idx p ≠ e := fun heq => hno ⟨p, mem_range.1 hp, heq⟩
  apply decide_eq_decide.2
  omega

/-! ### The mask and the active experts -/

variable {K layer inp env}

variable (layer inp) in
theorem maskedIdx_cases (p : ℕ) : maskedIdx layer inp p = -1 ∨
    ∃ e ∈ forcedSorted layer, Routed layer.nRoutedExperts (maskedIdx layer inp) p e := by
  unfold Routed maskedIdx
  dsimp only
  split
  · next h =>
    obtain ⟨⟨hpos, hlt⟩, hany⟩ := h
    obtain ⟨f, hf, heq⟩ := any_eq_true.1 hany
    have hf' : (f.toNat : ℤ) = inp.topkIndices p := of_decide_eq_true heq
    refine .inr ⟨f.toNat, ?_, hf'.symm, by omega⟩
    exact (mem_insertionSort _).2 (mem_map_of_mem hf)
  · exact .inl rfl

theorem not_routed_of_masked {p n : ℕ} (h : maskedIdx layer inp p = -1) (e : ℕ) :
    ¬Routed n (maskedIdx layer inp) p e := by
  rintro ⟨heq, -⟩
  omega

/-- The active experts, without their addresses. -/
def kept (layer : Layer) (inp : Input Row Val) (env : Env Row) : List ℕ :=
  (forcedSorted layer).filter fun e => hasToken layer inp e && (env.hostSource e).isSome

/-- The address of an expert that is found. -/
def baseOf (env : Env Row) (e : ℕ) : ℕ := (env.hostSource e).getD 0

theorem active_eq : active layer inp env = (kept layer inp env).map fun e => (e, baseOf env e) := by
  unfold active kept
  induction forcedSorted layer with
  | nil => rfl
  | cons e es ih =>
    by_cases ht : hasToken layer inp e = true
    · cases hs : env.hostSource e with
      | none => simp [ht, hs, ih]
      | some base => simp [ht, hs, ih, baseOf]
    · simp [ht, ih]

theorem pairwise_kept : (kept layer inp env).Pairwise (· ≤ ·) :=
  (pairwise_insertionSort (· ≤ ·) _).filter _

theorem mem_kept {e : ℕ} : e ∈ kept layer inp env ↔
    e ∈ forcedSorted layer ∧ (∃ p < slots layer inp, maskedIdx layer inp p = e) ∧
      (env.hostSource e).isSome = true := by
  simp [kept, hasToken]

theorem kept_lt {e : ℕ} (h : e ∈ kept layer inp env) : e < layer.nRoutedExperts := by
  obtain ⟨-, ⟨p, -, hp⟩, -⟩ := mem_kept.1 h
  rcases maskedIdx_cases layer inp p with hmask | ⟨e', -, hidx, hlt⟩
  · omega
  · have hee : e = e' := by exact_mod_cast hp.symm.trans hidx
    exact hee ▸ hlt

/-! ### The rows -/

section Rows

variable (hperm : Permutes layer.nRoutedExperts layer.numExpertsPerTok (slots layer inp) inp.hidden
  (maskedIdx layer inp) env.permuted)
include hperm

theorem activeOffsets_eq : activeOffsets layer inp env = 0 :: (kept layer inp env).map fun e =>
    count (maskedIdx layer inp) (slots layer inp) (e + 1) := by
  unfold activeOffsets
  rw [active_eq, map_map]
  congr 1
  apply map_congr_left
  exact fun e he => hperm.offsets (e + 1) (kept_lt he)

variable (hfound : SourcesFound layer inp env)
include hfound

theorem groups_row {Row' : Type} (f : ℕ → Row → Row') (A : ℕ → Row) (D : ℕ → Row')
    (base : ℕ → ℕ) {p e r : ℕ} (hp : p < slots layer inp)
    (he : Routed layer.nRoutedExperts (maskedIdx layer inp) p e)
    (hr : env.permuted.srcToDest p = some r) :
    groupedGemm f A ((kept layer inp env).map base) (activeOffsets layer inp env) D r =
      f (base e) (A r) := by
  obtain ⟨r', hr', hle, hlt, -⟩ := hperm.row p hp e he
  obtain rfl : r = r' := Option.some.inj (hr.symm.trans hr')
  rw [hperm.offsets e he.2.le] at hle
  rw [hperm.offsets (e + 1) he.2] at hlt
  rw [activeOffsets_eq hperm]
  apply groupedGemm_row hle hlt count_mono _ _ _ pairwise_kept (Nat.zero_le _)
    fun _ _ => Nat.zero_le _
  -- an expert with rows has a routed token, so it is forced and found
  intro e' _ hrows _
  obtain ⟨q, hq, hidx⟩ := exists_of_count_lt hrows
  rcases maskedIdx_cases layer inp q with hmask | ⟨e'', hforced, hidx', -⟩
  · omega
  have hee : e' = e'' := by exact_mod_cast hidx.symm.trans hidx'
  subst hee
  have hsome := hfound q hq (by omega)
  rw [hidx] at hsome
  exact mem_kept.2 ⟨hforced, ⟨q, hq, hidx⟩, hsome⟩

theorem runGemm_row (type : KQuant) (off : ℕ) (A D : ℕ → Row) {p e r : ℕ}
    (hp : p < slots layer inp) (he : Routed layer.nRoutedExperts (maskedIdx layer inp) p e)
    (hr : env.permuted.srcToDest p = some r) :
    runGemm K layer inp env type off A D r = K.gemm type (baseOf env e + off) (A r) := by
  have hrow := groups_row hperm hfound (K.gemm type) A D (fun e => baseOf env e + off) hp he hr
  have hptrs : (active layer inp env).map (fun a => a.2 + off) =
      (kept layer inp env).map fun e => baseOf env e + off := by
    rw [active_eq, map_map]
    rfl
  unfold runGemm
  rw [hptrs]
  split
  · next hzero =>
    -- without active experts there is no slot that is routed to one
    exfalso
    have hne : (env.hostSource e).isSome = true := by
      have h := hfound p hp (by rw [he.1]; omega)
      rwa [he.1, Int.toNat_natCast] at h
    have hmem : e ∈ kept layer inp env := by
      rcases maskedIdx_cases layer inp p with hmask | ⟨e', hforced, hidx, -⟩
      · exact absurd he (not_routed_of_masked hmask e)
      · have hee : e = e' := by exact_mod_cast he.1.symm.trans hidx
        exact mem_kept.2 ⟨hee ▸ hforced, ⟨p, hp, he.1⟩, hne⟩
    rw [active_eq, length_map, length_eq_zero_iff] at hzero
    rw [hzero] at hmem
    exact not_mem_nil hmem
  · exact hrow

theorem slotRow_eq (upOff downOff : ℕ) {p : ℕ} (hp : p < slots layer inp) :
    slotRow inp env (downRows K layer inp env upOff downOff) p =
      expectedSlot K layer inp env upOff downOff p := by
  unfold slotRow expectedSlot
  rcases maskedIdx_cases layer inp p with hmask | ⟨e, -, he⟩
  · rw [if_pos hmask, hperm.dropped p hp (not_routed_of_masked hmask)]
    rfl
  have hne : maskedIdx layer inp p ≠ -1 := by rw [he.1]; omega
  obtain ⟨r, hr, -, -, hrow⟩ := hperm.row p hp e he
  obtain ⟨base, hbase⟩ := Option.isSome_iff_exists.1 (hfound p hp hne)
  have hdown : downRows K layer inp env upOff downOff r =
      ffn K layer upOff downOff base (inp.hidden (p / layer.numExpertsPerTok)) := by
    rw [he.1, Int.toNat_natCast] at hbase
    unfold downRows ffn
    rw [runGemm_row hperm hfound _ _ _ _ hp he hr, runGemm_row hperm hfound _ _ _ _ hp he hr,
      runGemm_row hperm hfound _ _ _ _ hp he hr, hrow, baseOf, hbase, Option.getD_some]
  rw [if_neg hne, hr, hbase, Option.map_some, Option.map_some, hdown]

theorem computedWith_eq {p e r : ℕ} (hp : p < slots layer inp)
    (he : Routed layer.nRoutedExperts (maskedIdx layer inp) p e)
    (hr : env.permuted.srcToDest p = some r) :
    computedWith layer inp env r = some (baseOf env e) := by
  have hbases : (active layer inp env).map Prod.snd =
      (kept layer inp env).map fun e => baseOf env e := by
    rw [active_eq, map_map]
    rfl
  unfold computedWith
  rw [hbases, groups_row hperm hfound (fun base _ => some base) _ _ (baseOf env) hp he hr]

end Rows

theorem unpermute_congr {perslot bf16Payload : Bool} {slot slot' : ℕ → Option (Val × Row)}
    (h : ∀ p < slots layer inp, slot p = slot' p) :
    unpermute K layer inp perslot bf16Payload slot =
      unpermute K layer inp perslot bf16Payload slot' := by
  unfold unpermute
  split
  · apply map_congr_left
    exact fun p hp => by rw [h p (mem_range.1 hp)]
  apply map_congr_left
  intro b hb
  congr 1
  apply map_congr_left
  intro k hk
  apply h
  have hb' := mem_range.1 hb
  have hk' := mem_range.1 hk
  calc b * layer.numExpertsPerTok + k < b * layer.numExpertsPerTok + layer.numExpertsPerTok := by
        omega
    _ = (b + 1) * layer.numExpertsPerTok := (Nat.succ_mul _ _).symm
    _ ≤ inp.numTokens * layer.numExpertsPerTok := Nat.mul_le_mul_right _ hb'

theorem cpuForcedProduce_folded {perslot bf16Payload : Bool} {moeO : List Out}
    (h : cpuForcedProduce K layer inp env perslot bf16Payload = .folded moeO) :
    ∃ upOff downOff, projectionOffs layer = some (upOff, downOff) ∧
      moeO = unpermute K layer inp perslot bf16Payload
        (slotRow inp env (downRows K layer inp env upOff downOff)) := by
  unfold cpuForcedProduce at h
  cases hoffs : projectionOffs layer with
  | none =>
    rw [hoffs] at h
    split_ifs at h
  | some offs =>
    rw [hoffs] at h
    split_ifs at h
    cases h
    exact ⟨offs.1, offs.2, rfl, rfl⟩

theorem cpuForcedProduce_noop {perslot bf16Payload : Bool}
    (h : cpuForcedProduce K layer inp env perslot bf16Payload = .noop) :
    layer.forced = [] ∨ slots layer inp = 0 := by
  by_contra hno
  obtain ⟨hforced, hslots⟩ := not_or.1 hno
  unfold cpuForcedProduce at h
  rw [if_neg hforced] at h
  cases hoffs : projectionOffs layer with
  | none | some offs =>
    rw [hoffs] at h
    split_ifs at h

/-- **The fold is right exactly if the weights of every forced expert with a routed token are
found**; and where nothing is folded, no slot is routed to a forced expert. -/
theorem fold_right_iff (K : Kernels Row Val Out) (layer : Layer) (inp : Input Row Val)
    (env : Env Row) (perslot bf16Payload : Bool)
    (hperm : Permutes layer.nRoutedExperts layer.numExpertsPerTok (slots layer inp) inp.hidden
      (maskedIdx layer inp) env.permuted) :
    (∀ moeO, cpuForcedProduce K layer inp env perslot bf16Payload = .folded moeO →
      (RightFold K layer inp env perslot bf16Payload moeO ↔ SourcesFound layer inp env)) ∧
    (cpuForcedProduce K layer inp env perslot bf16Payload = .noop →
      ∀ p < slots layer inp, maskedIdx layer inp p = -1) := by
  refine ⟨fun moeO h => ⟨fun hright p hp hne => ?_, fun hfound => ?_⟩, fun h p hp => ?_⟩
  · -- a slot that is kept is combined, so its row has weights
    rcases maskedIdx_cases layer inp p with hmask | ⟨e, -, he⟩
    · exact absurd hmask hne
    obtain ⟨r, hr, -⟩ := hperm.row p hp e he
    obtain ⟨base, hbase, -⟩ := hright.2 p hp r hr
    exact Option.isSome_iff_exists.2 ⟨base, hbase⟩
  · constructor
    · obtain ⟨upOff, downOff, hoffs, rfl⟩ := cpuForcedProduce_folded h
      exact ⟨upOff, downOff, hoffs, unpermute_congr fun p hp =>
        slotRow_eq hperm hfound upOff downOff hp⟩
    · intro p hp r hr
      rcases maskedIdx_cases layer inp p with hmask | ⟨e, -, he⟩
      · rw [hperm.dropped p hp (not_routed_of_masked hmask)] at hr
        cases hr
      have hne : maskedIdx layer inp p ≠ -1 := by rw [he.1]; omega
      obtain ⟨base, hbase⟩ := Option.isSome_iff_exists.1 (hfound p hp hne)
      refine ⟨base, hbase, ?_⟩
      rw [he.1, Int.toNat_natCast] at hbase
      rw [computedWith_eq hperm hfound hp he hr, baseOf, hbase, Option.getD_some]
  · rcases cpuForcedProduce_noop h with hforced | hslots
    · rcases maskedIdx_cases layer inp p with hmask | ⟨e, hmem, -⟩
      · exact hmask
      · simp [forcedSorted, hforced] at hmem
    · omega

/-! ### A dropped expert -/

/-- Kernels that write down what they are asked for: a row is the list of the addresses its numbers
come from. -/
def traceKernels : Kernels (List ℕ) ℕ (Option (ℕ × List ℕ)) where
  gemm _ address x := address :: x
  swiglu gate up := gate ++ up
  slotTerm _ slot := slot
  tokenSum slots := (slots.filterMap id).head?

/-- One token that is routed to the experts 1 and 3, both of them forced. -/
def sampleLayer : Layer := ⟨256, 256, 4, 2, .q80, .q80, .q80, [3, 1]⟩

/-- The row of the token is `[7]`. -/
def sampleInput : Input (List ℕ) ℕ := ⟨1, fun _ => [7], fun p => if p = 0 then 1 else 3, fun p => p⟩

/-- The rows of the slots in the order of their experts. -/
def samplePermuted : Permuted (List ℕ) :=
  ⟨fun _ => [7], fun e => if e ≤ 1 then 0 else if e ≤ 3 then 1 else 2, fun p => some p⟩

/-- What the fold finds, with the addresses of the experts. -/
def sampleEnv (hostSource : ℕ → Option ℕ) : Env (List ℕ) where
  haveCpu := true
  scratchReady := true
  allocated := true
  gateO _ := []
  upO _ := []
  downO _ := []
  permuted := samplePermuted
  hostSource := hostSource

theorem sample_permutes : Permutes sampleLayer.nRoutedExperts sampleLayer.numExpertsPerTok
    (slots sampleLayer sampleInput) sampleInput.hidden (maskedIdx sampleLayer sampleInput)
    samplePermuted where
  offsets e he := by
    have hcases : e = 0 ∨ e = 1 ∨ e = 2 ∨ e = 3 ∨ e = 4 := by
      have : e ≤ 4 := he
      omega
    rcases hcases with rfl | rfl | rfl | rfl | rfl <;> decide
  dropped p hp h := by
    have hcases : p = 0 ∨ p = 1 := by
      have : p < 2 := hp
      omega
    rcases hcases with rfl | rfl
    · exact absurd ⟨by decide, by decide⟩ (h 1)
    · exact absurd ⟨by decide, by decide⟩ (h 3)
  row p hp e he := by
    have hcases : p = 0 ∨ p = 1 := by
      have : p < 2 := hp
      omega
    rcases hcases with rfl | rfl
    · have hidx : maskedIdx sampleLayer sampleInput 0 = 1 := by decide
      obtain rfl : e = 1 := by exact_mod_cast he.1.symm.trans hidx
      exact ⟨0, by decide, by decide, by decide, by decide⟩
    · have hidx : maskedIdx sampleLayer sampleInput 1 = 3 := by decide
      obtain rfl : e = 3 := by exact_mod_cast he.1.symm.trans hidx
      exact ⟨1, by decide, by decide, by decide, by decide⟩

/-- All weights are found: every row is the network of its own expert. -/
theorem fold_right_sample :
    RightFold traceKernels sampleLayer sampleInput (sampleEnv fun e => some (1000 * e)) true false
      [some (0, [140264, 1000, 7, 70632, 7]), some (1, [142264, 3000, 7, 72632, 7])] := by
  refine ((fold_right_iff traceKernels sampleLayer sampleInput
    (sampleEnv fun e => some (1000 * e)) true false sample_permutes).1 _ ?_).2 fun p _ _ => rfl
  decide

/-- The addresses of the experts, but for expert 1. -/
def droppedSource (e : ℕ) : Option ℕ := if e = 1 then none else some (1000 * e)

/-- The weights of expert 1 are not found: its row is computed with those of expert 3, whose own row
is the second one, and both are combined. -/
theorem dropped_expert_folded :
    cpuForcedProduce traceKernels sampleLayer sampleInput (sampleEnv droppedSource) true false =
      .folded [some (0, [142264, 3000, 7, 72632, 7]), some (1, [142264, 3000, 7, 72632, 7])] ∧
    computedWith sampleLayer sampleInput (sampleEnv droppedSource) 0 = some 3000 ∧
    ∀ moeO, ¬RightFold traceKernels sampleLayer sampleInput (sampleEnv droppedSource) true false
      moeO := by
  refine ⟨by decide, by decide, fun moeO h => ?_⟩
  obtain ⟨base, hbase, -⟩ := h.2 0 (by decide) 0 rfl
  have hnone : (sampleEnv droppedSource).hostSource (maskedIdx sampleLayer sampleInput 0).toNat =
      none := by decide
  exact absurd (hnone.symm.trans hbase) nofun

end ForcedFold
end LayerStorm.Daemon
