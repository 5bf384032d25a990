import LayerStorm.Lib.Tiling
import LayerStorm.Weights.ExpertSlot

/-!
# Packed projections and their row slices

An output element of an expert GEMM is a function of one packed weight row and one activation row.
In an NVFP4 projection the nibbles of a row stand one behind the other, its group scales are
interleaved with those of the other rows of an atom of 128 rows, and two scalars stand at the end; a
GGUF row is a stretch of bytes.  A slice of the rows can be staged as a projection of its own.
-/

namespace LayerStorm.Compute

open Lib List Nat

/-- `GgufQuantType`; it has the members of the k-quant types of the weights. -/
abbrev GgufQuantType := Weights.KQuant

/-- The two kinds of packed weights. -/
inductive Format
  | nvfp4
  | gguf (type : GgufQuantType)
  deriving DecidableEq, Repr

/-! ### Layout -/

def kProjAlign : ℕ := 128

def kScaleRowAtom : ℕ := 128

def kScaleAtomBytes : ℕ := 512

def kGroupCols : ℕ := 4

def nvfp4ProjBytes (N K : ℕ) : ℕ :=
  let params := N * K
  let raw := (params + 1) / 2 + (params + 15) / 16 + 8
  (raw + kProjAlign - 1) / kProjAlign * kProjAlign

def scaleByteIndex (n g groups : ℕ) : ℕ :=
  (n / 128 * ((groups + 3) / 4) + g / 4) * 512 + n % 32 * 16 + n % 128 / 32 * 4 + g % 4

inductive PackedRow
  | nvfp4 (fp4 scales weightScale2 inputScale : List UInt8)
  | gguf (bytes : List UInt8)
  deriving DecidableEq

def bytesAt (read : ℕ → UInt8) (p len : ℕ) : List UInt8 := (List.range len).map fun i => read (p + i)

/-- Row `n` of a packed projection of `N` rows that stands at `p`; `wrow` is the length of a GGUF
row. -/
def packedRow (format : Format) (wrow : ℕ) (read : ℕ → UInt8) (p N K n : ℕ) : PackedRow :=
  match format with
  | .nvfp4 =>
    .nvfp4 (bytesAt read (p + n * K / 2) (K / 2)) ((List.range (K / 16)).map fun g =>
        read (p + ((N * K + 1) / 2 + scaleByteIndex n g (K / 16))))
      (bytesAt read (p + (nvfp4ProjBytes N K - 8)) 4)
      (bytesAt read (p + (nvfp4ProjBytes N K - 4)) 4)
  | .gguf _ => .gguf (bytesAt read (p + n * wrow) wrow)

/-! ### Staging -/

/-- A copy of `len` bytes between offsets of the staged slice and of the projection. -/
structure Copy where
  dst : ℕ
  src : ℕ
  len : ℕ
  deriving DecidableEq, Repr

/-- The size of a staged slice of `Nj` rows. -/
def sliceBytes (format : Format) (wrow Nj K : ℕ) : ℕ :=
  match format with
  | .nvfp4 => nvfp4ProjBytes Nj K
  | .gguf _ => Nj * wrow

/-- The copies of `stage_proj_slice`: the nibbles, the scales and the scalars at the end; or the
one copy of a GGUF slice. -/
def stageCopies (format : Format) (wrow N K n0 n1 : ℕ) : List Copy :=
  let Nj := n1 - n0
  match format with
  | .nvfp4 =>
    let G := K / 16
    let nblkG := (G + kGroupCols - 1) / kGroupCols
    [⟨0, n0 * K / 2, Nj * K / 2⟩,
      ⟨(Nj * K + 1) / 2, (N * K + 1) / 2 + n0 / kScaleRowAtom * nblkG * kScaleAtomBytes,
        if Nj % kScaleRowAtom = 0 then Nj / kScaleRowAtom * nblkG * kScaleAtomBytes else Nj * G⟩,
      ⟨nvfp4ProjBytes Nj K - 8, nvfp4ProjBytes N K - 8, 8⟩]
  | .gguf _ => [⟨0, n0 * wrow, Nj * wrow⟩]

/-- The staged slice at `dst` holds what the copies take from the projection at `src`. -/
def Copied (read mem : ℕ → UInt8) (dst src : ℕ) (copies : List Copy) : Prop :=
  ∀ c ∈ copies, ∀ i < c.len, read (dst + c.dst + i) = mem (src + c.src + i)

/-- A slice that can be staged: of an NVFP4 projection, whole atoms. -/
def Aligned (format : Format) (K n0 n1 : ℕ) : Prop :=
  format = .nvfp4 → 64 ∣ K ∧ 128 ∣ n0 ∧ 128 ∣ n1

variable {format : Format} {wrow N K n0 n1 : ℕ}

theorem nvfp4_room (Nj K : ℕ) : Nj * K / 2 + Nj * K / 16 + 8 ≤ nvfp4ProjBytes Nj K := by
  unfold nvfp4ProjBytes kProjAlign
  dsimp only
  omega

theorem scale_len {Nj : ℕ} (hK : 64 ∣ K) (hN : 128 ∣ Nj) :
    Nj / 128 * ((K / 16 + 4 - 1) / 4) * 512 = Nj * K / 16 := by
  obtain ⟨k, rfl⟩ := hK
  obtain ⟨a, rfl⟩ := hN
  have h₁ : 64 * k / 16 = 4 * k := by omega
  have h₂ : (4 * k + 4 - 1) / 4 = k := by omega
  have h₃ : 128 * a * (64 * k) = 16 * (512 * (a * k)) := by ring
  rw [h₁, h₂, h₃, Nat.mul_div_cancel_left _ (by decide), Nat.mul_div_cancel_left _ (by decide)]
  ring

theorem nibble_len {Nj : ℕ} (hN : 128 ∣ Nj) : (Nj * K + 1) / 2 = Nj * K / 2 := by
  obtain ⟨a, rfl⟩ := hN
  rw [mul_assoc]
  omega

theorem stageCopies_nvfp4 (hN : 128 ∣ n1 - n0) : stageCopies .nvfp4 wrow N K n0 n1 =
    [⟨0, n0 * K / 2, (n1 - n0) * K / 2⟩,
      ⟨((n1 - n0) * K + 1) / 2, (N * K + 1) / 2 + n0 / 128 * ((K / 16 + 4 - 1) / 4) * 512,
        (n1 - n0) / 128 * ((K / 16 + 4 - 1) / 4) * 512⟩,
      ⟨nvfp4ProjBytes (n1 - n0) K - 8, nvfp4ProjBytes N K - 8, 8⟩] := by
  have hmod : (n1 - n0) % kScaleRowAtom = 0 := mod_eq_zero_of_dvd hN
  simp only [stageCopies, if_pos hmod]
  rfl

theorem stageCopies_apart (h : Aligned format K n0 n1) :
    (stageCopies format wrow N K n0 n1).Pairwise (fun c c' => c.dst + c.len ≤ c'.dst) ∧
      ∀ c ∈ stageCopies format wrow N K n0 n1,
        c.dst + c.len ≤ sliceBytes format wrow (n1 - n0) K := by
  cases format with
  | gguf t =>
    refine ⟨pairwise_singleton _ _, fun c hc => ?_⟩
    obtain rfl := mem_singleton.1 hc
    exact (zero_add _).le
  | nvfp4 =>
    obtain ⟨hK, h0, h1⟩ := h rfl
    have hN : 128 ∣ n1 - n0 := dvd_sub h1 h0
    have hscale := scale_len hK hN
    have hnib := nibble_len (K := K) hN
    have hroom := nvfp4_room (n1 - n0) K
    simp only [stageCopies_nvfp4 hN, hscale, hnib, pairwise_cons, forall_mem_cons,
      not_mem_nil, false_imp_iff, implies_true, and_true, List.Pairwise.nil, sliceBytes]
    omega

theorem scaleByteIndex_add {i g groups : ℕ} (h0 : 128 ∣ n0) : scaleByteIndex (n0 + i) g groups =
      n0 / 128 * ((groups + 4 - 1) / 4) * 512 + scaleByteIndex i g groups := by
  obtain ⟨a, rfl⟩ := h0
  have h₁ : (128 * a + i) / 128 = a + i / 128 := by omega
  have h₂ : (128 * a + i) % 32 = i % 32 := by omega
  have h₃ : (128 * a + i) % 128 = i % 128 := by omega
  have h₄ : 128 * a / 128 = a := by omega
  have h₅ : groups + 4 - 1 = groups + 3 := by omega
  simp only [scaleByteIndex, h₁, h₂, h₃, h₄, h₅]
  ring

theorem scaleByteIndex_lt {i g groups Nj : ℕ} (hN : 128 ∣ Nj) (hi : i < Nj) (hg : g < groups) :
    scaleByteIndex i g groups < Nj / 128 * ((groups + 4 - 1) / 4) * 512 := by
  obtain ⟨a, rfl⟩ := hN
  have hrow : i / 128 < a := by omega
  have htile : (i / 128 * ((groups + 4 - 1) / 4) + g / 4) + 1 ≤ a * ((groups + 4 - 1) / 4) := by
    have hmul := mul_le_mul_right ((groups + 4 - 1) / 4) hrow
    rw [succ_mul] at hmul
    omega
  have hdiv : 128 * a / 128 = a := by omega
  have h₃ : groups + 4 - 1 = groups + 3 := by omega
  rw [hdiv]
  unfold scaleByteIndex
  rw [h₃] at htile ⊢
  omega

theorem bytesAt_congr {read mem : ℕ → UInt8} {p q len : ℕ}
    (h : ∀ i < len, read (p + i) = mem (q + i)) : bytesAt read p len = bytesAt mem q len :=
  map_congr_left fun i hi => h i (mem_range.1 hi)

/-- **A row of the staged slice is the row of the projection.** -/
theorem packedRow_of_copied {read mem : ℕ → UInt8} {dst src i : ℕ} (h : Aligned format K n0 n1)
    (hc : Copied read mem dst src (stageCopies format wrow N K n0 n1)) (hi : i < n1 - n0) :
    packedRow format wrow read dst (n1 - n0) K i = packedRow format wrow mem src N K (n0 + i) := by
  cases format with
  | gguf t =>
    have hcopy := hc _ (mem_singleton_self _)
    have hrow : (i + 1) * wrow ≤ (n1 - n0) * wrow := mul_le_mul_right _ hi
    rw [succ_mul] at hrow
    refine congrArg _ (bytesAt_congr fun k hk => ?_)
    have hat := hcopy (i * wrow + k) (by dsimp only; omega)
    have hmul : (n0 + i) * wrow = n0 * wrow + i * wrow := add_mul _ _ _
    dsimp only at hat
    convert hat using 2
    · omega
    · omega
  | nvfp4 =>
    obtain ⟨hK, h0, h1⟩ := h rfl
    have hN : 128 ∣ n1 - n0 := dvd_sub h1 h0
    obtain ⟨k, rfl⟩ := hK
    have hhalf : ∀ a, a * (64 * k) / 2 = a * (32 * k) := by
      intro a
      have heq : a * (64 * k) = 2 * (a * (32 * k)) := by ring
      omega
    have hrow : (i + 1) * (32 * k) ≤ (n1 - n0) * (32 * k) := mul_le_mul_right _ hi
    rw [succ_mul] at hrow
    have hroom := nvfp4_room (n1 - n0) (64 * k)
    have hroomN := nvfp4_room N (64 * k)
    simp only [stageCopies_nvfp4 hN, Copied, forall_mem_cons, not_mem_nil,
      false_imp_iff, implies_true, and_true] at hc
    obtain ⟨hnib, hscale, htail⟩ := hc
    have hscalar : ∀ j, 4 ≤ j → j ≤ 8 →
        bytesAt read (dst + (nvfp4ProjBytes (n1 - n0) (64 * k) - j)) 4 =
          bytesAt mem (src + (nvfp4ProjBytes N (64 * k) - j)) 4 := by
      intro j hj₁ hj₂
      refine bytesAt_congr fun t ht => ?_
      have hat := htail (8 - j + t) (by omega)
      convert hat using 2
      · omega
      · omega
    unfold packedRow
    dsimp only
    congr 1
    · refine bytesAt_congr fun t ht => ?_
      have hat := hnib (i * (32 * k) + t) (by rw [hhalf]; omega)
      have hmul : (n0 + i) * (32 * k) = n0 * (32 * k) + i * (32 * k) := add_mul _ _ _
      rw [hhalf] at hat
      rw [hhalf, hhalf]
      convert hat using 2
      · omega
      · omega
    · refine map_congr_left fun g hg => ?_
      have hlt := scaleByteIndex_lt hN hi (mem_range.1 hg)
      have hat := hscale _ hlt
      rw [scaleByteIndex_add h0]
      convert hat using 2
      · omega
      · omega
    · exact hscalar 8 (by decide) le_rfl
    · exact hscalar 4 le_rfl (by decide)

/-! ### Splitting the rows -/

/-- The loop over the nodes: the first `rem` of them get one block more. -/
def partitionLoop (base rem atom : ℕ) : ℕ → ℕ → ℕ → List (ℕ × ℕ)
  | 0, _, _ => []
  | m + 1, j, cur =>
    let b := base + if j < rem then 1 else 0
    (cur, cur + b * atom) :: partitionLoop base rem atom m (j + 1) (cur + b * atom)

def partitionRowsBalanced (N M : ℕ) : List (ℕ × ℕ) := partitionLoop (N / M) (N % M) 1 M 0 0

def lastNonempty (slices : List (ℕ × ℕ)) : Option ℕ :=
  ((slices.zipIdx.filter fun x => x.1.1 < x.1.2).getLast?).map Prod.snd

def partitionRows128 (N M : ℕ) : List (ℕ × ℕ) :=
  let blocks := N / kScaleRowAtom
  let tail := N - blocks * kScaleRowAtom
  let slices := partitionLoop (blocks / M) (blocks % M) kScaleRowAtom M 0 0
  if 0 < tail then
    -- a ragged tail goes to the last slice that is not empty, or to node 0
    let j := (lastNonempty slices).getD 0
    slices.mapIdx fun k s => if k = j then (s.1, N) else if j < k then (N, N) else s
  else
    match lastNonempty slices with
    | none => slices
    | some j => slices.mapIdx fun k s => if k = j ∧ s.2 ≠ N then (s.1, N) else s

theorem tiles_partitionLoop (base rem atom : ℕ) : ∀ (m j cur : ℕ),
    Tiles cur (partitionLoop base rem atom m j cur)
      (cur + (base * m + (min (j + m) rem - min j rem)) * atom) := by
  intro m
  induction m with
  | zero =>
    intro j cur
    simp [partitionLoop, Tiles]
  | succ m ih =>
    intro j cur
    refine ⟨rfl, le_add_right _ _, ?_⟩
    have hih := ih (j + 1) (cur + (base + if j < rem then 1 else 0) * atom)
    convert hih using 1
    rw [add_assoc, ← add_mul]
    congr 2
    rw [mul_succ]
    split
    · omega
    · omega

variable {M : ℕ}

theorem tiles_partition (blocks atom : ℕ) (hM : 0 < M) :
    Tiles 0 (partitionLoop (blocks / M) (blocks % M) atom M 0 0) (blocks * atom) := by
  have h := tiles_partitionLoop (blocks / M) (blocks % M) atom M 0 0
  have hlt := mod_lt blocks hM
  have hdiv := div_add_mod' blocks M
  rw [Nat.zero_add, Nat.zero_add, Nat.zero_min, Nat.min_eq_right hlt.le, Nat.sub_zero, hdiv] at h
  exact h

theorem tiles_partitionRowsBalanced (N : ℕ) (hM : 0 < M) :
    Tiles 0 (partitionRowsBalanced N M) N := by
  have h := tiles_partition N 1 hM
  rwa [mul_one] at h

theorem dvd_partitionLoop (base rem atom : ℕ) : ∀ (m j cur : ℕ), atom ∣ cur →
    ∀ s ∈ partitionLoop base rem atom m j cur, atom ∣ s.1 ∧ atom ∣ s.2 := by
  intro m
  induction m with
  | zero =>
    intro j cur _ s hs
    cases hs
  | succ m ih =>
    intro j cur hcur s hs
    have hnext : atom ∣ cur + (base + if j < rem then 1 else 0) * atom :=
      dvd_add hcur (dvd_mul_left _ _)
    rcases mem_cons.1 hs with rfl | hs
    · exact ⟨hcur, hnext⟩
    · exact ih (j + 1) _ hnext s hs

theorem lastNonempty_end {hi : ℕ} : ∀ {slices : List (ℕ × ℕ)} {lo k : ℕ} {x : (ℕ × ℕ) × ℕ},
    Tiles lo slices hi →
    ((slices.zipIdx k).filter fun x => x.1.1 < x.1.2).getLast? = some x → x.1.2 = hi := by
  intro slices
  induction slices with
  | nil =>
    intro lo k x _ h
    cases h
  | cons s rest ih =>
    rintro lo k x ⟨rfl, hle, hrest⟩ h
    rw [zipIdx_cons, filter_cons] at h
    cases hlast : (((rest.zipIdx (k + 1)).filter fun x => x.1.1 < x.1.2).getLast?) with
    | some y =>
      split_ifs at h
      · rw [getLast?_cons, hlast] at h
        cases h
        exact ih hrest hlast
      · exact ih hrest h
    | none =>
      -- the slices behind this one are empty
      have hnil := getLast?_eq_none_iff.1 hlast
      split_ifs at h
      · rw [hnil] at h
        cases h
        exact Tiles.of_empty hrest (k + 1) hnil
      · rw [hnil] at h
        cases h

theorem partitionRows128_eq (hM : 0 < M) (hN : 128 ∣ N) : partitionRows128 N M =
    partitionLoop (N / 128 / M) (N / 128 % M) 128 M 0 0 := by
  have hblocks : N / 128 * 128 = N := Nat.div_mul_cancel hN
  have htiles := tiles_partition (N / 128) 128 hM
  rw [hblocks] at htiles
  unfold partitionRows128 kScaleRowAtom
  rw [if_neg (by omega)]
  split
  · rfl
  next j hj =>
  unfold lastNonempty at hj
  rw [Option.map_eq_some_iff] at hj
  obtain ⟨⟨s, i⟩, hlast, rfl⟩ := hj
  have hend : s.2 = N := lastNonempty_end htiles hlast
  have hmem := mem_of_mem_filter (mem_of_getLast? hlast)
  rw [mem_zipIdx_iff_getElem?] at hmem
  refine ext_getElem? fun k => ?_
  rw [getElem?_mapIdx]
  by_cases hk : k = i
  · subst hk
    rw [hmem]
    simp [hend]
  · simp [hk]

/-- **The slices of an NVFP4 projection tile its rows** and are made of whole atoms. -/
theorem tiles_partitionRows128 (hM : 0 < M) (hN : 128 ∣ N) : Tiles 0 (partitionRows128 N M) N ∧
      ∀ s ∈ partitionRows128 N M, 128 ∣ s.1 ∧ 128 ∣ s.2 := by
  have htiles := tiles_partition (N / 128) 128 hM
  rw [Nat.div_mul_cancel hN] at htiles
  rw [partitionRows128_eq hM hN]
  exact ⟨htiles, dvd_partitionLoop _ _ _ _ _ _ (dvd_zero _)⟩

end LayerStorm.Compute
