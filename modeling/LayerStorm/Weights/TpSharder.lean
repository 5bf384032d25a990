import LayerStorm.Lib.Blocks
import LayerStorm.Weights.ExpertSlot

/-!
# Sharding a tensor

A tensor is split over the ranks of a tensor-parallel group along its first axis, which takes a
stretch of its bytes, or along its second one, which gathers a stretch of every row.  Packed k-quant
tensors are split by super-blocks.

## Main results

* `shard_partition_iff` — both.
-/

namespace LayerStorm.Weights

open List Nat
namespace Tp

open Lib

variable {β : Type}

/-! ### Tensors -/

inductive SafetensorsDtype
  | f64 | f32 | f16 | bf16 | f8E4m3 | f8E5m2 | u8 | u16 | i32 | i64 | bool
  deriving DecidableEq, Repr

/-- `dtype_size`. -/
def SafetensorsDtype.size : SafetensorsDtype → ℕ
  | f64 | i64 => 8
  | f32 | i32 => 4
  | f16 | bf16 | u16 => 2
  | f8E4m3 | f8E5m2 | u8 | bool => 1

/-- The number of values that are stored together. -/
def unitValues : Option KQuant → ℕ
  | some type => type.blockValues
  | none => 1

variable (dtype : SafetensorsDtype)

/-- The number of bytes they are stored in. -/
def unitBytes : Option KQuant → ℕ
  | some type => type.blockBytes
  | none => dtype.size

def storedBytes (ggufType : Option KQuant) (shape : List ℕ) : ℕ :=
  shape.prod / unitValues ggufType * unitBytes dtype ggufType

structure ShardedTensor (β : Type) where
  data : List β
  dtype : SafetensorsDtype
  shape : List ℕ
  ggufType : Option KQuant
  deriving DecidableEq

/-- `RawTensor`: its bytes match its shape. -/
structure RawTensor (β : Type) extends ShardedTensor β where
  whole : unitValues ggufType ∣ shape.prod
  length_data : data.length = storedBytes dtype ggufType shape

namespace ShardedTensor

def numel (s : ShardedTensor β) : ℕ := s.shape.prod

/-- `size_bytes`; `none` where it throws. -/
def sizeBytes (s : ShardedTensor β) : Option ℕ :=
  match s.ggufType, s.shape with
  | some type, rows :: cols :: _ => ggufPackedBytes rows cols type
  | _, _ => some (s.numel * s.dtype.size)

/-- The bytes match the shape, and the size that is told is theirs. -/
structure Consistent (s : ShardedTensor β) : Prop where
  data : s.data.length = storedBytes s.dtype s.ggufType s.shape
  size : s.sizeBytes = some s.data.length

/-- An element: the bytes that it is stored in, and its place among the values stored there. -/
def element (s : ShardedTensor β) (n : ℕ) : List β × ℕ :=
  ((s.data.drop (n / unitValues s.ggufType * unitBytes s.dtype s.ggufType)).take
    (unitBytes s.dtype s.ggufType), n % unitValues s.ggufType)

end ShardedTensor

/-! ### The two splits -/

/-- Why a split fails; the last one is not thrown, but a read outside of the data. -/
inductive ShardError
  | indivisible | notMultipleOfQk | blockSplit | outOfRange
  deriving DecidableEq

def subspan (data : List β) (offset count : ℕ) : Except ShardError (List β) :=
  if offset + count ≤ data.length then .ok ((data.drop offset).take count) else .error .outOfRange

/-- Copying a stretch of every row. -/
def gatherRows (data : List β) (rows srcRowBytes offset dstRowBytes : ℕ) :
    Except ShardError (List β) :=
  if ∀ r < rows, r * srcRowBytes + offset + dstRowBytes ≤ data.length then
    .ok ((List.range rows).flatMap fun r =>
      (data.drop (r * srcRowBytes + offset)).take dstRowBytes)
  else .error .outOfRange

structure TpWeightSharder where
  tpDegree : ℕ
  pos : 0 < tpDegree

variable (tp : TpWeightSharder) (t : RawTensor β)

def wrapReplicated : ShardedTensor β := t.toShardedTensor

def shardColumnParallel (rank : ℕ) : Except ShardError (ShardedTensor β) :=
  if t.shape = [] then .ok (wrapReplicated t)
  else if t.ggufType.isSome ∧ t.shape.length < 2 then .ok (wrapReplicated t)
  else
    let rows := t.shape.getD 0 1
    let cols := t.shape.getD 1 1
    if rows % tp.tpDegree ≠ 0 then .error .indivisible
    else
      let rowsPerRank := rows / tp.tpDegree
      match t.ggufType with
      | some type =>
        if cols % type.blockValues ≠ 0 then .error .notMultipleOfQk
        else
          let packedRowBytes := cols / type.blockValues * type.blockBytes
          (subspan t.data (rank * rowsPerRank * packedRowBytes)
            (rowsPerRank * packedRowBytes)).map fun data =>
              ⟨data, t.dtype, t.shape.set 0 rowsPerRank, t.ggufType⟩
      | none =>
        let rowBytes := (t.shape.drop 1).prod * t.dtype.size
        (subspan t.data (rank * rowsPerRank * rowBytes) (rowsPerRank * rowBytes)).map fun data =>
          ⟨data, t.dtype, t.shape.set 0 rowsPerRank, t.ggufType⟩

def shardRowParallel (rank : ℕ) : Except ShardError (ShardedTensor β) :=
  if t.shape.length < 2 then .ok (wrapReplicated t)
  else
    let rows := t.shape.getD 0 1
    let cols := t.shape.getD 1 1
    if cols % tp.tpDegree ≠ 0 then .error .indivisible
    else
      let colsPerRank := cols / tp.tpDegree
      match t.ggufType with
      | some type =>
        if cols % type.blockValues ≠ 0 then .error .notMultipleOfQk
        else if colsPerRank % type.blockValues ≠ 0 then .error .blockSplit
        else
          let blocksPerRank := colsPerRank / type.blockValues
          (gatherRows t.data rows (cols / type.blockValues * type.blockBytes)
            (rank * blocksPerRank * type.blockBytes) (blocksPerRank * type.blockBytes)).map
              fun data => ⟨data, t.dtype, t.shape.set 1 colsPerRank, t.ggufType⟩
      | none =>
        (gatherRows t.data rows (cols * t.dtype.size) (rank * colsPerRank * t.dtype.size)
          (colsPerRank * t.dtype.size)).map fun data =>
            ⟨data, t.dtype, t.shape.set 1 colsPerRank, none⟩

/-! ### Exact partitions -/

/-- A part is the slice of a rank along an axis: it has the type, the shape and the elements of the
slice. -/
structure IsSlice (axis rank : ℕ) (s : ShardedTensor β) : Prop where
  dtype : s.dtype = t.dtype
  ggufType : s.ggufType = t.ggufType
  divides : tp.tpDegree ∣ t.shape.getD axis 1
  shape : s.shape = t.shape.set axis (t.shape.getD axis 1 / tp.tpDegree)
  elements : ∀ i < (t.shape.take axis).prod, ∀ j < t.shape.getD axis 1 / tp.tpDegree,
    ∀ k < (t.shape.drop (axis + 1)).prod, s.element
          ((i * (t.shape.getD axis 1 / tp.tpDegree) + j) * (t.shape.drop (axis + 1)).prod + k) =
        t.element ((i * t.shape.getD axis 1 + (rank * (t.shape.getD axis 1 / tp.tpDegree) + j)) *
          (t.shape.drop (axis + 1)).prod + k)

/-- A split is an exact partition along an axis: it throws for all ranks, or the tensor has no such
axis and every rank has a replica, or the parts of the ranks are its slices; and sizes are right. -/
def Partitions (axis : ℕ) (split : ℕ → Except ShardError (ShardedTensor β)) : Prop :=
  (∀ rank < tp.tpDegree, ∃ e ≠ .outOfRange, split rank = .error e) ∨
  (t.shape.length ≤ axis ∧ ∀ rank < tp.tpDegree, ∃ s, split rank = .ok s ∧ s.Consistent ∧
    s = wrapReplicated t) ∨
  (axis < t.shape.length ∧ ∀ rank < tp.tpDegree, ∃ s, split rank = .ok s ∧ s.Consistent ∧
    IsSlice tp t axis rank s)

/-- The tensors whose split along the first axis is right: a packed tensor of one axis would have to
be empty, and of the axes of a packed tensor the first two count only. -/
def ColumnFits : Prop :=
  t.ggufType.isSome → (t.shape.length = 1 → t.shape.prod = 0) ∧
    (tp.tpDegree ∣ t.shape.getD 0 1 → unitValues t.ggufType ∣ t.shape.getD 1 1 →
      (t.shape.drop 2).prod = 1 ∨ t.shape.getD 0 1 * t.shape.getD 1 1 = 0)

/-- The tensors whose split along the second axis is right: the first two axes count only. -/
def RowFits : Prop :=
  (t.ggufType.isSome → t.shape.length = 1 → t.shape.prod = 0) ∧
    (tp.tpDegree * unitValues t.ggufType ∣ t.shape.getD 1 1 →
      (t.shape.drop 2).prod = 1 ∨ t.shape.getD 0 1 * t.shape.getD 1 1 = 0)

/-! ### Sizes -/

theorem SafetensorsDtype.size_pos : 0 < dtype.size := by
  cases dtype <;> decide

theorem unitValues_pos (type : Option KQuant) : 0 < unitValues type := by
  cases type
  · exact one_pos
  · apply KQuant.blockValues_pos

theorem unitBytes_pos (type : Option KQuant) : 0 < unitBytes dtype type := by
  cases type
  · apply SafetensorsDtype.size_pos
  · apply KQuant.blockBytes_pos

@[simp] theorem storedBytes_none (shape : List ℕ) :
    storedBytes dtype none shape = shape.prod * dtype.size := by
  simp [storedBytes, unitValues, unitBytes]

theorem storedBytes_of_mul {dtype : SafetensorsDtype} {type : Option KQuant} {shape : List ℕ}
    {n : ℕ} (h : shape.prod = n * unitValues type) :
    storedBytes dtype type shape = n * unitBytes dtype type := by
  rw [storedBytes, h, Nat.mul_div_cancel _ (unitValues_pos type)]

theorem wrapReplicated_consistent (h : t.ggufType = none) : (wrapReplicated t).Consistent := by
  have hlen := t.length_data
  refine ⟨hlen, ?_⟩
  rw [wrapReplicated, ShardedTensor.sizeBytes, hlen, h, storedBytes_none]
  rfl

variable {type : KQuant}

theorem wrapReplicated_consistent_iff (h : t.ggufType = some type) (hshape : t.shape.length = 1) :
    (wrapReplicated t).Consistent ↔ t.shape.prod = 0 := by
  obtain ⟨n, hn⟩ := length_eq_one_iff.1 hshape
  obtain ⟨m, hm⟩ := t.whole
  have hprod : t.shape.prod = m * type.blockValues := by
    rw [hm, h, unitValues, mul_comm]
  have hlen : t.data.length = m * type.blockBytes := by
    rw [t.length_data, h, storedBytes_of_mul hprod, unitBytes]
  have hsize : (wrapReplicated t).sizeBytes = some (m * type.blockValues * t.dtype.size) := by
    rw [← hprod]
    simp [wrapReplicated, ShardedTensor.sizeBytes, ShardedTensor.numel, h, hn]
  constructor
  · intro hc
    have heq := hc.size
    rw [hsize, Option.some.injEq, wrapReplicated, hlen, mul_assoc] at heq
    rcases Nat.eq_zero_or_pos m with hm0 | hm0
    · rw [hprod, hm0, zero_mul]
    · exact absurd (Nat.eq_of_mul_eq_mul_left hm0 heq) (type.blockValues_mul_ne _)
  · intro h0
    have hm0 : m = 0 := by
      rcases Nat.mul_eq_zero.1 (hprod.symm.trans h0) with h | h
      · exact h
      · exact absurd h type.blockValues_pos.ne'
    refine ⟨t.length_data, ?_⟩
    rw [hsize, wrapReplicated, hlen, hm0]
    simp

/-! ### Elements -/

variable {s : ShardedTensor β} {s' : ShardedTensor β}

theorem element_subspan {a b n : ℕ} (hdtype : s'.dtype = s.dtype) (htype : s'.ggufType = s.ggufType)
    (hdata : s'.data = (s.data.drop (a * unitBytes s.dtype s.ggufType)).take
      (b * unitBytes s.dtype s.ggufType)) (hn : n < b * unitValues s.ggufType) :
    s'.element n = s.element (a * unitValues s.ggufType + n) := by
  have hq := unitValues_pos s.ggufType
  have hdiv : n / unitValues s.ggufType < b := Nat.div_lt_of_lt_mul (by rwa [Nat.mul_comm])
  have hle : (n / unitValues s.ggufType + 1) * unitBytes s.dtype s.ggufType ≤
      b * unitBytes s.dtype s.ggufType := mul_le_mul_right _ hdiv
  rw [add_mul] at hle
  have hdiv' : (a * unitValues s.ggufType + n) / unitValues s.ggufType =
      a + n / unitValues s.ggufType := by
    rw [mul_comm, mul_add_div hq]
  rw [ShardedTensor.element, ShardedTensor.element, hdtype, htype, hdata, hdiv',
    mul_add_mod_self_right, drop_take, take_take, drop_drop, add_mul,
    min_eq_left (by omega)]

variable {w : ℕ}

theorem element_gather {rows o S r n : ℕ} (hdtype : s'.dtype = s.dtype)
    (htype : s'.ggufType = s.ggufType)
    (hrange : ∀ r < rows, r * (S * unitBytes s.dtype s.ggufType) +
      o * unitBytes s.dtype s.ggufType + w * unitBytes s.dtype s.ggufType ≤ s.data.length)
    (hdata : s'.data = (range rows).flatMap fun r =>
      (s.data.drop (r * (S * unitBytes s.dtype s.ggufType) +
        o * unitBytes s.dtype s.ggufType)).take (w * unitBytes s.dtype s.ggufType)) (hr : r < rows)
    (hn : n < w * unitValues s.ggufType) :
    s'.element (r * (w * unitValues s.ggufType) + n) =
      s.element (r * (S * unitValues s.ggufType) + o * unitValues s.ggufType + n) := by
  set q := unitValues s.ggufType with hqdef
  set u := unitBytes s.dtype s.ggufType with hudef
  have hq : 0 < q := unitValues_pos s.ggufType
  have hdiv : n / q < w := Nat.div_lt_of_lt_mul (by rwa [Nat.mul_comm])
  have hle : (n / q + 1) * u ≤ w * u := mul_le_mul_right _ hdiv
  rw [add_mul, one_mul] at hle
  have hfrom : (r * (w * q) + n) / q = r * w + n / q := by
    rw [← mul_assoc, mul_comm, mul_add_div hq]
  have hto : (r * (S * q) + o * q + n) / q = r * S + o + n / q := by
    rw [← mul_assoc, ← add_mul, mul_comm, mul_add_div hq]
  have hmod : (r * (w * q) + n) % q = n % q := by
    rw [← mul_assoc, mul_add_mod_self_right]
  have hmod' : (r * (S * q) + o * q + n) % q = n % q := by
    rw [← mul_assoc, ← add_mul, mul_add_mod_self_right]
  have hlen : ∀ r ∈ range rows, ((s.data.drop (r * (S * u) + o * u)).take (w * u)).length =
      w * u := by
    intro r hr
    have := hrange r (mem_range.1 hr)
    rw [length_take, length_drop]
    omega
  have hget : (range rows)[r]? = some r := getElem?_range hr
  have hoff : (r * w + n / q) * u = r * (w * u) + n / q * u := by ring
  have hoff' : r * (S * u) + o * u + n / q * u = (r * S + o + n / q) * u := by ring
  rw [ShardedTensor.element, ShardedTensor.element, hdtype, htype, ← hqdef, ← hudef, hdata, hfrom,
    hto, hmod, hmod', hoff, take_drop_flatMap hlen hget hle, drop_take, take_take,
    drop_drop, hoff', min_eq_left (by omega)]

/-! ### The split along the second axis -/

variable {tp t} {d₀ d₁ rank : ℕ} {rest : List ℕ}

theorem shardRowParallel_throws (hshape : t.shape = d₀ :: d₁ :: rest)
    (hdvd : ¬ tp.tpDegree * unitValues t.ggufType ∣ d₁) (rank : ℕ) :
    ∃ e ≠ .outOfRange, shardRowParallel tp t rank = .error e := by
  simp only [shardRowParallel, hshape, List.length_cons, List.getD_cons_zero, List.getD_cons_succ]
  rw [if_neg (by omega)]
  by_cases htp : d₁ % tp.tpDegree ≠ 0
  · exact ⟨.indivisible, by simp, if_pos htp⟩
  obtain ⟨c, rfl⟩ := Nat.dvd_of_mod_eq_zero (not_not.1 htp)
  rw [if_neg htp]
  cases htype : t.ggufType with
  | none => simp [htype, unitValues] at hdvd
  | some type =>
    -- the row itself is not whole, or a super-block would be cut
    simp only [htype] at hdvd
    have hc : c % type.blockValues ≠ 0 := fun h =>
      hdvd (Nat.mul_dvd_mul_left _ (Nat.dvd_of_mod_eq_zero h))
    simp only [Nat.mul_div_cancel_left _ tp.pos]
    split
    · exact ⟨.notMultipleOfQk, by simp, rfl⟩
    · exact ⟨.blockSplit, by simp, rfl⟩

theorem shardRowParallel_eq
    (hshape : t.shape = d₀ :: tp.tpDegree * (w * unitValues t.ggufType) :: rest) (rank : ℕ) :
    shardRowParallel tp t rank =
      (gatherRows t.data d₀ (tp.tpDegree * w * unitBytes t.dtype t.ggufType)
        (rank * w * unitBytes t.dtype t.ggufType) (w * unitBytes t.dtype t.ggufType)).map
          fun data => ⟨data, t.dtype, d₀ :: w * unitValues t.ggufType :: rest, t.ggufType⟩ := by
  have hmod : tp.tpDegree * (w * unitValues t.ggufType) % tp.tpDegree = 0 := mul_mod_right ..
  have hdiv : tp.tpDegree * (w * unitValues t.ggufType) / tp.tpDegree =
      w * unitValues t.ggufType := Nat.mul_div_cancel_left _ tp.pos
  simp only [shardRowParallel, hshape, length_cons, getD_cons_zero, getD_cons_succ,
    set_cons_succ, set_cons_zero, hmod, hdiv]
  rw [if_neg (by omega)]
  cases htype : t.ggufType with
  | none => simp [unitValues, unitBytes]
  | some type =>
    have hq := type.blockValues_pos
    simp [unitValues, unitBytes, ← mul_assoc, hq]

theorem length_gatherRows {data out : List β} {rows S offset n : ℕ}
    (h : gatherRows data rows S offset n = .ok out) : out.length = rows * n := by
  rw [gatherRows] at h
  split at h
  · next hrange =>
    rw [← Except.ok.inj h, length_flatMap, map_congr_left (g := fun _ => n)]
    · simp
    · intro r hr
      have := hrange r (mem_range.1 hr)
      rw [length_take, length_drop]
      omega
  · cases h

variable {m : ℕ}

theorem length_data_of_shape (hshape : t.shape = d₀ :: m * unitValues t.ggufType :: rest) :
    t.data.length = d₀ * m * rest.prod * unitBytes t.dtype t.ggufType := by
  rw [t.length_data]
  apply storedBytes_of_mul
  rw [hshape, prod_cons, prod_cons]
  ring

theorem consistent_iff (hshape : s.shape = d₀ :: m * unitValues s.ggufType :: rest)
    (hlen : s.data.length = d₀ * m * unitBytes s.dtype s.ggufType) :
    s.Consistent ↔ d₀ * m * rest.prod = d₀ * m := by
  have hu := unitBytes_pos s.dtype s.ggufType
  have hprod : s.shape.prod = d₀ * m * rest.prod * unitValues s.ggufType := by
    rw [hshape, prod_cons, prod_cons]
    ring
  constructor
  · intro hc
    have hdata := hc.data
    rw [storedBytes_of_mul hprod, hlen] at hdata
    exact (eq_of_mul_eq_mul_right hu hdata).symm
  · intro heq
    refine ⟨by rw [storedBytes_of_mul hprod, hlen, heq], ?_⟩
    rw [hlen]
    cases htype : s.ggufType with
    | none =>
      rw [htype, heq, unitValues] at hprod
      simp [ShardedTensor.sizeBytes, ShardedTensor.numel, htype, hprod, unitBytes]
    | some type =>
      simp only [ShardedTensor.sizeBytes, htype, hshape, ggufPackedBytes, unitValues, unitBytes]
      rw [if_neg (by simp), Nat.mul_div_cancel _ type.blockValues_pos]

theorem shardRowParallel_slice
    (hshape : t.shape = d₀ :: tp.tpDegree * (w * unitValues t.ggufType) :: rest)
    (hfit : rest.prod = 1 ∨ d₀ * w = 0) (hrank : rank < tp.tpDegree) :
    ∃ s, shardRowParallel tp t rank = .ok s ∧ s.Consistent ∧ IsSlice tp t 1 rank s := by
  have htp := tp.pos
  have hlen : t.data.length =
      d₀ * (tp.tpDegree * w) * rest.prod * unitBytes t.dtype t.ggufType := by
    apply length_data_of_shape
    rw [hshape, mul_assoc]
  have hrange : ∀ r < d₀, r * (tp.tpDegree * w * unitBytes t.dtype t.ggufType) +
      rank * w * unitBytes t.dtype t.ggufType + w * unitBytes t.dtype t.ggufType ≤
        t.data.length := by
    intro r hr
    rw [hlen]
    rcases hfit with h1 | h0
    · calc
        _ = (r * (tp.tpDegree * w) + (rank + 1) * w) * unitBytes t.dtype t.ggufType := by ring
        _ ≤ (r * (tp.tpDegree * w) + tp.tpDegree * w) * unitBytes t.dtype t.ggufType := by
          gcongr
          exact hrank
        _ = (r + 1) * (tp.tpDegree * w) * unitBytes t.dtype t.ggufType := by ring
        _ ≤ _ := by
          rw [h1, mul_one]
          gcongr
          exact hr
    · have hw : w = 0 := by
        rcases Nat.mul_eq_zero.1 h0 with h | h
        · omega
        · exact h
      simp [hw]
  have hgather : gatherRows t.data d₀ (tp.tpDegree * w * unitBytes t.dtype t.ggufType)
      (rank * w * unitBytes t.dtype t.ggufType) (w * unitBytes t.dtype t.ggufType) = .ok
        ((range d₀).flatMap fun r => (t.data.drop
          (r * (tp.tpDegree * w * unitBytes t.dtype t.ggufType) +
            rank * w * unitBytes t.dtype t.ggufType)).take (w * unitBytes t.dtype t.ggufType)) :=
    if_pos hrange
  have hcount := length_gatherRows hgather
  refine ⟨_, by rw [shardRowParallel_eq hshape, hgather]; rfl, ?_, ?_⟩
  · rw [consistent_iff rfl (by rw [hcount, mul_assoc])]
    rcases hfit with h1 | h0
    · rw [h1, mul_one]
    · rw [h0, zero_mul]
  · have hsplit : tp.tpDegree * (w * unitValues t.ggufType) / tp.tpDegree =
        w * unitValues t.ggufType := Nat.mul_div_cancel_left _ htp
    refine ⟨rfl, rfl, by simp [hshape], by simp [hshape, hsplit], ?_⟩
    simp only [hshape, getD_cons_succ, getD_cons_zero, take_succ_cons,
      take_zero, prod_cons, prod_nil, mul_one, drop_succ_cons, drop_zero, hsplit]
    intro i hi j hj k hk
    -- either there is one element in each column, or there is no column at all
    rcases hfit with h1 | h0
    · have hk0 : k = 0 := by omega
      subst hk0
      have hindex : i * (tp.tpDegree * (w * unitValues t.ggufType)) +
          (rank * (w * unitValues t.ggufType) + j) =
            i * (tp.tpDegree * w * unitValues t.ggufType) + rank * w * unitValues t.ggufType +
              j := by
        ring
      rw [h1, mul_one, mul_one, hindex]
      exact element_gather (s := t.toShardedTensor) rfl rfl hrange rfl hi hj
    · rcases Nat.mul_eq_zero.1 h0 with h | h
      · omega
      · rw [h] at hj
        omega

theorem rest_of_shardRowParallel
    (hshape : t.shape = d₀ :: tp.tpDegree * (w * unitValues t.ggufType) :: rest)
    (hs : shardRowParallel tp t rank = .ok s) (hc : s.Consistent) :
    rest.prod = 1 ∨ d₀ * w = 0 := by
  rw [shardRowParallel_eq hshape] at hs
  cases hgather : gatherRows t.data d₀ (tp.tpDegree * w * unitBytes t.dtype t.ggufType)
    (rank * w * unitBytes t.dtype t.ggufType) (w * unitBytes t.dtype t.ggufType) with
  | error e =>
    rw [hgather] at hs
    cases hs
  | ok out =>
    rw [hgather] at hs
    have hcount := length_gatherRows hgather
    cases hs
    exact mul_right_eq_self₀.1 ((consistent_iff rfl (by rw [hcount, mul_assoc])).1 hc)

theorem wrapReplicated_iff (hlen : t.shape.length ≤ 1) : (wrapReplicated t).Consistent ↔
      (t.ggufType.isSome → t.shape.length = 1 → t.shape.prod = 0) := by
  cases htype : t.ggufType with
  | none => simp [wrapReplicated_consistent t htype]
  | some type =>
    have hne : t.shape ≠ [] := by
      intro hnil
      have hdvd := t.whole
      rw [hnil, htype] at hdvd
      revert hdvd
      cases type <;> decide
    have hone : t.shape.length = 1 := by
      have := length_pos_iff.2 hne
      omega
    rw [wrapReplicated_consistent_iff t htype hone]
    simp [hone]

/-- **Which tensors are partitioned along the second axis.** -/
theorem shardRowParallel_partitions_iff (tp : TpWeightSharder) (t : RawTensor β) :
    Partitions tp t 1 (shardRowParallel tp t) ↔ RowFits tp t := by
  by_cases hlen : t.shape.length ≤ 1
  · have hwrap : ∀ rank, shardRowParallel tp t rank = .ok (wrapReplicated t) :=
      fun rank => if_pos (by omega)
    have hdrop : (t.shape.drop 2).prod = 1 := by
      rw [drop_eq_nil_of_le (by omega), prod_nil]
    rw [RowFits, ← wrapReplicated_iff hlen]
    constructor
    · rintro (h | ⟨-, h⟩ | ⟨h, -⟩)
      · obtain ⟨e, -, he⟩ := h 0 tp.pos
        rw [hwrap] at he
        cases he
      · obtain ⟨s, -, hc, rfl⟩ := h 0 tp.pos
        exact ⟨hc, fun _ => .inl hdrop⟩
      · omega
    · rintro ⟨hc, -⟩
      exact .inr (.inl ⟨hlen, fun rank _ => ⟨_, hwrap rank, hc, rfl⟩⟩)
  · obtain ⟨d₀, d₁, rest, hshape⟩ : ∃ d₀ d₁ rest, t.shape = d₀ :: d₁ :: rest := by
      cases h : t.shape with
      | nil => simp [h] at hlen
      | cons d₀ l =>
        cases l with
        | nil => simp [h] at hlen
        | cons d₁ rest => exact ⟨d₀, d₁, rest, rfl⟩
    simp only [RowFits, hshape, length_cons, getD_cons_zero, getD_cons_succ,
      drop_succ_cons, drop_zero]
    by_cases hdvd : tp.tpDegree * unitValues t.ggufType ∣ d₁
    · obtain ⟨w, hw⟩ := hdvd
      have hd₁ : d₁ = tp.tpDegree * (w * unitValues t.ggufType) := by
        rw [hw]
        ring
      subst hd₁
      have hq := unitValues_pos t.ggufType
      have hzero : d₀ * (tp.tpDegree * (w * unitValues t.ggufType)) = 0 ↔ d₀ * w = 0 := by
        simp [tp.pos.ne', hq.ne']
      rw [hzero]
      constructor
      · rintro (h | ⟨h, -⟩ | ⟨-, h⟩)
        · obtain ⟨e, hne, he⟩ := h 0 tp.pos
          rw [shardRowParallel_eq hshape, gatherRows] at he
          split at he
          · cases he
          · exact absurd (Except.error.inj he).symm hne
        · exact absurd h hlen
        · obtain ⟨s, hs, hc, -⟩ := h 0 tp.pos
          exact ⟨fun _ h => by omega, fun _ => rest_of_shardRowParallel hshape hs hc⟩
      · rintro ⟨-, h⟩
        have hfit := h ⟨w, hw⟩
        exact .inr (.inr ⟨by omega, fun rank hrank => shardRowParallel_slice hshape hfit hrank⟩)
    · have hthrow := shardRowParallel_throws hshape hdvd
      constructor
      · intro _
        exact ⟨fun _ h => by omega, fun h => absurd h hdvd⟩
      · intro _
        exact .inl fun rank _ => hthrow rank

/-! ### The split along the first axis -/

variable {c : ℕ}

theorem isSlice_of_subspan {a b : ℕ} (hshape : t.shape = tp.tpDegree * c :: rest)
    (hs : s.shape = c :: rest) (hdtype : s.dtype = t.dtype) (htype : s.ggufType = t.ggufType)
    (hdata : s.data = (t.data.drop (a * unitBytes t.dtype t.ggufType)).take
      (b * unitBytes t.dtype t.ggufType)) (ha : a * unitValues t.ggufType = rank * c * rest.prod)
    (hb : b * unitValues t.ggufType = c * rest.prod) : IsSlice tp t 0 rank s := by
  have hsplit : tp.tpDegree * c / tp.tpDegree = c := Nat.mul_div_cancel_left _ tp.pos
  refine ⟨hdtype, htype, by simp [hshape], by simp [hshape, hs, hsplit], ?_⟩
  simp only [hshape, getD_cons_zero, take_zero, prod_nil, drop_succ_cons, drop_zero, hsplit]
  intro i hi j hj k hk
  have hi0 : i = 0 := by omega
  have hin : j * rest.prod + k < b * unitValues t.ggufType := (block_lt hj hk).trans_eq hb.symm
  have h := element_subspan (s := t.toShardedTensor) hdtype htype hdata hin
  rw [hi0, zero_mul, zero_add, h, ha]
  congr 1
  ring

theorem shardColumnParallel_throws (hshape : t.shape = d₀ :: rest)
    (hrank : t.ggufType.isSome → rest ≠ [])
    (hdvd : ¬ (tp.tpDegree ∣ d₀ ∧ unitValues t.ggufType ∣ rest.getD 0 1)) (rank : ℕ) :
    ∃ e ≠ .outOfRange, shardColumnParallel tp t rank = .error e := by
  have hwrap : ¬ (t.ggufType.isSome ∧ t.shape.length < 2) := by
    rintro ⟨h, hlt⟩
    have := length_pos_iff.2 (hrank h)
    simp only [hshape, length_cons] at hlt
    omega
  rw [shardColumnParallel, if_neg hwrap]
  simp only [hshape, getD_cons_zero]
  by_cases htp : d₀ % tp.tpDegree ≠ 0
  · exact ⟨.indivisible, by simp, if_pos htp⟩
  rw [if_neg htp]
  have hd₀ := dvd_of_mod_eq_zero (not_not.1 htp)
  cases htype : t.ggufType with
  | none => simp [htype, unitValues, hd₀] at hdvd
  | some type =>
    have hq : rest.getD 0 1 % type.blockValues ≠ 0 := by
      rw [htype] at hdvd
      exact fun h => hdvd ⟨hd₀, dvd_of_mod_eq_zero h⟩
    exact ⟨.notMultipleOfQk, by simp, if_pos hq⟩

theorem shardColumnParallel_plain (htype : t.ggufType = none)
    (hshape : t.shape = tp.tpDegree * c :: rest) (hrank : rank < tp.tpDegree) :
    ∃ s, shardColumnParallel tp t rank = .ok s ∧ s.Consistent ∧ IsSlice tp t 0 rank s := by
  have hlen : t.data.length = tp.tpDegree * c * rest.prod * t.dtype.size := by
    rw [t.length_data, htype, storedBytes_none, hshape, List.prod_cons]
  have hrange : rank * c * (rest.prod * t.dtype.size) + c * (rest.prod * t.dtype.size) ≤
      t.data.length := by
    calc
      _ = (rank + 1) * (c * rest.prod * t.dtype.size) := by ring
      _ ≤ tp.tpDegree * (c * rest.prod * t.dtype.size) := Nat.mul_le_mul_right _ hrank
      _ = _ := by
        rw [hlen]
        ring
  have hsub : shardColumnParallel tp t rank =
      .ok ⟨(t.data.drop (rank * c * (rest.prod * t.dtype.size))).take
        (c * (rest.prod * t.dtype.size)), t.dtype, c :: rest, t.ggufType⟩ := by
    rw [shardColumnParallel]
    simp only [hshape, List.getD_cons_zero, Nat.mul_mod_right, Nat.mul_div_cancel_left _ tp.pos,
      htype, List.drop_succ_cons, List.drop_zero, List.set_cons_zero, subspan]
    rw [if_pos hrange]
    rfl
  have hcount : ((t.data.drop (rank * c * (rest.prod * t.dtype.size))).take
      (c * (rest.prod * t.dtype.size))).length = c * rest.prod * t.dtype.size := by
    rw [List.length_take, List.length_drop, Nat.mul_assoc c]
    omega
  refine ⟨_, hsub, ⟨?_, ?_⟩, ?_⟩
  · rw [hcount, htype, storedBytes_none, List.prod_cons]
  · rw [hcount, htype]
    simp [ShardedTensor.sizeBytes, ShardedTensor.numel]
  · refine isSlice_of_subspan (a := rank * c * rest.prod) (b := c * rest.prod) hshape ?_ ?_ ?_ ?_
      ?_ ?_
    · rfl
    · rfl
    · rfl
    · simp only [htype, unitBytes, Nat.mul_assoc]
    · rw [htype, unitValues, Nat.mul_one]
    · rw [htype, unitValues, Nat.mul_one]

theorem shardColumnParallel_packed (htype : t.ggufType = some type)
    (hshape : t.shape = tp.tpDegree * c :: m * unitValues t.ggufType :: rest) (rank : ℕ) :
    shardColumnParallel tp t rank = (subspan t.data (rank * c * (m * unitBytes t.dtype t.ggufType))
        (c * (m * unitBytes t.dtype t.ggufType))).map fun data =>
          ⟨data, t.dtype, c :: m * unitValues t.ggufType :: rest, t.ggufType⟩ := by
  have hq := type.blockValues_pos
  rw [shardColumnParallel, if_neg (by simp [hshape]), if_neg (by simp [hshape])]
  simp only [hshape, List.getD_cons_zero, List.getD_cons_succ, Nat.mul_mod_right,
    Nat.mul_div_cancel_left _ tp.pos, htype, List.set_cons_zero, unitValues, unitBytes,
    Nat.mul_mod_left, Nat.mul_div_cancel _ hq]
  rw [if_neg (by simp), if_neg (by simp)]

theorem length_subspan {data out : List β} {offset count : ℕ}
    (h : subspan data offset count = .ok out) : out.length = count := by
  rw [subspan] at h
  split at h
  · next hrange =>
    rw [← Except.ok.inj h, length_take, length_drop]
    omega
  · cases h

section

variable (htype : t.ggufType = some type)
include htype

theorem shardColumnParallel_slice
    (hshape : t.shape = tp.tpDegree * c :: m * unitValues t.ggufType :: rest)
    (hfit : rest.prod = 1 ∨ c * m = 0) (hrank : rank < tp.tpDegree) :
    ∃ s, shardColumnParallel tp t rank = .ok s ∧ s.Consistent ∧ IsSlice tp t 0 rank s := by
  have hlen := length_data_of_shape hshape
  have hrest : c * m * rest.prod = c * m := mul_right_eq_self₀.2 hfit
  have hrange : rank * c * (m * unitBytes t.dtype t.ggufType) +
      c * (m * unitBytes t.dtype t.ggufType) ≤ t.data.length := by
    calc
      _ = (rank + 1) * (c * m * unitBytes t.dtype t.ggufType) := by ring
      _ ≤ tp.tpDegree * (c * m * unitBytes t.dtype t.ggufType) := mul_le_mul_right _ hrank
      _ = tp.tpDegree * (c * m * rest.prod) * unitBytes t.dtype t.ggufType := by
        rw [hrest]
        ring
      _ = _ := by
        rw [hlen]
        ring
  have hsub : subspan t.data (rank * c * (m * unitBytes t.dtype t.ggufType))
      (c * (m * unitBytes t.dtype t.ggufType)) = .ok ((t.data.drop
        (rank * c * (m * unitBytes t.dtype t.ggufType))).take
          (c * (m * unitBytes t.dtype t.ggufType))) := if_pos hrange
  have hcount := length_subspan hsub
  refine ⟨_, by rw [shardColumnParallel_packed htype hshape, hsub]; rfl, ?_, ?_⟩
  · rw [consistent_iff rfl (by rw [hcount, mul_assoc])]
    exact hrest
  · refine isSlice_of_subspan (a := rank * c * m) (b := c * m) hshape ?_ ?_ ?_ ?_ ?_ ?_
    · rfl
    · rfl
    · rfl
    · simp only [mul_assoc]
    · rw [prod_cons, mul_assoc rank, ← hrest]
      ring
    · rw [prod_cons, ← hrest]
      ring

theorem rest_of_shardColumnParallel
    (hshape : t.shape = tp.tpDegree * c :: m * unitValues t.ggufType :: rest)
    (hs : shardColumnParallel tp t rank = .ok s) (hc : s.Consistent) :
    rest.prod = 1 ∨ c * m = 0 := by
  rw [shardColumnParallel_packed htype hshape] at hs
  cases hsub : subspan t.data (rank * c * (m * unitBytes t.dtype t.ggufType))
    (c * (m * unitBytes t.dtype t.ggufType)) with
  | error e =>
    rw [hsub] at hs
    cases hs
  | ok out =>
    rw [hsub] at hs
    have hcount := length_subspan hsub
    cases hs
    exact mul_right_eq_self₀.1 ((consistent_iff rfl (by rw [hcount, mul_assoc])).1 hc)

theorem shardColumnParallel_vector (hshape : t.shape = [d₀]) :
    Partitions tp t 0 (shardColumnParallel tp t) ↔ t.shape.prod = 0 := by
  have hwrap : ∀ rank, shardColumnParallel tp t rank = .ok (wrapReplicated t) := by
    intro rank
    rw [shardColumnParallel, if_neg (by simp [hshape]), if_pos (by simp [hshape, htype])]
  have hiff := wrapReplicated_consistent_iff t htype (by rw [hshape, length_singleton])
  constructor
  · rintro (h | ⟨h, -⟩ | ⟨-, h⟩)
    · obtain ⟨e, -, he⟩ := h 0 tp.pos
      rw [hwrap] at he
      cases he
    · simp [hshape] at h
    · obtain ⟨s, hs, hc, -⟩ := h 0 tp.pos
      rw [hwrap] at hs
      cases hs
      exact hiff.1 hc
  · intro h0
    have hd₀ : d₀ = 0 := by simpa [hshape] using h0
    refine .inr (.inr ⟨by simp [hshape], fun rank _ => ⟨_, hwrap rank, hiff.2 h0, ?_⟩⟩)
    refine ⟨rfl, rfl, by simp [hshape, hd₀], by simp [wrapReplicated, hshape, hd₀], ?_⟩
    intro i _ j hj
    simp [hshape, hd₀] at hj

end

/-- **Which tensors are partitioned along the first axis.** -/
theorem shardColumnParallel_partitions_iff (tp : TpWeightSharder) (t : RawTensor β) :
    Partitions tp t 0 (shardColumnParallel tp t) ↔ ColumnFits tp t := by
  cases hshape : t.shape with
  | nil =>
    have hwrap : ∀ rank, shardColumnParallel tp t rank = .ok (wrapReplicated t) :=
      fun rank => if_pos hshape
    have hc : (wrapReplicated t).Consistent :=
      (wrapReplicated_iff (by simp [hshape])).2 (by simp [hshape])
    constructor
    · simp [ColumnFits, hshape]
    · intro _
      exact .inr (.inl ⟨by simp [hshape], fun rank _ => ⟨_, hwrap rank, hc, rfl⟩⟩)
  | cons d₀ rest =>
    cases htype : t.ggufType with
    | none =>
      have hfits : ColumnFits tp t := by simp [ColumnFits, htype]
      refine iff_of_true ?_ hfits
      by_cases hdvd : tp.tpDegree ∣ d₀
      · obtain ⟨c, rfl⟩ := hdvd
        exact .inr (.inr ⟨by simp [hshape], fun rank hrank =>
          shardColumnParallel_plain htype hshape hrank⟩)
      · exact .inl fun rank _ =>
          shardColumnParallel_throws hshape (by simp [htype]) (fun h => hdvd h.1) rank
    | some type =>
      cases rest with
      | nil =>
        rw [shardColumnParallel_vector htype hshape]
        simp [ColumnFits, htype, hshape]
      | cons d₁ rest =>
        by_cases hdvd : tp.tpDegree ∣ d₀ ∧ unitValues t.ggufType ∣ d₁
        · obtain ⟨⟨c, rfl⟩, ⟨m, rfl⟩⟩ := hdvd
          rw [mul_comm _ m] at hshape
          have hfits : ColumnFits tp t ↔ rest.prod = 1 ∨ c * m = 0 := by
            simp [ColumnFits, htype, hshape, tp.pos.ne', unitValues, type.blockValues_pos.ne']
          rw [hfits]
          constructor
          · rintro (h | ⟨h, -⟩ | ⟨-, h⟩)
            · obtain ⟨e, hne, he⟩ := h 0 tp.pos
              rw [shardColumnParallel_packed htype hshape, subspan] at he
              split at he
              · cases he
              · exact absurd (Except.error.inj he).symm hne
            · simp [hshape] at h
            · obtain ⟨s, hs, hc, -⟩ := h 0 tp.pos
              exact rest_of_shardColumnParallel htype hshape hs hc
          · intro hfit
            exact .inr (.inr ⟨by simp [hshape], fun rank hrank =>
              shardColumnParallel_slice htype hshape hfit hrank⟩)
        · have hfits : ColumnFits tp t := by
            refine fun _ => ⟨by simp [hshape], fun h₀ h₁ => ?_⟩
            rw [hshape] at h₀ h₁
            exact absurd ⟨h₀, h₁⟩ hdvd
          exact iff_of_true (.inl fun rank _ =>
            shardColumnParallel_throws hshape (by simp) hdvd rank) hfits

/-! ### Both splits -/

/-- **Which tensors are partitioned**: a plain tensor is always split right along the first axis; a
packed one, and any tensor along the second axis, where its further axes count once. -/
theorem shard_partition_iff (tp : TpWeightSharder) (t : RawTensor β) :
    (Partitions tp t 0 (shardColumnParallel tp t) ↔ ColumnFits tp t) ∧
      (Partitions tp t 1 (shardRowParallel tp t) ↔ RowFits tp t) := by
  constructor
  · exact shardColumnParallel_partitions_iff tp t
  · exact shardRowParallel_partitions_iff tp t

def twoChannels : RawTensor ℕ where
  data := [0, 1, 2, 3]
  dtype := .u8
  shape := [1, 2, 2]
  ggufType := none
  whole := by simp [unitValues]
  length_data := rfl

/-- Each of two ranks gets one tap of its channel. -/
theorem taps_lost :
    shardRowParallel ⟨2, by decide⟩ twoChannels 0 = .ok ⟨[0], .u8, [1, 1, 2], none⟩ ∧
      ¬ (Partitions ⟨2, by decide⟩ twoChannels 0 (shardColumnParallel ⟨2, by decide⟩ twoChannels) ∧
        Partitions ⟨2, by decide⟩ twoChannels 1 (shardRowParallel ⟨2, by decide⟩ twoChannels)) := by
  refine ⟨by decide, fun h => ?_⟩
  have hfits := (shardRowParallel_partitions_iff _ _).1 h.2
  revert hfits
  unfold RowFits
  decide

end Tp
end LayerStorm.Weights
