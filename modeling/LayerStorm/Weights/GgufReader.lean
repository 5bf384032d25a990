import LayerStorm.Lib.CursorReader
import LayerStorm.Weights.ExpertSlot

/-!
# Reading a GGUF file

The counts, dimensions, offsets and the alignment of a GGUF file come from the file.  They are
multiplied and added modulo `2 ^ 64`, the dimensions as signed numbers; a cursor checks each read
against the size of the buffer, and one check for each tensor compares its end with it.

## Main results

* `gguf_parse_iff` — what it returns is right just if nothing wraps.
-/

namespace LayerStorm.Weights

open List Int
namespace Gguf

open Lib

/-! ### The types of the tensors -/

/-- `gguf_kquant_from_ggml`, and `is_supported_gguf_kquant`. -/
def ggufKquantFromGgml : ℕ → Option KQuant
  | 8 => some .q80
  | 10 => some .q2K
  | 11 => some .q3K
  | 12 => some .q4K
  | 13 => some .q5K
  | 14 => some .q6K
  | 39 => some .mxfp4
  | _ => none

/-- `dtype_size` of `gguf_float_dtype`; `none` where it throws. -/
def ggufFloatSize : ℕ → Option ℕ
  | 0 => some 4
  | 1 => some 2
  | 26 => some 4
  | 30 => some 2
  | _ => none

/-! ### The cursor -/

/-- Why the parser throws. -/
inductive Failure
  | truncated | stringLength | badMagic | version | negativeCount | nestedArray
  | elementType | nDims | nonPositiveDim | notMultipleOfQk | tensorType | exceedsFile
  deriving DecidableEq

def kGgufMaxStringLength : ℕ := 2 ^ 20

def kSmallArrayCap : ℕ := 512

/-- Bytes as a number, the least significant one first. -/
def littleEndian : List UInt8 → ℕ
  | [] => 0
  | b :: bs => b.toNat + 256 * littleEndian bs

/-- A number of some bytes as a signed one. -/
def toSigned (width value : ℕ) : ℤ := Int.bmod value (256 ^ width)

variable (b : Buffer)

def need (n : ℕ) : Reader Failure Unit := do
  let pos ← Reader.position
  if b.size < (pos + n) % 2 ^ 64 ∨ (pos + n) % 2 ^ 64 < pos then Reader.throw .truncated

def skip (n : ℕ) : Reader Failure Unit := do
  need b n
  let pos ← Reader.position
  Reader.moveTo ((pos + n) % 2 ^ 64)

/-- The bytes that `need` has checked, and moving on. -/
def readBytes (n : ℕ) : Reader Failure (List UInt8) := do
  need b n
  let bytes ← Reader.memcpy b n
  let pos ← Reader.position
  Reader.moveTo ((pos + n) % 2 ^ 64)
  pure bytes

/-- `Cursor::read_pod`, as an unsigned number. -/
def readPod (width : ℕ) : Reader Failure ℕ := do
  let bytes ← readBytes b width
  pure (littleEndian bytes)

/-- `Cursor::read_string`. -/
def readString : Reader Failure (List UInt8) := do
  let len ← readPod b 8
  if kGgufMaxStringLength < len then Reader.throw .stringLength
  readBytes b len

/-! ### The metadata -/

inductive GgufKvType
  | uint8 | int8 | uint16 | int16 | uint32 | int32 | float32 | bool | string | array
  | uint64 | int64 | float64
  deriving DecidableEq

def GgufKvType.ofCode : ℕ → Option GgufKvType
  | 0 => some uint8
  | 1 => some int8
  | 2 => some uint16
  | 3 => some int16
  | 4 => some uint32
  | 5 => some int32
  | 6 => some float32
  | 7 => some bool
  | 8 => some string
  | 9 => some array
  | 10 => some uint64
  | 11 => some int64
  | 12 => some float64
  | _ => none

def kvScalarSize : Option GgufKvType → ℕ
  | some .uint8 | some .int8 | some .bool => 1
  | some .uint16 | some .int16 => 2
  | some .uint32 | some .int32 | some .float32 => 4
  | some .uint64 | some .int64 | some .float64 => 8
  | some .string | some .array | none => 0

/-- `GgufMetadataValue`; a number that is not whole is kept by its bytes. -/
inductive MetadataValue
  | u64 (u : ℕ)
  | i64 (i : ℤ)
  | f64 (bits : ℕ)
  | str (s : List UInt8)
  | boolean (v : Bool)
  deriving DecidableEq

def readScalarValue (t : Option GgufKvType) : Reader Failure MetadataValue :=
  let width := kvScalarSize t
  match t with
  | some .uint8 | some .uint16 | some .uint32 | some .uint64 => do
    let v ← readPod b width
    pure (.u64 v)
  | some .int8 | some .int16 | some .int32 | some .int64 => do
    let v ← readPod b width
    pure (.i64 (toSigned width v))
  | some .float32 | some .float64 => do
    let v ← readPod b width
    pure (.f64 v)
  | some .bool => do
    let v ← readPod b width
    pure (.boolean (v ≠ 0))
  | some .string => do
    let s ← readString b
    pure (.str s)
  | some .array => Reader.throw .nestedArray
  -- an unknown type reads nothing
  | none => pure (.u64 0)

/-- Where an array of the metadata stands: its elements begin at `start`, and the parser goes on at
`stop`. -/
structure ArrayRead where
  elem : Option GgufKvType
  count : ℕ
  start : ℕ
  stop : ℕ
  deriving DecidableEq

inductive KeptArray
  | ints (values : List ℤ)
  | floats (bits : List ℕ)
  deriving DecidableEq

/-- An element of an array of whole numbers. -/
def readElement (t : Option GgufKvType) : Reader Failure ℤ :=
  let width := kvScalarSize t
  match t with
  | some .uint8 | some .uint16 | some .uint32 => do
    let v ← readPod b width
    pure (v : ℤ)
  | some .uint64 | some .int8 | some .int16 | some .int32 | some .int64 => do
    let v ← readPod b width
    pure (toSigned width v)
  | _ => Reader.throw .elementType

def readElements (elem : Option GgufKvType) (n : ℕ) : Reader Failure (Option KeptArray) :=
  if elem = some .string then do
    let _ ← Reader.loop (fun _ => readString b) n []
    pure none
  else if elem = some .array then Reader.throw .nestedArray
  else if n ≤ kSmallArrayCap ∧ (elem = some .float32 ∨ elem = some .float64) then do
    let vals ← Reader.loop (fun vals => do
      let v ← readPod b (kvScalarSize elem)
      pure (vals ++ [v])) n []
    pure (some (.floats vals))
  else if n ≤ kSmallArrayCap ∧ elem ≠ some .bool then do
    let vals ← Reader.loop (fun vals => do
      let v ← readElement b elem
      pure (vals ++ [v])) n []
    pure (some (.ints vals))
  else do
    skip b (kvScalarSize elem * n % 2 ^ 64)
    pure none

def readArray : Reader Failure (ArrayRead × Option KeptArray) := do
  let elem ← readPod b 4
  let n ← readPod b 8
  let start ← Reader.position
  let kept ← readElements b (GgufKvType.ofCode elem) n
  let stop ← Reader.position
  pure (⟨GgufKvType.ofCode elem, n, start, stop⟩, kept)

/-- The metadata that was read. -/
structure Metadata where
  values : List (List UInt8 × MetadataValue)
  kept : List (List UInt8 × KeptArray)
  arrays : List ArrayRead
  deriving DecidableEq

/-- A key and its value. -/
def readKv (m : Metadata) : Reader Failure Metadata := do
  let key ← readString b
  let vtype ← readPod b 4
  if GgufKvType.ofCode vtype = some .array then do
    let (read, kept) ← readArray b
    pure { m with
      kept := m.kept ++ (kept.toList.map fun k => (key, k))
      arrays := m.arrays ++ [read] }
  else do
    let v ← readScalarValue b (GgufKvType.ofCode vtype)
    pure { m with values := m.values ++ [(key, v)] }

/-- `general.alignment`. -/
def alignmentKey : List UInt8 := "general.alignment".toList.map fun c => UInt8.ofNat c.toNat

def Metadata.alignment (m : Metadata) : ℕ :=
  match (m.values.find? fun x => x.1 = alignmentKey).map Prod.snd with
  | some (.u64 u) => if 0 < u then u else 32
  | some (.i64 i) => if 0 < i then i.toNat else 32
  | _ => 32

/-- `align_up`, modulo `2 ^ 64`. -/
def alignUp (x align : ℕ) : ℕ :=
  if align = 0 then x else (x + align - 1) % 2 ^ 64 / align * align % 2 ^ 64

/-! ### The tensors -/

structure GgufTensorEntry where
  name : List UInt8
  ggmlType : ℕ
  dims : List ℤ
  dataOffset : ℕ
  dataSizeBytes : ℕ
  deriving DecidableEq

/-- A dimension. -/
def readDim (dims : List ℤ) : Reader Failure (List ℤ) := do
  let d ← readPod b 8
  if toSigned 8 d ≤ 0 then Reader.throw .nonPositiveDim
  pure (dims ++ [toSigned 8 d])

def readTensor (entries : List GgufTensorEntry) : Reader Failure (List GgufTensorEntry) := do
  let name ← readString b
  let nDims ← readPod b 4
  if nDims = 0 ∨ 4 < nDims then Reader.throw .nDims
  let dims ← Reader.loop (readDim b) nDims []
  let ggmlType ← readPod b 4
  let dataOffset ← readPod b 8
  pure (entries ++ [⟨name, ggmlType, dims, dataOffset, 0⟩])

/-- The product of the dimensions, as a signed number of 64 bits. -/
def numel (dims : List ℤ) : ℤ := dims.foldl (fun n d => Int.bmod (n * d) (2 ^ 64)) 1

/-- The size of the data of a tensor, modulo `2 ^ 64`. -/
def packedBytes (e : GgufTensorEntry) : Except Failure ℕ :=
  match ggufKquantFromGgml e.ggmlType with
  | some kt =>
    if numel e.dims % kt.blockValues ≠ 0 then .error .notMultipleOfQk
    else .ok ((numel e.dims / kt.blockValues % 2 ^ 64 * kt.blockBytes % 2 ^ 64).toNat)
  | none =>
    match ggufFloatSize e.ggmlType with
    | some size => .ok ((numel e.dims % 2 ^ 64 * size % 2 ^ 64).toNat)
    | none => .error .tensorType

def sizeTensor (blob : ℕ) (e : GgufTensorEntry) : Reader Failure GgufTensorEntry :=
  match packedBytes e with
  | .error f => Reader.throw f
  | .ok size =>
    let last := (blob + e.dataOffset + size) % 2 ^ 64
    if b.size < last ∨ last < e.dataOffset then Reader.throw .exceedsFile
    else pure { e with dataSizeBytes := size }

def sizeTensors (blob : ℕ) : List GgufTensorEntry → Reader Failure (List GgufTensorEntry)
  | [] => pure []
  | e :: es => do
    let e ← sizeTensor b blob e
    let es ← sizeTensors blob es
    pure (e :: es)

/-- What the parser leaves in the reader, and the arrays that it went over. -/
structure Parsed where
  entries : List GgufTensorEntry
  metadata : Metadata
  alignment : ℕ
  dataBlobOffset : ℕ
  deriving DecidableEq

/-- The magic number and the version. -/
def readHeader : Reader Failure Unit := do
  let magic ← Reader.loop (fun magic => do
    let c ← readPod b 1
    pure (magic ++ [c])) 4 []
  if magic ≠ [71, 71, 85, 70] then Reader.throw .badMagic
  let version ← readPod b 4
  if version ≠ 2 ∧ version ≠ 3 then Reader.throw .version

/-- `GgufReader::parse`. -/
def readFile : Reader Failure Parsed := do
  readHeader b
  let nTensors ← readPod b 8
  let nKv ← readPod b 8
  if toSigned 8 nTensors < 0 ∨ toSigned 8 nKv < 0 then Reader.throw .negativeCount
  let metadata ← Reader.loop (readKv b) nKv ⟨[], [], []⟩
  let entries ← Reader.loop (readTensor b) nTensors []
  let pos ← Reader.position
  let blob := alignUp pos metadata.alignment
  let entries ← sizeTensors b blob entries
  pure ⟨entries, metadata, metadata.alignment, blob⟩

def parse : Except (Stop Failure) Parsed := (readFile b 0).map Prod.fst

/-- `tensor_data`: where the data of a tensor begins, and its size. -/
def tensorData (r : Parsed) (e : GgufTensorEntry) : ℕ × ℕ :=
  ((r.dataBlobOffset + e.dataOffset) % 2 ^ 64, e.dataSizeBytes)

/-! ### The cursor stays in the buffer -/

theorem littleEndian_lt (bytes : List UInt8) : littleEndian bytes < 256 ^ bytes.length := by
  induction bytes with
  | nil => exact Nat.one_pos
  | cons c bytes ih =>
    have hc := c.toNat_lt
    rw [littleEndian, length_cons]
    omega

section Cursor

variable {b} {pos : ℕ}

theorem mod_of_le_size {p : ℕ} (h : p ≤ b.size) : p % 2 ^ 64 = p :=
  Nat.mod_eq_of_lt (h.trans_lt b.size_lt)

variable {n : ℕ}

theorem need_safe (hpos : pos ≤ b.size) (hn : n < 2 ^ 64) :
    Safe b.size (need b n) (fun _ pos' => pos' = pos ∧ pos + n ≤ b.size) pos := by
  refine (Safe.position hpos).bind fun p pos' _ hp => ?_
  obtain ⟨rfl, rfl⟩ := hp
  split
  · exact Safe.throw
  next h =>
  refine Safe.pure hpos ⟨rfl, ?_⟩
  -- a sum that wraps is below the position
  rcases lt_or_ge (pos' + n) (2 ^ 64) with hlt | hge
  · omega
  · omega

theorem skip_safe (hpos : pos ≤ b.size) (hn : n < 2 ^ 64) :
    Safe b.size (skip b n) (fun _ pos' => pos' = pos + n) pos := by
  refine (need_safe hpos hn).bind fun _ pos' hpos' h => ?_
  obtain ⟨rfl, hle⟩ := h
  refine (Safe.position hpos').bind fun p pos'' _ hp => ?_
  obtain ⟨rfl, rfl⟩ := hp
  rw [mod_of_le_size hle]
  exact Safe.moveTo hle

theorem readBytes_safe (hpos : pos ≤ b.size) (hn : n < 2 ^ 64) : Safe b.size (readBytes b n)
      (fun bytes pos' => bytes = (b.bytes.drop pos).take n ∧ pos' = pos + n) pos := by
  refine (need_safe hpos hn).bind fun _ pos' hpos' h => ?_
  obtain ⟨rfl, hle⟩ := h
  refine (Safe.memcpy hle).bind fun bytes pos'' _ hbytes => ?_
  obtain ⟨rfl, rfl⟩ := hbytes
  refine (Safe.position hpos').bind fun p pos'' _ hp => ?_
  obtain ⟨rfl, rfl⟩ := hp
  rw [mod_of_le_size hle]
  refine (Safe.moveTo hle).bind fun _ pos'' hpos'' hp => ?_
  exact Safe.pure hpos'' ⟨rfl, hp⟩

/-- The number at a position. -/
def podAt (b : Buffer) (pos width : ℕ) : ℕ := littleEndian ((b.bytes.drop pos).take width)

theorem podAt_lt (b : Buffer) (pos width : ℕ) : podAt b pos width < 256 ^ width := by
  refine (littleEndian_lt _).trans_le (Nat.pow_le_pow_right (by decide) ?_)
  rw [length_take]
  exact min_le_left _ _

theorem readPod_safe {width : ℕ} (hpos : pos ≤ b.size) (hn : width < 2 ^ 64) :
    Safe b.size (readPod b width)
      (fun v pos' => v = podAt b pos width ∧ pos' = pos + width) pos := by
  refine (readBytes_safe hpos hn).bind fun bytes pos' hpos' h => ?_
  obtain ⟨rfl, rfl⟩ := h
  exact Safe.pure hpos' ⟨rfl, rfl⟩

theorem readString_safe (hpos : pos ≤ b.size) :
    Safe b.size (readString b) (fun _ pos' => pos' = pos + 8 + podAt b pos 8) pos := by
  refine (readPod_safe hpos (by decide)).bind fun len pos' hpos' h => ?_
  obtain ⟨rfl, rfl⟩ := h
  have hlt := podAt_lt b pos 8
  split
  · exact Safe.throw.bind fun _ _ _ h => (h : False).elim
  · exact (readBytes_safe hpos' hlt).mono fun _ _ _ h => h.2

end Cursor

/-! ### What a file says -/

/-- So many strings stand between two places. -/
inductive StringsAt (b : Buffer) : ℕ → ℕ → ℕ → Prop
  | nil (start : ℕ) : StringsAt b 0 start start
  | snoc {n start p : ℕ} : StringsAt b n start p → p + 8 + podAt b p 8 ≤ b.size →
      StringsAt b (n + 1) start (p + 8 + podAt b p 8)

/-- **An array of the metadata was gone over with its true length.** -/
def ArrayRead.Right (b : Buffer) (a : ArrayRead) : Prop :=
  if a.elem = some .string then StringsAt b a.count a.start a.stop
  else (a.count = 0 ∨ kvScalarSize a.elem ≠ 0) ∧ a.stop = a.start + kvScalarSize a.elem * a.count

/-- The elements are of a known type, and their size does not wrap. -/
def ArrayRead.Bounded (a : ArrayRead) : Prop :=
  a.elem = some .string ∨
    (a.count = 0 ∨ kvScalarSize a.elem ≠ 0) ∧ kvScalarSize a.elem * a.count < 2 ^ 64

def GgufTensorEntry.packedSize (e : GgufTensorEntry) : ℤ :=
  match ggufKquantFromGgml e.ggmlType with
  | some kt => e.dims.prod / kt.blockValues * kt.blockBytes
  | none => e.dims.prod * (ggufFloatSize e.ggmlType).getD 0

/-- **The size of a tensor is its packed size, and its data lies in the file.** -/
def GgufTensorEntry.Right (b : Buffer) (r : Parsed) (e : GgufTensorEntry) : Prop :=
  (e.dataSizeBytes : ℤ) = e.packedSize ∧ (tensorData r e).1 + (tensorData r e).2 ≤ b.size

/-- The product of the dimensions does not wrap, and neither does the end of the data. -/
def GgufTensorEntry.Bounded (blob : ℕ) (e : GgufTensorEntry) : Prop :=
  (if (ggufKquantFromGgml e.ggmlType).isSome then e.dims.prod < 2 ^ 63 else e.packedSize < 2 ^ 64) ∧
    ((blob + e.dataOffset) % 2 ^ 64 : ℕ) + e.packedSize < 2 ^ 64

/-! ### What the parser does -/

/-- How far the parser goes for an array. -/
def ArrayRead.Consumed (b : Buffer) (a : ArrayRead) : Prop :=
  if a.elem = some .string then StringsAt b a.count a.start a.stop
  else if kSmallArrayCap < a.count ∨ a.elem = some .bool then
    a.stop = a.start + kvScalarSize a.elem * a.count % 2 ^ 64
  else (a.count = 0 ∨ kvScalarSize a.elem ≠ 0) ∧ a.stop = a.start + kvScalarSize a.elem * a.count

/-- What the parser has checked of a tensor. -/
structure GgufTensorEntry.Sized (b : Buffer) (blob : ℕ) (e : GgufTensorEntry) : Prop where
  pos : ∀ d ∈ e.dims, 0 < d
  size : packedBytes e = .ok e.dataSizeBytes
  inFile : (blob + e.dataOffset + e.dataSizeBytes) % 2 ^ 64 ≤ b.size

section Metadata

variable {b} {pos : ℕ}

theorem kvScalarSize_le (t : Option GgufKvType) : kvScalarSize t ≤ 8 := by
  unfold kvScalarSize
  split <;> omega

theorem kvScalarSize_lt (t : Option GgufKvType) : kvScalarSize t < 2 ^ 64 :=
  (kvScalarSize_le t).trans_lt (by decide)

variable (hpos : pos ≤ b.size)
include hpos

theorem readScalarValue_safe (t : Option GgufKvType) :
    Safe b.size (readScalarValue b t) (fun _ _ => True) pos := by
  have hnumber : ∀ f : ℕ → MetadataValue, Safe b.size (do
      let v ← readPod b (kvScalarSize t)
      Pure.pure (f v)) (fun _ _ => True) pos := by
    intro f
    refine (readPod_safe hpos (kvScalarSize_lt t)).bind fun v pos' hpos' _ => ?_
    exact Safe.pure hpos' trivial
  cases t with
  | none => exact Safe.pure hpos trivial
  | some t =>
    cases t with
    | string =>
      refine (readString_safe hpos).bind fun s pos' hpos' _ => ?_
      exact Safe.pure hpos' trivial
    | array => exact Safe.throw
    | _ => exact hnumber _

theorem readElement_safe (t : Option GgufKvType) : Safe b.size (readElement b t)
      (fun _ pos' => kvScalarSize t ≠ 0 ∧ pos' = pos + kvScalarSize t) pos := by
  have hnumber : kvScalarSize t ≠ 0 → ∀ f : ℕ → ℤ, Safe b.size (do
      let v ← readPod b (kvScalarSize t)
      Pure.pure (f v)) (fun _ pos' => kvScalarSize t ≠ 0 ∧ pos' = pos + kvScalarSize t) pos := by
    intro hne f
    refine (readPod_safe hpos (kvScalarSize_lt t)).bind fun v pos' hpos' h => ?_
    exact Safe.pure hpos' ⟨hne, h.2⟩
  cases t with
  | none => exact Safe.throw
  | some t =>
    cases t with
    | string | array | bool | float32 | float64 => exact Safe.throw
    | _ => exact hnumber (by decide) _

theorem loop_elements {α : Type} {read : Reader Failure α} {size n : ℕ}
    (hread : ∀ pos, pos ≤ b.size →
      Safe b.size read (fun _ pos' => size ≠ 0 ∧ pos' = pos + size) pos) :
    Safe b.size (Reader.loop (fun vals => do
        let v ← read
        Pure.pure (vals ++ [v])) n ([] : List α))
      (fun _ pos' => (n = 0 ∨ size ≠ 0) ∧ pos' = pos + size * n) pos := by
  have hloop := Safe.loop (I := fun i (_ : List α) p => (i = 0 ∨ size ≠ 0) ∧ p = pos + size * i)
    (f := fun vals => do
      let v ← read
      Pure.pure (vals ++ [v])) (n := n) (i := 0) (s := ([] : List α)) (fun j vals p hp hj => by
    refine (hread p hp).bind fun v p' hp' h => Safe.pure hp' ⟨.inr h.1, ?_⟩
    rw [h.2, hj.2, Nat.mul_succ, Nat.add_assoc]) hpos ⟨.inl rfl, rfl⟩
  rwa [Nat.zero_add] at hloop

theorem readElements_safe (elem : Option GgufKvType) (n : ℕ) : Safe b.size (readElements b elem n)
      (fun _ pos' => ArrayRead.Consumed b ⟨elem, n, pos, pos'⟩) pos := by
  unfold readElements ArrayRead.Consumed
  by_cases hstring : elem = some .string
  · simp only [if_pos hstring]
    have hloop := Safe.loop (I := fun i (_ : List UInt8) p => StringsAt b i pos p)
      (f := fun _ => readString b) (n := n) (i := 0) (s := []) (fun j s p hp hj =>
        ((readString_safe hp).mono fun _ p' hp' h => by
          rw [h] at hp' ⊢
          exact hj.snoc hp')) hpos (StringsAt.nil pos)
    rw [Nat.zero_add] at hloop
    exact hloop.bind fun _ _ hp h => Safe.pure hp h
  simp only [if_neg hstring]
  split
  · exact Safe.throw
  split
  · next hsmall =>
    have hsize : kvScalarSize elem ≠ 0 := by
      rcases hsmall.2 with rfl | rfl <;> decide
    have hnot : ¬(kSmallArrayCap < n ∨ elem = some .bool) := by
      rintro (hlt | rfl)
      · omega
      · rcases hsmall.2 with h | h <;> cases h
    simp only [if_neg hnot]
    refine (loop_elements hpos fun p hp => (readPod_safe hp (kvScalarSize_lt elem)).mono
      fun _ _ _ h => ⟨hsize, h.2⟩).bind fun _ _ hp h => Safe.pure hp h
  split
  · next hsmall =>
    have hnot : ¬(kSmallArrayCap < n ∨ elem = some .bool) := by
      rintro (hlt | h)
      · omega
      · exact hsmall.2 h
    simp only [if_neg hnot]
    exact (loop_elements hpos fun p hp => readElement_safe hp elem).bind fun _ _ hp h =>
      Safe.pure hp h
  · next hfloat hsmall =>
    have hlarge : kSmallArrayCap < n ∨ elem = some .bool := by
      by_contra hnot
      rw [not_or, not_lt] at hnot
      exact hsmall hnot
    simp only [if_pos hlarge]
    exact (skip_safe hpos (Nat.mod_lt _ (by decide))).bind fun _ _ hp h => Safe.pure hp h

theorem readArray_safe : Safe b.size (readArray b) (fun x _ => x.1.Consumed b) pos := by
  refine (readPod_safe hpos (by decide)).bind fun elem p₁ hp₁ _ => ?_
  refine (readPod_safe hp₁ (by decide)).bind fun n p₂ hp₂ _ => ?_
  refine (Safe.position hp₂).bind fun start p₃ hp₃ hstart => ?_
  obtain ⟨rfl, rfl⟩ := hstart
  refine (readElements_safe hp₃ _ n).bind fun kept p₄ hp₄ hconsumed => ?_
  refine (Safe.position hp₄).bind fun stop p₅ hp₅ hstop => ?_
  obtain ⟨rfl, rfl⟩ := hstop
  exact Safe.pure hp₅ hconsumed

theorem readKv_safe {m : Metadata} (hm : ∀ a ∈ m.arrays, a.Consumed b) :
    Safe b.size (readKv b m) (fun m' _ => ∀ a ∈ m'.arrays, a.Consumed b) pos := by
  refine (readString_safe hpos).bind fun key p₁ hp₁ _ => ?_
  refine (readPod_safe hp₁ (by decide)).bind fun vtype p₂ hp₂ _ => ?_
  split
  · refine (readArray_safe hp₂).bind fun x p₃ hp₃ hconsumed => ?_
    refine Safe.pure hp₃ fun a ha => ?_
    rcases mem_append.1 ha with ha | ha
    · exact hm a ha
    · rw [mem_singleton.1 ha]
      exact hconsumed
  · refine (readScalarValue_safe hp₂ _).bind fun v p₃ hp₃ _ => ?_
    exact Safe.pure hp₃ hm

end Metadata

/-! ### The tensors -/

section Tensors

variable {b} {pos : ℕ}

theorem readDim_safe (hpos : pos ≤ b.size) {dims : List ℤ} (hdims : ∀ d ∈ dims, 0 < d) :
    Safe b.size (readDim b dims) (fun dims' _ => ∀ d ∈ dims', 0 < d) pos := by
  refine (readPod_safe hpos (by decide)).bind fun d p₁ hp₁ _ => ?_
  split
  · exact Safe.throw.bind fun _ _ _ h => (h : False).elim
  next hd =>
  refine Safe.pure hp₁ fun x hx => ?_
  rcases mem_append.1 hx with hx | hx
  · exact hdims x hx
  · rw [mem_singleton.1 hx]
    exact not_le.1 hd

theorem readTensor_safe (hpos : pos ≤ b.size) {entries : List GgufTensorEntry}
    (hentries : ∀ e ∈ entries, ∀ d ∈ e.dims, 0 < d) :
    Safe b.size (readTensor b entries)
      (fun entries' _ => ∀ e ∈ entries', ∀ d ∈ e.dims, 0 < d) pos := by
  refine (readString_safe hpos).bind fun name p₁ hp₁ _ => ?_
  refine (readPod_safe hp₁ (by decide)).bind fun nDims p₂ hp₂ _ => ?_
  split
  · exact Safe.throw.bind fun _ _ _ h => (h : False).elim
  refine (Safe.loop (I := fun _ (dims : List ℤ) _ => ∀ d ∈ dims, 0 < d) (i := 0)
    (fun _ dims p hp hdims => readDim_safe hp hdims) hp₂ (by simp)).bind
    fun dims p₃ hp₃ hdims => ?_
  refine (readPod_safe hp₃ (by decide)).bind fun ggmlType p₄ hp₄ _ => ?_
  refine (readPod_safe hp₄ (by decide)).bind fun dataOffset p₅ hp₅ _ => ?_
  refine Safe.pure hp₅ fun e he => ?_
  rcases mem_append.1 he with he | he
  · exact hentries e he
  · rw [mem_singleton.1 he]
    exact hdims

theorem sizeTensor_safe (hpos : pos ≤ b.size) {blob : ℕ} {e : GgufTensorEntry}
    (he : ∀ d ∈ e.dims, 0 < d) :
    Safe b.size (sizeTensor b blob e) (fun e' _ => e'.Sized b blob) pos := by
  unfold sizeTensor
  cases hsize : packedBytes e with
  | error f => exact Safe.throw
  | ok size =>
    dsimp only
    split
    · exact Safe.throw
    next hlast =>
    rw [not_or, not_lt] at hlast
    exact Safe.pure hpos ⟨he, hsize, hlast.1⟩

theorem sizeTensors_safe {blob : ℕ} {es : List GgufTensorEntry} : ∀ {pos : ℕ}, pos ≤ b.size →
    (∀ e ∈ es, ∀ d ∈ e.dims, 0 < d) →
    Safe b.size (sizeTensors b blob es) (fun es' _ => ∀ e ∈ es', e.Sized b blob) pos := by
  induction es with
  | nil => exact fun hpos _ => Safe.pure hpos (by simp)
  | cons e es ih =>
    intro pos hpos hes
    obtain ⟨he, hes⟩ := forall_mem_cons.1 hes
    refine (sizeTensor_safe hpos he).bind fun e' p₁ hp₁ he' => ?_
    refine (ih hp₁ hes).bind fun es' p₂ hp₂ hes' => ?_
    exact Safe.pure hp₂ (forall_mem_cons.2 ⟨he', hes'⟩)

theorem readHeader_safe (hpos : pos ≤ b.size) :
    Safe b.size (readHeader b) (fun _ _ => True) pos := by
  refine (Safe.loop (I := fun _ (_ : List ℕ) _ => True) (i := 0) (fun _ magic p hp _ => ?_) hpos
    trivial).bind fun magic p₁ hp₁ _ => ?_
  · refine (readPod_safe hp (by decide)).bind fun c p' hp' _ => ?_
    exact Safe.pure hp' trivial
  split
  · exact Safe.throw.bind fun _ _ _ h => (h : False).elim
  refine (readPod_safe hp₁ (by decide)).bind fun version p₂ hp₂ _ => ?_
  split
  · exact Safe.throw
  · exact Safe.pure hp₂ trivial

theorem readFile_safe :
    Safe b.size (readFile b) (fun r _ => (∀ a ∈ r.metadata.arrays, a.Consumed b) ∧
      ∀ e ∈ r.entries, e.Sized b r.dataBlobOffset) 0 := by
  refine (readHeader_safe (Nat.zero_le _)).bind fun _ p₁ hp₁ _ => ?_
  refine (readPod_safe hp₁ (by decide)).bind fun nTensors p₂ hp₂ _ => ?_
  refine (readPod_safe hp₂ (by decide)).bind fun nKv p₃ hp₃ _ => ?_
  split
  · exact Safe.throw.bind fun _ _ _ h => (h : False).elim
  refine (Safe.loop (I := fun _ (m : Metadata) _ => ∀ a ∈ m.arrays, a.Consumed b) (i := 0)
    (fun _ m p hp hm => readKv_safe hp hm) hp₃ (by simp)).bind fun metadata p₄ hp₄ hmetadata => ?_
  refine (Safe.loop (I := fun _ (entries : List GgufTensorEntry) _ =>
    ∀ e ∈ entries, ∀ d ∈ e.dims, 0 < d) (i := 0)
    (fun _ entries p hp hentries => readTensor_safe hp hentries) hp₄ (by simp)).bind
    fun entries p₅ hp₅ hentries => ?_
  refine (Safe.position hp₅).bind fun p p₆ hp₆ _ => ?_
  refine (sizeTensors_safe hp₆ hentries).bind fun entries' p₇ hp₇ hentries' => ?_
  exact Safe.pure hp₇ ⟨hmetadata, hentries'⟩

end Tensors

theorem parse_safe : parse b ≠ .error .fault := by
  obtain ⟨hfault, -⟩ := @readFile_safe b
  unfold parse
  cases hrun : readFile b 0 with
  | ok x => exact fun h => (by cases h)
  | error stop =>
    intro h
    have hstop : stop = .fault := by
      cases h
      rfl
    exact hfault (hstop ▸ hrun)

theorem parse_ok {r : Parsed} (h : parse b = .ok r) :
    (∀ a ∈ r.metadata.arrays, a.Consumed b) ∧ ∀ e ∈ r.entries, e.Sized b r.dataBlobOffset := by
  unfold parse at h
  cases hrun : readFile b 0 with
  | error stop =>
    rw [hrun] at h
    cases h
  | ok x =>
    obtain ⟨r', pos⟩ := x
    rw [hrun] at h
    cases h
    exact (readFile_safe.2 r' pos hrun).2

/-! ### Sizes that wrap -/

theorem numel_eq (dims : List ℤ) : numel dims = bmod dims.prod (2 ^ 64) := by
  have hgen : ∀ n : ℤ, (dims.foldl (fun n d => bmod (n * d) (2 ^ 64)) (bmod n (2 ^ 64))) =
      bmod (n * dims.prod) (2 ^ 64) := by
    induction dims with
    | nil =>
      intro n
      rw [foldl_nil, prod_nil, mul_one]
    | cons d dims ih =>
      intro n
      rw [foldl_cons, bmod_mul_bmod, ih, prod_cons, mul_assoc]
  have hnumel := hgen 1
  rw [one_mul] at hnumel
  exact hnumel

theorem packed_eq_iff {q m bb a : ℤ} (hq : 0 < q) (hqm : q * m = 2 ^ 64) (hbb : 0 < bb)
    (hlt : bb < 2 * q) (hnot : ¬bb ∣ q) (ha : 0 < a) :
    bmod (q * a) (2 ^ 64) / q % 2 ^ 64 * bb % 2 ^ 64 = a * bb ↔ q * a < 2 ^ 63 := by
  have hlow : -2 ^ 63 ≤ bmod (q * a) (2 ^ 64) := le_bmod (by decide)
  have hhigh : bmod (q * a) (2 ^ 64) < 2 ^ 63 := bmod_lt (by decide)
  obtain ⟨k, hk⟩ : ∃ k, bmod (q * a) (2 ^ 64) = q * a - 2 ^ 64 * k :=
    ⟨_, bmod_eq_self_sub_mul_bdiv _ _⟩
  have hfactor : q * a - 2 ^ 64 * k = q * (a - m * k) := by
    rw [← hqm]
    ring
  have hmod : ∀ x : ℤ, x % 2 ^ 64 * bb % 2 ^ 64 = x * bb % 2 ^ 64 := fun x =>
    (mod_modEq x (2 ^ 64)).mul_right bb
  rw [hk] at hlow hhigh
  rw [hk, hfactor, mul_ediv_cancel_left _ hq.ne', hmod]
  have hqa : 0 < q * a := mul_pos hq ha
  have hab : a * bb < 2 * (q * a) := by nlinarith
  constructor
  · intro heq
    -- the size is below `2 ^ 64`, and the wraps of the product are wraps of the size
    have hsize : a * bb < 2 ^ 64 := heq ▸ emod_lt_of_pos _ (by decide)
    have hdvd : q ∣ k * bb := by
      have hsub : (2 ^ 64 : ℤ) ∣ (a - m * k) * bb - a * bb := Int.ModEq.dvd (by
        unfold Int.ModEq
        rw [heq]
        exact emod_eq_of_lt (by positivity) hsize)
      have hm : m ≠ 0 := by
        rintro rfl
        omega
      have heq' : (a - m * k) * bb - a * bb = -(m * (k * bb)) := by ring
      rw [heq', dvd_neg, ← hqm, mul_comm q m] at hsub
      exact dvd_of_mul_dvd_mul_left hm hsub
    have hk0 : 0 ≤ k := by omega
    have hkbb : k * bb = 0 := by
      obtain ⟨c, hc⟩ := hdvd
      have hc0 : 0 ≤ c := by
        by_contra hneg
        nlinarith
      have hc2 : c < 2 := by
        by_contra hge
        nlinarith
      have hcases : c = 0 ∨ c = 1 := by omega
      rcases hcases with rfl | rfl
      · rw [hc, mul_zero]
      · exact absurd ⟨k, by rw [mul_comm, hc, mul_one]⟩ hnot
    have hkz : k = 0 := (mul_eq_zero.1 hkbb).resolve_right hbb.ne'
    omega
  · intro hsmall
    have hk0 : k = 0 := by omega
    rw [hk0, mul_zero, sub_zero]
    exact emod_eq_of_lt (by positivity) (by omega)

variable {e : GgufTensorEntry}

theorem GgufTensorEntry.Sized.size_iff {b : Buffer} {blob : ℕ} (h : e.Sized b blob) :
    (e.dataSizeBytes : ℤ) = e.packedSize ↔
      if (ggufKquantFromGgml e.ggmlType).isSome then e.dims.prod < 2 ^ 63
      else e.packedSize < 2 ^ 64 := by
  have hprod : 0 < e.dims.prod := prod_pos h.pos
  have hsize := h.size
  unfold packedBytes at hsize
  unfold GgufTensorEntry.packedSize
  rw [numel_eq] at hsize
  cases hkt : ggufKquantFromGgml e.ggmlType with
  | some kt =>
    rw [hkt] at hsize
    dsimp only at hsize ⊢
    split at hsize
    · cases hsize
    next hdvd =>
    rw [not_not] at hdvd
    have hblock : (0 : ℤ) < kt.blockValues := by cases kt <;> decide
    -- the number of values is a multiple of the block size
    have hdvd' : (kt.blockValues : ℤ) ∣ 2 ^ 64 := by cases kt <;> decide
    obtain ⟨a, ha⟩ : (kt.blockValues : ℤ) ∣ e.dims.prod := by
      obtain ⟨k, hk⟩ : ∃ k, bmod e.dims.prod (2 ^ 64) = e.dims.prod - 2 ^ 64 * k :=
        ⟨_, bmod_eq_self_sub_mul_bdiv _ _⟩
      rw [hk] at hdvd
      exact (dvd_sub_left (hdvd'.mul_right k)).1 (dvd_of_emod_eq_zero hdvd)
    have ha0 : 0 < a := by
      rw [ha] at hprod
      exact (mul_pos_iff_of_pos_left hblock).1 hprod
    obtain ⟨m, hm⟩ := hdvd'
    have hcomputed : (e.dataSizeBytes : ℤ) =
        bmod e.dims.prod (2 ^ 64) / kt.blockValues % 2 ^ 64 * kt.blockBytes % 2 ^ 64 := by
      rw [← Except.ok.inj hsize]
      exact toNat_of_nonneg (emod_nonneg _ (by decide))
    rw [hcomputed, ha, mul_ediv_cancel_left _ hblock.ne']
    exact packed_eq_iff hblock hm.symm (by cases kt <;> decide) (by cases kt <;> decide)
      (by cases kt <;> decide) ha0
  | none =>
    rw [hkt] at hsize
    cases hfloat : ggufFloatSize e.ggmlType with
    | none =>
      rw [hfloat] at hsize
      cases hsize
    | some size =>
      rw [hfloat] at hsize
      have hcomputed : (e.dataSizeBytes : ℤ) = e.dims.prod * size % 2 ^ 64 := by
        rw [← Except.ok.inj hsize, toNat_of_nonneg (emod_nonneg _ (by decide))]
        have hmod : bmod e.dims.prod (2 ^ 64) % 2 ^ 64 = e.dims.prod % 2 ^ 64 :=
          bmod_emod
        rw [hmod]
        exact (mod_modEq _ _).mul_right _
      rw [hcomputed]
      constructor
      · intro heq
        rw [← heq]
        exact emod_lt_of_pos _ (by decide)
      · exact emod_eq_of_lt (by positivity)

theorem GgufTensorEntry.Sized.right_iff {b : Buffer} {r : Parsed} (h : e.Sized b r.dataBlobOffset) :
    e.Right b r ↔ e.Bounded r.dataBlobOffset := by
  have hin := h.inFile
  have hlen := b.size_lt
  unfold GgufTensorEntry.Right GgufTensorEntry.Bounded tensorData
  rw [← h.size_iff]
  refine and_congr_right fun hsize => ?_
  rw [← hsize]
  have hsum : (r.dataBlobOffset + e.dataOffset + e.dataSizeBytes) % 2 ^ 64 =
      ((r.dataBlobOffset + e.dataOffset) % 2 ^ 64 + e.dataSizeBytes) % 2 ^ 64 := by
    rw [Nat.mod_add_mod]
  rw [hsum] at hin
  constructor
  · intro hle
    have hlt : (r.dataBlobOffset + e.dataOffset) % 2 ^ 64 + e.dataSizeBytes < 2 ^ 64 :=
      hle.trans_lt hlen
    exact_mod_cast hlt
  · intro hlt
    have hlt' : (r.dataBlobOffset + e.dataOffset) % 2 ^ 64 + e.dataSizeBytes < 2 ^ 64 := by
      exact_mod_cast hlt
    rwa [Nat.mod_eq_of_lt hlt'] at hin

theorem ArrayRead.Consumed.right_iff {b : Buffer} {a : ArrayRead} (h : a.Consumed b) :
    a.Right b ↔ a.Bounded := by
  unfold ArrayRead.Consumed at h
  unfold ArrayRead.Right ArrayRead.Bounded
  by_cases hstring : a.elem = some .string
  · rw [if_pos hstring] at h ⊢
    exact iff_of_true h (.inl hstring)
  rw [if_neg hstring] at h ⊢
  rw [or_iff_right hstring]
  refine and_congr_right fun _ => ?_
  split at h
  · rw [h, Nat.add_left_cancel_iff]
    constructor
    · intro heq
      rw [← heq]
      exact Nat.mod_lt _ (by decide)
    · exact Nat.mod_eq_of_lt
  · next hsmall =>
    rw [not_or, not_lt] at hsmall
    refine iff_of_true h.2 ?_
    have hle := Nat.mul_le_mul (kvScalarSize_le a.elem) hsmall.1
    unfold kSmallArrayCap at hle
    omega

/-- **Parsing a GGUF file.**  The parser never reads outside of the buffer, and what it returns is
right just if no product and no sum of it wraps. -/
theorem gguf_parse_iff : parse b ≠ .error .fault ∧ ∀ r, parse b = .ok r →
    (((∀ e ∈ r.entries, e.Right b r) ∧ ∀ a ∈ r.metadata.arrays, a.Right b) ↔
      (∀ e ∈ r.entries, e.Bounded r.dataBlobOffset) ∧ ∀ a ∈ r.metadata.arrays, a.Bounded) := by
  refine ⟨parse_safe b, fun r h => ?_⟩
  obtain ⟨harrays, hentries⟩ := parse_ok b h
  exact and_congr (forall₂_congr fun e he => (hentries e he).right_iff)
    (forall₂_congr fun a ha => (harrays a ha).right_iff)

/-- The magic number and version 3, a number of tensors and a number of keys. -/
def header (nTensors nKv : UInt8) : List UInt8 :=
  [71, 71, 85, 70, 3, 0, 0, 0, nTensors, 0, 0, 0, 0, 0, 0, 0, nKv, 0, 0, 0, 0, 0, 0, 0]

/-- A tensor without a name, of one dimension and of a type, at the beginning of the data. -/
def oneTensor (dim : List UInt8) (ggmlType : UInt8) : List UInt8 :=
  [0, 0, 0, 0, 0, 0, 0, 0, 1, 0, 0, 0] ++ dim ++ [ggmlType, 0, 0, 0, 0, 0, 0, 0, 0, 0, 0, 0]

/-- A file with an array of two bytes under the key `a` and one tensor of two values of four
bytes. -/
def smallFile : Buffer :=
  ⟨header 1 1 ++ [1, 0, 0, 0, 0, 0, 0, 0, 97, 9, 0, 0, 0] ++
      [0, 0, 0, 0, 2, 0, 0, 0, 0, 0, 0, 0, 5, 6] ++
    oneTensor [2, 0, 0, 0, 0, 0, 0, 0] 0 ++ List.replicate 21 0, by decide⟩

/-- Its array has the length it says, and its tensor lies in the file. -/
theorem gguf_parse_iff_small : ∃ r, parse smallFile = .ok r ∧
    r.metadata.arrays = [⟨some .uint8, 2, 49, 51⟩] ∧
    (∀ e ∈ r.entries, e.Right smallFile r) ∧ ∀ a ∈ r.metadata.arrays, a.Right smallFile := by
  refine ⟨⟨[⟨[], 0, [2], 0, 8⟩],
    ⟨[], [([97], .ints [5, 6])], [⟨some .uint8, 2, 49, 51⟩]⟩, 32, 96⟩, by decide +kernel, rfl, ?_⟩
  refine ((gguf_parse_iff smallFile).2 _ (by decide +kernel)).2 ⟨fun e he => ?_, fun a ha => ?_⟩
  · rw [mem_singleton.1 he]
    exact ⟨by decide, by decide⟩
  · rw [mem_singleton.1 ha]
    exact .inr ⟨by decide, by decide⟩

/-- A file with one tensor of `2 ^ 62 - 1` values of four bytes. -/
def wrappingFile : Buffer :=
  ⟨header 1 0 ++ oneTensor [255, 255, 255, 255, 255, 255, 255, 63] 0 ++ List.replicate 8 0,
    by decide⟩

theorem wrapping_tensor_accepted : ∃ r e, parse wrappingFile = .ok r ∧ e ∈ r.entries ∧
    wrappingFile.size = 64 ∧ tensorData r e = (64, 2 ^ 64 - 4) ∧ ¬e.Right wrappingFile r := by
  refine ⟨⟨[⟨[], 0, [2 ^ 62 - 1], 0, 2 ^ 64 - 4⟩], ⟨[], [], []⟩, 32, 64⟩, _, by decide +kernel,
    mem_singleton_self _, by decide, by decide, fun h => ?_⟩
  exact absurd h.2 (by decide)

end Gguf
end LayerStorm.Weights
