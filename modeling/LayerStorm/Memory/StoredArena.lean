import Mathlib.Algebra.Order.BigOperators.Group.Finset

/-!
# Opening a stored record table

On a warm start the record table of the arena is a file that another process left.  `open_stored`
checks its header and its region table, and the records are then indexed by what the regions say.
All fields come from the file, and the offsets and sizes wrap.

The check compares the size of the table, as it is computed, with that of the file: a table whose
true size does not fit 64 bits gets through.

## Main results

* `openStored_inside` — **an accepted file is safe** if and only if its table does not wrap.
-/

namespace LayerStorm.Memory.StoredArena

open Finset

/-- The fields of `Header`. -/
structure Header where
  magic : UInt64
  schemaVersion : UInt32
  numNodes : UInt32
  geometryHash : UInt64
  sourceId : UInt64
  recordCount : UInt64
  deriving DecidableEq, Repr

structure NodeSpan where
  node : Int32
  firstRecord : UInt64
  numSlots : UInt64
  deriving DecidableEq

/-- A mapped file: its size, its header, and what stands behind, read as regions. -/
structure MetaSegment where
  bytes : UInt64
  header : Header
  spans : ℕ → NodeSpan

def kMagicExpected : UInt64 := 0x314E455241534C1B

def kSchemaVersion : UInt32 := 2

/-- `sizeof(Header)`. -/
def headerSize : UInt64 := 40

/-- `sizeof(NodeSpan)`. -/
def spanSize : UInt64 := 24

/-- `sizeof(SlotRecord)`. -/
def recordSize : UInt64 := 40

/-- The loop over the regions: the first record behind them. -/
def spanLoop (spans : ℕ → NodeSpan) : ℕ → Option UInt64
  | 0 => some 0
  | i + 1 => (spanLoop spans i).bind fun first =>
    if (spans i).node < 0 ∨ (spans i).firstRecord ≠ first ∨ (spans i).numSlots = 0 then none
    else some (first + (spans i).numSlots)

section Segment

variable (seg : MetaSegment)

/-- Where the records begin. -/
def recordsOffset : UInt64 := headerSize + seg.header.numNodes.toUInt64 * spanSize

def openStored (geometryHash sourceId : UInt64) : Bool :=
  if seg.bytes < headerSize then false
  else if seg.header.magic ≠ kMagicExpected ∨ seg.header.schemaVersion ≠ kSchemaVersion then false
  else if seg.header.geometryHash ≠ geometryHash then false
  else if seg.header.sourceId ≠ sourceId then false
  else if seg.header.numNodes = 0 ∨ seg.bytes < recordsOffset seg then false
  else
    match spanLoop seg.spans seg.header.numNodes.toNat with
    | none => false
    | some first =>
      if seg.header.recordCount ≠ first ∨ seg.bytes < recordsOffset seg + first * recordSize then
        false
      else
        -- no node has two regions
        ((List.range seg.header.numNodes.toNat).map fun i => (seg.spans i).node).Nodup

/-! ### Accesses -/

/-- The indices of `record` and `scan_adoptable`: a region's first record and a slot of it. -/
def Indexed (idx : UInt64) : Prop :=
  ∃ i < seg.header.numNodes.toNat, ∃ slot < (seg.spans i).numSlots,
    idx = (seg.spans i).firstRecord + slot

/-- So many bytes from an offset on lie in the file. -/
def Inside (offset size : UInt64) : Prop := offset.toNat + size.toNat ≤ seg.bytes.toNat

/-- Every region and every record that is indexed lies in the file. -/
structure Safe : Prop where
  span : ∀ i < seg.header.numNodes, Inside seg (headerSize + i.toUInt64 * spanSize) spanSize
  record : ∀ idx, Indexed seg idx → Inside seg (recordsOffset seg + idx * recordSize) recordSize

/-- The slots of the first regions, without a bound. -/
def slotsBefore (i : ℕ) : ℕ := ∑ k ∈ range i, (seg.spans k).numSlots.toNat

/-- The size of the table, without a bound. -/
def tableBytes : ℕ :=
  40 + 24 * seg.header.numNodes.toNat + 40 * slotsBefore seg seg.header.numNodes.toNat

end Segment

variable {seg : MetaSegment} {geometryHash sourceId : UInt64} {n : ℕ} {first : UInt64}

theorem toNat_recordsOffset (seg : MetaSegment) :
    (recordsOffset seg).toNat = 40 + 24 * seg.header.numNodes.toNat := by
  have hn := seg.header.numNodes.toNat_lt
  simp only [recordsOffset, headerSize, spanSize, UInt64.toNat_add, UInt64.toNat_mul,
    UInt32.toNat_toUInt64, UInt64.reduceToNat]
  omega

theorem slotsBefore_succ (seg : MetaSegment) (i : ℕ) :
    slotsBefore seg (i + 1) = slotsBefore seg i + (seg.spans i).numSlots.toNat :=
  sum_range_succ ..

/-- **The loop over the regions**, by induction on their number: each begins behind the slots of
those before it, modulo the word. -/
theorem spanLoop_some : ∀ {n first}, spanLoop seg.spans n = some first →
    first = UInt64.ofNat (slotsBefore seg n) ∧
      ∀ i < n, (seg.spans i).firstRecord = UInt64.ofNat (slotsBefore seg i) := by
  intro n
  induction n with
  | zero =>
    intro first h
    cases h
    exact ⟨rfl, fun i hi => absurd hi (Nat.not_lt_zero i)⟩
  | succ n ih =>
    intro first h
    obtain ⟨before, hbefore, h⟩ := Option.bind_eq_some_iff.1 h
    split_ifs at h with hbad
    obtain ⟨hfirst, hall⟩ := ih hbefore
    rw [not_or, not_or, not_not] at hbad
    refine ⟨?_, fun i hi => ?_⟩
    · rw [← Option.some.inj h, hfirst, slotsBefore_succ, UInt64.ofNat_add, UInt64.ofNat_toNat]
    · rcases Nat.lt_succ_iff_lt_or_eq.1 hi with hlt | rfl
      · exact hall i hlt
      · exact hbad.2.1.trans hfirst

/-- **The records that are indexed** are all of the first ones. -/
theorem exists_span {j : ℕ} : ∀ {n}, j < slotsBefore seg n →
    ∃ i < n, ∃ slot : ℕ, slot < (seg.spans i).numSlots.toNat ∧ j = slotsBefore seg i + slot := by
  intro n
  induction n with
  | zero => exact fun h => absurd h (Nat.not_lt_zero j)
  | succ n ih =>
    intro h
    rcases Nat.lt_or_ge j (slotsBefore seg n) with hlt | hge
    · obtain ⟨i, hi, hslot⟩ := ih hlt
      exact ⟨i, hi.trans n.lt_succ_self, hslot⟩
    · rw [slotsBefore_succ] at h
      exact ⟨n, n.lt_succ_self, j - slotsBefore seg n, by omega, by omega⟩

/-- What an accepted file has been checked for. -/
theorem openStored_spec (h : openStored seg geometryHash sourceId = true) :
    40 + 24 * seg.header.numNodes.toNat ≤ seg.bytes.toNat ∧ (recordsOffset seg +
        UInt64.ofNat (slotsBefore seg seg.header.numNodes.toNat) * recordSize).toNat ≤
          seg.bytes.toNat ∧
      ∀ i < seg.header.numNodes.toNat,
        (seg.spans i).firstRecord = UInt64.ofNat (slotsBefore seg i) := by
  unfold openStored at h
  split_ifs at h with _ _ _ _ hsize
  rw [not_or, UInt64.not_lt, UInt64.le_iff_toNat_le, toNat_recordsOffset] at hsize
  split at h
  · cases h
  next first hloop =>
  split_ifs at h with hcount
  rw [not_or, UInt64.not_lt, UInt64.le_iff_toNat_le] at hcount
  obtain ⟨hfirst, hall⟩ := spanLoop_some hloop
  exact ⟨hsize.2, hfirst ▸ hcount.2, hall⟩

theorem toNat_recordOffset (j : ℕ) : (recordsOffset seg + UInt64.ofNat j * recordSize).toNat =
      (40 + 24 * seg.header.numNodes.toNat + 40 * j) % 2 ^ 64 := by
  rw [UInt64.toNat_add, UInt64.toNat_mul, toNat_recordsOffset, UInt64.toNat_ofNat']
  show (_ + j % 2 ^ 64 * 40 % 2 ^ 64) % 2 ^ 64 = _
  omega

/-- **When an accepted file is safe**: every region and every record that is indexed lies in it if
and only if the table, with nothing wrapped, has a size of 64 bits. -/
theorem openStored_inside (h : openStored seg geometryHash sourceId = true) :
    Safe seg ↔ tableBytes seg < 2 ^ 64 := by
  obtain ⟨hhead, hsize, hfirst⟩ := openStored_spec h
  have hbytes := seg.bytes.toNat_lt
  have hindexed : ∀ j < slotsBefore seg seg.header.numNodes.toNat,
      Indexed seg (UInt64.ofNat j) := by
    intro j hj
    obtain ⟨i, hi, slot, hslot, rfl⟩ := exists_span hj
    have hlt := (seg.spans i).numSlots.toNat_lt
    refine ⟨i, hi, UInt64.ofNat slot, ?_, by rw [hfirst i hi, UInt64.ofNat_add]⟩
    rw [UInt64.lt_iff_toNat_lt, UInt64.toNat_ofNat', Nat.mod_eq_of_lt (hslot.trans hlt)]
    exact hslot
  rw [toNat_recordOffset] at hsize
  unfold tableBytes
  constructor
  · -- the first record that does not fit is indexed if the table is too large
    intro hsafe
    by_contra hwrap
    have hin := hsafe.record _
      (hindexed ((seg.bytes.toNat - (40 + 24 * seg.header.numNodes.toNat)) / 40) (by omega))
    rw [Inside, toNat_recordOffset] at hin
    change _ + 40 ≤ _ at hin
    omega
  · intro hfit
    rw [Nat.mod_eq_of_lt hfit] at hsize
    refine ⟨fun i hi => ?_, ?_⟩
    · have hi := UInt32.lt_iff_toNat_lt.1 hi
      have hn := seg.header.numNodes.toNat_lt
      simp only [Inside, headerSize, spanSize, UInt64.toNat_add, UInt64.toNat_mul,
        UInt32.toNat_toUInt64, UInt64.reduceToNat]
      omega
    · rintro idx ⟨i, hi, slot, hslot, rfl⟩
      have hmono : slotsBefore seg (i + 1) ≤ slotsBefore seg seg.header.numNodes.toNat :=
        sum_le_sum_of_subset (range_subset_range.2 hi)
      have hslot := UInt64.lt_iff_toNat_lt.1 hslot
      rw [slotsBefore_succ] at hmono
      rw [hfirst i hi, ← UInt64.ofNat_toNat (x := slot), ← UInt64.ofNat_add, Inside,
        toNat_recordOffset]
      show _ + 40 ≤ _
      omega

/-- One region, of so many slots, in a file of so many bytes. -/
def oneSpan (numSlots bytes : UInt64) : MetaSegment where
  bytes := bytes
  header := ⟨kMagicExpected, kSchemaVersion, 1, 0, 0, numSlots⟩
  spans := fun _ => ⟨0, 0, numSlots⟩

theorem openStored_inside_one : openStored (oneSpan 1 104) 0 0 = true ∧
      (Safe (oneSpan 1 104) ↔ tableBytes (oneSpan 1 104) < 2 ^ 64) :=
  ⟨by decide, openStored_inside (by decide : openStored (oneSpan 1 104) 0 0 = true)⟩

/-- The size of a table of `2 ^ 61` records wraps to that of its header. -/
theorem openStored_unsafe :
    ¬ ∀ seg geometryHash sourceId, openStored seg geometryHash sourceId = true → Safe seg := by
  intro h
  have hsafe := h (oneSpan 0x2000000000000000 64) 0 0 (by decide)
  have hin := hsafe.record 1 ⟨0, by decide, 1, by decide, by decide⟩
  exact absurd hin (by unfold Inside; decide)

end LayerStorm.Memory.StoredArena
