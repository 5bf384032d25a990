import LayerStorm.Speculation.ContextWindow

/-!
# What the loops do to the buffers

The pieces of a loop are handled one after the other; together they handle all rows.  Here is what a
whole loop does: which rows of the accumulator and of the arena it writes, what it leaves alone, and
that it stays inside of the buffers.
-/

namespace LayerStorm.Speculation

open Lib

variable {Hidden M Row : Type*}

namespace Buffers

variable {d : Draft Hidden M Row} {b b' : Buffers Hidden M Row}

/-! ### Single accesses -/

theorem check_of {p : Prop} [Decidable p] {f : Fault} (h : p) : b.check (decide p) f = b := by
  rw [decide_eq_true h]
  rfl

theorem auxRowsCap_le_accRows : d.auxRowsCap ≤ accRows d := le_max_left _ _

theorem ctxCap_le_accRows : d.ctxCap ≤ accRows d := le_max_right _ _

variable {x : ℕ → Hidden} {rows : ℕ}

theorem copyStage_auxStage {slot off i : ℕ} (hi : i < rows) (hrows : rows ≤ d.auxRowsCap) :
    (b.copyStage d slot x off rows).auxStage i slot = x (off + i) := by
  unfold copyStage
  rw [check_of hrows]
  exact if_pos ⟨hi, rfl⟩

/-- Where an append is in order. -/
def Fits (d : Draft Hidden M Row) (base start rows : ℕ) : Prop :=
  base ≤ start ∧ start - base + rows ≤ d.ctxCap ∧ (d.isV4Dflash = true → base = 0)

variable {base : ℕ} {start : ℕ}

theorem appendContextKv_spec {chunk : ℕ} (off : ℕ) (hfits : Fits d base start rows)
    (hle : off + chunk ≤ rows) :
    (b.appendContextKv d base chunk (start + off)).faults = b.faults ∧
      (b.appendContextKv d base chunk (start + off)).ctxHidden = b.ctxHidden ∧
      ∀ i, (b.appendContextKv d base chunk (start + off)).arena i =
        if start - base + off ≤ i ∧ i < start - base + off + chunk then
          d.kvRow (start + (i - (start - base))) (b.ctxNormed (i - (start - base) - off))
        else b.arena i := by
  obtain ⟨hbase, hroom, hv4⟩ := hfits
  have hrow : (if d.isV4Dflash then start + off else start + off - base) = start - base + off := by
    split
    · next h =>
      rw [hv4 h]
      omega
    · omega
  unfold appendContextKv
  rw [hrow, check_of ⟨.inr (by omega), by omega⟩]
  refine ⟨rfl, rfl, fun i => ?_⟩
  dsimp only
  split
  · next hin =>
    have h₁ : start + off + (i - (start - base + off)) = start + (i - (start - base)) := by omega
    have h₂ : i - (start - base + off) = i - (start - base) - off := by omega
    rw [h₁, h₂]
  · rfl

theorem normRows_spec (acc : ℕ) (hrows : rows ≤ d.auxRowsCap) (hroom : acc + rows ≤ accRows d) :
    (b.normRows d acc rows).faults = b.faults ∧ (b.normRows d acc rows).arena = b.arena ∧
      (b.normRows d acc rows).ctxHidden = b.ctxHidden ∧
      ∀ i < rows, (b.normRows d acc rows).ctxNormed i = d.hiddenNorm (b.ctxHidden (acc + i)) := by
  unfold normRows
  rw [check_of hrows, check_of hroom]
  exact ⟨rfl, rfl, rfl, fun i hi => if_pos hi⟩

theorem moveRows_spec {shift : ℕ} (hapart : rows ≤ shift) (hroom : shift + rows ≤ d.ctxCap) :
    b.moveRows d shift rows =
      { b with arena := fun i => if i < rows then b.arena (i + shift) else b.arena i } := by
  unfold moveRows
  rw [check_of hapart, check_of hroom]

/-! ### The accumulator -/

variable [AddCommMonoid M]

/-- The rows `[base, base + done)` of the accumulator hold what they held and the rows of the slot;
for slot 0 only the latter.  The arena and the other rows are as they were, and nothing went
wrong. -/
structure Folded (d : Draft Hidden M Row) (slot : ℕ) (x : ℕ → Hidden) (base done : ℕ)
    (b b' : Buffers Hidden M Row) : Prop where
  faults : b'.faults = b.faults
  arena : b'.arena = b.arena
  inside : ∀ i < done, b'.ctxHidden (base + i) =
    (if slot = 0 then 0 else b.ctxHidden (base + i)) + d.fc slot (x i)
  outside : ∀ i, i < base ∨ base + done ≤ i → b'.ctxHidden i = b.ctxHidden i

theorem Folded.piece {slot off chunk : ℕ} (h : Folded d slot x base off b b')
    (hchunk : chunk ≤ d.auxRowsCap) (hroom : base + off + chunk ≤ accRows d) :
    Folded d slot x base (off + chunk) b (foldPiece d slot x base b' (off, chunk)) := by
  have hcopy : b'.copyStage d slot x off chunk = _ := check_of hchunk
  have hfold : ∃ b'', foldPiece d slot x base b' (off, chunk) = b'' ∧ b''.faults = b'.faults ∧
      b''.arena = b'.arena ∧ ∀ i, b''.ctxHidden i =
        if base + off ≤ i ∧ i < base + off + chunk then
          (if slot = 0 then 0 else b'.ctxHidden i) + d.fc slot (x (off + (i - (base + off))))
        else b'.ctxHidden i := by
    refine ⟨_, rfl, ?_⟩
    unfold foldPiece
    rw [hcopy]
    by_cases hslot : slot = 0
    · subst hslot
      rw [if_pos rfl]
      unfold storeSlot
      rw [check_of hroom]
      refine ⟨rfl, rfl, fun i => ?_⟩
      dsimp only
      split
      · next hin =>
        rw [if_pos ⟨by omega, rfl⟩, if_pos rfl, zero_add]
      · rfl
    · rw [if_neg hslot]
      unfold addSlot
      rw [check_of hchunk, check_of hroom]
      refine ⟨rfl, rfl, fun i => ?_⟩
      dsimp only
      split
      · next hin =>
        rw [if_pos ⟨by omega, rfl⟩]
      · rfl
  obtain ⟨b'', heq, hfaults, harena, hacc⟩ := hfold
  rw [heq]
  refine ⟨hfaults.trans h.faults, harena.trans h.arena, fun i hi => ?_, fun i hi => ?_⟩
  · rw [hacc]
    by_cases hin : off ≤ i
    · -- a row of this piece; it was outside of the earlier ones
      rw [if_pos (by omega), h.outside _ (by omega)]
      have hsub : off + (base + i - (base + off)) = i := by omega
      rw [hsub]
    · rw [if_neg (by omega)]
      exact h.inside i (by omega)
  · rw [hacc, if_neg (by omega)]
    exact h.outside i (by omega)

theorem folded_foldSlot {slot : ℕ} (hroom : base + rows ≤ accRows d) :
    Folded d slot x base rows b (b.foldSlot d slot x rows base) := by
  refine foldl_chunks (P := fun off b' => Folded d slot x base off b b') d.auxRowsCap_pos
    (fun off b' hoff h => h.piece (min_le_left _ _) (by omega)) ⟨rfl, rfl, ?_, fun _ _ => rfl⟩
  intro i hi
  exact absurd hi (Nat.not_lt_zero i)

theorem folded_storeSlot (hrows : rows ≤ d.auxRowsCap) (hx : ∀ i < rows, b.auxStage i 0 = x i) :
    Folded d 0 x 0 rows b (b.storeSlot d 0 rows) := by
  unfold storeSlot
  rw [check_of (by have := auxRowsCap_le_accRows (d := d); omega)]
  refine ⟨rfl, rfl, fun i hi => ?_, fun i hi => if_neg (by omega)⟩
  dsimp only
  rw [Nat.zero_add, if_pos (by omega), Nat.sub_zero, hx i hi, if_pos rfl, zero_add]

/-! ### The arena -/

/-- The rows of the positions from `start` on, `done` of them, are those of the sums `f`; the other
rows of the arena are as they were, and nothing went wrong. -/
structure Appended (d : Draft Hidden M Row) (base start : ℕ) (f : ℕ → M) (done : ℕ)
    (b b' : Buffers Hidden M Row) : Prop where
  faults : b'.faults = b.faults
  inside : ∀ i < done, b'.arena (start - base + i) = d.kvRow (start + i) (d.hiddenNorm (f i))
  outside : ∀ i, i < start - base ∨ start - base + done ≤ i → b'.arena i = b.arena i

omit [AddCommMonoid M] in
theorem Appended.piece {off chunk : ℕ} (hfits : Fits d base start rows)
    (h : Appended d base start b.ctxHidden off b b') (hacc : b'.ctxHidden = b.ctxHidden)
    (hchunk : chunk ≤ d.auxRowsCap) (hle : off + chunk ≤ rows) (hroom : rows ≤ accRows d) :
    Appended d base start b.ctxHidden (off + chunk) b (appendPiece d base start b' (off, chunk)) ∧
      (appendPiece d base start b' (off, chunk)).ctxHidden = b.ctxHidden := by
  obtain ⟨hf, ha, hh, hn⟩ := normRows_spec (b := b') off hchunk (hle.trans hroom)
  obtain ⟨hf', hh', ha'⟩ := appendContextKv_spec (b := b'.normRows d off chunk) off hfits hle
  refine ⟨⟨?_, fun i hi => ?_, fun i hi => ?_⟩, ?_⟩
  · exact (hf'.trans hf).trans h.faults
  · refine (ha' _).trans ?_
    have hsub : start - base + i - (start - base) = i := by omega
    rw [hsub]
    by_cases hin : off ≤ i
    · rw [if_pos (by omega), hn _ (by omega), hacc]
      have hadd : off + (i - off) = i := Nat.add_sub_cancel' hin
      rw [hadd]
    · rw [if_neg (by omega), ha]
      exact h.inside i (by omega)
  · refine (ha' i).trans ?_
    rw [if_neg (by omega), ha]
    exact h.outside i (by omega)
  · exact (hh'.trans hh).trans hacc

omit [AddCommMonoid M] in
theorem appended_appendPieces (hfits : Fits d base start rows) (hroom : rows ≤ accRows d) :
    Appended d base start b.ctxHidden rows b (b.appendPieces d base rows start) := by
  have h : Appended d base start b.ctxHidden rows b (b.appendPieces d base rows start) ∧
      (b.appendPieces d base rows start).ctxHidden = b.ctxHidden := by
    refine foldl_chunks (P := fun off b' => Appended d base start b.ctxHidden off b b' ∧
      b'.ctxHidden = b.ctxHidden) d.auxRowsCap_pos (fun off b' hoff hP => ?_) ?_
    · exact Appended.piece hfits hP.1 hP.2 (min_le_left _ _) (by omega) hroom
    · exact ⟨⟨rfl, fun i hi => absurd hi (Nat.not_lt_zero i), fun _ _ => rfl⟩, rfl⟩
  exact h.1

theorem appended_ingest (hfits : Fits d base start rows) (hrows : rows ≤ d.auxRowsCap) :
    Appended d base start
      (fun i => ∑ slot ∈ Finset.range d.auxCount, d.fc slot (b.auxStage i slot)) rows b
      (((b.fuse d rows).normRows d 0 rows).appendContextKv d base rows start) := by
  have hfuse : b.fuse d rows = _ := check_of hrows
  have hroom : 0 + rows ≤ accRows d := by
    have hle := auxRowsCap_le_accRows (d := d)
    omega
  obtain ⟨hf, ha, -, hn⟩ := normRows_spec (b := b.fuse d rows) 0 hrows hroom
  obtain ⟨hf', -, ha'⟩ := appendContextKv_spec
    (b := (b.fuse d rows).normRows d 0 rows) 0 hfits (Nat.zero_add rows).le
  rw [Nat.add_zero] at hf'
  rw [Nat.add_zero] at ha'
  refine ⟨?_, fun i hi => ?_, fun i hi => ?_⟩
  · rw [hf', hf, hfuse]
  · rw [ha', if_pos (by omega), Nat.add_sub_cancel_left, Nat.sub_zero, hn i hi, hfuse]
    dsimp only
    rw [Nat.zero_add, if_pos hi]
  · rw [ha', if_neg (by omega), ha, hfuse]

end Buffers
end LayerStorm.Speculation
