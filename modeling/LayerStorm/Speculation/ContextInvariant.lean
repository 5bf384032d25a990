import LayerStorm.Speculation.ContextBuffers

/-!
# The invariant of the context window

While there is a context, the arena holds the context row of every position between the base and the
frontier, made of the rows of the epoch that was finalised last for it.  While an epoch is open,
what is staged or accumulated is what was delivered of it.
-/

namespace LayerStorm.Speculation

open Buffers

variable {Hidden M Row : Type*} [AddCommMonoid M] {d : Draft Hidden M Row}
  {s s' : Runtime Hidden M Row}

/-! ### The invariant -/

/-- The arena holds the context: the rows of the positions in `[ctx_base, ctx_len)`. -/
structure Window (d : Draft Hidden M Row) (s : Runtime Hidden M Row) : Prop where
  base_le : s.ctxBase ≤ s.ctxLen
  len_le : s.ctxLen ≤ s.ctxBase + d.ctxCap
  rows : ∀ p, s.ctxBase ≤ p → p < s.ctxLen → ∃ h : ℕ → Hidden,
    (∀ slot < d.auxCount, s.finalised p slot = some (h slot)) ∧
      s.bufs.arena (p - s.ctxBase) = d.contextRow p h

/-- What a delivered row adds to the sum of a position. -/
def contribution (d : Draft Hidden M Row) (slot : ℕ) (h : Option Hidden) : M :=
  h.elim 0 (d.fc slot)

/-- The bookkeeping of an open epoch `[cap_start_pos, cap_slot_end[0])`. -/
structure Epoch (d : Draft Hidden M Row) (s : Runtime Hidden M Row) : Prop where
  zero_mem : 0 ∈ s.capSlotMask
  mask_lt : ∀ slot ∈ s.capSlotMask, slot < d.auxCount
  base_le : s.ctxBase ≤ s.capStartPos
  le_len : s.capStartPos ≤ s.ctxLen
  nonempty : s.capStartPos < s.capSlotEnd 0
  room : s.capSlotEnd 0 - s.capStartPos ≤ d.ctxCap
  fixed : d.rotate = false → s.capSlotEnd 0 ≤ d.ctxCap
  start_le : ∀ slot, s.capStartPos ≤ s.capSlotEnd slot
  end_le : ∀ slot ∈ s.capSlotMask, s.capSlotEnd slot ≤ s.capSlotEnd 0
  outside : ∀ slot, slot ∉ s.capSlotMask → s.capSlotEnd slot = s.capStartPos
  delivered : ∀ p slot, (s.delivered p slot).isSome ↔
    slot ∈ s.capSlotMask ∧ s.capStartPos ≤ p ∧ p < s.capSlotEnd slot
  single : s.capMulti = false → s.capSlotEnd 0 = s.capStartPos + s.capRows ∧
    ∀ slot ∈ s.capSlotMask, s.capSlotEnd slot = s.capSlotEnd 0
  multi : s.capMulti = true → ∀ slot, slot + 1 ∈ s.capSlotMask → s.capSlotEnd slot = s.capSlotEnd 0

def Staged (s : Runtime Hidden M Row) (slots : Finset ℕ) : Prop :=
  ∀ slot ∈ slots, ∀ i < s.capRows,
    s.delivered (s.capStartPos + i) slot = some (s.bufs.auxStage i slot)

def Accumulated (d : Draft Hidden M Row) (s : Runtime Hidden M Row) (slots : Finset ℕ) : Prop :=
  ∀ i, s.capStartPos + i < s.capSlotEnd 0 → s.bufs.ctxHidden i =
    ∑ slot ∈ slots, contribution d slot (s.delivered (s.capStartPos + i) slot)

/-- Whether the rows of the epoch go to the accumulator. -/
def Accumulates (d : Draft Hidden M Row) (s : Runtime Hidden M Row) : Prop :=
  s.capMulti = true ∨ d.auxRowsCap < s.capRows

def Content (d : Draft Hidden M Row) (s : Runtime Hidden M Row) (slots : Finset ℕ) : Prop :=
  (¬Accumulates d s → Staged s slots) ∧ (Accumulates d s → Accumulated d s slots)

structure Inv (d : Draft Hidden M Row) (s : Runtime Hidden M Row) : Prop where
  faults : s.bufs.faults = []
  window : s.ctxValid = true → Window d s
  opened : s.capSlotMask ≠ ∅ → s.ctxValid = true ∧ Epoch d s ∧ Content d s s.capSlotMask
  multi : s.capMulti = true → s.capSlotMask ≠ ∅
  fixed : d.rotate = false → s.ctxBase = 0
  rearm : s.rearmPending = true → d.rotate = true

/-! ### Invalid contexts -/

theorem Inv.invalidate (h : Inv d s) : Inv d s.invalidateContext where
  __ := h
  window := fun hv => by cases hv
  opened := fun hm => absurd rfl hm
  multi := fun hm => by cases hm
  rearm := fun hr => by cases hr

theorem Inv.enterDormant (h : Inv d s) (hrot : d.rotate = true) (seq slot0End lastEnd : ℕ) :
    Inv d (s.enterDormant d seq slot0End lastEnd) where
  __ := h
  window := fun hv => by cases hv
  opened := fun hm => absurd rfl hm
  multi := fun hm => by cases hm
  rearm := fun _ => hrot

theorem Inv.of_invalid (hf : s.bufs.faults = []) (hv : s.ctxValid = false)
    (hm : s.capSlotMask = ∅) (hmulti : s.capMulti = false)
    (hfixed : d.rotate = false → s.ctxBase = 0) (hr : s.rearmPending = true → d.rotate = true) :
    Inv d s where
  faults := hf
  window := fun h => by
    rw [hv] at h
    cases h
  opened := fun h => absurd hm h
  multi := fun h => by
    rw [hmulti] at h
    cases h
  fixed := hfixed
  rearm := hr

/-! ### Rotation -/

omit [AddCommMonoid M] in
/-- **A rotation** keeps the rows that survive and makes room for the epoch. -/
theorem maybeRotateArena_spec {rows start : ℕ} (hw : s.ctxBase ≤ start)
    (hlen : start ≤ s.ctxLen) (hcap : s.ctxLen ≤ s.ctxBase + d.ctxCap) (hrows : rows ≤ d.ctxCap)
    (hfixed : d.rotate = false → s.ctxBase = 0 ∧ start + rows ≤ d.ctxCap) :
    ∃ base arena, s.maybeRotateArena d rows start =
        { s with bufs := { s.bufs with arena := arena }, ctxBase := base } ∧
      s.ctxBase ≤ base ∧ Fits d base start rows ∧ (d.rotate = false → base = 0) ∧
      ∀ p, base ≤ p → p < start → arena (p - base) = s.bufs.arena (p - s.ctxBase) := by
  have hv4 : d.isV4Dflash = true → d.rotate = false := d.v4_rotate
  unfold Runtime.maybeRotateArena
  by_cases hrot : d.rotate = false
  · rw [if_pos hrot]
    obtain ⟨hzero, hle⟩ := hfixed hrot
    exact ⟨s.ctxBase, s.bufs.arena, rfl, le_rfl, ⟨hw, by omega, fun _ => hzero⟩, fun _ => hzero,
      fun _ _ _ => rfl⟩
  rw [if_neg hrot]
  by_cases hfit : start + rows - s.ctxBase ≤ d.ctxCap
  · rw [if_pos hfit]
    exact ⟨s.ctxBase, s.bufs.arena, rfl, le_rfl, ⟨hw, by omega, fun h => absurd (hv4 h) hrot⟩,
      fun h => absurd h hrot, fun _ _ _ => rfl⟩
  rw [if_neg hfit]
  -- the rows that survive, with the new ones, take up half of the arena or as many as are new
  set keep := max (d.ctxCap / 2) rows
  have hkeep₁ : d.ctxCap / 2 ≤ keep := le_max_left _ _
  have hkeep₂ : rows ≤ keep := le_max_right _ _
  have hkeep₃ : keep ≤ d.ctxCap := max_le (Nat.div_le_self _ _) hrows
  have hkeep₄ : keep = d.ctxCap / 2 ∨ keep = rows := by
    rcases max_choice (d.ctxCap / 2) rows with h | h
    · exact .inl h
    · exact .inr h
  have hgeom : ¬(start + rows - keep ≤ s.ctxBase ∨ start < start + rows - keep ∨
      d.ctxCap < rows) := by omega
  rw [if_neg hgeom, moveRows_spec (by omega) (by omega)]
  refine ⟨_, _, rfl, by omega, ⟨by omega, by omega, fun h => absurd (hv4 h) hrot⟩,
    fun h => absurd h hrot, fun p hp hlt => ?_⟩
  rw [if_pos (by omega)]
  congr 1
  omega

/-! ### Finalising an epoch -/

/-- **An epoch whose rows are appended is part of the context.** -/
theorem window_of_appended {rows start base : ℕ} {arena : ℕ → Row} {f : ℕ → M}
    {b : Buffers Hidden M Row} (hw : Window d s) (hbase : s.ctxBase ≤ base)
    (hlen : start ≤ s.ctxLen)
    (hfits : Fits d base start rows)
    (hold : ∀ p, base ≤ p → p < start → arena (p - base) = s.bufs.arena (p - s.ctxBase))
    (happ : Appended d base start f rows { s.bufs with arena := arena } b)
    (hrows : ∀ i < rows, ∃ h : ℕ → Hidden,
      (∀ slot < d.auxCount, s.delivered (start + i) slot = some (h slot)) ∧
        f i = ∑ slot ∈ Finset.range d.auxCount, d.fc slot (h slot)) (mask : Finset ℕ)
    (multi : Bool) :
    Window d { ({ s with bufs := b, ctxBase := base } : Runtime Hidden M Row).finalise rows
        start with
      ctxLen := start + rows, capSlotMask := mask, capMulti := multi } := by
  obtain ⟨hle, hroom, -⟩ := hfits
  refine ⟨by dsimp only [Runtime.finalise]; omega, by dsimp only [Runtime.finalise]; omega, ?_⟩
  intro p hp hlt
  dsimp only [Runtime.finalise] at hp hlt ⊢
  by_cases hnew : start ≤ p
  · -- a position of the epoch
    obtain ⟨h, hdel, hsum⟩ := hrows (p - start) (by omega)
    have hadd : start + (p - start) = p := Nat.add_sub_cancel' hnew
    rw [hadd] at hdel
    refine ⟨h, fun slot hslot => (if_pos ⟨hnew, hlt⟩).trans (hdel slot hslot), ?_⟩
    have hin := happ.inside (p - start) (by omega)
    have hidx : start - base + (p - start) = p - base := by omega
    rw [hidx, hadd] at hin
    rw [hin, hsum]
    rfl
  · -- a position before it keeps its row
    obtain ⟨h, hfin, harena⟩ := hw.rows p (hbase.trans hp) (by omega)
    refine ⟨h, fun slot hslot => (if_neg fun hin => hnew hin.1).trans (hfin slot hslot), ?_⟩
    rw [happ.outside _ (.inl (by omega))]
    exact (hold p hp (by omega)).trans harena

theorem sum_contribution {rows : ℕ → Option Hidden} (hn : 0 < d.auxCount)
    (hdel : ∀ slot < d.auxCount, (rows slot).isSome) : ∃ h : ℕ → Hidden,
      (∀ slot < d.auxCount, rows slot = some (h slot)) ∧
        ∑ slot ∈ Finset.range d.auxCount, contribution d slot (rows slot) =
          ∑ slot ∈ Finset.range d.auxCount, d.fc slot (h slot) := by
  obtain ⟨x, -⟩ := Option.isSome_iff_exists.1 (hdel 0 hn)
  refine ⟨fun slot => (rows slot).getD x, fun slot hslot => ?_, Finset.sum_congr rfl ?_⟩
  · obtain ⟨y, hy⟩ := Option.isSome_iff_exists.1 (hdel slot hslot)
    simp only [hy, Option.getD_some]
  · intro slot hslot
    obtain ⟨y, hy⟩ := Option.isSome_iff_exists.1 (hdel slot (Finset.mem_range.1 hslot))
    simp only [hy, Option.getD_some, contribution, Option.elim_some]

/-- What holds of a valid context, whatever the bookkeeping. -/
structure Armed (d : Draft Hidden M Row) (s : Runtime Hidden M Row) : Prop where
  faults : s.bufs.faults = []
  valid : s.ctxValid = true
  window : Window d s
  fixed : d.rotate = false → s.ctxBase = 0
  rearm : s.rearmPending = true → d.rotate = true

theorem Inv.armed (h : Inv d s) (hv : s.ctxValid = true) : Armed d s :=
  ⟨h.faults, hv, h.window hv, h.fixed, h.rearm⟩

theorem Armed.frame (h : Armed d s) (hfaults : s'.bufs.faults = s.bufs.faults)
    (harena : s'.bufs.arena = s.bufs.arena) (hvalid : s'.ctxValid = s.ctxValid)
    (hbase : s'.ctxBase = s.ctxBase) (hlen : s'.ctxLen = s.ctxLen)
    (hfin : s'.finalised = s.finalised) (hrearm : s'.rearmPending = s.rearmPending) :
    Armed d s' := by
  refine ⟨hfaults.trans h.faults, hvalid.trans h.valid, ⟨?_, ?_, ?_⟩, ?_, ?_⟩
  · rw [hbase, hlen]
    exact h.window.base_le
  · rw [hbase, hlen]
    exact h.window.len_le
  · rw [hbase, hlen, hfin, harena]
    exact h.window.rows
  · rw [hbase]
    exact h.fixed
  · rw [hrearm]
    exact h.rearm

theorem Armed.invalidate (h : Armed d s) : Inv d s.invalidateContext :=
  Inv.of_invalid h.faults rfl rfl rfl h.fixed fun hr => by cases hr

theorem Armed.idle (h : Armed d s) (hmask : s.capSlotMask = ∅) (hmulti : s.capMulti = false) :
    Inv d s where
  __ := h
  window := fun _ => h.window
  opened := fun hm => absurd hmask hm
  multi := fun hm => by
    rw [hmulti] at hm
    cases hm

theorem Armed.open (h : Armed d s) (he : Epoch d s) (hc : Content d s s.capSlotMask) : Inv d s where
  __ := h
  window := fun _ => h.window
  opened := fun _ => ⟨h.valid, he, hc⟩
  multi := fun _ => Finset.ne_empty_of_mem he.zero_mem

omit [AddCommMonoid M] in
theorem Epoch.rows_le (he : Epoch d s) : s.capSlotEnd 0 - s.capStartPos ≤ accRows d :=
  he.room.trans ctxCap_le_accRows

omit [AddCommMonoid M] in
theorem Epoch.auxCount_pos (he : Epoch d s) : 0 < d.auxCount := he.mask_lt 0 he.zero_mem

theorem Armed.finishChunked (h : Armed d s) (he : Epoch d s)
    (hacc : Accumulated d s (Finset.range d.auxCount))
    (hcomplete : ∀ i, s.capStartPos + i < s.capSlotEnd 0 → ∀ slot < d.auxCount,
      (s.delivered (s.capStartPos + i) slot).isSome) {rows : ℕ}
    (hrows : s.capStartPos + rows = s.capSlotEnd 0) :
    Inv d { (s.finalizeContextChunked d rows s.capStartPos).finalise rows s.capStartPos with
        ctxLen := s.capStartPos + rows, capSlotMask := ∅, capMulti := false } ∧
      (s.capMulti = false →
        Inv d { (s.finalizeContextChunked d rows s.capStartPos).finalise rows s.capStartPos with
          ctxLen := s.capStartPos + rows, capSlotMask := ∅ }) := by
  have hroom := he.room
  obtain ⟨base, arena, heq, hbase, hfits, hzero, hold⟩ := maybeRotateArena_spec
    he.base_le he.le_len h.window.len_le (by omega)
    fun hrot => ⟨h.fixed hrot, hrows ▸ he.fixed hrot⟩
  unfold Runtime.finalizeContextChunked
  rw [heq]
  have happ := appended_appendPieces (b := { s.bufs with arena := arena }) hfits
    (le_trans (by omega) he.rows_le)
  have hwindow : ∀ multi, Window d _ := window_of_appended h.window hbase he.le_len hfits hold happ
    (fun i hi => ?_) ∅
  · exact ⟨Armed.idle ⟨happ.faults.trans h.faults, h.valid, hwindow false, hzero, h.rearm⟩ rfl rfl,
      fun hm => Armed.idle ⟨happ.faults.trans h.faults, h.valid, hwindow s.capMulti, hzero, h.rearm⟩
        rfl hm⟩
  · obtain ⟨x, hx, hsum⟩ := sum_contribution he.auxCount_pos (hcomplete i (by omega))
    exact ⟨x, hx, (hacc i (by omega)).trans hsum⟩

theorem Armed.finishStaged (h : Armed d s) (he : Epoch d s)
    (hstaged : Staged s (Finset.range d.auxCount)) (hfit : s.capRows ≤ d.auxRowsCap)
    (hrows : s.capStartPos + s.capRows = s.capSlotEnd 0) (multi : s.capMulti = false) :
    Inv d { (s.ingestContext d s.capRows s.capStartPos).finalise s.capRows s.capStartPos with
      ctxLen := s.capStartPos + s.capRows, capSlotMask := ∅ } := by
  have hroom := he.room
  obtain ⟨base, arena, heq, hbase, hfits, hzero, hold⟩ := maybeRotateArena_spec
    he.base_le he.le_len h.window.len_le (by omega)
    fun hrot => ⟨h.fixed hrot, hrows ▸ he.fixed hrot⟩
  unfold Runtime.ingestContext
  rw [heq]
  have happ := appended_ingest (b := { s.bufs with arena := arena }) hfits hfit
  have hwindow := window_of_appended h.window hbase he.le_len hfits hold happ (fun i hi => ?_)
    ∅ s.capMulti
  · exact Armed.idle ⟨happ.faults.trans h.faults, h.valid, hwindow, hzero, h.rearm⟩ rfl multi
  · exact ⟨s.bufs.auxStage i, fun slot hslot => hstaged slot (Finset.mem_range.2 hslot) i hi, rfl⟩

end LayerStorm.Speculation
