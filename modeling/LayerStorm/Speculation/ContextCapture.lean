import LayerStorm.Speculation.ContextInvariant
import LayerStorm.Lib.Run

/-!
# Captures keep the invariant

A window of slot 0 begins an epoch or extends the open one; a window of a later slot goes with it,
or the context is gone.  With the last window of the last slot the epoch becomes part of the
context.
-/

namespace LayerStorm.Speculation

open Lib Buffers LayerStorm.Speculation.Runtime
open Function Nat Finset

variable {Hidden M Row : Type*} [AddCommMonoid M] {d : Draft Hidden M Row}
  {s s' : Runtime Hidden M Row}

/-! ### Capturing a window -/

omit [AddCommMonoid M] in
theorem ensureCaptureEvent_cases (src : ℕ) (s : Runtime Hidden M Row) :
    s.ensureCaptureEvent src = .ok { s with captureBackend := some src } ∨
      s.ensureCaptureEvent src = .error s.invalidateContext := by
  unfold ensureCaptureEvent
  split
  · exact .inl rfl
  next b hb =>
  split
  · next heq =>
    subst heq
    rw [← hb]
    exact .inl rfl
  · exact .inr rfl

theorem captureSlotChunked_cases (slot : ℕ) (x : ℕ → Hidden) (rows base src : ℕ)
    (s : Runtime Hidden M Row) :
    s.captureSlotChunked d slot x rows base src =
        { s with captureBackend := some src, bufs := s.bufs.foldSlot d slot x rows base } ∨
      s.captureSlotChunked d slot x rows base src = s.invalidateContext := by
  unfold captureSlotChunked
  rcases ensureCaptureEvent_cases src s with h | h
  · rw [h]
    exact .inl rfl
  · rw [h]
    exact .inr rfl

variable {slot : ℕ} {slots : Finset ℕ}

theorem sum_contribution_insert {old new : ℕ → Option Hidden} {x : Hidden} (hslot : slot ∈ slots)
    (hothers : ∀ j ∈ slots, j ≠ slot → new j = old j) (hold : old slot = none)
    (hnew : new slot = some x) :
    ∑ j ∈ slots, contribution d j (new j) =
      ∑ j ∈ slots, contribution d j (old j) + d.fc slot x := by
  have hsame : ∑ j ∈ slots.erase slot, contribution d j (new j) =
      ∑ j ∈ slots.erase slot, contribution d j (old j) :=
    sum_congr rfl fun j hj =>
      congrArg _ (hothers j (mem_of_mem_erase hj) (ne_of_mem_erase hj))
  have hzero : contribution d slot (old slot) = 0 := by
    rw [hold]
    rfl
  have hone : contribution d slot (new slot) = d.fc slot x := by
    rw [hnew]
    rfl
  rw [← add_sum_erase _ _ hslot, ← add_sum_erase slots (fun j =>
    contribution d j (old j)) hslot, hsame, hzero, hone, zero_add, add_comm]

omit [AddCommMonoid M] in
theorem Epoch.complete (he : Epoch d s) (hmask : s.capSlotMask = range d.auxCount)
    (hends : ∀ slot ∈ s.capSlotMask, s.capSlotEnd slot = s.capSlotEnd 0) (i : ℕ)
    (hi : s.capStartPos + i < s.capSlotEnd 0) (slot : ℕ) (hslot : slot < d.auxCount) :
    (s.delivered (s.capStartPos + i) slot).isSome := by
  have hmem : slot ∈ s.capSlotMask := hmask ▸ mem_range.2 hslot
  exact (he.delivered _ _).2 ⟨hmem, le_add_right _ _, by rw [hends slot hmem]; exact hi⟩

variable {x : ℕ → Hidden}

/-- **The window of a slot in a single-window epoch.**  The window is delivered, the rows of the
other slots are where they should be. -/
theorem inv_captureWindow (h : Armed d s) (he : Epoch d s) (hmulti : s.capMulti = false) (src : ℕ)
    (hslot : slot ∈ s.capSlotMask)
    (hdel : ∀ i < s.capRows, s.delivered (s.capStartPos + i) slot = some (x i))
    (hcontent : slot ≠ 0 → Content d s (s.capSlotMask.erase slot))
    (hzero : slot = 0 → s.capSlotMask = {0}) :
    Inv d (s.captureWindow d slot x s.capRows s.capStartPos src) := by
  obtain ⟨hrows, hends⟩ := he.single hmulti
  have hroom := he.rows_le
  unfold captureWindow
  split
  · next hbig =>
    -- the rows are folded into the accumulator
    rcases captureSlotChunked_cases slot x s.capRows 0 src s with heq | heq
    · have hfold : Folded d slot x 0 s.capRows s.bufs (s.bufs.foldSlot d slot x s.capRows 0) :=
        folded_foldSlot (by omega)
      rw [heq]
      have h' : Armed d { s with
          captureBackend := some src, bufs := s.bufs.foldSlot d slot x s.capRows 0 } :=
        h.frame hfold.faults hfold.arena rfl rfl rfl rfl rfl
      have he' : Epoch d { s with
          captureBackend := some src, bufs := s.bufs.foldSlot d slot x s.capRows 0 } :=
        { he with }
      have hacc : Accumulated d { s with
          captureBackend := some src, bufs := s.bufs.foldSlot d slot x s.capRows 0 }
            s.capSlotMask := by
        intro i hi
        dsimp only at hi ⊢
        have hin := hfold.inside i (by omega)
        rw [zero_add] at hin
        rw [hin, ← add_sum_erase _ _ hslot, hdel i (by omega), add_comm]
        have hrest : (if slot = 0 then 0 else s.bufs.ctxHidden i) = ∑ j ∈ s.capSlotMask.erase slot,
              contribution d j (s.delivered (s.capStartPos + i) j) := by
          split
          · next hz =>
            rw [hzero hz, hz, erase_singleton, sum_empty]
          · next hz => exact (hcontent hz).2 (.inr hbig) i hi
        rw [hrest]
        rfl
      rw [if_neg (by rw [h.valid]; exact Bool.noConfusion)]
      split
      · split
        · exact h'.invalidate
        next hmask =>
        rw [not_not] at hmask
        exact (h'.finishChunked he' (hmask ▸ hacc) (he.complete hmask hends) hrows.symm).2 hmulti
      · exact h'.open he' ⟨fun hno => absurd (.inr hbig) hno, fun _ => hacc⟩
    · rw [heq]
      exact h.invalidate
  · next hfit =>
    -- the rows are staged
    have hfit := not_lt.1 hfit
    have hno : ¬Accumulates d s := fun hacc => hacc.elim
      (fun hm => by rw [hmulti] at hm; cases hm) fun hlt => absurd hlt (not_lt.2 hfit)
    have hcopy : s.bufs.copyStage d slot x 0 s.capRows = _ := check_of hfit
    have h' : Armed d { s with bufs := s.bufs.copyStage d slot x 0 s.capRows } := by
      rw [hcopy]
      exact h.frame rfl rfl rfl rfl rfl rfl rfl
    have he' : Epoch d { s with bufs := s.bufs.copyStage d slot x 0 s.capRows } := { he with }
    have hstaged : Staged { s with bufs := s.bufs.copyStage d slot x 0 s.capRows }
        s.capSlotMask := by
      intro j hj i hi
      by_cases hjs : j = slot
      · rw [hjs, copyStage_auxStage hi hfit, zero_add]
        exact hdel i hi
      rw [hcopy]
      dsimp only
      rw [if_neg fun hin => hjs hin.2]
      have hz : slot ≠ 0 := fun hz =>
        hjs ((mem_singleton.1 (hzero hz ▸ hj)).trans hz.symm)
      exact (hcontent hz).1 hno j (mem_erase.2 ⟨hjs, hj⟩) i hi
    dsimp only
    split
    · split
      · exact h'.invalidate
      next hmask =>
      rw [not_not] at hmask
      rcases ensureCaptureEvent_cases src
        { s with bufs := s.bufs.copyStage d slot x 0 s.capRows } with heq | heq
      · rw [heq]
        have h'' : Armed d { s with
            captureBackend := some src, bufs := s.bufs.copyStage d slot x 0 s.capRows } :=
          h'.frame rfl rfl rfl rfl rfl rfl rfl
        have he'' : Epoch d { s with
            captureBackend := some src, bufs := s.bufs.copyStage d slot x 0 s.capRows } :=
          { he with }
        exact h''.finishStaged he'' (hmask ▸ hstaged) hfit hrows.symm hmulti
      · rw [heq]
        exact h'.invalidate
    · exact h'.open he' ⟨fun _ => hstaged, fun hacc => absurd hacc hno⟩

/-! ### Epochs of several windows -/

theorem sum_contribution_of_none {rows : ℕ → Option Hidden} (h : slot ∉ slots → rows slot = none) :
    ∑ j ∈ insert slot slots, contribution d j (rows j) =
      ∑ j ∈ slots, contribution d j (rows j) := by
  by_cases hmem : slot ∈ slots
  · rw [insert_eq_of_mem hmem]
  · rw [sum_insert hmem, h hmem]
    exact zero_add _

variable {start rows : ℕ}

omit [AddCommMonoid M] in
theorem deliver_other {p j : ℕ} (h : ¬(j = slot ∧ start ≤ p ∧ p < start + rows)) :
    (s.deliver slot x rows start).delivered p j = s.delivered p j := if_neg h

omit [AddCommMonoid M] in
theorem deliver_self {p : ℕ} (h₁ : start ≤ p) (h₂ : p < start + rows) :
    (s.deliver slot x rows start).delivered p slot = some (x (p - start)) := if_pos ⟨rfl, h₁, h₂⟩

abbrev afterWindow (d : Draft Hidden M Row) (slot : ℕ) (x : ℕ → Hidden) (rows start src : ℕ)
    (s : Runtime Hidden M Row) : Runtime Hidden M Row :=
  { s with
    capMulti := true
    capSlotMask := insert slot s.capSlotMask
    delivered := (s.deliver slot x rows start).delivered
    captureBackend := some src
    bufs := s.bufs.foldSlot d slot x rows (start - s.capStartPos)
    capSlotEnd := Function.update s.capSlotEnd slot (start + rows) }

theorem Armed.extend (h : Armed d s) {src : ℕ} (hroom : start - s.capStartPos + rows ≤ accRows d) :
    Armed d (afterWindow d slot x rows start src s) := by
  have hfold : Folded d slot x (start - s.capStartPos) rows s.bufs _ := folded_foldSlot hroom
  exact h.frame hfold.faults hfold.arena rfl rfl rfl rfl rfl

omit [AddCommMonoid M] in
theorem delivered_afterWindow [AddCommMonoid M] (src : ℕ) (he : Epoch d s)
    (hstart : start = s.capSlotEnd slot) (p j : ℕ) :
    ((afterWindow d slot x rows start src s).delivered p j).isSome ↔
      j ∈ insert slot s.capSlotMask ∧ s.capStartPos ≤ p ∧
        p < (update s.capSlotEnd slot (start + rows)) j := by
  have hle := he.start_le slot
  rw [mem_insert, update_apply]
  by_cases hin : j = slot ∧ start ≤ p ∧ p < start + rows
  · obtain ⟨rfl, h₁, h₂⟩ := hin
    rw [show (afterWindow d j x rows start src s).delivered p j = _ from deliver_self h₁ h₂]
    rw [if_pos rfl]
    exact ⟨fun _ => ⟨.inl rfl, by omega, h₂⟩, fun _ => rfl⟩
  rw [show (afterWindow d slot x rows start src s).delivered p j = s.delivered p j from
    deliver_other hin, he.delivered]
  by_cases hj : j = slot
  · subst hj
    rw [if_pos rfl]
    have hout := he.outside j
    constructor
    · rintro ⟨-, h₁, h₂⟩
      exact ⟨.inl rfl, h₁, by omega⟩
    · rintro ⟨-, h₁, h₂⟩
      have hlt : p < s.capSlotEnd j := by
        by_contra hge
        exact hin ⟨rfl, by omega, h₂⟩
      refine ⟨?_, h₁, hlt⟩
      by_contra hmem
      rw [hout hmem] at hlt
      omega
  · rw [if_neg hj]
    exact ⟨fun h => ⟨.inr h.1, h.2⟩, fun h => ⟨h.1.resolve_left hj, h.2⟩⟩

theorem Epoch.extend (he : Epoch d s) (x : ℕ → Hidden) (src : ℕ) (hmulti : s.capMulti = true)
    (hslot : slot ≠ 0) (hlt : slot < d.auxCount) (hrows : 0 < rows)
    (hstart : start = s.capSlotEnd slot) (hle : start + rows ≤ s.capSlotEnd 0)
    (hfirst : slot ∉ s.capSlotMask → s.capSlotEnd (slot - 1) = s.capSlotEnd 0)
    (hacc : Accumulated d s s.capSlotMask) :
    Epoch d (afterWindow d slot x rows start src s) ∧
      Accumulated d (afterWindow d slot x rows start src s) (insert slot s.capSlotMask) := by
  have hzero : (update s.capSlotEnd slot (start + rows)) 0 = s.capSlotEnd 0 :=
    update_of_ne hslot.symm _ _
  have hstart_le := he.start_le slot
  have hroom := he.rows_le
  have hnone : ∀ p, start ≤ p → s.delivered p slot = none := by
    intro p hp
    rw [← Option.not_isSome_iff_eq_none, he.delivered]
    rintro ⟨-, -, h⟩
    omega
  refine ⟨⟨mem_insert_of_mem he.zero_mem, ?_, he.base_le, he.le_len, ?_, ?_, ?_, ?_, ?_, ?_,
    delivered_afterWindow src he hstart, fun h => (by cases h), ?_⟩, ?_⟩
  · intro j hj
    rcases mem_insert.1 hj with rfl | hj
    · exact hlt
    · exact he.mask_lt j hj
  · dsimp only
    rw [hzero]
    exact he.nonempty
  · dsimp only
    rw [hzero]
    exact he.room
  · dsimp only
    rw [hzero]
    exact he.fixed
  · intro j
    dsimp only
    rw [update_apply]
    split
    · omega
    · exact he.start_le j
  · intro j hj
    dsimp only
    rw [hzero, update_apply]
    split
    · exact hle
    · next hne => exact he.end_le j ((mem_insert.1 hj).resolve_left hne)
  · intro j hj
    rw [mem_insert, not_or] at hj
    exact (update_of_ne hj.1 _ _).trans (he.outside j hj.2)
  · intro _ j hj
    dsimp only
    rw [hzero, update_apply]
    rcases mem_insert.1 hj with hj | hj
    · -- the slot before this one is complete
      rw [if_neg (by omega)]
      by_cases hmem : slot ∈ s.capSlotMask
      · exact he.multi hmulti j (hj ▸ hmem)
      · have hpred := hfirst hmem
        rwa [← hj, Nat.add_sub_cancel] at hpred
    · have hend := he.multi hmulti j hj
      split
      · next heq =>
        rw [heq] at hend
        omega
      · exact hend
  · intro i hi
    dsimp only at hi ⊢
    rw [hzero] at hi
    have hfold : Folded d slot x (start - s.capStartPos) rows s.bufs _ := folded_foldSlot (by omega)
    have hold := hacc i hi
    by_cases hin : start ≤ s.capStartPos + i ∧ s.capStartPos + i < start + rows
    · have hrow := hfold.inside (s.capStartPos + i - start) (by omega)
      have hidx : start - s.capStartPos + (s.capStartPos + i - start) = i := by omega
      rw [hidx, if_neg hslot] at hrow
      rw [hrow, hold]
      rw [sum_contribution_insert (mem_insert_self slot s.capSlotMask)
        (fun j _ hj => deliver_other fun h => hj h.1) (hnone _ hin.1) (deliver_self hin.1 hin.2)]
      exact congrArg₂ (· + ·) (sum_contribution_of_none fun _ => hnone _ hin.1).symm rfl
    · rw [hfold.outside i (by omega), hold]
      have hsame : ∀ j, (afterWindow d slot x rows start src s).delivered (s.capStartPos + i) j =
          s.delivered (s.capStartPos + i) j := fun j => deliver_other fun h => hin h.2
      rw [sum_congr rfl fun j _ => congrArg (contribution d j) (hsame j)]
      refine (sum_contribution_of_none fun hmem => ?_).symm
      rw [← Option.not_isSome_iff_eq_none, he.delivered]
      exact fun h => hmem h.1

theorem Epoch.grown (he : Epoch d s) (x : ℕ → Hidden) (src : ℕ) (hmask : s.capSlotMask = {0})
    (hrows : 0 < rows) (hstart : start = s.capSlotEnd 0)
    (hcap : start + rows - s.capStartPos ≤ d.ctxCap)
    (hfixed : d.rotate = false → start + rows ≤ d.ctxCap) (hacc : Accumulated d s s.capSlotMask) :
    Epoch d (afterWindow d 0 x rows start src s) ∧
      Accumulated d (afterWindow d 0 x rows start src s) (insert 0 s.capSlotMask) := by
  have hself : (update s.capSlotEnd 0 (start + rows)) 0 = start + rows :=
    update_self _ _ _
  have hnonempty := he.nonempty
  have hmem : insert 0 s.capSlotMask = s.capSlotMask := insert_eq_of_mem he.zero_mem
  have hroom : start - s.capStartPos + rows ≤ accRows d := by
    have hle := ctxCap_le_accRows (d := d)
    omega
  refine ⟨⟨mem_insert_self _ _, ?_, he.base_le, he.le_len, ?_, ?_, ?_, ?_, ?_, ?_,
    delivered_afterWindow src he hstart, fun h => (by cases h), ?_⟩, ?_⟩
  · intro j hj
    exact he.mask_lt j (hmem ▸ hj)
  · dsimp only
    omega
  · dsimp only
    exact hcap
  · dsimp only
    exact hfixed
  · intro j
    dsimp only
    rw [update_apply]
    split
    · omega
    · exact he.start_le j
  · intro j hj
    dsimp only at hj
    rw [hmask] at hj
    rw [mem_singleton.1 hj]
  · intro j hj
    dsimp only at hj ⊢
    rw [hmem] at hj
    have hne : j ≠ 0 := fun h => hj (h ▸ he.zero_mem)
    exact (update_of_ne hne _ _).trans (he.outside j hj)
  · intro _ j hj
    dsimp only at hj
    rw [hmem, hmask, mem_singleton] at hj
    cases hj
  · intro i hi
    dsimp only at hi ⊢
    rw [hmem, hmask, sum_singleton]
    have hfold : Folded d 0 x (start - s.capStartPos) rows s.bufs _ := folded_foldSlot hroom
    by_cases hin : start ≤ s.capStartPos + i
    · have hrow := hfold.inside (s.capStartPos + i - start) (by omega)
      have hidx : start - s.capStartPos + (s.capStartPos + i - start) = i := by omega
      rw [hidx, if_pos rfl, zero_add] at hrow
      rw [hrow, deliver_self hin hi]
      rfl
    · rw [hfold.outside i (by omega), deliver_other fun h => hin h.2.1]
      have hold := hacc i (by omega)
      rwa [hmask, sum_singleton] at hold

theorem inv_endWindow {stop target : ℕ}
    (h : Armed d { s with capSlotEnd := update s.capSlotEnd slot stop })
    (he : Epoch d { s with capSlotEnd := update s.capSlotEnd slot stop })
    (hacc : Accumulated d { s with capSlotEnd := update s.capSlotEnd slot stop }
      s.capSlotMask) (hmulti : s.capMulti = true)
    (htarget : target = (update s.capSlotEnd slot stop) 0) :
    Inv d (s.endWindow d slot stop target) := by
  have hv : s.ctxValid = true := h.valid
  unfold endWindow
  rw [if_neg (by rw [hv]; exact Bool.noConfusion)]
  dsimp only
  split
  · next hlast =>
    split
    · exact h.invalidate
    next hmask =>
    rw [not_not] at hmask
    -- the last slot is complete, and so are the ones before it
    have hends : ∀ j ∈ s.capSlotMask, (update s.capSlotEnd slot stop) j =
        (update s.capSlotEnd slot stop) 0 := by
      intro j hj
      have hlt := mem_range.1 (hmask ▸ hj)
      by_cases hjl : j = d.auxCount - 1
      · rw [hjl, ← hlast.1, ← htarget, update_self]
        exact hlast.2
      · exact he.multi hmulti j (hmask ▸ mem_range.2 (by omega))
    have hne : s.capStartPos < target := htarget ▸ he.nonempty
    have hrows : s.capStartPos + (target - s.capStartPos) = target := by omega
    have hfinish := (h.finishChunked he (hmask ▸ hacc) (he.complete hmask hends)
      (hrows.trans htarget)).1
    rwa [hrows] at hfinish
  · exact h.open he ⟨fun hno => absurd (.inl hmulti) hno, fun _ => hacc⟩

/-- **A window of a later slot in an epoch of several windows.** -/
theorem inv_multiWindow (h : Inv d s) (hmulti : s.capMulti = true) {seq src : ℕ} (hslot : slot ≠ 0)
    (hlt : slot < d.auxCount) (hrows : 0 < rows) :
    Inv d (s.multiWindow d slot x rows seq start src) := by
  obtain ⟨hv, he, hc⟩ := h.opened (h.multi hmulti)
  have hacc : Accumulated d s s.capSlotMask := hc.2 (.inl hmulti)
  unfold multiWindow
  by_cases hbad : s.capSeq ≠ seq ∨
      start ≠ (if slot ∈ s.capSlotMask then s.capSlotEnd slot else s.capStartPos) ∨
      s.capSlotEnd 0 < start + rows ∨
      (slot ∉ s.capSlotMask ∧ s.capSlotEnd (slot - 1) ≠ s.capSlotEnd 0)
  · rw [if_pos hbad]
    exact h.invalidate
  rw [if_neg hbad]
  simp only [not_or, not_not, not_lt, not_and] at hbad
  obtain ⟨-, hstart, hle, hfirst⟩ := hbad
  have hstart' : start = s.capSlotEnd slot := by
    rw [hstart]
    split
    · rfl
    · next hmem => exact (he.outside slot hmem).symm
  have hbegin := he.start_le slot
  have hroom : start - s.capStartPos + rows ≤ accRows d := by
    have hle' := he.rows_le
    omega
  obtain ⟨he', hacc'⟩ := he.extend x src hmulti hslot hlt hrows hstart' hle hfirst hacc
  have harmed : Armed d (afterWindow d slot x rows start src s) := (h.armed hv).extend hroom
  have heq : afterWindow d slot x rows start src s = { s with
      capSlotMask := insert slot s.capSlotMask
      delivered := (s.deliver slot x rows start).delivered
      captureBackend := some src
      bufs := s.bufs.foldSlot d slot x rows (start - s.capStartPos)
      capSlotEnd := update s.capSlotEnd slot (start + rows) } := by
    unfold afterWindow
    rw [← hmulti]
  rw [heq] at he' hacc' harmed
  rcases captureSlotChunked_cases (d := d) slot x rows (start - s.capStartPos) src
    ({ s with capSlotMask := insert slot s.capSlotMask }.deliver slot x rows start) with
      hcap | hcap
  · rw [hcap]
    exact inv_endWindow harmed he' hacc' hmulti (update_of_ne hslot.symm _ _).symm
  · rw [hcap]
    exact Inv.of_invalid h.faults rfl rfl rfl h.fixed fun hr => by cases hr

theorem beginMulti_cases (src : ℕ) (h : Inv d s) (hmask : s.capSlotMask = {0}) :
    (∃ b cb, (if s.capMulti then .ok s else s.beginMultiWindowEpoch d src) =
        .ok { s with bufs := b, captureBackend := cb } ∧
      Armed d { s with bufs := b, captureBackend := cb, capMulti := true } ∧
      Epoch d { s with bufs := b, captureBackend := cb, capMulti := true } ∧
      Accumulated d { s with bufs := b, captureBackend := cb, capMulti := true } s.capSlotMask) ∨
    ∃ t, (if s.capMulti then .ok s else s.beginMultiWindowEpoch d src) = .error t ∧ Inv d t := by
  obtain ⟨hv, he, hc⟩ := h.opened (hmask ▸ singleton_ne_empty 0)
  have ha := h.armed hv
  have hmulti : ∀ slot, slot + 1 ∈ s.capSlotMask → s.capSlotEnd slot = s.capSlotEnd 0 := by
    intro slot hslot
    rw [hmask, mem_singleton] at hslot
    cases hslot
  have he' : ∀ b cb, Epoch d { s with bufs := b, captureBackend := cb, capMulti := true } :=
    fun b cb => { he with single := fun hm => (by cases hm), multi := fun _ => hmulti }
  by_cases hm : s.capMulti = true
  · exact .inl ⟨s.bufs, s.captureBackend, if_pos hm, ha.frame rfl rfl rfl rfl rfl rfl rfl, he' _ _,
      hc.2 (.inl hm)⟩
  rw [if_neg hm]
  have hm := eq_false_of_ne_true hm
  unfold beginMultiWindowEpoch
  by_cases hbig : d.auxRowsCap < s.capRows
  · -- a window that did not fit the staging is there already
    rw [if_pos hbig]
    exact .inl ⟨s.bufs, s.captureBackend, rfl, ha.frame rfl rfl rfl rfl rfl rfl rfl, he' _ _,
      hc.2 (.inr hbig)⟩
  rw [if_neg hbig]
  rcases ensureCaptureEvent_cases src s with heq | heq
  · rw [heq]
    have hstaged : Staged s s.capSlotMask := hc.1 fun hacc => hacc.elim
      (fun hm' => by rw [hm] at hm'; cases hm') hbig
    have hfold : Folded d 0 (fun i => s.bufs.auxStage i 0) 0 s.capRows s.bufs
        (s.bufs.storeSlot d 0 s.capRows) := folded_storeSlot (not_lt.1 hbig) fun _ _ => rfl
    refine .inl ⟨_, _, rfl, ha.frame hfold.faults hfold.arena rfl rfl rfl rfl rfl, he' _ _,
      fun i hi => ?_⟩
    dsimp only at hi ⊢
    have hrows := (he.single hm).1
    have hin := hfold.inside i (by omega)
    rw [zero_add, if_pos rfl, zero_add] at hin
    rw [hin, hmask, sum_singleton, hstaged 0 he.zero_mem i (by omega)]
    rfl
  · rw [heq]
    exact .inr ⟨_, rfl, h.invalidate⟩

/-- **A window of slot 0 that extends the epoch.** -/
theorem inv_extendEpoch (h : Inv d s) (hmask : s.capSlotMask = {0}) {seq src : ℕ} (hrows : 0 < rows)
    (hstart : start = s.capSlotEnd 0) (hfixed : d.rotate = false → start + rows ≤ d.ctxCap) :
    Inv d (s.extendEpoch d x rows seq start src) := by
  have hne : s.capSlotMask ≠ ∅ := hmask ▸ singleton_ne_empty 0
  obtain ⟨hv, he, hc⟩ := h.opened hne
  unfold extendEpoch
  split
  · next hbig => exact h.enterDormant hbig.1 _ _ _
  next hbig =>
  have hcap : start + rows - s.capStartPos ≤ d.ctxCap := by
    cases hrot : d.rotate with
    | true => exact not_lt.1 fun hlt => hbig ⟨hrot, hlt⟩
    | false => exact (sub_le _ _).trans (hfixed hrot)
  have hmem : insert 0 s.capSlotMask = s.capSlotMask := insert_eq_of_mem he.zero_mem
  rcases beginMulti_cases src h hmask with ⟨b, cb, heq, ha, he', hacc⟩ | ⟨t, heq, hinv⟩
  · rw [heq]
    dsimp only
    obtain ⟨he'', hacc'⟩ := he'.grown x src hmask hrows hstart hcap hfixed hacc
    have harmed : Armed d (afterWindow d 0 x rows start src
        { s with bufs := b, captureBackend := cb, capMulti := true }) := by
      apply ha.extend
      have hle := ctxCap_le_accRows (d := d)
      have hnonempty := he.nonempty
      dsimp only
      omega
    unfold afterWindow at harmed he'' hacc'
    rw [hmem] at harmed he'' hacc'
    rcases captureSlotChunked_cases (d := d) 0 x rows (start - s.capStartPos) src
      ({ s with bufs := b, captureBackend := cb, capMulti := true }.deliver 0 x rows start) with
        hcap' | hcap'
    · rw [hcap']
      refine (congrArg (Inv d) (if_pos hv)).mpr ?_
      exact harmed.open he'' ⟨fun hno => absurd (.inl rfl) hno, fun _ => hacc'⟩
    · rw [hcap']
      exact Inv.of_invalid ha.faults rfl rfl rfl h.fixed fun hr => by cases hr
  · rw [heq]
    exact hinv

/-! ### Without a context -/

omit [AddCommMonoid M] in
theorem Inv.dormant [AddCommMonoid M] (h : Inv d s) (hv : s.ctxValid = false) (a b : ℕ) :
    Inv d { s with dormSlot0End := a, dormLastEnd := b } := by
  have hmask : s.capSlotMask = ∅ := by
    by_contra hne
    rw [(h.opened hne).1] at hv
    cases hv
  have hmulti : s.capMulti = false := eq_false_of_ne_true fun hm => h.multi hm hmask
  exact Inv.of_invalid h.faults hv hmask hmulti h.fixed h.rearm

theorem inv_dormantWindow (h : Inv d s) (hv : s.ctxValid = false) {seq : ℕ} :
    Inv d (s.dormantWindow d slot rows seq start) := by
  unfold dormantWindow
  split
  · split
    · exact h.dormant hv _ _
    · exact h.invalidate
  · exact h

/-! ### Single windows -/

def FlowSpec (returned goesOn : Runtime Hidden M Row → Prop) : Flow Hidden M Row → Prop
  | .error s => returned s
  | .ok s => goesOn s

/-- The state in which the window of a slot in a single-window epoch is captured. -/
structure Ready (d : Draft Hidden M Row) (slot : ℕ) (x : ℕ → Hidden) (rows start : ℕ)
    (s : Runtime Hidden M Row) : Prop where
  armed : Armed d s
  epoch : Epoch d s
  single : s.capMulti = false
  mem : slot ∈ s.capSlotMask
  rows_eq : s.capRows = rows
  start_eq : s.capStartPos = start
  delivered : ∀ i < s.capRows, s.delivered (s.capStartPos + i) slot = some (x i)
  content : slot ≠ 0 → Content d s (s.capSlotMask.erase slot)
  zero : slot = 0 → s.capSlotMask = {0}

theorem Armed.begin (h : Armed d s) (hn : 0 < d.auxCount) (hmask : s.capSlotMask = {0})
    (hmulti : s.capMulti = false) (hcapRows : s.capRows = rows) (hcapStart : s.capStartPos = start)
    (hzero : s.capSlotEnd 0 = start + rows) (hothers : ∀ slot ≠ 0, s.capSlotEnd slot = start)
    (hin : ∀ p, start ≤ p → p < start + rows → s.delivered p 0 = some (x (p - start)))
    (hout : ∀ p slot, ¬(slot = 0 ∧ start ≤ p ∧ p < start + rows) → s.delivered p slot = none)
    (hrows : 0 < rows) (hbase : s.ctxBase ≤ start) (hlen : start ≤ s.ctxLen)
    (hcap : rows ≤ d.ctxCap) (hfixed : d.rotate = false → start + rows ≤ d.ctxCap) :
    Ready d 0 x rows start s := by
  subst hcapRows hcapStart
  have hmem : ∀ slot, slot ∈ s.capSlotMask ↔ slot = 0 := fun slot => by
    rw [hmask, mem_singleton]
  have hepoch : Epoch d s := by
    refine ⟨(hmem 0).2 rfl, ?_, hbase, hlen, by omega, by omega, fun hrot => ?_, ?_, ?_, ?_, ?_,
      fun _ => ⟨hzero, ?_⟩, fun hm => ?_⟩
    · intro slot hslot
      rw [(hmem slot).1 hslot]
      exact hn
    · rw [hzero]
      exact hfixed hrot
    · intro slot
      by_cases hslot : slot = 0
      · rw [hslot, hzero]
        exact le_add_right _ _
      · exact (hothers slot hslot).ge
    · intro slot hslot
      rw [(hmem slot).1 hslot]
    · exact fun slot hslot => hothers slot fun heq => hslot ((hmem slot).2 heq)
    · intro p slot
      rw [hmem]
      by_cases hp : slot = 0 ∧ s.capStartPos ≤ p ∧ p < s.capStartPos + s.capRows
      · obtain ⟨rfl, hle, hlt⟩ := hp
        rw [hin p hle hlt, hzero]
        exact ⟨fun _ => ⟨rfl, hle, hlt⟩, fun _ => rfl⟩
      rw [hout p slot hp]
      constructor
      · intro hsome
        cases hsome
      · rintro ⟨rfl, hle, hlt⟩
        exact absurd ⟨rfl, hle, hlt.trans_eq hzero⟩ hp
    · intro slot hslot
      rw [(hmem slot).1 hslot]
    · rw [hmulti] at hm
      cases hm
  refine ⟨h, hepoch, hmulti, (hmem 0).2 rfl, rfl, rfl, fun i hi => ?_, fun hne => absurd rfl hne,
    fun _ => hmask⟩
  rw [hin _ (Nat.le_add_right _ _) (by omega), Nat.add_sub_cancel_left]

/-- **A window of slot 0**: it extends the epoch, or begins one. -/
theorem openEpoch_spec (h : Inv d s) (hv : s.ctxValid = true) (hn : 0 < d.auxCount) (x : ℕ → Hidden)
    (seq src : ℕ) (hrows : 0 < rows) (hfixed : d.rotate = false → start + rows ≤ d.ctxCap) :
    FlowSpec (Inv d) (Ready d 0 x rows start) (s.openEpoch d x rows seq start src) := by
  have ha := h.armed hv
  unfold openEpoch
  split
  · next hext => exact inv_extendEpoch h hext.1 hrows hext.2.2 hfixed
  split
  · next hbig => exact h.enterDormant hbig.1 _ _ _
  split
  · exact h.invalidate
  split
  · exact h.invalidate
  next _ hbig hbelow hgap =>
  have hcap : rows ≤ d.ctxCap := by
    cases hrot : d.rotate with
    | true => exact not_lt.1 fun hlt => hbig ⟨hrot, hlt⟩
    | false => exact (le_add_left _ _).trans (hfixed hrot)
  have hbase : s.ctxBase ≤ start := by
    cases hrot : d.rotate with
    | true => exact not_lt.1 fun hlt => hbelow ⟨hrot, hlt⟩
    | false => exact (h.fixed hrot).trans_le (zero_le _)
  have hends : ∀ slot : ℕ, (update (fun _ => start) 0 (start + rows) : ℕ → ℕ) slot =
      if slot = 0 then start + rows else start := fun slot => update_apply _ _ _ _
  apply Armed.begin
  case h => exact ha.frame rfl rfl rfl rfl rfl rfl rfl
  case hzero => exact hends 0
  case hothers => exact fun slot hslot => (hends slot).trans (if_neg hslot)
  case hin => exact fun p => deliver_self
  case hout => exact fun p slot => deliver_other
  case hlen => exact not_lt.1 hgap
  all_goals first | rfl | assumption

/-- **A window of a later slot**: it goes with the open epoch, or the context is gone. -/
theorem laterSlot_spec (h : Inv d s) (x : ℕ → Hidden) (seq src : ℕ) (hslot : slot ≠ 0)
    (hlt : slot < d.auxCount) (hrows : 0 < rows) :
    FlowSpec (Inv d) (Ready d slot x rows start) (s.laterSlot d slot x rows seq start src) := by
  unfold laterSlot
  split
  · next hv => exact inv_dormantWindow h hv
  split
  · next hmulti => exact inv_multiWindow h hmulti hslot hlt hrows
  split
  · exact h.invalidate
  next hv hmulti hshape =>
  simp only [not_or, not_not] at hshape
  obtain ⟨-, hcapRows, hcapStart, hzero, hnew⟩ := hshape
  have hmulti := eq_false_of_ne_true hmulti
  obtain ⟨hv, he, hc⟩ := h.opened (ne_empty_of_mem hzero)
  obtain ⟨hend, hends⟩ := he.single hmulti
  subst hcapRows hcapStart
  have hstop : ∀ j, (update s.capSlotEnd slot (s.capStartPos + s.capRows)) j =
      if j = slot then s.capStartPos + s.capRows else s.capSlotEnd j :=
    fun j => update_apply _ _ _ _
  have hstop₀ : (update s.capSlotEnd slot (s.capStartPos + s.capRows)) 0 = s.capSlotEnd 0 :=
    update_of_ne hslot.symm _ _
  have hstop' : ∀ j ∈ insert slot s.capSlotMask,
      (update s.capSlotEnd slot (s.capStartPos + s.capRows)) j = s.capSlotEnd 0 := by
    intro j hj
    rw [hstop]
    split
    · exact hend.symm
    · next hne => exact hends j ((mem_insert.1 hj).resolve_left hne)
  have hepoch : Epoch d ({ s with
      capSlotMask := insert slot s.capSlotMask
      capSlotEnd := update s.capSlotEnd slot (s.capStartPos + s.capRows) }.deliver slot x
        s.capRows s.capStartPos) := by
    refine ⟨mem_insert_of_mem hzero, ?_, he.base_le, he.le_len, ?_, ?_, ?_, ?_, ?_, ?_, ?_, ?_, ?_⟩
    · intro j hj
      rcases mem_insert.1 hj with rfl | hj
      · exact hlt
      · exact he.mask_lt j hj
    · exact he.nonempty.trans_eq hstop₀.symm
    · exact (congrArg (· - s.capStartPos) hstop₀).trans_le he.room
    · exact fun hrot => hstop₀.trans_le (he.fixed hrot)
    · intro j
      refine le_of_le_of_eq ?_ (hstop j).symm
      split
      · exact le_add_right _ _
      · exact he.start_le j
    · exact fun j hj => (hstop' j hj).trans_le hstop₀.ge
    · intro j hj
      have hj := mem_insert.not.1 hj
      rw [not_or] at hj
      exact (hstop j).trans ((if_neg hj.1).trans (he.outside j hj.2))
    · exact delivered_afterWindow src he (he.outside slot hnew).symm
    · exact fun _ => ⟨hstop₀.trans hend, fun j hj => (hstop' j hj).trans hstop₀.symm⟩
    · intro hm
      exact absurd (hmulti.symm.trans hm) Bool.false_ne_true
  refine ⟨(h.armed hv).frame rfl rfl rfl rfl rfl rfl rfl, hepoch, hmulti,
    mem_insert_self _ _, rfl, rfl, fun i hi => ?_, fun _ => ?_, fun hz => absurd hz hslot⟩
  · refine (deliver_self (Nat.le_add_right _ _) (Nat.add_lt_add_left hi _)).trans ?_
    exact congrArg (fun j => some (x j)) (Nat.add_sub_cancel_left _ _)
  · -- the other slots are where they were
    have herase : (insert slot s.capSlotMask).erase slot = s.capSlotMask :=
      erase_insert hnew
    have hsame : ∀ j ∈ s.capSlotMask, ∀ p,
        (s.deliver slot x s.capRows s.capStartPos).delivered p j = s.delivered p j :=
      fun j hj p => deliver_other fun hin => hnew (hin.1 ▸ hj)
    refine ⟨fun hno j hj i hi => ?_, fun hacc i hi => ?_⟩
    · have hj := herase ▸ hj
      exact (hsame j hj _).trans (hc.1 hno j hj i hi)
    · refine (hc.2 hacc i (hi.trans_eq hstop₀)).trans ?_
      refine sum_congr herase.symm fun j hj => ?_
      have hj : j ∈ s.capSlotMask := mem_of_mem_insert_of_ne (mem_of_mem_erase hj)
        (ne_of_mem_erase hj)
      exact congrArg (contribution d j) (hsame j hj _).symm

/-! ### Captures -/

theorem Armed.of_empty (hf : s.bufs.faults = []) (hv : s.ctxValid = true)
    (hlen : s.ctxLen = s.ctxBase) (hfixed : d.rotate = false → s.ctxBase = 0)
    (hrearm : s.rearmPending = false) : Armed d s := by
  refine ⟨hf, hv, ⟨hlen.ge, hlen.trans_le (le_add_right _ _), fun p hp hlt => ?_⟩, hfixed,
    fun hr => ?_⟩
  · omega
  · rw [hrearm] at hr
    cases hr

/-- **Whether a window of slot 0 finds a context**, begins one or adopts one. -/
theorem continuity_spec (h : Inv d s) (seq start rows : ℕ) :
    FlowSpec (Inv d) (fun t => Inv d t ∧ t.ctxValid = true) (s.continuity d seq start rows) := by
  unfold continuity
  split
  · split
    · -- a new sequence
      exact ⟨Armed.idle (Armed.of_empty h.faults rfl rfl (fun _ => rfl) rfl) rfl rfl, rfl⟩
    split
    · next hadopt =>
      have ha := h.armed hadopt.1
      exact ⟨Armed.idle (ha.frame rfl rfl rfl rfl rfl rfl rfl) rfl rfl, hadopt.1⟩
    split
    · next hrearm =>
      split
      · exact h.invalidate
      split
      · -- an empty window after an oversized epoch; the arena rotates
        refine ⟨Armed.idle (Armed.of_empty h.faults rfl rfl (fun hrot => ?_) rfl) rfl rfl, rfl⟩
        exact absurd (hrot.symm.trans (h.rearm hrearm.1)) Bool.false_ne_true
      split
      · exact h.dormant hrearm.2 _ _
      · exact h.invalidate
    split
    · exact h.invalidate
    · exact h
  · next hsame =>
    rw [not_or] at hsame
    exact ⟨h, eq_true_of_ne_false hsame.2⟩

theorem Ready.capture (h : Ready d slot x rows start s) (src : ℕ) :
    Inv d (s.captureWindow d slot x rows start src) := by
  have hinv := inv_captureWindow h.armed h.epoch h.single src h.mem h.delivered h.content h.zero
  rwa [h.rows_eq, h.start_eq] at hinv

theorem inv_captureAux (h : Inv d s) (slot : ℕ) (buf : Option (ℕ → Hidden))
    (rows seq start src : ℕ) : Inv d (s.captureAux d slot buf rows seq start src) := by
  unfold captureAux
  split
  · exact h
  next hshape =>
  rw [not_or, not_le] at hshape
  have hrows : 0 < rows := pos_of_ne_zero hshape.2
  cases buf with
  | none => exact h
  | some x =>
    dsimp only
    split
    · exact h.invalidate
    next hover =>
    have hfixed : d.rotate = false → start + rows ≤ d.ctxCap :=
      fun hrot => not_lt.1 fun hlt => hover ⟨hrot, hlt⟩
    have hspec : FlowSpec (Inv d) (Ready d slot x rows start) (if slot = 0 then
        (s.continuity d seq start rows).bind fun s => s.openEpoch d x rows seq start src
        else s.laterSlot d slot x rows seq start src) := by
      split
      · next hslot =>
        subst hslot
        have hcont := continuity_spec h seq start rows
        cases hflow : s.continuity d seq start rows with
        | error t =>
          rw [hflow] at hcont
          exact hcont
        | ok t =>
          rw [hflow] at hcont
          exact openEpoch_spec hcont.1 hcont.2 (zero_lt_of_lt hshape.1) x seq src hrows hfixed
      · next hslot => exact laterSlot_spec h x seq src hslot hshape.1 hrows
    split
    · next t hflow =>
      rw [hflow] at hspec
      exact hspec
    · next t hflow =>
      rw [hflow] at hspec
      exact Ready.capture hspec src

/-! ### Steps of the draft -/

omit [AddCommMonoid M] in
theorem runStep_accepts {seq token anchor : ℕ} {numQuery : ℤ}
    (h : s.runStep d seq token anchor numQuery = none) :
    s.ctxValid = true ∧ seq = s.ctxSeqId ∧ s.ctxBase ≤ anchor ∧ anchor ≤ s.ctxLen := by
  unfold runStep at h
  dsimp only at h
  generalize (if 0 < numQuery then numQuery.toNat else d.specTokens) = ndraft at h
  split at h
  · cases h
  next hctx =>
  split at h
  · cases h
  split at h
  · cases h
  next hlen =>
  split at h
  · cases h
  next hbase =>
  rw [not_or, not_not] at hctx
  exact ⟨eq_true_of_ne_false hctx.1, hctx.2, not_lt.1 hbase, not_lt.1 hlen⟩

theorem inv_boot (b : Buffers Hidden M Row) : Inv d (boot b) :=
  Inv.of_invalid rfl rfl rfl rfl (fun _ => rfl) fun hr => by cases hr

theorem Inv.step (h : Inv d s) {act : Action Hidden} (hs : s.step d act = some s') : Inv d s' := by
  cases act with
  | captureAux slot buf rows seq start src =>
    cases hs
    exact inv_captureAux h slot buf rows seq start src
  | invalidateContext =>
    cases hs
    exact h.invalidate
  | runStep seq token anchor numQuery =>
    cases hs
    split
    · next hok =>
      obtain ⟨hv, -, hbase, hlen⟩ := runStep_accepts hok
      have hread : anchor - s.ctxBase ≤ d.ctxCap := by
        have hle := (h.window hv).len_le
        omega
      unfold readContext
      rw [check_of hread]
      exact h
    · exact h

end LayerStorm.Speculation
