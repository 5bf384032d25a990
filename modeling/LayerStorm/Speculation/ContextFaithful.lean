import LayerStorm.Speculation.ContextCapture

/-!
# The context window is faithful

Every operation keeps the invariant; so whenever a draft step is accepted, the arena holds the
context row of every position the step attends to, made of the rows that were delivered for it on
all slots.

An epoch larger than the arena cannot be windowed.  The context is dropped, and where the epoch
stands on slot 0 and on the last slot is followed; when it has come on both, the next window of
slot 0 begins an empty context.

## Main results

* `context_window_faithful` — a runtime is faithful after every run.
-/

namespace LayerStorm.Speculation

open Lib Buffers LayerStorm.Speculation.Runtime

variable {Hidden M Row : Type*} [AddCommMonoid M] {d : Draft Hidden M Row}
  {s s' : Runtime Hidden M Row}

/-! ### Oversized epochs -/

/-- A window of slot 0 extends the open epoch. -/
def Extends (seq start : ℕ) (s : Runtime Hidden M Row) : Prop :=
  s.capSlotMask = {0} ∧ s.capSeq = seq ∧ start = s.capSlotEnd 0

/-- With a window of slot 0, the epoch that began at `first` is larger than the arena. -/
def Oversized (d : Draft Hidden M Row) (s : Runtime Hidden M Row) (seq start rows first : ℕ) :
    Prop :=
  d.rotate = true ∧ ∃ t, s.continuity d seq start rows = .ok t ∧
    ((Extends seq start t ∧ first = t.capStartPos ∧ d.ctxCap < start + rows - first) ∨
      (¬Extends seq start t ∧ first = start ∧ d.ctxCap < rows))

/-- There is no context; of an epoch of the sequence, slot 0 has come up to `slot0End`, and the last
slot up to `lastEnd`. -/
structure Dormant (d : Draft Hidden M Row) (seq slot0End lastEnd : ℕ) (s : Runtime Hidden M Row) :
    Prop where
  rotate : d.rotate = true
  valid : s.ctxValid = false
  pending : s.rearmPending = true
  seq_eq : s.dormSeq = seq
  pos : 0 < slot0End
  slot0End_eq : s.dormSlot0End = slot0End
  lastEnd_eq : s.dormLastEnd = lastEnd

variable {seq : ℕ}

omit [AddCommMonoid M] in
theorem Dormant.not_valid {a b : ℕ} (h : Dormant d seq a b s) : s.ctxValid ≠ true := by
  rw [h.valid]
  exact Bool.false_ne_true

omit [AddCommMonoid M] in
theorem Dormant.not_fixed {a b : ℕ} (h : Dormant d seq a b s) : d.rotate ≠ false := by
  rw [h.rotate]
  exact fun h => Bool.noConfusion h

/-- What an action that is apart from the epoch is: a step of the draft, or a capture that is empty,
of a slot in between, or of another sequence and a later slot. -/
def Apart (d : Draft Hidden M Row) (seq : ℕ) : Action Hidden → Prop
  | .captureAux slot buf rows seq' _ _ =>
    d.auxCount ≤ slot ∨ rows = 0 ∨ buf = none ∨ (slot ≠ 0 ∧ (slot ≠ d.auxCount - 1 ∨ seq' ≠ seq))
  | .invalidateContext => False
  | .runStep .. => True

/-- The actions deliver the epoch contiguously on slot 0 and on the last slot: from the frontiers
`a` and `b` up to `a'` and `b'`. -/
inductive Delivery (d : Draft Hidden M Row) (seq : ℕ) : ℕ → ℕ → List (Action Hidden) → ℕ → ℕ → Prop
  /-- Nothing happens. -/
  | nil (a b : ℕ) : Delivery d seq a b [] a b
  /-- A window of slot 0, while the last slot is behind or the window is oversized itself. -/
  | slot0 {a b a' b' rows src : ℕ} {x : ℕ → Hidden} {acts : List (Action Hidden)} :
      0 < rows → ¬(b = a ∧ rows ≤ d.ctxCap) →
      Delivery d seq (a + rows) (if d.auxCount = 1 then a + rows else b) acts a' b' →
      Delivery d seq a b (.captureAux 0 (some x) rows seq a src :: acts) a' b'
  /-- A window of the last slot. -/
  | last {a b a' b' rows src : ℕ} {x : ℕ → Hidden} {acts : List (Action Hidden)} :
      d.auxCount ≠ 1 → 0 < rows → b + rows ≤ a → Delivery d seq a (b + rows) acts a' b' →
      Delivery d seq a b (.captureAux (d.auxCount - 1) (some x) rows seq b src :: acts) a' b'
  /-- Something else. -/
  | other {a b a' b' : ℕ} {act : Action Hidden} {acts : List (Action Hidden)} :
      Apart d seq act → Delivery d seq a b acts a' b' → Delivery d seq a b (act :: acts) a' b'

variable {rows start : ℕ}

theorem dormant_of_oversized (hn : 0 < d.auxCount) {first : ℕ} (src : ℕ) (x : ℕ → Hidden)
    (hrows : 0 < rows) (h : Oversized d s seq start rows first) :
    Dormant d seq (start + rows) (if d.auxCount = 1 then start + rows else first)
      (s.captureAux d 0 (some x) rows seq start src) := by
  obtain ⟨hrot, t, hcont, hcase⟩ := h
  have heq : s.captureAux d 0 (some x) rows seq start src =
      t.enterDormant d seq (start + rows) first := by
    have hopen : t.openEpoch d x rows seq start src =
        .error (t.enterDormant d seq (start + rows) first) := by
      unfold openEpoch
      unfold Extends at hcase
      rcases hcase with ⟨hext, rfl, hbig⟩ | ⟨hext, rfl, hbig⟩
      · unfold extendEpoch
        rw [if_pos hext, if_pos ⟨hrot, hbig⟩]
      · rw [if_neg hext, if_pos ⟨hrot, hbig⟩]
    unfold captureAux
    rw [if_neg (by omega)]
    dsimp only
    rw [if_neg (by rw [hrot]; exact fun h => Bool.noConfusion h.1), if_pos rfl, hcont]
    dsimp only [Except.bind]
    rw [hopen]
  rw [heq]
  exact ⟨hrot, rfl, rfl, rfl, Nat.add_pos_right _ hrows, rfl, rfl⟩

variable {x : ℕ → Hidden} {src : ℕ}

theorem Dormant.slot0 {a b : ℕ} (h : Dormant d seq a b s) (hn : 0 < d.auxCount) (hrows : 0 < rows)
    (hgo : ¬(b = a ∧ rows ≤ d.ctxCap)) :
    Dormant d seq (a + rows) (if d.auxCount = 1 then a + rows else b)
      (s.captureAux d 0 (some x) rows seq a src) := by
  have hcont : s.continuity d seq a rows = .error { s with
      dormSlot0End := a + rows
      dormLastEnd := if d.auxCount = 1 then a + rows else b } := by
    have hpos := h.pos
    have hlate : ¬(s.dormLastEnd = s.dormSlot0End ∧ a = s.dormSlot0End ∧ rows ≤ d.ctxCap) := by
      rw [h.slot0End_eq, h.lastEnd_eq]
      exact fun hin => hgo ⟨hin.1, hin.2.2⟩
    unfold continuity
    rw [if_pos (.inr h.valid), if_neg (by omega), if_neg (fun h' => h.not_valid h'.1),
      if_pos ⟨h.pending, h.valid⟩, if_neg (not_not.2 h.seq_eq.symm), if_neg hlate,
      if_pos h.slot0End_eq.symm, h.slot0End_eq, h.lastEnd_eq]
  have heq : s.captureAux d 0 (some x) rows seq a src = { s with
      dormSlot0End := a + rows
      dormLastEnd := if d.auxCount = 1 then a + rows else b } := by
    unfold captureAux
    rw [if_neg (by omega)]
    dsimp only
    rw [if_neg (fun h' => h.not_fixed h'.1), hcont]
    rfl
  rw [heq]
  exact ⟨h.rotate, h.valid, h.pending, h.seq_eq, Nat.add_pos_left h.pos _, rfl, rfl⟩

theorem Dormant.captureAux_later {a b slot seq' : ℕ} (h : Dormant d seq a b s) (hslot : slot ≠ 0)
    (hlt : slot < d.auxCount) (hrows : 0 < rows) :
    s.captureAux d slot (some x) rows seq' start src = s.dormantWindow d slot rows seq' start := by
  unfold captureAux
  rw [if_neg (by omega)]
  dsimp only
  rw [if_neg (fun h' => h.not_fixed h'.1), if_neg hslot]
  unfold laterSlot
  rw [if_pos h.valid]

theorem Dormant.last {a b : ℕ} (h : Dormant d seq a b s) (hn : 0 < d.auxCount)
    (hone : d.auxCount ≠ 1) (hrows : 0 < rows) (hle : b + rows ≤ a) :
    Dormant d seq a (b + rows) (s.captureAux d (d.auxCount - 1) (some x) rows seq b src) := by
  rw [h.captureAux_later (by omega) (by omega) hrows]
  unfold dormantWindow
  rw [if_pos ⟨h.pending, h.seq_eq.symm, rfl⟩,
    if_pos ⟨h.lastEnd_eq.symm, hle.trans_eq h.slot0End_eq.symm⟩]
  exact { h with lastEnd_eq := rfl }

theorem Dormant.other {a b : ℕ} {act : Action Hidden} (h : Dormant d seq a b s)
    (hact : Apart d seq act) (hs : s.step d act = some s') : s' = s := by
  cases act with
  | captureAux slot buf rows seq' start src =>
    cases hs
    by_cases hshape : d.auxCount ≤ slot ∨ rows = 0
    · exact if_pos hshape
    cases buf with
    | none =>
      exact if_neg hshape
    | some x =>
      rw [not_or, not_le] at hshape
      rcases hact with hge | hzero | hnone | ⟨hslot, hapart⟩
      · omega
      · exact absurd hzero hshape.2
      · cases hnone
      rw [h.captureAux_later hslot hshape.1 (Nat.pos_of_ne_zero hshape.2)]
      refine if_neg fun hin => ?_
      rcases hapart with hne | hne
      · exact hne hin.2.2
      · exact hne (hin.2.1.trans h.seq_eq)
  | invalidateContext => exact hact.elim
  | runStep seq' token anchor numQuery =>
    cases hs
    refine if_neg fun hok => ?_
    have hv := (runStep_accepts hok).1
    rw [h.valid] at hv
    cases hv

/-- **The frontiers are followed** while the epoch is delivered. -/
theorem dormant_of_delivery (hn : 0 < d.auxCount) {a b a' b' : ℕ} {acts : List (Action Hidden)}
    (h : Delivery d seq a b acts a' b') : ∀ {s t : Runtime Hidden M Row}, Dormant d seq a b s →
      acts.foldlM (Runtime.step d) s = some t → Dormant d seq a' b' t := by
  induction h with
  | nil a b =>
    intro s t hs hrun
    cases hrun
    exact hs
  | slot0 hrows hgo _ ih =>
    intro s t hs hrun
    exact ih (hs.slot0 hn hrows hgo) hrun
  | last hone hrows hle _ ih =>
    intro s t hs hrun
    exact ih (hs.last hn hone hrows hle) hrun
  | other hact _ ih =>
    intro s t hs hrun
    rw [List.foldlM_cons, Option.bind_eq_bind, Option.bind_eq_some_iff] at hrun
    obtain ⟨u, hu, hrun⟩ := hrun
    rw [hs.other hact hu] at hrun
    exact ih hs hrun

/-! ### The next window -/

/-- The window of slot 0 at `stop` begins an empty context of the sequence; unless the source device
of the captures has changed, the context is there after the window is captured, and where there is
one slot only, it has the rows. -/
structure Rearms (d : Draft Hidden M Row) (seq stop rows : ℕ) (x : ℕ → Hidden) (src : ℕ)
    (s : Runtime Hidden M Row) : Prop where
  begins : ∃ t, s.continuity d seq stop rows = .ok t ∧ t.ctxValid = true ∧ t.ctxSeqId = seq ∧
    t.ctxBase = stop ∧ t.ctxLen = stop
  captured : (∀ b, s.captureBackend = some b → b = src) →
    ∃ t, s.captureAux d 0 (some x) rows seq stop src = t ∧ t.ctxValid = true ∧ t.ctxSeqId = seq ∧
      t.ctxBase = stop ∧ t.ctxLen = (if d.auxCount = 1 then stop + rows else stop) ∧
      t.capSlotMask = (if d.auxCount = 1 then ∅ else {0})

omit [AddCommMonoid M] in
theorem ensureCaptureEvent_same (h : ∀ b, s.captureBackend = some b → b = src) :
    s.ensureCaptureEvent src = .ok { s with captureBackend := some src } := by
  unfold ensureCaptureEvent
  split
  · rfl
  next b hb =>
  have heq := h b hb
  subst heq
  rw [if_pos rfl, ← hb]

omit [AddCommMonoid M] in
theorem maybeRotateArena_fits (h : start + rows - s.ctxBase ≤ d.ctxCap) :
    s.maybeRotateArena d rows start = s := by
  unfold maybeRotateArena
  rw [if_pos h]
  exact ite_self s

omit [AddCommMonoid M] in
theorem finalizeContextChunked_fits (h : start + rows - s.ctxBase ≤ d.ctxCap) :
    ∃ b, s.finalizeContextChunked d rows start = { s with bufs := b } := by
  unfold finalizeContextChunked
  rw [maybeRotateArena_fits h]
  exact ⟨_, rfl⟩

theorem ingestContext_fits (h : start + rows - s.ctxBase ≤ d.ctxCap) :
    ∃ b, s.ingestContext d rows start = { s with bufs := b } := by
  unfold ingestContext
  rw [maybeRotateArena_fits h]
  exact ⟨_, rfl⟩

theorem captureWindow_begins (hn : 0 < d.auxCount) {stop : ℕ} (hv : s.ctxValid = true)
    (hbase : s.ctxBase = stop) (hlen : s.ctxLen = stop) (hmask : s.capSlotMask = {0})
    (hcap : rows ≤ d.ctxCap) (hsrc : ∀ b, s.captureBackend = some b → b = src) :
    ∃ t, s.captureWindow d 0 x rows stop src = t ∧ t.ctxValid = true ∧ t.ctxSeqId = s.ctxSeqId ∧
      t.ctxBase = stop ∧ t.ctxLen = (if d.auxCount = 1 then stop + rows else stop) ∧
      t.capSlotMask = (if d.auxCount = 1 then ∅ else {0}) := by
  refine ⟨_, rfl, ?_⟩
  have hfits : stop + rows - s.ctxBase ≤ d.ctxCap := by omega
  have hctx : ¬s.ctxValid = false := by
    rw [hv]
    exact Bool.noConfusion
  have hrange : d.auxCount = 1 → s.capSlotMask = Finset.range d.auxCount := by
    intro hone
    rw [hmask, hone, Finset.range_one]
  unfold captureWindow
  by_cases hone : d.auxCount = 1
  · -- the only slot: the epoch is finalised
    have hlast : 0 = d.auxCount - 1 := by omega
    rw [if_pos hone, if_pos hone]
    by_cases hbig : d.auxRowsCap < rows
    · rw [if_pos hbig]
      unfold captureSlotChunked
      rw [ensureCaptureEvent_same hsrc]
      obtain ⟨b, hb⟩ := finalizeContextChunked_fits (d := d) (s := { s with
        captureBackend := some src, bufs := s.bufs.foldSlot d 0 x rows 0 }) hfits
      rw [if_neg hctx, if_pos hlast, if_neg (not_not.2 (hrange hone)), hb]
      exact ⟨hv, rfl, hbase, rfl, rfl⟩
    · rw [if_neg hbig]
      obtain ⟨b, hb⟩ := ingestContext_fits (d := d) (s := { s with
        captureBackend := some src, bufs := s.bufs.copyStage d 0 x 0 rows }) hfits
      rw [if_pos hlast, if_neg (not_not.2 (hrange hone)),
        ensureCaptureEvent_same (s := { s with bufs := s.bufs.copyStage d 0 x 0 rows }) hsrc]
      dsimp only
      rw [hb]
      exact ⟨hv, rfl, hbase, rfl, rfl⟩
  · -- the later slots are still to come
    have hnot : 0 ≠ d.auxCount - 1 := by omega
    rw [if_neg hone, if_neg hone]
    by_cases hbig : d.auxRowsCap < rows
    · rw [if_pos hbig]
      unfold captureSlotChunked
      rw [ensureCaptureEvent_same hsrc]
      rw [if_neg hctx, if_neg hnot]
      exact ⟨hv, rfl, hbase, hlen, hmask⟩
    · rw [if_neg hbig]
      rw [if_neg hnot]
      exact ⟨hv, rfl, hbase, hlen, hmask⟩

/-- **An epoch that has come on every slot lets the context begin again.** -/
theorem rearms_of_dormant (hn : 0 < d.auxCount) {stop : ℕ} (h : Dormant d seq stop stop s)
    (hrows : 0 < rows) (hcap : rows ≤ d.ctxCap) :
    Rearms d seq stop rows x src s := by
  have hpos := h.pos
  have hcont : s.continuity d seq stop rows = .ok { s with
      ctxSeqId := seq, ctxValid := true, ctxBase := stop, ctxLen := stop
      rearmPending := false, capSlotMask := ∅, capMulti := false } := by
    unfold continuity
    rw [if_pos (.inr h.valid), if_neg (by omega), if_neg (fun h' => h.not_valid h'.1),
      if_pos ⟨h.pending, h.valid⟩, if_neg (not_not.2 h.seq_eq.symm),
      if_pos ⟨h.lastEnd_eq.trans h.slot0End_eq.symm, h.slot0End_eq.symm, hcap⟩]
  refine ⟨⟨_, hcont, rfl, rfl, rfl, rfl⟩, fun hsrc => ?_⟩
  -- the window begins an epoch of the empty context
  have hopen : ∃ t, (openEpoch d x rows seq stop src { s with
      ctxSeqId := seq, ctxValid := true, ctxBase := stop, ctxLen := stop
      rearmPending := false, capSlotMask := ∅, capMulti := false }) = .ok t ∧ t.ctxValid = true ∧
      t.ctxSeqId = seq ∧ t.ctxBase = stop ∧ t.ctxLen = stop ∧ t.capSlotMask = {0} ∧
      t.captureBackend = s.captureBackend := by
    have hempty : ¬((∅ : Finset ℕ) = {0}) := (Finset.singleton_ne_empty 0).symm
    unfold openEpoch
    rw [if_neg (fun h' => hempty h'.1), if_neg (fun h' => not_lt.2 hcap h'.2),
      if_neg (fun h' => lt_irrefl _ h'.2), if_neg (lt_irrefl _)]
    exact ⟨_, rfl, rfl, rfl, rfl, rfl, rfl, rfl⟩
  obtain ⟨t, ht, hv, hseq, hbase, hlen, hmask, hbackend⟩ := hopen
  have heq : s.captureAux d 0 (some x) rows seq stop src = t.captureWindow d 0 x rows stop src := by
    unfold captureAux
    rw [if_neg (by omega)]
    dsimp only
    rw [if_neg (fun h' => h.not_fixed h'.1), if_pos rfl, hcont]
    dsimp only [Except.bind]
    rw [ht]
  rw [heq, ← hseq]
  exact captureWindow_begins hn hv hbase hlen hmask hcap (hbackend ▸ hsrc)

/-! ### Faithfulness -/

structure Faithful (d : Draft Hidden M Row) (s : Runtime Hidden M Row) : Prop where
  /-- The frontier is within the arena behind the base. -/
  bounds : s.ctxValid = true → s.ctxBase ≤ s.ctxLen ∧ s.ctxLen ≤ s.ctxBase + d.ctxCap
  /-- No row was accessed out of range, no rotation overlapped or was refused. -/
  sound : s.bufs.faults = []
  /-- When a step is accepted, every position it attends to has the context row made of what was
  delivered for it, on all slots, in the epoch that was finalised last. -/
  context : ∀ seq token anchor numQuery, s.runStep d seq token anchor numQuery = none →
    ∀ p, s.ctxBase ≤ p → p < anchor → ∃ h : ℕ → Hidden,
      (∀ slot < d.auxCount, s.finalised p slot = some (h slot)) ∧
        s.bufs.arena (p - s.ctxBase) = d.contextRow p h
  /-- Once an oversized epoch has been delivered on slot 0 and on the last slot, the next window of
  slot 0 that fits the arena begins a context. -/
  rearms : ∀ seq start rows first src (x : ℕ → Hidden), 0 < d.auxCount → 0 < rows →
    Oversized d s seq start rows first →
    ∀ acts stop t, Delivery d seq (start + rows) (if d.auxCount = 1 then start + rows else first)
      acts stop stop →
    acts.foldlM (Runtime.step d) (s.captureAux d 0 (some x) rows seq start src) = some t →
    ∀ rows' src' (x' : ℕ → Hidden), 0 < rows' → rows' ≤ d.ctxCap → Rearms d seq stop rows' x' src' t

theorem Inv.faithful (h : Inv d s) : Faithful d s where
  bounds := fun hv => ⟨(h.window hv).base_le, (h.window hv).len_le⟩
  sound := h.faults
  context := by
    intro seq token anchor numQuery hok p hp hlt
    obtain ⟨hv, -, -, hlen⟩ := runStep_accepts hok
    exact (h.window hv).rows p hp (hlt.trans_le hlen)
  rearms := by
    intro seq start rows first src x hn hrows hbig acts stop t hdel hrun rows' src' x' hrows' hcap
    have hdormant := dormant_of_oversized hn src x hrows hbig
    exact rearms_of_dormant hn (dormant_of_delivery hn hdel hdormant hrun) hrows' hcap

/-- **The context window is faithful** after every run of captures, invalidations and steps. -/
theorem context_window_faithful (b : Buffers Hidden M Row) (acts : List (Action Hidden))
    (s : Runtime Hidden M Row) (hrun : Run (Runtime.step d) (boot b) acts s) : Faithful d s := by
  have hinv : Inv d s := hrun.invariant (fun _ _ _ h _ hs => h.step hs) (inv_boot b)
  exact hinv.faithful

/-- Two slots, an arena of four rows that rotates, and a staging of two. -/
def twoSlots : Draft ℕ ℕ (ℕ × ℕ) where
  auxCount := 2
  ctxCap := 4
  auxRowsCap := 2
  auxRowsCap_pos := Nat.two_pos
  rotate := true
  isV4Dflash := false
  v4_rotate := fun h => Bool.noConfusion h
  blockSize := 4
  specTokens := 2
  V := 10
  fc slot x := (slot + 1) * x
  hiddenNorm x := x
  kvRow p x := (p, x)

/-- A prefill of three rows, then two more rows, for which the arena rotates. -/
def twoEpochs : List (Action ℕ) :=
  [.captureAux 0 (some fun i => i) 3 7 0 0, .captureAux 1 (some fun i => 10 * i) 3 7 0 0,
    .captureAux 0 (some fun i => i) 2 7 3 0, .captureAux 1 (some fun i => 10 * i) 2 7 3 0]

/-- After the rotation a step is accepted. -/
theorem context_window_faithful_two : ∃ s,
    Run (Runtime.step twoSlots) (boot ⟨fun _ _ => 0, fun _ => 0, fun _ => 0, fun _ => (0, 0), []⟩)
      twoEpochs s ∧ s.ctxBase = 3 ∧ s.runStep twoSlots 7 0 5 0 = none ∧ Faithful twoSlots s := by
  obtain ⟨s, hs, hok⟩ : ∃ s, twoEpochs.foldlM (Runtime.step twoSlots)
      (boot ⟨fun _ _ => 0, fun _ => 0, fun _ => 0, fun _ => (0, 0), []⟩) = some s ∧
        decide (s.ctxBase = 3 ∧ s.runStep twoSlots 7 0 5 0 = none) = true :=
    (Option.any_eq_true _ _).1 (by decide)
  have hok := of_decide_eq_true hok
  have hrun := Run.of_foldlM hs
  exact ⟨s, hrun, hok.1, hok.2, context_window_faithful _ _ s hrun⟩

end LayerStorm.Speculation
