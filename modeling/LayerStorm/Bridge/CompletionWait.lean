import LayerStorm.Lib.Lockstep

/-!
# The two completion waits

`EngineBridge.wait` reads completions until one of the expected type comes.  With the compiled
bridge it calls `wait_cmp`, which skips checkpoints and classifies what it reads; without it, it
calls `_poll` for every completion and classifies itself.  The two arms look at the type of a
completion and at its number in different orders.

A slot of the ring is its bytes.  Floats are kept as the bits that are read, and messages as the
bytes before the first zero: both arms decode them in the same way.  Time does not pass, so a wait
that finds the ring empty has timed out.

## Main results

* `wait_arms_agree_iff` — **the arms agree exactly if every slot that is reached is clear**.
-/

namespace LayerStorm.Bridge
namespace CompletionWait

open Lib

/-! ### Slots -/

abbrev Slot := ℕ → UInt8

/-- Four bytes as a number, the lowest first. -/
def Slot.u32 (src : Slot) (off : ℕ) : UInt32 :=
  (src off).toUInt32 ||| ((src (off + 1)).toUInt32 <<< 8) |||
    ((src (off + 2)).toUInt32 <<< 16) ||| ((src (off + 3)).toUInt32 <<< 24)

/-- The message of an error: eighty bytes, up to the first zero. -/
def Slot.message (src : Slot) : List UInt8 :=
  ((List.range 80).map fun i => src (20 + i)).takeWhile (· ≠ 0)

def cmpError : UInt32 := 0xEE00

def cmpCheckpoint : UInt32 := 0x0200

/-- A completion as the bridge sees it. -/
structure Cmp where
  cmpType : UInt32
  cmdSeq : UInt32
  gpuIdx : UInt32
  status : UInt32
  cmdType : UInt32 := 0
  layerIdx : UInt32 := 0
  hostBufOffset : UInt32 := 0
  dataBytes : UInt32 := 0
  top1Prob : UInt32 := 0
  entropy : UInt32 := 0
  errMsg : List UInt8 := []
  errCategory : UInt32 := 0
  moeDegraded : UInt8 := 0
  indexerDense : UInt8 := 0
  deriving DecidableEq, Repr

/-- `cmp_poll`, for a slot that is there. -/
def cmpPoll (src : Slot) : Cmp :=
  if src.u32 0 = cmpError then
    { cmpType := src.u32 0, cmdSeq := src.u32 4, gpuIdx := src.u32 8, status := src.u32 12
      errMsg := src.message, errCategory := src.u32 16 }
  else
    { cmpType := src.u32 0, cmdSeq := src.u32 4, gpuIdx := src.u32 8, status := src.u32 12
      cmdType := src.u32 16, layerIdx := src.u32 20, hostBufOffset := src.u32 24
      dataBytes := src.u32 28, top1Prob := src.u32 32, entropy := src.u32 36
      moeDegraded := src 41, indexerDense := src 42 }

/-! ### The bridge -/

/-- What `wait` reads and changes. -/
structure WaitState where
  fireForgetSeqs : Finset UInt32 := ∅
  dsparkPendingSeq : UInt32 := 0
  dsparkCmp : Option Cmp := none
  dsparkErr : Option (List UInt8) := none
  moeDegradedLayers : ℕ := 0
  indexerDenseSteps : ℕ := 0
  deriving DecidableEq

/-- How a wait ends that does not time out. -/
inductive Answer
  | returned (out : Cmp)
  | raised (msg : List UInt8) (category : UInt32)
  deriving DecidableEq, Repr

namespace WaitState

variable (b : WaitState)

/-- Count the witness bytes of a completion. -/
def count (deg idense : UInt8) : WaitState :=
  { b with
    moeDegradedLayers := if deg ≠ 0 then b.moeDegradedLayers + 1 else b.moeDegradedLayers
    indexerDenseSteps := if idense ≠ 0 then b.indexerDenseSteps + 1 else b.indexerDenseSteps }

/-- The completion of a fire-and-forget command is dropped. -/
def forget (seq : UInt32) : WaitState := { b with fireForgetSeqs := b.fireForgetSeqs.erase seq }

/-- The completion of the asynchronous draft is kept. -/
def stashCmp (out : Cmp) : WaitState := { b with dsparkCmp := some out, dsparkPendingSeq := 0 }

/-- The failure of the asynchronous draft is kept. -/
def stashErr (msg : List UInt8) : WaitState := { b with dsparkErr := some msg, dsparkPendingSeq := 0 }

end WaitState

/-- What has become of a wait; it has timed out when there is no answer. -/
abbrev Waited := Outcome WaitState Answer

/-! ### The compiled arm -/

/-- What `wait_cmp` returns. -/
inductive Kind
  | ok (seq status cmdType layer hbo dbytes top1 entropy : UInt32) (deg idense : UInt8)
  | err (seq : UInt32) (msg : List UInt8) (category : UInt32)
  | dspark (t : Cmp)
  | other (t : Cmp)
  | timeout
  deriving DecidableEq, Repr

/-- `wait_cmp`, with the slots it leaves. -/
def waitCmp (expected dsparkSeq : UInt32) : List Slot → Kind × List Slot
  | [] => (.timeout, [])
  | src :: rest =>
    let cmpType := src.u32 0
    let cmdSeq := src.u32 4
    if cmpType = cmpCheckpoint then waitCmp expected dsparkSeq rest
    else if cmpType = cmpError then (.err cmdSeq src.message (src.u32 16), rest)
    else
      let t : Cmp :=
        { cmpType := cmpType, cmdSeq := cmdSeq, gpuIdx := src.u32 8, status := src.u32 12
          cmdType := src.u32 16, layerIdx := src.u32 20, hostBufOffset := src.u32 24
          dataBytes := src.u32 28, top1Prob := src.u32 32, entropy := src.u32 36
          moeDegraded := src 41, indexerDense := src 42 }
      if dsparkSeq ≠ 0 ∧ cmdSeq = dsparkSeq then (.dspark t, rest)
      else if cmpType = expected then
        (.ok cmdSeq t.status t.cmdType t.layerIdx t.hostBufOffset t.dataBytes t.top1Prob t.entropy
          t.moeDegraded t.indexerDense, rest)
      else (.other t, rest)

theorem waitCmp_length (expected dsparkSeq : UInt32) (slots : List Slot) :
    (waitCmp expected dsparkSeq slots).1 = .timeout ∨
      (waitCmp expected dsparkSeq slots).2.length < slots.length := by
  induction slots with
  | nil => exact .inl rfl
  | cons src rest ih =>
    rw [waitCmp]
    dsimp only
    split
    · exact ih.imp id fun h => h.trans (Nat.lt_succ_self _)
    split
    · exact .inr (Nat.lt_succ_self _)
    split
    · exact .inr (Nat.lt_succ_self _)
    split
    · exact .inr (Nat.lt_succ_self _)
    · exact .inr (Nat.lt_succ_self _)

/-- What `wait` does with what `wait_cmp` returns. -/
def handleKind (expected : UInt32) (b : WaitState) : Kind → Option (Lib.Verdict WaitState Answer)
  | .ok seq status cmdType layer hbo dbytes top1 entropy deg idense =>
    let b := b.count deg idense
    if seq ∈ b.fireForgetSeqs then some (.go (b.forget seq))
    else some (.stop b (.returned ⟨expected, seq, 0, status, cmdType, layer, hbo, dbytes, top1,
      entropy, [], 0, deg, idense⟩))
  | .err seq msg category =>
    if seq ∈ b.fireForgetSeqs then some (.go (b.forget seq))
    else if seq = b.dsparkPendingSeq then some (.go (b.stashErr msg))
    else some (.stop b (.raised msg category))
  | .dspark t => some (.go ((b.count t.moeDegraded t.indexerDense).stashCmp t))
  | .other t =>
    let b := b.count t.moeDegraded t.indexerDense
    if t.cmdSeq ∈ b.fireForgetSeqs then some (.go (b.forget t.cmdSeq)) else some (.go b)
  | .timeout => none

/-- `wait` through `wait_cmp`; `read` completions have been read before. -/
def waitV2From (expected : UInt32) (read : ℕ) (b : WaitState) (slots : List Slot) : Waited :=
  let r := waitCmp expected b.dsparkPendingSeq slots
  let read := read + (slots.length - r.2.length)
  match handleKind expected b r.1 with
  | none => ⟨b, none, read⟩
  | some (.stop b a) => ⟨b, some a, read⟩
  | some (.go b) =>
    if r.2.length < slots.length then waitV2From expected read b r.2 else ⟨b, none, read⟩
termination_by slots.length

/-- `wait` through `wait_cmp`. -/
def waitV2 (expected : UInt32) (b : WaitState) (slots : List Slot) : Waited :=
  waitV2From expected 0 b slots

/-! ### The plain arm -/

/-- `_poll`, for a slot that is there. -/
def poll (b : WaitState) (src : Slot) : Cmp × WaitState :=
  let out := cmpPoll src
  (out, b.count out.moeDegraded out.indexerDense)

/-- What `wait` does with what `_poll` returns. -/
def handleCmp (expected : UInt32) (b : WaitState) (out : Cmp) : Lib.Verdict WaitState Answer :=
  if out.cmdSeq ∈ b.fireForgetSeqs then .go (b.forget out.cmdSeq)
  else if b.dsparkPendingSeq ≠ 0 ∧ out.cmdSeq = b.dsparkPendingSeq then
    if out.cmpType = cmpError then .go (b.stashErr out.errMsg) else .go (b.stashCmp out)
  else if out.cmpType = cmpError then .stop b (.raised out.errMsg out.errCategory)
  else if out.cmpType = cmpCheckpoint then .go b
  else if out.cmpType = expected then .stop b (.returned out)
  else .go b

/-- `wait` through `_poll`. -/
def waitPlain (expected : UInt32) (b : WaitState) : List Slot → Waited
  | [] => ⟨b, none, 0⟩
  | src :: rest =>
    let r := poll b src
    match handleCmp expected r.2 r.1 with
    | .go b => (waitPlain expected b rest).succ
    | .stop b a => ⟨b, some a, 1⟩

/-! ### One completion -/

/-- One completion in the plain arm. -/
def stepPlain (expected : UInt32) (b : WaitState) (src : Slot) : Lib.Verdict WaitState Answer :=
  handleCmp expected (poll b src).2 (poll b src).1

/-- One completion in the compiled arm. -/
def stepV2 (expected : UInt32) (b : WaitState) (src : Slot) : Lib.Verdict WaitState Answer :=
  if src.u32 0 = cmpCheckpoint then .go b
  else if src.u32 0 = cmpError then
    if src.u32 4 ∈ b.fireForgetSeqs then .go (b.forget (src.u32 4))
    else if src.u32 4 = b.dsparkPendingSeq then .go (b.stashErr src.message)
    else .stop b (.raised src.message (src.u32 16))
  else
    let out := cmpPoll src
    let b' := b.count out.moeDegraded out.indexerDense
    if b.dsparkPendingSeq ≠ 0 ∧ out.cmdSeq = b.dsparkPendingSeq then .go (b'.stashCmp out)
    else if out.cmdSeq ∈ b.fireForgetSeqs then .go (b'.forget out.cmdSeq)
    else if out.cmpType = expected then .stop b' (.returned { out with gpuIdx := 0 })
    else .go b'

theorem waitPlain_eq_consume (expected : UInt32) (b : WaitState) (slots : List Slot) :
    waitPlain expected b slots = consume (stepPlain expected) b slots := by
  induction slots generalizing b with
  | nil => rfl
  | cons src rest ih =>
    rw [waitPlain, consume, stepPlain]
    cases handleCmp expected (poll b src).2 (poll b src).1 with
    | go b' => exact congrArg Outcome.succ (ih b')
    | stop b' a => rfl

@[simp] theorem count_fireForgetSeqs (b : WaitState) (deg idense : UInt8) :
    (b.count deg idense).fireForgetSeqs = b.fireForgetSeqs := rfl

@[simp] theorem count_dsparkPendingSeq (b : WaitState) (deg idense : UInt8) :
    (b.count deg idense).dsparkPendingSeq = b.dsparkPendingSeq := rfl

variable {src : Slot}

theorem waitCmp_of_ne_checkpoint (expected : UInt32) (b : WaitState) (h : src.u32 0 ≠ cmpCheckpoint)
    (rest : List Slot) :
    (waitCmp expected b.dsparkPendingSeq (src :: rest)).2 = rest ∧
      handleKind expected b (waitCmp expected b.dsparkPendingSeq (src :: rest)).1 =
        some (stepV2 expected b src) := by
  rw [waitCmp, stepV2]
  simp only [if_neg h]
  by_cases herr : src.u32 0 = cmpError
  · simp only [if_pos herr, handleKind, true_and]
    split
    · rfl
    split
    · rfl
    · rfl
  have hpoll : cmpPoll src =
      { cmpType := src.u32 0, cmdSeq := src.u32 4, gpuIdx := src.u32 8, status := src.u32 12
        cmdType := src.u32 16, layerIdx := src.u32 20, hostBufOffset := src.u32 24
        dataBytes := src.u32 28, top1Prob := src.u32 32, entropy := src.u32 36
        moeDegraded := src 41, indexerDense := src 42 } := if_neg herr
  simp only [if_neg herr, hpoll]
  by_cases hd : b.dsparkPendingSeq ≠ 0 ∧ src.u32 4 = b.dsparkPendingSeq
  · simp [hd, handleKind]
  by_cases hexp : src.u32 0 = expected
  · simp only [if_neg hd, if_pos hexp, handleKind, count_fireForgetSeqs, true_and]
    by_cases hff : src.u32 4 ∈ b.fireForgetSeqs
    · simp [hff]
    · simp [hff, hexp]
  · simp only [if_neg hd, if_neg hexp, handleKind, count_fireForgetSeqs, true_and]
    by_cases hff : src.u32 4 ∈ b.fireForgetSeqs
    · simp [hff]
    · simp [hff]

/-- The outcome of a wait that has read something before. -/
def Waited.after (read : ℕ) (o : Waited) : Waited := { o with consumed := read + o.consumed }

theorem waitCmp_length_le (expected dsparkSeq : UInt32) (slots : List Slot) :
    (waitCmp expected dsparkSeq slots).2.length ≤ slots.length := by
  induction slots with
  | nil => exact le_rfl
  | cons src rest ih =>
    rw [waitCmp]
    dsimp only
    split
    · exact ih.trans (Nat.le_succ _)
    split
    · exact Nat.le_succ _
    split
    · exact Nat.le_succ _
    split
    · exact Nat.le_succ _
    · exact Nat.le_succ _

theorem waitV2From_checkpoint (expected : UInt32) (read : ℕ) (b : WaitState)
    (h : src.u32 0 = cmpCheckpoint) (rest : List Slot) :
    waitV2From expected read b (src :: rest) = waitV2From expected (read + 1) b rest := by
  have hcmp : waitCmp expected b.dsparkPendingSeq (src :: rest) =
      waitCmp expected b.dsparkPendingSeq rest := by
    rw [waitCmp]
    exact if_pos h
  have hle := waitCmp_length_le expected b.dsparkPendingSeq rest
  have hread : read + ((src :: rest).length - (waitCmp expected b.dsparkPendingSeq rest).2.length) =
      read + 1 + (rest.length - (waitCmp expected b.dsparkPendingSeq rest).2.length) := by
    rw [List.length_cons]
    omega
  rw [waitV2From, waitV2From]
  simp only [hcmp, hread]
  rcases waitCmp_length expected b.dsparkPendingSeq rest with htime | hlt
  · rw [htime]
    rfl
  · have hlt' : (waitCmp expected b.dsparkPendingSeq rest).2.length < (src :: rest).length :=
      hlt.trans (Nat.lt_succ_self _)
    simp only [hlt, hlt', if_true]

theorem waitV2From_eq_consume (expected : UInt32) (slots : List Slot) :
    ∀ (read : ℕ) (b : WaitState), waitV2From expected read b slots =
      Waited.after read (consume (stepV2 expected) b slots) := by
  induction slots with
  | nil =>
    intro read b
    rw [waitV2From]
    rfl
  | cons src rest ih =>
    intro read b
    have hsucc : ∀ o : Waited, Waited.after (read + 1) o = Waited.after read o.succ := fun o => by
      simp only [Waited.after, Outcome.succ, Nat.add_assoc, Nat.add_comm 1]
    by_cases hck : src.u32 0 = cmpCheckpoint
    · rw [waitV2From_checkpoint expected read b hck, ih, hsucc, consume, stepV2, if_pos hck]
    obtain ⟨hrest, hkind⟩ := waitCmp_of_ne_checkpoint expected b hck rest
    have hread : read + ((src :: rest).length - rest.length) = read + 1 := by
      rw [List.length_cons]
      omega
    rw [waitV2From, consume]
    simp only [hrest, hkind, hread]
    cases stepV2 expected b src with
    | go b' =>
      simp only [List.length_cons, Nat.lt_succ_self, if_true]
      rw [ih, hsucc]
    | stop b' a => rfl

/-- **One completion after another in the compiled arm.** -/
theorem waitV2_eq_consume (expected : UInt32) (b : WaitState) (slots : List Slot) :
    waitV2 expected b slots = consume (stepV2 expected) b slots := by
  rw [waitV2, waitV2From_eq_consume]
  simp [Waited.after]

/-! ### When the arms agree -/

/-- The number of a completion is that of the draft. -/
abbrev IsDraft (b : WaitState) (seq : UInt32) : Prop :=
  b.dsparkPendingSeq ≠ 0 ∧ seq = b.dsparkPendingSeq

/-- The arms agree about a slot: a checkpoint has the number of no command that is looked for, and
no witness bytes; an error has not the number 0 while no draft is pending; and any other completion
has not the number of both a fire-and-forget command and the draft, and is for GPU 0 if it is
returned. -/
def SlotClear (expected : UInt32) (b : WaitState) (src : Slot) : Prop :=
  if src.u32 0 = cmpCheckpoint then
    src.u32 4 ∉ b.fireForgetSeqs ∧ ¬ IsDraft b (src.u32 4) ∧ src 41 = 0 ∧ src 42 = 0
  else if src.u32 0 = cmpError then
    src.u32 4 ∈ b.fireForgetSeqs ∨ src.u32 4 ≠ 0 ∨ b.dsparkPendingSeq ≠ 0
  else
    (src.u32 4 ∈ b.fireForgetSeqs → ¬ IsDraft b (src.u32 4)) ∧
      (src.u32 0 = expected → src.u32 4 ∉ b.fireForgetSeqs → ¬ IsDraft b (src.u32 4) →
        src.u32 8 = 0)

theorem cmpPoll_of_ne_error (h : src.u32 0 ≠ cmpError) : cmpPoll src =
    { cmpType := src.u32 0, cmdSeq := src.u32 4, gpuIdx := src.u32 8, status := src.u32 12
      cmdType := src.u32 16, layerIdx := src.u32 20, hostBufOffset := src.u32 24
      dataBytes := src.u32 28, top1Prob := src.u32 32, entropy := src.u32 36
      moeDegraded := src 41, indexerDense := src 42 } := if_neg h

@[simp] theorem count_zero (b : WaitState) : b.count 0 0 = b := rfl

theorem count_eq_self_iff (b : WaitState) (deg idense : UInt8) :
    b.count deg idense = b ↔ deg = 0 ∧ idense = 0 := by
  constructor
  · intro h
    have hdeg := congrArg WaitState.moeDegradedLayers h
    have hdense := congrArg WaitState.indexerDenseSteps h
    simp only [WaitState.count] at hdeg hdense
    constructor
    · by_contra hne
      rw [if_pos hne] at hdeg
      omega
    · by_contra hne
      rw [if_pos hne] at hdense
      omega
  · rintro ⟨rfl, rfl⟩
    exact count_zero b

theorem forget_ne {b b' : WaitState} {seq : UInt32} (h : seq ∈ b.fireForgetSeqs) :
    b'.forget seq ≠ b := by
  intro heq
  rw [← heq] at h
  simp [WaitState.forget] at h

theorem stashCmp_ne {b b' : WaitState} (h : b.dsparkPendingSeq ≠ 0) (out : Cmp) :
    b'.stashCmp out ≠ b := by
  intro heq
  rw [← heq] at h
  exact h rfl

theorem stepV2_eq_iff_of_checkpoint (expected : UInt32) (b : WaitState)
    (h : src.u32 0 = cmpCheckpoint) : stepV2 expected b src = stepPlain expected b src ↔
      src.u32 4 ∉ b.fireForgetSeqs ∧ ¬ IsDraft b (src.u32 4) ∧ src 41 = 0 ∧ src 42 = 0 := by
  have hne : src.u32 0 ≠ cmpError := by rw [h]; decide
  have hne' : cmpCheckpoint ≠ cmpError := by decide
  rw [stepV2, if_pos h, stepPlain, poll, cmpPoll_of_ne_error hne]
  simp only [handleCmp, count_fireForgetSeqs, count_dsparkPendingSeq, h]
  by_cases hff : src.u32 4 ∈ b.fireForgetSeqs
  · rw [if_pos hff]
    exact iff_of_false (fun heq => forget_ne hff (Lib.Verdict.go.inj heq).symm) fun hc => hc.1 hff
  rw [if_neg hff]
  by_cases hd : IsDraft b (src.u32 4)
  · rw [if_pos hd, if_neg hne']
    exact iff_of_false (fun heq => stashCmp_ne hd.1 _ (Lib.Verdict.go.inj heq).symm)
      fun hc => hc.2.1 hd
  rw [if_neg hd, if_neg hne', if_pos trivial]
  constructor
  · intro heq
    exact ⟨hff, hd, (count_eq_self_iff b _ _).1 (Lib.Verdict.go.inj heq).symm⟩
  · rintro ⟨-, -, hbytes⟩
    rw [(count_eq_self_iff b _ _).2 hbytes]

theorem stepV2_eq_iff_of_error (expected : UInt32) (b : WaitState) (h : src.u32 0 = cmpError) :
    stepV2 expected b src = stepPlain expected b src ↔
      src.u32 4 ∈ b.fireForgetSeqs ∨ src.u32 4 ≠ 0 ∨ b.dsparkPendingSeq ≠ 0 := by
  have hne : src.u32 0 ≠ cmpCheckpoint := by rw [h]; decide
  have hpoll : cmpPoll src =
      { cmpType := src.u32 0, cmdSeq := src.u32 4, gpuIdx := src.u32 8, status := src.u32 12
        errMsg := src.message, errCategory := src.u32 16 } := if_pos h
  rw [stepV2, if_neg hne, if_pos h, stepPlain, poll, hpoll]
  simp only [handleCmp, count_zero, h, if_true]
  by_cases hff : src.u32 4 ∈ b.fireForgetSeqs
  · simp [hff]
  by_cases hseq : src.u32 4 = b.dsparkPendingSeq
  · by_cases hpend : b.dsparkPendingSeq = 0
    · -- the number 0 is taken for that of a draft
      simp [hseq, hpend, hpend ▸ hseq ▸ hff]
    · simp [hseq, hpend]
  · simp only [hff, hseq, if_false, and_false, false_or, true_iff]
    by_contra hcon
    rw [not_or, not_not, not_not] at hcon
    exact hseq (hcon.1.trans hcon.2.symm)

theorem stepV2_eq_iff_of_other (expected : UInt32) (b : WaitState) (hck : src.u32 0 ≠ cmpCheckpoint)
    (herr : src.u32 0 ≠ cmpError) :
    stepV2 expected b src = stepPlain expected b src ↔
      (src.u32 4 ∈ b.fireForgetSeqs → ¬ IsDraft b (src.u32 4)) ∧
        (src.u32 0 = expected → src.u32 4 ∉ b.fireForgetSeqs → ¬ IsDraft b (src.u32 4) →
          src.u32 8 = 0) := by
  rw [stepV2, if_neg hck, if_neg herr, stepPlain, poll, cmpPoll_of_ne_error herr]
  simp only [handleCmp, count_fireForgetSeqs, count_dsparkPendingSeq, if_neg herr, if_neg hck]
  by_cases hd : IsDraft b (src.u32 4)
  · rw [if_pos hd]
    by_cases hff : src.u32 4 ∈ b.fireForgetSeqs
    · -- the compiled arm keeps the completion, the plain arm drops it
      rw [if_pos hff]
      refine iff_of_false (fun heq => ?_) fun hc => hc.1 hff hd
      have hpend := congrArg WaitState.dsparkPendingSeq (Lib.Verdict.go.inj heq)
      exact hd.1 hpend.symm
    · rw [if_neg hff, if_pos hd]
      exact iff_of_true rfl ⟨fun h => absurd h hff, fun _ _ hno => absurd hd hno⟩
  · rw [if_neg hd]
    by_cases hff : src.u32 4 ∈ b.fireForgetSeqs
    · rw [if_pos hff, if_pos hff]
      exact iff_of_true rfl ⟨fun _ => hd, fun _ hno => absurd hff hno⟩
    rw [if_neg hff, if_neg hff, if_neg hd]
    by_cases hexp : src.u32 0 = expected
    · rw [if_pos hexp, if_pos hexp]
      constructor
      · intro heq
        have hout := Answer.returned.inj (Lib.Verdict.stop.inj heq).2
        exact ⟨fun h => absurd h hff, fun _ _ _ => (congrArg Cmp.gpuIdx hout).symm⟩
      · intro hc
        rw [hc.2 hexp hff hd]
    · rw [if_neg hexp, if_neg hexp]
      exact iff_of_true rfl ⟨fun h => absurd h hff, fun h => absurd h hexp⟩

/-- **The arms take the same step exactly if the slot is clear.** -/
theorem stepV2_eq_iff (expected : UInt32) (b : WaitState) (src : Slot) :
    stepV2 expected b src = stepPlain expected b src ↔ SlotClear expected b src := by
  unfold SlotClear
  by_cases hck : src.u32 0 = cmpCheckpoint
  · rw [if_pos hck]
    exact stepV2_eq_iff_of_checkpoint expected b hck
  rw [if_neg hck]
  by_cases herr : src.u32 0 = cmpError
  · rw [if_pos herr]
    exact stepV2_eq_iff_of_error expected b herr
  · rw [if_neg herr]
    exact stepV2_eq_iff_of_other expected b hck herr

/-- **The arms agree exactly if every slot that is reached is clear.**  They agree when they come to
the same outcome on every beginning of the stream, since the slots arrive one after another. -/
theorem wait_arms_agree_iff (expected : UInt32) (b : WaitState) (slots : List Slot) :
    (∀ p, p <+: slots → waitV2 expected b p = waitPlain expected b p) ↔
      AllReached (stepPlain expected) (SlotClear expected) b slots := by
  simp only [waitV2_eq_consume, waitPlain_eq_consume]
  exact consume_agree_iff.trans (allReached_iff (stepV2_eq_iff expected))

def cmpComputeDone : UInt32 := 0x0100

/-- An error with the number 0, and no message. -/
def errorZero : Slot := fun i => if i = 1 then 0xEE else 0

/-- **An error with the number 0 is swallowed** by the compiled arm, which takes it for that of a
draft although none is pending. -/
theorem error_zero_swallowed : ¬ ∀ (expected : UInt32) (b : WaitState) (slots : List Slot),
      waitV2 expected b slots = waitPlain expected b slots := by
  intro h
  have hone := congrArg Outcome.result (h cmpComputeDone {} [errorZero])
  rw [waitV2_eq_consume] at hone
  revert hone
  decide

end CompletionWait
end LayerStorm.Bridge
