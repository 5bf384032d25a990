import Mathlib
import LayerStorm.Lib.Run
import LayerStorm.Lib.SeqCounter

/-!
# The seqlock of the shared state segment

The daemon publishes its state into a shared segment, `StateSnapshot`, whose first
word is a sequence counter.  Its one writer brackets every group of updates in a
`StateTransaction`; transactions nest, and only the outermost `begin` and `end`
touch the counter, which is odd exactly while one is open.  The orchestrator reads
through `SnapshotTransaction` and its relatives: load the counter, give up if it
is odd, read the words, load the counter again and accept the words if it has not
changed.

The model interleaves the writer's and any number of readers' accesses one word at
a time, under sequential consistency (total store order and the fences of the
source).  The counter has 64 bits and wraps, so a reader cannot tell `2 ^ 63`
transactions from none.

## Main results

* `snapshotConsistent_of_run` — every run that stays within a wrap is consistent.
* `window_validates_iff` — only a transaction makes a read conflict.
* `wrapped_read_mixes` — beyond it, a validated read can mix two transactions.
-/

namespace LayerStorm.Ipc

open Function Lib
open GuardedRun List

variable {ι ω : Type*}

/-- The words of the segment after the counter, by offset. -/
abbrev Segment (ω : Type*) := ℕ → ω

/-- A call of one of the reading functions.  `read_f32_np` has the body of
`read_f32_array`; `read_snapshot` is `read_with_retry` over a copy. -/
inductive ReadCall
  /-- A `with SnapshotTransaction(..)` block around any reads. -/
  | transaction
  /-- `read_with_retry`: such a block around `fn`, retried on a conflict. -/
  | readWithRetry (maxRetries : ℕ)
  /-- `read_f32_array`: `count` consecutive words, copied in any order. -/
  | readF32Array (offset count maxRetries : ℕ)
  /-- `_read_single`: one word. -/
  | readSingle (offset maxRetries : ℕ)
  deriving DecidableEq

/-- How often the call tries; a bare transaction does not retry. -/
def ReadCall.retries : ReadCall → Option ℕ
  | .transaction => none
  | .readWithRetry maxRetries => some maxRetries
  | .readF32Array _ _ maxRetries => some maxRetries
  | .readSingle _ maxRetries => some maxRetries

def ReadCall.mayRead : ReadCall → ℕ → Bool
  | .transaction, _ => true
  | .readWithRetry _, _ => true
  | .readF32Array offset count _, a => offset ≤ a ∧ a < offset + count
  | .readSingle offset _, a => a = offset

/-- The call has read what it was asked for and goes on to validate. -/
def ReadCall.complete : ReadCall → List (ℕ × ω) → Bool
  | .transaction, _ => true
  | .readWithRetry _, _ => true
  | .readF32Array offset count _, got =>
    (List.range count).all fun i => got.any fun p => p.1 = offset + i
  | .readSingle offset _, got => got.any fun p => p.1 = offset

/-- What a call ends with. -/
inductive ReadOutcome (ω : Type*)
  /-- The words read, validated. -/
  | value (got : List (ℕ × ω))
  /-- `TransactionConflict` from a bare transaction. -/
  | conflict
  /-- `TimeoutError` after the last retry. -/
  | timeout
  /-- An exception of the caller's own code inside the block. -/
  | raised

inductive Reader (ω : Type*)
  /-- Between two calls. -/
  | idle
  /-- About to load the counter, in the given iteration of its loop. -/
  | starting (call : ReadCall) (iteration : ℕ)
  /-- Between the two loads: the counter it saw, the words it has read, and the
  number of transactions that were complete at the first load. -/
  | window (call : ReadCall) (iteration seq : ℕ) (got : List (ℕ × ω)) (since : ℕ)

/-- The segment, the writer and the readers.  `history` holds the segment's
contents at the start and after each completed outermost transaction. -/
structure SnapshotWorld (ι ω : Type*) where
  seqlock : ℕ
  segment : Segment ω
  counter : ℕ
  history : List (Segment ω)
  readers : ι → Reader ω
  outcomes : List (ι × ReadOutcome ω)

/-- A cleared segment. -/
def SnapshotWorld.init [Zero ω] : SnapshotWorld ι ω where
  seqlock := 0
  segment := fun _ => 0
  counter := 0
  history := [fun _ => 0]
  readers := fun _ => .idle
  outcomes := []

/-- The number of completed outermost transactions. -/
def SnapshotWorld.completed (w : SnapshotWorld ι ω) : ℕ := w.history.length - 1

/-- Moving one reader, without an outcome. -/
def SnapshotWorld.setReader [DecidableEq ι] (w : SnapshotWorld ι ω) (r : ι) (x : Reader ω) :
    SnapshotWorld ι ω :=
  { w with readers := update w.readers r x }

/-- Ending one reader's call. -/
def SnapshotWorld.finish [DecidableEq ι] (w : SnapshotWorld ι ω) (r : ι) (out : ReadOutcome ω) :
    SnapshotWorld ι ω :=
  { w with
    readers := update w.readers r .idle
    outcomes := w.outcomes ++ [(r, out)] }

/-- A conflict: the next iteration of the loop, or the exception it ends in. -/
def SnapshotWorld.onConflict [DecidableEq ι] (w : SnapshotWorld ι ω) (r : ι) (call : ReadCall)
    (iteration : ℕ) : SnapshotWorld ι ω :=
  match call.retries with
  | none => w.finish r .conflict
  | some maxRetries =>
    if iteration + 1 < maxRetries then w.setReader r (.starting call (iteration + 1))
    else w.finish r .timeout

/-- One access. -/
inductive SnapshotAction (ι ω : Type*)
  /-- `StateTransaction::begin`. -/
  | begin
  /-- The writer stores a word. -/
  | store (a : ℕ) (v : ω)
  /-- `StateTransaction::end`. -/
  | end
  /-- A reader enters a call. -/
  | enter (r : ι) (call : ReadCall)
  /-- A reader loads the counter at the start of its window. -/
  | loadSeq (r : ι)
  /-- A reader reads a word. -/
  | readWord (r : ι) (a : ℕ)
  /-- The code inside a reader's block raises, a `TransactionConflict` or another
  exception. -/
  | raise (r : ι) (isConflict : Bool)
  /-- A reader loads the counter at the end of its window and compares. -/
  | validate (r : ι)

/-- One access of the writer or of a reader.  The writer stores words only inside
a transaction, and `begin` and `end` are paired by `StateTransactionGuard`. -/
def snapshotStep [DecidableEq ι] (w : SnapshotWorld ι ω) :
    SnapshotAction ι ω → Option (SnapshotWorld ι ω)
  | .begin =>
    if w.counter = 0 then
      some { w with counter := 1, seqlock := (w.seqlock + 1) % 2 ^ 64 }
    else some { w with counter := w.counter + 1 }
  | .store a v =>
    if w.counter = 0 then none
    else some { w with segment := update w.segment a v }
  | .end =>
    if w.counter = 0 then none
    else if w.counter - 1 = 0 then
      some { w with
        counter := 0
        seqlock := (w.seqlock + 1) % 2 ^ 64
        history := w.history ++ [w.segment] }
    else some { w with counter := w.counter - 1 }
  | .enter r call =>
    match w.readers r with
    | .idle =>
      if call.retries = some 0 then some (w.finish r .timeout)
      else some (w.setReader r (.starting call 0))
    | _ => none
  | .loadSeq r =>
    match w.readers r with
    | .starting call iteration =>
      if w.seqlock % 2 = 1 then some (w.onConflict r call iteration)
      else some (w.setReader r (.window call iteration w.seqlock [] w.completed))
    | _ => none
  | .readWord r a =>
    match w.readers r with
    | .window call iteration seq got since =>
      if call.mayRead a then
        some (w.setReader r (.window call iteration seq (got ++ [(a, w.segment a)]) since))
      else none
    | _ => none
  | .raise r isConflict =>
    match w.readers r with
    | .window .transaction _ _ _ _ => some (w.finish r .raised)
    | .window (.readWithRetry maxRetries) iteration _ _ _ =>
      if isConflict then some (w.onConflict r (.readWithRetry maxRetries) iteration)
      else some (w.finish r .raised)
    | _ => none
  | .validate r =>
    match w.readers r with
    | .window call iteration seq got _ =>
      if call.complete got then
        if w.seqlock = seq then some (w.finish r (.value got))
        else some (w.onConflict r call iteration)
      else none
    | _ => none

/-- Every validated read returned words that were all present after the same
completed outermost transaction (or in the initial segment). -/
def SnapshotConsistent (w : SnapshotWorld ι ω) : Prop :=
  ∀ r got, (r, ReadOutcome.value got) ∈ w.outcomes → ∃ m ∈ w.history, ∀ p ∈ got, m p.1 = p.2

/-- A reader validates before `2 ^ 63` more outermost transactions have completed
since its first load of the counter.  The condition says nothing of any other
step. -/
def WindowWithinWrap (w : SnapshotWorld ι ω) : SnapshotAction ι ω → Prop
  | .validate r =>
    match w.readers r with
    | .window _ _ _ _ since => w.completed < since + 2 ^ 63
    | _ => True
  | _ => True

/-! ### The invariant -/

/-- What a reader inside its window knows, when `n` transactions are complete: it
saw the counter of an earlier moment, and if no transaction has begun since, its
words are those of the segment. -/
def ReaderInv (n counter : ℕ) (segment : Segment ω) : Reader ω → Prop
  | .window _ _ seq got since =>
    since ≤ n ∧ seq = 2 * since % 2 ^ 64 ∧ (since = n → counter = 0 → ∀ p ∈ got, segment p.1 = p.2)
  | _ => True

/-- **The seqlock invariant.** -/
structure SnapshotInv (w : SnapshotWorld ι ω) : Prop where
  nonempty : w.history ≠ []
  seqlock : w.seqlock = (2 * w.completed + if w.counter = 0 then 0 else 1) % 2 ^ 64
  last : w.counter = 0 → w.segment ∈ w.history
  readers : ∀ r, ReaderInv w.completed w.counter w.segment (w.readers r)
  consistent : SnapshotConsistent w

theorem SnapshotInv.init [Zero ω] : SnapshotInv (SnapshotWorld.init : SnapshotWorld ι ω) where
  nonempty := cons_ne_nil _ _
  seqlock := rfl
  last := fun _ => mem_singleton.2 rfl
  readers := fun _ => trivial
  consistent := fun _ _ h => absurd h not_mem_nil

variable {w : SnapshotWorld ι ω}

theorem seq_odd_iff (h : SnapshotInv w) : w.seqlock % 2 = 1 ↔ 0 < w.counter := by
  rw [h.seqlock]
  split <;> omega

/-! ### The writer's steps -/

variable {x : Reader ω}

theorem ReaderInv.opened {n counter counter' : ℕ} {segment segment' : Segment ω}
    (h : ReaderInv n counter segment x) (hpos : counter' ≠ 0) :
    ReaderInv n counter' segment' x := by
  cases x with
  | idle | starting call iteration => trivial
  | window call iteration seq got since =>
    obtain ⟨hle, hseq, _⟩ := h
    exact ⟨hle, hseq, fun _ hzero => absurd hzero hpos⟩

theorem ReaderInv.closed {n counter counter' : ℕ} {segment : Segment ω}
    (h : ReaderInv n counter segment x) : ReaderInv (n + 1) counter' segment x := by
  cases x with
  | idle | starting call iteration => trivial
  | window call iteration seq got since =>
    obtain ⟨hle, hseq, _⟩ := h
    exact ⟨Nat.le_succ_of_le hle, hseq, fun heq => absurd heq (by omega)⟩

variable {w' : SnapshotWorld ι ω}

theorem SnapshotInv.begin [DecidableEq ι] (h : SnapshotInv w)
    (hstep : snapshotStep w .begin = some w') : SnapshotInv w' := by
  simp only [snapshotStep] at hstep
  split at hstep
  · rename_i hzero
    cases hstep
    refine ⟨h.nonempty, ?_, fun hc => absurd hc Nat.one_ne_zero,
      fun r => (h.readers r).opened Nat.one_ne_zero, h.consistent⟩
    have hseq := h.seqlock
    rw [if_pos hzero] at hseq
    simp only [hseq, SnapshotWorld.completed, Nat.one_ne_zero, if_false]
    omega
  · rename_i hpos
    cases hstep
    refine ⟨h.nonempty, ?_, fun hc => absurd hc (Nat.succ_ne_zero _),
      fun r => (h.readers r).opened (Nat.succ_ne_zero _), h.consistent⟩
    have hseq := h.seqlock
    rw [if_neg hpos] at hseq
    simpa only [SnapshotWorld.completed, Nat.succ_ne_zero, if_false] using hseq

theorem SnapshotInv.store [DecidableEq ι] (h : SnapshotInv w) {a : ℕ} {v : ω}
    (hstep : snapshotStep w (.store a v) = some w') : SnapshotInv w' := by
  simp only [snapshotStep] at hstep
  split at hstep
  · cases hstep
  rename_i hpos
  cases hstep
  exact { h with last := fun hc => absurd hc hpos, readers := fun r => (h.readers r).opened hpos }

/-- `StateTransaction::end` keeps the invariant; the outermost one completes a
transaction. -/
theorem SnapshotInv.end [DecidableEq ι] (h : SnapshotInv w)
    (hstep : snapshotStep w .end = some w') : SnapshotInv w' := by
  simp only [snapshotStep] at hstep
  split at hstep
  · cases hstep
  rename_i hpos
  have hseq := h.seqlock
  rw [if_neg hpos] at hseq
  split at hstep
  · cases hstep
    have hlen : (w.history ++ [w.segment]).length - 1 = w.completed + 1 := by
      have := length_pos_iff.2 h.nonempty
      simp only [length_append, length_singleton, SnapshotWorld.completed]
      omega
    refine ⟨by simp, ?_, fun _ => by simp, fun r => ?_, ?_⟩
    · simp only [SnapshotWorld.completed, hlen, hseq, if_true]
      omega
    · simp only [SnapshotWorld.completed, hlen]
      exact (h.readers r).closed
    · intro r got hmem
      obtain ⟨m, hm, hgot⟩ := h.consistent r got hmem
      exact ⟨m, mem_append_left _ hm, hgot⟩
  · rename_i hne
    cases hstep
    refine ⟨h.nonempty, ?_, fun hc => absurd hc hne, fun r => (h.readers r).opened hne,
      h.consistent⟩
    simpa only [SnapshotWorld.completed, if_neg hne] using hseq

/-! ### The readers' steps -/

variable {r : ι}

section

variable (h : SnapshotInv w)
include h

theorem SnapshotInv.setReader [DecidableEq ι] (hx : ReaderInv w.completed w.counter w.segment x) :
    SnapshotInv (w.setReader r x) := by
  refine { h with readers := fun r' => ?_ }
  show ReaderInv w.completed w.counter w.segment (update w.readers r x r')
  by_cases hr : r' = r
  · subst hr
    rwa [update_self]
  · rw [update_of_ne hr]
    exact h.readers r'

theorem SnapshotInv.finish [DecidableEq ι] {out : ReadOutcome ω}
    (hout : ∀ got, out = .value got → ∃ m ∈ w.history, ∀ p ∈ got, m p.1 = p.2) :
    SnapshotInv (w.finish r out) := by
  have hidle := h.setReader (r := r) (x := .idle) trivial
  refine { hidle with consistent := ?_ }
  intro r' got hmem
  rcases mem_append.1 hmem with hold | hnew
  · exact h.consistent r' got hold
  · rw [mem_singleton, Prod.mk.injEq] at hnew
    exact hout got hnew.2.symm

theorem SnapshotInv.onConflict [DecidableEq ι] (r : ι) (call : ReadCall) (iteration : ℕ) :
    SnapshotInv (w.onConflict r call iteration) := by
  unfold SnapshotWorld.onConflict
  split
  · exact h.finish fun _ hout => by cases hout
  split
  · exact h.setReader trivial
  · exact h.finish fun _ hout => by cases hout

theorem SnapshotInv.window_clean {since : ℕ} (hle : since ≤ w.completed)
    (hwrap : w.completed < since + 2 ^ 63) (hseq : w.seqlock = 2 * since % 2 ^ 64) :
    since = w.completed ∧ w.counter = 0 := by
  have heq := h.seqlock
  rw [hseq] at heq
  split at heq
  · rename_i hzero
    exact ⟨by omega, hzero⟩
  · omega

theorem SnapshotInv.validated {call : ReadCall} {iteration seq since : ℕ} {got : List (ℕ × ω)}
    (hr : w.readers r = .window call iteration seq got since) (hwrap : w.completed < since + 2 ^ 63)
    (hseq : w.seqlock = seq) :
    ∃ m ∈ w.history, ∀ p ∈ got, m p.1 = p.2 := by
  have hreader := h.readers r
  rw [hr] at hreader
  obtain ⟨hle, rfl, hgot⟩ := hreader
  obtain ⟨heq, hzero⟩ := h.window_clean hle hwrap hseq
  exact ⟨w.segment, h.last hzero, hgot heq hzero⟩

theorem SnapshotInv.step [DecidableEq ι] {a : SnapshotAction ι ω} (hok : WindowWithinWrap w a)
    (hstep : snapshotStep w a = some w') : SnapshotInv w' := by
  cases a with
  | begin => exact h.begin hstep
  | store a v => exact h.store hstep
  | «end» => exact h.end hstep
  | enter r call =>
    simp only [snapshotStep] at hstep
    split at hstep
    · split at hstep <;> cases hstep
      · exact h.finish fun _ hout => by cases hout
      · exact h.setReader trivial
    · cases hstep
  | loadSeq r =>
    simp only [snapshotStep] at hstep
    split at hstep
    · split at hstep <;> cases hstep
      · exact h.onConflict r _ _
      rename_i hodd
      have hzero : w.counter = 0 := by
        rw [seq_odd_iff h] at hodd
        omega
      have hseq := h.seqlock
      rw [if_pos hzero] at hseq
      exact h.setReader ⟨Nat.le_refl _, hseq, fun _ _ p hp => absurd hp not_mem_nil⟩
    · cases hstep
  | readWord r a =>
    simp only [snapshotStep] at hstep
    split at hstep
    · rename_i call iteration seq got since hr
      have hreader := h.readers r
      rw [hr] at hreader
      obtain ⟨hle, hseq, hgot⟩ := hreader
      split at hstep
      · cases hstep
        refine h.setReader ⟨hle, hseq, fun heq hzero p hp => ?_⟩
        rcases mem_append.1 hp with hold | hnew
        · exact hgot heq hzero p hold
        · rw [mem_singleton] at hnew
          rw [hnew]
      · cases hstep
    · cases hstep
  | raise r isConflict =>
    simp only [snapshotStep] at hstep
    split at hstep
    · cases hstep
      exact h.finish fun _ hout => by cases hout
    · split at hstep <;> cases hstep
      · exact h.onConflict r _ _
      · exact h.finish fun _ hout => by cases hout
    · cases hstep
  | validate r =>
    simp only [snapshotStep] at hstep
    split at hstep
    · rename_i call iteration seq got since hr
      split at hstep
      · split at hstep <;> cases hstep
        · rename_i hseq
          simp only [WindowWithinWrap, hr] at hok
          refine h.finish fun got' hout => ?_
          cases hout
          exact h.validated hr hok hseq
        · exact h.onConflict r _ _
      · cases hstep
    · cases hstep

end

/-! ### Every run -/

/-- **Snapshot consistency.**  For one writer with nested transactions, any number
of readers and every interleaving of their accesses in which no window spans
`2 ^ 63` transactions, every validated read returns words that were all present
after the same completed outermost transaction. -/
theorem snapshotConsistent_of_run [DecidableEq ι] [Zero ω] {as : List (SnapshotAction ι ω)}
    {w : SnapshotWorld ι ω}
    (hrun : GuardedRun snapshotStep WindowWithinWrap SnapshotWorld.init as w) :
    SnapshotConsistent w :=
  (hrun.invariant (fun _ _ _ h hok hstep => h.step hok hstep) SnapshotInv.init).consistent

/-- A nested transaction, and a retried read of one word that overlaps it. -/
theorem snapshotConsistent_of_run_nested : ∃ as, ∃ w : SnapshotWorld Unit UInt32,
      GuardedRun snapshotStep WindowWithinWrap SnapshotWorld.init as w ∧
        w.outcomes = [((), .value [(5, 7)])] ∧ SnapshotConsistent w := by
  have hrun : GuardedRun snapshotStep WindowWithinWrap
      (SnapshotWorld.init : SnapshotWorld Unit UInt32)
      [.enter () (.readSingle 5 2), .begin, .begin, .store 5 7, .end, .loadSeq (), .end,
        .loadSeq (), .readWord () 5, .validate ()] _ :=
    cons trivial rfl (cons trivial rfl (cons trivial rfl
      (cons trivial rfl (cons trivial rfl (cons trivial rfl
        (cons trivial rfl (cons trivial rfl (cons trivial rfl
          (cons (show (1 : ℕ) < 1 + 2 ^ 63 by decide) rfl (nil _))))))))))
  exact ⟨_, _, hrun, rfl, snapshotConsistent_of_run hrun⟩

/-- **Only a transaction makes a read conflict.**  The two loads of a window agree exactly when
none is open and none has completed in between, and the words read are then the segment's own. -/
theorem window_validates_iff [DecidableEq ι] [Zero ω] {as : List (SnapshotAction ι ω)}
    (hrun : GuardedRun snapshotStep WindowWithinWrap SnapshotWorld.init as w) {call : ReadCall}
    {iteration seq since : ℕ} {got : List (ℕ × ω)}
    (hr : w.readers r = .window call iteration seq got since)
    (hwrap : w.completed < since + 2 ^ 63) :
    (w.seqlock = seq ↔ since = w.completed ∧ w.counter = 0) ∧
      (w.seqlock = seq → ∀ p ∈ got, w.segment p.1 = p.2) := by
  have h : SnapshotInv w :=
    hrun.invariant (fun _ _ _ h hok hstep => h.step hok hstep) SnapshotInv.init
  have hreader := h.readers r
  rw [hr] at hreader
  obtain ⟨hle, rfl, hgot⟩ := hreader
  refine ⟨⟨h.window_clean hle hwrap, fun ⟨heq, hzero⟩ => ?_⟩, fun hseq => ?_⟩
  · rw [h.seqlock, if_pos hzero, heq]
    rfl
  · obtain ⟨heq, hzero⟩ := h.window_clean hle hwrap hseq
    exact hgot heq hzero

/-- A word read before the transaction that changes it. -/
theorem window_validates_iff_changed : ∃ as, ∃ w : SnapshotWorld Unit UInt32,
    GuardedRun snapshotStep WindowWithinWrap SnapshotWorld.init as w ∧
      w.readers () = .window .transaction 0 0 [(5, 0)] 0 ∧ w.segment 5 = 7 ∧
        (w.seqlock = 0 ↔ 0 = w.completed ∧ w.counter = 0) := by
  have hrun : GuardedRun snapshotStep WindowWithinWrap
      (SnapshotWorld.init : SnapshotWorld Unit UInt32)
      [.enter () .transaction, .loadSeq (), .readWord () 5, .begin, .store 5 7, .end] _ :=
    cons trivial rfl (cons trivial rfl (cons trivial rfl
      (cons trivial rfl (cons trivial rfl (cons trivial rfl (nil _))))))
  exact ⟨_, _, hrun, rfl, rfl, (window_validates_iff hrun
    (r := ()) rfl (by decide)).1⟩

/-! ### A window of a whole wrap -/

/-- A reader has read word 0 before the first transaction, which sets words 0 and
1; then `n` empty transactions follow. -/
def laps (n : ℕ) : SnapshotWorld Unit UInt32 where
  seqlock := (2 + 2 * n) % 2 ^ 64
  segment := update (update (fun _ => 0) 0 1) 1 1
  counter := 0
  history := (fun _ => 0) ::
    List.replicate (n + 1) (update (update (fun _ => 0) 0 1) 1 1)
  readers := fun _ => .window .transaction 0 0 [(0, 0)] 0
  outcomes := []

theorem laps_succ (n : ℕ) : ∃ as, Run snapshotStep (laps n) as (laps (n + 1)) := by
  have hend : laps (n + 1) = { laps n with
      seqlock := (((2 + 2 * n) % 2 ^ 64 + 1) % 2 ^ 64 + 1) % 2 ^ 64
      history := (laps n).history ++ [(laps n).segment] } := by
    have hseq : (2 + 2 * (n + 1)) % 2 ^ 64 =
        (((2 + 2 * n) % 2 ^ 64 + 1) % 2 ^ 64 + 1) % 2 ^ 64 := by omega
    simp only [laps, hseq, replicate_succ', cons_append]
  rw [hend]
  exact ⟨[.begin, .end], Run.cons rfl (Run.cons rfl (nil _))⟩

theorem laps_zero_run : ∃ as, Run snapshotStep SnapshotWorld.init as (laps 0) :=
  ⟨[.enter () .transaction, .loadSeq (), .readWord () 0, .begin, .store 0 1, .store 1 1, .end],
    Run.cons rfl (Run.cons rfl (Run.cons rfl (Run.cons rfl (Run.cons rfl (Run.cons rfl
      (Run.cons rfl (nil _)))))))⟩

theorem laps_validate {n : ℕ} (hn : (2 + 2 * n) % 2 ^ 64 = 0) :
    ∃ as w, Run snapshotStep (laps n) as w ∧ w.history = (laps n).history ∧
      w.outcomes = [((), .value [(0, 0), (1, 1)])] := by
  have hread : snapshotStep (laps n) (.readWord () 1) =
      some { laps n with readers := fun _ => .window .transaction 0 0 [(0, 0), (1, 1)] 0 } := rfl
  have hval : snapshotStep
      { laps n with readers := fun _ => .window .transaction 0 0 [(0, 0), (1, 1)] 0 }
      (.validate ()) =
      some { laps n with
        readers := fun _ => .idle
        outcomes := [((), .value [(0, 0), (1, 1)])] } := by
    simp only [laps, hn]
    rfl
  exact ⟨_, _, Run.cons hread (Run.cons hval (nil _)), rfl, rfl⟩

/-- **A window of a whole wrap.**  When `2 ^ 63` transactions complete between a
reader's two loads, the counter is back where it was and the read is validated,
though it took word 0 from before the first of them and word 1 from after it. -/
theorem wrapped_read_mixes : ∃ as, ∃ w : SnapshotWorld Unit UInt32,
      Run snapshotStep SnapshotWorld.init as w ∧ ¬ SnapshotConsistent w := by
  obtain ⟨as, has⟩ := laps_zero_run
  obtain ⟨bs, hbs⟩ := Run.iterate laps_succ (2 ^ 63 - 1)
  obtain ⟨cs, w, hcs, hhist, hout⟩ := laps_validate (n := 2 ^ 63 - 1) (by decide)
  refine ⟨_, w, (has.append hbs).append hcs, fun hcons => ?_⟩
  obtain ⟨m, hm, hgot⟩ := hcons () [(0, 0), (1, 1)] (by rw [hout]; exact mem_singleton.2 rfl)
  have h0 : m 0 = 0 := hgot (0, 0) (by simp)
  have h1 : m 1 = 1 := hgot (1, 1) (by simp)
  rw [hhist] at hm
  -- the initial segment has word 1 clear, every later one has word 0 set
  rcases mem_cons.1 hm with rfl | hm
  · exact absurd h1 (by decide)
  · rw [eq_of_mem_replicate hm] at h0
    exact absurd h0 (by decide)

end LayerStorm.Ipc
