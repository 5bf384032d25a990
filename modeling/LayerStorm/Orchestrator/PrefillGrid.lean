import LayerStorm.Lib.Strides

/-!
# Prefill on the absolute grid

The body of a prompt, all of it but the last token, is prefilled from the reuse point on, in chunks,
in superchunks, or, when little is left of a prompt on the superchunk path, in small chunks.  Each
command ends at a multiple of its stride.  A frozen holder of the prefix up to the last multiple of
the grid is registered on the way, and one of the whole body on the superchunk path.

A command that is refused for want of pages changes nothing and is issued again.

## Main results

* `prefill_on_grid` — the body is covered on the grid.
-/

namespace LayerStorm.Orchestrator

open Lib

variable {τ : Type*}

/-! ### The model -/

/-- The settings of the prefill; both chunk sizes are at least one. -/
structure PrefillConfig where
  prefillChunk : ℕ
  superchunk : Bool
  /-- Zero stands for the capacity of the engine. -/
  superchunkStride : ℕ
  moeBatchCapacity : ℕ
  /-- Zero disables the downgrade. -/
  scMinTokens : ℕ
  scSmallChunk : ℕ
  prefixCache : Bool
  kdaCkptInterval : Option ℕ
  mtp : Bool
  prefillChunk_pos : 0 < prefillChunk
  scSmallChunk_pos : 0 < scSmallChunk

/-- The three prefill loops. -/
inductive PrefillMode
  | chunked
  | superchunk
  | small
  deriving DecidableEq

def maxBatchDescriptors : ℕ := 512

/-- The sub-chunk size that the bridge uses. -/
def subSize (sub : ℕ) : ℕ := max 1 (min sub maxBatchDescriptors)

/-- The sub-chunks of a superchunk of `n` tokens: offsets and lengths. -/
def subchunks (sub pos0 n : ℕ) : List (ℕ × ℕ) :=
  rounds (fun off => strideLen (subSize sub) (pos0 + n) (pos0 + off)) n n 0

inductive PrefillCommand (τ : Type*)
  | chunk (toks : List τ) (pos0 : ℕ)
  | superchunk (toks : List τ) (pos0 : ℕ) (subchunks : List (ℕ × ℕ))
  deriving DecidableEq

namespace PrefillCommand

def toks : PrefillCommand τ → List τ
  | chunk toks _ => toks
  | superchunk toks _ _ => toks

/-- The first position of a command. -/
def pos0 : PrefillCommand τ → ℕ
  | chunk _ pos0 => pos0
  | superchunk _ pos0 _ => pos0

def covers (c : PrefillCommand τ) : ℕ × ℕ := (c.pos0, c.pos0 + c.toks.length)

end PrefillCommand

/-- What happens during the prefill. -/
inductive PrefillEvent (τ : Type*)
  /-- A command that is refused for want of pages. -/
  | refused (c : PrefillCommand τ)
  | command (c : PrefillCommand τ)
  /-- `mtp_prefill_fill`. -/
  | fill (toks : List τ) (pos : ℕ)
  /-- `kda_ckpt_capture`. -/
  | capture (pos : ℕ)
  /-- `pc_register`. -/
  | register (toks : List τ)

/-- How a turn of a loop ends: it is cancelled, its command fails after some refusals, one of the
fills behind the command fails, or it is done. -/
inductive TurnResult
  | cancelled
  | failed (refusals : ℕ)
  | fillFailed (refusals fills : ℕ)
  | done (refusals : ℕ)

structure PrefillRun (τ : Type*) where
  events : List (PrefillEvent τ)
  pos : ℕ
  raised : Bool

namespace PrefillConfig

variable (cfg : PrefillConfig) (prompt : List τ)

def scStride : ℕ :=
  if 0 < cfg.superchunkStride then min cfg.superchunkStride cfg.moeBatchCapacity
  else cfg.moeBatchCapacity

def scPath : Bool := cfg.superchunk && decide (0 < cfg.scStride)

def grid : ℕ := if cfg.scPath then cfg.scStride else cfg.prefillChunk

/-- The registration point. -/
def gridLen (pre : ℕ) : ℕ := pre / cfg.grid * cfg.grid

/-- Which loop runs; few tokens on the superchunk path are prefilled in small chunks. -/
def mode (pre reuse : ℕ) : PrefillMode :=
  if cfg.scPath then
    if 0 < cfg.scMinTokens ∧ pre - reuse < cfg.scMinTokens then .small else .superchunk
  else .chunked

def stride : PrefillMode → ℕ
  | .chunked => cfg.prefillChunk
  | .superchunk => cfg.scStride
  | .small => cfg.scSmallChunk

/-- The length of the chunk at a position; the small chunks do not go past the registration
point. -/
def chunkLen (mode : PrefillMode) (pre pos : ℕ) : ℕ :=
  let n := strideLen (cfg.stride mode) pre pos
  if mode = .small ∧ pos < cfg.gridLen pre then min n (cfg.gridLen pre - pos) else n

def command (mode : PrefillMode) (pos n : ℕ) : PrefillCommand τ :=
  let toks := (prompt.drop pos).take n
  if mode = .superchunk then .superchunk toks pos (subchunks cfg.prefillChunk pos toks.length)
  else .chunk toks pos

def mtpFillChunk (pos n : ℕ) : List (PrefillEvent τ) :=
  if cfg.mtp then
    (chunks 64 n).map fun s => .fill ((prompt.drop (pos + s.1 + 1)).take s.2) (pos + s.1)
  else []

def registerGrid (pos : ℕ) : List (PrefillEvent τ) :=
  let gridLen := cfg.gridLen (prompt.length - 1)
  if cfg.prefixCache = true ∧ pos = gridLen ∧ 0 < gridLen then [.register (prompt.take gridLen)]
  else []

/-- The checkpoint behind a chunk. -/
def captureAt (pos : ℕ) : List (PrefillEvent τ) :=
  match cfg.kdaCkptInterval with
  | some interval =>
    if cfg.prefixCache = true ∧ pos < prompt.length - 1 ∧ pos ≠ cfg.gridLen (prompt.length - 1) ∧
        pos % interval = 0 then [.capture pos]
    else []
  | none => []

def turnCommand (mode : PrefillMode) (pos : ℕ) : PrefillCommand τ :=
  cfg.command prompt mode pos (cfg.chunkLen mode (prompt.length - 1) pos)

/-- A turn up to its command, which is refused so many times. -/
def tried (mode : PrefillMode) (pos refusals : ℕ) : List (PrefillEvent τ) :=
  cfg.registerGrid prompt pos ++ List.replicate refusals (.refused (cfg.turnCommand prompt mode pos))

def prefillLoop (mode : PrefillMode) : List TurnResult → ℕ → PrefillRun τ
  | [], pos => ⟨[], pos, false⟩
  | result :: results, pos =>
    let pre := prompt.length - 1
    if pos < pre then
      let n := cfg.chunkLen mode pre pos
      match result with
      | .cancelled => ⟨cfg.registerGrid prompt pos, pos, true⟩
      | .failed refusals => ⟨cfg.tried prompt mode pos refusals, pos, true⟩
      | .fillFailed refusals fills =>
        ⟨cfg.tried prompt mode pos refusals ++ .command (cfg.turnCommand prompt mode pos) ::
          (cfg.mtpFillChunk prompt pos n).take fills, pos, true⟩
      | .done refusals =>
        let run := prefillLoop mode results (pos + n)
        { run with events := cfg.tried prompt mode pos refusals ++
            .command (cfg.turnCommand prompt mode pos) :: (cfg.mtpFillChunk prompt pos n ++
              cfg.captureAt prompt (pos + n) ++ run.events) }
    else ⟨[], pos, false⟩

/-- The registrations behind a loop: on the superchunk path also that of the whole body. -/
def registerEnd (mode : PrefillMode) (pos : ℕ) : List (PrefillEvent τ) :=
  let pre := prompt.length - 1
  cfg.registerGrid prompt pos ++
    if mode ≠ .chunked ∧ cfg.prefixCache = true ∧ 0 < pre ∧ pre ≠ cfg.gridLen pre then
      [.register (prompt.take pre)]
    else []

/-- The prefill of `_generate`, from the reuse point on. -/
def prefill (reuse : ℕ) (results : List TurnResult) : PrefillRun τ :=
  let pre := prompt.length - 1
  let mode := cfg.mode pre reuse
  let run := cfg.prefillLoop prompt mode results reuse
  if run.raised = true ∨ run.pos < pre then run
  else { run with events := run.events ++ cfg.registerEnd prompt mode run.pos }

end PrefillConfig

namespace PrefillEvent

/-- The command of an event, unless it was refused. -/
def command? : PrefillEvent τ → Option (PrefillCommand τ)
  | command c => some c
  | _ => none

def advance (frontier : ℕ) : PrefillEvent τ → ℕ
  | command c => c.covers.2
  | _ => frontier

end PrefillEvent

/-- The commands among some events, without those that were refused. -/
def commandsOf (events : List (PrefillEvent τ)) : List (PrefillCommand τ) :=
  events.filterMap PrefillEvent.command?

/-- The commands that were carried out. -/
def PrefillRun.commands (run : PrefillRun τ) : List (PrefillCommand τ) := commandsOf run.events

def PrefillRun.Finished (run : PrefillRun τ) (pre : ℕ) : Prop := run.raised = false ∧ pre ≤ run.pos

instance (run : PrefillRun τ) (pre : ℕ) : Decidable (run.Finished pre) :=
  inferInstanceAs (Decidable (_ ∧ _))

/-- The frontier of the sequence behind some events. -/
def frontier (reuse : ℕ) (events : List (PrefillEvent τ)) : ℕ :=
  events.foldl PrefillEvent.advance reuse

/-! ### The chunks -/

namespace PrefillConfig

variable {cfg : PrefillConfig} {prompt : List τ} {mode : PrefillMode} {pre reuse pos : ℕ}

theorem grid_pos (cfg : PrefillConfig) : 0 < cfg.grid := by
  unfold grid scPath
  by_cases h : (cfg.superchunk && decide (0 < cfg.scStride)) = true
  · rw [if_pos h]
    rw [Bool.and_eq_true, decide_eq_true_eq] at h
    exact h.2
  · rw [if_neg h]
    exact cfg.prefillChunk_pos

theorem stride_pos (cfg : PrefillConfig) (pre reuse : ℕ) : 0 < cfg.stride (cfg.mode pre reuse) := by
  have hgrid := cfg.grid_pos
  unfold grid at hgrid
  unfold mode
  by_cases hpath : cfg.scPath = true
  · rw [if_pos hpath] at hgrid ⊢
    by_cases hsmall : 0 < cfg.scMinTokens ∧ pre - reuse < cfg.scMinTokens
    · rw [if_pos hsmall]
      exact cfg.scSmallChunk_pos
    · rw [if_neg hsmall]
      exact hgrid
  · rw [if_neg hpath]
    exact cfg.prefillChunk_pos

theorem chunkLen_le (cfg : PrefillConfig) (mode : PrefillMode) (pre pos : ℕ) :
    cfg.chunkLen mode pre pos ≤ strideLen (cfg.stride mode) pre pos := by
  unfold chunkLen
  split
  · exact Nat.min_le_left _ _
  · exact le_rfl

theorem chunkLen_advances (hmode : 0 < cfg.stride mode) : Advances (cfg.chunkLen mode pre) pre := by
  intro p hp
  have hpos := strideLen_pos hmode hp
  have hle := strideLen_le (cfg.stride mode) pre p
  have hlen := cfg.chunkLen_le mode pre p
  refine ⟨?_, by omega⟩
  unfold chunkLen
  split
  · next h => exact lt_min hpos (by omega)
  · exact hpos

theorem chunkLen_end (hmode : 0 < cfg.stride mode) (hpos : pos ≤ pre) :
    pos + cfg.chunkLen mode pre pos = pre ∨ cfg.stride mode ∣ pos + cfg.chunkLen mode pre pos ∨
      (mode = .small ∧ pos + cfg.chunkLen mode pre pos = cfg.gridLen pre) := by
  have hend := strideLen_end hmode hpos
  unfold chunkLen
  split
  · next h =>
    rcases min_choice (strideLen (cfg.stride mode) pre pos) (cfg.gridLen pre - pos) with hn | hn
    · rw [hn]
      exact hend.imp_right .inl
    · rw [hn]
      exact .inr (.inr ⟨h.1, by omega⟩)
  · exact hend.imp_right .inl

theorem chunkLen_met (hreuse : cfg.stride mode ∣ reuse) :
    ∀ q < reuse, q + cfg.chunkLen mode pre q ≤ reuse := by
  intro q hq
  have hround : q + strideLen (cfg.stride mode) pre q ≤ reuse := strideLen_le_of_dvd hreuse hq
  have hlen := cfg.chunkLen_le mode pre q
  omega

theorem chunkLen_met_gridLen :
    ∀ q < cfg.gridLen pre, q + cfg.chunkLen .small pre q ≤ cfg.gridLen pre := by
  intro q hq
  unfold chunkLen
  rw [if_pos ⟨rfl, hq⟩]
  have hmin := Nat.min_le_right (strideLen (cfg.stride .small) pre q) (cfg.gridLen pre - q)
  omega

/-! ### The commands -/

theorem command_toks (n : ℕ) : (cfg.command prompt mode pos n).toks = (prompt.drop pos).take n := by
  unfold command
  split <;> rfl

theorem command_pos0 (n : ℕ) : (cfg.command prompt mode pos n).pos0 = pos := by
  unfold command
  split <;> rfl

theorem command_covers {n : ℕ} (hn : pos + n ≤ prompt.length - 1) :
    (cfg.command prompt mode pos n).covers = span (pos, n) := by
  unfold PrefillCommand.covers span
  rw [command_toks, command_pos0, List.length_take_of_le]
  rw [List.length_drop]
  omega

def allCommands (cfg : PrefillConfig) (prompt : List τ) (mode : PrefillMode) (pos : ℕ) :
    List (PrefillCommand τ) :=
  let pre := prompt.length - 1
  (rounds (cfg.chunkLen mode pre) pre pre pos).map fun r => cfg.command prompt mode r.1 r.2

theorem allCommands_of_ge (hpos : prompt.length - 1 ≤ pos) :
    cfg.allCommands prompt mode pos = [] := by
  unfold allCommands
  dsimp only
  rw [rounds_of_ge hpos]
  rfl

theorem allCommands_of_lt (hmode : 0 < cfg.stride mode) (hpos : pos < prompt.length - 1) :
    cfg.allCommands prompt mode pos =
      cfg.command prompt mode pos (cfg.chunkLen mode (prompt.length - 1) pos) ::
        cfg.allCommands prompt mode (pos + cfg.chunkLen mode (prompt.length - 1) pos) := by
  have hadv := @chunkLen_advances cfg mode (prompt.length - 1) hmode
  have hlen := (hadv pos hpos).1
  unfold allCommands
  dsimp only
  rw [rounds_of_lt (by omega) hpos, List.map_cons,
    @rounds_fuel _ _ hadv (prompt.length - 1 - 1) (prompt.length - 1) _ (by omega) (by omega)]

@[simp] theorem commandsOf_append (a b : List (PrefillEvent τ)) :
    commandsOf (a ++ b) = commandsOf a ++ commandsOf b := List.filterMap_append

@[simp] theorem commandsOf_cons (c : PrefillCommand τ) (events : List (PrefillEvent τ)) :
    commandsOf (.command c :: events) = c :: commandsOf events := rfl

variable {events : List (PrefillEvent τ)}

theorem commandsOf_eq_nil (h : ∀ e ∈ events, e.command? = none) : commandsOf events = [] :=
  List.filterMap_eq_nil_iff.2 h

variable {e : PrefillEvent τ}

theorem mem_registerGrid (he : e ∈ cfg.registerGrid prompt pos) :
    e = .register (prompt.take pos) ∧ pos = cfg.gridLen (prompt.length - 1) := by
  unfold registerGrid at he
  dsimp only at he
  split at he
  · next h => exact ⟨h.2.1 ▸ List.mem_singleton.1 he, h.2.1⟩
  · exact absurd he List.not_mem_nil

@[simp] theorem commandsOf_registerGrid : commandsOf (cfg.registerGrid prompt pos) = [] :=
  commandsOf_eq_nil fun e he => by
    rw [(mem_registerGrid he).1]
    rfl

@[simp] theorem commandsOf_tried (k : ℕ) : commandsOf (cfg.tried prompt mode pos k) = [] := by
  unfold tried
  rw [commandsOf_append, commandsOf_registerGrid, List.nil_append]
  refine commandsOf_eq_nil fun e he => ?_
  rw [List.eq_of_mem_replicate he]
  rfl

theorem mem_mtpFillChunk {n : ℕ} (he : e ∈ cfg.mtpFillChunk prompt pos n) :
    ∃ toks p, e = .fill toks p := by
  unfold mtpFillChunk at he
  split at he
  · obtain ⟨s, -, rfl⟩ := List.mem_map.1 he
    exact ⟨_, _, rfl⟩
  · exact absurd he List.not_mem_nil

theorem mem_captureAt (he : e ∈ cfg.captureAt prompt pos) : e = .capture pos := by
  unfold captureAt at he
  cases hiv : cfg.kdaCkptInterval with
  | none =>
    rw [hiv] at he
    exact absurd he List.not_mem_nil
  | some interval =>
    rw [hiv] at he
    dsimp only at he
    split at he
    · exact List.mem_singleton.1 he
    · exact absurd he List.not_mem_nil

@[simp] theorem commandsOf_fills (n : ℕ) : commandsOf (cfg.mtpFillChunk prompt pos n) = [] :=
  commandsOf_eq_nil fun e he => by
    obtain ⟨_, _, rfl⟩ := mem_mtpFillChunk he
    rfl

@[simp] theorem commandsOf_fills_take (n k : ℕ) :
    commandsOf ((cfg.mtpFillChunk prompt pos n).take k) = [] :=
  commandsOf_eq_nil fun e he => by
    obtain ⟨_, _, rfl⟩ := mem_mtpFillChunk (List.mem_of_mem_take he)
    rfl

@[simp] theorem commandsOf_captureAt : commandsOf (cfg.captureAt prompt pos) = [] :=
  commandsOf_eq_nil fun e he => by
    rw [mem_captureAt he]
    rfl

@[simp] theorem commandsOf_registerEnd : commandsOf (cfg.registerEnd prompt mode pos) = [] := by
  unfold registerEnd
  rw [commandsOf_append, commandsOf_registerGrid]
  split <;> rfl

/-- **The commands of a loop** are the first ones of all, and all of them if the loop ends. -/
theorem prefillLoop_commands (hmode : 0 < cfg.stride mode) (results : List TurnResult) :
    ∀ pos, pos ≤ prompt.length - 1 →
    let run := cfg.prefillLoop prompt mode results pos
    run.commands <+: cfg.allCommands prompt mode pos ∧ run.pos ≤ prompt.length - 1 ∧
      (run.Finished (prompt.length - 1) → run.commands = cfg.allCommands prompt mode pos) := by
  induction results with
  | nil =>
    intro pos hpos
    refine ⟨List.nil_prefix, hpos, fun hfin => ?_⟩
    have hpast : prompt.length - 1 ≤ pos := hfin.2
    rw [allCommands_of_ge hpast]
    rfl
  | cons result results ih =>
    intro pos hpos
    rw [prefillLoop]
    by_cases hlt : pos < prompt.length - 1
    · have hend := (@chunkLen_advances cfg mode (prompt.length - 1) hmode pos hlt).2
      have hall := allCommands_of_lt hmode hlt
      rw [if_pos hlt, hall]
      cases result with
      | cancelled | failed refusals =>
        refine ⟨?_, hpos, fun hfin => (by cases hfin.1)⟩
        unfold PrefillRun.commands
        simp
      | fillFailed refusals fills =>
        refine ⟨?_, hpos, fun hfin => (by cases hfin.1)⟩
        unfold PrefillRun.commands
        simp [turnCommand]
      | done refusals =>
        obtain ⟨hinitial, hle, hfull⟩ := ih _ hend
        unfold PrefillRun.commands at hinitial hfull ⊢
        simp only [commandsOf_append, commandsOf_tried, commandsOf_cons, commandsOf_fills,
          commandsOf_captureAt, List.nil_append]
        refine ⟨List.cons_prefix_cons.2 ⟨rfl, hinitial⟩, hle, fun hfin => ?_⟩
        rw [hfull hfin]
        rfl
    · rw [if_neg hlt, allCommands_of_ge (not_lt.1 hlt)]
      exact ⟨List.nil_prefix, hpos, fun _ => rfl⟩

theorem prefill_commands (cfg : PrefillConfig) (hreuse : reuse ≤ prompt.length - 1)
    (results : List TurnResult) :
    let run := cfg.prefill prompt reuse results
    let all := cfg.allCommands prompt (cfg.mode (prompt.length - 1) reuse) reuse
    run.commands <+: all ∧ (run.Finished (prompt.length - 1) → run.commands = all) := by
  obtain ⟨hinitial, -, hfull⟩ := prefillLoop_commands (cfg.stride_pos (prompt.length - 1) reuse)
    results reuse hreuse
  unfold prefill
  dsimp only at hinitial hfull ⊢
  split
  · exact ⟨hinitial, hfull⟩
  unfold PrefillRun.commands at hinitial hfull ⊢
  rw [commandsOf_append, commandsOf_registerEnd, List.append_nil]
  exact ⟨hinitial, hfull⟩

/-! ### The registrations -/

def RegistersAt (prompt : List τ) : ℕ → List (PrefillEvent τ) → Prop
  | _, [] => True
  | f, e :: events =>
    (∀ toks, e = .register toks → toks = prompt.take f ∧ f ≤ prompt.length) ∧
      RegistersAt prompt (e.advance f) events

theorem registersAt_append {a b : List (PrefillEvent τ)} : ∀ {f : ℕ},
    RegistersAt prompt f (a ++ b) ↔ RegistersAt prompt f a ∧ RegistersAt prompt (frontier f a) b := by
  induction a with
  | nil => exact fun {f} => ⟨fun h => ⟨trivial, h⟩, fun h => h.2⟩
  | cons e a ih => exact fun {f} => (and_congr_right fun _ => ih).trans and_assoc.symm

theorem registersAt_quiet {f : ℕ} (h : ∀ e ∈ events, e.advance f = f ∧ ∀ toks, e ≠ .register toks) :
    RegistersAt prompt f events ∧ frontier f events = f := by
  induction events with
  | nil => exact ⟨trivial, rfl⟩
  | cons e events ih =>
    obtain ⟨⟨hadv, hreg⟩, hrest⟩ := List.forall_mem_cons.1 h
    obtain ⟨hregs, hfront⟩ := ih hrest
    refine ⟨⟨fun toks he => absurd he (hreg toks), ?_⟩, ?_⟩
    · rw [hadv]
      exact hregs
    · unfold frontier at hfront ⊢
      rw [List.foldl_cons, hadv, hfront]

theorem registersAt_grid (cfg : PrefillConfig) (hpos : pos ≤ prompt.length) :
    RegistersAt prompt pos (cfg.registerGrid prompt pos) ∧
      frontier pos (cfg.registerGrid prompt pos) = pos := by
  unfold registerGrid
  dsimp only
  split
  · next h =>
    refine ⟨⟨fun toks he => ?_, trivial⟩, rfl⟩
    cases he
    exact ⟨by rw [← h.2.1], hpos⟩
  · exact ⟨trivial, rfl⟩

theorem registersAt_tried (cfg : PrefillConfig) (mode : PrefillMode) (hpos : pos ≤ prompt.length)
    (k : ℕ) :
    RegistersAt prompt pos (cfg.tried prompt mode pos k) ∧
      frontier pos (cfg.tried prompt mode pos k) = pos := by
  obtain ⟨hgrid, hfront⟩ := registersAt_grid cfg hpos
  have hquiet := @registersAt_quiet _ prompt
    (List.replicate k (.refused (cfg.turnCommand prompt mode pos))) pos fun e he => by
      rw [List.eq_of_mem_replicate he]
      exact ⟨rfl, fun _ h => (by cases h)⟩
  unfold tried
  rw [registersAt_append, hfront]
  refine ⟨⟨hgrid, hquiet.1⟩, ?_⟩
  unfold frontier at hfront ⊢
  rw [List.foldl_append, hfront]
  exact hquiet.2

theorem registersAt_behind (cfg : PrefillConfig) (prompt : List τ) (pos n k p f : ℕ) :
    RegistersAt prompt f ((cfg.mtpFillChunk prompt pos n).take k ++ cfg.captureAt prompt p) ∧
      frontier f ((cfg.mtpFillChunk prompt pos n).take k ++ cfg.captureAt prompt p) = f := by
  refine registersAt_quiet fun e he => ?_
  rcases List.mem_append.1 he with he | he
  · obtain ⟨_, _, rfl⟩ := mem_mtpFillChunk (List.mem_of_mem_take he)
    exact ⟨rfl, fun _ h => (by cases h)⟩
  · rw [mem_captureAt he]
    exact ⟨rfl, fun _ h => (by cases h)⟩

/-- **The registrations of a loop** are made at the frontier. -/
theorem prefillLoop_registers (hmode : 0 < cfg.stride mode) (results : List TurnResult) :
    ∀ pos, pos ≤ prompt.length - 1 →
    let run := cfg.prefillLoop prompt mode results pos
    RegistersAt prompt pos run.events ∧
      (run.raised = false → frontier pos run.events = run.pos) := by
  induction results with
  | nil => exact fun pos _ => ⟨trivial, fun _ => rfl⟩
  | cons result results ih =>
    intro pos hpos
    have hlen : pos ≤ prompt.length := hpos.trans (Nat.sub_le _ _)
    rw [prefillLoop]
    by_cases hlt : pos < prompt.length - 1
    · have hend := (@chunkLen_advances cfg mode (prompt.length - 1) hmode pos hlt).2
      have hcovers : (cfg.turnCommand prompt mode pos).covers.2 =
          pos + cfg.chunkLen mode (prompt.length - 1) pos := by
        unfold turnCommand
        rw [command_covers hend]
        rfl
      rw [if_pos hlt]
      cases result with
      | cancelled => exact ⟨(registersAt_grid cfg hlen).1, fun h => (by cases h)⟩
      | failed refusals => exact ⟨(registersAt_tried cfg mode hlen refusals).1, fun h => (by cases h)⟩
      | fillFailed refusals fills =>
        obtain ⟨htried, hfront⟩ := registersAt_tried cfg mode hlen refusals
        refine ⟨?_, fun h => (by cases h)⟩
        rw [registersAt_append, hfront]
        refine ⟨htried, fun _ h => (by cases h), ?_⟩
        have hbehind := registersAt_behind cfg prompt pos
          (cfg.chunkLen mode (prompt.length - 1) pos) fills pos
          ((cfg.turnCommand prompt mode pos).covers.2)
        exact (registersAt_append.1 hbehind.1).1
      | done refusals =>
        obtain ⟨htried, hfront⟩ := registersAt_tried cfg mode hlen refusals
        obtain ⟨hrest, hrestFront⟩ := ih _ hend
        have hbehind := registersAt_behind cfg prompt pos
          (cfg.chunkLen mode (prompt.length - 1) pos)
          (cfg.mtpFillChunk prompt pos (cfg.chunkLen mode (prompt.length - 1) pos)).length
          (pos + cfg.chunkLen mode (prompt.length - 1) pos)
          (pos + cfg.chunkLen mode (prompt.length - 1) pos)
        rw [List.take_length] at hbehind
        constructor
        · rw [registersAt_append, hfront]
          refine ⟨htried, fun _ h => (by cases h), ?_⟩
          rw [PrefillEvent.advance, hcovers, registersAt_append, hbehind.2]
          exact ⟨hbehind.1, hrest⟩
        · intro hraised
          have hfront' := hbehind.2
          unfold frontier at hfront hfront' hrestFront ⊢
          rw [List.foldl_append, hfront, List.foldl_cons, PrefillEvent.advance, hcovers,
            List.foldl_append, hfront']
          exact hrestFront hraised
    · rw [if_neg hlt]
      exact ⟨trivial, fun _ => rfl⟩

theorem prefill_registers (cfg : PrefillConfig) (hreuse : reuse ≤ prompt.length - 1)
    (results : List TurnResult) :
    RegistersAt prompt reuse (cfg.prefill prompt reuse results).events := by
  have hmode := cfg.stride_pos (prompt.length - 1) reuse
  obtain ⟨hloop, hfront⟩ := prefillLoop_registers hmode results reuse hreuse
  have hle := (prefillLoop_commands hmode results reuse hreuse).2.1
  unfold prefill
  dsimp only at hfront ⊢
  split
  · exact hloop
  next hgo =>
  rw [not_or, not_lt, Bool.not_eq_true] at hgo
  obtain ⟨hraised, hge⟩ := hgo
  have hpos := le_antisymm hle hge
  rw [registersAt_append, hfront hraised]
  obtain ⟨hgrid, hgridFront⟩ := registersAt_grid cfg (hle.trans (Nat.sub_le _ _))
  unfold registerEnd
  refine ⟨hloop, registersAt_append.2 ⟨hgrid, ?_⟩⟩
  rw [hgridFront]
  split
  · refine ⟨fun toks he => ?_, trivial⟩
    cases he
    exact ⟨by rw [hpos], hle.trans (Nat.sub_le _ _)⟩
  · trivial

theorem RegistersAt.at_frontier {before after : List (PrefillEvent τ)} {toks : List τ} {f : ℕ}
    (h : RegistersAt prompt f events) (he : events = before ++ .register toks :: after) :
    toks <+: prompt ∧ toks.length = frontier f before := by
  rw [he, registersAt_append] at h
  obtain ⟨rfl, hlen⟩ := h.2.1 toks rfl
  exact ⟨List.take_prefix _ _, List.length_take_of_le hlen⟩

/-! ### Prefills that end -/

theorem prefillLoop_finishes (hmode : 0 < cfg.stride mode) (results : List TurnResult) :
    ∀ pos, (∀ r ∈ results, ∃ refusals, r = .done refusals) →
    prompt.length - 1 ≤ pos + results.length →
    (cfg.prefillLoop prompt mode results pos).Finished (prompt.length - 1) := by
  induction results with
  | nil => exact fun pos _ hlen => ⟨rfl, hlen⟩
  | cons result results ih =>
    intro pos hdone hlen
    obtain ⟨⟨refusals, rfl⟩, hrest⟩ := List.forall_mem_cons.1 hdone
    rw [List.length_cons] at hlen
    rw [prefillLoop]
    by_cases hlt : pos < prompt.length - 1
    · have hpos := (@chunkLen_advances cfg mode (prompt.length - 1) hmode pos hlt).1
      rw [if_pos hlt]
      exact ih _ hrest (by omega)
    · rw [if_neg hlt]
      exact ⟨rfl, not_lt.1 hlt⟩

theorem prefill_finishes (cfg : PrefillConfig) (prompt : List τ) (reuse : ℕ)
    {results : List TurnResult} (hdone : ∀ r ∈ results, ∃ refusals, r = .done refusals)
    (hlen : prompt.length - 1 ≤ reuse + results.length) :
    (cfg.prefill prompt reuse results).Finished (prompt.length - 1) := by
  have hloop := prefillLoop_finishes (cfg.stride_pos (prompt.length - 1) reuse) results reuse hdone
    hlen
  unfold prefill
  dsimp only
  split
  · exact hloop
  · exact hloop

/-! ### The grid -/

theorem mode_zero (h : cfg.mode pre reuse ≠ .small) : cfg.mode pre 0 = cfg.mode pre reuse := by
  unfold mode at h ⊢
  by_cases hpath : cfg.scPath = true
  · rw [if_pos hpath] at h ⊢
    rw [if_pos hpath]
    by_cases hsmall : 0 < cfg.scMinTokens ∧ pre - reuse < cfg.scMinTokens
    · rw [if_pos hsmall] at h
      exact absurd rfl h
    · have hzero : ¬(0 < cfg.scMinTokens ∧ pre - 0 < cfg.scMinTokens) := by omega
      rw [if_neg hsmall, if_neg hzero]
  · rw [if_neg hpath, if_neg hpath]

theorem stride_eq_grid (h : cfg.mode pre reuse ≠ .small) :
    cfg.stride (cfg.mode pre reuse) = cfg.grid := by
  unfold mode at h ⊢
  unfold grid
  by_cases hpath : cfg.scPath = true
  · rw [if_pos hpath] at h ⊢
    rw [if_pos hpath]
    by_cases hsmall : 0 < cfg.scMinTokens ∧ pre - reuse < cfg.scMinTokens
    · rw [if_pos hsmall] at h
      exact absurd rfl h
    · rw [if_neg hsmall]
      rfl
  · rw [if_neg hpath, if_neg hpath]
    rfl

theorem allCommands_suffix (hmode : 0 < cfg.stride mode) (hreuse : reuse ≤ prompt.length - 1)
    (hmet : ∀ q < reuse, q + cfg.chunkLen mode (prompt.length - 1) q ≤ reuse) :
    cfg.allCommands prompt mode reuse <:+ cfg.allCommands prompt mode 0 :=
  (rounds_suffix (@chunkLen_advances cfg mode (prompt.length - 1) hmode) hreuse hmet (by omega)
    (by omega) (Nat.zero_le _)).map _

/-- A reuse point from which a prefill goes on as one from the beginning does: on the grid, unless
the rest is downgraded; or where small chunks end, if the whole prompt is downgraded as well. -/
def Aligned (cfg : PrefillConfig) (pre reuse : ℕ) : Prop :=
  (cfg.mode pre reuse ≠ .small ∧ cfg.grid ∣ reuse) ∨
    (cfg.mode pre 0 = .small ∧ cfg.mode pre reuse = .small ∧
      (cfg.scSmallChunk ∣ reuse ∨ reuse = cfg.gridLen pre))

theorem allCommands_aligned (hreuse : reuse ≤ prompt.length - 1)
    (h : Aligned cfg (prompt.length - 1) reuse) :
    cfg.allCommands prompt (cfg.mode (prompt.length - 1) reuse) reuse <:+
      cfg.allCommands prompt (cfg.mode (prompt.length - 1) 0) 0 := by
  have hmode := cfg.stride_pos (prompt.length - 1) reuse
  rcases h with ⟨hnot, hgrid⟩ | ⟨hzero, hsmall, hmeet⟩
  · rw [mode_zero hnot]
    rw [← stride_eq_grid hnot] at hgrid
    exact allCommands_suffix hmode hreuse (chunkLen_met hgrid)
  rw [hsmall] at hmode ⊢
  rw [hzero]
  refine allCommands_suffix hmode hreuse ?_
  rcases hmeet with hdvd | rfl
  · exact chunkLen_met hdvd
  · exact chunkLen_met_gridLen

end PrefillConfig

theorem subchunks_on_grid (sub pos0 n : ℕ) : Tiles 0 ((subchunks sub pos0 n).map span) n ∧
      ∀ r ∈ subchunks sub pos0 n, r.1 + r.2 = n ∨ subSize sub ∣ pos0 + (r.1 + r.2) := by
  have hsub : 0 < subSize sub := Nat.lt_of_lt_of_le Nat.zero_lt_one (Nat.le_max_left _ _)
  have hadv : Advances (fun off => strideLen (subSize sub) (pos0 + n) (pos0 + off)) n := by
    intro off hoff
    have hpos := strideLen_pos hsub (Nat.add_lt_add_left hoff pos0)
    have hle := strideLen_le (subSize sub) (pos0 + n) (pos0 + off)
    refine ⟨hpos, ?_⟩
    dsimp only
    omega
  refine ⟨rounds_tile hadv (by omega) (Nat.zero_le _),
    rounds_forall (P := fun off k => off + k = n ∨ subSize sub ∣ pos0 + (off + k)) fun off hoff => ?_⟩
  have hend := strideLen_end hsub (Nat.add_le_add_left hoff.le pos0)
  rcases hend with hend | hend
  · exact .inl (by omega)
  · exact .inr (by rwa [← Nat.add_assoc])

namespace PrefillConfig

variable {cfg : PrefillConfig} {prompt : List τ} {reuse : ℕ}

theorem allCommands_tile (cfg : PrefillConfig) (hreuse : reuse ≤ prompt.length - 1) :
    Tiles reuse ((cfg.allCommands prompt (cfg.mode (prompt.length - 1) reuse) reuse).map
      PrefillCommand.covers) (prompt.length - 1) := by
  have hadv := @chunkLen_advances cfg _ (prompt.length - 1)
    (cfg.stride_pos (prompt.length - 1) reuse)
  have htile := @rounds_tile _ _ hadv (prompt.length - 1) reuse (by omega) hreuse
  have hspan : (cfg.allCommands prompt (cfg.mode (prompt.length - 1) reuse) reuse).map
      PrefillCommand.covers = (rounds (cfg.chunkLen (cfg.mode (prompt.length - 1) reuse)
        (prompt.length - 1)) (prompt.length - 1) (prompt.length - 1) reuse).map span := by
    unfold allCommands
    rw [List.map_map]
    refine List.map_congr_left fun r hr => command_covers ?_
    exact rounds_forall (P := fun p n => p + n ≤ prompt.length - 1) (fun p hp => (hadv p hp).2) r hr
  rw [hspan]
  exact htile

theorem allCommands_spec {c : PrefillCommand τ}
    (hc : c ∈ cfg.allCommands prompt (cfg.mode (prompt.length - 1) reuse) reuse) :
    let pre := prompt.length - 1
    let mode := cfg.mode pre reuse
    c.toks = (prompt.drop c.pos0).take c.toks.length ∧
      (c.covers.2 = pre ∨ cfg.stride mode ∣ c.covers.2 ∨
        (mode = .small ∧ c.covers.2 = cfg.gridLen pre)) ∧
      ∀ toks pos0 subs, c = .superchunk toks pos0 subs →
        subs = subchunks cfg.prefillChunk pos0 toks.length := by
  have hmode := cfg.stride_pos (prompt.length - 1) reuse
  obtain ⟨r, hr, rfl⟩ := List.mem_map.1 hc
  obtain ⟨hle, hend⟩ := rounds_forall (P := fun p n => p + n ≤ prompt.length - 1 ∧
      (p + n = prompt.length - 1 ∨ cfg.stride (cfg.mode (prompt.length - 1) reuse) ∣ p + n ∨
        (cfg.mode (prompt.length - 1) reuse = .small ∧ p + n = cfg.gridLen (prompt.length - 1))))
    (fun p hp => ⟨(chunkLen_advances hmode p hp).2, chunkLen_end hmode hp.le⟩) r hr
  rw [command_covers hle]
  refine ⟨?_, hend, fun toks pos0 subs hsuper => ?_⟩
  · rw [command_pos0, command_toks, List.length_take_of_le]
    rw [List.length_drop]
    omega
  · unfold command at hsuper
    split at hsuper
    · cases hsuper
      rfl
    · cases hsuper

end PrefillConfig

/-- **Prefill on the grid.**  Whatever is refused, cancelled or fails, the commands that are carried
out cover the body from the reuse point on, in order and once, all of it if the prefill ends; each
ends at the end of the body, at a multiple of the stride of its loop, or, downgraded, at the
registration point; a superchunk is cut on the absolute grid; what is registered is the prompt up to
the frontier; and from an aligned reuse point the commands are the last ones of a prefill without
reuse. -/
theorem prefill_on_grid (cfg : PrefillConfig) (prompt : List τ) (reuse : ℕ)
    (results : List TurnResult) (hreuse : reuse ≤ prompt.length - 1) :
    let pre := prompt.length - 1
    let mode := cfg.mode pre reuse
    let run := cfg.prefill prompt reuse results
    (∃ hi ≤ pre, Tiles reuse (run.commands.map PrefillCommand.covers) hi ∧
      (run.Finished pre → hi = pre)) ∧
    (∀ c ∈ run.commands, c.toks = (prompt.drop c.pos0).take c.toks.length ∧
      (c.covers.2 = pre ∨ cfg.stride mode ∣ c.covers.2 ∨
        (mode = .small ∧ c.covers.2 = cfg.gridLen pre))) ∧
    (∀ toks pos0 subs, .superchunk toks pos0 subs ∈ run.commands →
      Tiles 0 (subs.map span) toks.length ∧ ∀ r ∈ subs, r.1 + r.2 = toks.length ∨
        subSize cfg.prefillChunk ∣ pos0 + (r.1 + r.2)) ∧
    (∀ before toks after, run.events = before ++ .register toks :: after →
      toks <+: prompt ∧ toks.length = frontier reuse before) ∧
    (∀ results₀, run.Finished pre → (cfg.prefill prompt 0 results₀).Finished pre →
      cfg.Aligned pre reuse → run.commands <:+ (cfg.prefill prompt 0 results₀).commands) ∧
    ((∀ r ∈ results, ∃ refusals, r = .done refusals) → pre ≤ reuse + results.length →
      run.Finished pre) := by
  obtain ⟨hinitial, hfull⟩ := cfg.prefill_commands hreuse results
  have htile := cfg.allCommands_tile hreuse
  dsimp only at hinitial hfull ⊢
  refine ⟨?_, fun c hc => ?_, fun toks pos0 subs hsuper => ?_, fun before toks after he => ?_,
    fun results₀ hfin hfin₀ haligned => ?_, cfg.prefill_finishes prompt reuse⟩
  · by_cases hfin : (cfg.prefill prompt reuse results).Finished (prompt.length - 1)
    · rw [hfull hfin]
      exact ⟨_, le_rfl, htile, fun _ => rfl⟩
    · obtain ⟨hi, hle, htiles⟩ := Tiles.of_prefix (hinitial.map _) htile
      exact ⟨hi, hle, htiles, fun h => absurd h hfin⟩
  · obtain ⟨htoks, hend, -⟩ := PrefillConfig.allCommands_spec (hinitial.subset hc)
    exact ⟨htoks, hend⟩
  · obtain ⟨-, -, hsubs⟩ := PrefillConfig.allCommands_spec (hinitial.subset hsuper)
    rw [hsubs toks pos0 subs rfl]
    exact subchunks_on_grid _ _ _
  · exact (cfg.prefill_registers hreuse results).at_frontier he
  · obtain ⟨-, hfull₀⟩ := cfg.prefill_commands (Nat.zero_le (prompt.length - 1)) results₀
    rw [hfull hfin, hfull₀ hfin₀]
    exact PrefillConfig.allCommands_aligned hreuse haligned

/-- Superchunks of four tokens, and small chunks of one where fewer than three tokens are left. -/
def downgradingConfig : PrefillConfig :=
  ⟨2, true, 4, 4, 3, 1, true, none, false, Nat.zero_lt_two, Nat.zero_lt_one⟩

/-- The two tokens behind the grid point four are one superchunk without reuse, and two small chunks
with it. -/
theorem downgraded_delta_has_other_shapes :
    let prompt := List.range 7
    let reused := downgradingConfig.prefill prompt 4 [.done 0, .done 0]
    let uncached := downgradingConfig.prefill prompt 0 [.done 0, .done 0]
    downgradingConfig.grid ∣ 4 ∧ reused.Finished 6 ∧ uncached.Finished 6 ∧
      ¬reused.commands.map PrefillCommand.covers <:+
        uncached.commands.map PrefillCommand.covers := by
  decide

/-- A reuse point on the grid with enough tokens behind it. -/
theorem prefill_on_grid_reused :
    let prompt := List.range 12
    let run := downgradingConfig.prefill prompt 4 [.done 0, .done 1]
    Tiles 4 (run.commands.map PrefillCommand.covers) 11 ∧
      (∀ before toks after, run.events = before ++ .register toks :: after →
        toks <+: prompt ∧ toks.length = frontier 4 before) ∧
      run.commands <:+
        (downgradingConfig.prefill prompt 0 [.done 0, .done 2, .done 0]).commands := by
  obtain ⟨⟨hi, -, htiles, hend⟩, -, -, hregisters, hsuffix, -⟩ :=
    prefill_on_grid downgradingConfig (List.range 12) 4 [.done 0, .done 1] (by decide)
  have hfin : (downgradingConfig.prefill (List.range 12) 4 [.done 0, .done 1]).Finished 11 := by
    decide
  obtain rfl := hend hfin
  exact ⟨htiles, hregisters, hsuffix [.done 0, .done 2, .done 0] hfin (by decide) (.inl (by decide))⟩

end LayerStorm.Orchestrator
