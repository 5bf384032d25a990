import Mathlib
import LayerStorm.Lib.Sequential

/-!
# Speculative decoding with DSpark drafts

The orchestrator decodes one token per engine step.  Speculation overlaps such a step with a
draft of the following tokens and then verifies several drafted tokens in one engine pass.  There
are three arms: greedy, sampled on the host, and greedy under a grammar.

The engine stores what was last fed at each position, and its output at a position depends on
the tokens stored up to there.  Whether a round drafts at all, what the draft proposes and with
which confidence, and whether it fails, is up to the environment.
-/

namespace LayerStorm.Orchestrator

/-! ### Steps -/

/-- A step that computes positions: a decode step, a verify chunk, a block of draft queries behind
the row of its anchor, a row of the MTP layer and a chained row of it. -/
inductive EngineStep
  | decode (pos : ℕ)
  | verify (pos rows : ℕ)
  | draft (pos queries : ℕ)
  | mtpRow (pos : ℕ)
  | mtpChain (pos : ℕ)
deriving DecidableEq

/-- The position behind the last one that a step computes. -/
def EngineStep.stop : EngineStep → ℕ
  | decode pos => pos + 1
  | verify pos rows => pos + rows
  | draft pos queries => pos + queries + 1
  | mtpRow pos => pos + 1
  | mtpChain pos => pos + 1

namespace SpecDecode

open Lib

variable {S X C U St : Type}

/-! ### The model -/

/-- The target model: the logits that follow a history, for every token of the vocabulary. -/
structure Target (S : Type) where
  vocab : ℕ
  vocab_pos : 0 < vocab
  logits : List ℕ → ℕ → S

/-- The first of the largest among the scores of the first `n` tokens. -/
def argmax [LT S] [DecidableLT S] (row : ℕ → S) : ℕ → ℕ
  | 0 => 0
  | n + 1 => if row (argmax row n) < row n then n else argmax row n

/-- What an arm does with a row of logits: it chooses a token, or fails.  After each token the
consumer says whether it wants more. -/
structure Arm (S X : Type) where
  pick : (ℕ → S) → X → Option (ℕ × X)
  more : List ℕ → X → Bool

/-- Sequential decoding. -/
def Target.process (T : Target S) (A : Arm S X) (prompt : List ℕ) : Process ℕ X where
  next := fun out x => A.pick (T.logits (prompt ++ out)) x
  more := A.more

def greedyArm [LT S] [DecidableLT S] (vocab : ℕ) (emit : List ℕ → Bool) : Arm S Unit where
  pick := fun row _ => some (argmax row vocab, ())
  more := fun out _ => emit out

/-- The sampled arm: the state counts the draws, and every choice takes the next one. -/
def sampledArm (sample : (ℕ → S) → U → ℕ) (draws : ℕ → U) (emit : List ℕ → Bool) : Arm S ℕ where
  pick := fun row n => some (sample row (draws n), n + 1)
  more := fun out _ => emit out

/-! ### The grammar -/

/-- A grammar matcher: `try_accept`, `rollback`, the token bitmask and `completed`. -/
structure Matcher (St : Type) where
  accept : St → ℕ → St × Bool
  rollback : ℕ → St → St
  mask : St → ℕ → Bool
  completed : St → Bool

namespace Matcher

def acceptAll (M : Matcher St) : St → List ℕ → Option St
  | st, [] => some st
  | st, tok :: l => if (M.accept st tok).2 then acceptAll M (M.accept st tok).1 l else none

/-- What the code relies on: a rejected token leaves the state unchanged, a rollback undoes
accepted tokens, and the bitmask allows every token that would be accepted. -/
structure Lawful (M : Matcher St) : Prop where
  reject : ∀ st tok, (M.accept st tok).2 = false → (M.accept st tok).1 = st
  undo : ∀ st l st', M.acceptAll st l = some st' → M.rollback l.length st' = st
  allowed : ∀ st tok, (M.accept st tok).2 = true → M.mask st tok = true

/-- `pick_and_accept` at temperature 0: it fails on an empty mask and on a rejected choice. -/
def pickAndAccept [LT S] [DecidableLT S] [Bot S] (M : Matcher St) (vocab : ℕ) (row : ℕ → S)
    (st : St) : Option (ℕ × St) :=
  if (List.range vocab).any (M.mask st) then
    let tok := argmax (fun t => if M.mask st t then row t else ⊥) vocab
    if (M.accept st tok).2 then some (tok, (M.accept st tok).1) else none
  else none

end Matcher

/-- The guided arm: emission also ends when the grammar is complete. -/
def guidedArm [LT S] [DecidableLT S] [Bot S] (M : Matcher St) (vocab : ℕ)
    (emit : List ℕ → Bool) : Arm S St where
  pick := M.pickAndAccept vocab
  more := fun out st => emit out && !M.completed st

/-! ### The engine and the loop -/

/-- Feed tokens at consecutive positions. -/
def feed (cells : ℕ → ℕ) (pos : ℕ) (toks : List ℕ) : ℕ → ℕ := fun p =>
  if pos ≤ p ∧ p < pos + toks.length then toks.getD (p - pos) 0 else cells p

/-- The logits at a position. -/
def Target.row (T : Target S) (cells : ℕ → ℕ) (pos : ℕ) : ℕ → S :=
  T.logits ((List.range (pos + 1)).map cells)

/-- A loop that has lost its draft goes on plainly. -/
inductive Mode
  | speculating
  | plain
deriving DecidableEq, Repr

/-- The state of a decode loop: `anchor` is the last committed token, to be fed at `fed`; `steps`
are the steps it has issued. -/
structure Decode (X : Type) where
  cells : ℕ → ℕ
  anchor : ℕ
  fed : ℕ
  mode : Mode
  progress : Progress ℕ X
  steps : List EngineStep

def Decode.issue (step : EngineStep) (s : Decode X) : Decode X :=
  { s with steps := s.steps ++ [step] }

/-- The loop before its first step, after the prompt up to its last token has been prefilled. -/
def start (cells : ℕ → ℕ) (front : List ℕ) (last : ℕ) (x : X) : Decode X :=
  ⟨feed cells 0 front, last, front.length, .speculating, ⟨[], x, .running⟩, []⟩

section

variable (T : Target S) (A : Arm S X) (prompt : List ℕ)

/-- Feed `tok` at `pos`, choose the next token and emit it: the body of `_decode_plain_from`,
and the committing step of every round. -/
def commit (tok pos : ℕ) (s : Decode X) : Decode X :=
  let cells := feed s.cells pos [tok]
  match A.pick (T.row cells pos) s.progress.x with
  | none =>
    { s.issue (.decode pos) with
      cells := cells
      progress := { s.progress with status := .failed } }
  | some (next, x) =>
    { s.issue (.decode pos) with
      cells := cells
      anchor := next
      fed := pos + 1
      progress := (T.process A prompt).deliver s.progress next x }

def plainStep (s : Decode X) : Decode X :=
  match s.progress.status with
  | .running => commit T A prompt s.anchor s.fed s
  | _ => s

/-- Plain decoding: the tokens it emits in `n` rounds. -/
def decodePlain (s : Decode X) (n : ℕ) : Decode X := (plainStep T A prompt)^[n] s

/-- What the environment decides about a round: whether the governor lets it draft, and the draft
with its confidences, or its failure. -/
structure Round (C : Type) where
  drafts : Bool
  draft : Option ((ℕ → ℕ) × (ℕ → C))

/-- A round of speculative decoding: a draft of `gamma` slots runs under a committing step; `verify`
is the rest of the round. -/
def specRound (gamma : ℕ) (verify : (ℕ → ℕ) → (ℕ → C) → Decode X → Decode X) (s : Decode X)
    (e : Round C) : Decode X :=
  if s.progress.status ≠ .running ∨ s.mode = .plain ∨ e.drafts = false then plainStep T A prompt s
  else
    let t := plainStep T A prompt (s.issue (.draft s.fed gamma))
    if t.progress.status = .running then
      match e.draft with
      | none => { t with mode := .plain }
      | some (draft, confs) => verify draft confs t
    else t

/-- A speculative loop: the seed step, then round after round. -/
def specLoop (gamma : ℕ) (verify : (ℕ → ℕ) → (ℕ → C) → Decode X → Decode X) (s : Decode X)
    (rounds : List (Round C)) : Decode X :=
  rounds.foldl (specRound T A prompt gamma verify) (plainStep T A prompt s)

end

/-! ### Truncation -/

structure Spec (C : Type) where
  gamma : ℕ
  confThresh : C
  /-- `logits_host_rows`. -/
  hostRows : ℕ

/-- The loop of the confidence truncation. -/
def Spec.survive [Mul C] [LT C] [DecidableLT C] (spec : Spec C) (confs : ℕ → C) : ℕ → C → ℕ → ℕ
  | 0, _, g => g
  | fuel + 1, cum, g =>
    if g < spec.gamma then
      let cum := cum * confs g
      if cum < spec.confThresh then g else spec.survive confs fuel cum (g + 1)
    else g

/-- How many slots of the draft are used. -/
def Spec.slots [Zero C] [One C] [Mul C] [LT C] [DecidableLT C] (spec : Spec C)
    (confs : ℕ → C) : ℕ :=
  if 0 < spec.confThresh then spec.survive confs spec.gamma 1 1 else spec.gamma

/-- The slots `1, …, n` of a draft. -/
def slotsFrom (draft : ℕ → ℕ) (n : ℕ) : List ℕ := (List.range n).map fun i => draft (i + 1)

/-! ### The greedy arm -/

section Greedy

variable [LT S] [DecidableLT S] (T : Target S) (emit : List ℕ → Bool) (prompt : List ℕ)

/-- The acceptance walk: how many drafted tokens the verified rows confirm. -/
def accepted (choice : ℕ → ℕ) (draft : ℕ → ℕ) (g : ℕ) : ℕ → ℕ → ℕ
  | 0, j => j
  | fuel + 1, j =>
    if j + 1 < g ∧ choice j = draft (j + 1) then accepted choice draft g fuel (j + 1) else j

/-- The verify pass of `_decode_speculative`, with `g` slots of the draft. -/
def verifyGreedy (draft : ℕ → ℕ) (g : ℕ) (s : Decode Unit) : Decode Unit :=
  if s.anchor = draft 0 ∧ 2 ≤ g then
    let cells := feed s.cells s.fed (s.anchor :: slotsFrom draft (g - 1))
    let choice := fun j => argmax (T.row cells (s.fed + j)) T.vocab
    let j := accepted choice draft g g 0
    let bonus := choice j
    { s.issue (.verify s.fed g) with
      cells := cells
      anchor := bonus
      fed := s.fed + (j + 1)
      progress := (T.process (greedyArm T.vocab emit) prompt).deliverAll s.progress
        ((slotsFrom draft j ++ [bonus]).map fun tok => (tok, ())) }
  else s

def decodeSpeculative [Zero C] [One C] [Mul C] [LT C] [DecidableLT C] (spec : Spec C) :
    Decode Unit → List (Round C) → Decode Unit :=
  specLoop T (greedyArm T.vocab emit) prompt spec.gamma fun draft confs =>
    verifyGreedy T emit prompt draft (spec.slots confs)

end Greedy

/-! ### The sampled arm -/

section Sampled

variable (T : Target S) (sample : (ℕ → S) → U → ℕ) (draws : ℕ → U) (emit : List ℕ → Bool)
  (prompt : List ℕ)

/-- The equality-coupled walk: one draw per row, up to the first that is not the drafted token. -/
def drawWalk (row : ℕ → ℕ → S) (draft : ℕ → ℕ) (g : ℕ) : ℕ → ℕ → ℕ → List (ℕ × ℕ)
  | 0, j, n => [(sample (row j) (draws n), n + 1)]
  | fuel + 1, j, n =>
    let tok := sample (row j) (draws n)
    if j + 1 < g ∧ tok = draft (j + 1) then
      (tok, n + 1) :: drawWalk row draft g fuel (j + 1) (n + 1)
    else [(tok, n + 1)]

/-- The verify pass of `_decode_speculative_sampled`. -/
def verifySampled (draft : ℕ → ℕ) (g : ℕ) (s : Decode ℕ) : Decode ℕ :=
  if s.anchor = draft 0 ∧ 2 ≤ g then
    let cells := feed s.cells s.fed (s.anchor :: slotsFrom draft (g - 1))
    let picks := drawWalk sample draws (fun j => T.row cells (s.fed + j)) draft g g 0 s.progress.x
    { s.issue (.verify s.fed g) with
      cells := cells
      anchor := (picks.getLastD (0, 0)).1
      fed := s.fed + picks.length
      progress := (T.process (sampledArm sample draws emit) prompt).deliverAll s.progress picks }
  else s

/-- `_decode_speculative_sampled`: the rows that are read back bound the draft, too. -/
def decodeSpeculativeSampled [Zero C] [One C] [Mul C] [LT C] [DecidableLT C] (spec : Spec C) :
    Decode ℕ → List (Round C) → Decode ℕ :=
  specLoop T (sampledArm sample draws emit) prompt spec.gamma fun draft confs =>
    verifySampled T sample draws emit prompt draft
      (min (spec.slots confs) (max 1 (min spec.gamma spec.hostRows)))

end Sampled

/-! ### The guided arm -/

section Guided

variable [LT S] [DecidableLT S] [Bot S] (T : Target S) (M : Matcher St) (emit : List ℕ → Bool)
  (prompt : List ℕ)

/-- Advance the matcher over the slots of a draft, up to the first violation: the state it is
left in and the number of accepted slots. -/
def tryAccepts (draft : ℕ → ℕ) (g : ℕ) : ℕ → St → ℕ → St × ℕ
  | 0, st, ok => (st, ok)
  | fuel + 1, st, ok =>
    if 1 + ok < g then
      if (M.accept st (draft (1 + ok))).2 then
        tryAccepts draft g fuel (M.accept st (draft (1 + ok))).1 (ok + 1)
      else ((M.accept st (draft (1 + ok))).1, ok)
    else (st, ok)

/-- Emit accepted drafts: each one advances the matcher again, which must not refuse it. -/
def emitAccepted : Progress ℕ St → List ℕ → Progress ℕ St
  | s, [] => s
  | s, tok :: l =>
    if (M.accept s.x tok).2 then
      let t := (T.process (guidedArm M T.vocab emit) prompt).deliver s tok (M.accept s.x tok).1
      if t.status = .running then emitAccepted t l else t
    else { s with x := (M.accept s.x tok).1, status := .failed }

/-- The token behind the accepted drafts: if the grammar refuses it, its position is fed once
more and the choice is made under the mask. -/
def emitBonus (bonus tok : ℕ) (s : Decode St) : Decode St :=
  match s.progress.status with
  | .running =>
    if (M.accept s.progress.x bonus).2 then
      { s with
        anchor := bonus
        progress := (T.process (guidedArm M T.vocab emit) prompt).deliver s.progress bonus
          (M.accept s.progress.x bonus).1 }
    else
      commit T (guidedArm M T.vocab emit) prompt tok (s.fed - 1)
        { s with progress := { s.progress with x := (M.accept s.progress.x bonus).1 } }
  | _ => s

/-- The rest of the guided verify pass, with `g` slots the grammar allows. -/
def verifyAllowed (draft : ℕ → ℕ) (g : ℕ) (s : Decode St) : Decode St :=
  if s.anchor = draft 0 ∧ 2 ≤ g then
    let rowToks := s.anchor :: slotsFrom draft (g - 1)
    let cells := feed s.cells s.fed rowToks
    let choice := fun j => argmax (T.row cells (s.fed + j)) T.vocab
    let j := accepted choice draft g g 0
    emitBonus T M emit prompt (choice j) (rowToks.getD j 0) { s.issue (.verify s.fed g) with
        cells := cells
        fed := s.fed + (j + 1)
        progress := emitAccepted T M emit prompt s.progress (slotsFrom draft j) }
  else s

/-- The verify pass of `_decode_speculative_guided`: the slots are first truncated by the
grammar. -/
def verifyGuided (draft : ℕ → ℕ) (g : ℕ) (s : Decode St) : Decode St :=
  if s.anchor = draft 0 ∧ 2 ≤ g then
    let r := tryAccepts M draft g g s.progress.x 0
    verifyAllowed T M emit prompt draft (1 + r.2)
      { s with progress := { s.progress with x := M.rollback r.2 r.1 } }
  else s

def decodeSpeculativeGuided [Zero C] [One C] [Mul C] [LT C] [DecidableLT C] (spec : Spec C) :
    Decode St → List (Round C) → Decode St :=
  specLoop T (guidedArm M T.vocab emit) prompt spec.gamma fun draft confs =>
    verifyGuided T M emit prompt draft (spec.slots confs)

end Guided

end SpecDecode
end LayerStorm.Orchestrator
