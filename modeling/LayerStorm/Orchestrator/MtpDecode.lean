import LayerStorm.Orchestrator.SpecDecode

/-!
# Speculative decoding with the MTP layer

The target model has attention layers, whose storage is addressed by position, and recurrent
layers, whose state only moves forward.  A round verifies the drafted tokens in one pass; if it
rejects one, the recurrent state has to go back to an anchor, and the tokens behind the anchor are
replayed in the next pass.  The engine keeps two anchors, one at a pool boundary and one
elsewhere; the host keeps a list of them, and mirrors of the frontier and of the indexer's
high-water mark.

What the draft layer answers, whether the governor lets a round draft and whether a slot for an
anchor can be claimed are up to the environment.
-/

namespace LayerStorm.Orchestrator
namespace MtpDecode

open Lib
open SpecDecode (feed)

/-! ### The engine -/

/-- `LS_MTP_FORCE_ARM`. -/
inductive ForceArm
  | none
  /-- `1row` and `always_rewind`: no drafts. -/
  | draftless
  | chainRunD1
  | d2Wrong
deriving DecidableEq, Repr

/-- The settings: `indexerLayers` counts the indexer layers behind the first one. -/
structure Config where
  gamma : ℕ
  indexKpool : ℕ
  indexerLayers : ℕ
  forceArm : ForceArm

/-- The size of a pool. -/
def Config.kp (cfg : Config) : ℕ := max 1 cfg.indexKpool

/-- The target model: the next token, from the stored tokens and from the tokens that the
recurrent state has absorbed. -/
abbrev Target := List ℕ → List ℕ → ℕ

structure AnchorSlot where
  claimed : Bool
  pos : Option ℕ
  state : List ℕ
deriving DecidableEq, Repr

/-- The engine's side of a sequence: `frontier` is `kda_next_pos`, `nextPos` the coverage of the
indexer and `run` its window of rewound rows. -/
structure Engine where
  cells : ℕ → ℕ
  absorbed : List ℕ
  frontier : ℕ
  nextPos : ℕ
  run : ℕ × ℕ
  slots : Fin 2 → AnchorSlot

/-- The anchor slot of a position: the first one is for pool boundaries. -/
def slotOf (kp pos : ℕ) : Fin 2 := if pos % kp = 0 then 0 else 1

/-- A rewind may start at a pool boundary, and inside the frontier pool. -/
def legal (kp a hw : ℕ) : Bool := a % kp = 0 || a / kp = hw / kp

/-- One row at an indexer layer: it advances the coverage, repeats the last position or rewinds;
`none` if the row leaves a gap or its rewind is not pool-safe. -/
def indexerRow (kp : ℕ) (st : ℕ × ℕ × ℕ) (pos : ℕ) : Option (ℕ × ℕ × ℕ) :=
  let next := st.1
  let run := st.2
  let blessed : Bool := run.1 ≤ run.2 && run.1 ≤ pos && pos ≤ run.2 + 1
  if next < pos then none
  else if pos < next ∧ pos + 1 ≠ next ∧ legal kp pos next = false ∧ blessed = false then none
  else some (if pos = next then next + 1 else next,
    if blessed then (run.1, max run.2 pos) else (pos, pos))

namespace Engine

variable (cfg : Config) (target : Target)

variable (e : Engine)

/-- Every indexer layer walks over all rows. -/
def sweep (pos n : ℕ) : Option (ℕ × ℕ × ℕ) :=
  (List.replicate (cfg.indexerLayers + 1) (List.range' pos n)).flatten.foldlM
    (indexerRow cfg.kp) (e.nextPos, e.run)

/-- `kda_snapshot`: the anchor is taken at the frontier; `false` if it is refused, because the
frontier is not there or because no slot can be claimed. -/
def kdaSnapshot (pos : ℕ) (claim : Bool) : Engine × Bool :=
  let k := slotOf cfg.kp pos
  if e.frontier = pos ∧ ((e.slots k).claimed = true ∨ claim = true) then
    ({ e with slots := Function.update e.slots k ⟨true, some pos, e.absorbed⟩ }, true)
  else (e, false)

/-- `kda_restore`: `none` if no anchor is recorded at the position.  A later anchor is dropped. -/
def kdaRestore (pos : ℕ) : Option Engine :=
  let found : Fin 2 → Bool := fun k => (e.slots k).pos = some pos && (e.slots k).claimed
  let rollTo : Fin 2 → Engine := fun k =>
    { e with
      absorbed := (e.slots k).state
      frontier := pos
      slots := fun i =>
        if i ≠ k ∧ ((e.slots i).pos.any fun p => pos < p) then { e.slots i with pos := none }
        else e.slots i }
  if found 1 then some (rollTo 1) else if found 0 then some (rollTo 0) else none

/-- One row of a pass: the token is stored and absorbed, and the next one is chosen. -/
def row (tok : ℕ) (e : Engine) : Engine × ℕ :=
  let cells := feed e.cells e.frontier [tok]
  let absorbed := e.absorbed ++ [tok]
  ({ e with cells := cells, absorbed := absorbed, frontier := e.frontier + 1 },
    target ((List.range (e.frontier + 1)).map cells) absorbed)

/-- The rows of a pass, from row `i`: behind the rows of the mask an anchor is taken.  A claim
that fails is skipped. -/
def rowsFrom (snap claim : ℕ → Bool) : List ℕ → ℕ → Engine → Engine × List ℕ
  | [], _, e => (e, [])
  | tok :: rows, i, e =>
    let r := row target tok e
    let e' := if snap i then (r.1.kdaSnapshot cfg r.1.frontier (claim i)).1 else r.1
    let rest := rowsFrom snap claim rows (i + 1) e'
    (rest.1, r.2 :: rest.2)

/-- A pass over rows at consecutive positions. -/
def forward (snap claim : ℕ → Bool) (rows : List ℕ) (pos : ℕ) (e : Engine) :
    Option (Engine × List ℕ) :=
  if e.frontier = pos then
    match e.sweep cfg pos rows.length with
    | none => none
    | some (nextPos, run) =>
      some (rowsFrom cfg target snap claim rows 0 { e with nextPos := nextPos, run := run })
  else none

/-- `mtp_verify_pass`. -/
def verify (snap claim : ℕ → Bool) (rows : List ℕ) (pos : ℕ) (e : Engine) :
    Option (Engine × List ℕ) :=
  if 8 < rows.length then none else e.forward cfg target snap claim rows pos

/-- `decode_step_fetch_and_run`. -/
def decodeStep (tok pos : ℕ) (e : Engine) : Option (Engine × ℕ) :=
  match e.forward cfg target (fun _ => false) (fun _ => false) [tok] pos with
  | none => none
  | some (e, out) => some (e, out.getD 0 0)

end Engine

/-! ### The loop -/

/-- The state of the loop.  `draftError` records that a draft-side error has occurred, `strayed`
that the catch-up has asked for a row outside the pass before any such error, and `steps` the steps
that the loop has issued. -/
structure Decode where
  engine : Engine
  committed : List ℕ
  fed : ℕ
  state : ℕ
  mtpNext : ℕ
  drafts : List ℕ
  anchors : List ℕ
  hw : ℕ
  progress : Progress ℕ Unit
  draftError : Bool
  strayed : Bool
  steps : List EngineStep

def Decode.issue (step : EngineStep) (s : Decode) : Decode := { s with steps := s.steps ++ [step] }

/-- What the environment decides about a round: the governor, the claims of anchor slots behind
each row, the answers of the draft layer, and what its rows leave of the indexer's window. -/
structure Round where
  drafts : Bool
  claim : ℕ → Bool
  mtpRow : ℕ → Option ℕ
  chain : Option ℕ
  window : ℕ × ℕ

/-- Greedy decoding. -/
def process (target : Target) (emit : List ℕ → Bool) (prompt : List ℕ) : Process ℕ Unit where
  next := fun out _ => some (target (prompt ++ out) (prompt ++ out), ())
  more := fun out _ => emit out

/-- The host's list after a new anchor: it replaces the one in its slot. -/
def record (kp : ℕ) (anchors : List ℕ) (a : ℕ) : List ℕ :=
  anchors.filter (fun x => slotOf kp x ≠ slotOf kp a) ++ [a]

inductive CatchUp
  | done (d1 : Option ℕ)
  | outside
  | failed
deriving DecidableEq, Repr

/-- The catch-up of the draft layer at the given positions, whose hidden rows have to be rows of
the pass `[pos0, pos0 + rows)`, and the steps it takes. -/
def catchUp (mtpRow : ℕ → Option ℕ) (pos0 rows last : ℕ) :
    List ℕ → Option ℕ → CatchUp × List EngineStep
  | [], d1 => (.done d1, [])
  | pp :: l, d1 =>
    if pp < pos0 ∨ pos0 + rows ≤ pp then (.outside, [])
    else
      match mtpRow pp with
      | none => (.failed, [.mtpRow pp])
      | some r =>
        let rest := catchUp mtpRow pos0 rows last l (if pp = last then some r else d1)
        (rest.1, .mtpRow pp :: rest.2)

/-- The acceptance walk: each draft is compared with the choice of the row before it. -/
def acceptWalk (argmax : List ℕ) : ℕ → List ℕ → ℕ
  | _, [] => 0
  | base, d :: drafts =>
    if argmax.getD base 0 = d then acceptWalk argmax (base + 1) drafts + 1 else 0

section

variable (cfg : Config) (target : Target) (emit : List ℕ → Bool) (prompt : List ℕ)

variable (p : Pass) (e : Round) (s : Decode)

def draftNext (pos0 rows fedNew : ℕ) (s : Decode) : Decode :=
  let r := catchUp e.mtpRow pos0 rows (fedNew - 2)
    (List.range' s.mtpNext (fedNew - 1 - s.mtpNext)) none
  let s := { s with steps := s.steps ++ r.2 }
  match r.1 with
  | .outside =>
    { s with drafts := [], draftError := true, strayed := s.strayed || !s.draftError }
  | .failed => { s with drafts := [], draftError := true }
  | .done none => { s with mtpNext := fedNew - 1, drafts := [] }
  | .done (some d1) =>
    if 2 ≤ cfg.gamma then
      let s := s.issue (.mtpChain (fedNew - 1))
      match e.chain with
      | none => { s with mtpNext := fedNew - 1, drafts := [], draftError := true }
      | some d2 =>
        match cfg.forceArm with
        | .chainRunD1 => { s with mtpNext := fedNew - 1, drafts := [d1] }
        | .d2Wrong => { s with mtpNext := fedNew - 1, drafts := [d1, 0] }
        | _ => { s with mtpNext := fedNew - 1, drafts := [d1, d2] }
    else { s with mtpNext := fedNew - 1, drafts := [d1] }

def wantDraft : Bool :=
  let hwIfDraft := max s.hw (s.fed + s.drafts.length)
  !s.drafts.isEmpty &&
    s.anchors.any (fun a => s.fed - 4 ≤ a && a ≤ s.fed && legal cfg.kp a hwIfDraft) &&
    e.drafts && cfg.forceArm != .draftless

def used : List ℕ := if wantDraft cfg e s then s.drafts else []

def passRows : List ℕ :=
  (s.committed.drop s.state).take (s.fed - s.state) ++ used cfg e s

/-- The rows behind which the pass takes an anchor: the last replayed one, and those in front of
a pool boundary. -/
def snapRow (i : ℕ) : Bool :=
  i + 1 = s.fed - s.state ||
    i < min (s.fed - s.state) 8 && (s.state + i + 1) % cfg.kp = 0

/-- A verify pass that the engine has carried out. -/
structure Pass where
  engine : Engine
  argmax : List ℕ
  anchors : List ℕ
  accepted : ℕ
  hw : ℕ

/-- The verify pass with the mirror of the anchors and the acceptance walk. -/
def verifyPass : Option Pass :=
  let replay := s.fed - s.state
  let rows := passRows cfg e s
  match s.engine.verify cfg target (snapRow cfg s) e.claim rows s.state with
  | none => none
  | some (engine, argmax) =>
    let newAnchors := ((List.range (min replay 8)).filter (snapRow cfg s)).map
      fun i => s.state + i + 1
    some
      { engine := engine
        argmax := argmax
        anchors := newAnchors.foldl (record cfg.kp) s.anchors
        accepted := acceptWalk argmax (replay - 1) (used cfg e s)
        hw := max s.hw (s.state + rows.length) }

/-- What a pass commits: the accepted drafts and the token behind them. -/
def Pass.newToks : List ℕ :=
  (used cfg e s).take p.accepted ++ [p.argmax.getD (s.fed - s.state - 1 + p.accepted) 0]

def Pass.rejected : Bool :=
  p.accepted < (used cfg e s).length

/-- The anchor that a rejection goes back to. -/
def Pass.rewindTo (fedNew : ℕ) : Option ℕ :=
  (p.anchors.filter fun a => a ≤ fedNew - 1 && legal cfg.kp a p.hw).max?

/-- The engine, the frontier and the anchors after a pass; `none` if the restore fails. -/
def Pass.settle (fedNew : ℕ) : Option (Engine × ℕ × List ℕ) :=
  if p.rejected cfg e s then
    match p.rewindTo cfg fedNew with
    | none => none
    | some a =>
      match p.engine.kdaRestore a with
      | none => none
      | some engine => some (engine, a, p.anchors.filter fun x => x ≤ a)
  else some (p.engine, s.state + (passRows cfg e s).length, p.anchors)

/-- The loop ends with an error. -/
def fail : Decode := { s with progress := { s.progress with status := .failed } }

def passRound : Decode :=
  match verifyPass cfg target e s with
  | none => fail s
  | some p =>
    let newToks := p.newToks cfg e s
    let fedNew := s.fed + newToks.length
    match p.settle cfg e s fedNew with
    | none => fail s
    | some (engine, state, anchors) =>
      let t :=
        { s with
          engine := engine
          committed := s.committed ++ newToks
          state := state
          anchors := anchors
          hw := p.hw
          progress := (process target emit prompt).deliverAll s.progress
            (newToks.map fun tok => (tok, ())) }
      if t.progress.status = .running then
        { draftNext cfg e s.state (passRows cfg e s).length fedNew t with fed := fedNew }
      else t

/-- A draftless round at the high-water mark: a plain step with an anchor behind it. -/
def fastRound : Decode :=
  match s.engine.decodeStep cfg target (s.committed.getD s.state 0) s.state with
  | none => fail s
  | some (engine, tok) =>
    let r := engine.kdaSnapshot cfg (s.state + 1) (e.claim 0)
    let t :=
      { s with
        engine := r.1
        committed := s.committed ++ [tok]
        state := s.state + 1
        anchors := if r.2 then record cfg.kp s.anchors (s.state + 1) else s.anchors
        hw := max s.hw (s.state + 1)
        progress := (process target emit prompt).deliver s.progress tok () }
    if t.progress.status = .running then
      { draftNext cfg e s.state 1 (s.fed + 1) t with fed := s.fed + 1 }
    else t

/-- The round is a plain step. -/
def isFast : Bool :=
  cfg.forceArm = .none && !wantDraft cfg e s && s.fed - s.state = 1 && s.state = s.hw

/-- A round begins: the rows of the draft layer have left their window, and a forced arm drops the
drafts. -/
def prepare : Decode :=
  { s with
    engine := { s.engine with run := e.window }
    drafts := if cfg.forceArm = .draftless then [] else s.drafts }

def round (e : Round) : Decode :=
  match s.progress.status with
  | .running =>
    let t := prepare cfg e s
    if isFast cfg e t then fastRound cfg target emit prompt e (t.issue (.decode t.state))
    else
      passRound cfg target emit prompt e (t.issue (.verify t.state (passRows cfg e t).length))
  | _ => s

/-- `_decode_speculative_mtp`, as a step function: it goes from round to round. -/
def decodeSpeculativeMtp (e : Round) : Option Decode :=
  some (round cfg target emit prompt s e)

/-- The slot of the anchor behind row `i` is claimed, or gets claimed in this pass. -/
def heldRow (i : ℕ) : Bool :=
  (s.engine.slots (slotOf cfg.kp (s.state + i + 1))).claimed ||
    (List.range (s.fed - s.state)).any fun j => snapRow cfg s j && e.claim j &&
      slotOf cfg.kp (s.state + j + 1) = slotOf cfg.kp (s.state + i + 1)

/-- No anchor is lost to a failed claim: every slot in which a verify pass takes an anchor is
claimed, or one of its claims in that pass succeeds. -/
def ClaimsHold (e : Round) : Prop :=
  isFast cfg e (prepare cfg e s) = false →
    ∀ i < s.fed - s.state, snapRow cfg (prepare cfg e s) i = true →
      heldRow cfg e (prepare cfg e s) i = true

instance (s : Decode) (e : Round) : Decidable (ClaimsHold cfg s e) :=
  inferInstanceAs (Decidable (isFast cfg e (prepare cfg e s) = false →
    ∀ i < s.fed - s.state, snapRow cfg (prepare cfg e s) i = true →
      heldRow cfg e (prepare cfg e s) i = true))

end

/-! ### Plain decoding -/

/-- The state of `_decode_plain_from`. -/
structure Plain where
  engine : Engine
  token : ℕ
  pos : ℕ
  progress : Progress ℕ Unit

section

variable (cfg : Config) (target : Target) (emit : List ℕ → Bool) (prompt : List ℕ)

/-- One round of plain decoding. -/
def plainStep (s : Plain) : Plain :=
  match s.progress.status with
  | .running =>
    match s.engine.decodeStep cfg target s.token s.pos with
    | none => { s with progress := { s.progress with status := .failed } }
    | some (engine, tok) =>
      { engine := engine
        token := tok
        pos := s.pos + 1
        progress := (process target emit prompt).deliver s.progress tok () }
  | _ => s

/-- Plain decoding: the tokens it emits in `n` rounds. -/
def decodePlain (s : Plain) (n : ℕ) : Plain := (plainStep cfg target emit prompt)^[n] s

end

/-! ### The start -/

/-- The engine after the prompt up to its last token has been prefilled: no anchor is recorded,
and the slots are claimed or not. -/
def Engine.start (cells : ℕ → ℕ) (front : List ℕ) (run : ℕ × ℕ) (claimed : Fin 2 → Bool) :
    Engine where
  cells := feed cells 0 front
  absorbed := front
  frontier := front.length
  nextPos := front.length
  run := run
  slots := fun k => ⟨claimed k, none, []⟩

/-- Plain decoding before its first round. -/
def startPlain (engine : Engine) (front : List ℕ) (last : ℕ) : Plain :=
  ⟨engine, last, front.length, ⟨[], (), .running⟩⟩

/-- The loop before its first round. -/
def start (engine : Engine) (front : List ℕ) (last : ℕ) : Decode where
  engine := engine
  committed := front ++ [last]
  fed := front.length + 1
  state := front.length
  mtpNext := front.length
  drafts := []
  anchors := []
  hw := front.length
  progress := ⟨[], (), .running⟩
  draftError := false
  strayed := false
  steps := []

end MtpDecode
end LayerStorm.Orchestrator
