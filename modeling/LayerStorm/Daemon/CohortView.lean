import LayerStorm.Lib.Run
import LayerStorm.Lib.Fanout

/-!
# The batched view of a cohort

A chunk of a prompt attends, row by row, to the positions that the indexer has selected.  Where the
pages of a layer are cold, `materialize_cohort` gathers the union of the selections of all rows and
rewrites the indices of the rows to slots of the union.  The selection is read back to the host, and
the host copy and the union are kept for the layers that share it, each under an identity of its
own.

## Main results

* `cohort_view_uses_own_selection` — over all runs that meet the condition.
-/

namespace LayerStorm.Daemon

open Function Lib List

/-! ### The model -/

/-- The parts of the options that the two functions read; no union is built with a capacity of
zero. -/
structure CohortConfig where
  kvLayers : ℕ
  cohortRowsMax : ℕ
  indexTopkRows : ℕ
  unionCap : ℕ

abbrev CohortSelection := List (List ℤ)

structure CohortState where
  ctxSeq : ℕ
  ctxLayer : ℕ
  ctxPos : ℕ
  ctxRows : ℕ
  /-- The layer has cold pages, as `begin_layer` finds it. -/
  ctxCold : Bool
  /-- The buffers of the indexer, and whether the layer has selected for itself
  (`indexer_step_fresh_`). -/
  device : CohortSelection
  fresh : Bool
  /-- `h_indices` and `h_topk_len`. -/
  hIndices : CohortSelection
  scValid : Bool
  scSeq : ℕ
  scPos : ℕ
  scRows : ℕ
  preparedLayer : Option ℕ
  uValid : Bool
  uSeq : ℕ
  uPos : ℕ
  uRows : ℕ
  uPosList : List ℕ
  /-- `h_uidx`, which is uploaded. -/
  uIdx : List (List ℤ)
  /-- Ghosts: how often the selection has changed, then, when the host copy was read, and when the
  selection was read that the union was built of. -/
  epoch : ℕ
  hostEpoch : ℕ
  unionEpoch : ℕ

inductive CohortAnswer
  /-- A view of the union: the position of each slot, and the slots of the rows. -/
  | union (posList : List ℕ) (idx : List (List ℤ))
  /-- A view of the positions of one row. -/
  | row (positions : List ℤ)
  /-- `false`: the other way to attend is valid. -/
  | no
  | thrown
  deriving DecidableEq

namespace CohortState

/-- Nothing has been selected. -/
def init : CohortState where
  ctxSeq := 0
  ctxLayer := 0
  ctxPos := 0
  ctxRows := 0
  ctxCold := false
  device := []
  fresh := false
  hIndices := []
  scValid := false
  scSeq := 0
  scPos := 0
  scRows := 0
  preparedLayer := none
  uValid := false
  uSeq := 0
  uPos := 0
  uRows := 0
  uPosList := []
  uIdx := []
  epoch := 0
  hostEpoch := 0
  unionEpoch := 0

def firstRows (sel : CohortSelection) (rows : ℕ) : CohortSelection :=
  (List.range rows).map fun b => sel.getD b []

/-- `ensure_cohort_selection` reads nothing: the copy is of this step, and the layer is the one it
was read for, or shares the selection. -/
def HostReused (s : CohortState) (layer : ℕ) : Prop :=
  (s.scValid = true ∧ s.scSeq = s.ctxSeq ∧ s.scPos = s.ctxPos ∧ s.scRows = s.ctxRows) ∧
    (s.preparedLayer = some layer ∨ s.fresh = false)

instance (s : CohortState) (layer : ℕ) : Decidable (s.HostReused layer) :=
  inferInstanceAs (Decidable (_ ∧ _))

def ensureCohortSelection (s : CohortState) (layer : ℕ) : CohortState :=
  if s.HostReused layer then { s with preparedLayer := some layer }
  else
    { s with
      hIndices := firstRows s.device s.ctxRows
      scValid := true
      preparedLayer := some layer
      scSeq := s.ctxSeq
      scPos := s.ctxPos
      scRows := s.ctxRows
      hostEpoch := s.epoch }

def UnionKept (s : CohortState) (rows : ℕ) : Prop :=
  s.uValid = true ∧ s.uSeq = s.ctxSeq ∧ s.uPos = s.ctxPos ∧ s.uRows = rows

instance (s : CohortState) (rows : ℕ) : Decidable (s.UnionKept rows) :=
  inferInstanceAs (Decidable (_ ∧ _))

end CohortState

/-! ### The union -/

/-- The largest selected position, or `-1`. -/
def maxPos (sel : CohortSelection) : ℤ := sel.flatten.foldl max (-1)

/-- `slot_of` after the selected positions have been marked with zero. -/
def marks (sel : CohortSelection) : ℕ → ℤ :=
  sel.flatten.foldl (fun slotOf p => update slotOf p.toNat 0) fun _ => -1

/-- The marked positions are numbered in ascending order: `slot_of` and the list of positions. -/
def numberPositions (ps : List ℕ) (acc : (ℕ → ℤ) × List ℕ) : (ℕ → ℤ) × List ℕ :=
  ps.foldl (fun acc p =>
    if acc.1 p = 0 then (update acc.1 p acc.2.length, acc.2 ++ [p]) else acc) acc

namespace CohortConfig

variable (cfg : CohortConfig)

/-- A row is too long, or has a negative position. -/
def Malformed (sel : CohortSelection) : Prop :=
  ∃ row ∈ sel, cfg.indexTopkRows < row.length ∨ ∃ p ∈ row, p < 0

instance (sel : CohortSelection) : Decidable (cfg.Malformed sel) :=
  inferInstanceAs (Decidable (∃ _ ∈ _, _))

/-- The union build and the rewrite; `none` is success. -/
def buildUnion (s : CohortState) (rows : ℕ) : CohortState × Option CohortAnswer :=
  let sel := CohortState.firstRows s.hIndices rows
  let s := { s with uValid := false }
  if cfg.Malformed sel then (s, some .thrown)
  else if maxPos sel < 0 then (s, some .no)
  else
    let r := numberPositions (List.range (maxPos sel + 1).toNat) (marks sel, [])
    let s := { s with uPosList := r.2 }
    if cfg.unionCap < r.2.length then (s, some .no)
    else
      ({ s with
          uIdx := sel.map fun row => row.map fun p => r.1 p.toNat
          uSeq := s.ctxSeq
          uPos := s.ctxPos
          uRows := rows
          uValid := true
          unionEpoch := s.hostEpoch }, none)

/-- The call does not fit the step. -/
def Misplaced (s : CohortState) (layer rows : ℕ) : Prop :=
  cfg.kvLayers ≤ layer ∨ s.ctxSeq = 0 ∨ layer ≠ s.ctxLayer ∨ rows ≠ s.ctxRows

instance (s : CohortState) (layer rows : ℕ) : Decidable (cfg.Misplaced s layer rows) :=
  inferInstanceAs (Decidable (_ ∨ _))

def materializeRow (s : CohortState) (layer row rows : ℕ) : CohortState × CohortAnswer :=
  if rows < 1 ∨ cfg.cohortRowsMax < rows ∨ rows ≤ row then (s, .thrown)
  else if cfg.Misplaced s layer rows then (s, .thrown)
  else if s.ctxCold = false then (s, .no)
  else
    let s := s.ensureCohortSelection layer
    let positions := s.hIndices.getD row []
    if positions = [] then (s, .no)
    else if cfg.indexTopkRows < positions.length then (s, .thrown)
    else (s, .row positions)

def materializeCohort (s : CohortState) (layer rows : ℕ) : CohortState × CohortAnswer :=
  if cfg.unionCap = 0 then (s, .no)
  else if rows < 2 ∨ cfg.cohortRowsMax < rows then (s, .thrown)
  else if cfg.Misplaced s layer rows then (s, .thrown)
  else if s.ctxCold = false then (s, .no)
  else
    let s := s.ensureCohortSelection layer
    let built := if s.UnionKept rows then (s, none) else cfg.buildUnion s rows
    match built with
    | (s, some answer) => (s, answer)
    | (s, none) => if s.uPosList = [] then (s, .no) else (s, .union s.uPosList s.uIdx)

/-! ### Steps -/

/-- The calls. -/
inductive Op
  /-- `begin_layer`, where it is accepted. -/
  | beginLayer (seq layer pos rows : ℕ) (cold : Bool)
  /-- A full layer selects. -/
  | select (sel : CohortSelection)
  /-- A shared layer takes the selection of the layer before it. -/
  | share
  | materializeRow (layer row rows : ℕ)
  | materializeCohort (layer rows : ℕ)
  /-- `on_seq_free`. -/
  | seqFree (seq : ℕ)

/-- One call. -/
def step (s : CohortState) : Op → CohortState
  | .beginLayer seq layer pos rows cold =>
    { s with ctxSeq := seq, ctxLayer := layer, ctxPos := pos, ctxRows := rows, ctxCold := cold }
  | .select sel =>
    { s with
      device := sel
      fresh := true
      epoch := if sel = s.device then s.epoch else s.epoch + 1 }
  | .share => { s with fresh := false }
  | .materializeRow layer row rows => (cfg.materializeRow s layer row rows).1
  | .materializeCohort layer rows => (cfg.materializeCohort s layer rows).1
  | .seqFree seq =>
    let s := if s.scSeq = seq then { s with scValid := false, preparedLayer := none } else s
    if s.ctxSeq = seq then { s with ctxSeq := 0, ctxPos := 0 } else s

end CohortConfig

namespace CohortState

/-- **What is reused is of the selection on the device**: the selection has not changed since a
union that is kept was read, or else since a host copy that is reused was read. -/
def Meets (s : CohortState) : CohortConfig.Op → Prop
  | .materializeRow layer _ _ => s.HostReused layer → s.hostEpoch = s.epoch
  | .materializeCohort layer rows =>
    if s.UnionKept rows then s.unionEpoch = s.epoch
    else s.HostReused layer → s.hostEpoch = s.epoch
  | _ => True

instance (s : CohortState) (op : CohortConfig.Op) : Decidable (s.Meets op) := by
  unfold Meets
  cases op <;> infer_instance

end CohortState

/-! ### The slots of the union -/

/-- **The numbering**: every marked position is the one at its slot. -/
theorem numberPositions_spec {ps : List ℕ} (hps : ps.Nodup) : ∀ {slotOf : ℕ → ℤ} {up : List ℕ},
      up <+: (numberPositions ps (slotOf, up)).2 ∧
      (∀ p, p ∉ ps → (numberPositions ps (slotOf, up)).1 p = slotOf p) ∧
      ∀ p ∈ ps, slotOf p = 0 → ∃ k : ℕ, (numberPositions ps (slotOf, up)).1 p = k ∧
        (numberPositions ps (slotOf, up)).2[k]? = some p := by
  induction ps with
  | nil =>
    intro slotOf up
    exact ⟨prefix_refl _, fun _ _ => rfl, fun p hp => absurd hp not_mem_nil⟩
  | cons q ps ih =>
    intro slotOf up
    obtain ⟨hq, hps⟩ := nodup_cons.1 hps
    unfold numberPositions
    rw [foldl_cons]
    by_cases hmark : slotOf q = 0
    · rw [if_pos hmark]
      obtain ⟨hpre, hout, hin⟩ := @ih hps (update slotOf q up.length) (up ++ [q])
      refine ⟨(prefix_append _ _).trans hpre, fun p hp => ?_, fun p hp hzero => ?_⟩
      · rw [mem_cons, not_or] at hp
        obtain ⟨hne, hp⟩ := hp
        exact (hout p hp).trans (update_of_ne hne _ _)
      · rcases mem_cons.1 hp with rfl | hp
        · -- the next slot is taken
          refine ⟨up.length, (hout p hq).trans (update_self _ _ _), ?_⟩
          obtain ⟨rest, hrest⟩ := hpre
          have hslot : (up ++ [p] ++ rest)[up.length]? = some p := by simp
          rw [hrest] at hslot
          exact hslot
        · have hne : p ≠ q := fun heq => hq (heq ▸ hp)
          exact hin p hp ((update_of_ne hne _ _).trans hzero)
    · rw [if_neg hmark]
      obtain ⟨hpre, hout, hin⟩ := @ih hps slotOf up
      refine ⟨hpre, fun p hp => hout p (not_mem_of_not_mem_cons hp), fun p hp hzero => ?_⟩
      rcases mem_cons.1 hp with rfl | hp
      · exact absurd hzero hmark
      · exact hin p hp hzero

variable {sel : CohortSelection}

theorem marks_of_mem {p : ℤ} (hp : p ∈ sel.flatten) : marks sel p.toNat = 0 :=
  foldl_update_of_mem _ _ (fun _ _ _ => rfl) ⟨p, hp, rfl⟩

theorem le_foldl_max (l : List ℤ) : ∀ m : ℤ, m ≤ l.foldl max m ∧ ∀ p ∈ l, p ≤ l.foldl max m := by
  induction l with
  | nil =>
    intro m
    exact ⟨le_rfl, fun p hp => absurd hp not_mem_nil⟩
  | cons q l ih =>
    intro m
    obtain ⟨hstart, hall⟩ := ih (max m q)
    refine ⟨(le_max_left m q).trans hstart, fun p hp => ?_⟩
    rcases mem_cons.1 hp with rfl | hp
    · exact (le_max_right m p).trans hstart
    · exact hall p hp

/-- The slots of the rows lead, in the list of positions, back to the rows. -/
def UnionRight (sel : CohortSelection) (posList : List ℕ) (idx : List (List ℤ)) : Prop :=
  ∀ b : ℕ, (idx.getD b []).length = (sel.getD b []).length ∧
    ∀ (i : ℕ) (p : ℤ), (sel.getD b [])[i]? = some p →
      ∃ k q : ℕ, (idx.getD b [])[i]? = some (k : ℤ) ∧ posList[k]? = some q ∧ (q : ℤ) = p

theorem unionRight_numberPositions (hpos : ∀ row ∈ sel, ∀ p ∈ row, 0 ≤ p) :
    let r := numberPositions (range (maxPos sel + 1).toNat) (marks sel, [])
    UnionRight sel r.2 (sel.map fun row => row.map fun p => r.1 p.toNat) := by
  intro r b
  cases hb : sel[b]? with
  | none => simp [getD_eq_getElem?_getD, hb]
  | some row =>
    simp only [getD_eq_getElem?_getD, getElem?_map, hb, Option.map_some,
      Option.getD_some, length_map, true_and]
    intro i p hp
    have hrow := mem_of_getElem? hb
    have hmem : p ∈ sel.flatten := mem_flatten.2 ⟨row, hrow, mem_of_getElem? hp⟩
    have hnonneg := hpos row hrow p (mem_of_getElem? hp)
    have hle : p ≤ maxPos sel := (le_foldl_max _ _).2 p hmem
    have hrange : p.toNat ∈ range (maxPos sel + 1).toNat := by
      rw [mem_range]
      omega
    obtain ⟨k, hk, hslot⟩ :=
      (numberPositions_spec nodup_range).2.2 p.toNat hrange (marks_of_mem hmem)
    refine ⟨k, p.toNat, ?_, hslot, Int.toNat_of_nonneg hnonneg⟩
    rw [hp, Option.map_some, ← hk]

/-! ### Invariants -/

open CohortState

/-- What the ghosts stand for. -/
structure CohortInv (s : CohortState) : Prop where
  hostLe : s.hostEpoch ≤ s.epoch
  unionLe : s.unionEpoch ≤ s.epoch
  host : s.scValid = true → s.hostEpoch = s.epoch → s.hIndices = firstRows s.device s.scRows
  union : s.uValid = true → s.unionEpoch = s.epoch →
    UnionRight (firstRows s.device s.uRows) s.uPosList s.uIdx

namespace CohortInv

theorem init : CohortInv .init :=
  ⟨le_rfl, le_rfl, fun h => (by cases h), fun h => (by cases h)⟩

variable {s : CohortState}

theorem ensure (h : CohortInv s) (layer : ℕ) : CohortInv (s.ensureCohortSelection layer) := by
  unfold ensureCohortSelection
  by_cases hre : s.HostReused layer
  · rw [if_pos hre]
    exact { h with }
  · rw [if_neg hre]
    exact ⟨le_rfl, h.unionLe, fun _ _ => rfl, h.union⟩

theorem hIndices_ensure (h : CohortInv s) {layer : ℕ}
    (hm : s.HostReused layer → s.hostEpoch = s.epoch) :
    (s.ensureCohortSelection layer).hIndices = firstRows s.device s.ctxRows := by
  unfold ensureCohortSelection
  by_cases hre : s.HostReused layer
  · rw [if_pos hre]
    have hrows := h.host hre.1.1 (hm hre)
    rw [hre.1.2.2.2] at hrows
    exact hrows
  · rw [if_neg hre]

end CohortInv

theorem ensure_frame (s : CohortState) (layer : ℕ) :
    (s.ensureCohortSelection layer).device = s.device ∧
    (s.ensureCohortSelection layer).epoch = s.epoch ∧
    (s.ensureCohortSelection layer).unionEpoch = s.unionEpoch ∧
    ∀ rows, (s.ensureCohortSelection layer).UnionKept rows ↔ s.UnionKept rows := by
  unfold ensureCohortSelection
  by_cases hre : s.HostReused layer
  · rw [if_pos hre]
    exact ⟨rfl, rfl, rfl, fun _ => Iff.rfl⟩
  · rw [if_neg hre]
    exact ⟨rfl, rfl, rfl, fun _ => Iff.rfl⟩

theorem firstRows_firstRows (sel : CohortSelection) (rows : ℕ) :
    firstRows (firstRows sel rows) rows = firstRows sel rows := by
  unfold firstRows
  apply map_congr_left
  intro b hb
  rw [mem_range] at hb
  simp [getD_eq_getElem?_getD, hb]

namespace CohortConfig

variable {cfg : CohortConfig} {s : CohortState}

/-- **The union build**: of the selection on the device, if the host copy is. -/
theorem buildUnion_right (cfg : CohortConfig) {rows : ℕ}
    (hrows : s.hIndices = firstRows s.device rows) (h : CohortInv s) :
    CohortInv (cfg.buildUnion s rows).1 ∧ (cfg.buildUnion s rows).1.device = s.device ∧
    (∀ posList idx, (cfg.buildUnion s rows).2 ≠ some (.union posList idx)) ∧
    ((cfg.buildUnion s rows).2 = none →
      UnionRight (firstRows s.device rows) (cfg.buildUnion s rows).1.uPosList
        (cfg.buildUnion s rows).1.uIdx) := by
  have hsel : firstRows s.hIndices rows = firstRows s.device rows := by
    rw [hrows, firstRows_firstRows]
  have hno : ∀ posList, CohortInv { s with uValid := false, uPosList := posList } :=
    fun _ => { h with union := fun hv => (by cases hv) }
  unfold buildUnion
  rw [hsel]
  by_cases hbad : cfg.Malformed (firstRows s.device rows)
  · rw [if_pos hbad]
    exact ⟨hno s.uPosList, rfl, fun _ _ heq => (by cases heq), fun hnone => (by cases hnone)⟩
  rw [if_neg hbad]
  by_cases hempty : maxPos (firstRows s.device rows) < 0
  · rw [if_pos hempty]
    exact ⟨hno s.uPosList, rfl, fun _ _ heq => (by cases heq), fun hnone => (by cases hnone)⟩
  rw [if_neg hempty]
  have hpos : ∀ row ∈ firstRows s.device rows, ∀ p ∈ row, 0 ≤ p := by
    intro row hrow p hp
    by_contra hneg
    exact hbad ⟨row, hrow, .inr ⟨p, hp, not_le.1 hneg⟩⟩
  have hright := unionRight_numberPositions hpos
  generalize numberPositions (range (maxPos (firstRows s.device rows) + 1).toNat)
    (marks (firstRows s.device rows), []) = r at hright ⊢
  by_cases hcap : cfg.unionCap < r.2.length
  · rw [if_pos hcap]
    exact ⟨hno r.2, rfl, fun _ _ heq => (by cases heq), fun hnone => (by cases hnone)⟩
  · rw [if_neg hcap]
    exact ⟨⟨h.hostLe, h.hostLe, h.host, fun _ _ => hright⟩, rfl, fun _ _ heq => (by cases heq),
      fun _ => hright⟩

theorem materializeCohort_right (h : CohortInv s) {layer rows : ℕ}
    (hm : s.Meets (.materializeCohort layer rows)) :
    CohortInv (cfg.materializeCohort s layer rows).1 ∧
    (cfg.materializeCohort s layer rows).1.device = s.device ∧
    ∀ posList idx, (cfg.materializeCohort s layer rows).2 = .union posList idx →
      UnionRight (firstRows s.device rows) posList idx := by
  unfold materializeCohort
  by_cases hoff : cfg.unionCap = 0
  · rw [if_pos hoff]
    exact ⟨h, rfl, fun _ _ heq => (by cases heq)⟩
  rw [if_neg hoff]
  by_cases hshape : rows < 2 ∨ cfg.cohortRowsMax < rows
  · rw [if_pos hshape]
    exact ⟨h, rfl, fun _ _ heq => (by cases heq)⟩
  rw [if_neg hshape]
  by_cases hplace : cfg.Misplaced s layer rows
  · rw [if_pos hplace]
    exact ⟨h, rfl, fun _ _ heq => (by cases heq)⟩
  rw [if_neg hplace]
  by_cases hcold : s.ctxCold = false
  · rw [if_pos hcold]
    exact ⟨h, rfl, fun _ _ heq => (by cases heq)⟩
  rw [if_neg hcold]
  have hctx : rows = s.ctxRows := by
    by_contra hne
    exact hplace (.inr (.inr (.inr hne)))
  have hens := h.ensure layer
  obtain ⟨hdevice, hepoch, hunion, hkeeps⟩ := ensure_frame s layer
  simp only [Meets] at hm
  -- what the rest of the call finds
  have hbuilt : ∀ r : CohortState × Option CohortAnswer,
      (if (s.ensureCohortSelection layer).UnionKept rows then (s.ensureCohortSelection layer, none)
        else cfg.buildUnion (s.ensureCohortSelection layer) rows) = r →
      CohortInv r.1 ∧ r.1.device = s.device ∧ (∀ posList idx, r.2 ≠ some (.union posList idx)) ∧
        (r.2 = none → UnionRight (firstRows s.device rows) r.1.uPosList r.1.uIdx) := by
    rintro r rfl
    by_cases hkept : s.UnionKept rows
    · rw [if_pos hkept] at hm
      have hkept' := (hkeeps rows).2 hkept
      rw [if_pos hkept']
      refine ⟨hens, hdevice, fun _ _ heq => (by cases heq), fun _ => ?_⟩
      have hright := hens.union hkept'.1 (by rw [hunion, hepoch, hm])
      rw [hdevice, hkept'.2.2.2] at hright
      exact hright
    · rw [if_neg hkept] at hm
      rw [if_neg fun hk => hkept ((hkeeps rows).1 hk)]
      have hrows : (s.ensureCohortSelection layer).hIndices =
          firstRows (s.ensureCohortSelection layer).device rows := by
        rw [hdevice, hctx]
        exact h.hIndices_ensure hm
      have hbuild := buildUnion_right cfg hrows hens
      rw [hdevice] at hbuild
      exact hbuild
  simp only
  generalize (if (s.ensureCohortSelection layer).UnionKept rows then
    (s.ensureCohortSelection layer, none)
    else cfg.buildUnion (s.ensureCohortSelection layer) rows) = r at hbuilt ⊢
  obtain ⟨hinv, hdev, hfails, hright⟩ := hbuilt r rfl
  obtain ⟨t, answer⟩ := r
  cases answer with
  | some answer =>
    exact ⟨hinv, hdev, fun posList idx heq => absurd (congrArg some heq) (hfails posList idx)⟩
  | none =>
    simp only
    by_cases hnil : t.uPosList = []
    · rw [if_pos hnil]
      exact ⟨hinv, hdev, fun _ _ heq => (by cases heq)⟩
    rw [if_neg hnil]
    refine ⟨hinv, hdev, fun posList idx heq => ?_⟩
    cases heq
    exact hright rfl

theorem materializeRow_right (h : CohortInv s) {layer row rows : ℕ}
    (hm : s.Meets (.materializeRow layer row rows)) :
    CohortInv (cfg.materializeRow s layer row rows).1 ∧
    ∀ positions, (cfg.materializeRow s layer row rows).2 = .row positions →
      positions = s.device.getD row [] := by
  unfold materializeRow
  by_cases hshape : rows < 1 ∨ cfg.cohortRowsMax < rows ∨ rows ≤ row
  · rw [if_pos hshape]
    exact ⟨h, fun _ heq => (by cases heq)⟩
  rw [if_neg hshape]
  by_cases hplace : cfg.Misplaced s layer rows
  · rw [if_pos hplace]
    exact ⟨h, fun _ heq => (by cases heq)⟩
  rw [if_neg hplace]
  by_cases hcold : s.ctxCold = false
  · rw [if_pos hcold]
    exact ⟨h, fun _ heq => (by cases heq)⟩
  rw [if_neg hcold]
  have hctx : rows = s.ctxRows := by
    by_contra hne
    exact hplace (.inr (.inr (.inr hne)))
  have hrow : (s.ensureCohortSelection layer).hIndices.getD row [] = s.device.getD row [] := by
    have hlt : row < rows := not_le.1 fun hle => hshape (.inr (.inr hle))
    rw [h.hIndices_ensure hm, ← hctx]
    simp [firstRows, getD_eq_getElem?_getD, hlt]
  simp only [hrow]
  by_cases hnil : s.device.getD row [] = []
  · rw [if_pos hnil]
    exact ⟨h.ensure layer, fun _ heq => (by cases heq)⟩
  rw [if_neg hnil]
  by_cases hlong : cfg.indexTopkRows < (s.device.getD row []).length
  · rw [if_pos hlong]
    exact ⟨h.ensure layer, fun _ heq => (by cases heq)⟩
  rw [if_neg hlong]
  refine ⟨h.ensure layer, fun positions heq => ?_⟩
  cases heq
  rfl

theorem step_inv (h : CohortInv s) {op : Op} (hm : s.Meets op) : CohortInv (cfg.step s op) := by
  cases op with
  | beginLayer seq layer pos rows cold | share => exact { h with }
  | select sel =>
    simp only [step]
    by_cases hsame : sel = s.device
    · rw [if_pos hsame, hsame]
      exact { h with }
    -- no copy is of the new selection
    rw [if_neg hsame]
    refine ⟨h.hostLe.trans (Nat.le_succ _), h.unionLe.trans (Nat.le_succ _), fun _ heq => ?_,
      fun _ heq => ?_⟩
    · exact absurd (heq ▸ h.hostLe) (Nat.not_succ_le_self _)
    · exact absurd (heq ▸ h.unionLe) (Nat.not_succ_le_self _)
  | materializeRow layer row rows => exact (materializeRow_right h hm).1
  | materializeCohort layer rows => exact (materializeCohort_right h hm).1
  | seqFree seq =>
    have hfreed : CohortInv
        (if s.scSeq = seq then { s with scValid := false, preparedLayer := none } else s) := by
      by_cases hseq : s.scSeq = seq
      · rw [if_pos hseq]
        exact { h with host := fun hv => (by cases hv) }
      · rw [if_neg hseq]
        exact h
    simp only [step]
    generalize (if s.scSeq = seq then { s with scValid := false, preparedLayer := none } else s) = t
      at hfreed ⊢
    by_cases hctx : t.ctxSeq = seq
    · rw [if_pos hctx]
      exact { hfreed with }
    · rw [if_neg hctx]
      exact hfreed

/-- **The batched view uses the layer's own selection** in every run whose reuses are of the
selection on the device: for every row, each slot leads to the position that the indexer has
selected, which is also what the row would be given alone. -/
theorem cohort_view_uses_own_selection (cfg : CohortConfig) {ops : List Op} {s : CohortState}
    (hrun : GuardedRun (fun s op => some (cfg.step s op)) CohortState.Meets .init ops s) :
    (∀ layer rows posList idx, s.Meets (.materializeCohort layer rows) →
      (cfg.materializeCohort s layer rows).2 = .union posList idx →
      UnionRight (firstRows s.device rows) posList idx) ∧
    ∀ layer row rows positions, s.Meets (.materializeRow layer row rows) →
      (cfg.materializeRow s layer row rows).2 = .row positions →
      positions = s.device.getD row [] := by
  have hinv : CohortInv s := by
    apply hrun.invariant _ .init
    intro t op u ht hop hu
    cases hu
    exact step_inv ht hop
  exact ⟨fun layer rows posList idx hm hview => (materializeCohort_right hinv hm).2.2 _ _ hview,
    fun layer row rows positions hm => (materializeRow_right hinv hm).2 positions⟩

def twoRows : CohortConfig := ⟨4, 2, 2, 4⟩

/-- A step at the end of a page that is cold. -/
def fullThenShared : List Op :=
  [.beginLayer 1 0 64 2 true, .select [[5, 3], [3]], .materializeCohort 0 2,
    .beginLayer 1 1 64 2 true, .share]

/-- The shared layer is given the union of the full one. -/
theorem cohort_view_uses_own_selection_shared : ∃ s : CohortState,
    GuardedRun (fun s op => some (twoRows.step s op)) CohortState.Meets .init fullThenShared s ∧
    (twoRows.materializeCohort s 1 2).2 = .union [3, 5] [[1, 0], [0]] ∧
    UnionRight (firstRows s.device 2) [3, 5] [[1, 0], [0]] := by
  have hrun : GuardedRun (fun s op => some (twoRows.step s op)) CohortState.Meets .init
      fullThenShared (fullThenShared.foldl twoRows.step .init) :=
    .cons trivial rfl (.cons trivial rfl (.cons (by decide) rfl (.cons trivial rfl
      (.cons trivial rfl (.nil _)))))
  have hview : (twoRows.materializeCohort (fullThenShared.foldl twoRows.step .init) 1 2).2 =
      .union [3, 5] [[1, 0], [0]] := by decide
  exact ⟨_, hrun, hview, (cohort_view_uses_own_selection twoRows hrun).1 1 2 _ _ (by decide) hview⟩

/-- **What the identities miss**: a second full layer of the step is given the union of the first
one, and so is a step that begins again at the same position with another selection, by the
batched and the row-wise way alike. -/
theorem second_selection_is_missed :
    (∃ s : CohortState, Run (fun s op => some (twoRows.step s op)) .init
        [.beginLayer 1 0 64 2 true, .select [[5, 3], [3]], .materializeCohort 0 2,
          .beginLayer 1 1 64 2 true, .select [[7], [6]]] s ∧
      (twoRows.materializeCohort s 1 2).2 = .union [3, 5] [[1, 0], [0]] ∧
      ¬UnionRight (firstRows s.device 2) [3, 5] [[1, 0], [0]]) ∧
    ∃ s : CohortState, Run (fun s op => some (twoRows.step s op)) .init
        [.beginLayer 1 0 64 2 true, .select [[5, 3], [3]], .materializeCohort 0 2,
          .beginLayer 1 0 64 2 true, .select [[7], [6]]] s ∧
      (twoRows.materializeCohort s 0 2).2 = .union [3, 5] [[1, 0], [0]] ∧
      (twoRows.materializeRow s 0 0 2).2 = .row [5, 3] ∧
      ¬UnionRight (firstRows s.device 2) [3, 5] [[1, 0], [0]] := by
  have hwrong : ¬UnionRight (firstRows [[7], [6]] 2) [3, 5] [[1, 0], [0]] := by
    intro h
    have hlen := (h 0).1
    revert hlen
    decide
  exact ⟨⟨_, Run.of_foldlM rfl, by decide, hwrong⟩,
    ⟨_, Run.of_foldlM rfl, by decide, by decide, hwrong⟩⟩

end CohortConfig

end LayerStorm.Daemon
