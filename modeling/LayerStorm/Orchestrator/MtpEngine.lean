import LayerStorm.Orchestrator.SpecLossless
import LayerStorm.Orchestrator.MtpDecode

/-!
# The engine under speculation with the MTP layer

A pass moves the engine from one history to a longer one and finds the greedy choices on the way.
The host's list of anchors and the engine's slots stay in step as long as no slot is left
unclaimed, and a restore goes back to the history of its anchor.
-/

namespace LayerStorm.Orchestrator

open List
namespace MtpDecode

open Lib
open SpecDecode (feed below below_feed)

/-! ### The indexer -/

/-- A pass may start here: the row advances the coverage, repeats its last position, or is a
legal rewind. -/
def LegalStart (kp pos next : ℕ) : Prop :=
  pos = next ∨ pos + 1 = next ∨ (pos < next ∧ legal kp pos next = true)

theorem indexerRow_blessed {kp next pos : ℕ} {run : ℕ × ℕ} (h₁ : run.1 ≤ run.2)
    (h₂ : run.1 ≤ pos) (h₃ : pos ≤ run.2 + 1) (hpos : pos ≤ next) :
    indexerRow kp (next, run) pos = some (max next (pos + 1), run.1, max run.2 pos) := by
  unfold indexerRow
  simp only [h₁, h₂, h₃, decide_true, Bool.and_self, not_lt.2 hpos, if_false, if_true,
    Bool.true_eq_false, and_false]
  congr 2
  split <;> omega

theorem indexerRow_start {kp next pos : ℕ} (run : ℕ × ℕ) (h : LegalStart kp pos next) :
    ∃ run' : ℕ × ℕ, indexerRow kp (next, run) pos = some (max next (pos + 1), run') ∧
      run'.1 ≤ pos ∧ pos ≤ run'.2 := by
  have hpos : pos ≤ next := by
    rcases h with h | h | h <;> omega
  by_cases hblessed : run.1 ≤ run.2 ∧ run.1 ≤ pos ∧ pos ≤ run.2 + 1
  · obtain ⟨h₁, h₂, h₃⟩ := hblessed
    exact ⟨_, indexerRow_blessed h₁ h₂ h₃ hpos, h₂, le_max_right _ _⟩
  have hguard : ¬ (pos < next ∧ pos + 1 ≠ next ∧ legal kp pos next = false) := by
    rintro ⟨h₁, h₂, h₃⟩
    rcases h with h | h | h
    · omega
    · exact h₂ h
    · rw [h.2] at h₃
      cases h₃
  have hnot : (decide (run.1 ≤ run.2) && decide (run.1 ≤ pos) &&
      decide (pos ≤ run.2 + 1)) = false := by
    simpa only [Bool.and_eq_false_iff, decide_eq_false_iff_not, ← not_and_or, and_assoc]
      using hblessed
  refine ⟨(pos, pos), ?_, le_refl pos, le_refl pos⟩
  unfold indexerRow
  simp only [hnot, not_lt.2 hpos, if_false, and_true, hguard]
  congr 2
  split <;> omega

theorem foldlM_blessed (kp : ℕ) : ∀ (n next pos pos0 : ℕ) (run : ℕ × ℕ), run.1 ≤ pos0 →
    pos0 ≤ run.2 → pos0 ≤ pos → pos ≤ run.2 + 1 → pos ≤ next →
      ∃ run' : ℕ × ℕ, (range' pos n).foldlM (indexerRow kp) (next, run) =
        some (max next (pos + n), run') ∧ run'.1 ≤ pos0 ∧ pos0 ≤ run'.2 := by
  intro n
  induction n with
  | zero =>
    intro next pos pos0 run h₁ h₂ _ _ hnext
    refine ⟨run, ?_, h₁, h₂⟩
    simp [Nat.max_eq_left hnext]
  | succ n ih =>
    intro next pos pos0 run h₁ h₂ h₃ h₄ hnext
    have hrow : indexerRow kp (next, run) pos = some (max next (pos + 1), run.1, max run.2 pos) :=
      indexerRow_blessed (by omega) (by omega) h₄ hnext
    obtain ⟨run', hfold, hrun⟩ := ih (max next (pos + 1)) (pos + 1) pos0
      (run.1, max run.2 pos) h₁ (by simp only; omega) (by omega) (by simp only; omega) (by omega)
    refine ⟨run', ?_, hrun⟩
    rw [range'_succ, foldlM_cons, hrow]
    simp only [Option.bind_eq_bind, Option.bind_some]
    rw [hfold]
    congr 2
    omega

/-- **Every indexer layer accepts a pass that starts legally.** -/
theorem sweep_spec (cfg : Config) (e : Engine) {pos n : ℕ} (hn : 0 < n)
    (hstart : LegalStart cfg.kp pos e.nextPos) :
    ∃ run, e.sweep cfg pos n = some (max e.nextPos (pos + n), run) := by
  -- the first layer leaves the start inside the window
  obtain ⟨m, rfl⟩ : ∃ m, n = m + 1 := ⟨n - 1, by omega⟩
  obtain ⟨run₁, hrow, hrun₁⟩ := indexerRow_start e.run hstart
  obtain ⟨run₂, hfold, hrun₂⟩ := foldlM_blessed cfg.kp m (max e.nextPos (pos + 1)) (pos + 1)
    pos run₁ hrun₁.1 hrun₁.2 (by omega) (by omega) (by omega)
  have hfirst : (range' pos (m + 1)).foldlM (indexerRow cfg.kp) (e.nextPos, e.run) =
      some (max e.nextPos (pos + (m + 1)), run₂) := by
    rw [range'_succ, foldlM_cons, hrow]
    simp only [Option.bind_eq_bind, Option.bind_some]
    rw [hfold]
    congr 2
    omega
  -- so each later layer finds its rows inside the window
  have hlater : ∀ (k : ℕ) {run : ℕ × ℕ}, run.1 ≤ pos → pos ≤ run.2 →
      ∃ run', (replicate k (range' pos (m + 1))).flatten.foldlM (indexerRow cfg.kp)
        (max e.nextPos (pos + (m + 1)), run) = some (max e.nextPos (pos + (m + 1)), run') := by
    intro k
    induction k with
    | zero =>
      intro run _ _
      exact ⟨run, rfl⟩
    | succ k ih =>
      intro run h₁ h₂
      obtain ⟨run', hfold, hrun'⟩ := foldlM_blessed cfg.kp (m + 1)
        (max e.nextPos (pos + (m + 1))) pos pos run h₁ h₂ (le_refl pos) (by omega) (by omega)
      obtain ⟨run'', hrest⟩ := ih hrun'.1 hrun'.2
      refine ⟨run'', ?_⟩
      rw [replicate_succ, flatten_cons, foldlM_append, hfold]
      simp only [max_assoc, max_self]
      exact hrest
  obtain ⟨run, hrest⟩ := hlater cfg.indexerLayers hrun₂.1 hrun₂.2
  refine ⟨run, ?_⟩
  unfold Engine.sweep
  rw [replicate_succ, flatten_cons, foldlM_append, hfirst]
  exact hrest

/-! ### Passes -/

/-- The engine stands behind a history: its recurrent state has absorbed it, and it is stored. -/
structure Holds (e : Engine) (h : List ℕ) : Prop where
  absorbed : e.absorbed = h
  frontier : e.frontier = h.length
  stored : below e.cells h.length = h

section

variable {cfg : Config} {target : Target} {e e' : Engine} {h : List ℕ}

theorem Holds.kdaSnapshot (he : Holds e h) (pos : ℕ) (claim : Bool) :
    Holds (e.kdaSnapshot cfg pos claim).1 h := by
  unfold Engine.kdaSnapshot
  dsimp only
  split
  · exact { he with }
  · exact he

variable (target) in
theorem holds_row (he : Holds e h) (tok : ℕ) : Holds (Engine.row target tok e).1 (h ++ [tok]) ∧
      (Engine.row target tok e).2 = target (h ++ [tok]) (h ++ [tok]) := by
  have hcells : below (feed e.cells e.frontier [tok]) (e.frontier + 1) = h ++ [tok] := by
    rw [below_feed e.cells e.frontier [tok] (Nat.le_refl 1), he.frontier, he.stored]
    rfl
  refine ⟨⟨?_, ?_, ?_⟩, ?_⟩
  · show e.absorbed ++ [tok] = h ++ [tok]
    rw [he.absorbed]
  · show e.frontier + 1 = (h ++ [tok]).length
    rw [he.frontier, length_append, length_singleton]
  · show below (feed e.cells e.frontier [tok]) (h ++ [tok]).length = h ++ [tok]
    rw [length_append, length_singleton, ← he.frontier]
    exact hcells
  · show target (below (feed e.cells e.frontier [tok]) (e.frontier + 1)) (e.absorbed ++ [tok]) = _
    rw [hcells, he.absorbed]

variable (cfg target) in
/-- **The rows of a pass** find the greedy choices of a history that they go through. -/
theorem holds_rowsFrom (snap claim : ℕ → Bool) : ∀ (rows : List ℕ) (i : ℕ) {e : Engine}
    {h : List ℕ}, Holds e h → Holds (e.rowsFrom cfg target snap claim rows i).1 (h ++ rows) ∧
        (e.rowsFrom cfg target snap claim rows i).2.length = rows.length ∧
        ∀ k < rows.length, (e.rowsFrom cfg target snap claim rows i).2.getD k 0 =
          target (h ++ rows.take (k + 1)) (h ++ rows.take (k + 1)) := by
  intro rows
  induction rows with
  | nil =>
    intro i e h he
    exact ⟨by simpa [Engine.rowsFrom] using he, rfl, fun k hk => absurd hk (Nat.not_lt_zero k)⟩
  | cons tok rows ih =>
    intro i e h he
    obtain ⟨hrow, hout⟩ := holds_row target he tok
    unfold Engine.rowsFrom
    dsimp only
    set e₁ := if snap i then _ else _ with he₁
    have hsnap : Holds e₁ (h ++ [tok]) := by
      rw [he₁]
      split
      · exact hrow.kdaSnapshot _ _
      · exact hrow
    obtain ⟨hrest, hlen, houts⟩ := ih (i + 1) hsnap
    rw [append_assoc, singleton_append] at hrest
    refine ⟨hrest, by rw [length_cons, hlen, length_cons], ?_⟩
    intro k hk
    cases k with
    | zero => simpa using hout
    | succ k =>
      rw [getD_cons_succ, houts k (by simpa using hk), take_succ_cons, append_assoc,
        singleton_append]

end

/-! ### Anchors -/

/-- The anchors of the host are those of the engine, wherever a slot is claimed. -/
def Recorded (kp : ℕ) (slots : Fin 2 → AnchorSlot) (anchors h : List ℕ) : Prop :=
  ∀ a ∈ anchors, a ≤ h.length ∧ ((slots (slotOf kp a)).claimed = true →
    slots (slotOf kp a) = ⟨true, some a, h.take a⟩)

/-- Each slot holds anchors of its own kind. -/
def SlotsOk (kp : ℕ) (slots : Fin 2 → AnchorSlot) : Prop :=
  ∀ k p, (slots k).pos = some p → slotOf kp p = k

theorem Recorded.append {kp : ℕ} {slots : Fin 2 → AnchorSlot} {anchors h : List ℕ}
    (hr : Recorded kp slots anchors h) (l : List ℕ) : Recorded kp slots anchors (h ++ l) := by
  intro a ha
  obtain ⟨hle, hslot⟩ := hr a ha
  refine ⟨?_, fun hclaimed => ?_⟩
  · rw [length_append]
    omega
  · rw [take_append_of_le_length hle]
    exact hslot hclaimed

theorem mem_record {kp a x : ℕ} {anchors : List ℕ} :
    x ∈ record kp anchors a ↔ (x ∈ anchors ∧ slotOf kp x ≠ slotOf kp a) ∨ x = a := by
  simp [record]

section

variable {cfg : Config} {target : Target} {e : Engine} {anchors h : List ℕ}

theorem slots_kdaSnapshot (e : Engine) (pos : ℕ) (claim : Bool) (k : Fin 2) :
    (e.kdaSnapshot cfg pos claim).1.slots k =
      if k = slotOf cfg.kp pos ∧ e.frontier = pos ∧ ((e.slots k).claimed = true ∨ claim = true)
      then ⟨true, some pos, e.absorbed⟩ else e.slots k := by
  unfold Engine.kdaSnapshot
  dsimp only
  by_cases hk : k = slotOf cfg.kp pos
  · subst hk
    by_cases hguard : e.frontier = pos ∧
        ((e.slots (slotOf cfg.kp pos)).claimed = true ∨ claim = true)
    · rw [if_pos hguard, if_pos ⟨rfl, hguard⟩]
      exact Function.update_self _ _ _
    · rw [if_neg hguard, if_neg fun h => hguard h.2]
  · have hres : ¬ (k = slotOf cfg.kp pos ∧ e.frontier = pos ∧
        ((e.slots k).claimed = true ∨ claim = true)) := fun h => hk h.1
    split
    · exact Function.update_of_ne hk _ _
    · rfl

theorem recorded_kdaSnapshot (he : Holds e h) (hr : Recorded cfg.kp e.slots anchors h)
    (claim : Bool) :
    Recorded cfg.kp (e.kdaSnapshot cfg h.length claim).1.slots
      (record cfg.kp anchors h.length) h := by
  intro a ha
  rw [slots_kdaSnapshot]
  rcases mem_record.1 ha with ⟨hmem, hslot⟩ | rfl
  · rw [if_neg fun h => hslot h.1]
    exact hr a hmem
  refine ⟨Nat.le_refl _, ?_⟩
  split
  · intro _
    rw [he.absorbed, take_length]
  · next hguard =>
    intro hclaimed
    exact absurd ⟨rfl, he.frontier, .inl hclaimed⟩ hguard

theorem slotsOk_kdaSnapshot (hok : SlotsOk cfg.kp e.slots) (pos : ℕ) (claim : Bool) :
    SlotsOk cfg.kp (e.kdaSnapshot cfg pos claim).1.slots := by
  intro k p hp
  rw [slots_kdaSnapshot] at hp
  split at hp
  · next hguard =>
    cases hp
    exact hguard.1.symm
  · exact hok k p hp

theorem claimed_kdaSnapshot (pos : ℕ) (claim : Bool) (k : Fin 2)
    (h : (e.slots k).claimed = true ∨ (e.frontier = pos ∧ claim = true ∧ slotOf cfg.kp pos = k)) :
    ((e.kdaSnapshot cfg pos claim).1.slots k).claimed = true := by
  rw [slots_kdaSnapshot]
  split
  · rfl
  next hguard =>
  rcases h with h | ⟨hpos, hclaim, hk⟩
  · exact h
  · exact absurd ⟨hk.symm, hpos, .inr hclaim⟩ hguard

/-- The anchors that rows from row `i` take, behind `pos0`. -/
def newAnchors (snap : ℕ → Bool) (pos0 i n : ℕ) : List ℕ :=
  ((List.range' i n).filter snap).map fun i => pos0 + i + 1

variable (target) in
/-- **The mirror of the anchors** through the rows of a pass. -/
theorem recorded_rowsFrom (snap claim : ℕ → Bool) (pos0 : ℕ) : ∀ (rows : List ℕ) (i : ℕ)
    {e : Engine} {anchors h : List ℕ}, Holds e h → h.length = pos0 + i →
      Recorded cfg.kp e.slots anchors h → SlotsOk cfg.kp e.slots →
        Recorded cfg.kp (e.rowsFrom cfg target snap claim rows i).1.slots
            ((newAnchors snap pos0 i rows.length).foldl (record cfg.kp) anchors) (h ++ rows) ∧
          SlotsOk cfg.kp (e.rowsFrom cfg target snap claim rows i).1.slots := by
  intro rows
  induction rows with
  | nil =>
    intro i e anchors h _ _ hr hok
    exact ⟨by simpa [newAnchors, Engine.rowsFrom] using hr, hok⟩
  | cons tok rows ih =>
    intro i e anchors h he hlen hr hok
    obtain ⟨hrow, -⟩ := holds_row target he tok
    have hlen' : (h ++ [tok]).length = pos0 + (i + 1) := by
      rw [length_append, length_singleton]
      omega
    have hr' : Recorded cfg.kp (Engine.row target tok e).1.slots anchors (h ++ [tok]) :=
      hr.append [tok]
    unfold Engine.rowsFrom
    have hnew : newAnchors snap pos0 i (rows.length + 1) =
        (if snap i then [pos0 + i + 1] else []) ++ newAnchors snap pos0 (i + 1) rows.length := by
      unfold newAnchors
      rw [range'_succ, filter_cons]
      split <;> simp
    rw [length_cons, hnew, foldl_append]
    by_cases hsnap : snap i = true
    · simp only [hsnap, if_true]
      have hfront : (Engine.row target tok e).1.frontier = (h ++ [tok]).length := hrow.frontier
      rw [hfront]
      have hsnapped := recorded_kdaSnapshot hrow hr' (claim i)
      have hok' : SlotsOk cfg.kp (Engine.row target tok e).1.slots := hok
      have hres := ih (i + 1) (hrow.kdaSnapshot _ (claim i)) hlen' hsnapped
        (slotsOk_kdaSnapshot hok' _ _)
      have hpos : pos0 + i + 1 = (h ++ [tok]).length := by omega
      rw [foldl_cons, foldl_nil, hpos]
      simpa using hres
    · simp only [hsnap, Bool.false_eq_true, if_false, foldl_nil]
      simpa using ih (i + 1) hrow hlen' hr' hok

theorem claimed_rowsFrom (snap claim : ℕ → Bool) (pos0 : ℕ) (k : Fin 2) : ∀ (rows : List ℕ)
    (i : ℕ) {e : Engine}, e.frontier = pos0 + i →
      ((e.slots k).claimed = true ∨ ∃ j, i ≤ j ∧ j < i + rows.length ∧ snap j = true ∧
        claim j = true ∧ slotOf cfg.kp (pos0 + j + 1) = k) →
          ((e.rowsFrom cfg target snap claim rows i).1.slots k).claimed = true := by
  intro rows
  induction rows with
  | nil =>
    intro i e _ h
    rcases h with h | ⟨j, h₁, h₂, -⟩
    · exact h
    · rw [length_nil] at h₂
      omega
  | cons tok rows ih =>
    intro i e hfront h
    unfold Engine.rowsFrom
    have hfront' : (Engine.row target tok e).1.frontier = pos0 + (i + 1) := by
      show e.frontier + 1 = _
      omega
    have hfrontier : ∀ (pos : ℕ) (c : Bool),
        ((Engine.row target tok e).1.kdaSnapshot cfg pos c).1.frontier = pos0 + (i + 1) := by
      intro pos c
      rw [← hfront']
      unfold Engine.kdaSnapshot
      dsimp only
      split <;> rfl
    rw [length_cons] at h
    split
    · next hsnap =>
      refine ih (i + 1) (hfrontier _ _) ?_
      rcases h with h | ⟨j, h₁, h₂, hj, hclaim, hslot⟩
      · exact .inl (claimed_kdaSnapshot _ _ k (.inl h))
      rcases Nat.eq_or_lt_of_le h₁ with rfl | hlt
      · refine .inl (claimed_kdaSnapshot _ _ k (.inr ⟨rfl, hclaim, ?_⟩))
        rw [hfront']
        exact hslot
      · exact .inr ⟨j, hlt, by omega, hj, hclaim, hslot⟩
    · next hsnap =>
      refine ih (i + 1) hfront' ?_
      rcases h with h | ⟨j, h₁, h₂, hj, hclaim, hslot⟩
      · exact .inl h
      rcases Nat.eq_or_lt_of_le h₁ with rfl | hlt
      · exact absurd hj hsnap
      · exact .inr ⟨j, hlt, by omega, hj, hclaim, hslot⟩

theorem nextPos_rowsFrom (snap claim : ℕ → Bool) : ∀ (rows : List ℕ) (i : ℕ) (e : Engine),
    (e.rowsFrom cfg target snap claim rows i).1.nextPos = e.nextPos := by
  intro rows
  induction rows with
  | nil =>
    intro i e
    rfl
  | cons tok rows ih =>
    intro i e
    unfold Engine.rowsFrom
    rw [ih]
    unfold Engine.kdaSnapshot
    dsimp only
    split
    · split <;> rfl
    · rfl

/-- What a pass leaves behind a history, with its choices. -/
structure Passed (cfg : Config) (target : Target) (snap claim : ℕ → Bool) (anchors h rows : List ℕ)
    (e e' : Engine) (outs : List ℕ) : Prop where
  holds : Holds e' (h ++ rows)
  nextPos : e'.nextPos = max e.nextPos (h.length + rows.length)
  outs : ∀ k < rows.length, outs.getD k 0 = target (h ++ rows.take (k + 1)) (h ++ rows.take (k + 1))
  recorded : Recorded cfg.kp e'.slots
    ((newAnchors snap h.length 0 rows.length).foldl (record cfg.kp) anchors) (h ++ rows)
  slotsOk : SlotsOk cfg.kp e'.slots
  claimed : ∀ k, ((e.slots k).claimed = true ∨ ∃ j < rows.length, snap j = true ∧
    claim j = true ∧ slotOf cfg.kp (h.length + j + 1) = k) → (e'.slots k).claimed = true

/-- **A pass** that starts legally at the frontier is carried out. -/
theorem forward_spec (target : Target) (snap claim : ℕ → Bool) (rows : List ℕ) (he : Holds e h)
    (hrows : 0 < rows.length) (hstart : LegalStart cfg.kp h.length e.nextPos)
    (hr : Recorded cfg.kp e.slots anchors h) (hok : SlotsOk cfg.kp e.slots) :
    ∃ e' outs, e.forward cfg target snap claim rows h.length = some (e', outs) ∧
      Passed cfg target snap claim anchors h rows e e' outs := by
  obtain ⟨run, hsweep⟩ := sweep_spec cfg e hrows hstart
  unfold Engine.forward
  rw [if_pos he.frontier, hsweep]
  refine ⟨_, _, rfl, ?_⟩
  set e₁ : Engine := { e with nextPos := max e.nextPos (h.length + rows.length), run := run }
   
  have hholds : Holds e₁ h := { he with }
  obtain ⟨hres, -, houts⟩ := holds_rowsFrom cfg target snap claim rows 0 hholds
  obtain ⟨hrec, hslots⟩ := recorded_rowsFrom target snap claim h.length rows 0 hholds rfl hr hok
  refine ⟨hres, nextPos_rowsFrom snap claim rows 0 e₁, houts, hrec, hslots, ?_⟩
  intro k hk
  refine claimed_rowsFrom snap claim h.length k rows 0 he.frontier ?_
  rcases hk with hk | ⟨j, hj, hsnap, hclaim, hslot⟩
  · exact .inl hk
  · exact .inr ⟨j, Nat.zero_le j, by omega, hsnap, hclaim, hslot⟩

/-- **A restore** goes back to the history of a recorded anchor and keeps the earlier ones. -/
theorem kdaRestore_spec {a : ℕ} (he : Holds e h) (hok : SlotsOk cfg.kp e.slots)
    (ha : a ≤ h.length) (hslot : e.slots (slotOf cfg.kp a) = ⟨true, some a, h.take a⟩) :
    ∃ e', e.kdaRestore a = some e' ∧ Holds e' (h.take a) ∧ e'.nextPos = e.nextPos ∧
      SlotsOk cfg.kp e'.slots ∧
      ∀ k x st, x ≤ a → e.slots k = ⟨true, some x, st⟩ → e'.slots k = ⟨true, some x, st⟩ := by
  set k₀ := slotOf cfg.kp a
  set e' : Engine :=
    { e with
      absorbed := (e.slots k₀).state
      frontier := a
      slots := fun i =>
        if i ≠ k₀ ∧ ((e.slots i).pos.any fun p => a < p) then { e.slots i with pos := none }
        else e.slots i } with he'
  have hfound : ((e.slots k₀).pos = some a && (e.slots k₀).claimed) = true := by
    simp [hslot]
  have hother : ∀ k, k ≠ k₀ → ((e.slots k).pos = some a && (e.slots k).claimed) = false := by
    intro k hk
    have hpos : (e.slots k).pos ≠ some a := fun h => hk (hok k a h).symm
    simp [hpos]
  have hres : e.kdaRestore a = some e' := by
    unfold Engine.kdaRestore
    by_cases h1 : k₀ = 1
    · rw [← h1, if_pos hfound]
    have h0 : k₀ = 0 := by omega
    have hnot : ¬ ((e.slots 1).pos = some a && (e.slots 1).claimed) = true := by
      rw [hother 1 (Ne.symm h1)]
      exact Bool.false_ne_true
    rw [if_neg hnot, ← h0, if_pos hfound]
  have hlen : (h.take a).length = a := length_take_of_le ha
  refine ⟨e', hres, ⟨?_, ?_, ?_⟩, rfl, ?_, ?_⟩
  · show (e.slots k₀).state = h.take a
    rw [hslot]
  · exact hlen.symm
  · show below e.cells (h.take a).length = h.take a
    have hbelow : below e.cells a = (below e.cells h.length).take a := by
      unfold below
      rw [← map_take, take_range, Nat.min_eq_left ha]
    rw [hlen, hbelow, he.stored]
  · intro k p hp
    by_cases hdrop : k ≠ k₀ ∧ ((e.slots k).pos.any fun p => decide (a < p)) = true
    · simp only [he', if_pos hdrop] at hp
      cases hp
    · simp only [he', if_neg hdrop] at hp
      exact hok k p hp
  · intro k x st hx hk
    have hkeep : ¬ (k ≠ k₀ ∧ ((e.slots k).pos.any fun p => decide (a < p)) = true) := by
      rw [hk]
      simp only [Option.any_some, decide_eq_true_eq]
      omega
    show (if _ then _ else e.slots k) = _
    rw [if_neg hkeep, hk]

theorem decodeStep_spec (target : Target) (tok : ℕ) (he : Holds e h)
    (hstart : LegalStart cfg.kp h.length e.nextPos) (hr : Recorded cfg.kp e.slots anchors h)
    (hok : SlotsOk cfg.kp e.slots) :
    ∃ e', e.decodeStep cfg target tok h.length = some (e', target (h ++ [tok]) (h ++ [tok])) ∧
      Holds e' (h ++ [tok]) ∧ e'.nextPos = max e.nextPos (h.length + 1) ∧
      Recorded cfg.kp e'.slots anchors (h ++ [tok]) ∧ SlotsOk cfg.kp e'.slots ∧
      ∀ k, (e.slots k).claimed = true → (e'.slots k).claimed = true := by
  obtain ⟨e', outs, hforward, hpassed⟩ := forward_spec target (fun _ => false) (fun _ => false)
    [tok] he Nat.one_pos hstart hr hok
  refine ⟨e', ?_, hpassed.holds, hpassed.nextPos, ?_, hpassed.slotsOk,
    fun k hk => hpassed.claimed k (.inl hk)⟩
  · unfold Engine.decodeStep
    rw [hforward]
    simp only [hpassed.outs 0 Nat.one_pos, take_succ_cons, take_zero]
  · simpa [newAnchors] using hpassed.recorded

end

/-! ### Plain decoding -/

section Plain

variable {cfg : Config} {target : Target} {emit : List ℕ → Bool} {prompt : List ℕ}

/-- What plain decoding keeps while it runs. -/
structure PlainInv (cfg : Config) (prompt : List ℕ) (s : Plain) : Prop where
  holds : ∃ h, Holds s.engine h ∧ h.length = s.pos ∧ h ++ [s.token] = prompt ++ s.progress.out
  nextPos : s.engine.nextPos = s.pos
  slotsOk : SlotsOk cfg.kp s.engine.slots

theorem plainStep_spec {s : Plain} (hs : s.progress.status = .running → PlainInv cfg prompt s) :
    (plainStep cfg target emit prompt s).progress = (process target emit prompt).step s.progress ∧
      ((plainStep cfg target emit prompt s).progress.status = .running →
        PlainInv cfg prompt (plainStep cfg target emit prompt s)) := by
  by_cases hrun : s.progress.status = .running
  · obtain ⟨⟨h, hholds, hlen, hpre⟩, hnext, hslots⟩ := hs hrun
    have hstart : LegalStart cfg.kp h.length s.engine.nextPos := .inl (by omega)
    have hnone : Recorded cfg.kp s.engine.slots [] h := fun a ha => absurd ha not_mem_nil
    obtain ⟨e', hstep, hholds', hnext', -, hslots', -⟩ :=
      decodeStep_spec target s.token hholds hstart hnone hslots
    rw [hlen] at hstep hnext'
    unfold plainStep
    simp only [hrun, hstep, hpre]
    refine ⟨(Process.step_of_next hrun rfl).symm, fun _ => ⟨⟨h ++ [s.token], hholds', ?_, ?_⟩,
      ?_, hslots'⟩⟩
    · rw [length_append, length_singleton, hlen]
    · rw [hpre]
      exact append_assoc prompt s.progress.out _
    · show e'.nextPos = s.pos + 1
      omega
  · have hsame : plainStep cfg target emit prompt s = s := by
      unfold plainStep
      split
      · exact absurd ‹_› hrun
      · rfl
    rw [hsame]
    exact ⟨(Process.step_of_ended hrun).symm, hs⟩

variable (target emit) in
/-- **Plain decoding is greedy decoding.** -/
theorem decodePlain_spec {s : Plain} (hs : s.progress.status = .running → PlainInv cfg prompt s)
    (n : ℕ) :
    (decodePlain cfg target emit prompt s n).progress =
        (process target emit prompt).step^[n] s.progress ∧
      ((decodePlain cfg target emit prompt s n).progress.status = .running →
        PlainInv cfg prompt (decodePlain cfg target emit prompt s n)) := by
  unfold decodePlain
  induction n with
  | zero => exact ⟨rfl, hs⟩
  | succ n ih =>
    rw [Function.iterate_succ_apply', Function.iterate_succ_apply', ← ih.1]
    exact plainStep_spec ih.2

end Plain

end MtpDecode
end LayerStorm.Orchestrator
