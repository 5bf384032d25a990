import LayerStorm.Lib.Run
import LayerStorm.Orchestrator.MtpEngine

/-!
# Speculation with the MTP layer is lossless as long as no anchor is lost

At the start of every round the recurrent state has absorbed the committed tokens below `state`,
every anchor of the host's list is recorded in its slot, and a round that drafts has an anchor
that is legal behind the pass and not more than four positions back.

## Main results

* `mtp_lossless` — every run without lost anchors.
* `mtp_stuck` — a run that loses an anchor to a failed claim and gets stuck.
-/

namespace LayerStorm.Orchestrator

open List Nat
namespace MtpDecode

open Lib
open SpecDecode (below_feed)

/-! ### Committed tokens -/

section Tokens

variable {target : Target} {prompt : List ℕ}

theorem follows_of_choices (emit : List ℕ → Bool) : ∀ (l : List ℕ) {out : List ℕ},
    (∀ i < l.length, l.getD i 0 = target (prompt ++ out ++ l.take i) (prompt ++ out ++ l.take i)) →
      (process target emit prompt).Follows out () (l.map fun tok => (tok, ())) := by
  intro l
  induction l with
  | nil =>
    intro out _
    trivial
  | cons tok l ih =>
    intro out h
    have hfirst : tok = target (prompt ++ out) (prompt ++ out) := by
      simpa using h 0 (succ_pos l.length)
    refine ⟨?_, ih fun i hi => ?_⟩
    · show some (target (prompt ++ out) (prompt ++ out), ()) = some (tok, ())
      rw [← hfirst]
    · simpa using h (i + 1) (succ_lt_succ hi)

theorem acceptWalk_spec (argmax : List ℕ) : ∀ (drafts : List ℕ) (base : ℕ),
    acceptWalk argmax base drafts ≤ drafts.length ∧
      ∀ i < acceptWalk argmax base drafts, argmax.getD (base + i) 0 = drafts.getD i 0 := by
  intro drafts
  induction drafts with
  | nil =>
    intro base
    exact ⟨le_refl 0, fun i hi => absurd hi (not_lt_zero i)⟩
  | cons d drafts ih =>
    intro base
    unfold acceptWalk
    split
    · next heq =>
      obtain ⟨hle, hpre⟩ := ih (base + 1)
      refine ⟨succ_le_succ hle, ?_⟩
      intro i hi
      cases i with
      | zero => simpa using heq
      | succ i =>
        have hi' : argmax.getD (base + 1 + i) 0 = drafts.getD i 0 :=
          hpre i (lt_of_succ_lt_succ hi)
        rw [getD_cons_succ, ← hi']
        congr 1
        omega
    · exact ⟨zero_le _, fun i hi => absurd hi (not_lt_zero i)⟩

theorem newToks_choices {argmax drafts C : List ℕ} {base : ℕ}
    (hrows : ∀ i ≤ drafts.length, argmax.getD (base + i) 0 =
      target (C ++ drafts.take i) (C ++ drafts.take i)) :
    let j := acceptWalk argmax base drafts
    let l := drafts.take j ++ [argmax.getD (base + j) 0]
    ∀ i < l.length, l.getD i 0 = target (C ++ l.take i) (C ++ l.take i) := by
  obtain ⟨hle, hpre⟩ := acceptWalk_spec argmax drafts base
  set j := acceptWalk argmax base drafts
  intro j' l i hi
  have hlen : l.length = j + 1 := by
    simp only [l, length_append, length_take, length_singleton]
    omega
  have htake : l.take i = drafts.take i := by
    rw [take_append_of_le_length (by rw [length_take]; omega), take_take, min_eq_left (by omega)]
  have hget : l.getD i 0 = argmax.getD (base + i) 0 := by
    rcases lt_or_ge i j with hij | hij
    · rw [hpre i hij]
      simp only [l, j']
      rw [getD_append _ _ _ _ (by rw [length_take]; omega)]
      simp only [getD_eq_getElem?_getD, getElem?_take, if_pos hij]
    · have hij' : i = j := by omega
      subst hij'
      rw [getD_append_right _ _ _ _ (by rw [length_take]; omega), length_take,
        Nat.min_eq_left hle, Nat.sub_self]
      rfl
  rw [hget, htake, hrows i (by omega)]

end Tokens

/-! ### The draft layer -/

section Drafts

variable {cfg : Config} {e : Round} {s : Decode}

theorem catchUp_ne_outside (mtpRow : ℕ → Option ℕ) (pos0 rows last : ℕ) : ∀ (l : List ℕ)
    (d1 : Option ℕ), (∀ pp ∈ l, pos0 ≤ pp ∧ pp < pos0 + rows) →
      (catchUp mtpRow pos0 rows last l d1).1 ≠ .outside := by
  intro l
  induction l with
  | nil =>
    intro d1 _ h
    cases h
  | cons pp l ih =>
    intro d1 hl
    obtain ⟨h₁, h₂⟩ := hl pp mem_cons_self
    unfold catchUp
    rw [if_neg (by omega)]
    cases mtpRow pp with
    | none =>
      intro h
      cases h
    | some r => exact ih _ fun x hx => hl x (mem_cons_of_mem _ hx)

variable (cfg e s) in
theorem draftNext_frame (pos0 rows fedNew : ℕ) : ∃ mtpNext drafts draftError strayed steps,
    draftNext cfg e pos0 rows fedNew s = { s with
        mtpNext := mtpNext, drafts := drafts, draftError := draftError, strayed := strayed
        steps := steps } := by
  unfold draftNext
  dsimp only
  split
  · exact ⟨_, _, _, _, _, rfl⟩
  · exact ⟨_, _, _, _, _, rfl⟩
  · exact ⟨_, _, _, _, _, rfl⟩
  split
  · split
    · exact ⟨_, _, _, _, _, rfl⟩
    · split <;> exact ⟨_, _, _, _, _, rfl⟩
  · exact ⟨_, _, _, _, _, rfl⟩

variable (cfg e) in
theorem draftNext_spec {pos0 rows fedNew : ℕ} (hstrayed : s.strayed = false)
    (hrange : s.draftError = false → ∀ pp, s.mtpNext ≤ pp → pp < fedNew - 1 →
      pos0 ≤ pp ∧ pp < pos0 + rows) :
    let t := draftNext cfg e pos0 rows fedNew s
    t.strayed = false ∧ t.drafts.length ≤ 2 ∧ (t.draftError = false → t.mtpNext = fedNew - 1) := by
  unfold draftNext
  dsimp only
  split
  · next hout =>
    refine ⟨?_, zero_le 2, fun h => ?_⟩
    · cases herr : s.draftError with
      | false =>
        refine absurd hout (catchUp_ne_outside _ _ _ _ _ _ fun pp hpp => ?_)
        rw [mem_range'_1] at hpp
        exact hrange herr pp hpp.1 (by omega)
      | true => simp [hstrayed]
    · cases h
  · exact ⟨hstrayed, zero_le 2, fun h => (by cases h)⟩
  · exact ⟨hstrayed, zero_le 2, fun _ => rfl⟩
  · split
    · split
      · exact ⟨hstrayed, zero_le 2, fun h => (by cases h)⟩
      split
      · exact ⟨hstrayed, le_succ 1, fun _ => rfl⟩
      · exact ⟨hstrayed, le_refl 2, fun _ => rfl⟩
      · exact ⟨hstrayed, le_refl 2, fun _ => rfl⟩
    · exact ⟨hstrayed, le_succ 1, fun _ => rfl⟩

end Drafts

/-! ### The invariant -/

/-- **The invariant of a running loop.** -/
structure Inv (cfg : Config) (prompt : List ℕ) (s : Decode) : Prop where
  committed : s.committed = prompt ++ s.progress.out
  fed : s.committed.length = s.fed
  state_lt : s.state < s.fed
  replay : s.fed ≤ s.state + 6
  holds : Holds s.engine (s.committed.take s.state)
  hw : s.engine.nextPos = s.hw
  state_le_hw : s.state ≤ s.hw
  hw_le : s.hw ≤ s.fed + 1
  start : LegalStart cfg.kp s.state s.hw
  anchors : ∀ a ∈ s.anchors, a ≤ s.state ∧
    s.engine.slots (slotOf cfg.kp a) = ⟨true, some a, s.committed.take a⟩
  slotsOk : SlotsOk cfg.kp s.engine.slots
  drafts : s.drafts.length ≤ 2
  caughtUp : s.draftError = false → s.mtpNext + 1 = s.fed
  strayed : s.strayed = false

section

variable {cfg : Config} {target : Target} {emit : List ℕ → Bool} {prompt : List ℕ} {e : Round}
  {s : Decode}

section

variable (hs : Inv cfg prompt s)
include hs

theorem Inv.length_take : (s.committed.take s.state).length = s.state :=
  length_take_of_le (by rw [hs.fed]; exact hs.state_lt.le)

theorem Inv.recorded : Recorded cfg.kp s.engine.slots s.anchors (s.committed.take s.state) := by
  intro a ha
  obtain ⟨hle, hslot⟩ := hs.anchors a ha
  refine ⟨by rw [hs.length_take]; exact hle, fun _ => ?_⟩
  rw [hslot, take_take, min_eq_left hle]

theorem inv_prepare : Inv cfg prompt (prepare cfg e s) where
  committed := hs.committed
  fed := hs.fed
  state_lt := hs.state_lt
  replay := hs.replay
  holds := { hs.holds with }
  hw := hs.hw
  state_le_hw := hs.state_le_hw
  hw_le := hs.hw_le
  start := hs.start
  anchors := hs.anchors
  slotsOk := hs.slotsOk
  drafts := by
    show (if cfg.forceArm = .draftless then [] else s.drafts).length ≤ 2
    split
    · exact zero_le 2
    · exact hs.drafts
  caughtUp := hs.caughtUp
  strayed := hs.strayed

theorem Inv.issue {step : EngineStep} : Inv cfg prompt (s.issue step) := { hs with }

/-! ### The verify pass -/

theorem length_used : (used cfg e s).length ≤ 2 := by
  unfold used
  split
  · exact hs.drafts
  · exact zero_le 2

theorem passRows_eq : passRows cfg e s = s.committed.drop s.state ++ used cfg e s := by
  unfold passRows
  rw [take_of_length_le (by rw [length_drop, hs.fed])]

theorem length_passRows : (passRows cfg e s).length = s.fed - s.state + (used cfg e s).length := by
  rw [passRows_eq hs, length_append, length_drop, hs.fed]

theorem length_passRows_le : (passRows cfg e s).length ≤ 8 := by
  have hused := length_used (e := e) hs
  have hreplay := hs.replay
  rw [length_passRows hs]
  omega

theorem committed_passRows :
    s.committed.take s.state ++ passRows cfg e s = s.committed ++ used cfg e s := by
  rw [passRows_eq hs, ← append_assoc, take_append_drop]

end

theorem lt_of_snapRow {i : ℕ} (h : snapRow cfg s i = true) : i < s.fed - s.state := by
  unfold snapRow at h
  simp only [Bool.or_eq_true, Bool.and_eq_true, decide_eq_true_eq] at h
  rcases h with h | h
  · omega
  · exact lt_of_lt_of_le h.1 (min_le_left _ _)

theorem newAnchors_eq (hs : Inv cfg prompt s) :
    ((range (min (s.fed - s.state) 8)).filter (snapRow cfg s)).map (fun i => s.state + i + 1) =
      newAnchors (snapRow cfg s) s.state 0 (passRows cfg e s).length := by
  have hreplay := hs.replay
  have hsplit : (passRows cfg e s).length = s.fed - s.state + (used cfg e s).length :=
    length_passRows hs
  congr 1
  rw [min_eq_left (by omega), hsplit, ← range_eq_range', range_add, filter_append]
  have hnone : (map (fun x => s.fed - s.state + x)
      (range (used cfg e s).length)).filter (snapRow cfg s) = [] := by
    rw [filter_eq_nil_iff]
    intro i hi hsnap
    rw [mem_map] at hi
    have hlt := lt_of_snapRow hsnap
    omega
  rw [hnone, append_nil]

theorem mem_foldl_record {kp a : ℕ} : ∀ (news : List ℕ) {anchors : List ℕ},
    a ∈ news.foldl (record kp) anchors → a ∈ anchors ∨ a ∈ news := by
  intro news
  induction news with
  | nil =>
    intro anchors h
    exact .inl h
  | cons b news ih =>
    intro anchors h
    rcases ih h with h | h
    · rcases mem_record.1 h with ⟨h, -⟩ | rfl
      · exact .inl h
      · exact .inr mem_cons_self
    · exact .inr (mem_cons_of_mem _ h)

theorem exists_foldl_record {kp : ℕ} : ∀ (news : List ℕ) {anchors : List ℕ} {g : ℕ},
    g ∈ anchors → ∃ a ∈ news.foldl (record kp) anchors,
      slotOf kp a = slotOf kp g ∧ (a = g ∨ a ∈ news) := by
  intro news
  induction news with
  | nil =>
    intro anchors g h
    exact ⟨g, h, rfl, .inl rfl⟩
  | cons b news ih =>
    intro anchors g h
    by_cases hslot : slotOf kp g = slotOf kp b
    · -- `b` takes the place of `g`
      obtain ⟨a, ha, hkind, hcase⟩ := ih (mem_record.2 (.inr rfl) : b ∈ record kp anchors b)
      refine ⟨a, ha, hkind.trans hslot.symm, .inr ?_⟩
      rcases hcase with rfl | hmem
      · exact mem_cons_self
      · exact mem_cons_of_mem _ hmem
    · obtain ⟨a, ha, hkind, hcase⟩ := ih (mem_record.2 (.inl ⟨h, hslot⟩))
      exact ⟨a, ha, hkind, hcase.imp_right (mem_cons_of_mem _)⟩

theorem legal_of_slotOf {kp g a hw fed : ℕ} (hslot : slotOf kp a = slotOf kp g) (hga : g ≤ a)
    (hafed : a ≤ fed) (hfed : fed ≤ hw) (hg : legal kp g hw = true) : legal kp a hw = true := by
  unfold legal at hg ⊢
  simp only [Bool.or_eq_true, decide_eq_true_eq] at hg ⊢
  rcases hg with hg | hg
  · left
    unfold slotOf at hslot
    rw [if_pos hg] at hslot
    by_contra ha
    rw [if_neg ha] at hslot
    exact absurd hslot (by decide)
  · right
    have h₁ : g / kp ≤ a / kp := Nat.div_le_div_right hga
    have h₂ : a / kp ≤ hw / kp := Nat.div_le_div_right (hafed.trans hfed)
    omega

/-- What a verify pass leaves. -/
structure PassOk (cfg : Config) (target : Target) (e : Round) (s : Decode) (p : Pass) : Prop where
  holds : Holds p.engine (s.committed ++ used cfg e s)
  nextPos : p.engine.nextPos = p.hw
  hw : p.hw = max s.hw (s.fed + (used cfg e s).length)
  choices : ∀ i ≤ (used cfg e s).length, p.argmax.getD (s.fed - s.state - 1 + i) 0 =
    target (s.committed ++ (used cfg e s).take i) (s.committed ++ (used cfg e s).take i)
  accepted : p.accepted = acceptWalk p.argmax (s.fed - s.state - 1) (used cfg e s)
  anchors : ∀ a ∈ p.anchors, a ≤ s.fed ∧
    p.engine.slots (slotOf cfg.kp a) = ⟨true, some a, s.committed.take a⟩
  slotsOk : SlotsOk cfg.kp p.engine.slots
  legalAnchor : used cfg e s ≠ [] → ∃ a ∈ p.anchors, s.fed - 4 ≤ a ∧ a ≤ s.fed ∧
    legal cfg.kp a p.hw = true

/-- **The verify pass**, when no anchor is lost. -/
theorem verifyPass_spec (target : Target) (hs : Inv cfg prompt s)
    (hclaims : ∀ i < s.fed - s.state, snapRow cfg s i = true → heldRow cfg e s i = true) :
    ∃ p, verifyPass cfg target e s = some p ∧ PassOk cfg target e s p := by
  have hlen := length_passRows (e := e) hs
  have hlt := hs.state_lt
  have htake := hs.length_take
  have hstart : LegalStart cfg.kp (s.committed.take s.state).length s.engine.nextPos := by
    rw [htake, hs.hw]
    exact hs.start
  obtain ⟨engine, argmax, hforward, hpassed⟩ := forward_spec target (snapRow cfg s) e.claim
    (passRows cfg e s) hs.holds (by omega) hstart hs.recorded hs.slotsOk
  rw [htake] at hforward
  have hverify : s.engine.verify cfg target (snapRow cfg s) e.claim (passRows cfg e s) s.state =
      some (engine, argmax) := by
    unfold Engine.verify
    rw [if_neg (by have := length_passRows_le (e := e) hs; omega)]
    exact hforward
  unfold verifyPass
  simp only [hverify]
  refine ⟨_, rfl, ?_⟩
  have hholds := hpassed.holds
  have hrecorded := hpassed.recorded
  rw [committed_passRows hs] at hholds hrecorded
  rw [htake, ← newAnchors_eq hs] at hrecorded
  set news := ((range (min (s.fed - s.state) 8)).filter (snapRow cfg s)).map
    (fun i => s.state + i + 1)
  have hmem_news : ∀ a ∈ news, ∃ i < s.fed - s.state, snapRow cfg s i = true ∧
      a = s.state + i + 1 := by
    intro a ha
    rw [mem_map] at ha
    obtain ⟨i, hi, rfl⟩ := ha
    rw [mem_filter] at hi
    exact ⟨i, lt_of_snapRow hi.2, hi.2, rfl⟩
  refine ⟨hholds, ?nextPos, ?hw, ?choices, rfl, ?anchors, hpassed.slotsOk, ?legalAnchor⟩
  case nextPos =>
    show engine.nextPos = max s.hw (s.state + (passRows cfg e s).length)
    rw [hpassed.nextPos, htake, hs.hw]
  case hw =>
    show max s.hw (s.state + (passRows cfg e s).length) = _
    congr 1
    omega
  case choices =>
    intro i hi
    rw [hpassed.outs _ (by omega)]
    have hall : (s.committed.drop s.state).take (s.fed - s.state - 1 + i + 1) =
        s.committed.drop s.state :=
      take_of_length_le (by rw [length_drop, hs.fed]; omega)
    have hrows : s.committed.take s.state ++ (passRows cfg e s).take (s.fed - s.state - 1 + i + 1) =
        s.committed ++ (used cfg e s).take i := by
      rw [passRows_eq hs, take_append, ← append_assoc, hall, take_append_drop, length_drop, hs.fed]
      congr 2
      omega
    rw [hrows]
  case anchors =>
    intro a ha
    obtain ⟨-, hslot⟩ := hrecorded a ha
    have hclaimed_le : a ≤ s.fed ∧ (engine.slots (slotOf cfg.kp a)).claimed = true := by
      rcases mem_foldl_record news ha with hold | hnew
      · obtain ⟨hle, hold⟩ := hs.anchors a hold
        refine ⟨by omega, hpassed.claimed _ (.inl ?_)⟩
        rw [hold]
      obtain ⟨i, hi, hsnap, rfl⟩ := hmem_news a hnew
      refine ⟨by omega, hpassed.claimed _ ?_⟩
      have hheld := hclaims i hi hsnap
      unfold heldRow at hheld
      rw [Bool.or_eq_true, any_eq_true] at hheld
      refine hheld.imp_right ?_
      rintro ⟨j, hj, hrow⟩
      simp only [Bool.and_eq_true, decide_eq_true_eq, mem_range] at hj hrow
      exact ⟨j, by omega, hrow.1.1, hrow.1.2, by rw [htake]; exact hrow.2⟩
    refine ⟨hclaimed_le.1, ?_⟩
    rw [hslot hclaimed_le.2, take_append_of_le_length (by rw [hs.fed]; exact hclaimed_le.1)]
  case legalAnchor =>
    intro hused
    have hwant : wantDraft cfg e s = true := by
      by_contra h
      exact hused (if_neg h)
    have hused_eq : used cfg e s = s.drafts := if_pos hwant
    unfold wantDraft at hwant
    simp only [Bool.and_eq_true, any_eq_true, decide_eq_true_eq] at hwant
    obtain ⟨⟨⟨-, g, hg, ⟨h₁, h₂⟩, hlegal⟩, -⟩, -⟩ := hwant
    -- the legal anchor is there still, or one of the same slot was taken behind it
    obtain ⟨a, ha, hkind, hcase⟩ : ∃ a ∈ news.foldl (record cfg.kp) s.anchors,
        slotOf cfg.kp a = slotOf cfg.kp g ∧ (a = g ∨ a ∈ news) := exists_foldl_record news hg
    have hga : g ≤ a ∧ a ≤ s.fed := by
      rcases hcase with rfl | hnew
      · exact ⟨le_refl a, h₂⟩
      obtain ⟨i, hi, -, rfl⟩ := hmem_news a hnew
      have hold := (hs.anchors g hg).1
      omega
    refine ⟨a, ha, by omega, hga.2, ?_⟩
    have hhw : max s.hw (s.state + (passRows cfg e s).length) =
        max s.hw (s.fed + s.drafts.length) := by
      rw [hlen, hused_eq]
      congr 1
      omega
    show legal cfg.kp a (max s.hw (s.state + (passRows cfg e s).length)) = true
    rw [hhw]
    exact legal_of_slotOf hkind hga.1 hga.2 (by omega) hlegal

/-! ### Behind the pass -/

variable {p : Pass}

section

variable (hp : PassOk cfg target e s p)
include hp

theorem PassOk.accepted_le : p.accepted ≤ (used cfg e s).length := by
  rw [hp.accepted]
  exact (acceptWalk_spec _ _ _).1

theorem PassOk.length_newToks : (p.newToks cfg e s).length = p.accepted + 1 := by
  unfold Pass.newToks
  rw [length_append, length_take, min_eq_left hp.accepted_le, length_singleton]

theorem PassOk.take_committed :
    (s.committed ++ p.newToks cfg e s).take (s.committed.length + p.accepted) =
      s.committed ++ (used cfg e s).take p.accepted := by
  have hle := hp.accepted_le
  unfold Pass.newToks
  rw [take_length_add_append, take_append_of_le_length
    (by rw [length_take]; omega), take_take, min_self]

/-- **A rejection finds a legal anchor** that is recorded in its slot. -/
theorem rewindTo_spec (fedNew : ℕ) (hfed : s.fed < fedNew) (hrejected : p.rejected cfg e s = true) :
    ∃ a, p.rewindTo cfg fedNew = some a ∧ a ∈ p.anchors ∧ s.fed - 4 ≤ a ∧
      legal cfg.kp a p.hw = true ∧ a ≤ s.fed ∧
        p.engine.slots (slotOf cfg.kp a) = ⟨true, some a, s.committed.take a⟩ := by
  have hused : used cfg e s ≠ [] := by
    intro h
    unfold Pass.rejected at hrejected
    rw [h, decide_eq_true_eq] at hrejected
    exact absurd hrejected (not_lt_zero _)
  obtain ⟨g, hg, h₁, h₂, hlegal⟩ := hp.legalAnchor hused
  have hcand : g ∈ p.anchors.filter fun a => decide (a ≤ fedNew - 1) && legal cfg.kp a p.hw := by
    rw [mem_filter, hlegal, Bool.and_true, decide_eq_true_eq]
    exact ⟨hg, by omega⟩
  unfold Pass.rewindTo
  cases hmax : (p.anchors.filter fun a => decide (a ≤ fedNew - 1) && legal cfg.kp a p.hw).max? with
  | none =>
    rw [max?_eq_none_iff] at hmax
    rw [hmax] at hcand
    exact absurd hcand not_mem_nil
  | some a =>
    rw [max?_eq_some_iff] at hmax
    obtain ⟨ha, hge⟩ := hmax
    rw [mem_filter, Bool.and_eq_true] at ha
    obtain ⟨hle, hslot⟩ := hp.anchors a ha.1
    have hga := hge g hcand
    exact ⟨a, rfl, ha.1, by omega, ha.2.2, hle, hslot⟩

end

/-- What the loop goes on with behind a pass. -/
structure Settled (cfg : Config) (hw : ℕ) (committed : List ℕ) (fed : ℕ) (engine : Engine)
    (state : ℕ) (anchors : List ℕ) : Prop where
  state_lt : state < fed
  replay : fed ≤ state + 6
  holds : Holds engine (committed.take state)
  nextPos : engine.nextPos = hw
  state_le_hw : state ≤ hw
  hw_le : hw ≤ fed + 1
  start : LegalStart cfg.kp state hw
  anchors : ∀ a ∈ anchors, a ≤ state ∧
    engine.slots (slotOf cfg.kp a) = ⟨true, some a, committed.take a⟩
  slotsOk : SlotsOk cfg.kp engine.slots

/-- **Behind a pass** the loop goes on: with all drafts accepted where the pass has ended, and
else from an anchor. -/
theorem settle_spec (hs : Inv cfg prompt s) (hp : PassOk cfg target e s p) : ∃ engine state anchors,
      p.settle cfg e s (s.fed + (p.newToks cfg e s).length) = some (engine, state, anchors) ∧
        Settled cfg p.hw (s.committed ++ p.newToks cfg e s)
          (s.fed + (p.newToks cfg e s).length) engine state anchors := by
  have hused := length_used (e := e) hs
  have hle := hp.accepted_le
  have hlen := hp.length_newToks
  have hhw := hp.hw
  have hhw_le := hs.hw_le
  -- the history of an anchor is not changed by new tokens
  have htake : ∀ a ≤ s.fed, (s.committed ++ p.newToks cfg e s).take a = s.committed.take a :=
    fun a ha => take_append_of_le_length (by rw [hs.fed]; exact ha)
  unfold Pass.settle
  by_cases hrejected : p.rejected cfg e s = true
  · obtain ⟨a, hrewind, hmem, h₁, hlegal, h₂, hslot⟩ :=
      rewindTo_spec hp (s.fed + (p.newToks cfg e s).length) (by omega) hrejected
    have hslot' : p.engine.slots (slotOf cfg.kp a) =
        ⟨true, some a, (s.committed ++ used cfg e s).take a⟩ := by
      rw [hslot, take_append_of_le_length (by rw [hs.fed]; exact h₂)]
    have hale : a ≤ (s.committed ++ used cfg e s).length := by
      rw [length_append, hs.fed]
      omega
    obtain ⟨engine, hrestore, hholds, hnext, hslots, hkept⟩ :=
      kdaRestore_spec hp.holds hp.slotsOk hale hslot'
    rw [take_append_of_le_length (by rw [hs.fed]; exact h₂)] at hholds
    have hlt : p.accepted < (used cfg e s).length := by
      simpa [Pass.rejected] using hrejected
    rw [if_pos hrejected, hrewind]
    simp only [hrestore]
    refine ⟨_, _, _, rfl, by omega, by omega, ?_, hnext.trans hp.nextPos, by omega, by omega,
      .inr (.inr ⟨by omega, hlegal⟩), ?_, hslots⟩
    · rw [htake a h₂]
      exact hholds
    · intro x hx
      rw [mem_filter, decide_eq_true_eq] at hx
      obtain ⟨hxle, hxslot⟩ := hp.anchors x hx.1
      refine ⟨hx.2, ?_⟩
      rw [htake x hxle]
      exact hkept _ _ _ hx.2 hxslot
  · rw [if_neg hrejected]
    have hall : p.accepted = (used cfg e s).length := by
      unfold Pass.rejected at hrejected
      rw [decide_eq_true_eq] at hrejected
      omega
    have hrows := length_passRows (e := e) hs
    have hlt := hs.state_lt
    have hend : s.state + (passRows cfg e s).length = s.committed.length + p.accepted := by
      rw [hs.fed]
      omega
    refine ⟨_, _, _, rfl, ?_⟩
    rw [hend]
    refine ⟨by omega, by omega, ?_, hp.nextPos, by omega, by omega, ?_, ?_, hp.slotsOk⟩
    · rw [hp.take_committed, hall, take_length]
      exact hp.holds
    · unfold LegalStart
      omega
    · intro a ha
      obtain ⟨hale, haslot⟩ := hp.anchors a ha
      exact ⟨by omega, by rw [htake a hale]; exact haslot⟩

/-! ### Rounds -/

/-- What a round does: at least one step of greedy decoding, and the invariant is kept. -/
structure Advances (cfg : Config) (target : Target) (emit : List ℕ → Bool) (prompt : List ℕ)
    (s t : Decode) : Prop where
  reaches : ∃ n, 0 < n ∧ (process target emit prompt).Reaches s.progress n t.progress
  strayed : t.strayed = false
  inv : t.progress.status = .running → Inv cfg prompt t

theorem deliver_choices (emit : List ℕ → Bool) {s : Progress ℕ Unit} {l : List ℕ}
    (hrun : s.status = .running) (hl : l ≠ []) (h : ∀ i < l.length, l.getD i 0 =
      target (prompt ++ s.out ++ l.take i) (prompt ++ s.out ++ l.take i)) :
    let t := (process target emit prompt).deliverAll s (l.map fun tok => (tok, ()))
    (∃ n, 0 < n ∧ (process target emit prompt).Reaches s n t) ∧
      (t.status = .running → t.out = s.out ++ l) := by
  intro t
  obtain ⟨n, hn⟩ := Process.deliverAll_reaches _ hrun (follows_of_choices emit l h)
  have hout : t.status = .running → t.out = s.out ++ l := by
    intro ht
    rw [Process.deliverAll_out _ ht, SpecDecode.map_fst_unit]
  refine ⟨⟨n, ?_, hn⟩, hout⟩
  -- no step at all would leave the output as it was
  rcases Nat.eq_zero_or_pos n with rfl | hpos
  · have hsame : t.out = s.out := hn.out_eq
    have hstatus : t.status = .running := hn.status_eq.trans hrun
    rw [hout hstatus] at hsame
    exact absurd (append_right_eq_self.1 hsame) hl
  · exact hpos

variable (cfg e) in
theorem inv_draftNext (t : Decode) (pos0 rows fedNew : ℕ)
    (hcommitted : t.committed = prompt ++ t.progress.out) (hfed : t.committed.length = fedNew)
    (hset : Settled cfg t.hw t.committed fedNew t.engine t.state t.anchors)
    (hstrayed : t.strayed = false)
    (hrange : t.draftError = false → ∀ pp, t.mtpNext ≤ pp → pp < fedNew - 1 →
      pos0 ≤ pp ∧ pp < pos0 + rows) :
    (draftNext cfg e pos0 rows fedNew t).progress = t.progress ∧
      (draftNext cfg e pos0 rows fedNew t).strayed = false ∧
        Inv cfg prompt { draftNext cfg e pos0 rows fedNew t with fed := fedNew } := by
  have hdraft := draftNext_spec cfg e hstrayed hrange
  obtain ⟨mtpNext, drafts, draftError, strayed, steps, hframe⟩ :=
    draftNext_frame cfg e t pos0 rows fedNew
  rw [hframe] at hdraft ⊢
  obtain ⟨hstrayed', hdrafts, hcaught⟩ := hdraft
  have hlt := hset.state_lt
  refine ⟨rfl, hstrayed', ?_⟩
  exact
    { committed := hcommitted
      fed := hfed
      state_lt := hlt
      replay := hset.replay
      holds := hset.holds
      hw := hset.nextPos
      state_le_hw := hset.state_le_hw
      hw_le := hset.hw_le
      start := hset.start
      anchors := hset.anchors
      slotsOk := hset.slotsOk
      drafts := hdrafts
      caughtUp := fun h => by
        have hm : mtpNext = fedNew - 1 := hcaught h
        show mtpNext + 1 = fedNew
        omega
      strayed := hstrayed' }

variable (target emit) in
theorem passRound_spec (hrun : s.progress.status = .running) (hs : Inv cfg prompt s)
    (hclaims : ∀ i < s.fed - s.state, snapRow cfg s i = true → heldRow cfg e s i = true) :
    Advances cfg target emit prompt s (passRound cfg target emit prompt e s) := by
  obtain ⟨p, hverify, hp⟩ := verifyPass_spec target hs hclaims
  obtain ⟨engine, state, anchors, hsettle, hset⟩ := settle_spec hs hp
  have hlen := hp.length_newToks
  have hchoices := newToks_choices hp.choices
  rw [← hp.accepted, hs.committed] at hchoices
  have hne : p.newToks cfg e s ≠ [] := by
    intro h
    rw [h] at hlen
    cases hlen
  obtain ⟨hreaches, hout⟩ := deliver_choices emit hrun hne hchoices
  unfold passRound
  simp only [hverify, hsettle]
  split
  · next hrun' =>
    have hcommitted : s.committed ++ p.newToks cfg e s = prompt ++
        ((process target emit prompt).deliverAll s.progress
          ((p.newToks cfg e s).map fun tok => (tok, ()))).out := by
      rw [hout hrun', hs.committed, append_assoc]
    have hfed : (s.committed ++ p.newToks cfg e s).length = s.fed + (p.newToks cfg e s).length := by
      rw [length_append, hs.fed]
    have hrange : s.draftError = false → ∀ pp, s.mtpNext ≤ pp →
        pp < s.fed + (p.newToks cfg e s).length - 1 →
          s.state ≤ pp ∧ pp < s.state + (passRows cfg e s).length := by
      intro herr pp h₁ h₂
      have hcaught := hs.caughtUp herr
      have hlt := hs.state_lt
      have hrows := length_passRows (e := e) hs
      have hle := hp.accepted_le
      omega
    obtain ⟨hprogress, hstrayed, hinv⟩ := inv_draftNext cfg e { s with
        engine := engine
        committed := s.committed ++ p.newToks cfg e s
        state := state
        anchors := anchors
        hw := p.hw
        progress := (process target emit prompt).deliverAll s.progress
          ((p.newToks cfg e s).map fun tok => (tok, ())) }
      s.state (passRows cfg e s).length (s.fed + (p.newToks cfg e s).length) hcommitted hfed hset
      hs.strayed hrange
    refine ⟨?_, hstrayed, fun _ => hinv⟩
    rw [hprogress]
    exact hreaches
  · next hrun' => exact ⟨hreaches, hs.strayed, fun h => absurd h hrun'⟩

variable (cfg) in
theorem kdaSnapshot_cases (engine : Engine) (pos : ℕ) (claim : Bool) :
    ((engine.kdaSnapshot cfg pos claim).2 = true ∧
        ((engine.kdaSnapshot cfg pos claim).1.slots (slotOf cfg.kp pos)).claimed = true) ∨
      engine.kdaSnapshot cfg pos claim = (engine, false) := by
  unfold Engine.kdaSnapshot
  dsimp only
  split
  · left
    refine ⟨rfl, ?_⟩
    show (Function.update engine.slots _ _ _).claimed = true
    rw [Function.update_self]
  · right
    rfl

theorem anchors_kdaSnapshot {engine : Engine} {h anchors : List ℕ} (he : Holds engine h)
    (hr : Recorded cfg.kp engine.slots anchors h)
    (hclaimed : ∀ a ∈ anchors, (engine.slots (slotOf cfg.kp a)).claimed = true) (claim : Bool) :
    let r := engine.kdaSnapshot cfg h.length claim
    ∀ a ∈ (if r.2 then record cfg.kp anchors h.length else anchors),
      a ≤ h.length ∧ r.1.slots (slotOf cfg.kp a) = ⟨true, some a, h.take a⟩ := by
  intro r a ha
  rcases kdaSnapshot_cases cfg engine h.length claim with ⟨hok, hnew⟩ | hsame
  · have hok' : r.2 = true := hok
    rw [hok'] at ha
    obtain ⟨hle, hslot⟩ := recorded_kdaSnapshot he hr claim a ha
    refine ⟨hle, hslot ?_⟩
    rcases mem_record.1 ha with ⟨hmem, -⟩ | rfl
    · exact claimed_kdaSnapshot _ _ _ (.inl (hclaimed a hmem))
    · exact hnew
  · have hr' : r = (engine, false) := hsame
    rw [hr'] at ha ⊢
    obtain ⟨hle, hslot⟩ := hr a ha
    exact ⟨hle, hslot (hclaimed a ha)⟩

variable (target emit) in
/-- **A draftless round at the high-water mark.** -/
theorem fastRound_spec (hrun : s.progress.status = .running) (hs : Inv cfg prompt s)
    (hfast : isFast cfg e s = true) :
    Advances cfg target emit prompt s (fastRound cfg target emit prompt e s) := by
  unfold isFast at hfast
  simp only [Bool.and_eq_true, decide_eq_true_eq] at hfast
  obtain ⟨⟨-, hone⟩, hstate⟩ := hfast
  have hlt := hs.state_lt
  have hfed : s.committed.length = s.state + 1 := by
    rw [hs.fed]
    omega
  -- the step absorbs the last committed token
  have hhist : s.committed.take s.state ++ [s.committed.getD s.state 0] = s.committed := by
    rw [getD_eq_getElem _ _ (by omega), take_concat_get' _ _ (by omega), ← hfed, take_length]
  have hstart : LegalStart cfg.kp (s.committed.take s.state).length s.engine.nextPos := by
    rw [hs.length_take, hs.hw]
    exact hs.start
  obtain ⟨engine, hstep, hholds, hnext, hrec, hslots, hkept⟩ := decodeStep_spec target
    (s.committed.getD s.state 0) hs.holds hstart hs.recorded hs.slotsOk
  rw [hhist] at hstep hholds hrec
  rw [hs.length_take] at hstep hnext
  set tok := target s.committed s.committed with htok
  have hnexttok : (process target emit prompt).next s.progress.out s.progress.x =
      some (tok, ()) := by
    rw [htok, hs.committed]
    rfl
  have hreaches : ∃ n, 0 < n ∧ (process target emit prompt).Reaches s.progress n
      ((process target emit prompt).deliver s.progress tok ()) := by
    refine ⟨1, one_pos, ?_⟩
    rw [← Process.step_of_next hrun hnexttok]
    exact Process.Reaches.of_iterate _ 1
  have hclaimed : ∀ a ∈ s.anchors, (engine.slots (slotOf cfg.kp a)).claimed = true := by
    intro a ha
    refine hkept _ ?_
    rw [(hs.anchors a ha).2]
  have hanchors := anchors_kdaSnapshot hholds hrec hclaimed (e.claim 0)
  rw [hfed] at hanchors
  unfold fastRound
  simp only [hstep]
  set r := engine.kdaSnapshot cfg (s.state + 1) (e.claim 0) with hr
  have hnextPos : r.1.nextPos = engine.nextPos := by
    rw [hr]
    unfold Engine.kdaSnapshot
    dsimp only
    split <;> rfl
  split
  · next hrun' =>
    have hcommitted : s.committed ++ [tok] =
        prompt ++ ((process target emit prompt).deliver s.progress tok ()).out := by
      rw [hs.committed]
      exact append_assoc _ _ _
    have htake : ∀ a ≤ s.state + 1, (s.committed ++ [tok]).take a = s.committed.take a :=
      fun a ha => take_append_of_le_length (by rw [hfed]; exact ha)
    have hset : Settled cfg (max s.hw (s.state + 1)) (s.committed ++ [tok]) (s.fed + 1) r.1
        (s.state + 1) (if r.2 then record cfg.kp s.anchors (s.state + 1) else s.anchors) := by
      refine ⟨by omega, by omega, ?_, ?_, by omega, by omega, ?_, ?_, ?_⟩
      · rw [htake _ (le_refl _), ← hfed, take_length]
        exact hholds.kdaSnapshot _ _
      · rw [hnextPos, hnext, hs.hw]
      · left
        omega
      · intro a ha
        obtain ⟨hle, hslot⟩ := hanchors a ha
        exact ⟨hle, by rw [htake a hle]; exact hslot⟩
      · exact slotsOk_kdaSnapshot hslots _ _
    have hrange : s.draftError = false → ∀ pp, s.mtpNext ≤ pp → pp < s.fed + 1 - 1 →
        s.state ≤ pp ∧ pp < s.state + 1 := by
      intro herr pp h₁ h₂
      have hcaught := hs.caughtUp herr
      omega
    obtain ⟨hprogress, hstrayed, hinv⟩ := inv_draftNext cfg e { s with
        engine := r.1
        committed := s.committed ++ [tok]
        state := s.state + 1
        anchors := if r.2 then record cfg.kp s.anchors (s.state + 1) else s.anchors
        hw := max s.hw (s.state + 1)
        progress := (process target emit prompt).deliver s.progress tok () }
      s.state 1 (s.fed + 1) hcommitted (by simp [hs.fed]) hset hs.strayed hrange
    refine ⟨?_, hstrayed, fun _ => hinv⟩
    rw [hprogress]
    exact hreaches
  · next hrun' => exact ⟨hreaches, hs.strayed, fun h => absurd h hrun'⟩

variable (target emit) in
theorem inv_round (hrun : s.progress.status = .running) (hs : Inv cfg prompt s)
    (hclaims : ClaimsHold cfg s e) :
    Advances cfg target emit prompt s (round cfg target emit prompt s e) := by
  have hprepared : Inv cfg prompt (prepare cfg e s) := inv_prepare hs
  have hrun' : (prepare cfg e s).progress.status = .running := hrun
  unfold round
  simp only [hrun]
  split
  · next hfast =>
    have h := fastRound_spec target emit
      (s := (prepare cfg e s).issue (.decode (prepare cfg e s).state)) hrun' hprepared.issue hfast
    exact { h with }
  · next hfast =>
    have h := passRound_spec target emit (s := (prepare cfg e s).issue
        (.verify (prepare cfg e s).state (passRows cfg e (prepare cfg e s)).length))
      hrun' hprepared.issue (hclaims (by simpa using hfast))
    exact { h with }

end

/-! ### Runs -/

section Runs

variable {cfg : Config} {target : Target} {emit : List ℕ → Bool} {prompt : List ℕ} {s : Decode}

/-- What a run has done: steps of greedy decoding, at least one a round unless it has ended. -/
structure Tracks (cfg : Config) (target : Target) (emit : List ℕ → Bool) (prompt : List ℕ)
    (p : Progress ℕ Unit) (rounds : ℕ) (s : Decode) : Prop where
  reaches : ∃ n, rounds ≤ n ∧ (process target emit prompt).Reaches p n s.progress
  strayed : s.strayed = false
  inv : s.progress.status = .running → Inv cfg prompt s

theorem tracks_of_run {s₀ : Decode} {rounds : List Round}
    (hrun : GuardedRun (decodeSpeculativeMtp cfg target emit prompt) (ClaimsHold cfg) s₀ rounds s)
    (h₀ : Inv cfg prompt s₀) : Tracks cfg target emit prompt s₀.progress rounds.length s := by
  induction hrun with
  | nil => exact ⟨⟨0, le_refl 0, Process.Reaches.refl _⟩, h₀.strayed, fun _ => h₀⟩
  | @snoc t u rounds e hpre hok hstep ih =>
    obtain ⟨⟨n, hn, hreach⟩, hstrayed, hinv⟩ := ih
    cases hstep
    rw [length_append, length_singleton]
    by_cases hr : t.progress.status = .running
    · obtain ⟨⟨m, hm, hround⟩, hstrayed', hinv'⟩ := inv_round target emit hr (hinv hr) hok
      exact ⟨⟨n + m, by omega, hreach.trans hr hround⟩, hstrayed', hinv'⟩
    have hsame : round cfg target emit prompt t e = t := by
      unfold round
      split
      · exact absurd ‹_› hr
      · rfl
    rw [hsame]
    exact ⟨⟨n + 1, by omega, hreach.extend hr (le_succ n)⟩, hstrayed, hinv⟩

theorem iterate_ne_failed (p : Progress ℕ Unit) (hp : p.status ≠ .failed) (n : ℕ) :
    ((process target emit prompt).step^[n] p).status ≠ .failed := by
  induction n with
  | zero => exact hp
  | succ n ih =>
    rw [Function.iterate_succ_apply']
    set q := (process target emit prompt).step^[n] p
    by_cases hq : q.status = .running
    · rw [Process.step_of_next hq rfl]
      unfold Process.deliver
      dsimp only
      split <;> decide
    · rw [Process.step_of_ended hq]
      exact ih

end Runs

/-! ### The result -/

/-- **A state of the loop is right**: the loop has emitted what plain decoding emits and has
stopped like it; while it runs, the recurrent state is that of the committed tokens below
`state`, no pass has more than eight rows, and a rejection finds a legal anchor that is recorded
in its slot; the catch-up has not strayed. -/
structure Lossless (cfg : Config) (target : Target) (emit : List ℕ → Bool) (front : List ℕ)
    (last : ℕ) (engine : Engine) (rounds : ℕ) (s : Decode) : Prop where
  agrees : ∃ n, rounds ≤ n ∧ s.progress.out = (decodePlain cfg target emit (front ++ [last])
      (startPlain engine front last) n).progress.out ∧
    s.progress.status = (decodePlain cfg target emit (front ++ [last])
      (startPlain engine front last) n).progress.status
  alive : s.progress.status ≠ .failed
  state : s.progress.status = .running → s.committed = front ++ [last] ++ s.progress.out ∧
    s.engine.absorbed = s.committed.take s.state ∧ s.engine.frontier = s.state
  rows : s.progress.status = .running → ∀ e, (passRows cfg e (prepare cfg e s)).length ≤ 8
  rewind : s.progress.status = .running → ∀ e, ClaimsHold cfg s e →
    isFast cfg e (prepare cfg e s) = false →
      ∃ p, verifyPass cfg target e (prepare cfg e s) = some p ∧
        (p.rejected cfg e (prepare cfg e s) = true → ∃ a ∈ p.anchors,
          p.rewindTo cfg (s.fed + (p.newToks cfg e (prepare cfg e s)).length) = some a ∧
            legal cfg.kp a p.hw = true ∧
              p.engine.slots (slotOf cfg.kp a) = ⟨true, some a, s.committed.take a⟩)
  caughtUp : s.strayed = false

theorem holds_start (cells : ℕ → ℕ) (front : List ℕ) (run : ℕ × ℕ) (claimed : Fin 2 → Bool) :
    Holds (Engine.start cells front run claimed) front := by
  refine ⟨rfl, rfl, ?_⟩
  have h := below_feed cells 0 front (le_refl _)
  rw [zero_add, take_length] at h
  exact h

theorem inv_start (cfg : Config) (cells : ℕ → ℕ) (front : List ℕ) (last : ℕ) (run : ℕ × ℕ)
    (claimed : Fin 2 → Bool) :
    Inv cfg (front ++ [last]) (start (Engine.start cells front run claimed) front last) where
  committed := (append_nil _).symm
  fed := by simp [start]
  state_lt := lt_succ_self _
  replay := by simp [start]
  holds := by
    have h : (front ++ [last]).take front.length = front := by simp
    show Holds _ ((front ++ [last]).take front.length)
    rw [h]
    exact holds_start cells front run claimed
  hw := rfl
  state_le_hw := le_refl _
  hw_le := by
    simp only [start]
    omega
  start := .inl rfl
  anchors := fun a ha => absurd ha not_mem_nil
  slotsOk := fun k p hp => by cases hp
  drafts := zero_le 2
  caughtUp := fun _ => rfl
  strayed := rfl

theorem plainInv_start (cfg : Config) (cells : ℕ → ℕ) (front : List ℕ) (last : ℕ) (run : ℕ × ℕ)
    (claimed : Fin 2 → Bool) :
    PlainInv cfg (front ++ [last]) (startPlain (Engine.start cells front run claimed) front last)
    where
  holds := ⟨front, holds_start cells front run claimed, rfl, (append_nil _).symm⟩
  nextPos := rfl
  slotsOk := fun k p hp => by cases hp

/-- **Speculation with the MTP layer is lossless and never gets stuck** in every run in which no
verify pass loses an anchor to a failed claim. -/
theorem mtp_lossless (cfg : Config) (target : Target) (emit : List ℕ → Bool) (cells : ℕ → ℕ)
    (front : List ℕ) (last : ℕ) (run : ℕ × ℕ) (claimed : Fin 2 → Bool) {rounds : List Round}
    {s : Decode}
    (hrun : GuardedRun (decodeSpeculativeMtp cfg target emit (front ++ [last])) (ClaimsHold cfg)
      (start (Engine.start cells front run claimed) front last) rounds s) :
    Lossless cfg target emit front last (Engine.start cells front run claimed) rounds.length
      s := by
  obtain ⟨⟨n, hn, hreach⟩, hstrayed, hinv⟩ :=
    tracks_of_run hrun (inv_start cfg cells front last run claimed)
  have hplain := decodePlain_spec target emit
    (fun _ => plainInv_start cfg cells front last run claimed) n
  refine ⟨⟨n, hn, ?_, ?_⟩, ?_, ?_, ?_, ?_, hstrayed⟩
  · rw [hplain.1]
    exact hreach.out_eq
  · rw [hplain.1]
    exact hreach.status_eq
  · rw [hreach.status_eq]
    exact iterate_ne_failed _ (by simp [start]) n
  · intro hr
    have h := hinv hr
    exact ⟨h.committed, h.holds.absorbed, by rw [h.holds.frontier, h.length_take]⟩
  · intro hr e
    exact length_passRows_le (inv_prepare (hinv hr))
  · intro hr e hclaims hfast
    have hprepared : Inv cfg (front ++ [last]) (prepare cfg e s) := inv_prepare (hinv hr)
    obtain ⟨p, hverify, hp⟩ := verifyPass_spec target hprepared (hclaims hfast)
    refine ⟨p, hverify, fun hrejected => ?_⟩
    have hlen := hp.length_newToks
    obtain ⟨a, hrewind, hmem, -, hlegal, -, hslot⟩ := rewindTo_spec hp
      (s.fed + (p.newToks cfg e (prepare cfg e s)).length)
      (by show s.fed < _; omega) hrejected
    exact ⟨a, hmem, hrewind, hlegal, hslot⟩

/-! ### Two runs -/

theorem claimsHold_of_claim (cfg : Config) (s : Decode) {e : Round} (h : ∀ i, e.claim i = true) :
    ClaimsHold cfg s e := by
  intro _ i hi hsnap
  unfold heldRow
  rw [Bool.or_eq_true, any_eq_true]
  refine .inr ⟨i, mem_range.2 hi, ?_⟩
  rw [hsnap, h i]
  simp

/-- A model that counts modulo five. -/
def countingTarget : Target := fun h _ => (h.getLastD 0 + 1) % 5

/-- Pools of four positions, and two drafts a round. -/
def smallConfig : Config := ⟨2, 4, 3, .none⟩

/-- A round whose drafts will be rejected; the claims of its anchor slots succeed or fail. -/
def wrongDrafts (claim : Bool) : Round := ⟨true, fun _ => claim, fun _ => some 9, some 9, (1, 0)⟩

/-- The start of a forked sequence whose anchor slots could not be claimed. -/
def smallStart : Engine := Engine.start (fun _ => 0) [0, 1, 2] (1, 0) fun _ => false

theorem mtp_lossless_counting : ∃ s,
    GuardedRun (decodeSpeculativeMtp smallConfig countingTarget (fun out => out.length < 12)
        [0, 1, 2, 3]) (ClaimsHold smallConfig) (start smallStart [0, 1, 2] 3)
      (List.replicate 5 (wrongDrafts true)) s ∧
    s.progress.out = [4, 0, 1, 2, 3] ∧ s.state = 8 ∧
      Lossless smallConfig countingTarget (fun out => out.length < 12) [0, 1, 2] 3 smallStart 5
        s := by
  obtain ⟨s, hs, hout, hstate⟩ : ∃ s, (replicate 5 (wrongDrafts true)).foldlM
      (decodeSpeculativeMtp smallConfig countingTarget (fun out => out.length < 12)
        [0, 1, 2, 3]) (start smallStart [0, 1, 2] 3) = some s ∧
      s.progress.out = [4, 0, 1, 2, 3] ∧ s.state = 8 := ⟨_, rfl, by decide⟩
  have hrun : GuardedRun _ (ClaimsHold smallConfig) _ _ s :=
    GuardedRun.of_foldlM hs fun s e he => claimsHold_of_claim smallConfig s (by
      rw [eq_of_mem_replicate he]
      exact fun _ => rfl)
  exact ⟨s, hrun, hout, hstate, mtp_lossless smallConfig countingTarget
    (fun out => out.length < 12) (fun _ => 0) [0, 1, 2] 3 (1, 0) (fun _ => false) hrun⟩

/-- **A lost anchor makes the loop stuck**: the second round takes an anchor in a slot that cannot
be claimed, the host records it all the same, and the rejection of the draft restores it. -/
theorem mtp_stuck : ∃ s,
    Run (decodeSpeculativeMtp smallConfig countingTarget (fun out => out.length < 12)
      [0, 1, 2, 3]) (start smallStart [0, 1, 2] 3) [wrongDrafts true, wrongDrafts false] s ∧
    s.progress.status = .failed ∧ s.progress.out = [4] ∧
      ¬ Lossless smallConfig countingTarget (fun out => out.length < 12) [0, 1, 2] 3 smallStart 2
        s := by
  obtain ⟨s, hs, hstatus, hout⟩ : ∃ s, [wrongDrafts true, wrongDrafts false].foldlM
      (decodeSpeculativeMtp smallConfig countingTarget (fun out => out.length < 12)
        [0, 1, 2, 3]) (start smallStart [0, 1, 2] 3) = some s ∧
      s.progress.status = .failed ∧ s.progress.out = [4] := ⟨_, rfl, by decide⟩
  exact ⟨s, Run.of_foldlM hs, hstatus, hout, fun h => h.alive hstatus⟩

end MtpDecode
end LayerStorm.Orchestrator
