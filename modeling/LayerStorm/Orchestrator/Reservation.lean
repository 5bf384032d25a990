import LayerStorm.Orchestrator.MtpLossless

/-!
# No step past the reservation

The engine reserves positions for a request when its sequence is created, and `_generate` caps the
number of generated tokens by what was granted, less a margin for speculation.  Each arm runs ahead
of the last committed token in a way of its own; all of them know where they are by the number of
tokens that are out.

## Main results

* `steps_below_grant` — no arm issues a step at or behind the grant.
-/

namespace LayerStorm.Orchestrator

open Lib

/-! ### The limit -/

def requestLimit (maxTokens : ℤ) : Option ℕ := if 0 < maxTokens then some maxTokens.toNat else none

def specMargin (enabled : Bool) (gamma : ℕ) : ℕ := if enabled then gamma + 2 else 0

/-- The limit under the grant; `none` if there is no room for a token. -/
def grantLimit (granted promptLen margin : ℕ) (limit : Option ℕ) : Option (Option ℕ) :=
  if 0 < granted then
    let cap : ℤ := granted - promptLen - margin
    if cap ≤ 0 then none
    else
      match limit with
      | none => some (some cap.toNat)
      | some limit => if cap < limit then some (some cap.toNat) else some (some limit)
  else some limit

/-- Whether `emit` wants another token. -/
def emitMore (eos : List ℕ) (limit : Option ℕ) (out : List ℕ) : Bool :=
  if (out.getLast?.any fun tok => decide (tok ∈ eos)) = true then false
  else
    match limit with
    | some limit => decide (out.length < limit)
    | none => true

/-- **What the limit leaves** below the grant. -/
theorem grantLimit_spec {granted promptLen margin : ℕ} {maxTokens : ℤ} {limit : Option ℕ}
    (hg : 0 < granted)
    (h : grantLimit granted promptLen margin (requestLimit maxTokens) = some limit) :
    ∃ l, limit = some l ∧ 0 < l ∧ promptLen + margin + l ≤ granted := by
  unfold grantLimit at h
  rw [if_pos hg] at h
  by_cases hcap : (granted - promptLen - margin : ℤ) ≤ 0
  · rw [if_pos hcap] at h
    cases h
  rw [if_neg hcap] at h
  have hlimit : ∀ l, requestLimit maxTokens = some l → 0 < l := by
    intro l hl
    unfold requestLimit at hl
    split at hl
    · cases hl
      omega
    · cases hl
  cases hreq : requestLimit maxTokens with
  | none =>
    rw [hreq] at h
    cases h
    exact ⟨_, rfl, by omega, by omega⟩
  | some l =>
    have hpos := hlimit l hreq
    rw [hreq] at h
    dsimp only at h
    by_cases hlt : (granted - promptLen - margin : ℤ) < l
    · rw [if_pos hlt] at h
      cases h
      exact ⟨_, rfl, by omega, by omega⟩
    · rw [if_neg hlt] at h
      cases h
      exact ⟨_, rfl, hpos, by omega⟩

theorem length_lt_of_emitMore {eos : List ℕ} {l : ℕ} {out : List ℕ}
    (h : emitMore eos (some l) out = true) : out.length < l := by
  unfold emitMore at h
  split at h
  · cases h
  · exact of_decide_eq_true h

/-- Every step ends below the grant. -/
def StepsBelow (G : ℕ) (steps : List EngineStep) : Prop := ∀ step ∈ steps, step.stop ≤ G

section

variable {G : ℕ} {steps : List EngineStep}

theorem StepsBelow.append {more : List EngineStep} (h : StepsBelow G steps)
    (hmore : StepsBelow G more) : StepsBelow G (steps ++ more) :=
  fun step hstep => (List.mem_append.1 hstep).elim (h step) (hmore step)

theorem StepsBelow.concat (h : StepsBelow G steps) {step : EngineStep} (hstep : step.stop ≤ G) :
    StepsBelow G (steps ++ [step]) :=
  h.append fun _ hmem => List.eq_of_mem_singleton hmem ▸ hstep

end

/-! ### Delivered tokens -/

section Deliver

variable {X : Type} {P : Process ℕ X} {s : Progress ℕ X} {L : ℕ}

theorem deliver_running (hmore : ∀ out x, P.more out x = true → out.length < L) {a : ℕ} {x : X}
    (h : (P.deliver s a x).status = .running) :
    (P.deliver s a x).out.length = s.out.length + 1 ∧ (P.deliver s a x).out.length < L := by
  unfold Process.deliver at h ⊢
  by_cases hm : P.more (s.out ++ [a]) x = true
  · exact ⟨by simp, hmore _ _ hm⟩
  · rw [if_neg hm] at h
    cases h

theorem deliverAll_running (hmore : ∀ out x, P.more out x = true → out.length < L)
    (l : List (ℕ × X)) : ∀ {s : Progress ℕ X}, s.out.length < L →
    (P.deliverAll s l).status = .running → (P.deliverAll s l).out.length = s.out.length + l.length ∧
        (P.deliverAll s l).out.length < L := by
  induction l with
  | nil => exact fun hs _ => ⟨rfl, hs⟩
  | cons p l ih =>
    intro s hs h
    obtain ⟨a, x⟩ := p
    rw [Process.deliverAll] at h ⊢
    by_cases hrun : (P.deliver s a x).status = .running
    · rw [if_pos hrun] at h ⊢
      obtain ⟨hlen, hlt⟩ := deliver_running hmore hrun
      obtain ⟨hlen', hlt'⟩ := ih hlt h
      refine ⟨?_, hlt'⟩
      rw [List.length_cons]
      omega
    · rw [if_neg hrun] at h
      exact absurd h hrun

end Deliver

/-! ### Plain decoding, and speculation with DSpark drafts -/

namespace SpecDecode

variable {S X C U St : Type}

/-! ### Where a loop stands -/

/-- A loop keeps its pace: its steps end below the grant, and while it runs, it feeds the next token
behind those that are out, of which there are fewer than the limit. -/
structure Paced (P L G : ℕ) (s : Decode X) : Prop where
  below : StepsBelow G s.steps
  next : s.progress.status = .running →
    s.fed + 1 = P + s.progress.out.length ∧ s.progress.out.length < L

section Paced

variable {T : Target S} {A : Arm S X} {prompt : List ℕ} {P L G gamma : ℕ} {s : Decode X}

section

variable (hmore : ∀ out x, A.more out x = true → out.length < L)
include hmore

theorem paced_commit {tok pos : ℕ} (hpos : pos + 1 = P + s.progress.out.length)
    (hbelow : StepsBelow G s.steps) (hG : pos + 1 ≤ G) :
    Paced P L G (commit T A prompt tok pos s) := by
  have hsteps : StepsBelow G (s.steps ++ [.decode pos]) := hbelow.concat hG
  unfold commit
  dsimp only
  cases A.pick (T.row (feed s.cells pos [tok]) pos) s.progress.x with
  | none => exact ⟨hsteps, fun h => (by cases h)⟩
  | some p =>
    refine ⟨hsteps, fun h => ?_⟩
    obtain ⟨hlen, hlt⟩ := deliver_running (P := T.process A prompt) hmore h
    refine ⟨?_, hlt⟩
    rw [hlen]
    exact congrArg (· + 1) hpos

theorem paced_plainStep (hG : P + L ≤ G) (h : Paced P L G s) :
    Paced P L G (plainStep T A prompt s) := by
  unfold plainStep
  cases hrun : s.progress.status with
  | running =>
    obtain ⟨hfed, hlt⟩ := h.next hrun
    exact paced_commit hmore hfed h.below (by omega)
  | stopped | failed => exact h

theorem paced_decodePlain (hG : P + L ≤ G) (h : Paced P L G s) (n : ℕ) :
    Paced P L G (decodePlain T A prompt s n) := by
  unfold decodePlain
  induction n with
  | zero => exact h
  | succ n ih =>
    rw [Function.iterate_succ_apply']
    exact paced_plainStep hmore hG ih

end

def KeepsPace (P L G : ℕ) (verify : (ℕ → ℕ) → (ℕ → C) → Decode X → Decode X) : Prop :=
  ∀ draft confs s, s.progress.status = .running → Paced P L G s →
    Paced P L G (verify draft confs s)

section

variable {verify : (ℕ → ℕ) → (ℕ → C) → Decode X → Decode X}
  (hmore : ∀ out x, A.more out x = true → out.length < L) (hG : P + (gamma + 2) + L ≤ G)
  (hverify : KeepsPace P L G verify)
include hmore hG hverify

theorem paced_specRound (h : Paced P L G s) (e : Round C) :
    Paced P L G (specRound T A prompt gamma verify s e) := by
  unfold specRound
  by_cases hmode : s.progress.status ≠ .running ∨ s.mode = .plain ∨ e.drafts = false
  · rw [if_pos hmode]
    exact paced_plainStep hmore (by omega) h
  rw [if_neg hmode]
  obtain ⟨hfed, hlt⟩ := h.next (not_not.1 (not_or.1 hmode).1)
  have hdraft : (EngineStep.draft s.fed gamma).stop ≤ G := by
    show s.fed + gamma + 1 ≤ G
    omega
  have hplain : Paced P L G (plainStep T A prompt (s.issue (.draft s.fed gamma))) :=
    paced_plainStep hmore (by omega) ⟨h.below.concat hdraft, h.next⟩
  dsimp only
  by_cases hrun : (plainStep T A prompt (s.issue (.draft s.fed gamma))).progress.status = .running
  · rw [if_pos hrun]
    cases e.draft with
    | none => exact { hplain with }
    | some d => exact hverify _ _ _ hrun hplain
  · rw [if_neg hrun]
    exact hplain

theorem paced_specLoop (h : Paced P L G s) (rounds : List (Round C)) :
    Paced P L G (specLoop T A prompt gamma verify s rounds) := by
  have hrounds : ∀ (rounds : List (Round C)) (s : Decode X), Paced P L G s →
      Paced P L G (rounds.foldl (specRound T A prompt gamma verify) s) := by
    intro rounds
    induction rounds with
    | nil => exact fun _ h => h
    | cons e rounds ih => exact fun s h => ih _ (paced_specRound hmore hG hverify h e)
  exact hrounds rounds _ (paced_plainStep hmore (by omega) h)

end

end Paced

/-! ### The verify passes -/

section Slots

variable [Mul C] [LT C] [DecidableLT C]

theorem survive_le (spec : Spec C) (confs : ℕ → C) (fuel : ℕ) : ∀ (cum : C) (g : ℕ),
    spec.survive confs fuel cum g ≤ max g spec.gamma := by
  induction fuel with
  | zero => exact fun _ g => le_max_left _ _
  | succ fuel ih =>
    intro cum g
    rw [Spec.survive]
    by_cases hg : g < spec.gamma
    · rw [if_pos hg]
      dsimp only
      split
      · exact le_max_left _ _
      · exact (ih _ _).trans (max_le ((Nat.succ_le_of_lt hg).trans (le_max_right _ _))
          (le_max_right _ _))
    · rw [if_neg hg]
      exact le_max_left _ _

theorem slots_le [Zero C] [One C] (spec : Spec C) (confs : ℕ → C) :
    spec.slots confs ≤ max 1 spec.gamma := by
  unfold Spec.slots
  split
  · exact survive_le spec confs _ _ _
  · exact le_max_right _ _

end Slots

section Verify

variable {P L G gamma g : ℕ}

theorem below_verifyChunk (hg : g ≤ max 1 gamma) (hG : P + (gamma + 2) + L ≤ G) {s : Decode X}
    (hrun : s.progress.status = .running) (h : Paced P L G s) (hg₂ : 2 ≤ g) :
    StepsBelow G (s.steps ++ [.verify s.fed g]) := by
  obtain ⟨hfed, hlt⟩ := h.next hrun
  refine h.below.concat ?_
  show s.fed + g ≤ G
  omega

variable (T : Target S) (emit : List ℕ → Bool) (prompt : List ℕ)

section

variable (hemit : ∀ out, emit out = true → out.length < L) (hg : g ≤ max 1 gamma)
  (hG : P + (gamma + 2) + L ≤ G) (draft : ℕ → ℕ)
include hemit hg hG

theorem paced_verifyGreedy [LT S] [DecidableLT S] {s : Decode Unit}
    (hrun : s.progress.status = .running) (h : Paced P L G s) :
    Paced P L G (verifyGreedy T emit prompt draft g s) := by
  obtain ⟨hfed, hlt⟩ := h.next hrun
  unfold verifyGreedy
  split
  · next hcond =>
    refine ⟨below_verifyChunk hg hG hrun h hcond.2, fun hrun' => ?_⟩
    dsimp only at hrun' ⊢
    obtain ⟨hlen, hlt'⟩ := deliverAll_running (P := T.process (greedyArm T.vocab emit) prompt)
      (fun out _ hm => hemit out hm) _ hlt hrun'
    refine ⟨?_, hlt'⟩
    rw [hlen]
    rw [List.length_map, List.length_append, length_slotsFrom, List.length_singleton]
    omega
  · exact h

theorem paced_verifySampled (sample : (ℕ → S) → U → ℕ) (draws : ℕ → U) {s : Decode ℕ}
    (hrun : s.progress.status = .running) (h : Paced P L G s) :
    Paced P L G (verifySampled T sample draws emit prompt draft g s) := by
  obtain ⟨hfed, hlt⟩ := h.next hrun
  unfold verifySampled
  split
  · next hcond =>
    refine ⟨below_verifyChunk hg hG hrun h hcond.2, fun hrun' => ?_⟩
    dsimp only at hrun' ⊢
    obtain ⟨hlen, hlt'⟩ := deliverAll_running
      (P := T.process (sampledArm sample draws emit) prompt) (fun out _ hm => hemit out hm) _ hlt
      hrun'
    refine ⟨?_, hlt'⟩
    omega
  · exact h

end

section Guided

variable [LT S] [DecidableLT S] [Bot S] (M : Matcher St)

theorem guided_more (hemit : ∀ out, emit out = true → out.length < L) (out : List ℕ) (x : St)
    (h : (guidedArm (S := S) M T.vocab emit).more out x = true) : out.length < L :=
  hemit out (Bool.and_eq_true _ _ ▸ h).1

theorem emitAccepted_running (hemit : ∀ out, emit out = true → out.length < L) (l : List ℕ) :
    ∀ {s : Progress ℕ St}, s.out.length < L → (emitAccepted T M emit prompt s l).status = .running →
      (emitAccepted T M emit prompt s l).out.length = s.out.length + l.length ∧
        (emitAccepted T M emit prompt s l).out.length < L := by
  induction l with
  | nil => exact fun hs _ => ⟨rfl, hs⟩
  | cons tok l ih =>
    intro s hs h
    rw [emitAccepted] at h ⊢
    by_cases hacc : (M.accept s.x tok).2 = true
    · rw [if_pos hacc] at h ⊢
      by_cases hrun : ((T.process (guidedArm M T.vocab emit) prompt).deliver s tok
          (M.accept s.x tok).1).status = .running
      · rw [if_pos hrun] at h ⊢
        obtain ⟨hlen, hlt⟩ := deliver_running
          (P := T.process (guidedArm M T.vocab emit) prompt) (guided_more T emit M hemit) hrun
        obtain ⟨hlen', hlt'⟩ := ih hlt h
        refine ⟨?_, hlt'⟩
        rw [List.length_cons]
        omega
      · rw [if_neg hrun] at h
        exact absurd h hrun
    · rw [if_neg hacc] at h
      cases h

theorem tryAccepts_le (draft : ℕ → ℕ) (g fuel : ℕ) : ∀ (st : St) (ok : ℕ), 1 + ok ≤ g →
    1 + (tryAccepts M draft g fuel st ok).2 ≤ g := by
  induction fuel with
  | zero => exact fun _ _ h => h
  | succ fuel ih =>
    intro st ok h
    rw [tryAccepts]
    by_cases hlt : 1 + ok < g
    · rw [if_pos hlt]
      split
      · exact ih _ _ (by omega)
      · exact h
    · rw [if_neg hlt]
      exact h

variable {s : Decode St} (hemit : ∀ out, emit out = true → out.length < L)
include hemit

theorem paced_emitBonus (bonus tok : ℕ) (hbelow : StepsBelow G s.steps) (hG : P + L ≤ G)
    (hfed : s.progress.status = .running →
      s.fed = P + s.progress.out.length ∧ s.progress.out.length < L)
    (hpos : 0 < s.fed) : Paced P L G (emitBonus T M emit prompt bonus tok s) := by
  unfold emitBonus
  cases hrun : s.progress.status with
  | running =>
    obtain ⟨hat, hlt⟩ := hfed hrun
    dsimp only
    split
    · refine ⟨hbelow, fun hrun' => ?_⟩
      obtain ⟨hlen, hlt'⟩ := deliver_running (P := T.process (guidedArm M T.vocab emit) prompt)
        (guided_more T emit M hemit) hrun'
      refine ⟨?_, hlt'⟩
      dsimp only
      omega
    · refine paced_commit (guided_more T emit M hemit) ?_ hbelow (by omega)
      dsimp only
      omega
  | stopped | failed =>
    refine ⟨hbelow, fun h => ?_⟩
    rw [hrun] at h
    cases h

variable (hG : P + (gamma + 2) + L ≤ G) (draft : ℕ → ℕ) (hrun : s.progress.status = .running)
  (h : Paced P L G s)
include hG hrun h

theorem paced_verifyAllowed (hg : g ≤ max 1 gamma) :
    Paced P L G (verifyAllowed T M emit prompt draft g s) := by
  obtain ⟨hfed, hlt⟩ := h.next hrun
  unfold verifyAllowed
  split
  · next hcond =>
    refine paced_emitBonus T emit prompt M hemit _ _ (below_verifyChunk hg hG hrun h hcond.2)
      (by omega) (fun hrun' => ?_) (Nat.succ_pos _)
    obtain ⟨hlen, hlt'⟩ := emitAccepted_running T emit prompt M hemit _ hlt hrun'
    refine ⟨?_, hlt'⟩
    dsimp only
    rw [hlen, length_slotsFrom]
    omega
  · exact h

theorem paced_verifyGuided (hg : g ≤ max 1 gamma) :
    Paced P L G (verifyGuided T M emit prompt draft g s) := by
  unfold verifyGuided
  split
  · next hcond =>
    have hok := tryAccepts_le M draft g g s.progress.x 0 (by omega)
    exact paced_verifyAllowed T emit prompt M hemit hG draft hrun { h with } (hok.trans hg)
  · exact h

end Guided

end Verify

end SpecDecode

/-! ### Speculation with the MTP layer -/

namespace MtpDecode

/-- A loop keeps its pace: its steps end below the grant, and while it runs, the committed tokens
are those of the prompt and those that are out, of which there are fewer than the limit. -/
structure Paced (P L G : ℕ) (s : Decode) : Prop where
  below : StepsBelow G s.steps
  next : s.progress.status = .running →
    s.fed = P + s.progress.out.length ∧ s.progress.out.length < L ∧ s.state ≤ s.fed ∧
      s.drafts.length ≤ 2

section Paced

variable {cfg : Config} {target : Target} {emit : List ℕ → Bool} {prompt : List ℕ} {e : Round}
  {s : Decode} {P L G : ℕ}

theorem length_drafts_draftNext (pos0 rows fedNew : ℕ) (t : Decode) :
    (draftNext cfg e pos0 rows fedNew t).drafts.length ≤ 2 := by
  unfold draftNext
  dsimp only
  split
  · exact Nat.zero_le 2
  · exact Nat.zero_le 2
  · exact Nat.zero_le 2
  split
  · split
    · exact Nat.zero_le 2
    split
    · exact Nat.le_succ 1
    · exact le_rfl
    · exact le_rfl
  · exact Nat.le_succ 1

theorem below_catchUp (mtpRow : ℕ → Option ℕ) (pos0 rows last : ℕ) (l : List ℕ)
    (hl : ∀ pp ∈ l, pp + 1 ≤ G) : ∀ d1, StepsBelow G (catchUp mtpRow pos0 rows last l d1).2 := by
  induction l with
  | nil => exact fun _ => List.forall_mem_nil _
  | cons pp l ih =>
    intro d1
    obtain ⟨hpp, hl⟩ := List.forall_mem_cons.1 hl
    unfold catchUp
    split
    · exact List.forall_mem_nil _
    cases mtpRow pp with
    | none => exact List.forall_mem_singleton.2 hpp
    | some r => exact List.forall_mem_cons.2 ⟨hpp, ih hl _⟩

theorem below_draftNext {pos0 rows fedNew : ℕ} {t : Decode} (hpos : 0 < fedNew) (hfed : fedNew ≤ G)
    (h : StepsBelow G t.steps) : StepsBelow G (draftNext cfg e pos0 rows fedNew t).steps := by
  have hcaughtUp := h.append (below_catchUp e.mtpRow pos0 rows (fedNew - 2)
    (List.range' t.mtpNext (fedNew - 1 - t.mtpNext)) (fun pp hpp => by
      rw [List.mem_range'_1] at hpp
      omega) none)
  have hchain : (EngineStep.mtpChain (fedNew - 1)).stop ≤ G := by
    show fedNew - 1 + 1 ≤ G
    omega
  unfold draftNext
  dsimp only
  split
  · exact hcaughtUp
  · exact hcaughtUp
  · exact hcaughtUp
  split
  · split
    · exact hcaughtUp.concat hchain
    split <;> exact hcaughtUp.concat hchain
  · exact hcaughtUp

theorem length_used_le (cfg : Config) (e : Round) (h : s.drafts.length ≤ 2) :
    (used cfg e s).length ≤ 2 := by
  unfold used
  split
  · exact h
  · exact Nat.zero_le 2

theorem passRows_end (cfg : Config) (e : Round) (hstate : s.state ≤ s.fed) :
    s.state + (passRows cfg e s).length ≤ s.fed + (used cfg e s).length := by
  unfold passRows
  rw [List.length_append, List.length_take]
  omega

theorem length_newToks_eq (cfg : Config) (e : Round) (s : Decode) (p : Pass) :
    (p.newToks cfg e s).length = min p.accepted (used cfg e s).length + 1 := by
  unfold Pass.newToks
  rw [List.length_append, List.length_take, List.length_singleton]

theorem settle_le {p : Pass} (hstate : s.state ≤ s.fed) {r : Engine × ℕ × List ℕ}
    (h : p.settle cfg e s (s.fed + (p.newToks cfg e s).length) = some r) :
    r.2.1 ≤ s.fed + (p.newToks cfg e s).length := by
  have hrows := passRows_end cfg e hstate
  have hlen := length_newToks_eq cfg e s p
  unfold Pass.settle at h
  by_cases hrej : p.rejected cfg e s = true
  · rw [if_pos hrej] at h
    cases hrewind : p.rewindTo cfg (s.fed + (p.newToks cfg e s).length) with
    | none =>
      rw [hrewind] at h
      cases h
    | some a =>
      rw [hrewind] at h
      dsimp only at h
      have hle : a ≤ s.fed + (p.newToks cfg e s).length - 1 := by
        have hmem := (List.mem_filter.1 (List.max?_mem hrewind)).2
        rw [Bool.and_eq_true, decide_eq_true_eq] at hmem
        exact hmem.1
      cases hrestore : p.engine.kdaRestore a with
      | none =>
        rw [hrestore] at h
        cases h
      | some engine =>
        rw [hrestore] at h
        cases h
        dsimp only
        omega
  · rw [if_neg hrej] at h
    cases h
    unfold Pass.rejected at hrej
    rw [decide_eq_true_eq] at hrej
    dsimp only
    omega

theorem paced_prepare (cfg : Config) (e : Round) (h : Paced P L G s) :
    Paced P L G (prepare cfg e s) := by
  refine ⟨h.below, fun hrun => ?_⟩
  obtain ⟨hfed, hlt, hstate, hdrafts⟩ := h.next hrun
  refine ⟨hfed, hlt, hstate, ?_⟩
  unfold prepare
  split
  · exact Nat.zero_le 2
  · exact hdrafts

section

variable (hP : 0 < P) (hG : P + 2 + L ≤ G)
include hP hG

theorem paced_draftNext (t : Decode) (pos0 rows fedNew : ℕ) (hbelow : StepsBelow G t.steps)
    (hfed : fedNew = P + t.progress.out.length) (hlt : t.progress.out.length < L)
    (hstate : t.state ≤ fedNew) :
    Paced P L G { draftNext cfg e pos0 rows fedNew t with fed := fedNew } := by
  have hdrafts : (draftNext cfg e pos0 rows fedNew t).drafts.length ≤ 2 :=
    length_drafts_draftNext pos0 rows fedNew t
  have hsteps : StepsBelow G (draftNext cfg e pos0 rows fedNew t).steps :=
    below_draftNext (by omega) (by omega) hbelow
  obtain ⟨mtpNext, drafts, draftError, strayed, steps, hframe⟩ :=
    draftNext_frame cfg e t pos0 rows fedNew
  rw [hframe] at hdrafts hsteps ⊢
  exact ⟨hsteps, fun _ => ⟨hfed, hlt, hstate, hdrafts⟩⟩

variable (hemit : ∀ out, emit out = true → out.length < L)
include hemit

theorem paced_passRound (hrun : s.progress.status = .running) (h : Paced P L G s) :
    Paced P L G (passRound cfg target emit prompt e s) := by
  obtain ⟨hfed, hlt, hstate, -⟩ := h.next hrun
  unfold passRound
  cases verifyPass cfg target e s with
  | none => exact ⟨h.below, fun hf => (by cases hf)⟩
  | some p =>
    dsimp only
    cases hsettle : p.settle cfg e s (s.fed + (p.newToks cfg e s).length) with
    | none => exact ⟨h.below, fun hf => (by cases hf)⟩
    | some r =>
      have hle := settle_le hstate hsettle
      obtain ⟨engine, state, anchors⟩ := r
      have hdeliver := deliverAll_running (P := process target emit prompt)
        (fun out _ hm => hemit out hm) ((p.newToks cfg e s).map fun tok => (tok, ())) hlt
      dsimp only
      split
      · next hr =>
        obtain ⟨hlen, hlt'⟩ := hdeliver hr
        rw [List.length_map] at hlen
        apply paced_draftNext hP hG { s with
            engine := engine
            committed := s.committed ++ p.newToks cfg e s
            state := state
            anchors := anchors
            hw := p.hw
            progress := (process target emit prompt).deliverAll s.progress
              ((p.newToks cfg e s).map fun tok => (tok, ())) }
        · exact h.below
        · rw [hlen, hfed, Nat.add_assoc]
        · exact hlt'
        · exact hle
      · next hr => exact ⟨h.below, fun h => absurd h hr⟩

theorem paced_fastRound (hrun : s.progress.status = .running) (h : Paced P L G s) :
    Paced P L G (fastRound cfg target emit prompt e s) := by
  obtain ⟨hfed, -, hstate, -⟩ := h.next hrun
  unfold fastRound
  cases s.engine.decodeStep cfg target (s.committed.getD s.state 0) s.state with
  | none => exact ⟨h.below, fun hf => (by cases hf)⟩
  | some r =>
    obtain ⟨engine, tok⟩ := r
    dsimp only
    split
    · next hr =>
      obtain ⟨hlen, hlt⟩ := deliver_running (P := process target emit prompt)
        (fun out _ hm => hemit out hm) hr
      apply paced_draftNext hP hG { s with
          engine := (engine.kdaSnapshot cfg (s.state + 1) (e.claim 0)).1
          committed := s.committed ++ [tok]
          state := s.state + 1
          anchors :=
            if (engine.kdaSnapshot cfg (s.state + 1) (e.claim 0)).2 then
              record cfg.kp s.anchors (s.state + 1)
            else s.anchors
          hw := max s.hw (s.state + 1)
          progress := (process target emit prompt).deliver s.progress tok () }
      · exact h.below
      · rw [hlen]
        omega
      · exact hlt
      · exact Nat.succ_le_succ hstate
    · next hr => exact ⟨h.below, fun h => absurd h hr⟩

theorem paced_round (h : Paced P L G s) (e : Round) :
    Paced P L G (round cfg target emit prompt s e) := by
  have hprep := paced_prepare cfg e h
  unfold round
  cases hrun : s.progress.status with
  | running =>
    dsimp only
    set t := prepare cfg e s
    have hrun' : t.progress.status = .running := hrun
    obtain ⟨hfed, hlt, hstate, hdrafts⟩ := hprep.next hrun'
    by_cases hfast : isFast cfg e t = true
    · have hdecode : (EngineStep.decode t.state).stop ≤ G := by
        show t.state + 1 ≤ G
        omega
      rw [if_pos hfast]
      exact paced_fastRound hP hG hemit hrun' ⟨hprep.below.concat hdecode, hprep.next⟩
    · have hrows := passRows_end cfg e hstate
      have hused := length_used_le cfg e hdrafts
      have hverify : (EngineStep.verify t.state (passRows cfg e t).length).stop ≤ G := by
        show t.state + (passRows cfg e t).length ≤ G
        omega
      rw [if_neg hfast]
      exact paced_passRound hP hG hemit hrun' ⟨hprep.below.concat hverify, hprep.next⟩
  | stopped | failed => exact h

theorem paced_rounds (rounds : List Round) : ∀ s : Decode, Paced P L G s →
    Paced P L G (rounds.foldl (round cfg target emit prompt) s) := by
  induction rounds with
  | nil => exact fun _ h => h
  | cons e rounds ih => exact fun s h => ih _ (paced_round hP hG hemit h e)

end

theorem paced_start (engine : Engine) {front : List ℕ} {last : ℕ} (hL : 0 < L) :
    Paced (front ++ [last]).length L G (start engine front last) := by
  refine ⟨List.forall_mem_nil _, fun _ => ⟨?_, hL, Nat.le_succ _, Nat.zero_le 2⟩⟩
  rw [List.length_append]
  rfl

end Paced

end MtpDecode

/-! ### All arms -/

section Arms

open SpecDecode

variable {S X C U St : Type} [LT S] [DecidableLT S] [Bot S] [Zero C] [One C] [Mul C] [LT C]
  [DecidableLT C]

theorem paced_start {L G : ℕ} (hL : 0 < L) (cells : ℕ → ℕ) (front : List ℕ) (last : ℕ) (x : X) :
    SpecDecode.Paced (front ++ [last]).length L G (SpecDecode.start cells front last x) := by
  refine ⟨List.forall_mem_nil _, fun _ => ⟨?_, hL⟩⟩
  rw [List.length_append]
  rfl

/-- **No step past the reservation.**  When the engine has granted positions, either there is no
room for a token, or every step that any arm issues, for whatever drafts, confidences, failures and
choices of the engine, ends below the grant. -/
theorem steps_below_grant {granted gamma : ℕ} {enabled : Bool} {maxTokens : ℤ} {eos front : List ℕ}
    {last : ℕ} {limit : Option ℕ} (hg : 0 < granted)
    (hlimit : grantLimit granted (front ++ [last]).length (specMargin enabled gamma)
      (requestLimit maxTokens) = some limit) :
    let emit := emitMore eos limit
    let prompt := front ++ [last]
    (∀ (T : Target S) (A : Arm S X), (∀ out x, A.more out x = true → emit out = true) →
      ∀ cells x n,
      StepsBelow granted (decodePlain T A prompt (start cells front last x) n).steps) ∧
    (enabled = true → ∀ (T : Target S) (spec : Spec C), spec.gamma = gamma → ∀ cells rounds,
      StepsBelow granted
        (decodeSpeculative T emit prompt spec (start cells front last ()) rounds).steps) ∧
    (enabled = true → ∀ (T : Target S) (sample : (ℕ → S) → U → ℕ) (draws : ℕ → U) (spec : Spec C),
      spec.gamma = gamma → ∀ cells rounds,
      StepsBelow granted (decodeSpeculativeSampled T sample draws emit prompt spec
        (start cells front last 0) rounds).steps) ∧
    (enabled = true → ∀ (T : Target S) (M : Matcher St) (spec : Spec C), spec.gamma = gamma →
      ∀ cells st rounds,
      StepsBelow granted
        (decodeSpeculativeGuided T M emit prompt spec (start cells front last st) rounds).steps) ∧
    (enabled = true → ∀ (cfg : MtpDecode.Config) (target : MtpDecode.Target), cfg.gamma = gamma →
      ∀ engine (rounds : List MtpDecode.Round),
      StepsBelow granted (rounds.foldl (MtpDecode.round cfg target emit prompt)
        (MtpDecode.start engine front last)).steps) := by
  obtain ⟨L, rfl, hL, hle⟩ := grantLimit_spec hg hlimit
  have hemit : ∀ out, emitMore eos (some L) out = true → out.length < L :=
    fun out h => length_lt_of_emitMore h
  refine ⟨fun T A hmore cells x n => ?_, fun hen T spec hgamma cells rounds => ?_,
    fun hen T sample draws spec hgamma cells rounds => ?_,
    fun hen T M spec hgamma cells st rounds => ?_, fun hen cfg target hgamma engine rounds => ?_⟩
  · exact (paced_decodePlain (fun out x hm => hemit out (hmore out x hm)) (by omega)
      (paced_start hL cells front last x) n).below
  all_goals
    subst hen hgamma
    rw [specMargin, if_pos rfl] at hle
  · exact (paced_specLoop (fun out _ hm => hemit out hm) hle
      (fun draft confs s => paced_verifyGreedy T _ _ hemit (slots_le spec confs) hle draft)
      (paced_start hL cells front last ()) rounds).below
  · exact (paced_specLoop (fun out _ hm => hemit out hm) hle
      (fun draft confs s => paced_verifySampled T _ _ hemit
        ((min_le_left _ _).trans (slots_le spec confs)) hle draft sample draws)
      (paced_start hL cells front last 0) rounds).below
  · exact (paced_specLoop (guided_more T _ M hemit) hle
      (fun draft confs s hrun h =>
        paced_verifyGuided T _ _ M hemit hle draft hrun h (slots_le spec confs))
      (paced_start hL cells front last st) rounds).below
  · have hP : 0 < (front ++ [last]).length := List.length_pos_of_ne_nil (List.concat_ne_nil _ _)
    have hG : (front ++ [last]).length + 2 + L ≤ granted := by omega
    exact (MtpDecode.paced_rounds hP hG hemit rounds _ (MtpDecode.paced_start engine hL)).below

/-- A grant of ten positions clamps the limit behind a prompt of two tokens to four; two tokens are
out when the drafts are verified. -/
theorem steps_below_grant_ten :
    let s := decodeSpeculative countingTarget (emitMore [] (some 4)) [0, 1] (⟨2, 0, 2⟩ : Spec ℕ)
      (start (fun _ => 0) [0] 1 ()) [⟨true, some (fun i => i, fun _ => 1)⟩]
    grantLimit 10 2 (specMargin true 2) (requestLimit 9) = some (some 4) ∧
      s.steps = [.decode 1, .draft 2 2, .decode 2, .verify 3 2] ∧ StepsBelow 10 s.steps :=
  ⟨by decide, by decide,
    (@steps_below_grant ℕ Unit ℕ Unit Unit _ _ _ _ _ _ _ _ 10 2 true 9 [] [0] 1 (some 4) (by decide)
      (by decide)).2.1 rfl countingTarget ⟨2, 0, 2⟩ rfl (fun _ => 0)
      [⟨true, some (fun i => i, fun _ => 1)⟩]⟩

end Arms

end LayerStorm.Orchestrator
