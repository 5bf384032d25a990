import LayerStorm.Orchestrator.SpecDecode

/-!
# Speculation with DSpark drafts is lossless

At the start of every round the cells below `fed` and the anchor spell the committed tokens.  A
committing step is then one step of sequential decoding, and what a verify pass emits follows
sequential decoding: the rows it looks at are those of confirmed tokens only.

## Main results

* `speculation_lossless` — all three arms are.
-/

namespace LayerStorm.Orchestrator

open List Nat
namespace SpecDecode

open Lib

variable {S X C U St : Type}

/-! ### Cells -/

/-- The cells below `pos`. -/
def below (cells : ℕ → ℕ) (pos : ℕ) : List ℕ := (List.range pos).map cells

@[simp] theorem length_below (cells : ℕ → ℕ) (pos : ℕ) : (below cells pos).length = pos := by
  simp [below]

theorem below_feed (cells : ℕ → ℕ) (pos : ℕ) (toks : List ℕ) {k : ℕ} (hk : k ≤ toks.length) :
    below (feed cells pos toks) (pos + k) = below cells pos ++ toks.take k := by
  refine ext_getElem (by simp [below, hk]) ?_
  intro i h₁ h₂
  have hi : i < pos + k := by simpa [below] using h₁
  simp only [below, getElem_map, getElem_range, getElem_append, length_map, length_range]
  unfold feed
  by_cases hlt : i < pos
  · rw [if_neg (by omega), dif_pos hlt]
  · rw [if_pos (by omega), dif_neg hlt, getElem_take]
    exact getD_eq_getElem _ _ (by omega)

theorem Target.row_eq (T : Target S) (cells : ℕ → ℕ) (pos : ℕ) :
    T.row cells pos = T.logits (below cells (pos + 1)) := rfl

/-- The cells below `fed` and the anchor spell the committed tokens. -/
def Stored (prompt : List ℕ) (s : Decode X) : Prop :=
  below s.cells s.fed ++ [s.anchor] = prompt ++ s.progress.out

/-! ### The committing step -/

section Commit

variable {T : Target S} {A : Arm S X} {prompt : List ℕ} {s : Decode X}

/-- **A committing step is one step of sequential decoding.** -/
theorem commit_spec {tok pos : ℕ} (hrun : s.progress.status = .running)
    (hpre : below s.cells pos ++ [tok] = prompt ++ s.progress.out) :
    (commit T A prompt tok pos s).progress = (T.process A prompt).step s.progress ∧
      ((commit T A prompt tok pos s).progress.status = .running →
        Stored prompt (commit T A prompt tok pos s)) := by
  have hcells : below (feed s.cells pos [tok]) (pos + 1) = prompt ++ s.progress.out := by
    rw [below_feed s.cells pos [tok] (le_refl 1)]
    exact hpre
  have hrow : T.row (feed s.cells pos [tok]) pos = T.logits (prompt ++ s.progress.out) := by
    rw [T.row_eq, hcells]
  unfold commit
  simp only [hrow]
  cases hpick : A.pick (T.logits (prompt ++ s.progress.out)) s.progress.x with
  | none =>
    have hnext : (T.process A prompt).next s.progress.out s.progress.x = none := hpick
    refine ⟨(Process.step_of_none hrun hnext).symm, ?_⟩
    intro h
    cases h
  | some p =>
    obtain ⟨next, x⟩ := p
    have hnext : (T.process A prompt).next s.progress.out s.progress.x = some (next, x) := hpick
    refine ⟨(Process.step_of_next hrun hnext).symm, ?_⟩
    intro _
    show below (feed s.cells pos [tok]) (pos + 1) ++ [next] = prompt ++ (s.progress.out ++ [next])
    rw [hcells, append_assoc]

theorem plainStep_of_running (hrun : s.progress.status = .running) :
    plainStep T A prompt s = commit T A prompt s.anchor s.fed s := by
  unfold plainStep
  rw [hrun]

theorem plainStep_of_ended (hrun : s.progress.status ≠ .running) : plainStep T A prompt s = s := by
  unfold plainStep
  split
  · exact absurd ‹_› hrun
  · rfl

theorem plainStep_spec (hst : s.progress.status = .running → Stored prompt s) :
    (plainStep T A prompt s).progress = (T.process A prompt).step s.progress ∧
      ((plainStep T A prompt s).progress.status = .running →
        Stored prompt (plainStep T A prompt s)) := by
  by_cases hrun : s.progress.status = .running
  · rw [plainStep_of_running hrun]
    exact commit_spec hrun (hst hrun)
  · rw [plainStep_of_ended hrun]
    exact ⟨(Process.step_of_ended hrun).symm, hst⟩

theorem decodePlain_spec (hst : s.progress.status = .running → Stored prompt s) (n : ℕ) :
    (decodePlain T A prompt s n).progress = (T.process A prompt).step^[n] s.progress ∧
      ((decodePlain T A prompt s n).progress.status = .running →
        Stored prompt (decodePlain T A prompt s n)) := by
  unfold decodePlain
  induction n with
  | zero => exact ⟨rfl, hst⟩
  | succ n ih =>
    rw [Function.iterate_succ_apply', Function.iterate_succ_apply', ← ih.1]
    exact plainStep_spec ih.2

end Commit

/-! ### Loops -/

section Loop

variable {T : Target S} {A : Arm S X} {prompt : List ℕ} {s t : Decode X}

/-- After `n` steps of sequential decoding from `p`, with the right cells while it runs. -/
structure Tracks (T : Target S) (A : Arm S X) (prompt : List ℕ) (p : Progress ℕ X) (n : ℕ)
    (s : Decode X) : Prop where
  reaches : (T.process A prompt).Reaches p n s.progress
  stored : s.progress.status = .running → Stored prompt s

variable {p : Progress ℕ X}

theorem Tracks.trans {m n : ℕ} (h₁ : Tracks T A prompt p m s) (hs : s.progress.status = .running)
    (h₂ : Tracks T A prompt s.progress n t) :
    Tracks T A prompt p (m + n) t :=
  ⟨h₁.reaches.trans hs h₂.reaches, h₂.stored⟩

theorem Tracks.extend {m n : ℕ} (h : Tracks T A prompt p m s) (hs : s.progress.status ≠ .running)
    (hmn : m ≤ n) : Tracks T A prompt p n s :=
  ⟨h.reaches.extend hs hmn, fun hrun => absurd hrun hs⟩

theorem tracks_plainStep (hst : s.progress.status = .running → Stored prompt s) :
    Tracks T A prompt s.progress 1 (plainStep T A prompt s) := by
  have h := plainStep_spec (T := T) (A := A) hst
  refine ⟨?_, h.2⟩
  rw [h.1]
  exact Process.Reaches.of_iterate _ 1

/-- What a verify pass has to do. -/
def Follows (T : Target S) (A : Arm S X) (prompt : List ℕ) (verify : Decode X → Decode X) :
    Prop :=
  ∀ s : Decode X, s.progress.status = .running → Stored prompt s →
    ∃ n, Tracks T A prompt s.progress n (verify s)

variable {gamma : ℕ} {verify : (ℕ → ℕ) → (ℕ → C) → Decode X → Decode X}

theorem tracks_specRound (hverify : ∀ draft confs, Follows T A prompt (verify draft confs))
    (hst : s.progress.status = .running → Stored prompt s) (e : Round C) :
    ∃ n, 0 < n ∧ Tracks T A prompt s.progress n (specRound T A prompt gamma verify s e) := by
  unfold specRound
  split
  · exact ⟨1, one_pos, tracks_plainStep hst⟩
  have hplain : Tracks T A prompt s.progress 1
      (plainStep T A prompt (s.issue (.draft s.fed gamma))) :=
    tracks_plainStep (s := s.issue _) hst
  dsimp only
  split
  · next hrun =>
    cases e.draft with
    | none => exact ⟨1, one_pos, hplain.reaches, fun _ => hplain.stored hrun⟩
    | some p =>
      obtain ⟨n, hn⟩ := hverify p.1 p.2 _ hrun (hplain.stored hrun)
      exact ⟨1 + n, by omega, hplain.trans hrun hn⟩
  · exact ⟨1, one_pos, hplain⟩

theorem tracks_rounds (hverify : ∀ draft confs, Follows T A prompt (verify draft confs))
    (rounds : List (Round C)) :
    ∀ {p : Progress ℕ X} {m : ℕ} {s : Decode X}, Tracks T A prompt p m s →
      ∃ n, m + rounds.length ≤ n ∧
        Tracks T A prompt p n (rounds.foldl (specRound T A prompt gamma verify) s) := by
  induction rounds with
  | nil =>
    intro p m s hs
    exact ⟨m, le_refl m, hs⟩
  | cons e rounds ih =>
    intro p m s hs
    obtain ⟨k, hk, hround⟩ := tracks_specRound hverify hs.stored e
    rw [foldl_cons]
    by_cases hrun : s.progress.status = .running
    · obtain ⟨n, hn, hres⟩ := ih (hs.trans hrun hround)
      refine ⟨n, ?_, hres⟩
      rw [length_cons]
      omega
    · -- a loop that has ended stays as it is
      have hended : specRound T A prompt gamma verify s e = s := by
        unfold specRound
        rw [if_pos (.inl hrun), plainStep_of_ended hrun]
      rw [hended]
      obtain ⟨n, hn, hres⟩ := ih (hs.extend hrun (le_succ m))
      refine ⟨n, ?_, hres⟩
      rw [length_cons]
      omega

/-- **A loop agrees with plain decoding**: after some number of rounds, plain decoding has emitted
the same tokens and has ended, or not, in the same way; while both run, the state of the arm is
the same, the stored token at each position below `fed` is the committed one, and so is the
anchor. -/
structure Lossless (T : Target S) (A : Arm S X) (prompt : List ℕ) (s₀ : Decode X) (rounds : ℕ)
    (s : Decode X) : Prop where
  agrees : ∃ n, rounds < n ∧ s.progress.out = (decodePlain T A prompt s₀ n).progress.out ∧
    s.progress.status = (decodePlain T A prompt s₀ n).progress.status ∧
    (s.progress.status = .running → s.progress.x = (decodePlain T A prompt s₀ n).progress.x)
  stored : s.progress.status = .running → s.fed + 1 = (prompt ++ s.progress.out).length ∧
    (∀ p < s.fed, (prompt ++ s.progress.out)[p]? = some (s.cells p)) ∧
      (prompt ++ s.progress.out)[s.fed]? = some s.anchor

theorem Stored.explicit (h : Stored prompt s) : s.fed + 1 = (prompt ++ s.progress.out).length ∧
      (∀ p < s.fed, (prompt ++ s.progress.out)[p]? = some (s.cells p)) ∧
        (prompt ++ s.progress.out)[s.fed]? = some s.anchor := by
  rw [← h]
  refine ⟨by simp, ?_, ?_⟩
  · intro p hp
    rw [getElem?_append_left (by simpa using hp)]
    simp [below, hp]
  · rw [getElem?_append_right (by simp)]
    simp

theorem stored_start (cells : ℕ → ℕ) (front : List ℕ) (last : ℕ) (x : X) :
    Stored (front ++ [last]) (start cells front last x) := by
  have h := below_feed cells 0 front (le_refl _)
  rw [zero_add, take_length] at h
  show below (feed cells 0 front) front.length ++ [last] = front ++ [last] ++ []
  rw [h]
  simp [below]

/-- **A loop whose verify passes follow sequential decoding is lossless.** -/
theorem specLoop_lossless {front : List ℕ} {last : ℕ}
    (hverify : ∀ draft confs, Follows T A (front ++ [last]) (verify draft confs)) (cells : ℕ → ℕ)
    (x : X) (rounds : List (Round C)) :
    Lossless T A (front ++ [last]) (start cells front last x) rounds.length
      (specLoop T A (front ++ [last]) gamma verify (start cells front last x) rounds) := by
  have hstart := stored_start cells front last x
  obtain ⟨n, hn, htracks⟩ := tracks_rounds hverify rounds
    (tracks_plainStep (T := T) (A := A) fun _ => hstart)
  have hplain := decodePlain_spec (T := T) (A := A) (fun _ => hstart) n
  refine ⟨⟨n, by omega, ?_⟩, fun hrun => (htracks.stored hrun).explicit⟩
  rw [hplain.1]
  exact ⟨htracks.reaches.out_eq, htracks.reaches.status_eq, htracks.reaches.x_eq⟩

end Loop

/-! ### Drafted slots -/

section

variable (draft : ℕ → ℕ)
include draft

theorem slotsFrom_succ (n : ℕ) :
    slotsFrom draft (n + 1) = slotsFrom draft n ++ [draft (n + 1)] := by
  simp [slotsFrom, range_succ]

@[simp] theorem slotsFrom_zero : slotsFrom draft 0 = [] := rfl

@[simp] theorem length_slotsFrom (n : ℕ) : (slotsFrom draft n).length = n := by
  simp [slotsFrom]

theorem take_slotsFrom {i n : ℕ} (h : i ≤ n) : (slotsFrom draft n).take i = slotsFrom draft i := by
  unfold slotsFrom
  rw [← map_take, take_range, min_eq_left h]

end

variable {prompt : List ℕ}

theorem below_verify {s : Decode X} (hst : Stored prompt s) (draft : ℕ → ℕ) {i g : ℕ} (hi : i < g) :
    below (feed s.cells s.fed (s.anchor :: slotsFrom draft (g - 1))) (s.fed + (i + 1)) =
      prompt ++ (s.progress.out ++ slotsFrom draft i) := by
  rw [below_feed _ _ _ (by simp; omega), take_succ_cons, take_slotsFrom draft (by omega),
    ← append_assoc, ← hst, append_assoc, singleton_append]

theorem row_verify (T : Target S) {s : Decode X} (hst : Stored prompt s) (draft : ℕ → ℕ) {i g : ℕ}
    (hi : i < g) :
    T.row (feed s.cells s.fed (s.anchor :: slotsFrom draft (g - 1))) (s.fed + i) =
      T.logits (prompt ++ (s.progress.out ++ slotsFrom draft i)) := by
  rw [T.row_eq, add_assoc, below_verify hst draft hi]

theorem accepted_spec (choice draft : ℕ → ℕ) {g : ℕ} : ∀ (fuel j : ℕ), j < g →
    (∀ i < j, choice i = draft (i + 1)) → accepted choice draft g fuel j < g ∧
        ∀ i < accepted choice draft g fuel j, choice i = draft (i + 1) := by
  intro fuel
  induction fuel with
  | zero =>
    intro j hj hpre
    exact ⟨hj, hpre⟩
  | succ fuel ih =>
    intro j hj hpre
    unfold accepted
    split
    · next h =>
      refine ih (j + 1) h.1 ?_
      intro i hi
      rcases Nat.lt_succ_iff_lt_or_eq.1 hi with hi | rfl
      · exact hpre i hi
      · exact h.2
    · exact ⟨hj, hpre⟩

/-! ### The greedy arm -/

section Greedy

variable [LT S] [DecidableLT S] {T : Target S} {emit : List ℕ → Bool} {prompt : List ℕ}

theorem map_fst_unit (l : List ℕ) : (l.map fun tok => (tok, ())).map Prod.fst = l := by
  rw [map_map]
  exact map_id l

theorem follows_slots {out : List ℕ} {draft : ℕ → ℕ} : ∀ (j : ℕ),
    (∀ i < j, argmax (T.logits (prompt ++ (out ++ slotsFrom draft i))) T.vocab = draft (i + 1)) →
      (T.process (greedyArm T.vocab emit) prompt).Follows out ()
        ((slotsFrom draft j).map fun tok => (tok, ())) := by
  intro j
  induction j with
  | zero =>
    intro _
    trivial
  | succ j ih =>
    intro h
    rw [slotsFrom_succ, map_append]
    refine Process.follows_append _ (ih fun i hi => h i (lt_succ_of_lt hi)) ?_
    rw [map_fst_unit, ← h j (lt_succ_self j)]
    rfl

theorem verifyGreedy_spec (draft : ℕ → ℕ) (g : ℕ) :
    Follows T (greedyArm T.vocab emit) prompt (verifyGreedy T emit prompt draft g) := by
  intro s hrun hst
  unfold verifyGreedy
  split
  swap
  · exact ⟨0, Process.Reaches.refl _, fun _ => hst⟩
  next hg =>
  set cells := feed s.cells s.fed (s.anchor :: slotsFrom draft (g - 1)) with hcells
  set choice := fun j => argmax (T.row cells (s.fed + j)) T.vocab with hchoice
  have hrow : ∀ i < g, choice i =
      argmax (T.logits (prompt ++ (s.progress.out ++ slotsFrom draft i))) T.vocab := by
    intro i hi
    rw [hchoice, hcells]
    simp only [row_verify T hst draft hi]
  obtain ⟨hj, hpre⟩ := accepted_spec choice draft (g := g) g 0 (by omega) (by omega)
  set j := accepted choice draft g g 0
  have hfollows : (T.process (greedyArm T.vocab emit) prompt).Follows s.progress.out ()
      ((slotsFrom draft j ++ [choice j]).map fun tok => (tok, ())) := by
    rw [map_append]
    refine Process.follows_append _ (follows_slots j fun i hi => ?_) ?_
    · rw [← hrow i (by omega), hpre i hi]
    · rw [map_fst_unit, hrow j hj]
      rfl
  obtain ⟨n, hn⟩ := Process.deliverAll_reaches _ hrun hfollows
  refine ⟨n, hn, ?_⟩
  intro hrun'
  have hbelow : below cells (s.fed + (j + 1)) = _ := below_verify hst draft hj
  show below cells (s.fed + (j + 1)) ++ [choice j] = prompt ++ Progress.out _
  rw [Process.deliverAll_out _ hrun', map_fst_unit, hbelow]
  simp only [append_assoc]
  rfl

end Greedy

/-! ### The sampled arm -/

section Sampled

variable {T : Target S} {sample : (ℕ → S) → U → ℕ} {draws : ℕ → U} {emit : List ℕ → Bool}
  {prompt : List ℕ}

variable (sample draws emit) in
theorem drawWalk_spec (row : ℕ → ℕ → S) {draft : ℕ → ℕ} {g : ℕ} {out : List ℕ}
    (hrow : ∀ i < g, row i = T.logits (prompt ++ (out ++ slotsFrom draft i))) :
    ∀ (fuel j n : ℕ), j < g →
      let picks := drawWalk sample draws row draft g fuel j n
      (T.process (sampledArm sample draws emit) prompt).Follows (out ++ slotsFrom draft j) n picks ∧
        ∃ k < g, picks.length = k + 1 - j ∧ j ≤ k ∧ slotsFrom draft j ++ picks.map Prod.fst =
            slotsFrom draft k ++ [(picks.getLastD (0, 0)).1] := by
  -- the next token of sequential sampling behind `j` confirmed slots
  have hnext : ∀ j < g, ∀ n, (T.process (sampledArm sample draws emit) prompt).next
      (out ++ slotsFrom draft j) n = some (sample (row j) (draws n), n + 1) := by
    intro j hj n
    rw [hrow j hj]
    rfl
  intro fuel
  induction fuel with
  | zero =>
    intro j n hj
    exact ⟨⟨hnext j hj n, trivial⟩, j, hj, by simp [drawWalk], le_refl j, rfl⟩
  | succ fuel ih =>
    intro j n hj
    unfold drawWalk
    dsimp only
    split
    · next h =>
      obtain ⟨hfollows, k, hk, hlen, hjk, htoks⟩ := ih (j + 1) (n + 1) h.1
      rw [slotsFrom_succ, ← h.2] at hfollows htoks
      refine ⟨⟨hnext j hj n, by rwa [append_assoc]⟩, k, hk, ?_, by omega, ?_⟩
      · rw [length_cons, hlen]
        omega
      · have hlast : ∀ (p : ℕ × ℕ) (l : List (ℕ × ℕ)), l ≠ [] →
            (p :: l).getLastD (0, 0) = l.getLastD (0, 0) := by
          intro p l hl
          cases l with
          | nil => exact absurd rfl hl
          | cons q l => simp
        rw [hlast _ _ (ne_nil_of_length_pos (by omega)), ← htoks]
        simp
    · exact ⟨⟨hnext j hj n, trivial⟩, j, hj, by simp, le_refl j, rfl⟩

/-- **The sampled verify pass follows sequential sampling.** -/
theorem verifySampled_spec (draft : ℕ → ℕ) (g : ℕ) : Follows T (sampledArm sample draws emit) prompt
      (verifySampled T sample draws emit prompt draft g) := by
  intro s hrun hst
  unfold verifySampled
  split
  swap
  · exact ⟨0, Process.Reaches.refl _, fun _ => hst⟩
  next hg =>
  set cells := feed s.cells s.fed (s.anchor :: slotsFrom draft (g - 1))
  have hrow : ∀ i < g, T.row cells (s.fed + i) =
      T.logits (prompt ++ (s.progress.out ++ slotsFrom draft i)) := by
    intro i hi
    exact row_verify T hst draft hi
  obtain ⟨hfollows, k, hk, hlen, -, htoks⟩ :=
    drawWalk_spec sample draws emit (fun j => T.row cells (s.fed + j)) hrow g 0 s.progress.x
      (by omega)
  set picks := drawWalk sample draws (fun j => T.row cells (s.fed + j)) draft g g 0 s.progress.x
  rw [slotsFrom_zero, append_nil] at hfollows
  rw [slotsFrom_zero, nil_append] at htoks
  obtain ⟨n, hn⟩ := Process.deliverAll_reaches _ hrun hfollows
  refine ⟨n, hn, ?_⟩
  intro hrun'
  have hbelow : below cells (s.fed + (k + 1)) = _ := below_verify hst draft hk
  show below cells (s.fed + picks.length) ++ [(picks.getLastD (0, 0)).1] = prompt ++ Progress.out _
  rw [Process.deliverAll_out _ hrun', htoks, hlen, Nat.sub_zero, hbelow]
  simp only [append_assoc]

end Sampled

/-! ### The greedy choice under a mask -/

section Mask

variable [LinearOrder S]

theorem argmax_spec (row : ℕ → S) : ∀ n, 0 < n →
    argmax row n < n ∧ (∀ t < n, row t ≤ row (argmax row n)) ∧
      ∀ t < argmax row n, row t < row (argmax row n) := by
  intro n
  induction n with
  | zero =>
    intro h
    exact absurd h (lt_irrefl 0)
  | succ n ih =>
    intro _
    rcases Nat.eq_zero_or_pos n with rfl | hn
    · simp [argmax]
    obtain ⟨hlt, hmax, hfirst⟩ := ih hn
    unfold argmax
    split
    · next h =>
      refine ⟨lt_succ_self n, ?_, fun t ht => (hmax t ht).trans_lt h⟩
      intro t ht
      rcases Nat.lt_succ_iff_lt_or_eq.1 ht with ht | rfl
      · exact ((hmax t ht).trans_lt h).le
      · exact le_rfl
    · next h =>
      refine ⟨by omega, ?_, hfirst⟩
      intro t ht
      rcases Nat.lt_succ_iff_lt_or_eq.1 ht with ht | rfl
      · exact hmax t ht
      · exact not_lt.1 h

variable {row : ℕ → S}

theorem argmax_eq {n a : ℕ} (ha : a < n) (hmax : ∀ t < n, row t ≤ row a)
    (hfirst : ∀ t < a, row t < row a) : argmax row n = a := by
  obtain ⟨hlt, hmax', hfirst'⟩ := argmax_spec row n (by omega)
  rcases lt_trichotomy (argmax row n) a with h | h | h
  · exact absurd (hfirst _ h) (not_lt.2 (hmax' a ha))
  · exact h
  · exact absurd (hfirst' a h) (not_lt.2 (hmax _ hlt))

theorem argmax_mask [OrderBot S] {mask : ℕ → Bool} {n : ℕ} (hn : 0 < n)
    (h : mask (argmax row n) = true) :
    argmax (fun t => if mask t then row t else ⊥) n = argmax row n := by
  obtain ⟨hlt, hmax, hfirst⟩ := argmax_spec row n hn
  refine argmax_eq hlt ?_ ?_
  · intro t ht
    simp only [h, if_true]
    split
    · exact hmax t ht
    · exact bot_le
  · intro t ht
    simp only [h, if_true]
    split
    · exact hfirst t ht
    · exact bot_le.trans_lt (hfirst t ht)

end Mask

/-! ### The grammar -/

namespace Matcher

variable {M : Matcher St}

theorem acceptAll_append : ∀ (l : List ℕ) {l' : List ℕ} {st : St},
    M.acceptAll st (l ++ l') = (M.acceptAll st l).bind fun st => M.acceptAll st l' := by
  intro l
  induction l with
  | nil =>
    intro l' st
    rfl
  | cons tok l ih =>
    intro l' st
    rw [cons_append, acceptAll, acceptAll]
    split
    · exact ih
    · rfl

theorem acceptAll_singleton (st : St) (tok : ℕ) :
    M.acceptAll st [tok] = if (M.accept st tok).2 then some (M.accept st tok).1 else none := rfl

theorem pickAndAccept_of_accept [LinearOrder S] [OrderBot S] (hM : M.Lawful) {row : ℕ → S}
    {vocab : ℕ} (hvocab : 0 < vocab) {st : St} (h : (M.accept st (argmax row vocab)).2 = true) :
    M.pickAndAccept vocab row st = some (argmax row vocab, (M.accept st (argmax row vocab)).1) := by
  have hmask := hM.allowed st _ h
  have hany : (range vocab).any (M.mask st) = true :=
    any_eq_true.2 ⟨_, mem_range.2 (argmax_spec row vocab hvocab).1, hmask⟩
  unfold pickAndAccept
  simp only [hany, if_true, argmax_mask hvocab hmask, h]

def acceptStates (M : Matcher St) : St → List ℕ → List (ℕ × St)
  | _, [] => []
  | st, tok :: l => (tok, (M.accept st tok).1) :: acceptStates M (M.accept st tok).1 l

@[simp] theorem map_fst_acceptStates : ∀ (l : List ℕ) (st : St),
    (M.acceptStates st l).map Prod.fst = l := by
  intro l
  induction l with
  | nil =>
    intro st
    rfl
  | cons tok l ih =>
    intro st
    rw [acceptStates, map_cons, ih]

theorem acceptStates_append : ∀ (l : List ℕ) (tok : ℕ) {st st' : St}, M.acceptAll st l = some st' →
      M.acceptStates st (l ++ [tok]) = M.acceptStates st l ++ [(tok, (M.accept st' tok).1)] ∧
        Process.endState st (M.acceptStates st l) = st' := by
  intro l
  induction l with
  | nil =>
    intro tok st st' h
    cases h
    exact ⟨rfl, rfl⟩
  | cons t l ih =>
    intro tok st st' h
    rw [acceptAll] at h
    split at h
    · obtain ⟨happ, hend⟩ := ih tok h
      rw [cons_append, acceptStates, happ, acceptStates, Process.endState_cons]
      exact ⟨rfl, hend⟩
    · cases h

end Matcher

/-! ### The guided arm -/

section Guided

variable {M : Matcher St}

theorem tryAccepts_spec (hM : M.Lawful) (draft : ℕ → ℕ) {g : ℕ} (st₀ : St) :
    ∀ (fuel : ℕ) (st : St) (ok : ℕ), M.acceptAll st₀ (slotsFrom draft ok) = some st → ok < g →
      M.acceptAll st₀ (slotsFrom draft (tryAccepts M draft g fuel st ok).2) =
          some (tryAccepts M draft g fuel st ok).1 ∧
        (tryAccepts M draft g fuel st ok).2 < g := by
  intro fuel
  induction fuel with
  | zero =>
    intro st ok hst hok
    exact ⟨hst, hok⟩
  | succ fuel ih =>
    intro st ok hst hok
    unfold tryAccepts
    split
    · next hlt =>
      split
      · next hacc =>
        refine ih _ _ ?_ (by omega)
        rw [slotsFrom_succ, Matcher.acceptAll_append, hst, add_comm ok 1]
        simp only [Option.bind_some, Matcher.acceptAll_singleton, hacc, if_true]
      · next hacc =>
        -- the refused slot has left the state as it was
        refine ⟨?_, hok⟩
        rw [hM.reject _ _ (by simpa using hacc)]
        exact hst
    · exact ⟨hst, hok⟩

variable {draft : ℕ → ℕ} {st : St}

theorem acceptAll_slots_le {st' : St} {j n : ℕ} (hjn : j ≤ n)
    (h : M.acceptAll st (slotsFrom draft n) = some st') :
    ∃ st'', M.acceptAll st (slotsFrom draft j) = some st'' := by
  have hsplit : slotsFrom draft n = slotsFrom draft j ++ (slotsFrom draft n).drop j := by
    rw [← take_slotsFrom draft hjn, take_append_drop]
  rw [hsplit, Matcher.acceptAll_append] at h
  cases hj : M.acceptAll st (slotsFrom draft j) with
  | none =>
    rw [hj] at h
    cases h
  | some st'' => exact ⟨st'', rfl⟩

variable [LinearOrder S] [OrderBot S] {T : Target S} {emit : List ℕ → Bool} {prompt : List ℕ}

theorem emitAccepted_eq : ∀ (l : List ℕ) {s : Progress ℕ St} {st : St},
    M.acceptAll s.x l = some st → emitAccepted T M emit prompt s l =
        (T.process (guidedArm M T.vocab emit) prompt).deliverAll s (M.acceptStates s.x l) := by
  intro l
  induction l with
  | nil =>
    intro s st _
    rfl
  | cons tok l ih =>
    intro s st h
    rw [Matcher.acceptAll] at h
    split at h
    · next hacc =>
      rw [emitAccepted, if_pos hacc, Matcher.acceptStates, Process.deliverAll]
      dsimp only
      rw [ih (s := Process.deliver _ s tok _) h]
      rfl
    · cases h

variable (emit) in
theorem next_of_accept (hM : M.Lawful) {out : List ℕ} {tok : ℕ}
    (htok : argmax (T.logits (prompt ++ out)) T.vocab = tok) (hacc : (M.accept st tok).2 = true) :
    (T.process (guidedArm M T.vocab emit) prompt).next out st =
      some (tok, (M.accept st tok).1) := by
  subst htok
  exact Matcher.pickAndAccept_of_accept hM T.vocab_pos hacc

variable (T emit prompt) in
theorem follows_acceptStates (hM : M.Lawful) (out : List ℕ) :
    ∀ (j : ℕ) {st' : St}, M.acceptAll st (slotsFrom draft j) = some st' →
      (∀ i < j, argmax (T.logits (prompt ++ (out ++ slotsFrom draft i))) T.vocab = draft (i + 1)) →
      (T.process (guidedArm M T.vocab emit) prompt).Follows out st
        (M.acceptStates st (slotsFrom draft j)) := by
  intro j
  induction j with
  | zero =>
    intro st' _ _
    trivial
  | succ j ih =>
    intro st' hst h
    obtain ⟨st'', hj⟩ := acceptAll_slots_le (le_succ j) hst
    obtain ⟨happ, hend⟩ := Matcher.acceptStates_append _ (draft (j + 1)) hj
    rw [slotsFrom_succ, Matcher.acceptAll_append, hj] at hst
    have hacc : (M.accept st'' (draft (j + 1))).2 = true := by
      by_contra hacc
      simp [Matcher.acceptAll_singleton, hacc] at hst
    rw [slotsFrom_succ, happ]
    refine Process.follows_append _ (ih hj fun i hi => h i (lt_succ_of_lt hi)) ?_
    rw [Matcher.map_fst_acceptStates, hend]
    exact next_of_accept emit hM (h j (lt_succ_self j)) hacc

variable (T emit prompt) in
theorem emitBonus_spec (hM : M.Lawful) (s : Decode St) (bonus tok : ℕ)
    (hrun : s.progress.status = .running) (hfed : 0 < s.fed)
    (hbelow : below s.cells s.fed = prompt ++ s.progress.out) (htok : s.cells (s.fed - 1) = tok)
    (hbonus : argmax (T.logits (prompt ++ s.progress.out)) T.vocab = bonus) :
    Tracks T (guidedArm M T.vocab emit) prompt s.progress 1
      (emitBonus T M emit prompt bonus tok s) := by
  unfold emitBonus
  simp only [hrun]
  split
  · next hacc =>
    have hnext := next_of_accept emit hM hbonus hacc
    refine ⟨?_, fun _ => ?_⟩
    · show Process.Reaches _ s.progress 1 (Process.deliver _ s.progress bonus _)
      rw [← Process.step_of_next hrun hnext]
      exact Process.Reaches.of_iterate _ 1
    · show below s.cells s.fed ++ [bonus] = prompt ++ (s.progress.out ++ [bonus])
      rw [hbelow, append_assoc]
  next hacc =>
  rw [hM.reject _ _ (by simpa using hacc)]
  have hpre : below s.cells (s.fed - 1) ++ [tok] = prompt ++ s.progress.out := by
    rw [← hbelow, ← htok]
    obtain ⟨pos, hpos⟩ : ∃ pos, s.fed = pos + 1 := ⟨s.fed - 1, by omega⟩
    rw [hpos, Nat.add_sub_cancel]
    simp [below, range_succ]
  have h := commit_spec (T := T) (A := guidedArm M T.vocab emit) (s := s) hrun hpre
  refine ⟨?_, h.2⟩
  show Process.Reaches _ s.progress 1 (commit _ _ _ _ _ s).progress
  rw [h.1]
  exact Process.Reaches.of_iterate _ 1

theorem verifyAllowed_spec (hM : M.Lawful) {g : ℕ} {s : Decode St}
    (hrun : s.progress.status = .running) (hst : Stored prompt s)
    (hacc : M.acceptAll s.progress.x (slotsFrom draft (g - 1)) = some st) :
    ∃ n, Tracks T (guidedArm M T.vocab emit) prompt s.progress n
      (verifyAllowed T M emit prompt draft g s) := by
  unfold verifyAllowed
  split
  swap
  · exact ⟨0, Process.Reaches.refl _, fun _ => hst⟩
  next hg =>
  dsimp only
  set cells := feed s.cells s.fed (s.anchor :: slotsFrom draft (g - 1)) with hcells
  set choice := fun j => argmax (T.row cells (s.fed + j)) T.vocab with hchoice
  have hrow : ∀ i < g, choice i =
      argmax (T.logits (prompt ++ (s.progress.out ++ slotsFrom draft i))) T.vocab := by
    intro i hi
    rw [hchoice, hcells]
    simp only [row_verify T hst draft hi]
  obtain ⟨hj, hpre⟩ := accepted_spec choice draft (g := g) g 0 (by omega) (by omega)
  set j := accepted choice draft g g 0
  obtain ⟨st', hst'⟩ := acceptAll_slots_le (j := j) (by omega) hacc
  have hfollows := follows_acceptStates T emit prompt hM s.progress.out j hst' fun i hi => by
    rw [← hrow i (by omega), hpre i hi]
  obtain ⟨n, hn⟩ := Process.deliverAll_reaches _ hrun hfollows
  rw [emitAccepted_eq _ hst']
  set p := (T.process (guidedArm M T.vocab emit) prompt).deliverAll s.progress
    (M.acceptStates s.progress.x (slotsFrom draft j)) with hp
  by_cases hprun : p.status = .running
  · have hout : p.out = s.progress.out ++ slotsFrom draft j := by
      rw [hp, Process.deliverAll_out _ hprun, Matcher.map_fst_acceptStates]
    have hfed : cells (s.fed + (j + 1) - 1) = (s.anchor :: slotsFrom draft (g - 1)).getD j 0 := by
      rw [hcells]
      unfold feed
      rw [if_pos (by simp; omega)]
      congr 1
      omega
    have hbelow : below cells (s.fed + (j + 1)) = prompt ++ p.out := by
      rw [hout]
      exact below_verify hst draft hj
    have hchosen : argmax (T.logits (prompt ++ p.out)) T.vocab = choice j := by
      rw [hout, hrow j hj]
    have hbonus := emitBonus_spec T emit prompt hM
      { s.issue (.verify s.fed g) with cells := cells, fed := s.fed + (j + 1), progress := p }
      (choice j) _ hprun
      (succ_pos (s.fed + j)) hbelow hfed hchosen
    exact ⟨n + 1, hn.trans hprun hbonus.reaches, hbonus.stored⟩
  · refine ⟨n, ?_, ?_⟩
    · unfold emitBonus
      split
      · exact absurd ‹_› hprun
      · exact hn
    · unfold emitBonus
      split
      · exact absurd ‹_› hprun
      · exact fun h => absurd h hprun

theorem verifyGuided_spec (hM : M.Lawful) (draft : ℕ → ℕ) (g : ℕ) :
    Follows T (guidedArm M T.vocab emit) prompt (verifyGuided T M emit prompt draft g) := by
  intro s hrun hst
  unfold verifyGuided
  split
  swap
  · exact ⟨0, Process.Reaches.refl _, fun _ => hst⟩
  next hg =>
  dsimp only
  obtain ⟨hacc, -⟩ := tryAccepts_spec hM draft (g := g) s.progress.x g _ 0 rfl (by omega)
  set r := tryAccepts M draft g g s.progress.x 0
  -- the rollback undoes the tentative advance
  have hundo : M.rollback r.2 r.1 = s.progress.x := by
    simpa using hM.undo _ _ _ hacc
  rw [hundo]
  refine verifyAllowed_spec (s := s) (g := 1 + r.2) hM hrun hst (show _ = some r.1 from ?_)
  rw [Nat.add_sub_cancel_left]
  exact hacc

end Guided

/-! ### The three loops -/

theorem sampled_draws (T : Target S) (sample : (ℕ → S) → U → ℕ) (draws : ℕ → U)
    (emit : List ℕ → Bool) (prompt : List ℕ) (n : ℕ) :
    let s := (T.process (sampledArm sample draws emit) prompt).step^[n] ⟨[], 0, .running⟩
    s.x = s.out.length := by
  induction n with
  | zero => rfl
  | succ n ih =>
    rw [Function.iterate_succ_apply']
    set s := (T.process (sampledArm sample draws emit) prompt).step^[n] ⟨[], 0, .running⟩
    by_cases hs : s.status = .running
    · rw [Process.step_of_next hs rfl]
      show s.x + 1 = (s.out ++ [sample (T.logits (prompt ++ s.out)) (draws s.x)]).length
      rw [length_append, length_singleton, ih]
    · rw [Process.step_of_ended hs]
      exact ih

theorem draws_eq_length {T : Target S} {sample : (ℕ → S) → U → ℕ} {draws : ℕ → U}
    {emit : List ℕ → Bool} {cells : ℕ → ℕ} {front : List ℕ} {last k : ℕ} {s : Decode ℕ}
    (h : Lossless T (sampledArm sample draws emit) (front ++ [last]) (start cells front last 0)
      k s) (hrun : s.progress.status = .running) : s.progress.x = s.progress.out.length := by
  obtain ⟨n, -, hout, -, hx⟩ := h.agrees
  have hplain := decodePlain_spec (T := T) (A := sampledArm sample draws emit)
    (fun _ => stored_start cells front last 0) n
  rw [hplain.1] at hout hx
  have hcount := sampled_draws T sample draws emit (front ++ [last]) n
  exact (hx hrun).trans (hcount.trans (congrArg length hout.symm))

section Loops

variable [LinearOrder S] [OrderBot S] [Zero C] [One C] [Mul C] [LT C] [DecidableLT C]

/-- **Speculation is lossless** in all three arms, for every prompt, draft stream, truncation and
governor; the sampled arm takes one draw for every token. -/
theorem speculation_lossless (T : Target S) (emit : List ℕ → Bool) (spec : Spec C)
    (sample : (ℕ → S) → U → ℕ) (draws : ℕ → U) (M : Matcher St) (hM : M.Lawful) (st : St)
    (cells : ℕ → ℕ) (front : List ℕ) (last : ℕ) (rounds : List (Round C)) :
    Lossless T (greedyArm T.vocab emit) (front ++ [last]) (start cells front last ()) rounds.length
        (decodeSpeculative T emit (front ++ [last]) spec (start cells front last ()) rounds) ∧
      (let s := decodeSpeculativeSampled T sample draws emit (front ++ [last]) spec
          (start cells front last 0) rounds
       Lossless T (sampledArm sample draws emit) (front ++ [last]) (start cells front last 0)
          rounds.length s ∧
        (s.progress.status = .running → s.progress.x = s.progress.out.length)) ∧
      Lossless T (guidedArm M T.vocab emit) (front ++ [last]) (start cells front last st)
        rounds.length
        (decodeSpeculativeGuided T M emit (front ++ [last]) spec (start cells front last st)
          rounds) := by
  have hsampled : Lossless T (sampledArm sample draws emit) (front ++ [last])
      (start cells front last 0) rounds.length (decodeSpeculativeSampled T sample draws emit
        (front ++ [last]) spec (start cells front last 0) rounds) :=
    specLoop_lossless (fun draft confs => verifySampled_spec draft _) cells 0 rounds
  refine ⟨?_, ⟨hsampled, draws_eq_length hsampled⟩, ?_⟩
  · exact specLoop_lossless (fun draft confs => verifyGreedy_spec draft _) cells () rounds
  · exact specLoop_lossless (fun draft confs => verifyGuided_spec hM draft _) cells st rounds

end Loops

/-! ### A run of each arm -/

/-- A model that counts modulo three. -/
def countingTarget : Target ℕ where
  vocab := 3
  vocab_pos := by decide
  logits := fun history tok => if tok = (history.getLastD 0 + 1) % 3 then 2 else 1

/-- A grammar that forbids one token and remembers the others. -/
def forbidMatcher (forbidden : ℕ) : Matcher (List ℕ) where
  accept := fun st tok => if tok = forbidden then (st, false) else (tok :: st, true)
  rollback := fun n st => st.drop n
  mask := fun _ tok => tok != forbidden
  completed := fun _ => false

theorem forbidMatcher_lawful (forbidden : ℕ) : (forbidMatcher forbidden).Lawful where
  reject := by
    intro st tok h
    by_cases htok : tok = forbidden
    · simp [forbidMatcher, htok]
    · simp [forbidMatcher, htok] at h
  undo := by
    intro st l
    have hall : ∀ (l : List ℕ) (st st' : List ℕ),
        (forbidMatcher forbidden).acceptAll st l = some st' → st' = l.reverse ++ st := by
      intro l
      induction l with
      | nil =>
        intro st st' h
        cases h
        rfl
      | cons tok l ih =>
        intro st st' h
        by_cases htok : tok = forbidden
        · simp [Matcher.acceptAll, forbidMatcher, htok] at h
        have hstep : (forbidMatcher forbidden).acceptAll (tok :: st) l = some st' := by
          simpa [Matcher.acceptAll, forbidMatcher, htok] using h
        rw [ih _ _ hstep]
        simp
    intro st' h
    rw [hall l st st' h]
    simp [forbidMatcher]
  allowed := by
    intro st tok h
    by_cases htok : tok = forbidden
    · simp [forbidMatcher, htok] at h
    · simp [forbidMatcher, htok]

/-- Three rounds: a draft with a slot that the grammar refuses, and a draft that fails. -/
def someRounds : List (Round ℕ) :=
  [⟨true, some (fun i => (i + 1) % 3, fun _ => 1)⟩, ⟨true, none⟩, ⟨true, none⟩]

theorem speculation_lossless_counting :
    let emit := fun out => decide (out.length < 7)
    let s := decodeSpeculativeGuided countingTarget (forbidMatcher 0) emit [0, 1]
      (⟨4, 1, 4⟩ : Spec ℕ) (start (fun _ => 0) [0] 1 []) someRounds
    s.progress.out = [2, 1, 2, 1, 2, 1] ∧
      Lossless countingTarget (guidedArm (forbidMatcher 0) 3 emit) [0, 1]
        (start (fun _ => 0) [0] 1 []) 3 s :=
  ⟨by decide,
    (speculation_lossless countingTarget (fun out => decide (out.length < 7)) ⟨4, 1, 4⟩
      (fun row _ => argmax row 3) (fun n => n) (forbidMatcher 0) (forbidMatcher_lawful 0) []
      (fun _ => 0) [0] 1 someRounds).2.2⟩

end SpecDecode
end LayerStorm.Orchestrator
