import LayerStorm.Lib.Run
import LayerStorm.Bridge.Pipelines

/-!
# Every wait consumes the completion of its own command

When the route command of a fused pair fails, the completion of the fetch command stays behind
and is read by the next operation, whose own completion is read by the one after it, and so on
for ever.  Nothing else that can fail has this effect, as long as the callers collect or drain a
draft before they send another.

## Main results

* `completions_attributed` — completions are attributed in every run in which the route commands
  of the fused pairs succeed.
* `failed_route_shifts_completions` — a run in which one of them fails.
-/

namespace LayerStorm.Bridge

open Lib Std.Do
open EngineBridge List

set_option mvcgen.warning false

variable {d : Daemon} {cfg : Config} {s t : EngineBridge}

/-- Nothing but the background is left behind, by a return and by an exception. -/
abbrev cleanly (d : Daemon) {α : Type} : PostCond α (.except BridgeError (.arg EngineBridge .pure)) :=
  post⟨fun _ s => ⌜Clean d s⌝, fun _ s => ⌜Clean d s⌝⟩

/-! ### Layers -/

theorem routedMoe_spec (lrus prefetchRecord : Bool) :
    ⦃fun s => ⌜Idle d s⌝⦄ routedMoe d cfg lrus prefetchRecord
    ⦃post⟨fun _ s => ⌜Idle d s⌝, fun _ s => ⌜Clean d s⌝⟩⦄ := by
  unfold routedMoe
  split
  · exact reefMoe_spec
  split
  · refine Triple.bind _ _ (triple_weaken (nextSeq_spec [] []) (fun _ => reserved_of_idle)
      (fun _ _ hs => hs) fun _ _ h => h.elim) ?_
    intro fetch
    refine Triple.bind _ _ (hostCheck_reserved [fetch]) ?_
    intro _
    have hroom := cfg.four_le_cmdCount
    refine Triple.bind _ _ (triple_weaken (publish_reserved_spec [] (by simp; omega)
      ⟨.fetchAndRunMoe, fetch⟩ [] True) (fun _ hs => hs.mono fun h => ⟨h, trivial⟩)
      (fun _ _ hs => hs) fun _ _ h hok => absurd hok h) ?_
    intro _
    refine Triple.bind _ _ (triple_weaken (wait_spec ⟨.fetchAndRunMoe, fetch⟩ [])
      (fun _ hs => hs.mono fun h => h.1.settled.awaiting) (fun _ _ hs => hs)
      fun _ _ hs => Idle.clean hs) ?_
    exact checkStatus_spec
  · mvcgen [hostCheck_idle, request_spec] with grind [Idle.clean]

variable {bg : List Cmp}

theorem Behind.fire (h : Behind d bg [] s) (type : CmdType) (k : ℕ) :
    Behind d bg [] (EngineBridge.work d k
      { s with nextSeq := s.nextSeq + 1, fireForget := s.nextSeq :: s.fireForget }) ∧
    Behind d (bg ++ [d.answer ⟨type, s.nextSeq⟩]) [] { EngineBridge.work d k
          { s with nextSeq := s.nextSeq + 1, fireForget := s.nextSeq :: s.fireForget } with
        commands := (s.work d k).commands ++ [⟨type, s.nextSeq⟩] } := by
  have hs := h.sound
  have hin : s.inFlight d = bg := by simpa using h.inFlight_eq
  have hbehind : Behind d bg []
      { s with nextSeq := s.nextSeq + 1, fireForget := s.nextSeq :: s.fireForget } := by
    refine ⟨?_, h.inFlight_eq, ?_, by simp⟩
    · refine { hs.take with fireForget_lt := ?_, pending_not_fireForget := ?_ }
      · intro n hn
        rcases mem_cons.1 hn with rfl | hn
        · exact Nat.lt_succ_self _
        · exact Nat.lt_succ_of_lt (hs.fireForget_lt n hn)
      · intro h0 hmem
        rcases mem_cons.1 hmem with heq | hmem
        · exact Nat.lt_irrefl _ (heq ▸ hs.pending_lt)
        · exact hs.pending_not_fireForget h0 hmem
    · intro c hc
      rcases h.background c hc with hff | hp
      · exact .inl (mem_cons_of_mem _ hff)
      · exact .inr hp
  have hw := hbehind.work k
  refine ⟨hw, ?_, ?_, ?_, by simp⟩
  · refine hw.sound.push (c := ⟨type, s.nextSeq⟩) hs.pos (Nat.lt_succ_self _) ?_
    intro x hx
    rw [hw.inFlight_eq, map_nil, append_nil, ← hin] at hx
    exact Nat.ne_of_lt (hs.number_lt x hx)
  · show (s.work d k).completions ++
      ((s.work d k).commands ++ [(⟨type, s.nextSeq⟩ : Command)]).map d.answer = _
    rw [map_append, ← append_assoc, map_nil, append_nil, ← hin]
    exact congrArg (· ++ _) (inFlight_work s k)
  · intro c hc
    rcases mem_append.1 hc with hc | hc
    · exact hw.background c hc
    refine .inl ?_
    rw [mem_singleton.1 hc, d.answer_cmdSeq]
    exact mem_cons_self

theorem prefetchFire_spec : ⦃fun s => ⌜Clean d s⌝⦄ prefetchFire d cfg ⦃cleanly d⦄ := by
  refine triple_iff.2 ?_
  intro s hs
  have hrun : prefetchFire d cfg s = publish d cfg ⟨.prefetchBatch, s.nextSeq⟩
      { s with nextSeq := s.nextSeq + 1, fireForget := s.nextSeq :: s.fireForget } := rfl
  rw [hrun]
  unfold publish
  dsimp only
  split
  · refine ⟨fun a t h => (by cases h), ?_⟩
    intro e t h
    cases h
    refine hs.of_fused_eq rfl ?_
    rintro ⟨bg, hbg⟩
    exact ⟨bg, (hbg.fire .prefetchBatch _).1⟩
  · refine ⟨?_, fun e t h => (by cases h)⟩
    intro a t h
    cases h
    refine hs.of_fused_eq rfl ?_
    rintro ⟨bg, hbg⟩
    exact ⟨_, (hbg.fire .prefetchBatch _).2⟩

theorem layerStep_spec (lrus prefetch : Bool) (layer : ℕ) :
    ⦃fun s => ⌜Clean d s⌝⦄ layerStep d cfg lrus prefetch layer ⦃cleanly d⦄ := by
  mvcgen [layerStep, look_clean, prefetchFire_spec, request_spec, routedMoe_spec]
  with grind [Idle.clean]

theorem layers_spec (lrus prefetch : Bool) :
    ⦃fun s => ⌜Idle d s⌝⦄ layers d cfg lrus prefetch ⦃cleanly d⦄ := by
  unfold layers
  split
  · exact triple_weaken farSweepBurst_spec (fun _ hs => hs) (fun _ _ hs => Idle.clean hs)
      fun _ _ hs => hs
  · exact triple_weaken (triple_forM (layerStep_spec lrus prefetch) _) (fun _ hs => Idle.clean hs)
      (fun _ _ hs => hs) fun _ _ hs => hs

/-! ### Operations -/

theorem freeSequence_spec : ⦃fun s => ⌜Clean d s⌝⦄ freeSequence d cfg ⦃cleanly d⦄ := by
  refine Triple.bind _ _ (send_spec [] .seqFree) ?_
  intro seq
  have hwait : ⦃fun s => ⌜When d (Awaiting d [⟨.seqFree, seq⟩]) s⌝⦄ wait d cfg .seqOpDone seq
      ⦃post⟨fun _ s => ⌜Idle d s⌝, fun _ s => ⌜Idle d s⌝⟩⦄ := wait_spec ⟨.seqFree, seq⟩ []
  refine triple_tryCatch (E := fun _ s => Clean d s) ?_ ?_
  · mvcgen [hwait] with grind [Idle.clean]
  · intro e
    mvcgen

theorem spillSequence_spec : ⦃fun s => ⌜Clean d s⌝⦄ spillSequence d cfg ⦃cleanly d⦄ := by
  mvcgen [spillSequence, exchange_spec] with grind [Idle.clean]

theorem kdaCkpt_spec : ⦃fun s => ⌜Clean d s⌝⦄ Op.code d cfg .kdaCkpt ⦃cleanly d⦄ := by
  mvcgen [Op.code, exchange_spec] with grind [Idle.clean]

theorem headReadback_spec : ⦃fun s => ⌜Clean d s⌝⦄ headReadback d cfg ⦃cleanly d⦄ := by
  mvcgen [headReadback, request_spec, hostCheck_idle] with grind [Idle.clean]

theorem decodeStep_spec (lrus logitsReadback : Bool) :
    ⦃fun s => ⌜Clean d s⌝⦄ decodeStep d cfg lrus logitsReadback ⦃cleanly d⦄ := by
  mvcgen [decodeStep, request_spec, layers_spec] with grind [Idle.clean]

theorem verifyStep_spec (lrus prefetch : Bool) :
    ⦃fun s => ⌜Clean d s⌝⦄ verifyStep d cfg lrus prefetch ⦃cleanly d⦄ := by
  mvcgen [verifyStep, request_spec, layers_spec, headReadback_spec]

theorem prefillChunk_spec (lrus : Bool) :
    ⦃fun s => ⌜Clean d s⌝⦄ prefillChunk d cfg lrus ⦃cleanly d⦄ := by
  mvcgen [prefillChunk, request_spec, layers_spec]

theorem request_clean (type : CmdType) : ⦃fun s => ⌜Clean d s⌝⦄ request d cfg type ⦃cleanly d⦄ :=
  triple_weaken (request_spec type) (fun _ hs => hs) (fun _ _ hs => Idle.clean hs) fun _ _ hs => hs

theorem hostCheck_clean : ⦃fun s => ⌜Clean d s⌝⦄ hostCheck d ⦃cleanly d⦄ := by
  mvcgen [hostCheck, look_clean]

theorem superchunkLayer_spec (subs : List (ℕ × ℕ)) (layer : ℕ) :
    ⦃fun s => ⌜Clean d s⌝⦄ superchunkLayer d cfg subs layer ⦃cleanly d⦄ := by
  refine Triple.bind _ _ (triple_forM ?_ subs) ?_
  · intro _
    mvcgen [request_clean, hostCheck_clean]
  · intro _
    mvcgen [request_clean, hostCheck_clean]

theorem prefillSuperchunk_spec (n pos₀ sub : ℕ) :
    ⦃fun s => ⌜Clean d s⌝⦄ prefillSuperchunk d cfg n pos₀ sub ⦃cleanly d⦄ :=
  Triple.bind _ _ (triple_forM (fun _ => request_clean .embeddingLookup) _) fun _ =>
    triple_forM (superchunkLayer_spec _) _

theorem mtpProbeStep_spec : ⦃fun s => ⌜Clean d s⌝⦄ mtpProbeStep d cfg ⦃cleanly d⦄ := by
  mvcgen [mtpProbeStep, request_clean, hostCheck_clean]

theorem mtpVerifyPass_spec : ⦃fun s => ⌜Clean d s⌝⦄ mtpVerifyPass d cfg ⦃cleanly d⦄ := by
  mvcgen [mtpVerifyPass, request_spec, farSweepBurst_spec, headReadback_spec]
  with grind [Idle.clean]

theorem mtpRow_spec (head : Bool) : ⦃fun s => ⌜Clean d s⌝⦄ mtpRow d cfg head ⦃cleanly d⦄ := by
  mvcgen [mtpRow, request_clean, headReadback_spec]

theorem mtpPrefillFill_spec (n : ℕ) :
    ⦃fun s => ⌜Clean d s⌝⦄ mtpPrefillFill d cfg n ⦃cleanly d⦄ := by
  unfold mtpPrefillFill
  split
  · mvcgen
  refine Triple.bind _ _ (triple_forM (fun _ => request_clean .mtpProject) _) ?_
  intro _
  mvcgen [request_spec, routedMoe_spec] with grind [Idle.clean]

/-! ### The draft -/

theorem parseDspark_spec : ⦃fun s => ⌜Clean d s⌝⦄ parseDspark d ⦃cleanly d⦄ := by
  mvcgen [parseDspark, look_clean]

theorem dsparkDraftStep_spec : ⦃fun s => ⌜Clean d s⌝⦄ dsparkDraftStep d cfg ⦃cleanly d⦄ := by
  mvcgen [dsparkDraftStep, request_clean, parseDspark_spec]

theorem Behind.forget {cmds : List Command} (h : Behind d bg cmds s) :
    Behind d bg cmds { s with dsparkCmp := none, dsparkErr := none } :=
  ⟨h.sound.of_sublist (List.Sublist.refl _) (Nat.le_refl _) (fun _ hn => hn) (fun _ => rfl) rfl
    (fun c hc => (by cases hc)) (fun n hn => (by cases hn)) h.sound.trail_eq, h.inFlight_eq,
    h.background, h.foreground⟩

variable {seq : ℕ}

theorem Behind.draft (h : Behind d bg [⟨.runDsparkStep, seq⟩] s) (hpending : s.pendingSeq = 0)
    (hcmp : s.dsparkCmp = none) (herr : s.dsparkErr = none) :
    Behind d (bg ++ [d.answer ⟨.runDsparkStep, seq⟩]) []
      { s with pendingSeq := seq, draft := seq } := by
  have hs := h.sound
  have hmem : d.answer ⟨.runDsparkStep, seq⟩ ∈ s.inFlight d := by
    rw [h.inFlight_eq]
    simp
  have hseq : (d.answer ⟨.runDsparkStep, seq⟩).cmdSeq = seq := d.answer_cmdSeq _
  have hpos : 0 < seq := hseq ▸ hs.number_pos _ hmem
  have hlt : seq < s.nextSeq := hseq ▸ hs.number_lt _ hmem
  have hff : seq ∉ s.fireForget := by
    intro hin
    exact h.foreground _ mem_cons_self (.inl (hseq.symm ▸ hin))
  refine ⟨?_, h.inFlight_eq.trans (by simp), ?_, by simp⟩
  · exact { hs with
        pending_lt := hlt
        pending_not_fireForget := fun _ => hff
        pending_eq := fun _ => rfl
        cmp_eq := fun c hc => (by rw [hcmp] at hc; cases hc)
        err_eq := fun n hn => (by rw [herr] at hn; cases hn) }
  · intro c hc
    rcases mem_append.1 hc with hc | hc
    · rcases h.background c hc with hcf | hcp
      · exact .inl hcf
      · exact absurd hpending hcp.1
    · refine .inr ⟨Nat.pos_iff_ne_zero.1 hpos, ?_⟩
      rw [mem_singleton.1 hc, hseq]

theorem publish_draft (d : Daemon) (cfg : Config) (c : Command) (s : EngineBridge) :
    (finalState (publish d cfg c) s).pendingSeq = s.pendingSeq ∧
      (finalState (publish d cfg c) s).dsparkCmp = s.dsparkCmp ∧
      (finalState (publish d cfg c) s).dsparkErr = s.dsparkErr := by
  unfold finalState publish
  by_cases hfull : cfg.cmdCount ≤ (s.work d (d.pace c.seq)).commands.length
  · rw [if_pos hfull]
    exact ⟨rfl, rfl, rfl⟩
  · rw [if_neg hfull]
    exact ⟨rfl, rfl, rfl⟩

theorem dsparkSendAsync_spec :
    ⦃fun s => ⌜Clean d s ∧ s.pendingSeq = 0⌝⦄ dsparkSendAsync d cfg ⦃cleanly d⦄ := by
  refine triple_iff.2 ?_
  rintro s ⟨hs, hpending⟩
  obtain ⟨t, hf, hcases⟩ := send_cases d cfg .runDsparkStep
    { s with dsparkCmp := none, dsparkErr := none }
  have hrun : dsparkSendAsync d cfg s = EStateM.bind (send d cfg .runDsparkStep)
        (fun seq => modify fun s => { s with pendingSeq := seq, draft := seq })
        { s with dsparkCmp := none, dsparkErr := none } := rfl
  rw [hrun]
  unfold EStateM.bind
  have hdraft := publish_draft d cfg ⟨.runDsparkStep, s.nextSeq⟩
    { s with nextSeq := s.nextSeq + 1, dsparkCmp := none, dsparkErr := none }
  rcases hcases with ⟨hpub, hsend⟩ | ⟨e, hpub, hsend⟩
  · rw [hsend]
    refine ⟨?_, fun e u h => (by cases h)⟩
    intro a u h
    cases h
    unfold finalState at hdraft
    rw [hpub] at hdraft
    refine hs.of_fused_eq hf ?_
    rintro ⟨bg, hbg⟩
    have hfg := hbg.forget
    obtain ⟨_, hbad, -⟩ | ⟨_, hok, hbehind, -⟩ := publish_spec cfg
      (c := ⟨.runDsparkStep, s.nextSeq⟩) hfg.take hfg.sound.fresh
    · rw [hpub] at hbad
      cases hbad
    · rw [hpub] at hok
      cases hok
      exact ⟨_, hbehind.draft (hdraft.1.trans hpending) hdraft.2.1 hdraft.2.2⟩
  · rw [hsend]
    refine ⟨fun a u h => (by cases h), ?_⟩
    intro e' u h
    cases h
    refine hs.of_fused_eq hf ?_
    rintro ⟨bg, hbg⟩
    have hfg := hbg.forget
    obtain ⟨_, hbad, hbehind, -⟩ | ⟨_, hok, -⟩ := publish_spec cfg
      (c := ⟨.runDsparkStep, s.nextSeq⟩) hfg.take hfg.sound.fresh
    · rw [hpub] at hbad
      cases hbad
      exact ⟨bg, hbehind⟩
    · rw [hpub] at hok
      cases hok

theorem collectLoop_fused : ∀ (n : ℕ) {s : EngineBridge},
    (finalState (collectLoop d n) s).fused = s.fused := by
  intro n
  induction n with
  | zero =>
    intro s
    rfl
  | succ n ih =>
    intro s
    unfold finalState
    simp only [collectLoop]
    cases hpoll : s.poll d with
    | none => rfl
    | some p =>
      obtain ⟨c, t⟩ := p
      rw [← poll_fused hpoll]
      dsimp only
      split_ifs
      · exact ih (s := t.discard c.cmdSeq)
      · rfl
      · rfl
      · exact ih (s := t)
      · rfl
      · rfl

theorem Behind.collect {c : Cmp} {crs : List Command} {cps : List Cmp} (h : Behind d (c :: bg) [] s)
    (hff : c.cmdSeq ∉ s.fireForget) (hrest : cps ++ crs.map d.answer = bg) :
    Awaiting d [] (({ s with commands := crs, completions := cps, pendingSeq := 0 } :
      EngineBridge).note s.draft c.cmdSeq) := by
  have hs := h.sound
  have heq : s.inFlight d = c :: bg := by simpa using h.inFlight_eq
  have hp : s.pendingSeq ≠ 0 ∧ c.cmdSeq = s.pendingSeq :=
    (h.background c mem_cons_self).resolve_left hff
  have hsub : (cps ++ crs.map d.answer).Sublist (s.inFlight d) := by
    rw [hrest, heq]
    exact sublist_cons_self _ _
  refine ⟨bg, ?_, by simpa [note, inFlight] using hrest, ?_, by simp⟩
  · refine hs.of_sublist hsub (Nat.le_refl _) (fun _ hn => hn)
      (fun h0 => absurd rfl h0) rfl hs.cmp_eq hs.err_eq ?_
    intro p hpm
    rcases mem_append.1 hpm with hpm | hpm
    · exact hs.trail_eq p hpm
    · rw [mem_singleton.1 hpm]
      exact (hp.2.trans (hs.pending_eq hp.1)).symm
  · intro x hx
    rcases h.background x (mem_cons_of_mem _ hx) with hxf | hxp
    · exact .inl hxf
    have hnd := hs.nodup
    rw [heq, map_cons, nodup_cons] at hnd
    exact absurd (mem_map.2 ⟨x, hx, hxp.2.trans hp.2.symm⟩) hnd.1

theorem collectLoop_spec : ∀ (bg : List Cmp) {n : ℕ} {s : EngineBridge}, Behind d bg [] s →
    bg.length ≤ n → Awaiting d [] (finalState (collectLoop d n) s) := by
  intro bg
  induction bg with
  | nil =>
    intro n s h _
    have hin : s.inFlight d = [] := by simpa using h.inFlight_eq
    have hpoll : s.poll d = none := by
      unfold poll
      obtain ⟨hcmp, hcmd⟩ := append_eq_nil_iff.1 hin
      rw [hcmp, map_eq_nil_iff.1 hcmd]
    have hfinal : finalState (collectLoop d n) s = { s with pendingSeq := 0 } := by
      unfold finalState
      cases n with
      | zero => rfl
      | succ n => simp only [collectLoop, hpoll]
    rw [hfinal]
    refine ⟨[], ?_, h.inFlight_eq, by simp, by simp⟩
    exact h.sound.of_sublist (List.Sublist.refl _) (Nat.le_refl _) (fun _ hn => hn)
      (fun h0 => absurd rfl h0) rfl h.sound.cmp_eq h.sound.err_eq h.sound.trail_eq
  | cons c bg ih =>
    intro n s h hn
    obtain ⟨n, rfl⟩ : ∃ k, n = k + 1 := ⟨n - 1, by simp at hn; omega⟩
    obtain ⟨crs, cps, hpoll, hrest⟩ := poll_cons (s := s) (d := d) h.inFlight_eq
    obtain ⟨cmd, rfl⟩ := h.sound.answers c (by rw [h.inFlight_eq]; exact mem_cons_self)
    unfold finalState
    simp only [collectLoop, hpoll]
    by_cases hff : (d.answer cmd).cmdSeq ∈ s.fireForget
    · rw [if_pos hff]
      have habs := (h.absorb hrest).1
      unfold absorb at habs
      rw [if_pos hff] at habs
      exact ih (n := n) habs (by simpa using hn)
    · have hp : (d.answer cmd).cmdSeq = s.pendingSeq :=
        ((h.background _ mem_cons_self).resolve_left hff).2
      have hcol := h.collect hff (hrest.trans (by simp))
      rw [if_neg (d.answer_ne_checkpoint cmd)]
      split_ifs
      · exact hcol
      · exact hcol

theorem collectLoop_triple (n : ℕ) :
    ⦃fun s => ⌜Clean d s ∧ (s.inFlight d).length = n⌝⦄ collectLoop d n ⦃cleanly d⦄ := by
  refine triple_iff.2 ?_
  rintro s ⟨hs, hn⟩
  have hfinal : Clean d (finalState (collectLoop d n) s) := by
    refine hs.of_fused_eq (collectLoop_fused n) ?_
    rintro ⟨bg, hbg⟩
    refine collectLoop_spec bg hbg ?_
    rw [← hn, hbg.inFlight_eq]
    simp
  constructor
  · intro a t h
    unfold finalState at hfinal
    rw [h] at hfinal
    exact hfinal
  · intro e t h
    unfold finalState at hfinal
    rw [h] at hfinal
    exact hfinal

theorem Awaiting.handOut (h : Awaiting d [] s) (hseq : seq = s.draft)
    (hcmp : ∀ c, t.dsparkCmp = some c → s.dsparkCmp = some c)
    (herr : ∀ n, t.dsparkErr = some n → s.dsparkErr = some n)
    (ht : t = { s with dsparkCmp := t.dsparkCmp, dsparkErr := t.dsparkErr }) :
    Awaiting d [] (t.note s.draft seq) := by
  obtain ⟨bg, hbg⟩ := h
  have hs := hbg.sound
  rw [ht]
  refine ⟨bg, ?_, hbg.inFlight_eq, hbg.background, by simp⟩
  refine hs.of_sublist (List.Sublist.refl _) (Nat.le_refl _) (fun _ hn => hn) (fun _ => rfl) rfl
    (fun c hc => hs.cmp_eq c (hcmp c hc)) (fun n hn => hs.err_eq n (herr n hn)) ?_
  intro p hp
  rcases mem_append.1 hp with hp | hp
  · exact hs.trail_eq p hp
  · rw [mem_singleton.1 hp]
    exact hseq.symm

theorem handOut_err (hs : Clean d s) (herr : s.dsparkErr = some seq) :
    Clean d (note { s with dsparkErr := none } s.draft seq) := by
  refine hs.of_fused_eq rfl ?_
  intro haw
  have hseq : seq = s.draft := by
    obtain ⟨bg, hbg⟩ := haw
    exact hbg.sound.err_eq seq herr
  exact haw.handOut (t := { s with dsparkErr := none }) hseq (fun _ hc => hc)
    (fun _ hn => (by cases hn)) rfl

theorem handOut_cmp {c : Cmp} (hs : Clean d s) (hcmp : s.dsparkCmp = some c) :
    Clean d (note { s with dsparkCmp := none } s.draft c.cmdSeq) := by
  refine hs.of_fused_eq rfl ?_
  intro haw
  have hseq : c.cmdSeq = s.draft := by
    obtain ⟨bg, hbg⟩ := haw
    exact hbg.sound.cmp_eq c hcmp
  exact haw.handOut (t := { s with dsparkCmp := none }) hseq (fun _ hc => (by cases hc))
    (fun _ hn => hn) rfl

theorem dsparkCollectAsync_spec : ⦃fun s => ⌜Clean d s⌝⦄ dsparkCollectAsync d ⦃cleanly d⦄ := by
  mvcgen [dsparkCollectAsync, parseDspark_spec, collectLoop_triple]
  case vc1 hs _ _ _ herr => exact handOut_err hs herr
  case vc2 hs _ hcmp _ => exact handOut_cmp hs hcmp

theorem drainPendingDspark_spec : ⦃fun s => ⌜Clean d s⌝⦄ drainPendingDspark d ⦃cleanly d⦄ := by
  have hforget : ⦃fun s => ⌜Clean d s⌝⦄
      (modify fun s => { s with dsparkCmp := none, dsparkErr := none } : BridgeM PUnit)
      ⦃cleanly d⦄ := by
    refine triple_iff.2 ?_
    intro s hs
    refine ⟨?_, fun e t h => (by cases h)⟩
    intro a t h
    cases h
    exact hs.of_fused_eq rfl fun haw => haw.imp fun _ hbg => hbg.forget
  have htry : ⦃fun s => ⌜Clean d s⌝⦄ tryCatch (dsparkCollectAsync d) fun _ => pure ()
      ⦃cleanly d⦄ := by
    refine triple_tryCatch dsparkCollectAsync_spec ?_
    intro e
    mvcgen
  refine triple_iff.2 ?_
  intro s hs
  by_cases hpending : s.pendingSeq ≠ 0 ∧ s.dsparkCmp = none
  · have hrun : drainPendingDspark d s =
        (tryCatch (dsparkCollectAsync d) (fun _ => pure ()) >>= fun _ =>
          modify fun s => { s with dsparkCmp := none, dsparkErr := none } : BridgeM PUnit) s := by
      show (if s.pendingSeq ≠ 0 ∧ s.dsparkCmp = none then _ else _ : BridgeM Unit) s = _
      rw [if_pos hpending]
    rw [hrun]
    exact triple_iff.1 (Triple.bind _ _ htry fun _ => hforget) s hs
  · have hrun : drainPendingDspark d s =
        (modify fun s => { s with dsparkCmp := none, dsparkErr := none } : BridgeM PUnit) s := by
      show (if s.pendingSeq ≠ 0 ∧ s.dsparkCmp = none then _ else _ : BridgeM Unit) s = _
      rw [if_neg hpending]
    rw [hrun]
    exact triple_iff.1 hforget s hs

/-! ### Runs -/

def DraftFree (s : EngineBridge) (op : Op) : Prop := op = .dsparkSendAsync → s.pendingSeq = 0

/-- **Every operation leaves only the background behind.** -/
theorem code_spec (d : Daemon) (cfg : Config) (op : Op) :
    ⦃fun s => ⌜Clean d s ∧ DraftFree s op⌝⦄ op.code d cfg ⦃cleanly d⦄ := by
  have hkeep : ∀ {x : BridgeM Unit}, (⦃fun s => ⌜Clean d s⌝⦄ x ⦃cleanly d⦄) →
      ⦃fun s => ⌜Clean d s ∧ DraftFree s op⌝⦄ x ⦃cleanly d⦄ :=
    fun h => triple_weaken h (fun _ hs => hs.1) (fun _ _ hs => hs) fun _ _ hs => hs
  cases op with
  | createSequence | forkSequence frozen | hibernateSequence | normOnlyHead | kdaSnapshot
  | kdaRestore => exact hkeep (request_clean _)
  | freeSequence => exact hkeep freeSequence_spec
  | spillSequence => exact hkeep spillSequence_spec
  | decodeStep lrus logitsReadback => exact hkeep (decodeStep_spec lrus logitsReadback)
  | verifyStep lrus prefetch => exact hkeep (verifyStep_spec lrus prefetch)
  | prefillChunk lrus => exact hkeep (prefillChunk_spec lrus)
  | prefillSuperchunk n pos₀ sub => exact hkeep (prefillSuperchunk_spec n pos₀ sub)
  | mtpProbeStep => exact hkeep mtpProbeStep_spec
  | mtpVerifyPass => exact hkeep mtpVerifyPass_spec
  | mtpRow head => exact hkeep (mtpRow_spec head)
  | mtpChainRow => exact hkeep (mtpRow_spec true)
  | mtpPrefillFill n => exact hkeep (mtpPrefillFill_spec n)
  | kdaCkpt => exact hkeep kdaCkpt_spec
  | dsparkDraftStep => exact hkeep dsparkDraftStep_spec
  | dsparkSendAsync =>
    exact triple_weaken dsparkSendAsync_spec (fun _ hs => ⟨hs.1, hs.2 rfl⟩) (fun _ _ hs => hs)
      fun _ _ hs => hs
  | dsparkCollectAsync => exact hkeep dsparkCollectAsync_spec
  | drainPendingDspark => exact hkeep drainPendingDspark_spec

/-- **Completions are attributed**: every wait that came to an end consumed the completion of the
command it waited for, and nothing is in flight but fire-and-forget commands and the pending
draft. -/
structure Attributed (d : Daemon) (s : EngineBridge) : Prop where
  own : ∀ p ∈ s.trail, p.1 = p.2
  background : ∀ c ∈ s.inFlight d,
    c.cmdSeq ∈ s.fireForget ∨ (s.pendingSeq ≠ 0 ∧ c.cmdSeq = s.pendingSeq)

theorem clean_init : Clean d init := by
  intro _
  refine ⟨[], ?_, rfl, by simp, by simp⟩
  constructor <;> simp [init, inFlight]

theorem clean_step {op : Op} (hs : Clean d s) (hop : DraftFree s op)
    (h : perform d cfg s op = some t) : Clean d t := by
  have hspec := triple_iff.1 (code_spec d cfg op) s ⟨hs, hop⟩
  cases h
  unfold finalState
  cases hx : op.code d cfg s with
  | ok a u => exact hspec.1 a u hx
  | error e u => exact hspec.2 e u hx

/-- **Completions are attributed in every run** in which the route command of every fused pair
succeeds and no asynchronous draft is sent while another is pending, whatever else fails. -/
theorem completions_attributed {ops : List Op}
    (hrun : GuardedRun (perform d cfg) DraftFree EngineBridge.init ops s) (hfused : FusedOk d s) :
    Attributed d s := by
  have hclean : Clean d s := hrun.invariant (fun _ _ _ hs hop h => clean_step hs hop h) clean_init
  obtain ⟨bg, hbg⟩ := hclean hfused
  refine ⟨hbg.sound.trail_eq, ?_⟩
  intro c hc
  rw [hbg.inFlight_eq, map_nil, append_nil] at hc
  exact hbg.background c hc

/-- The fast path, layer by layer: one layer, one fused pair per step. -/
def splitReef : Config := ⟨true, .reef, false, true, 1, 0, 8192, 8192, by decide⟩

def failing (seq : ℕ) : Daemon := ⟨fun n => if n = seq then .error 1 else .done 0, fun _ => 0,
  fun _ => true⟩

/-- A draft in flight, a fused pair, a failing head, a prefetch and the draft collected. -/
theorem completions_attributed_draft :
    ∃ s, GuardedRun (perform (failing 6) splitReef) DraftFree EngineBridge.init
        [.dsparkSendAsync, .decodeStep false false, .verifyStep true true, .dsparkCollectAsync,
          .freeSequence] s ∧
      s.fused = [4] ∧ s.trail = [(2, 2), (3, 3), (4, 4), (5, 5), (6, 6), (7, 7), (9, 9), (10, 10),
        (11, 11), (1, 1), (12, 12)] ∧
      Attributed (failing 6) s := by
  obtain ⟨s, hs, hfused, htrail⟩ : ∃ s, foldlM (perform (failing 6) splitReef)
      (finalState (dsparkSendAsync (failing 6) splitReef) init)
      [.decodeStep false false, .verifyStep true true, .dsparkCollectAsync, .freeSequence] =
        some s ∧ s.fused = [4] ∧ s.trail = [(2, 2), (3, 3), (4, 4), (5, 5), (6, 6), (7, 7), (9, 9),
          (10, 10), (11, 11), (1, 1), (12, 12)] :=
    ⟨_, rfl, by decide +kernel, by decide +kernel⟩
  have hrun : GuardedRun (perform (failing 6) splitReef) DraftFree init
      (.dsparkSendAsync :: [.decodeStep false false, .verifyStep true true, .dsparkCollectAsync,
        .freeSequence]) s := by
    refine GuardedRun.cons (fun _ => rfl) rfl (GuardedRun.of_foldlM hs ?_)
    intro u op hop hsend
    rw [hsend] at hop
    exact absurd hop (by decide)
  refine ⟨s, hrun, hfused, htrail, completions_attributed hrun ?_⟩
  intro n hn
  rw [hfused, mem_singleton] at hn
  rw [hn]
  decide

/-- **A failed route command shifts the completions**: the first step raises the error and leaves
the completion of its fetch command behind; in the second step every wait consumes the completion
of the command before its own. -/
theorem failed_route_shifts_completions :
    ∃ s t, GuardedRun (perform (failing 3) splitReef) DraftFree EngineBridge.init
        [.decodeStep false false] s ∧
      GuardedRun (perform (failing 3) splitReef) DraftFree EngineBridge.init
        [.decodeStep false false, .decodeStep false false] t ∧
      s.inFlight (failing 3) = [⟨.computeDone, 4, 0, 0⟩] ∧ ¬ Attributed (failing 3) s ∧
      t.trail = [(1, 1), (2, 2), (3, 3), (5, 4), (6, 5), (7, 6), (8, 7), (9, 8), (10, 9)] ∧
      ¬ Attributed (failing 3) t := by
  have hguard : ∀ (u : EngineBridge) (op : Op), op ∈ [Op.decodeStep false false,
      .decodeStep false false] → DraftFree u op := by
    intro u op hop hsend
    rw [hsend] at hop
    exact absurd hop (by decide)
  obtain ⟨s, hs, hleft, hff, hpending⟩ : ∃ s, foldlM (perform (failing 3) splitReef)
      init [.decodeStep false false] = some s ∧
        s.inFlight (failing 3) = [⟨.computeDone, 4, 0, 0⟩] ∧ s.fireForget = [] ∧ s.pendingSeq = 0 :=
    ⟨_, rfl, by decide +kernel, by decide +kernel, by decide +kernel⟩
  obtain ⟨t, ht, htrail⟩ : ∃ t, foldlM (perform (failing 3) splitReef) init
      [.decodeStep false false, .decodeStep false false] = some t ∧
        t.trail = [(1, 1), (2, 2), (3, 3), (5, 4), (6, 5), (7, 6), (8, 7), (9, 8), (10, 9)] :=
    ⟨_, rfl, by decide +kernel⟩
  refine ⟨s, t, GuardedRun.of_foldlM hs fun u op hop => hguard u op (by simpa using hop),
    GuardedRun.of_foldlM ht hguard, hleft, ?_, htrail, ?_⟩
  · intro hatt
    rcases hatt.background ⟨.computeDone, 4, 0, 0⟩ (by simp [hleft]) with h | h
    · simp [hff] at h
    · exact h.1 hpending
  · intro hatt
    have := hatt.own (5, 4) (by simp [htrail])
    simp at this

end LayerStorm.Bridge
