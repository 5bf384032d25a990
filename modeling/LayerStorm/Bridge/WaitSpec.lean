import LayerStorm.Bridge.RingBridge

/-!
# What a wait consumes

Between two operations nothing may be in flight but fire-and-forget commands and the
asynchronous draft.  These are the *background*: they are recognised by their numbers, and
everything else a `wait` finds is taken for the answer to its own command.  This module says what
the ring primitives do when the commands that wait for their answers stand behind the background.
-/

namespace LayerStorm.Bridge

open EngineBridge List

variable {d : Daemon} {s t : EngineBridge}

/-! ### The rings -/

theorem Daemon.answer_cmdSeq (d : Daemon) (c : Command) : (d.answer c).cmdSeq = c.seq := by
  unfold Daemon.answer
  split <;> rfl

theorem CmdType.done_ne_error (type : CmdType) : type.done ≠ .error := by
  cases type <;> decide

theorem CmdType.done_ne_checkpoint (type : CmdType) : type.done ≠ .checkpoint := by
  cases type <;> decide

theorem Daemon.answer_ne_checkpoint (d : Daemon) (c : Command) :
    (d.answer c).type ≠ .checkpoint := by
  unfold Daemon.answer
  split
  · exact CmdType.done_ne_checkpoint c.type
  · intro h
    cases h

variable {c : Command}

theorem Daemon.answer_done {status : ℕ} (h : d.reply c.seq = .done status) :
    d.answer c = ⟨c.type.done, c.seq, status, 0⟩ := by
  simp only [Daemon.answer, h]

theorem Daemon.answer_error {category : ℕ} (h : d.reply c.seq = .error category) :
    d.answer c = ⟨.error, c.seq, 0, category⟩ := by
  simp only [Daemon.answer, h]

theorem inFlight_work (s : EngineBridge) (k : ℕ) : (s.work d k).inFlight d = s.inFlight d := by
  unfold work inFlight
  rw [append_assoc, ← map_append, take_append_drop]

theorem poll_cons {c : Cmp} {rest : List Cmp} (h : s.inFlight d = c :: rest) :
    ∃ cmds cmps, s.poll d = some (c, { s with commands := cmds, completions := cmps }) ∧
      cmps ++ cmds.map d.answer = rest := by
  unfold inFlight at h
  unfold poll
  cases hcmp : s.completions with
  | cons x xs =>
    rw [hcmp, cons_append, cons.injEq] at h
    obtain ⟨rfl, h⟩ := h
    exact ⟨s.commands, xs, rfl, h⟩
  | nil =>
    rw [hcmp, nil_append] at h
    cases hcmd : s.commands with
    | nil =>
      rw [hcmd] at h
      cases h
    | cons x xs =>
      rw [hcmd, map_cons, cons.injEq] at h
      obtain ⟨rfl, h⟩ := h
      exact ⟨xs, [], rfl, h⟩

theorem length_commands_le (s : EngineBridge) : s.commands.length ≤ (s.inFlight d).length := by
  unfold inFlight
  rw [length_append, length_map]
  omega

/-! ### The invariant -/

/-- A completion that is recognised by its number. -/
def Background (s : EngineBridge) (c : Cmp) : Prop :=
  c.cmdSeq ∈ s.fireForget ∨ (s.pendingSeq ≠ 0 ∧ c.cmdSeq = s.pendingSeq)

/-- The bookkeeping of numbers and of the asynchronous draft. -/
structure Sound (d : Daemon) (s : EngineBridge) : Prop where
  pos : 0 < s.nextSeq
  answers : ∀ c ∈ s.inFlight d, ∃ cmd : Command, c = d.answer cmd
  number_pos : ∀ c ∈ s.inFlight d, 0 < c.cmdSeq
  number_lt : ∀ c ∈ s.inFlight d, c.cmdSeq < s.nextSeq
  nodup : ((s.inFlight d).map Cmp.cmdSeq).Nodup
  fireForget_lt : ∀ n ∈ s.fireForget, n < s.nextSeq
  pending_lt : s.pendingSeq < s.nextSeq
  pending_not_fireForget : s.pendingSeq ≠ 0 → s.pendingSeq ∉ s.fireForget
  pending_eq : s.pendingSeq ≠ 0 → s.pendingSeq = s.draft
  cmp_eq : ∀ c, s.dsparkCmp = some c → c.cmdSeq = s.draft
  err_eq : ∀ n, s.dsparkErr = some n → n = s.draft
  trail_eq : ∀ p ∈ s.trail, p.1 = p.2

/-- The commands `cmds` wait for their answers, behind the background `bg`. -/
structure Behind (d : Daemon) (bg : List Cmp) (cmds : List Command) (s : EngineBridge) : Prop
    where
  sound : Sound d s
  inFlight_eq : s.inFlight d = bg ++ cmds.map d.answer
  background : ∀ c ∈ bg, Background s c
  foreground : ∀ c ∈ cmds, ¬ Background s (d.answer c)

/-- The commands `cmds` wait for their answers. -/
def Awaiting (d : Daemon) (cmds : List Command) (s : EngineBridge) : Prop :=
  ∃ bg, Behind d bg cmds s

/-- The commands `cmds` wait for their answers, and nothing else is in flight. -/
def Settled (d : Daemon) (cmds : List Command) (s : EngineBridge) : Prop := Behind d [] cmds s

variable {cmds : List Command}

theorem Settled.awaiting (h : Settled d cmds s) : Awaiting d cmds s :=
  ⟨[], h⟩

/-- What a `wait` does with the background. -/
def EngineBridge.absorb (s : EngineBridge) (c : Cmp) : EngineBridge :=
  if c.cmdSeq ∈ s.fireForget then s.discard c.cmdSeq
  else if c.type = .error then s.stashError c
  else s.stash c

theorem inspect_background {c : Cmp} (hc : Background s c) (expected : CmpType) :
    s.inspect expected c = (s.absorb c, .skip) := by
  unfold inspect absorb
  by_cases hff : c.cmdSeq ∈ s.fireForget
  · rw [if_pos hff, if_pos hff]
  · rw [if_neg hff, if_pos (hc.resolve_left hff)]
    split <;> rfl

theorem inspectV2_background {c : Cmp} (hc : Background s c) (hcp : c.type ≠ .checkpoint)
    (hpending : s.pendingSeq ≠ 0 → s.pendingSeq ∉ s.fireForget) (expected : CmpType) :
    s.inspectV2 expected c = (s.absorb c, .skip) := by
  unfold inspectV2 absorb
  rw [if_neg hcp]
  by_cases hff : c.cmdSeq ∈ s.fireForget
  · have hnot : ¬ (s.pendingSeq ≠ 0 ∧ c.cmdSeq = s.pendingSeq) := by
      rintro ⟨hne, heq⟩
      exact hpending hne (heq ▸ hff)
    simp only [if_pos hff, if_neg hnot, ite_self]
  · have hp := hc.resolve_left hff
    simp only [if_pos hp.2]
    split <;> rfl

theorem inspect_foreground {c : Cmp} (hc : ¬ Background s c) (expected : CmpType) :
    (c.type = .error → s.inspect expected c = (s, .fail (.cmpError c.errCategory))) ∧
    (c.type = expected → c.type ≠ .error → c.type ≠ .checkpoint →
      s.inspect expected c = (s, .done)) := by
  have hff : c.cmdSeq ∉ s.fireForget := fun h => hc (.inl h)
  have hp : ¬ (s.pendingSeq ≠ 0 ∧ c.cmdSeq = s.pendingSeq) := fun h => hc (.inr h)
  unfold inspect
  rw [if_neg hff, if_neg hp]
  constructor
  · intro he
    rw [if_pos he]
  · intro hexp he hcp
    rw [if_neg he, if_neg hcp, if_pos hexp]

theorem inspectV2_foreground {c : Cmp} (hc : ¬ Background s c) (hpos : 0 < c.cmdSeq)
    (expected : CmpType) :
    (c.type = .error → s.inspectV2 expected c = (s, .fail (.cmpError c.errCategory))) ∧
    (c.type = expected → c.type ≠ .error → c.type ≠ .checkpoint →
      s.inspectV2 expected c = (s, .done)) := by
  have hff : c.cmdSeq ∉ s.fireForget := fun h => hc (.inl h)
  have hp : c.cmdSeq ≠ s.pendingSeq := by
    intro h
    exact hc (.inr ⟨by omega, h⟩)
  have hp' : ¬ (s.pendingSeq ≠ 0 ∧ c.cmdSeq = s.pendingSeq) := fun h => hp h.2
  unfold inspectV2
  constructor
  · intro he
    rw [if_neg (by rw [he]; decide), if_pos he, if_neg hff, if_neg hp]
  · intro hexp he hcp
    rw [if_neg hcp, if_neg he, if_neg hp', if_pos hexp, if_neg hff]

theorem Sound.of_sublist (hs : Sound d s) (hin : (t.inFlight d).Sublist (s.inFlight d))
    (hnext : s.nextSeq ≤ t.nextSeq) (hff : ∀ n ∈ t.fireForget, n ∈ s.fireForget)
    (hpending : t.pendingSeq ≠ 0 → t.pendingSeq = s.pendingSeq) (hdraft : t.draft = s.draft)
    (hcmp : ∀ c, t.dsparkCmp = some c → c.cmdSeq = s.draft)
    (herr : ∀ n, t.dsparkErr = some n → n = s.draft) (htrail : ∀ p ∈ t.trail, p.1 = p.2) :
    Sound d t where
  pos := hs.pos.trans_le hnext
  answers := fun x hx => hs.answers x (hin.subset hx)
  number_pos := fun x hx => hs.number_pos x (hin.subset hx)
  number_lt := fun x hx => (hs.number_lt x (hin.subset hx)).trans_le hnext
  nodup := hs.nodup.sublist (hin.map _)
  fireForget_lt := fun n hn => (hs.fireForget_lt n (hff n hn)).trans_le hnext
  pending_lt := by
    by_cases h0 : t.pendingSeq = 0
    · rw [h0]
      exact hs.pos.trans_le hnext
    · rw [hpending h0]
      exact hs.pending_lt.trans_le hnext
  pending_not_fireForget := by
    intro h0 hmem
    have heq := hpending h0
    exact hs.pending_not_fireForget (heq ▸ h0) (heq ▸ hff _ hmem)
  pending_eq := by
    intro h0
    have heq := hpending h0
    rw [heq, hdraft]
    exact hs.pending_eq (heq ▸ h0)
  cmp_eq := fun c hc => hdraft ▸ hcmp c hc
  err_eq := fun n hn => hdraft ▸ herr n hn
  trail_eq := htrail

theorem Sound.congr (hs : Sound d s) (hin : t.inFlight d = s.inFlight d)
    (hnext : s.nextSeq ≤ t.nextSeq) (hff : t.fireForget = s.fireForget)
    (hpending : t.pendingSeq = s.pendingSeq) (hdraft : t.draft = s.draft)
    (hcmp : t.dsparkCmp = s.dsparkCmp) (herr : t.dsparkErr = s.dsparkErr)
    (htrail : t.trail = s.trail) : Sound d t :=
  hs.of_sublist (hin ▸ List.Sublist.refl _) hnext (fun _ hn => hff ▸ hn) (fun _ => hpending) hdraft
    (fun c hc => hs.cmp_eq c (hcmp ▸ hc)) (fun n hn => hs.err_eq n (herr ▸ hn))
    (fun p hp => hs.trail_eq p (htrail ▸ hp))

variable {bg : List Cmp}

theorem Behind.work (h : Behind d bg cmds s) (k : ℕ) : Behind d bg cmds (s.work d k) where
  sound := h.sound.congr (inFlight_work s k) (Nat.le_refl _) rfl rfl rfl rfl rfl rfl
  inFlight_eq := (inFlight_work s k).trans h.inFlight_eq
  background := h.background
  foreground := h.foreground

variable {cps : List Cmp} {crs : List Command}

/-- **A completion of the background is absorbed**: it is the only one that is no longer
recognised afterwards. -/
theorem Behind.absorb {c : Cmp} (h : Behind d (c :: bg) cmds s)
    (hrest : cps ++ crs.map d.answer = bg ++ cmds.map d.answer) :
    Behind d bg cmds (({ s with commands := crs, completions := cps } : EngineBridge).absorb c) ∧
      (({ s with commands := crs, completions := cps } : EngineBridge).absorb c).fused =
        s.fused := by
  have hs := h.sound
  have heq : s.inFlight d = c :: (bg ++ cmds.map d.answer) := h.inFlight_eq
  have hsub : (cps ++ crs.map d.answer).Sublist (s.inFlight d) := by
    rw [hrest, heq]
    exact sublist_cons_self _ _
  have hne : ∀ x ∈ bg ++ cmds.map d.answer, x.cmdSeq ≠ c.cmdSeq := by
    intro x hx hxc
    have hnd := hs.nodup
    rw [heq, map_cons, nodup_cons] at hnd
    exact hnd.1 (hxc ▸ mem_map_of_mem hx)
  unfold EngineBridge.absorb
  split
  · next hff =>
    refine ⟨⟨?_, hrest, ?_, ?_⟩, rfl⟩
    · exact hs.of_sublist hsub (Nat.le_refl _) (fun n hn => mem_of_mem_erase hn) (fun _ => rfl) rfl
        hs.cmp_eq hs.err_eq hs.trail_eq
    · intro x hx
      rcases h.background x (mem_cons_of_mem _ hx) with hxf | hxp
      · exact .inl ((mem_erase_of_ne (hne x (mem_append_left _ hx))).2 hxf)
      · exact .inr hxp
    · intro x hx hback
      refine h.foreground x hx ?_
      rcases hback with hxf | hxp
      · exact .inl (mem_of_mem_erase hxf)
      · exact .inr hxp
  next hff =>
  have hp : s.pendingSeq ≠ 0 ∧ c.cmdSeq = s.pendingSeq :=
    (h.background c mem_cons_self).resolve_left hff
  have hdraft : c.cmdSeq = s.draft := hp.2.trans (hs.pending_eq hp.1)
  have hback : ∀ x ∈ bg, x.cmdSeq ∈ s.fireForget := by
    intro x hx
    rcases h.background x (mem_cons_of_mem _ hx) with hxf | hxp
    · exact hxf
    · exact absurd (hxp.2.trans hp.2.symm) (hne x (mem_append_left _ hx))
  split
  · refine ⟨⟨?_, hrest, fun x hx => .inl (hback x hx), ?_⟩, rfl⟩
    · refine hs.of_sublist hsub (Nat.le_refl _) (fun n hn => hn) (fun h0 => absurd rfl h0) rfl hs.cmp_eq
        ?_ hs.trail_eq
      intro n hn
      exact Option.some.inj hn ▸ hdraft
    · intro x hx hxb
      rcases hxb with hxf | hxp
      · exact h.foreground x hx (.inl hxf)
      · exact hxp.1 rfl
  · refine ⟨⟨?_, hrest, fun x hx => .inl (hback x hx), ?_⟩, rfl⟩
    · refine hs.of_sublist hsub (Nat.le_refl _) (fun n hn => hn) (fun h0 => absurd rfl h0) rfl ?_
        hs.err_eq hs.trail_eq
      intro x hx
      exact Option.some.inj hx ▸ hdraft
    · intro x hx hxb
      rcases hxb with hxf | hxp
      · exact h.foreground x hx (.inl hxf)
      · exact hxp.1 rfl

theorem Behind.consume (h : Behind d [] (c :: cmds) s)
    (hrest : cps ++ crs.map d.answer = cmds.map d.answer) :
    Settled d cmds (({ s with commands := crs, completions := cps } : EngineBridge).note c.seq
      (d.answer c).cmdSeq) := by
  have hs := h.sound
  have heq : s.inFlight d = d.answer c :: cmds.map d.answer := h.inFlight_eq
  have hsub : (cps ++ crs.map d.answer).Sublist (s.inFlight d) := by
    rw [hrest, heq]
    exact sublist_cons_self _ _
  refine ⟨?_, hrest, by simp, fun x hx => h.foreground x (mem_cons_of_mem _ hx)⟩
  refine hs.of_sublist hsub (Nat.le_refl _) (fun n hn => hn) (fun _ => rfl) rfl hs.cmp_eq hs.err_eq ?_
  intro p hp
  rcases mem_append.1 hp with hp | hp
  · exact hs.trail_eq p hp
  · rw [mem_singleton.1 hp, d.answer_cmdSeq]

/-- **What a wait does**: it reads past the background and takes the first answer behind it. -/
theorem waitLoop_spec (cfg : Config) : ∀ (bg : List Cmp) {n : ℕ}
    {s : EngineBridge}, Behind d bg (c :: cmds) s → bg.length < n →
      ∃ t, Settled d cmds t ∧ t.fused = s.fused ∧ ((∃ status, d.reply c.seq = .done status ∧
            waitLoop d cfg c.type.done c.seq n s = .ok (d.answer c) t) ∨
          ∃ category, d.reply c.seq = .error category ∧
            waitLoop d cfg c.type.done c.seq n s = .error (.cmpError category) t) := by
  intro bg
  induction bg with
  | nil =>
    intro n s h hn
    obtain ⟨n, rfl⟩ : ∃ k, n = k + 1 := ⟨n - 1, by omega⟩
    obtain ⟨crs, cps, hpoll, hrest⟩ := poll_cons (s := s) (d := d) h.inFlight_eq
    have hfg : ¬ Background { s with commands := crs, completions := cps } (d.answer c) :=
      h.foreground c mem_cons_self
    have hpos : 0 < (d.answer c).cmdSeq := by
      refine h.sound.number_pos _ ?_
      rw [h.inFlight_eq]
      exact mem_cons_self
    have h1 := inspect_foreground hfg c.type.done
    have h2 := inspectV2_foreground hfg hpos c.type.done
    refine ⟨_, h.consume hrest, rfl, ?_⟩
    simp only [waitLoop, hpoll]
    cases hreply : d.reply c.seq with
    | done status =>
      refine .inl ⟨status, rfl, ?_⟩
      have hans := Daemon.answer_done hreply
      have htype : (d.answer c).type = c.type.done := by rw [hans]
      have hne : (d.answer c).type ≠ .error := htype ▸ c.type.done_ne_error
      rw [h1.2 htype hne (d.answer_ne_checkpoint c), h2.2 htype hne (d.answer_ne_checkpoint c),
        ite_self]
    | error category =>
      refine .inr ⟨category, rfl, ?_⟩
      have hans := Daemon.answer_error hreply
      have htype : (d.answer c).type = .error := by rw [hans]
      have hcat : (d.answer c).errCategory = category := by rw [hans]
      rw [h1.1 htype, h2.1 htype, ite_self, hcat]
  | cons x bg ih =>
    intro n s h hn
    obtain ⟨n, rfl⟩ : ∃ k, n = k + 1 := ⟨n - 1, by omega⟩
    obtain ⟨crs, cps, hpoll, hrest⟩ := poll_cons (s := s) (d := d) h.inFlight_eq
    have hback : Background { s with commands := crs, completions := cps } x :=
      h.background x mem_cons_self
    obtain ⟨cmd, rfl⟩ := h.sound.answers x (by rw [h.inFlight_eq]; exact mem_cons_self)
    obtain ⟨hbehind, hfused⟩ := h.absorb hrest
    obtain ⟨t, ht, htf, hres⟩ := ih (n := n) hbehind (by simpa using hn)
    refine ⟨t, ht, htf.trans hfused, ?_⟩
    simp only [waitLoop, hpoll]
    rw [inspect_background hback, inspectV2_background hback (d.answer_ne_checkpoint cmd)
      h.sound.pending_not_fireForget, ite_self]
    exact hres

/-! ### New commands -/

/-- A number that has been handed out and is not in use yet. -/
structure Fresh (d : Daemon) (n : ℕ) (s : EngineBridge) : Prop where
  pos : 0 < n
  lt : n < s.nextSeq
  not_inFlight : ∀ c ∈ s.inFlight d, c.cmdSeq ≠ n
  not_fireForget : n ∉ s.fireForget
  not_pending : n ≠ s.pendingSeq

theorem Fresh.foreground (h : Fresh d c.seq s) : ¬ Background s (d.answer c) := by
  unfold Background
  rw [d.answer_cmdSeq]
  rintro (hff | hp)
  · exact h.not_fireForget hff
  · exact h.not_pending hp.2

theorem Sound.push (hs : Sound d s) (hpos : 0 < c.seq) (hlt : c.seq < s.nextSeq)
    (hnew : ∀ x ∈ s.inFlight d, x.cmdSeq ≠ c.seq) :
    Sound d { s with commands := s.commands ++ [c] } := by
  have heq : ({ s with commands := s.commands ++ [c] } : EngineBridge).inFlight d =
      s.inFlight d ++ [d.answer c] := by
    simp [inFlight]
  have hmem : ∀ {P : Cmp → Prop}, (∀ x ∈ s.inFlight d, P x) → P (d.answer c) →
      ∀ x ∈ s.inFlight d ++ [d.answer c], P x := by
    intro P hP hPc x hx
    rcases mem_append.1 hx with hx | hx
    · exact hP x hx
    · rw [mem_singleton.1 hx]
      exact hPc
  constructor
  case answers =>
    rw [heq]
    exact hmem hs.answers ⟨c, rfl⟩
  case number_pos =>
    rw [heq]
    exact hmem hs.number_pos (by rw [d.answer_cmdSeq]; exact hpos)
  case number_lt =>
    rw [heq]
    exact hmem hs.number_lt (by rw [d.answer_cmdSeq]; exact hlt)
  case nodup =>
    rw [heq, map_append, map_singleton, d.answer_cmdSeq, nodup_append_comm]
    refine nodup_cons.2 ⟨?_, hs.nodup⟩
    intro hin
    obtain ⟨x, hx, hxc⟩ := mem_map.1 hin
    exact hnew x hx hxc
  exacts [hs.pos, hs.fireForget_lt, hs.pending_lt, hs.pending_not_fireForget, hs.pending_eq,
    hs.cmp_eq, hs.err_eq, hs.trail_eq]

theorem Behind.push (h : Behind d bg cmds s) (hc : Fresh d c.seq s) :
    Behind d bg (cmds ++ [c]) { s with commands := s.commands ++ [c] } where
  sound := h.sound.push hc.pos hc.lt hc.not_inFlight
  inFlight_eq := by
    have heq : s.completions ++ s.commands.map d.answer = bg ++ cmds.map d.answer := h.inFlight_eq
    show s.completions ++ (s.commands ++ [c]).map d.answer = _
    rw [map_append, ← append_assoc, heq, map_append, append_assoc]
  background := h.background
  foreground := by
    intro x hx
    rcases mem_append.1 hx with hx | hx
    · exact h.foreground x hx
    · rw [mem_singleton.1 hx]
      exact hc.foreground

theorem Sound.take (hs : Sound d s) : Sound d { s with nextSeq := s.nextSeq + 1 } :=
  hs.congr rfl (Nat.le_succ _) rfl rfl rfl rfl rfl rfl

theorem Behind.take (h : Behind d bg cmds s) :
    Behind d bg cmds { s with nextSeq := s.nextSeq + 1 } :=
  ⟨h.sound.take, h.inFlight_eq, h.background, h.foreground⟩

theorem Sound.fresh (hs : Sound d s) : Fresh d s.nextSeq { s with nextSeq := s.nextSeq + 1 } where
  pos := hs.pos
  lt := Nat.lt_succ_self _
  not_inFlight := fun c hc => Nat.ne_of_lt (hs.number_lt c hc)
  not_fireForget := fun hn => Nat.lt_irrefl _ (hs.fireForget_lt _ hn)
  not_pending := fun h => Nat.lt_irrefl _ (h ▸ hs.pending_lt)

theorem Fresh.work {n : ℕ} (h : Fresh d n s) (k : ℕ) : Fresh d n (s.work d k) :=
  { h with not_inFlight := by rw [inFlight_work]; exact h.not_inFlight }

/-- **Writing a command**: the ring is full only if it holds as many commands as it has slots. -/
theorem publish_spec (cfg : Config) (h : Behind d bg cmds s) (hc : Fresh d c.seq s) :
    (∃ t, publish d cfg c s = .error .ringFull t ∧ Behind d bg cmds t ∧
      cfg.cmdCount ≤ bg.length + cmds.length) ∨
    ∃ t, publish d cfg c s = .ok () t ∧ Behind d bg (cmds ++ [c]) t ∧
      ∀ n, Fresh d n s → n ≠ c.seq → Fresh d n t := by
  have hw := h.work (d.pace c.seq)
  have hcw := hc.work (d.pace c.seq)
  by_cases hfull : cfg.cmdCount ≤ (s.work d (d.pace c.seq)).commands.length
  · refine .inl ⟨_, if_pos hfull, hw, ?_⟩
    have hlen := length_commands_le (d := d) (s.work d (d.pace c.seq))
    rw [hw.inFlight_eq, length_append, length_map] at hlen
    omega
  · refine .inr ⟨_, if_neg hfull, hw.push hcw, ?_⟩
    intro n hn hne
    have hnw := hn.work (d.pace c.seq)
    refine { hnw with not_inFlight := ?_ }
    intro x hx
    rw [(hw.push hcw).inFlight_eq, map_append, ← append_assoc, ← hw.inFlight_eq] at hx
    rcases mem_append.1 hx with hx | hx
    · exact hnw.not_inFlight x hx
    rw [map_singleton, mem_singleton] at hx
    rw [hx, d.answer_cmdSeq]
    exact hne.symm

end LayerStorm.Bridge
