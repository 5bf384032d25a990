import LayerStorm.Lib.Triples
import LayerStorm.Bridge.WaitSpec

/-!
# Several commands in flight

Most operations send one command at a time.  Two keep several in flight: the pipelined sweep over
the layers, which collects whatever it has sent before it raises an error, and the fused pair of
a route and a fetch command, which does not when the route command fails.
-/

namespace LayerStorm.Bridge

open Lib Std.Do

set_option mvcgen.warning false

variable {d : Daemon} {cfg : Config} {s t : EngineBridge}

/-- The route commands of the fused pairs succeed. -/
def FusedOk (d : Daemon) (s : EngineBridge) : Prop := ∀ n ∈ s.fused, d.reply n = .done 0

/-- Provided that the route commands of the fused pairs succeed. -/
def When (d : Daemon) (P : EngineBridge → Prop) (s : EngineBridge) : Prop := FusedOk d s → P s

/-- Only the background is in flight. -/
abbrev Clean (d : Daemon) : EngineBridge → Prop := When d (Awaiting d [])

/-- Nothing is in flight. -/
abbrev Idle (d : Daemon) : EngineBridge → Prop := When d (Settled d [])

theorem When.mono {P Q : EngineBridge → Prop} (h : When d P s) (hPQ : P s → Q s) : When d Q s :=
  fun hok => hPQ (h hok)

theorem Idle.clean (h : Idle d s) : Clean d s := h.mono Settled.awaiting

theorem When.of_fused_eq {P Q : EngineBridge → Prop} (h : When d P s) (hf : t.fused = s.fused)
    (hPQ : P s → Q t) : When d Q t := by
  intro hok
  unfold FusedOk at hok
  rw [hf] at hok
  exact hPQ (h hok)

/-! ### The recorded pairs -/

theorem publish_fused (d : Daemon) (cfg : Config) (c : Command) (s : EngineBridge) :
    (finalState (publish d cfg c) s).fused = s.fused := by
  unfold finalState publish
  by_cases hfull : cfg.cmdCount ≤ (s.work d (d.pace c.seq)).commands.length
  · rw [if_pos hfull]
    rfl
  · rw [if_neg hfull]
    rfl

theorem poll_fused {c : Cmp} (h : s.poll d = some (c, t)) : t.fused = s.fused := by
  unfold EngineBridge.poll at h
  split at h
  · cases h
    rfl
  split at h
  · cases h
    rfl
  · cases h

theorem inspect_fused (expected : CmpType) (c : Cmp) :
    (s.inspect expected c).1.fused = s.fused := by
  unfold EngineBridge.inspect
  repeat' split
  all_goals rfl

theorem inspectV2_fused (expected : CmpType) (c : Cmp) :
    (s.inspectV2 expected c).1.fused = s.fused := by
  unfold EngineBridge.inspectV2
  repeat' split
  all_goals rfl

theorem waitLoop_fused {expected : CmpType} {cmd : ℕ} : ∀ (n : ℕ) {s : EngineBridge},
    (finalState (waitLoop d cfg expected cmd n) s).fused = s.fused := by
  intro n
  induction n with
  | zero =>
    intro s
    rfl
  | succ n ih =>
    intro s
    unfold finalState
    simp only [waitLoop]
    cases hpoll : s.poll d with
    | none => rfl
    | some p =>
      obtain ⟨c, t⟩ := p
      have hstep : (if cfg.v2 then t.inspectV2 expected c else t.inspect expected c).1.fused =
          s.fused := by
        rw [← poll_fused hpoll]
        split
        · exact inspectV2_fused expected c
        · exact inspect_fused expected c
      dsimp only
      cases hv : (if cfg.v2 then t.inspectV2 expected c else t.inspect expected c) with
      | mk u verdict =>
        rw [hv] at hstep
        cases verdict with
        | skip => exact (ih (s := u)).trans hstep
        | done | fail e => exact hstep

theorem fused_of_ok {α : Type} {x : BridgeM α} {a : α} (h : (finalState x s).fused = s.fused)
    (hx : x s = .ok a t) : t.fused = s.fused := by
  unfold finalState at h
  rw [hx] at h
  exact h

variable {e : BridgeError}

theorem fused_of_error {α : Type} {x : BridgeM α} (h : (finalState x s).fused = s.fused)
    (hx : x s = .error e t) : t.fused = s.fused := by
  unfold finalState at h
  rw [hx] at h
  exact h

/-! ### Primitives -/

variable {type : CmdType}

theorem send_of_ok
    (h : publish d cfg ⟨type, s.nextSeq⟩ { s with nextSeq := s.nextSeq + 1 } = .ok () t) :
    send d cfg type s = .ok s.nextSeq t := by
  show EStateM.bind (publish d cfg ⟨type, s.nextSeq⟩) (fun _ => EStateM.pure s.nextSeq)
    { s with nextSeq := s.nextSeq + 1 } = _
  unfold EStateM.bind
  rw [h]
  rfl

theorem send_of_error
    (h : publish d cfg ⟨type, s.nextSeq⟩ { s with nextSeq := s.nextSeq + 1 } = .error e t) :
    send d cfg type s = .error e t := by
  show EStateM.bind (publish d cfg ⟨type, s.nextSeq⟩) (fun _ => EStateM.pure s.nextSeq)
    { s with nextSeq := s.nextSeq + 1 } = _
  unfold EStateM.bind
  rw [h]

theorem send_cases (d : Daemon) (cfg : Config) (type : CmdType) (s : EngineBridge) :
    ∃ t, t.fused = s.fused ∧
      ((publish d cfg ⟨type, s.nextSeq⟩ { s with nextSeq := s.nextSeq + 1 } = .ok () t ∧
          send d cfg type s = .ok s.nextSeq t) ∨
        ∃ e, publish d cfg ⟨type, s.nextSeq⟩ { s with nextSeq := s.nextSeq + 1 } = .error e t ∧
          send d cfg type s = .error e t) := by
  have hfused := publish_fused d cfg ⟨type, s.nextSeq⟩ { s with nextSeq := s.nextSeq + 1 }
  cases h : publish d cfg ⟨type, s.nextSeq⟩ { s with nextSeq := s.nextSeq + 1 } with
  | ok a t =>
    have hf := fused_of_ok hfused h
    exact ⟨t, hf, .inl ⟨rfl, send_of_ok h⟩⟩
  | error e t =>
    have hf := fused_of_error hfused h
    exact ⟨t, hf, .inr ⟨e, rfl, send_of_error h⟩⟩

theorem send_spec (cmds : List Command) (type : CmdType) :
    ⦃fun s => ⌜When d (Awaiting d cmds) s⌝⦄ send d cfg type
    ⦃post⟨fun seq s => ⌜When d (Awaiting d (cmds ++ [⟨type, seq⟩])) s⌝,
      fun _ s => ⌜When d (Awaiting d cmds) s⌝⟩⦄ := by
  refine triple_iff.2 ?_
  intro s hs
  obtain ⟨t, hf, ⟨hpub, hsend⟩ | ⟨e, hpub, hsend⟩⟩ := send_cases d cfg type s
  · refine ⟨?_, fun e u h => by rw [hsend] at h; cases h⟩
    intro seq u h
    rw [hsend] at h
    cases h
    refine hs.of_fused_eq hf ?_
    rintro ⟨bg, hbg⟩
    obtain ⟨_, hbad, -⟩ | ⟨_, hok, hbehind, -⟩ := publish_spec cfg (c := ⟨type, s.nextSeq⟩)
      hbg.take hbg.sound.fresh
    · rw [hpub] at hbad
      cases hbad
    · rw [hpub] at hok
      cases hok
      exact ⟨bg, hbehind⟩
  · refine ⟨fun a u h => (by rw [hsend] at h; cases h), ?_⟩
    intro e' u h
    rw [hsend] at h
    cases h
    refine hs.of_fused_eq hf ?_
    rintro ⟨bg, hbg⟩
    obtain ⟨_, hbad, hbehind, -⟩ | ⟨_, hok, -⟩ := publish_spec cfg
      (c := ⟨type, s.nextSeq⟩) hbg.take hbg.sound.fresh
    · rw [hpub] at hbad
      cases hbad
      exact ⟨bg, hbehind⟩
    · rw [hpub] at hok
      cases hok

theorem send_settled_spec (cmds : List Command) (hroom : cmds.length < cfg.cmdCount)
    (type : CmdType) :
    ⦃fun s => ⌜When d (Settled d cmds) s⌝⦄ send d cfg type
    ⦃post⟨fun seq s => ⌜When d (Settled d (cmds ++ [⟨type, seq⟩])) s⌝,
      fun _ s => ⌜¬ FusedOk d s⌝⟩⦄ := by
  refine triple_iff.2 ?_
  intro s hs
  obtain ⟨t, hf, ⟨hpub, hsend⟩ | ⟨e, hpub, hsend⟩⟩ := send_cases d cfg type s
  · refine ⟨?_, fun e u h => by rw [hsend] at h; cases h⟩
    intro seq u h
    rw [hsend] at h
    cases h
    refine hs.of_fused_eq hf ?_
    intro hbg
    obtain ⟨_, hbad, -⟩ | ⟨_, hok, hbehind, -⟩ := publish_spec cfg (c := ⟨type, s.nextSeq⟩)
      hbg.take hbg.sound.fresh
    · rw [hpub] at hbad
      cases hbad
    · rw [hpub] at hok
      cases hok
      exact hbehind
  · refine ⟨fun a u h => (by rw [hsend] at h; cases h), ?_⟩
    intro e' u h
    rw [hsend] at h
    cases h
    refine hs.of_fused_eq (Q := fun _ => False) hf ?_
    intro hbg
    obtain ⟨_, hbad, -, hfull⟩ | ⟨_, hok, -⟩ := publish_spec cfg
      (c := ⟨type, s.nextSeq⟩) hbg.take hbg.sound.fresh
    · simp at hfull
      omega
    · rw [hpub] at hok
      cases hok

theorem wait_spec_and (c : Command) (cmds : List Command) (p : Prop) :
    ⦃fun s => ⌜When d (fun s => Awaiting d (c :: cmds) s ∧ p) s⌝⦄ wait d cfg c.type.done c.seq
    ⦃post⟨fun out s => ⌜When d (fun s => Settled d cmds s ∧ out = d.answer c ∧ p) s⌝,
      fun _ s => ⌜When d (fun s => Settled d cmds s ∧ d.reply c.seq ≠ .done 0 ∧ p) s⌝⟩⦄ := by
  refine triple_iff.2 ?_
  intro s hs
  have hfused : (finalState (wait d cfg c.type.done c.seq) s).fused = s.fused :=
    waitLoop_fused (s := s) _
  have hspec : Awaiting d (c :: cmds) s → ∃ t, Settled d cmds t ∧
      ((∃ status, d.reply c.seq = .done status ∧
          wait d cfg c.type.done c.seq s = .ok (d.answer c) t) ∨
        ∃ category, d.reply c.seq = .error category ∧
          wait d cfg c.type.done c.seq s = .error (.cmpError category) t) := by
    rintro ⟨bg, hbg⟩
    obtain ⟨t, ht, -, hres⟩ := waitLoop_spec cfg bg hbg (n := (s.inFlight d).length)
      (by rw [hbg.inFlight_eq]; simp)
    exact ⟨t, ht, hres⟩
  constructor
  · intro out t h
    refine hs.of_fused_eq (fused_of_ok hfused h) ?_
    rintro ⟨haw, hp⟩
    obtain ⟨u, hu, ⟨_, -, hrun⟩ | ⟨_, -, hrun⟩⟩ := hspec haw
    · rw [h] at hrun
      cases hrun
      exact ⟨hu, rfl, hp⟩
    · rw [h] at hrun
      cases hrun
  · intro e t h
    refine hs.of_fused_eq (fused_of_error hfused h) ?_
    rintro ⟨haw, hp⟩
    obtain ⟨u, hu, ⟨_, -, hrun⟩ | ⟨_, hreply, hrun⟩⟩ := hspec haw
    · rw [h] at hrun
      cases hrun
    · rw [h] at hrun
      cases hrun
      exact ⟨hu, by simp [hreply], hp⟩

theorem wait_spec (c : Command) (cmds : List Command) :
    ⦃fun s => ⌜When d (Awaiting d (c :: cmds)) s⌝⦄ wait d cfg c.type.done c.seq
    ⦃post⟨fun _ s => ⌜When d (Settled d cmds) s⌝, fun _ s => ⌜When d (Settled d cmds) s⌝⟩⦄ := by
  refine triple_weaken (wait_spec_and c cmds True) ?_ ?_ ?_
  · exact fun s hs => hs.mono fun h => ⟨h, trivial⟩
  · exact fun out s hs => hs.mono And.left
  · exact fun e s hs => hs.mono And.left

/-! ### Simple operations -/

theorem exchange_spec (type : CmdType) : ⦃fun s => ⌜Clean d s⌝⦄ exchange d cfg type
    ⦃post⟨fun _ s => ⌜Idle d s⌝, fun _ s => ⌜Clean d s⌝⟩⦄ := by
  refine Triple.bind _ _ (send_spec [] type) ?_
  intro seq
  refine triple_weaken (wait_spec ⟨type, seq⟩ []) ?_ ?_ ?_
  · exact fun s hs => hs
  · exact fun out s hs => hs
  · exact fun e s hs => Idle.clean hs

theorem checkStatus_spec (out : Cmp) :
    ⦃fun s => ⌜Idle d s⌝⦄ checkStatus out ⦃post⟨fun _ s => ⌜Idle d s⌝, fun _ s => ⌜Clean d s⌝⟩⦄ := by
  mvcgen [checkStatus] with grind [Idle.clean]

/-- **One command, one answer**: after a success nothing is in flight. -/
theorem request_spec (type : CmdType) : ⦃fun s => ⌜Clean d s⌝⦄ request d cfg type
    ⦃post⟨fun _ s => ⌜Idle d s⌝, fun _ s => ⌜Clean d s⌝⟩⦄ :=
  Triple.bind _ _ (exchange_spec type) checkStatus_spec

theorem look_spec (P : EngineBridge → Prop) (hP : ∀ s, P s → P { s with checks := s.checks + 1 }) :
    ⦃fun s => ⌜P s⌝⦄ look d ⦃post⟨fun _ s => ⌜P s⌝, fun _ s => ⌜P s⌝⟩⦄ := by
  refine triple_iff.2 ?_
  intro s hs
  refine ⟨?_, fun e t h => (by cases h)⟩
  intro a t h
  cases h
  exact hP s hs

variable {cmds : List Command}

theorem Behind.look {bg : List Cmp} (h : Behind d bg cmds s) :
    Behind d bg cmds { s with checks := s.checks + 1 } :=
  ⟨h.sound.congr rfl (Nat.le_refl _) rfl rfl rfl rfl rfl rfl, h.inFlight_eq, h.background,
    h.foreground⟩

theorem look_idle :
    ⦃fun s => ⌜Idle d s⌝⦄ look d ⦃post⟨fun _ s => ⌜Idle d s⌝, fun _ s => ⌜Idle d s⌝⟩⦄ :=
  look_spec _ fun _ hs hok => (hs hok).look

theorem look_clean :
    ⦃fun s => ⌜Clean d s⌝⦄ look d ⦃post⟨fun _ s => ⌜Clean d s⌝, fun _ s => ⌜Clean d s⌝⟩⦄ :=
  look_spec _ fun _ hs hok => (hs hok).imp fun _ h => h.look

theorem hostCheck_idle :
    ⦃fun s => ⌜Idle d s⌝⦄ hostCheck d ⦃post⟨fun _ s => ⌜Idle d s⌝, fun _ s => ⌜Clean d s⌝⟩⦄ := by
  mvcgen [hostCheck, look_idle]
  with grind [Idle.clean]

/-! ### The sweep over the layers -/

def sweepCommands (pending : List ℕ) : List Command := pending.map fun n => ⟨.farForwardLayer, n⟩

/-- Exactly the layers `pending` are in flight. -/
abbrev Sweeping (d : Daemon) (pending : List ℕ) : EngineBridge → Prop :=
  When d (Settled d (sweepCommands pending))

theorem collectOne_spec (seq : ℕ) (pending : List ℕ) (firstErr : Option BridgeError) :
    ⦃fun s => ⌜Sweeping d (seq :: pending) s⌝⦄ collectOne d cfg seq firstErr
    ⦃post⟨fun _ s => ⌜Sweeping d pending s⌝, fun _ _ => ⌜False⌝⟩⦄ := by
  have hwait : ⦃fun s => ⌜Sweeping d (seq :: pending) s⌝⦄ wait d cfg .computeDone seq
      ⦃post⟨fun _ s => ⌜Sweeping d pending s⌝, fun _ s => ⌜Sweeping d pending s⌝⟩⦄ := by
    exact triple_weaken (wait_spec ⟨.farForwardLayer, seq⟩ (sweepCommands pending))
      (fun s hs => hs.mono Settled.awaiting) (fun out s hs => hs) fun e s hs => hs
  have hbody : ⦃fun s => ⌜Sweeping d (seq :: pending) s⌝⦄
      (do let out ← wait d cfg .computeDone seq; checkStatus out; pure none :
        BridgeM (Option BridgeError))
      ⦃post⟨fun _ s => ⌜Sweeping d pending s⌝, fun _ s => ⌜Sweeping d pending s⌝⟩⦄ := by
    mvcgen [hwait, checkStatus]
  have hobserve : ⦃fun s => ⌜Sweeping d (seq :: pending) s⌝⦄
      observe (do let out ← wait d cfg .computeDone seq; checkStatus out)
      ⦃post⟨fun _ s => ⌜Sweeping d pending s⌝, fun _ _ => ⌜False⌝⟩⦄ := by
    unfold observe
    simp only [bind_assoc]
    refine triple_tryCatch hbody ?_
    intro e
    mvcgen
  mvcgen [collectOne, hobserve]

theorem collectWhile_spec (window : ℕ) : ∀ (pending : List ℕ) (firstErr : Option BridgeError),
    ⦃fun s => ⌜Sweeping d pending s⌝⦄ collectWhile d cfg window pending firstErr
    ⦃post⟨fun r s => ⌜Sweeping d r.1 s ∧ (r.1 = [] ∨ r.1.length < window)⌝,
      fun _ _ => ⌜False⌝⟩⦄ := by
  intro pending
  induction pending with
  | nil =>
    intro firstErr
    mvcgen [collectWhile]
    exact ⟨‹_›, .inl trivial⟩
  | cons seq pending ih =>
    intro firstErr
    unfold collectWhile
    by_cases hlen : window ≤ (seq :: pending).length
    · rw [if_pos hlen]
      exact Triple.bind _ _ (collectOne_spec seq pending firstErr) ih
    · mvcgen
      exact ⟨‹_›, .inr (Nat.lt_of_not_le hlen)⟩

theorem sweep_spec {window : ℕ} (hpos : 0 < window) (hroom : window ≤ cfg.cmdCount) :
    ∀ (layers : ℕ) (pending : List ℕ) (firstErr : Option BridgeError),
    ⦃fun s => ⌜Sweeping d pending s⌝⦄ sweep d cfg window layers pending firstErr
    ⦃post⟨fun r s => ⌜Sweeping d r.1 s⌝, fun _ s => ⌜¬ FusedOk d s⌝⟩⦄ := by
  intro layers
  induction layers with
  | zero =>
    intro pending firstErr
    mvcgen [sweep]
  | succ layers ih =>
    intro pending firstErr
    refine Triple.bind _ _ (triple_weaken (collectWhile_spec window pending firstErr)
      (fun s hs => hs) (fun r s hs => hs) fun e s h => h.elim) ?_
    rintro ⟨rest, err⟩
    dsimp only
    by_cases herr : err.isSome
    · mvcgen
      exact And.left ‹_›
    rw [if_neg herr]
    by_cases hlen : rest.length < window
    · refine Triple.bind _ _ (triple_weaken (send_settled_spec (sweepCommands rest)
        (by simp [sweepCommands]; omega) .farForwardLayer) (fun s hs => hs.1)
        (R := fun seq s => Sweeping d (rest ++ [seq]) s) ?_ fun e s h => h) ?_
      · intro seq s hs
        refine hs.mono ?_
        simp [sweepCommands]
      · exact fun seq => ih (rest ++ [seq]) err
    · refine triple_iff.2 ?_
      intro s hs
      rcases hs.2 with h | h
      · have hzero : rest.length = 0 := by rw [h, List.length_nil]
        omega
      · exact absurd h hlen

theorem Config.window_le (cfg : Config) : cfg.window ≤ cfg.cmdCount := by
  have := cfg.four_le_cmdCount
  unfold Config.window
  omega

theorem farSweepBurst_spec : ⦃fun s => ⌜Idle d s⌝⦄ farSweepBurst d cfg
    ⦃post⟨fun _ s => ⌜Idle d s⌝, fun _ s => ⌜Clean d s⌝⟩⦄ := by
  have hpos : 0 < cfg.window := by
    unfold Config.window
    omega
  refine Triple.bind _ _ (triple_weaken (sweep_spec hpos cfg.window_le cfg.numLayers [] none)
    (fun s hs => hs) (fun r s hs => hs) fun e s h hok => absurd hok h) ?_
  rintro ⟨pending, err⟩
  refine Triple.bind _ _ (triple_weaken (collectWhile_spec 0 pending err)
    (fun s hs => hs) (R := fun _ s => Idle d s) ?_ fun e s h => h.elim) ?_
  · rintro ⟨rest, err⟩ s ⟨hs, hrest⟩
    have : rest = [] := by simpa using hrest
    subst this
    exact hs
  · rintro ⟨-, err⟩
    cases err with
    | none => mvcgen
    | some e => mvcgen with grind [Idle.clean]

/-! ### The fused pair -/

/-- Exactly `cmds` are in flight, and the numbers `ns` are reserved for what comes next. -/
structure Reserved (d : Daemon) (cmds : List Command) (ns : List ℕ) (s : EngineBridge) : Prop
    where
  settled : Settled d cmds s
  nodup : ns.Nodup
  fresh : ∀ n ∈ ns, Fresh d n s

theorem nextSeq_spec (cmds : List Command) (ns : List ℕ) :
    ⦃fun s => ⌜When d (Reserved d cmds ns) s⌝⦄ nextSeq
    ⦃post⟨fun n s => ⌜When d (Reserved d cmds (ns ++ [n])) s⌝, fun _ _ => ⌜False⌝⟩⦄ := by
  refine triple_iff.2 ?_
  intro s hs
  refine ⟨?_, fun e t h => (by cases h)⟩
  intro n t h
  cases h
  refine hs.of_fused_eq rfl ?_
  intro hres
  have hsound := hres.settled.sound
  refine ⟨hres.settled.take, ?_, ?_⟩
  · rw [List.nodup_append_comm]
    refine List.nodup_cons.2 ⟨?_, hres.nodup⟩
    exact fun hin => Nat.lt_irrefl _ (hres.fresh _ hin).lt
  · intro m hm
    rcases List.mem_append.1 hm with hm | hm
    · have hf := hres.fresh m hm
      exact { hf with lt := Nat.lt_succ_of_lt hf.lt }
    · rw [List.mem_singleton.1 hm]
      exact hsound.fresh

theorem publish_reserved_spec (cmds : List Command) (hroom : cmds.length < cfg.cmdCount)
    (c : Command) (ns : List ℕ) (p : Prop) :
    ⦃fun s => ⌜When d (fun s => Reserved d cmds (c.seq :: ns) s ∧ p) s⌝⦄ publish d cfg c
    ⦃post⟨fun _ s => ⌜When d (fun s => Reserved d (cmds ++ [c]) ns s ∧ p) s⌝,
      fun _ s => ⌜¬ FusedOk d s⌝⟩⦄ := by
  refine triple_iff.2 ?_
  intro s hs
  have hfused := publish_fused d cfg c s
  have hspec : Reserved d cmds (c.seq :: ns) s →
      ∃ t, publish d cfg c s = .ok () t ∧ Reserved d (cmds ++ [c]) ns t := by
    rintro ⟨hset, hnodup, hfresh⟩
    obtain ⟨hnotin, hnodup⟩ := List.nodup_cons.1 hnodup
    obtain ⟨_, -, -, hfull⟩ | ⟨t, hok, hbehind, hkeep⟩ := publish_spec cfg hset
      (hfresh c.seq List.mem_cons_self)
    · simp at hfull
      omega
    · refine ⟨t, hok, hbehind, hnodup, ?_⟩
      intro n hn
      exact hkeep n (hfresh n (List.mem_cons_of_mem _ hn)) fun h => hnotin (h ▸ hn)
  constructor
  · intro a t h
    refine hs.of_fused_eq (fused_of_ok hfused h) ?_
    rintro ⟨hres, hp⟩
    obtain ⟨u, hu, hres⟩ := hspec hres
    rw [h] at hu
    cases hu
    exact ⟨hres, hp⟩
  · intro e t h
    refine hs.of_fused_eq (Q := fun _ => False) (fused_of_error hfused h) ?_
    rintro ⟨hres, -⟩
    obtain ⟨u, hu, -⟩ := hspec hres
    rw [h] at hu
    cases hu

theorem Reserved.look {ns : List ℕ} (h : Reserved d cmds ns s) :
    Reserved d cmds ns { s with checks := s.checks + 1 } := by
  refine ⟨h.settled.look, h.nodup, ?_⟩
  intro n hn
  have hf := h.fresh n hn
  exact { hf with }

theorem hostCheck_reserved (ns : List ℕ) : ⦃fun s => ⌜When d (Reserved d [] ns) s⌝⦄ hostCheck d
    ⦃post⟨fun _ s => ⌜When d (Reserved d [] ns) s⌝, fun _ s => ⌜Clean d s⌝⟩⦄ := by
  have hlook := look_spec (d := d) (When d (Reserved d [] ns)) fun _ hs hok => (hs hok).look
  have hclean : ∀ s, When d (Reserved d [] ns) s → Clean d s :=
    fun s hs => hs.mono fun h => h.settled.awaiting
  mvcgen [hostCheck, hlook] with grind

theorem reserved_of_idle (hs : Idle d s) : When d (Reserved d [] []) s :=
  hs.mono fun h => ⟨h, List.nodup_nil, by simp⟩

theorem reefRouteFetchFromExport_spec : ⦃fun s => ⌜Idle d s⌝⦄ reefRouteFetchFromExport d cfg
    ⦃post⟨fun p s => ⌜When d (fun s => Settled d [⟨.reefRoute, p.1⟩, ⟨.fetchAndRunMoe, p.2⟩] s ∧
        d.reply p.1 = .done 0) s⌝,
      fun _ s => ⌜Clean d s⌝⟩⦄ := by
  have hroom := cfg.four_le_cmdCount
  have hfail : ∀ (e : BridgeError) s, ¬ FusedOk d s → Clean d s := fun _ _ h hok => absurd hok h
  refine Triple.bind _ _ (triple_weaken (nextSeq_spec [] []) (fun _ => reserved_of_idle)
    (fun _ _ hs => hs) fun _ _ h => h.elim) ?_
  intro route
  refine Triple.bind _ _ (triple_weaken (nextSeq_spec [] [route]) (fun _ hs => hs)
    (fun _ _ hs => hs) fun _ _ h => h.elim) ?_
  intro fetch
  refine Triple.bind _ _ (hostCheck_reserved [route, fetch]) ?_
  intro _
  refine Triple.bind _ _ (triple_weaken (publish_reserved_spec [] (by simp; omega)
    ⟨.reefRoute, route⟩ [fetch] True) (fun _ hs => hs.mono fun h => ⟨h, trivial⟩)
    (fun _ _ hs => hs) hfail) ?_
  intro _
  -- from here on the route command belongs to a recorded pair, so it succeeds
  refine Triple.bind (Q := fun _ => fun s => ⌜When d (fun s =>
    Reserved d [⟨.reefRoute, route⟩] [fetch] s ∧ d.reply route = .done 0) s⌝) _ _ ?_ ?_
  · refine triple_iff.2 ?_
    intro s hs
    refine ⟨?_, fun e t h => (by cases h)⟩
    intro a t h
    cases h
    intro hok
    obtain ⟨hres, -⟩ := hs fun n hn => hok n (List.mem_append_left _ hn)
    refine ⟨?_, hok route (by simp)⟩
    have hsound := hres.settled.sound.congr (t := { s with fused := s.fused ++ [route] }) rfl
      (Nat.le_refl _) rfl rfl rfl rfl rfl rfl
    refine ⟨⟨hsound, hres.settled.inFlight_eq, hres.settled.background,
      hres.settled.foreground⟩, hres.nodup, ?_⟩
    intro n hn
    have hf := hres.fresh n hn
    exact { hf with }
  intro _
  refine Triple.bind _ _ (triple_weaken (publish_reserved_spec [⟨.reefRoute, route⟩]
    (by simp; omega) ⟨.fetchAndRunMoe, fetch⟩ [] (d.reply route = .done 0)) (fun _ hs => hs)
    (fun _ _ hs => hs) hfail) ?_
  intro _
  refine triple_iff.2 ?_
  intro s hs
  refine ⟨?_, fun e t h => (by cases h)⟩
  intro a t h
  cases h
  exact hs.mono fun h => ⟨h.1.settled, h.2⟩

/-- **The fused pair**: when the route command succeeds, both completions are collected. -/
theorem reefMoe_spec :
    ⦃fun s => ⌜Idle d s⌝⦄ reefMoe d cfg ⦃post⟨fun _ s => ⌜Idle d s⌝, fun _ s => ⌜Clean d s⌝⟩⦄ := by
  unfold reefMoe
  by_cases hv2 : cfg.v2 = true
  swap
  · mvcgen [hostCheck_idle, request_spec] with grind [Idle.clean]
  rw [if_pos hv2]
  refine Triple.bind _ _ reefRouteFetchFromExport_spec ?_
  rintro ⟨route, fetch⟩
  -- the wait for the route command does not fail
  refine Triple.bind _ _ (triple_weaken (wait_spec_and ⟨.reefRoute, route⟩
    [⟨.fetchAndRunMoe, fetch⟩] (d.reply route = .done 0)) (fun _ hs => hs.mono fun h =>
    ⟨h.1.awaiting, h.2⟩) (fun _ _ hs => hs) fun _ _ hs hok => absurd (hs hok).2.2 (hs hok).2.1) ?_
  intro out
  refine Triple.bind (Q := fun _ => fun s => ⌜When d (Settled d [⟨.fetchAndRunMoe, fetch⟩]) s⌝)
    _ _ ?_ ?_
  · unfold checkStatus
    refine triple_iff.2 ?_
    intro s hs
    by_cases hstatus : out.status ≠ 0
    · rw [if_pos hstatus]
      refine ⟨fun a t h => (by cases h), ?_⟩
      intro e t h
      cases h
      intro hok
      obtain ⟨-, hout, hreply⟩ := hs hok
      have hans := Daemon.answer_done (c := ⟨.reefRoute, route⟩) hreply
      rw [hout, hans] at hstatus
      exact absurd rfl hstatus
    · rw [if_neg hstatus]
      refine ⟨?_, fun e t h => (by cases h)⟩
      intro a t h
      cases h
      exact hs.mono And.left
  intro _
  refine Triple.bind _ _ (triple_weaken (wait_spec ⟨.fetchAndRunMoe, fetch⟩ [])
    (fun _ hs => hs.mono Settled.awaiting) (fun _ _ hs => hs) fun _ _ hs => Idle.clean hs) ?_
  exact checkStatus_spec

end LayerStorm.Bridge
