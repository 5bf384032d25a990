import LayerStorm.GpuLoader.OffloadRouting

/-!
# Host and devices split the routed experts

After a command was routed, the experts that the host will compute for it are those that are marked
and thus left out of the devices' passes, as long as no step reaches one of the ways in which the
drivers go wrong: an early return that leaves the map of an earlier time, the experts of the
environment, which the host enters in the map after the routing, and the records of the post-pass,
whose fields are in the wrong places.

## Main results

* `offload_splits_routed` — the routed experts are split in every run whose steps meet the condition.
* `post_pass_forces_expert_zero` — the post-pass enters another expert than the one it has picked,
  and overwrites a position outside of the list.
-/

namespace LayerStorm.GpuLoader

open Lib
open Memory (ExpertKey)
open List Option Dispatcher ExpertPrefetchEntry

variable {F : Type} [Field F] [LinearOrder F]

/-! ### The property -/

/-- **The property**: what the host computes for a command is what is marked, and what is marked
was picked; nothing outside of the command is written. -/
structure Split (exp : F → F) (r : Routed F) : Prop where
  keys : r.state.experts.map ExpertRequest.key = r.command.entries.map ExpertPrefetchEntry.key
  /-- The host computes the marked experts. -/
  fold : ∀ er ∈ r.state.experts, er.cpuForced = true ↔ er.key.expertIdx ∈ r.forced
  /-- A marked expert is in no device's pass. -/
  leftOut : ∀ er ∈ r.state.experts, er.cpuForced = true → er.isArrived = false
  picked : ∀ i er, r.state.experts[i]? = some er → er.cpuForced = true →
    ∃ inp, r.picks = some (inp, inp.chooseCpuOffload exp) ∧
      ∃ m ∈ inp.chooseCpuOffload exp, m.entry = i ∧ m ∈ inp.stack m.device
  count : r.state.cpuForcedCount = r.state.experts.countP ExpertRequest.cpuForced
  inside : ∀ i ∈ r.writes, i < r.command.entries.length
  /-- To offload what was picked is not worse than to offload nothing. -/
  wall : ∀ inp chosen, r.picks = some (inp, chosen) →
    inp.layerWall exp chosen ≤ inp.layerWall exp []

/-! ### The condition -/

variable (cfg : LoaderConfig F) (exp : F → F)

/-- The map holds no expert of the command. -/
def NotStale (d : Dispatcher F) (cmd : FetchAndRunMoe) : Prop :=
  ∀ e ∈ cmd.entries, e.expertIdx ∉ d.cpuForcedExperts cmd.layerIdx

/-- The experts that the environment forces were entered in the map, or are none of the command. -/
def ForcedRead (d : Dispatcher F) (cmd : FetchAndRunMoe) : Prop :=
  d.forcedParsed = true ∨ ∀ x ∈ cfg.force, x.1 = cmd.layerIdx → ∀ e ∈ cmd.entries, e.expertIdx ∉ x.2

/-- No set of candidates lowers the wall. -/
def NoGain (inp : OffloadInput F) : Prop :=
  ∀ l ≠ [], l.Nodup → (∀ m ∈ l, m ∈ inp.stack m.device) →
    inp.layerWall exp [] - OffloadInput.kWallEps ≤ inp.layerWall exp l

/-- The post-pass does no harm: no offload pays, or expert 0 is not among the experts of the command
and no candidate's number is a wrong index, or expert 0 is the only candidate. -/
def PostOk (env : LoaderEnv) (K : LoaderConstants F) (cmd : FetchAndRunMoe) : Prop :=
  NoGain exp (postInput cfg env K cmd) ∨ ((∀ e ∈ cmd.entries, e.expertIdx ≠ 0) ∧
      (cfg.act = true → ∀ x ∈ cmd.entries.zipIdx, (postRecord cfg env K x).isSome →
        x.1.expertIdx < cmd.entries.length)) ∨
    ((∀ x ∈ cmd.entries.zipIdx, (postRecord cfg env K x).isSome → x.1.expertIdx = 0) ∧
      ∀ e ∈ cmd.entries, e.expertIdx = 0 → env.resident e.key e.gpuIdx = false)

/-- What a command may do to the map before anything is marked. -/
def DriverOk (d : Dispatcher F) (cmd : FetchAndRunMoe) (env : LoaderEnv) : Prop :=
  if cfg.shadow = false then
    (∃ K, cfg.constants = some K ∧ DeviceSetOk cfg K cmd.entries.length) ∨ NotStale d cmd
  else
    (∃ K, cfg.constants = some K ∧ K.numDevices ≠ 0 ∧
      (ShadowSkipped cfg (cfg.ablated.getD K) cmd.entries.length ∨
        AllPinned cfg env (cfg.ablated.getD K) cmd ∨
        PostOk cfg exp env (cfg.ablated.getD K) cmd)) ∨
    ((∀ K, cfg.constants = some K → K.numDevices = 0) ∧ NotStale d cmd)

/-- **The condition**: a command lists no expert twice, the environment forces none of its experts
later, its layer's experts in the map are renewed or are none of its own, and the post-pass does no
harm. -/
def RouteOk (d : Dispatcher F) : RouteAction → Prop
  | .fetchAndRun cmd env =>
    (cmd.entries.map ExpertPrefetchEntry.expertIdx).Nodup ∧ ForcedRead cfg d cmd ∧
      DriverOk cfg exp d cmd env
  | .parseForced => True

variable {cfg exp} {env : LoaderEnv} {cmd : FetchAndRunMoe} {st : ProgressiveMoeState}
  {d : Dispatcher F} {K : LoaderConstants F}

/-! ### States without marks -/

/-- The state of a command before anything is marked. -/
structure Unmarked (env : LoaderEnv) (cmd : FetchAndRunMoe) (st : ProgressiveMoeState) : Prop where
  keys : st.experts.map ExpertRequest.key = cmd.entries.map ExpertPrefetchEntry.key
  arrived : ∀ (i : ℕ) (er : ExpertRequest) (e : ExpertPrefetchEntry), st.experts[i]? = some er →
    cmd.entries[i]? = some e → er.isArrived = env.resident e.key e.gpuIdx
  unmarked : ∀ er ∈ st.experts, er.cpuForced = false
  count : st.cpuForcedCount = 0

theorem unmarked_buildState : Unmarked env cmd (buildState env cmd) where
  keys := by
    rw [buildState, List.map_map]
    rfl
  arrived i er e her he := by
    rw [buildState, List.getElem?_map, he] at her
    cases her
    rfl
  unmarked er her := by
    obtain ⟨e, -, rfl⟩ := List.mem_map.1 her
    rfl
  count := rfl

omit [Field F] [LinearOrder F] in
theorem Unmarked.reroute (h : Unmarked env cmd st) (pos : List ℤ) :
    Unmarked env cmd (reroute cfg pos st) := by
  unfold GpuLoader.reroute
  split
  · exact h
  refine ⟨?_, fun i er e her he => ?_, fun er her => ?_, h.count⟩
  · rw [← h.keys]
    refine ext_getElem? fun i => ?_
    rw [List.getElem?_map, List.getElem?_mapIdx, Option.map_map, List.getElem?_map]
    refine congrArg (fun f => Option.map f _) (funext fun er => ?_)
    simp only [Function.comp_apply]
    split
    · rfl
    · rfl
  · rw [getElem?_mapIdx, map_eq_some_iff] at her
    obtain ⟨er', her', rfl⟩ := her
    rw [← h.arrived i er' e her' he]
    dsimp only
    split
    · rfl
    · rfl
  · obtain ⟨i, hi, rfl⟩ := mem_mapIdx.1 her
    have hum := h.unmarked _ (getElem_mem hi)
    dsimp only
    split
    · exact hum
    · exact hum

theorem Unmarked.entry (h : Unmarked env cmd st) {i : ℕ} {er : ExpertRequest}
    (her : st.experts[i]? = some er) : ∃ e, cmd.entries[i]? = some e ∧ e.key = er.key := by
  have hkey : (cmd.entries.map key)[i]? = some er.key := by
    rw [← h.keys, getElem?_map, her, map_some]
  rwa [getElem?_map, map_eq_some_iff] at hkey

theorem entry_unique (hnodup : (cmd.entries.map expertIdx).Nodup) {i j : ℕ}
    {e e' : ExpertPrefetchEntry} (hi : cmd.entries[i]? = some e) (hj : cmd.entries[j]? = some e')
    (heq : e.expertIdx = e'.expertIdx) : i = j := by
  have hlt : i < (cmd.entries.map expertIdx).length := by
    rw [length_map]
    exact (List.getElem?_eq_some_iff.1 hi).1
  apply (getElem?_inj hlt hnodup).1
  rw [getElem?_map, getElem?_map, hi, hj, map_some, map_some, heq]

theorem Unmarked.split {forced writes : List ℕ} {picks : Option (OffloadInput F × List (CpuMiss F))}
    (h : Unmarked env cmd st) (hforced : ∀ e ∈ cmd.entries, e.expertIdx ∉ forced)
    (hwrites : ∀ i ∈ writes, i < cmd.entries.length)
    (hwall : ∀ inp chosen, picks = some (inp, chosen) →
      inp.layerWall exp chosen ≤ inp.layerWall exp []) :
    Split exp ⟨cmd, st, forced, writes, picks⟩ := by
  have hno : ∀ er ∈ st.experts, er.cpuForced ≠ true := by
    intro er her
    rw [h.unmarked er her]
    exact Bool.false_ne_true
  refine ⟨h.keys, fun er her => ⟨fun hm => absurd hm (hno er her), fun hm => ?_⟩,
    fun er her hm => absurd hm (hno er her),
    fun i er her hm => absurd hm (hno er (mem_of_getElem? her)), ?_, hwrites, hwall⟩
  · obtain ⟨i, hi⟩ := mem_iff_getElem?.mp her
    obtain ⟨e, he, hkey⟩ := h.entry hi
    have hidx : e.expertIdx = er.key.expertIdx := congrArg ExpertKey.expertIdx hkey
    exact absurd (hidx ▸ hm) (hforced e (mem_of_getElem? he))
  · rw [h.count, eq_comm, countP_eq_zero]
    exact hno

/-! ### What the host finds -/

omit [Field F] [LinearOrder F] in
theorem mem_foldl_forced {e layer : ℕ} : ∀ {force : List (ℕ × List ℕ)} {map : ℕ → List ℕ},
    e ∈ force.foldl (fun map x => Function.update map x.1 (map x.1 ++ x.2)) map layer ↔
      e ∈ map layer ∨ ∃ x ∈ force, x.1 = layer ∧ e ∈ x.2 := by
  intro force
  induction force with
  | nil => simp
  | cons x force ih =>
    intro map
    rw [foldl_cons, ih, exists_mem_cons_iff]
    by_cases hx : x.1 = layer
    · subst hx
      rw [Function.update_self, mem_append, eq_self, true_and]
      tauto
    · rw [Function.update_of_ne (Ne.symm hx), eq_false hx, false_and, false_or]

omit [Field F] [LinearOrder F] in
theorem ForcedRead.mem_hostForced (h : ForcedRead cfg d cmd) {d' : Dispatcher F}
    (hparsed : d'.forcedParsed = d.forcedParsed) {e : ExpertPrefetchEntry} (he : e ∈ cmd.entries) :
    e.expertIdx ∈ d'.hostForced cfg cmd.layerIdx ↔
      e.expertIdx ∈ d'.cpuForcedExperts cmd.layerIdx := by
  unfold hostForced parseForced
  split
  · rfl
  next hno =>
  rw [mem_foldl_forced, or_iff_left]
  rintro ⟨x, hx, hlayer, hmem⟩
  exact (h.resolve_left (hparsed ▸ hno)) x hx hlayer e he hmem

/-- The experts of the command are all that matters of what the host finds. -/
theorem Split.forced {forced forced' writes : List ℕ}
    {picks : Option (OffloadInput F × List (CpuMiss F))}
    (h : Split exp ⟨cmd, st, forced, writes, picks⟩)
    (hmem : ∀ e ∈ cmd.entries, e.expertIdx ∈ forced' ↔ e.expertIdx ∈ forced) :
    Split exp ⟨cmd, st, forced', writes, picks⟩ := by
  refine ⟨h.keys, fun er her => ?_, h.leftOut, h.picked, h.count, h.inside, h.wall⟩
  have hkey : er.key ∈ cmd.entries.map key := h.keys ▸ List.mem_map_of_mem her
  obtain ⟨e, he, hkey⟩ := List.mem_map.1 hkey
  rw [h.fold er her, ← hkey]
  exact (hmem e he).symm

/-! ### Marking the picked misses -/

/-- A record of an expert of the command that is free to be marked. -/
def RecordOf (st : ProgressiveMoeState) (m : CpuMiss F) : Prop :=
  m.i = m.entry ∧ ∃ er, st.experts[m.i]? = some er ∧ er.key.expertIdx = m.eidx ∧
    er.isArrived = false

/-- What marking the first picked misses has come to. -/
structure Marked (st : ProgressiveMoeState) (done : List (CpuMiss F))
    (x : ProgressiveMoeState × List ℕ) : Prop where
  experts : ∀ i : ℕ, x.1.experts[i]? = (st.experts[i]?).map fun er =>
    { er with cpuForced := decide (∃ m ∈ done, m.i = i) }
  forced : ∀ e, e ∈ x.2 ↔ ∃ m ∈ done, m.eidx = e
  count : x.1.cpuForcedCount = x.1.experts.countP ExpertRequest.cpuForced

theorem countP_mark : ∀ {l : List ExpertRequest} {i : ℕ} {er : ExpertRequest}, l[i]? = some er →
    er.cpuForced = false → (l.modify i fun er => { er with cpuForced := true }).countP
      ExpertRequest.cpuForced = l.countP ExpertRequest.cpuForced + 1 := by
  intro l
  induction l with
  | nil =>
    intro i er h
    cases h
  | cons x l ih =>
    intro i er h hf
    cases i with
    | zero =>
      cases h
      rw [modify_zero_cons, countP_cons_of_pos rfl, countP_cons_of_neg]
      rw [hf]
      exact Bool.false_ne_true
    | succ i =>
      rw [modify_succ_cons, countP_cons, countP_cons, ih h hf]
      omega

variable {x : ProgressiveMoeState × List ℕ}

omit [Field F] [LinearOrder F] in
theorem Marked.step {done : List (CpuMiss F)} {mm : CpuMiss F} (h : Marked st done x)
    (hdone : ∀ m ∈ done, RecordOf st m) (hmm : RecordOf st mm) :
    Marked st (done ++ [mm]) (markChosen x mm) := by
  obtain ⟨-, er, her, hidx, -⟩ := hmm
  have hx : x.1.experts[mm.i]? = some { er with cpuForced := decide (∃ m ∈ done, m.i = mm.i) } := by
    rw [h.experts, her, map_some]
  simp only [markChosen, hx]
  split
  · next hforced =>
    -- the expert is marked already, so its record is not the first
    obtain ⟨m, hm, hmi⟩ := of_decide_eq_true hforced
    have hsame : m.eidx = mm.eidx := by
      obtain ⟨-, er', her', hidx', -⟩ := hdone m hm
      rw [hmi, her] at her'
      cases her'
      rw [← hidx', hidx]
    refine ⟨fun i => ?_, fun e => ?_, h.count⟩
    · rw [h.experts]
      refine congrArg (fun f => Option.map f _) (funext fun er => ?_)
      congr 2
      simp only [mem_append, mem_singleton, or_and_right, exists_or, exists_eq_left,
        eq_iff_iff, iff_self_or]
      exact fun hi => ⟨m, hm, hmi.trans hi⟩
    · rw [h.forced]
      simp only [mem_append, mem_singleton, or_and_right, exists_or, exists_eq_left, iff_self_or]
      exact fun he => ⟨m, hm, hsame.trans he⟩
  · next hforced =>
    refine ⟨fun i => ?_, fun e => ?_, ?_⟩
    · simp only [ProgressiveMoeState.mark, List.getElem?_modify, h.experts, Option.map_eq_map,
        Option.map_map]
      refine congrArg (fun f => Option.map f _) (funext fun er => ?_)
      by_cases hi : mm.i = i
      · simp [hi]
      · simp [hi, or_and_right, exists_or]
    · simp only [mem_append, mem_singleton, h.forced, or_and_right, exists_or,
        exists_eq_left, @eq_comm _ e]
    · simp only [ProgressiveMoeState.mark]
      rw [countP_mark hx (Bool.eq_false_of_not_eq_true hforced), h.count]

omit [Field F] [LinearOrder F] in
theorem Marked.foldl : ∀ {chosen done : List (CpuMiss F)} {x : ProgressiveMoeState × List ℕ},
    Marked st done x → (∀ m ∈ done ++ chosen, RecordOf st m) →
      Marked st (done ++ chosen) (chosen.foldl markChosen x) := by
  intro chosen
  induction chosen with
  | nil =>
    intro done x h _
    rwa [append_nil]
  | cons mm chosen ih =>
    intro done x h hrec
    rw [foldl_cons, append_cons]
    refine ih (h.step (fun m hm => hrec m (mem_append_left _ hm))
      (hrec mm (mem_append_right _ mem_cons_self))) fun m hm => hrec m ?_
    rwa [append_cons]

omit [Field F] [LinearOrder F] in
theorem Unmarked.marked (h : Unmarked env cmd st) : Marked (F := F) st [] (st, []) where
  experts i := by
    cases her : st.experts[i]? with
    | none => rfl
    | some er =>
      have hum := h.unmarked er (mem_of_getElem? her)
      rw [map_some, some.injEq, ExpertRequest.mk.injEq]
      simp [hum]
  forced e := by simp
  count := by
    rw [h.count, eq_comm, countP_eq_zero]
    intro er her
    rw [h.unmarked er her]
    exact Bool.false_ne_true

theorem Marked.split {inp : OffloadInput F} [IsStrictOrderedRing F] (hst : inp.Stacked)
    (hm : Marked st (inp.chooseCpuOffload exp) x) (h : Unmarked env cmd st)
    (hrec : ∀ m ∈ inp.chooseCpuOffload exp, RecordOf st m)
    (hnodup : (cmd.entries.map expertIdx).Nodup) :
    Split exp ⟨cmd, x.1, x.2, [], some (inp, inp.chooseCpuOffload exp)⟩ := by
  have hof : ∀ (i : ℕ) (er : ExpertRequest), x.1.experts[i]? = some er →
      ∃ er' : ExpertRequest, st.experts[i]? = some er' ∧
        er = { er' with cpuForced := decide (∃ m ∈ inp.chooseCpuOffload exp, m.i = i) } := by
    intro i er her
    rw [hm.experts, map_eq_some_iff] at her
    obtain ⟨er', her', rfl⟩ := her
    exact ⟨er', her', rfl⟩
  refine ⟨?_, fun er her => ?_, fun er her hforced => ?_, fun i er her hforced => ?_, hm.count,
    fun i hi => absurd hi not_mem_nil, fun inp' chosen hp => ?_⟩
  · rw [← h.keys]
    refine ext_getElem? fun i => ?_
    rw [List.getElem?_map, List.getElem?_map, hm.experts, Option.map_map]
    rfl
  · obtain ⟨i, hi⟩ := mem_iff_getElem?.mp her
    obtain ⟨er', her', rfl⟩ := hof i er hi
    obtain ⟨e, he, hkey⟩ := h.entry her'
    rw [decide_eq_true_eq, hm.forced]
    constructor
    · rintro ⟨m, hmem, rfl⟩
      obtain ⟨-, er'', her'', hidx, -⟩ := hrec m hmem
      rw [her'] at her''
      cases her''
      exact ⟨m, hmem, hidx.symm⟩
    · rintro ⟨m, hmem, hidx⟩
      obtain ⟨-, er'', her'', hidx'', -⟩ := hrec m hmem
      obtain ⟨e'', he'', hkey''⟩ := h.entry her''
      -- the command has one entry for the expert of the record
      refine ⟨m, hmem, entry_unique hnodup he'' he ?_⟩
      have h₁ : e.expertIdx = er'.key.expertIdx := congrArg ExpertKey.expertIdx hkey
      have h₂ : e''.expertIdx = er''.key.expertIdx := congrArg ExpertKey.expertIdx hkey''
      rw [h₁, h₂, hidx'', hidx]
  · obtain ⟨i, hi⟩ := mem_iff_getElem?.mp her
    obtain ⟨er', her', rfl⟩ := hof i er hi
    obtain ⟨m, hmem, rfl⟩ := of_decide_eq_true hforced
    obtain ⟨-, er'', her'', -, harr⟩ := hrec m hmem
    rw [her'] at her''
    cases her''
    exact harr
  · obtain ⟨er', her', rfl⟩ := hof i er her
    obtain ⟨m, hmem, rfl⟩ := of_decide_eq_true hforced
    exact ⟨inp, rfl, m, hmem, (hrec m hmem).1.symm, OffloadInput.mem_of_chosen hst hmem⟩
  · cases hp
    exact OffloadInput.layerWall_chosen_le hst

/-! ### The records of the drivers -/

variable {m : CpuMiss F} {misses : List (CpuMiss F)} {cnt : ℕ → ℤ} {chunkWidth : ℕ}

omit [LinearOrder F] in
theorem mem_stack_offloadInput {j : ℕ} :
    m ∈ (offloadInput cfg K chunkWidth misses cnt).stack j ↔ m ∈ misses ∧ m.device = j := by
  rw [offloadInput, mem_filter, decide_eq_true_eq]

omit [LinearOrder F] in
/-- The records of different entries are different. -/
theorem stacked_offloadInput {α : Type} {l : List α} {f : α × ℕ → Option (CpuMiss F)}
    (hf : ∀ x m, f x = some m → m.entry = x.2) :
    (offloadInput cfg K chunkWidth (l.zipIdx.filterMap f) cnt).Stacked where
  device _ _ hm := (mem_stack_offloadInput.1 hm).2
  nodup j := by
    refine Nodup.filter _ (Pairwise.filterMap f (fun x x' hne m hm m' hm' heq => hne ?_)
      (pairwise_map.1 (nodup_zipIdx_map_snd l)))
    rw [← hf x m hm, heq, hf x' m' hm']

theorem missRecord_eq {w : PlaceSumWeights F} {prev : List ℕ} {on : Bool} {x : ExpertRequest × ℕ}
    (h : missRecord cfg env K w prev on x = some m) :
    m.i = x.2 ∧ m.entry = x.2 ∧ m.eidx = x.1.key.expertIdx ∧ x.1.isArrived = false := by
  unfold missRecord at h
  split at h
  · cases h
  split at h
  · cases h
  next hfree =>
  cases h
  exact ⟨rfl, rfl, rfl, Bool.eq_false_of_not_eq_true fun harr => hfree (.inr (.inr harr))⟩

omit [LinearOrder F] in
theorem postRecord_eq {x : ExpertPrefetchEntry × ℕ} (h : postRecord cfg env K x = some m) :
    m.entry = x.2 ∧ m.i = x.1.expertIdx ∧ m.eidx = 0 := by
  unfold postRecord at h
  split at h
  · cases h
  split at h
  · cases h
  split at h
  · cases h
  · cases h
    exact ⟨rfl, rfl, rfl⟩

theorem stacked_neverLose : (neverLoseInput cfg env K d cmd st).Stacked :=
  stacked_offloadInput fun _ _ h => (missRecord_eq h).2.1

omit [LinearOrder F] in
theorem stacked_post : (postInput cfg env K cmd).Stacked :=
  stacked_offloadInput fun _ _ h => (postRecord_eq h).1

theorem forcedParsed_apply :
    (applyCpuOffloadNeverLose cfg exp env d cmd st).1.forcedParsed = d.forcedParsed := by
  have hadopt : ∀ K, (d.adopt cfg K).forcedParsed = d.forcedParsed := by
    intro K
    unfold adopt
    split
    · rfl
    · rfl
  unfold applyCpuOffloadNeverLose
  split
  · rfl
  dsimp only
  split
  · exact hadopt _
  split
  · exact hadopt _
  · exact hadopt _

variable [IsStrictOrderedRing F]

/-! ### The driver without the shadow solve -/

theorem split_apply (hnodup : (cmd.entries.map expertIdx).Nodup)
    (hok : (∃ K, cfg.constants = some K ∧ DeviceSetOk cfg K cmd.entries.length) ∨ NotStale d cmd) :
    let x := applyCpuOffloadNeverLose cfg exp env d cmd (buildState env cmd)
    Split exp ⟨cmd, x.2.1, x.1.cpuForcedExperts cmd.layerIdx, [], x.2.2⟩ := by
  have hun : Unmarked env cmd (buildState env cmd) := unmarked_buildState
  have hstale : ¬(∃ K, cfg.constants = some K ∧ DeviceSetOk cfg K cmd.entries.length) →
      Split exp ⟨cmd, buildState env cmd, d.cpuForcedExperts cmd.layerIdx, [], none⟩ := by
    intro hno
    exact hun.split (hok.resolve_left hno) (fun i hi => absurd hi not_mem_nil)
      fun inp chosen hp => by cases hp
  unfold applyCpuOffloadNeverLose
  cases hK : cfg.constants with
  | none => exact hstale fun ⟨K, hsome, _⟩ => by rw [hK] at hsome; cases hsome
  | some K =>
    have hadopt : (d.adopt cfg K).cpuForcedExperts = d.cpuForcedExperts := by
      unfold adopt
      split
      · rfl
      · rfl
    dsimp only
    by_cases hset : DeviceSetOk cfg K cmd.entries.length
    · rw [if_neg (not_not.2 hset)]
      split
      · -- the map is renewed, and nothing is picked
        refine hun.split (fun e he => ?_) (fun i hi => absurd hi not_mem_nil)
          fun inp chosen hp => by cases hp
        simp only [Function.update_self]
        exact not_mem_nil
      · dsimp only
        rw [Function.update_self]
        have hrec : ∀ m ∈ OffloadInput.chooseCpuOffload exp (neverLoseInput cfg env K
            (d.adopt cfg K) cmd (buildState env cmd)), RecordOf (buildState env cmd) m := by
          intro m hm
          have hmem := OffloadInput.mem_of_chosen stacked_neverLose hm
          obtain ⟨x, hx, hrecord⟩ := mem_filterMap.1 (mem_stack_offloadInput.1 hmem).1
          obtain ⟨hi, hentry, heidx, harr⟩ := missRecord_eq hrecord
          have hget := mem_zipIdx_iff_getElem?.mp hx
          exact ⟨hi.trans hentry.symm, x.1, hi ▸ hget, heidx.symm, harr⟩
        exact ((hun.marked (F := F)).foldl hrec).split stacked_neverLose hun hrec hnodup
    · rw [if_pos hset]
      rw [hadopt]
      refine hstale ?_
      rintro ⟨K', hK', hset'⟩
      rw [hK] at hK'
      cases hK'
      exact hset hset'

/-! ### The shadow solve -/

omit [IsStrictOrderedRing F] in
theorem record_of_post (hst : (postInput cfg env K cmd).Stacked) [IsStrictOrderedRing F]
    (hm : m ∈ (postInput cfg env K cmd).chooseCpuOffload exp) :
    ∃ x ∈ cmd.entries.zipIdx, postRecord cfg env K x = some m := by
  have hmem := OffloadInput.mem_of_chosen hst hm
  exact mem_filterMap.1 (mem_stack_offloadInput.1 hmem).1

omit [Field F] [LinearOrder F] [IsStrictOrderedRing F] in
theorem Unmarked.markForced_eq {forced : List ℕ} (h : Unmarked env cmd st)
    (hforced : ∀ e ∈ cmd.entries, e.expertIdx ∉ forced) : markForced forced st = st := by
  have hno : ∀ er ∈ st.experts, freeMiss forced er ≠ true := by
    intro er her
    obtain ⟨i, hi⟩ := mem_iff_getElem?.mp her
    obtain ⟨e, he, hkey⟩ := h.entry hi
    have hnot : er.key.expertIdx ∉ forced := hkey ▸ hforced e (mem_of_getElem? he)
    rw [freeMiss, decide_eq_false hnot, Bool.and_false]
    exact Bool.false_ne_true
  obtain ⟨experts, count⟩ := st
  rw [markForced, ProgressiveMoeState.mk.injEq]
  constructor
  · conv_rhs => rw [← map_id experts]
    refine map_congr_left fun er her => ?_
    rw [if_neg (hno er her), id]
  · rw [countP_eq_zero.2 hno, Nat.add_zero]

omit [Field F] [LinearOrder F] [IsStrictOrderedRing F] in
theorem Unmarked.count_markForced (h : Unmarked env cmd st) (forced : List ℕ) :
    (markForced forced st).cpuForcedCount =
      (markForced forced st).experts.countP ExpertRequest.cpuForced := by
  simp only [markForced, h.count, Nat.zero_add, countP_map]
  refine countP_congr fun er her => ?_
  rw [Function.comp_apply]
  split
  · next hfree => simp [hfree]
  · next hfree => simp [hfree, h.unmarked er her]

section

variable (hnodup : (cmd.entries.map ExpertPrefetchEntry.expertIdx).Nodup)
include hnodup

theorem split_zero (hun : Unmarked env cmd st)
    (hzero : ∀ x ∈ cmd.entries.zipIdx, (postRecord cfg env K x).isSome → x.1.expertIdx = 0)
    (hfree : ∀ e ∈ cmd.entries, e.expertIdx = 0 → env.resident e.key e.gpuIdx = false)
    {m₀ : CpuMiss F} (hm₀ : m₀ ∈ (postInput cfg env K cmd).chooseCpuOffload exp)
    {forced writes : List ℕ} (hforced : ∀ e, e ∈ forced ↔ e = 0) (hwrites : ∀ i ∈ writes, i = 0) :
    Split exp ⟨cmd, markForced forced st, forced, writes,
      some (postInput cfg env K cmd, (postInput cfg env K cmd).chooseCpuOffload exp)⟩ := by
  have hst : (postInput cfg env K cmd).Stacked := stacked_post
  obtain ⟨x₀, hx₀, hrec₀⟩ := record_of_post hst hm₀
  obtain ⟨hentry₀, -, -⟩ := postRecord_eq hrec₀
  have hx₀zero : x₀.1.expertIdx = 0 := hzero x₀ hx₀ (by rw [hrec₀]; rfl)
  have hget₀ := mem_zipIdx_iff_getElem?.mp hx₀
  -- the marked experts are those with number 0
  have hof : ∀ (i : ℕ) (er : ExpertRequest), (markForced forced st).experts[i]? = some er →
      (er.cpuForced = true ↔ er.key.expertIdx = 0) ∧ (er.cpuForced = true → er.isArrived = false) ∧
        ∃ e, cmd.entries[i]? = some e ∧ e.expertIdx = er.key.expertIdx := by
    intro i er her
    rw [markForced, getElem?_map, map_eq_some_iff] at her
    obtain ⟨er', her', rfl⟩ := her
    obtain ⟨e, he, hkey⟩ := hun.entry her'
    have hidx : e.expertIdx = er'.key.expertIdx := congrArg ExpertKey.expertIdx hkey
    have hum := hun.unmarked er' (mem_of_getElem? her')
    have harr : er'.key.expertIdx = 0 → er'.isArrived = false := by
      intro h
      rw [hun.arrived i er' e her' he]
      exact hfree e (mem_of_getElem? he) (hidx.trans h)
    by_cases h : er'.key.expertIdx = 0
    · have hhit : freeMiss forced er' = true := by
        simp [freeMiss, hum, harr h, (hforced _).2 h]
      rw [if_pos hhit]
      exact ⟨⟨fun _ => h, fun _ => rfl⟩, fun _ => harr h, e, he, hidx⟩
    · have hmiss : ¬freeMiss forced er' = true := by
        simp [freeMiss, mt (hforced _).1 h]
      rw [if_neg hmiss]
      refine ⟨⟨fun hm => ?_, fun hz => absurd hz h⟩, fun hm => ?_, e, he, hidx⟩
      · rw [hum] at hm
        cases hm
      · rw [hum] at hm
        cases hm
  refine ⟨?_, fun er her => ?_, fun er her hm => ?_, fun i er her hm => ?_,
    hun.count_markForced forced, fun i hi => ?_, fun inp chosen hp => ?_⟩
  · rw [← hun.keys, markForced, List.map_map]
    refine map_congr_left fun er _ => ?_
    rw [Function.comp_apply]
    split
    · rfl
    · rfl
  · obtain ⟨i, hi⟩ := mem_iff_getElem?.mp her
    rw [(hof i er hi).1, hforced]
  · obtain ⟨i, hi⟩ := mem_iff_getElem?.mp her
    exact (hof i er hi).2.1 hm
  · obtain ⟨hiff, -, e, he, hidx⟩ := hof i er her
    have hpos : i = x₀.2 := by
      apply entry_unique hnodup he hget₀
      rw [hidx, hiff.1 hm, hx₀zero]
    exact ⟨_, rfl, m₀, hm₀, hentry₀.trans hpos.symm, OffloadInput.mem_of_chosen hst hm₀⟩
  · rw [hwrites i hi]
    exact length_pos_of_mem (mem_of_getElem? hget₀)
  · cases hp
    exact OffloadInput.layerWall_chosen_le hst

theorem split_post (hun : Unmarked env cmd st) (hok : PostOk cfg exp env K cmd) :
    let chosen := (postInput cfg env K cmd).chooseCpuOffload exp
    Split exp ⟨cmd, markForced (chosen.map CpuMiss.eidx) st, chosen.map CpuMiss.eidx,
      if cfg.act = true then chosen.map CpuMiss.i else [], some (postInput cfg env K cmd, chosen)⟩ := by
  intro chosen
  have hst : (postInput cfg env K cmd).Stacked := stacked_post
  have hwall : ∀ inp l, some (postInput cfg env K cmd, chosen) = some (inp, l) →
      inp.layerWall exp l ≤ inp.layerWall exp [] := by
    intro inp l hp
    cases hp
    exact OffloadInput.layerWall_chosen_le hst
  have hrecord : ∀ m ∈ chosen, ∃ x ∈ cmd.entries.zipIdx, m.i = x.1.expertIdx ∧ m.eidx = 0 ∧
      (postRecord cfg env K x).isSome := by
    intro m hm
    obtain ⟨x, hx, hrec⟩ := record_of_post hst hm
    obtain ⟨-, hi, heidx⟩ := postRecord_eq hrec
    exact ⟨x, hx, hi, heidx, by rw [hrec]; rfl⟩
  have hwrite : ∀ i ∈ (if cfg.act = true then chosen.map CpuMiss.i else []),
      cfg.act = true ∧ ∃ m ∈ chosen, m.i = i := by
    intro i hi
    split at hi
    · next hact => exact ⟨hact, mem_map.1 hi⟩
    · cases hi
  rcases hok with hgain | ⟨hnozero, hindex⟩ | ⟨hzero, hfree⟩
  · -- nothing is picked
    have hnil : chosen = [] := OffloadInput.choose_eq_nil hst hgain
    have hforced : ∀ e ∈ cmd.entries, e.expertIdx ∉ chosen.map CpuMiss.eidx := by
      rw [hnil]
      exact fun e _ => not_mem_nil
    rw [hun.markForced_eq hforced]
    refine hun.split hforced (fun i hi => ?_) hwall
    obtain ⟨-, m, hm, -⟩ := hwrite i hi
    rw [hnil] at hm
    cases hm
  · -- expert 0 is entered in the map, but it is none of the command's
    have hforced : ∀ e ∈ cmd.entries, e.expertIdx ∉ chosen.map CpuMiss.eidx := by
      intro e he hmem
      obtain ⟨m, hm, hidx⟩ := mem_map.1 hmem
      obtain ⟨x, -, -, heidx, -⟩ := hrecord m hm
      exact hnozero e he (hidx ▸ heidx)
    rw [hun.markForced_eq hforced]
    refine hun.split hforced (fun i hi => ?_) hwall
    obtain ⟨hact, m, hm, rfl⟩ := hwrite i hi
    obtain ⟨x, hx, hmi, -, hsome⟩ := hrecord m hm
    rw [hmi]
    exact hindex hact x hx hsome
  · rcases hcase : chosen with _ | ⟨m₀, l⟩
    · rw [hcase] at hwall
      rw [map_nil, hun.markForced_eq fun e _ => not_mem_nil]
      refine hun.split (fun e _ => not_mem_nil) (fun i hi => ?_) hwall
      rw [map_nil, ite_self] at hi
      cases hi
    have hm₀ : m₀ ∈ chosen := hcase ▸ mem_cons_self
    rw [← hcase]
    refine split_zero hnodup hun hzero hfree hm₀ (fun e => ?_) fun i hi => ?_
    · rw [List.mem_map]
      constructor
      · rintro ⟨m, hm, rfl⟩
        obtain ⟨x, -, -, heidx, -⟩ := hrecord m hm
        exact heidx
      · rintro rfl
        obtain ⟨x, -, -, heidx, -⟩ := hrecord m₀ hm₀
        exact ⟨m₀, hm₀, heidx⟩
    · obtain ⟨-, m, hm, rfl⟩ := hwrite i hi
      obtain ⟨x, hx, hmi, -, hsome⟩ := hrecord m hm
      rw [hmi]
      exact hzero x hx hsome

/-! ### Runs -/

theorem split_route (hread : ForcedRead cfg d cmd) (hok : DriverOk cfg exp d cmd env) {r : Routed F}
    (hr : (routeMoeByLoader cfg exp env d cmd).routed = some r) : Split exp r := by
  have hun : Unmarked env cmd (buildState env cmd) := unmarked_buildState
  have hnone : ∀ inp chosen, (none : Option (OffloadInput F × List (CpuMiss F))) =
      some (inp, chosen) → inp.layerWall exp chosen ≤ inp.layerWall exp [] :=
    fun _ _ hp => by cases hp
  have hstale : NotStale d cmd → ∀ e ∈ cmd.entries, e.expertIdx ∉ d.hostForced cfg cmd.layerIdx :=
    fun h e he => mt (hread.mem_hostForced rfl he).1 (h e he)
  unfold DriverOk at hok
  unfold routeMoeByLoader at hr
  split at hok
  · next hshadow =>
    rw [if_pos hshadow] at hr
    cases hr
    exact (split_apply hnodup hok).forced fun e he => hread.mem_hostForced forcedParsed_apply he
  next hshadow =>
  rw [if_neg hshadow] at hr
  cases hK : cfg.constants with
  | none =>
    rw [hK] at hr
    cases hr
    rcases hok with ⟨K, hsome, -⟩ | ⟨-, hfresh⟩
    · rw [hK] at hsome
      cases hsome
    · exact hun.split (hstale hfresh) (fun i hi => absurd hi not_mem_nil) hnone
  | some K =>
    rw [hK] at hr
    dsimp only at hr
    split at hr
    · next hdev =>
      cases hr
      rcases hok with ⟨K', hsome, hne, -⟩ | ⟨-, hfresh⟩
      · rw [hK] at hsome
        cases hsome
        exact absurd hdev hne
      · exact hun.split (hstale hfresh) (fun i hi => absurd hi not_mem_nil) hnone
    next hdev =>
    obtain ⟨K', hsome, -, hpost⟩ := hok.resolve_right fun h => hdev (h.1 K hK)
    rw [hK] at hsome
    cases hsome
    generalize hpos : (if cfg.forceIdentity = true then
      cmd.entries.map fun e => (e.gpuIdx : ℤ) else (shadowSolve cfg exp env K cmd).outPos) = pos
      at hr
    have hun' : Unmarked env cmd
        (if cfg.act = true then reroute cfg pos (buildState env cmd) else buildState env cmd) := by
      split
      · exact hun.reroute pos
      · exact hun
    generalize (if cfg.act = true then reroute cfg pos (buildState env cmd)
      else buildState env cmd) = st at hr hun'
    cases hr
    -- the post-pass renews the entry of the layer, so the parse does not matter
    suffices hsplit : Split exp ⟨cmd, markForced (shadowSolve cfg exp env K cmd).forced st,
        (shadowSolve cfg exp env K cmd).forced, (shadowSolve cfg exp env K cmd).writes,
        (shadowSolve cfg exp env K cmd).picks⟩ from
      hsplit.forced fun e he => by
        rw [hread.mem_hostForced (by rfl) he]
        simp only [Function.update_self]
    have hempty : Split exp ⟨cmd, markForced [] st, [], [], none⟩ := by
      rw [hun'.markForced_eq fun e _ => not_mem_nil]
      exact hun'.split (fun e _ => not_mem_nil) (fun i hi => absurd hi not_mem_nil) hnone
    unfold shadowSolve
    dsimp only
    split
    · exact hempty
    next hskip =>
    split
    · exact hempty
    · next hpin =>
      exact split_post hnodup hun' ((hpost.resolve_left hskip).resolve_left hpin)

end

/-- **The routed experts are split** between host and devices in every run whose steps meet the
condition. -/
theorem offload_splits_routed {w : PlaceSumWeights F} {actions : List RouteAction}
    (hrun : GuardedRun (Dispatcher.step cfg exp) (RouteOk cfg exp) (Dispatcher.boot w) actions d) :
    ∀ r, d.routed = some r → Split exp r := by
  refine hrun.invariant (I := fun d => ∀ r, d.routed = some r → Split exp r) ?_ ?_
  · intro d a d' hd hok hstep
    cases a with
    | fetchAndRun cmd env =>
      cases hstep
      exact fun r hr => split_route hok.1 hok.2.1 hok.2.2 hr
    | parseForced =>
      cases hstep
      intro r hr
      apply hd r
      unfold parseForced at hr
      split at hr
      · exact hr
      · exact hr
  · intro r hr
    cases hr

/-! ### One device and a fast host -/

/-- One device, to which fetching an expert takes long. -/
def slowDevice : LoaderConstants ℚ := ⟨1, 1, none, [⟨0, ⟨1, 0, 1⟩⟩], [0], [[⟨100, 0⟩]]⟩

def fastHost (shadow : Bool) : LoaderConfig ℚ where
  shadow := shadow
  act := shadow
  forceIdentity := false
  pinHits := true
  placeAffinity := false
  quiet := true
  skipB1 := true
  cpuSolverNode := 0
  placeSum := false
  placeWNumaEnv := false
  placeOffloadNode := -1
  placeRarityThresh := 0
  hotnessUseFreq := false
  hotnessFhot := 0
  hotnessFreq _ := 0
  curve := ⟨1, 0, 0, 1, 0, 1⟩
  nBackends := 1
  constants := some slowDevice
  ablated := none
  force := []

/-- A command for expert 5 of layer 3. -/
def fetchFive : FetchAndRunMoe := ⟨3, 16, [⟨3, 5, 0⟩]⟩

/-- Nothing is resident, and the solver has placed the expert on the device. -/
def nothingResident : LoaderEnv := ⟨fun _ => 0, fun _ => -1, fun _ => false, fun _ _ => false, [0]⟩

def noWeights : PlaceSumWeights ℚ := ⟨0, 0, 0, 0, 0, 0, 0, 0⟩

theorem offload_splits_routed_five : ∃ d,
    GuardedRun (Dispatcher.step (fastHost false) fun _ => 0) (RouteOk (fastHost false) fun _ => 0)
      (Dispatcher.boot noWeights) [.fetchAndRun fetchFive nothingResident] d ∧
    (d.routed.any fun r => decide (r.forced = [5] ∧ r.state.cpuForcedCount = 1)) = true ∧
    ∀ r, d.routed = some r → Split (fun _ => 0) r := by
  have hok : RouteOk (fastHost false) (fun _ => 0) (boot noWeights)
      (.fetchAndRun fetchFive nothingResident) :=
    ⟨by decide, .inr (fun x hx => absurd hx not_mem_nil), .inl ⟨slowDevice, rfl, by decide⟩⟩
  have hrun : GuardedRun (step (fastHost false) fun _ => 0)
      (RouteOk (fastHost false) fun _ => 0) (boot noWeights)
      [.fetchAndRun fetchFive nothingResident] (routeMoeByLoader (fastHost false) (fun _ => 0)
        nothingResident (boot noWeights) fetchFive) :=
    GuardedRun.cons hok rfl (GuardedRun.nil _)
  exact ⟨_, hrun, by decide +kernel, offload_splits_routed hrun⟩

/-- **The post-pass forces expert 0 in place of the one that it has picked**, and overwrites the
position with the number of the expert, which is outside of the list. -/
theorem post_pass_forces_expert_zero : ∃ d r,
    Lib.Run (Dispatcher.step (fastHost true) fun _ => 0) (Dispatcher.boot noWeights)
      [.fetchAndRun fetchFive nothingResident] d ∧
    d.routed = some r ∧ r.forced = [0] ∧ r.writes = [5] ∧ ¬Split (fun _ => 0) r := by
  obtain ⟨d, hd, hany⟩ : ∃ d, [RouteAction.fetchAndRun fetchFive nothingResident].foldlM
      (step (fastHost true) fun _ => 0) (boot noWeights) = some d ∧
        (d.routed.any fun r => decide (r.forced = [0] ∧ r.writes = [5] ∧
          r.command.entries.length = 1)) = true :=
    (any_eq_true _ _).1 (by decide +kernel)
  obtain ⟨r, hr, hfacts⟩ := (any_eq_true _ _).1 hany
  obtain ⟨hforced, hwrites, hlen⟩ := of_decide_eq_true hfacts
  refine ⟨d, r, Lib.Run.of_foldlM hd, hr, hforced, hwrites, fun hsplit => ?_⟩
  have hin := hsplit.inside 5 (hwrites ▸ mem_singleton_self 5)
  omega

end LayerStorm.GpuLoader
