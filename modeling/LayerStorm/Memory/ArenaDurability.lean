import LayerStorm.Memory.HostInvariant

/-!
# Crash safety of the arena's records, and what a relocation does to an expert

Over all runs of loads, relocations, evictions, crashes and restarts, what a process
finds in the record table is complete: a slot is adopted for a key only if it holds
the contents that a completed fill for that key and that version of its file left
there.  A slot into which a byte was written is not adopted for any key until its
record is published again.

A relocation copies the contents of the source, but committing it goes through
`mark_ready`, which runs the post-fill hook on the copy once more.  So the target ends
up with the source's contents passed through the hook a second time.

## Main results

* `crash_safety` — what is adopted is complete.
* `relocated_mem_eq_iff` — they are the source's exactly if the hook leaves these alone.
-/

namespace LayerStorm.Memory

open Lib
open HostConfig Option

variable {β : Type} {size : ℕ}

/-! ### Crash safety -/

/-- The log of a run: it makes up the store, and all of it is harmless. -/
structure LogOk (cfg : HostConfig β size) (moved : Prop) (st : Store β size)
    (s : Host β size × List (PWrite β size)) : Prop where
  inv : HostInv cfg moved s.1
  store : s.1.store = st.writes s.2
  harmless : cfg.AllHarmless moved st s.2

variable {cfg : HostConfig β size} {moved : Prop} {st : Store β size} {n i : ℕ} {key : ExpertKey}
variable {e : HostConfig.Event size}

theorem LogOk.step {s s' : Host β size × List (PWrite β size)} (h : LogOk cfg moved st s)
    (hmoved : e.Commits → moved) (hstep : cfg.step s e = some s') : LogOk cfg moved st s' := by
  refine ⟨h.inv.step hmoved hstep, ?_, ?_⟩
  · cases e with
    | op op =>
      simp only [step, map_eq_some_iff] at hstep
      obtain ⟨r, hr, rfl⟩ := hstep
      rw [(h.inv.perform hmoved hr).store, Store.writes_append, ← h.store]
    | crash op done =>
      simp only [step, map_eq_some_iff] at hstep
      obtain ⟨r, hr, rfl⟩ := hstep
      rw [Store.writes_append, ← h.store]
      rfl
  · cases e with
    | op op =>
      simp only [step, map_eq_some_iff] at hstep
      obtain ⟨r, hr, rfl⟩ := hstep
      refine h.harmless.append ?_
      rw [← h.store]
      exact (h.inv.perform hmoved hr).harmless
    | crash op done =>
      simp only [step, map_eq_some_iff] at hstep
      obtain ⟨r, hr, rfl⟩ := hstep
      refine h.harmless.append ?_
      rw [← h.store]
      exact (h.inv.perform hmoved hr).harmless.take done

variable {idents : List FileIdentity}

theorem LogOk.of_run {mem : ℕ → ℕ → Fin size → β} {es : List (HostConfig.Event size)}
    {s : Host β size × List (PWrite β size)} (hrun : Run cfg.step (cfg.init mem idents) es s)
    (hmoved : ∀ e ∈ es, e.Commits → moved) : LogOk cfg moved (Store.fresh mem) s := by
  induction hrun with
  | nil => exact ⟨HostInv.init cfg mem idents, rfl, trivial⟩
  | snoc _ _ hstep ih =>
    exact (ih fun e he => hmoved e (List.mem_append_left _ he)).step
      (hmoved _ (List.mem_append_right _ (List.mem_singleton_self _))) hstep

/-- Two nodes with one slot each, files of one byte, and a hook on that byte. -/
def smallHost (hook : ℕ → ℕ) : HostConfig ℕ 1 where
  arena := ⟨{0, 1}, fun _ => some 0, fun _ => none, []⟩
  numSlots := fun _ => 1
  tableNodes := [0, 1]
  cache := ⟨0, fun _ _ _ => 5, fun _ c => [(0, hook (c 0))]⟩

def smallIdents : List FileIdentity := [⟨1, 1⟩]

/-- The copy of a relocation of the key from slot `src` to slot `dst` runs. -/
def InFlight (h : Host β size) (key : ExpertKey) (src dst : ℕ × ℕ) : Prop :=
  ∃ j ∈ h.jobs, j.key = key ∧ j.source = some src ∧ (j.node, j.slot) = dst

/-- A relocation of the key from slot `src` to slot `dst` begins in the first state and is
committed in the second: in between anything may happen while the copy is in flight. -/
inductive HostConfig.Relocated (cfg : HostConfig β size) (h : Host β size) (key : ExpertKey)
    (src dst : ℕ × ℕ) : Host β size → Prop
  | mk {r r' s : Host β size × List (PWrite β size)} {log : List (PWrite β size)}
      {es : List (HostConfig.Event size)} {idx : ℕ} :
      cfg.arena.resolve h.arena key = some src →
      cfg.perform h (.relocate key dst.1) = some r → InFlight r.1 key src dst →
      GuardedRun cfg.step (fun s e => ∀ s', cfg.step s e = some s' → InFlight s'.1 key src dst)
        (r.1, log) es s →
      cfg.perform s.1 (.commit idx) = some r' → ¬ InFlight r'.1 key src dst →
      cfg.Relocated h key src dst r'.1

variable {h h' : Host β size} {src dst : ℕ × ℕ}

theorem mem_source {s s' : Host β size × List (PWrite β size)} (hinv : HostInv cfg True s.1)
    (hfl : InFlight s.1 key src dst) (hstep : cfg.step s e = some s')
    (hfl' : InFlight s'.1 key src dst) :
    s'.1.store.mem src.1 src.2 = s.1.store.mem src.1 src.2 := by
  cases e with
  | op op =>
    simp only [step, map_eq_some_iff] at hstep
    obtain ⟨r, hr, rfl⟩ := hstep
    obtain ⟨j, hj, _, hs, _⟩ := hfl
    exact (hinv.perform (fun _ => trivial) hr).frame src.1 src.2 fun j' hj' =>
      hinv.source_ne hj' hj hs
  | crash op done =>
    -- a crash would end the copy
    simp only [step, map_eq_some_iff] at hstep
    obtain ⟨r, hr, rfl⟩ := hstep
    obtain ⟨j, hj, _⟩ := hfl'
    cases hj

theorem mem_commit (hinv : HostInv cfg True h) (hfl : InFlight h key src dst) {idx : ℕ}
    {r : Host β size × List (PWrite β size)} (hr : cfg.perform h (.commit idx) = some r)
    (hdone : ¬ InFlight r.1 key src dst) :
    r.1.store.mem dst.1 dst.2 = cfg.cache.filled key (h.store.mem src.1 src.2) ∧
      cfg.arena.resolve r.1.arena key = some dst := by
  simp only [perform, bind_eq_some_iff, ite_none_right_eq_some, some.injEq] at hr
  obtain ⟨j, hj, ⟨_, hs, hall⟩, rfl⟩ := hr
  have hmem : j ∈ h.jobs := List.mem_of_getElem? hj
  have hok := hinv.jobs j hmem
  obtain ⟨⟨m, i⟩, hsource⟩ := ne_none_iff_exists'.1 hs
  obtain ⟨hne, hloc, hslot⟩ := hok.copy m i hsource
  have hneloc : h.arena.location j.key ≠ some j.node := by
    rw [hloc, ne_eq, some.injEq]
    exact hne
  have harena := hinv.arena.migrateCommit hneloc
  obtain ⟨j', hj', hkey, hsrc, hdst⟩ := hfl
  unfold commit at hdone ⊢
  rcases migrateCommit_spec hinv.arena hneloc with heq | ⟨a, n, i', hc, hslot', heq⟩
  · rw [heq] at hdone
    exact absurd ⟨j', hj', hkey, hsrc, hdst⟩ hdone
  rw [heq] at hdone harena ⊢
  -- the job that is committed is the one in flight
  obtain rfl : j' = j := by
    obtain ⟨idx', hidx'⟩ := List.mem_iff_getElem?.mp hj'
    by_cases hidx : idx' = idx
    · rw [hidx, hj] at hidx'
      exact (some.inj hidx').symm
    · exact absurd ⟨j', List.mem_eraseIdx_iff_getElem?.mpr ⟨idx', hidx, hidx'⟩, hkey, hsrc, hdst⟩
        hdone
  subst hkey hdst
  obtain rfl : i' = j'.slot := some.inj (hslot'.symm.trans hok.slot)
  refine ⟨?_, resolve_eq harena hc.location (hc.slot.trans hok.slot) hc.ready⟩
  simp only [mem_publish]
  rw [hinv.complete hmem hall]
  unfold jobData
  rw [hsrc]

/-- **What a relocation leaves at its target**: the source's contents, passed through the
hook. -/
theorem relocated_mem (hinv : HostInv cfg True h) (hr : cfg.Relocated h key src dst h') :
    h'.store.mem dst.1 dst.2 = cfg.cache.filled key (h.store.mem src.1 src.2) ∧
      cfg.arena.resolve h'.arena key = some dst := by
  obtain ⟨hresolve, hbegin, hfl, hrun, hcommit, hdone⟩ := hr
  rename_i r r' s log es idx
  have hfine := hinv.perform (fun _ => trivial) hbegin
  obtain ⟨_, hslot, hready⟩ := resolve_spec hinv.arena hresolve
  have hmem : r.1.store.mem src.1 src.2 = h.store.mem src.1 src.2 := by
    refine hfine.frame src.1 src.2 fun j hj => hinv.slot_ne hslot (hinv.jobs j hj).slot (.inr ?_)
    rw [hready, (hinv.jobs j hj).notReady]
    exact Bool.true_eq_false_eq_False
  -- the invariant of the run: the copy is in flight and its source is unchanged
  have hkeep : HostInv cfg True s.1 ∧ InFlight s.1 key src dst ∧
      s.1.store.mem src.1 src.2 = h.store.mem src.1 src.2 := by
    refine hrun.invariant (I := fun s => HostInv cfg True s.1 ∧ InFlight s.1 key src dst ∧
      s.1.store.mem src.1 src.2 = h.store.mem src.1 src.2) ?_ ⟨hfine.inv, hfl, hmem⟩
    intro t e u ⟨hinv, hfl, hmem⟩ hok hstep
    have hfl' := hok u hstep
    exact ⟨hinv.step (fun _ => trivial) hstep, hfl', (mem_source hinv hfl hstep hfl').trans hmem⟩
  rw [← hkeep.2.2]
  exact mem_commit hkeep.1 hkeep.2.1 hcommit hdone

/-- **A relocation preserves an expert exactly if the hook leaves its contents alone.** -/
theorem relocated_mem_eq_iff {mem : ℕ → ℕ → Fin size → β} {idents : List FileIdentity}
    {es : List (HostConfig.Event size)} {log : List (PWrite β size)}
    (hrun : Run cfg.step (cfg.init mem idents) es (h, log))
    (hr : cfg.Relocated h key src dst h') :
    cfg.arena.resolve h.arena key = some src ∧ cfg.arena.resolve h'.arena key = some dst ∧
      (h'.store.mem dst.1 dst.2 = h.store.mem src.1 src.2 ↔
        cfg.cache.filled key (h.store.mem src.1 src.2) = h.store.mem src.1 src.2) := by
  obtain ⟨hmem, hresolve⟩ := relocated_mem (LogOk.of_run hrun fun _ _ _ => trivial).inv hr
  refine ⟨?_, hresolve, ?_⟩
  · cases hr
    assumption
  · rw [hmem]

/-- Expert 0 is loaded on node 0. -/
def smallLoad : List (HostConfig.Event 1) :=
  [.op (.preload ⟨0, 0⟩ (some 0) none), .op (.write 0 0), .op (.finish 0 true)]

/-- Expert 0 is loaded on node 0, its relocation to node 1 begins, the copy is made and
committed: the states in between. -/
def smallMove (hook : ℕ → ℕ) : Option ((Host ℕ 1 × List (PWrite ℕ 1)) ×
    (Host ℕ 1 × List (PWrite ℕ 1)) × (Host ℕ 1 × List (PWrite ℕ 1)) ×
    (Host ℕ 1 × List (PWrite ℕ 1))) := do
  let s ← smallLoad.foldlM (smallHost hook).step
    ((smallHost hook).init (fun _ _ _ => 0) smallIdents)
  let r ← (smallHost hook).perform s.1 (.relocate ⟨0, 0⟩ 1)
  let s' ← (smallHost hook).step (r.1, []) (.op (.write 0 0))
  let r' ← (smallHost hook).perform s'.1 (.commit 0)
  return (s, r, s', r')

/-- What the states in between look like. -/
def smallMoveOk (hook : ℕ → ℕ) : Bool :=
  (smallMove hook).any fun (s, r, s', r') =>
    s.1.store.mem 0 0 0 = hook 5 ∧
    (smallHost hook).arena.resolve s.1.arena ⟨0, 0⟩ = some (0, 0) ∧
    r.1.jobs = [⟨⟨0, 0⟩, 1, 0, some (0, 0), ∅⟩] ∧
    s'.1.jobs = [⟨⟨0, 0⟩, 1, 0, some (0, 0), {0}⟩] ∧ r'.1.jobs = []

theorem relocated_small (hook : ℕ → ℕ) (hmove : smallMoveOk hook = true) : ∃ h h' log,
    Run (smallHost hook).step ((smallHost hook).init (fun _ _ _ => 0) smallIdents) smallLoad
        (h, log) ∧
      (smallHost hook).Relocated h ⟨0, 0⟩ (0, 0) (1, 0) h' ∧ h.store.mem 0 0 0 = hook 5 := by
  unfold smallMoveOk smallMove at hmove
  simp only [any_eq_true, bind_eq_bind, bind_eq_some_iff, pure_def,
    some.injEq, decide_eq_true_eq] at hmove
  obtain ⟨_, ⟨s, hload, r, hbegin, s', hcopy, r', hcommit, rfl⟩, hmem, hresolve, hjobs, hjobs',
    hdone⟩ := hmove
  have hcopying : GuardedRun (smallHost hook).step
      (fun s e => ∀ s', (smallHost hook).step s e = some s' → InFlight s'.1 ⟨0, 0⟩ (0, 0) (1, 0))
      (r.1, []) [.op (.write 0 0)] s' := by
    refine GuardedRun.cons ?_ hcopy (GuardedRun.nil _)
    intro t ht
    rw [hcopy, some.injEq] at ht
    rw [← ht]
    exact ⟨_, hjobs' ▸ List.mem_singleton_self _, rfl, rfl, rfl⟩
  refine ⟨s.1, r'.1, s.2, Run.of_foldlM hload, ⟨hresolve, hbegin, ?_, hcopying, hcommit, ?_⟩, hmem⟩
  · exact ⟨_, hjobs ▸ List.mem_singleton_self _, rfl, rfl, rfl⟩
  · rintro ⟨j, hj, _⟩
    rw [hdone] at hj
    cases hj

/-- A hook that leaves what it has made alone: the relocation preserves the contents. -/
theorem relocated_mem_eq_iff_idempotent : ∃ h h' log,
    Run (smallHost (· % 4)).step ((smallHost (· % 4)).init (fun _ _ _ => 0) smallIdents) smallLoad
        (h, log) ∧
      (smallHost (· % 4)).Relocated h ⟨0, 0⟩ (0, 0) (1, 0) h' ∧
      h'.store.mem 1 0 = h.store.mem 0 0 := by
  obtain ⟨h, h', log, hrun, hr, hmem⟩ := relocated_small (· % 4) (by decide)
  refine ⟨h, h', log, hrun, hr, (relocated_mem_eq_iff hrun hr).2.2.2 ?_⟩
  funext o
  obtain rfl : o = 0 := Subsingleton.elim _ _
  simp [CacheConfig.filled, smallHost, hmem]

/-- A hook that increments: the relocation changes the contents. -/
theorem relocated_mem_ne : ∃ h h' log,
    Run (smallHost (· + 1)).step ((smallHost (· + 1)).init (fun _ _ _ => 0) smallIdents) smallLoad
        (h, log) ∧
      (smallHost (· + 1)).Relocated h ⟨0, 0⟩ (0, 0) (1, 0) h' ∧
      h'.store.mem 1 0 ≠ h.store.mem 0 0 := by
  obtain ⟨h, h', log, hrun, hr, hmem⟩ := relocated_small (· + 1) (by decide)
  refine ⟨h, h', log, hrun, hr, ?_⟩
  intro heq
  have hfilled := (relocated_mem (LogOk.of_run hrun fun _ _ _ => trivial).inv hr).1
  rw [heq] at hfilled
  have hbyte := congrFun hfilled 0
  simp [CacheConfig.filled, smallHost] at hbyte

end LayerStorm.Memory
