import LayerStorm.Daemon.Coherence

/-!
# No lost waiter in the lifecycle manager

An entry with pending interests should always have something that will wake it up: it
waits for a host load that is under way, its copy is in flight, or it is on a retry
list.  Two things can break this.  `tryStartH2d` leaves a reserved entry alone when
the source is missing or the copy is refused; and the loop over the waiters of an NVMe
load erases from the vector it runs over, so that it can skip a waiter.

## Main results

* `noLostWaiter_of_run` — every run that meets the conditions loses no waiter.
* `skipped_waiter` — without them, an entry with an interest is never woken.
-/

namespace LayerStorm.Daemon

open Lib Memory
open Manager GuardedRun List Nat

variable {K : Type} [DecidableEq K]

/-! ### The property -/

/-- Something will wake the entry up. -/
def HasWakeup (m : Manager K) (k : K) (g : ℕ) : Prop :=
  ((m.hostEntry k).tier = .loadingToRam ∧ ∃ w ∈ (m.hostEntry k).gpuWaiters, w.gpuIdx = g) ∨
    (m.gpuEntry k g).tier = .transferring ∨
    ((m.gpuEntry k g).tier = .reserved ∧
      ((k, g) ∈ m.arenaLoadWaiters k ∨ (k, g) ∈ m.slotPressureWaiters))

/-- **No lost waiter**: every entry with interests has a wake-up source. -/
def NoLostWaiter (m : Manager K) : Prop :=
  ∀ k g, (m.gpuEntry k g).interests ≠ [] → HasWakeup m k g

/-- Between `s` and `s'` an entry has been started, its interests have all been
completed as failed, or, where an answer defers the start, it waits on a retry list. -/
def Served (s s' : Manager.Polling K) (k : K) (g : ℕ) : Prop :=
  (s'.1.gpuEntry k g).tier = .transferring ∨
    ((s'.1.gpuEntry k g).interests = [] ∧ ∀ i ∈ (s.1.gpuEntry k g).interests,
      ⟨i.token, i.cmdSeq, k, g, false, false⟩ ∈ s'.2.lifecycle) ∨
    ((∃ n, (s.1.answers n).hostSource = .pending ∨ (s.1.answers n).hostSource = .backpressure) ∧
      (s'.1.gpuEntry k g).tier = .reserved ∧
      ((k, g) ∈ s'.1.arenaLoadWaiters k ∨ (k, g) ∈ s'.1.slotPressureWaiters))

/-- **Every waiter is served** when an NVMe load completes. -/
def WaitersServed (s : Manager.Polling K) (nc : IoCompletion K) : Prop :=
  ∀ he, s.1.hostEntries nc.key = some he → he.tier = .loadingToRam →
    ∀ w ∈ he.gpuWaiters, Served s (Manager.nvmeDone s nc) nc.key w.gpuIdx

/-- The loop over the waiters of a load meets a failure at its last two waiters only:
for the others the load has succeeded, and the cache has a slot. -/
def FailsAtEndOnly (m : Manager K) (nc : IoCompletion K) : Prop :=
  ∀ he, m.hostEntries nc.key = some he → he.tier = .loadingToRam →
    ∀ w ∈ he.gpuWaiters.dropLast.dropLast, nc.success = true ∧
      ((m.cache.gpus w.gpuIdx).reserve nc.key w.gpuIdx w.zone false).2 ≠ none

/-- So do the loops of several completions, one after the other. -/
def LoopsFailAtEndOnly : List (IoCompletion K) → Manager.Polling K → Prop
  | [], _ => True
  | nc :: nvme, s => FailsAtEndOnly s.1 nc ∧ LoopsFailAtEndOnly nvme (Manager.nvmeDone s nc)

/-- The condition on a call: where it polls, loops fail at their end only. -/
def WaitersVisited (m : Manager K) : Action K → Prop
  | .poll loads nvme _ => LoopsFailAtEndOnly nvme (loads.foldl Manager.arenaLoadDone m.startPoll)
  | _ => True

/-! ### The invariant -/

/-- **The invariant**, where `todo` says which entries, by their tier, are still to be
visited: every other entry with interests has a wake-up source, and entries that are
ready or draining have no interests. -/
structure WakeInv (todo : K → ℕ → GpuTier → Prop) (m : Manager K) : Prop where
  base : Coherent False m
  idle : ∀ k g, (m.gpuEntry k g).tier.isReady ∨ (m.gpuEntry k g).tier = .draining →
    (m.gpuEntry k g).interests = []
  wakes : ∀ k g, (m.gpuEntry k g).interests ≠ [] → HasWakeup m k g ∨ todo k g (m.gpuEntry k g).tier
  serves : ∀ n, (m.answers n).Serves

def Nothing : K → ℕ → GpuTier → Prop := fun _ _ _ => False

variable {m m' : Manager K} {k : K} {g : ℕ} {todo todo' : K → ℕ → GpuTier → Prop}

/-- From `m` to `m'` one entry may have changed in any way; all others can be woken as
before. -/
structure OneEntry (m m' : Manager K) (k : K) (g : ℕ) : Prop where
  others : ∀ k' g', ¬ (k' = k ∧ g' = g) → m'.gpuEntry k' g' = m.gpuEntry k' g'
  host : ∀ k', (m.hostEntry k').tier = .loadingToRam → (m'.hostEntry k').tier = .loadingToRam ∧
    ∀ w ∈ (m.hostEntry k').gpuWaiters, ¬ (k' = k ∧ w.gpuIdx = g) →
      ∃ w' ∈ (m'.hostEntry k').gpuWaiters, w'.gpuIdx = w.gpuIdx
  arena : ∀ k' gk, gk ∈ m.arenaLoadWaiters k' → gk ∈ m'.arenaLoadWaiters k'
  pressure : ∀ gk, gk ∈ m.slotPressureWaiters → gk ∈ m'.slotPressureWaiters
  answers : ∃ n, ∀ i, m'.answers i = m.answers (n + i)

omit [DecidableEq K] in
theorem OneEntry.hasWakeup (h : OneEntry m m' k g) {k' : K} {g' : ℕ} (hne : ¬ (k' = k ∧ g' = g))
    (hw : HasWakeup m k' g') : HasWakeup m' k' g' := by
  unfold HasWakeup
  rw [h.others k' g' hne]
  rcases hw with ⟨hload, w, hw, hg⟩ | htrans | ⟨hres, hpark⟩
  · obtain ⟨hload', hwaiters⟩ := h.host k' hload
    have hnew : ¬ (k' = k ∧ w.gpuIdx = g) := by
      rw [hg]
      exact hne
    obtain ⟨w', hw', heq⟩ := hwaiters w hw hnew
    exact .inl ⟨hload', w', hw', heq.trans hg⟩
  · exact .inr (.inl htrans)
  · refine .inr (.inr ⟨hres, ?_⟩)
    rcases hpark with hpark | hpark
    · exact .inl (h.arena k' _ hpark)
    · exact .inr (h.pressure _ hpark)

theorem WakeInv.change (h : WakeInv todo m) (hone : OneEntry m m' k g) (hbase : Coherent False m')
    (hidle : (m'.gpuEntry k g).tier.isReady ∨ (m'.gpuEntry k g).tier = .draining →
      (m'.gpuEntry k g).interests = []) (hself : (m'.gpuEntry k g).interests ≠ [] →
      HasWakeup m' k g ∨ todo' k g (m'.gpuEntry k g).tier)
    (htodo : ∀ k' g' t, ¬ (k' = k ∧ g' = g) → todo k' g' t → todo' k' g' t) :
    WakeInv todo' m' := by
  refine ⟨hbase, ?_, ?_, ?_⟩
  · intro k' g'
    by_cases hkg : k' = k ∧ g' = g
    · obtain ⟨rfl, rfl⟩ := hkg
      exact hidle
    · rw [hone.others k' g' hkg]
      exact h.idle k' g'
  · intro k' g'
    by_cases hkg : k' = k ∧ g' = g
    · obtain ⟨rfl, rfl⟩ := hkg
      exact hself
    intro hint
    rw [hone.others k' g' hkg] at hint ⊢
    rcases h.wakes k' g' hint with hw | ht
    · exact .inl (hone.hasWakeup hkg hw)
    · exact .inr (htodo k' g' _ hkg ht)
  · intro n
    obtain ⟨d, hd⟩ := hone.answers
    rw [hd]
    exact h.serves (d + n)

theorem WakeInv.weaken (h : WakeInv todo m)
    (htodo : ∀ k g, (m.gpuEntry k g).interests ≠ [] → todo k g (m.gpuEntry k g).tier →
      HasWakeup m k g ∨ todo' k g (m.gpuEntry k g).tier) : WakeInv todo' m := by
  refine { h with wakes := ?_ }
  intro k g hint
  rcases h.wakes k g hint with hw | ht
  · exact .inl hw
  · exact htodo k g hint ht

/-! ### Moves -/

omit [DecidableEq K] in
theorem gpuEntry_congr (h : m'.gpuEntries k g = m.gpuEntries k g) :
    m'.gpuEntry k g = m.gpuEntry k g := by
  unfold gpuEntry
  rw [h]

omit [DecidableEq K] in
theorem Driven.oneEntry (h : Driven m m' k g) : OneEntry m m' k g where
  others := fun k' g' hne => gpuEntry_congr (h.others k' g' hne)
  host := by
    intro k' hload
    have hsame : m'.hostEntry k' = m.hostEntry k' := by
      unfold hostEntry
      rw [h.hostEntries]
    rw [hsame]
    exact ⟨hload, fun w hw _ => ⟨w, hw, rfl⟩⟩
  arena := h.arena
  pressure := h.pressure
  answers := ⟨1, fun i => by rw [h.answers, add_comm]⟩

theorem Reverted.oneEntry (h : Reverted m m' k g) : OneEntry m m' k g where
  others := fun k' g' hne => gpuEntry_congr (h.others k' g' hne)
  host := by
    intro k' hload
    refine ⟨by rw [h.hostTier, hload], ?_⟩
    intro w hw hne
    rw [h.waiters]
    refine ⟨w, ?_, rfl⟩
    split
    · rename_i hk
      refine mem_filter.2 ⟨hw, ?_⟩
      simp only [decide_not, Bool.not_eq_true', decide_eq_false_iff_not]
      exact fun heq => hne ⟨hk, heq⟩
    · exact hw
  arena := by
    intro k' gk hgk
    rw [h.arena]
    exact hgk
  pressure := by
    intro gk hgk
    rw [h.pressure]
    exact hgk
  answers := ⟨0, fun i => by rw [h.answers, zero_add]⟩

theorem OneEntry.setGpuEntry (m : Manager K) (k : K) (g : ℕ) (ge : GpuEntry) :
    OneEntry m (m.setGpuEntry k g ge) k g where
  others := by
    intro k' g' hne
    rw [gpuEntry_setGpuEntry, if_neg hne]
  host := fun _ hload => ⟨hload, fun w hw _ => ⟨w, hw, rfl⟩⟩
  arena := fun _ _ h => h
  pressure := fun _ h => h
  answers := ⟨0, fun i => by rw [zero_add]; rfl⟩

omit [DecidableEq K] in
theorem OneEntry.trans {m'' : Manager K} (h : OneEntry m m' k g) (h' : OneEntry m' m'' k g) :
    OneEntry m m'' k g where
  others := fun k' g' hne => (h'.others k' g' hne).trans (h.others k' g' hne)
  host := by
    intro k' hload
    obtain ⟨hload', hwaiters⟩ := h.host k' hload
    obtain ⟨hload'', hwaiters'⟩ := h'.host k' hload'
    refine ⟨hload'', ?_⟩
    intro w hw hne
    obtain ⟨w', hw', heq⟩ := hwaiters w hw hne
    obtain ⟨w'', hw'', heq'⟩ := hwaiters' w' hw' (by rw [heq]; exact hne)
    exact ⟨w'', hw'', heq'.trans heq⟩
  arena := fun k' gk hgk => h'.arena k' gk (h.arena k' gk hgk)
  pressure := fun gk hgk => h'.pressure gk (h.pressure gk hgk)
  answers := by
    obtain ⟨n, hn⟩ := h.answers
    obtain ⟨n', hn'⟩ := h'.answers
    exact ⟨n + n', fun i => by rw [hn', hn, add_assoc]⟩

/-- **Starting the copy of a reserved entry** gives it a wake-up source. -/
theorem WakeInv.tryStartH2d (h : WakeInv todo m) (htier : (m.gpuEntry k g).tier = .reserved)
    (htodo : ∀ k' g' t, ¬ (k' = k ∧ g' = g) → todo k' g' t → todo' k' g' t) :
    WakeInv todo' (m.tryStartH2d k g) := by
  have hne : (m.gpuEntry k g).tier ≠ .absent := by
    rw [htier]
    exact GpuTier.noConfusion
  have hserves := tryStartH2d_serves (h.base.backed k g hne) (h.serves 0)
  refine h.change (driven_tryStartH2d m k g).oneEntry (h.base.tryStartH2d hne) ?_ ?_ htodo
  · intro hready
    rcases hserves with heq | ⟨heq, _⟩
    · rw [heq] at hready
      rcases hready with (hr | hr | hr) | hr <;> cases hr
    · rw [heq, htier] at hready
      rcases hready with (hr | hr | hr) | hr <;> cases hr
  · intro _
    left
    rcases hserves with heq | ⟨heq, hpark⟩
    · exact .inr (.inl heq)
    refine .inr (.inr ⟨by rw [heq, htier], ?_⟩)
    rcases hpark with ⟨_, hpark⟩ | ⟨_, hpark⟩
    · exact .inl hpark
    · exact .inr hpark

theorem OneEntry.cleared (m : Manager K) (k : K) (g : ℕ) : OneEntry m (m.cleared k g) k g :=
  { OneEntry.setGpuEntry m k g { m.gpuEntry k g with interests := [] } with }

theorem oneEntry_completeFailed (m : Manager K) (k : K) (g : ℕ) :
    OneEntry m (m.completeInterests k g false).1 k g := by
  rw [completeInterests_eq]
  exact (OneEntry.cleared m k g).trans (reverted_revertGpuEntry (m.cleared k g) k g).oneEntry

theorem gpuEntry_completeFailed (m : Manager K) (k : K) (g : ℕ) :
    ((m.completeInterests k g false).1.gpuEntry k g).tier = .absent ∧
      ((m.completeInterests k g false).1.gpuEntry k g).interests = [] := by
  rw [completeInterests_eq]
  have hr := reverted_revertGpuEntry (m.cleared k g) k g
  refine ⟨hr.tier, hr.interests.trans ?_⟩
  rw [cleared_gpuEntry, if_pos ⟨rfl, rfl⟩]

theorem WakeInv.completeFailed (h : WakeInv todo m) (k : K) (g : ℕ)
    (htodo : ∀ k' g' t, ¬ (k' = k ∧ g' = g) → todo k' g' t → todo' k' g' t) :
    WakeInv todo' (m.completeInterests k g false).1 := by
  obtain ⟨_, hint⟩ := gpuEntry_completeFailed m k g
  refine h.change (oneEntry_completeFailed m k g) (h.base.completeFailed fun hf => hf.elim)
    (fun _ => hint) ?_ htodo
  exact fun hne => absurd hint hne

theorem OneEntry.takeSlot (m : Manager K) (k : K) (g : ℕ) (zone : CacheZone) :
    OneEntry m (m.takeSlot k g zone) k g :=
  { OneEntry.setGpuEntry m k g { m.gpuEntry k g with tier := .reserved } with }

theorem WakeInv.reserveAndStart (h : WakeInv todo m) (hwarm : (m.hostEntry k).tier = .warm)
    (zone : CacheZone) (htodo : ∀ k' g' t, ¬ (k' = k ∧ g' = g) → todo k' g' t → todo' k' g' t) :
    WakeInv todo' (m.reserveAndStart k g zone).1 := by
  unfold Manager.reserveAndStart
  split
  · exact h.completeFailed k g htodo
  rename_i addr hr
  have hentry : (m.takeSlot k g zone).gpuEntry k g = { m.gpuEntry k g with tier := .reserved } := by
    rw [Manager.takeSlot_gpuEntry, if_pos ⟨rfl, rfl⟩]
  have htier : ((m.takeSlot k g zone).gpuEntry k g).tier = .reserved := by rw [hentry]
  -- between taking the slot and starting the copy, the entry has no wake-up source
  have htaken : WakeInv (fun k' g' t => todo k' g' t ∨ (k' = k ∧ g' = g))
      (m.takeSlot k g zone) := by
    refine h.change (OneEntry.takeSlot m k g zone) (h.base.takeSlot hwarm hr) ?_ ?_ ?_
    · rw [htier]
      rintro ((hr | hr | hr) | hr) <;> cases hr
    · exact fun _ => .inr (.inr ⟨rfl, rfl⟩)
    · exact fun k' g' t _ ht => .inl ht
  refine htaken.tryStartH2d htier ?_
  rintro k' g' t hne (ht | hkg)
  · exact htodo k' g' t hne ht
  · exact absurd hkg hne

/-! ### Requests -/

theorem WakeInv.quiet (h : WakeInv todo m) (hbase : Coherent False m')
    (hentries : ∀ k g, m'.gpuEntry k g = m.gpuEntry k g)
    (hhost : ∀ k, m'.hostEntry k = m.hostEntry k)
    (harena : m'.arenaLoadWaiters = m.arenaLoadWaiters)
    (hpressure : m'.slotPressureWaiters = m.slotPressureWaiters)
    (hanswers : ∃ n, ∀ i, m'.answers i = m.answers (n + i)) : WakeInv todo m' := by
  refine ⟨hbase, ?_, ?_, ?_⟩
  · intro k g
    rw [hentries]
    exact h.idle k g
  · intro k g
    unfold HasWakeup
    rw [hentries, hhost, harena, hpressure]
    exact h.wakes k g
  · intro n
    obtain ⟨d, hd⟩ := hanswers
    rw [hd]
    exact h.serves (d + n)

theorem oneEntry_register (m : Manager K) (k : K) (g cmdSeq : ℕ) :
    OneEntry m (m.register k g cmdSeq) k g := by
  have hothers : ∀ k' g', ¬ (k' = k ∧ g' = g) →
      (m.register k g cmdSeq).gpuEntry k' g' = m.gpuEntry k' g' :=
    fun k' g' _ => gpuEntry_register m k g cmdSeq k' g'
  refine ⟨hothers, ?_, ?_, ?_, ?_⟩
  · intro k' hload
    rw [hostEntry_register_of_loading hload]
    exact ⟨hload, fun w hw _ => ⟨w, hw, rfl⟩⟩
  · intro k' gk hgk
    unfold register initHostTier
    simp only
    split <;> exact hgk
  · intro gk hgk
    unfold register initHostTier
    simp only
    split <;> exact hgk
  · unfold register initHostTier
    simp only
    split
    · exact ⟨1, fun i => by rw [add_comm]; rfl⟩
    · exact ⟨0, fun i => by rw [zero_add]; rfl⟩

theorem WakeInv.register (h : WakeInv Nothing m) (k : K) (g cmdSeq : ℕ) :
    WakeInv Nothing (m.register k g cmdSeq) := by
  have hone := oneEntry_register m k g cmdSeq
  refine h.change hone (h.base.register k g cmdSeq) ?_ ?_ (fun _ _ _ _ hf => hf)
  · rw [gpuEntry_register]
    exact h.idle k g
  · intro hint
    rw [gpuEntry_register] at hint
    rcases h.wakes k g hint with (⟨hload, hw⟩ | hw) | hf
    · refine .inl (.inl ?_)
      rw [hostEntry_register_of_loading hload]
      exact ⟨hload, hw⟩
    · refine .inl (.inr ?_)
      rw [gpuEntry_register]
      rcases hw with hw | ⟨htier, hw | hw⟩
      · exact .inl hw
      · exact .inr ⟨htier, .inl (hone.arena k _ hw)⟩
      · exact .inr ⟨htier, .inr (hone.pressure _ hw)⟩
    · exact hf.elim

/-- Only the entry of a new request is to be visited. -/
def Just (k : K) (g : ℕ) : K → ℕ → GpuTier → Prop := fun k' g' _ => k' = k ∧ g' = g

theorem WakeInv.join (h : WakeInv Nothing m) {cmdSeq : ℕ} {i : Interest}
    (htier : ¬ ((m.gpuEntry k g).tier.isReady ∨ (m.gpuEntry k g).tier = .draining)) :
    WakeInv (Just k g) ((m.register k g cmdSeq).addInterest k g i) := by
  have hentry : (((m.register k g cmdSeq).addInterest k g i).gpuEntry k g).tier =
      (m.gpuEntry k g).tier := by
    unfold addInterest
    rw [gpuEntry_setGpuEntry, if_pos ⟨rfl, rfl⟩, gpuEntry_register]
  refine h.change ((oneEntry_register m k g cmdSeq).trans (OneEntry.setGpuEntry _ k g _))
    ((h.base.register k g cmdSeq).setInterests k g _) ?_ ?_ ?_
  · intro hready
    rw [hentry] at hready
    exact absurd hready htier
  · exact fun _ => .inr ⟨rfl, rfl⟩
  · exact fun _ _ _ _ hf => hf.elim

theorem WakeInv.queue (h : WakeInv todo m) (out : List (LifecycleCompletion K)) :
    WakeInv todo (m.queue out) :=
  h.quiet (h.base.queue out) (fun _ _ => rfl) (fun _ => rfl) rfl rfl
    ⟨0, fun i => by rw [zero_add]; rfl⟩

theorem WakeInv.addWaiter (h : WakeInv (Just k g) m) (hload : (m.hostEntry k).tier = .loadingToRam)
    (zone : CacheZone) :
    WakeInv Nothing (m.addWaiter k g zone) := by
  have hhost : ∀ k', (m.addWaiter k g zone).hostEntry k' = if k' = k then
      { m.hostEntry k with gpuWaiters := (m.hostEntry k).gpuWaiters ++ [⟨g, zone⟩] }
      else m.hostEntry k' := fun k' => hostEntry_setHostEntry _ _ _ _
  have hone : OneEntry m (m.addWaiter k g zone) k g := by
    refine ⟨fun _ _ _ => rfl, ?_, fun _ _ hgk => hgk, fun _ hgk => hgk,
      ⟨0, fun i => by rw [zero_add]; rfl⟩⟩
    intro k' hload'
    rw [hhost]
    by_cases hk : k' = k
    · subst hk
      rw [if_pos rfl]
      exact ⟨hload', fun w hw _ => ⟨w, mem_append_left _ hw, rfl⟩⟩
    · rw [if_neg hk]
      exact ⟨hload', fun w hw _ => ⟨w, hw, rfl⟩⟩
  refine h.change hone (h.base.addWaiter k g zone) (h.idle k g) ?_ ?_
  · intro _
    refine .inl (.inl ?_)
    rw [hhost, if_pos rfl]
    exact ⟨hload, ⟨g, zone⟩, by simp, rfl⟩
  · exact fun k' g' _ hne hjust => absurd hjust hne

theorem WakeInv.setHostEntry (h : WakeInv todo m) (he : HostEntry)
    (hold : (m.hostEntry k).tier = .cold) (hbase : Coherent False (m.setHostEntry k he)) :
    WakeInv todo (m.setHostEntry k he) := by
  refine ⟨hbase, h.idle, ?_, h.serves⟩
  intro k' g' hint
  rcases h.wakes k' g' hint with (⟨hload, hw⟩ | hw) | ht
  · refine .inl (.inl ?_)
    rw [hostEntry_setHostEntry, if_neg]
    · exact ⟨hload, hw⟩
    · rintro rfl
      exact absurd (hold.symm.trans hload) HostTier.noConfusion
  · exact .inl (.inr hw)
  · exact .inr ht

theorem WakeInv.ask (h : WakeInv todo m) : WakeInv todo m.ask :=
  h.quiet { h.base with } (fun _ _ => rfl)
    (fun _ => rfl) rfl rfl ⟨1, fun i => by rw [add_comm]; rfl⟩

theorem WakeInv.startChain (h : WakeInv (Just k g) m) (zone : CacheZone) :
    WakeInv Nothing (m.startChain k g zone) := by
  have hdrop : ∀ k' g' (t : GpuTier), ¬ (k' = k ∧ g' = g) → Just k g k' g' t →
      Nothing k' g' t := fun k' g' _ hne hjust => absurd hjust hne
  unfold Manager.startChain
  cases hhost : (m.hostEntry k).tier with
  | warm => exact (h.reserveAndStart hhost zone hdrop).queue _
  | loadingToRam => exact h.addWaiter hhost zone
  | cold =>
    have hcold : (m.ask.hostEntry k).tier = .cold := hhost
    have hnot : (m.ask.hostEntry k).tier ≠ .warm := by
      rw [hcold]
      exact HostTier.noConfusion
    simp only
    split
    · refine WakeInv.queue ?_ _
      refine WakeInv.reserveAndStart
        (h.ask.setHostEntry _ hcold (h.ask.base.setHostEntry (.inl rfl))) ?_ zone hdrop
      rw [Manager.hostEntry_setHostEntry, if_pos rfl]
    · refine WakeInv.addWaiter
        (h.ask.setHostEntry _ hcold (h.ask.base.setHostEntry (.inr hnot))) ?_ zone
      rw [Manager.hostEntry_setHostEntry, if_pos rfl]
    · exact (h.ask.completeFailed k g hdrop).queue _

theorem WakeInv.ensureResident (h : WakeInv Nothing m) (k : K) (g : ℕ) (zone : CacheZone)
    (cmdSeq : ℕ) : WakeInv Nothing (m.ensureResident k g zone cmdSeq) := by
  have hbase := h.base.register k g cmdSeq
  have hreg := h.register k g cmdSeq
  have hready : (m.gpuEntry k g).tier ≠ .absent →
      k ∈ ((m.register k g cmdSeq).cache.gpus g).residents := by
    intro hne
    refine hbase.backed k g ?_
    rw [gpuEntry_register]
    exact hne
  unfold Manager.ensureResident
  simp only [gpuEntry_register]
  cases ht : (m.gpuEntry k g).tier with
  | hot | partial1 | partial12 =>
    simp only [hready (by simp [ht])]
    exact hreg.queue _
  | draining => exact hreg.queue _
  | transferring =>
    have hjoin : WakeInv (Just k g)
        ((m.register k g cmdSeq).addInterest k g ⟨m.nextToken, cmdSeq, zone⟩) :=
      h.join (by simp [ht, GpuTier.isReady])
    refine hjoin.weaken ?_
    rintro k' g' _ ⟨rfl, rfl⟩
    refine .inl (.inr (.inl ?_))
    unfold Manager.addInterest
    rw [Manager.gpuEntry_setGpuEntry, if_pos ⟨rfl, rfl⟩, gpuEntry_register]
    exact ht
  | reserved =>
    have hjoin : WakeInv (Just k g)
        ((m.register k g cmdSeq).addInterest k g ⟨m.nextToken, cmdSeq, zone⟩) :=
      h.join (by simp [ht, GpuTier.isReady])
    have htier : (((m.register k g cmdSeq).addInterest k g
        ⟨m.nextToken, cmdSeq, zone⟩).gpuEntry k g).tier = .reserved := by
      unfold Manager.addInterest
      rw [Manager.gpuEntry_setGpuEntry, if_pos ⟨rfl, rfl⟩, gpuEntry_register]
      exact ht
    -- a reserved entry has its data on the host
    have hwarm : (((m.register k g cmdSeq).addInterest k g
        ⟨m.nextToken, cmdSeq, zone⟩).hostEntry k).tier = .warm := by
      by_contra hcold
      exact absurd (htier.symm.trans (hjoin.base.cold k g hcold)) GpuTier.noConfusion
    simp only [hwarm]
    exact hjoin.tryStartH2d htier fun k' g' _ hne hjust => absurd hjust hne
  | absent =>
    have hjoin : WakeInv (Just k g)
        ((m.register k g cmdSeq).addInterest k g ⟨m.nextToken, cmdSeq, zone⟩) :=
      h.join (by simp [ht, GpuTier.isReady])
    exact hjoin.startChain zone

/-! ### Evictions and cancellations -/

theorem WakeInv.forget (h : WakeInv Nothing m) (hone : OneEntry m m' k g)
    (hbase : Coherent False m') (hint : (m'.gpuEntry k g).interests = []) :
    WakeInv Nothing m' :=
  h.change hone hbase (fun _ => hint) (fun hne => absurd hint hne) fun _ _ _ _ hf => hf

theorem WakeInv.requestEvict (h : WakeInv Nothing m) (k : K) (g : ℕ) :
    WakeInv Nothing (m.requestEvict k g).1 := by
  have hbase := h.base.requestEvict k g
  have hslot : Coherent False (m.evictSlot k g) → WakeInv Nothing (m.evictSlot k g) :=
    fun hb => h.quiet hb (fun _ _ => rfl) (fun _ => rfl) rfl rfl ⟨0, fun i => by rw [zero_add]; rfl⟩
  have hone : ∀ ge, OneEntry m ((m.evictSlot k g).setGpuEntry k g ge) k g := by
    intro ge
    have := OneEntry.setGpuEntry (m.evictSlot k g) k g ge
    exact { this with }
  unfold Manager.requestEvict at hbase ⊢
  cases hge : m.gpuEntries k g with
  | none =>
    rw [hge] at hbase
    exact hslot hbase
  | some ge =>
    rw [hge] at hbase
    simp only at hbase ⊢
    split_ifs at hbase ⊢ with hint hbusy hok
    · exact h
    · exact h
    · refine h.forget (hone _) hbase ?_
      rw [Manager.gpuEntry_setGpuEntry, if_pos ⟨rfl, rfl⟩]
      exact not_not.1 hint
    · exact hslot hbase

theorem WakeInv.makeRoom (g : ℕ) (victims : List K) :
    ∀ {m : Manager K}, WakeInv Nothing m → WakeInv Nothing (m.makeRoom g victims).1 := by
  induction victims with
  | nil => exact fun h => h
  | cons victim victims ih =>
    intro m h
    unfold Manager.makeRoom
    simp only
    split
    · exact h.requestEvict victim g
    · exact ih (h.requestEvict victim g)

theorem WakeInv.ensureResidents (g cmdSeq : ℕ) (reqs : List (K × CacheZone)) :
    ∀ {m : Manager K} (victims : List K), WakeInv Nothing m →
      WakeInv Nothing (m.ensureResidents g cmdSeq reqs victims).1 := by
  induction reqs with
  | nil => exact fun _ h => h
  | cons req reqs ih =>
    intro m victims h
    refine ih _ (WakeInv.ensureResident ?_ _ _ _ _)
    split
    · exact WakeInv.makeRoom g victims h
    · exact h

theorem WakeInv.requestDrain (h : WakeInv Nothing m) (k : K) (g cmdSeq : ℕ) :
    WakeInv Nothing (m.requestDrain k g cmdSeq).1 := by
  have hbase := h.base.requestDrain k g cmdSeq
  unfold Manager.requestDrain at hbase ⊢
  cases hge : m.gpuEntries k g with
  | none => exact h
  | some ge =>
    rw [hge] at hbase
    simp only at hbase ⊢
    split_ifs at hbase ⊢ with hcond
    · cases hd : (m.answers 0).enqueueD2h with
      | none => exact h.ask
      | some token =>
        rw [hd] at hbase
        refine h.ask.forget (OneEntry.setGpuEntry _ k g _) hbase ?_
        rw [Manager.gpuEntry_setGpuEntry, if_pos ⟨rfl, rfl⟩]
        exact hcond.2.1
    · exact h

theorem WakeInv.zoneChange (h : WakeInv Nothing m) (k : K) (g : ℕ) :
    WakeInv Nothing (m.promote k g).1 ∧ WakeInv Nothing (m.demote k g).1 := by
  have hcache : ∀ c : ExpertCache K, Coherent False { m with cache := c } →
      WakeInv Nothing { m with cache := c } :=
    fun c hb => h.quiet hb (fun _ _ => rfl) (fun _ => rfl) rfl rfl ⟨0, fun i => by rw [zero_add]⟩
  constructor
  · have hbase := h.base.promote k g
    unfold promote at hbase ⊢
    cases hge : m.gpuEntries k g with
    | none =>
      rw [hge] at hbase
      exact hcache _ hbase
    | some ge =>
      rw [hge] at hbase
      simp only at hbase ⊢
      split_ifs at hbase ⊢
      · exact h
      · exact hcache _ hbase
  · have hbase := h.base.demote k g
    unfold demote at hbase ⊢
    cases hge : m.gpuEntries k g with
    | none =>
      rw [hge] at hbase
      exact hcache _ hbase
    | some ge =>
      rw [hge] at hbase
      simp only at hbase ⊢
      split_ifs at hbase ⊢
      · exact h
      · exact hcache _ hbase

theorem WakeInv.cancel (h : WakeInv Nothing m) (token : ℕ) : WakeInv Nothing (m.cancel token) := by
  unfold Manager.cancel
  cases hidx : m.tokenIndex token with
  | none => exact h
  | some kg =>
    obtain ⟨k, g⟩ := kg
    have hquiet : ∀ m' : Manager K, m'.cache = m.cache → m'.gpuEntries = m.gpuEntries →
        m'.hostEntries = m.hostEntries → m'.arenaLoadWaiters = m.arenaLoadWaiters →
        m'.slotPressureWaiters = m.slotPressureWaiters → m'.answers = m.answers →
        WakeInv Nothing m' := by
      intro m' hc he hh ha hp hans
      have hentries : ∀ k g, m'.gpuEntry k g = m.gpuEntry k g := by
        intro k g
        unfold Manager.gpuEntry
        rw [he]
      have hhosts : ∀ k, m'.hostEntry k = m.hostEntry k := by
        intro k
        unfold Manager.hostEntry
        rw [hh]
      refine h.quiet (h.base.sameTier hc ?_ ?_) hentries hhosts ha hp
        ⟨0, fun i => by rw [hans, zero_add]⟩
      · exact fun k => by rw [hhosts]
      · exact fun k g => by rw [hentries]
    simp only
    cases hge : m.gpuEntries k g with
    | none => exact hquiet _ rfl rfl rfl rfl rfl rfl
    | some ge =>
      have hentry : m.gpuEntry k g = ge := Manager.gpuEntry_of_some hge
      -- reverting an entry without interests loses nobody
      have hrevert : ∀ m' : Manager K, WakeInv Nothing m' → WakeInv Nothing
            (if (m'.gpuEntry k g).interests = [] then m'.revertGpuEntry k g else m') := by
        intro m' hm'
        split
        · rename_i hempty
          have hr := reverted_revertGpuEntry m' k g
          exact hm'.forget hr.oneEntry (hm'.base.revertGpuEntry fun hf => hf.elim)
            (hr.interests.trans hempty)
        · exact hm'
      simp only
      cases hfind : ge.interests.find? fun i => i.token = token with
      | none => exact hrevert _ (hquiet _ rfl rfl rfl rfl rfl rfl)
      | some i =>
        refine hrevert _ ?_
        have hset := h.base.setInterests k g (ge.interests.eraseP fun i => i.token = token)
        rw [hentry] at hset
        have hone := OneEntry.setGpuEntry m k g
          { ge with interests := ge.interests.eraseP fun i => i.token = token }
        have hself : Manager.gpuEntry (m.setGpuEntry k g
            { ge with interests := ge.interests.eraseP fun i => i.token = token }) k g =
            { ge with interests := ge.interests.eraseP fun i => i.token = token } := by
          rw [Manager.gpuEntry_setGpuEntry, if_pos ⟨rfl, rfl⟩]
        have hsub : ∀ l : List Interest, l = [] → (l.eraseP fun i => i.token = token) = [] := by
          rintro l rfl
          rfl
        have hmid : WakeInv Nothing (m.setGpuEntry k g
            { ge with interests := ge.interests.eraseP fun i => i.token = token }) := by
          refine h.change hone hset ?_ ?_ fun _ _ _ _ hf => hf
          · rw [hself]
            intro hready
            have hidle := h.idle k g
            rw [hentry] at hidle
            exact hsub _ (hidle hready)
          · rw [hself]
            intro hint
            have hne : ge.interests ≠ [] := fun hnil => hint (hsub _ hnil)
            have hw := h.wakes k g
            rw [hentry] at hw
            refine .inl ?_
            have hold := (hw hne).resolve_right fun hf => hf.elim
            unfold HasWakeup at hold ⊢
            rw [hself]
            rw [hentry] at hold
            exact hold
        exact hmid.quiet { hmid.base with }
          (fun _ _ => rfl) (fun _ => rfl) rfl rfl ⟨0, fun i => by rw [zero_add]; rfl⟩

/-! ### Retries -/

/-- The entries taken off a retry list are to be visited while they are reserved. -/
def Parked (waiters : List (K × ℕ)) : K → ℕ → GpuTier → Prop :=
  fun k g t => (k, g) ∈ waiters ∧ t = .reserved

variable {rest : List (K × ℕ)} {gk : K × ℕ}

omit [DecidableEq K] in
theorem Parked.of_ne {k : K} {g : ℕ} {t : GpuTier} (hne : ¬ (k = gk.1 ∧ g = gk.2)) :
    Parked (gk :: rest) k g t → Parked rest k g t := by
  rintro ⟨hin, hres⟩
  rcases mem_cons.1 hin with heq | hin
  · subst heq
    exact absurd ⟨rfl, rfl⟩ hne
  · exact ⟨hin, hres⟩

/-- An entry that is not reserved needs no visit. -/
theorem WakeInv.skip (h : WakeInv (Parked (gk :: rest)) m)
    (htier : ∀ ge, m.gpuEntries gk.1 gk.2 = some ge → ge.tier ≠ .reserved) :
    WakeInv (Parked rest) m := by
  refine h.weaken ?_
  rintro k g _ ⟨hin, hres⟩
  rcases mem_cons.1 hin with heq | hin
  · subst heq
    cases hge : m.gpuEntries k g with
    | none =>
      rw [Manager.gpuEntry, hge] at hres
      cases hres
    | some ge => exact absurd (Manager.gpuEntry_of_some hge ▸ hres) (htier ge hge)
  · exact .inr ⟨hin, hres⟩

theorem WakeInv.retry (h : WakeInv (Parked (gk :: rest)) m) :
    WakeInv (Parked rest) (m.retry gk) := by
  unfold Manager.retry
  cases hge : m.gpuEntries gk.1 gk.2 with
  | none => exact h.skip fun ge hge' => nomatch hge.symm.trans hge'
  | some ge =>
    simp only
    split
    · rename_i htier
      exact h.tryStartH2d (by rw [Manager.gpuEntry_of_some hge, htier]) fun _ _ _ => Parked.of_ne
    · rename_i htier
      exact h.skip fun ge' hge' => Option.some_inj.1 (hge.symm.trans hge') ▸ htier

theorem WakeInv.retryAll (waiters : List (K × ℕ)) : ∀ {m : Manager K}, WakeInv (Parked waiters) m →
      WakeInv Nothing (waiters.foldl Manager.retry m) := by
  induction waiters with
  | nil =>
    intro m h
    refine h.weaken ?_
    rintro k g _ ⟨hin, _⟩
    cases hin
  | cons gk rest ih => exact fun h => ih h.retry

variable {s : Manager.Polling K}

theorem WakeInv.failReserved (h : WakeInv (Parked (gk :: rest)) s.1) :
    WakeInv (Parked rest) (Manager.failReserved s gk).1 := by
  unfold Manager.failReserved
  cases hge : s.1.gpuEntries gk.1 gk.2 with
  | none => exact h.skip fun ge hge' => nomatch hge.symm.trans hge'
  | some ge =>
    simp only
    split
    · exact h.completeFailed gk.1 gk.2 fun _ _ _ => Parked.of_ne
    · rename_i htier
      exact h.skip fun ge' hge' => Option.some_inj.1 (hge.symm.trans hge') ▸ htier

theorem WakeInv.failAll (waiters : List (K × ℕ)) :
    ∀ {s : Manager.Polling K}, WakeInv (Parked waiters) s.1 →
      WakeInv Nothing (waiters.foldl Manager.failReserved s).1 := by
  induction waiters with
  | nil =>
    intro s h
    refine h.weaken ?_
    rintro k g _ ⟨hin, _⟩
    cases hin
  | cons gk rest ih => exact fun h => ih h.failReserved

theorem WakeInv.arenaLoadDone (h : WakeInv Nothing s.1) (lc : ArenaLoadCompletion K) :
    WakeInv Nothing (Manager.arenaLoadDone s lc).1 := by
  have htaken : WakeInv (Parked (s.1.arenaLoadWaiters lc.key)) { s.1 with
      arenaLoadWaiters := Function.update s.1.arenaLoadWaiters lc.key [] } := by
    refine ⟨{ h.base with }, h.idle, ?_, h.serves⟩
    intro k g hint
    rcases h.wakes k g hint with (hload | htrans | ⟨htier, hpark | hpark⟩) | hf
    · exact .inl (.inl hload)
    · exact .inl (.inr (.inl htrans))
    · by_cases hk : k = lc.key
      · subst hk
        exact .inr ⟨hpark, htier⟩
      · refine .inl (.inr (.inr ⟨htier, .inl ?_⟩))
        simp only [Function.update_of_ne hk]
        exact hpark
    · exact .inl (.inr (.inr ⟨htier, .inr hpark⟩))
    · exact hf.elim
  unfold Manager.arenaLoadDone
  split
  · exact WakeInv.retryAll _ htaken
  · exact WakeInv.failAll _ htaken

theorem WakeInv.redrivePressured (h : WakeInv Nothing m) : WakeInv Nothing m.redrivePressured := by
  refine WakeInv.retryAll _ ⟨{ h.base with }, h.idle,
    ?_, h.serves⟩
  intro k g hint
  rcases h.wakes k g hint with (hload | htrans | ⟨htier, hpark | hpark⟩) | hf
  · exact .inl (.inl hload)
  · exact .inl (.inr (.inl htrans))
  · exact .inl (.inr (.inr ⟨htier, .inl hpark⟩))
  · exact .inr ⟨hpark, htier⟩
  · exact hf.elim

/-! ### Transfer completions -/

variable {s' : Manager.Polling K}

theorem WakeInv.transferDone (h : WakeInv Nothing s.1) {xc : TransferCompletion K}
    (hs : Manager.transferDone s xc = some s') :
    WakeInv Nothing s'.1 := by
  have hbase := h.base.transferDone hs
  unfold Manager.transferDone at hs
  cases hge : s.1.gpuEntries xc.key xc.gpuIdx with
  | none =>
    rw [hge] at hs
    cases hs
    exact h
  | some ge =>
    rw [hge] at hs
    have hentry := Manager.gpuEntry_of_some hge
    cases hdir : xc.direction with
    | h2d =>
      simp only [hdir] at hs
      split at hs
      · cases hs
        exact h
      rename_i htier
      split at hs
      · obtain ⟨r, hr, rfl⟩ := Option.map_eq_some_iff.1 hs
        obtain ⟨gs, hgs, rfl⟩ := Option.map_eq_some_iff.1 hr
        -- once its interests are answered, the hot entry is idle
        have hone : OneEntry s.1 ((s.1.markHot xc.key xc.gpuIdx ge gs).cleared xc.key xc.gpuIdx)
            xc.key xc.gpuIdx := by
          have hset := OneEntry.setGpuEntry { s.1 with
            cache := s.1.cache.commit xc.gpuIdx (.markAllReady xc.key) gs } xc.key xc.gpuIdx
            { ge with tier := .hot, transferToken := 0 }
          have hmark : OneEntry s.1 (s.1.markHot xc.key xc.gpuIdx ge gs) xc.key xc.gpuIdx :=
            { hset with }
          exact hmark.trans (OneEntry.cleared _ xc.key xc.gpuIdx)
        have hcoh : Coherent False
            ((s.1.markHot xc.key xc.gpuIdx ge gs).cleared xc.key xc.gpuIdx) :=
          h.base.markHot_cleared hge (not_not.1 htier) hgs
        have hdone := h.forget hone hcoh (by
          rw [Manager.cleared_gpuEntry, if_pos ⟨rfl, rfl⟩])
        simp only [completeInterests_eq]
        exact hdone.redrivePressured
      · cases hs
        have hone := OneEntry.setGpuEntry s.1 xc.key xc.gpuIdx { ge with transferToken := 0 }
        obtain ⟨_, hint⟩ := gpuEntry_completeFailed (s.1.setGpuEntry xc.key xc.gpuIdx
          { ge with transferToken := 0 }) xc.key xc.gpuIdx
        exact h.forget (hone.trans (oneEntry_completeFailed _ _ _)) hbase hint
    | d2h =>
      simp only [hdir] at hs
      split at hs
      · cases hs
        exact h
      rename_i htier
      cases hs
      have hset := OneEntry.setGpuEntry (s.1.evictSlot xc.key xc.gpuIdx) xc.key xc.gpuIdx
        { ge with tier := .absent, transferToken := 0, drainCmdSeq := 0 }
      refine h.forget { hset with } hbase ?_
      have hidle := h.idle xc.key xc.gpuIdx
      rw [hentry] at hidle
      show (Manager.gpuEntry (Manager.setGpuEntry _ _ _ _) _ _).interests = []
      rw [Manager.gpuEntry_setGpuEntry, if_pos ⟨rfl, rfl⟩]
      exact hidle (.inr (not_not.1 htier))

/-! ### The loop over the waiters -/

/-- Visiting the waiters of the list, one after the other, erases none. -/
def Keeps (visit : Manager.Polling K → PendingGpuChain → Manager.Polling K) (k : K) :
    List PendingGpuChain → Manager.Polling K → Prop
  | [], _ => True
  | w :: ws, s => ((visit s w).1.hostEntry k).gpuWaiters = (s.1.hostEntry k).gpuWaiters ∧
    Keeps visit k ws (visit s w)

variable {visit : Manager.Polling K → PendingGpuChain → Manager.Polling K}

omit [DecidableEq K] in
/-- **The loop visits the list it started with**, if only its last two visits erase: what
is left of the storage then still ends with the last waiter. -/
theorem driveWaiters_eq_foldl (hsub : ∀ s w, ((visit s w).1.hostEntry k).gpuWaiters.Sublist
      (s.1.hostEntry k).gpuWaiters) (rest : List PendingGpuChain) :
    ∀ (done : List PendingGpuChain) (s : Manager.Polling K),
      (s.1.hostEntry k).gpuWaiters = done ++ rest → Keeps visit k rest.dropLast.dropLast s →
      driveWaiters visit k rest.length done.length (done ++ rest) s = rest.foldl visit s := by
  induction rest with
  | nil => exact fun _ _ _ _ => rfl
  | cons a rest ih =>
    intro done s hvec hkeeps
    have hread : (done ++ a :: rest)[done.length]? = some a := by simp
    rw [length_cons, driveWaiters, hread, foldl_cons]
    simp only
    match rest, ih, hvec, hkeeps with
    | [], _, _, _ => rfl
    | [b], _, hvec, _ =>
      -- the visit may erase, but the last place of the storage is not overwritten
      have hlen := (hsub s a).length_le
      rw [hvec] at hlen
      have hlast : ((((visit s a).1.hostEntry k).gpuWaiters ++
          (done ++ [a, b]).drop ((visit s a).1.hostEntry k).gpuWaiters.length))[done.length + 1]? =
          some b := by
        by_cases heq : ((visit s a).1.hostEntry k).gpuWaiters.length = (done ++ [a, b]).length
        · have hsame := (hsub s a).eq_of_length (by rw [hvec, heq])
          rw [hsame, hvec]
          simp
        have hlt : ((visit s a).1.hostEntry k).gpuWaiters.length ≤ done.length + 1 := by
          simp only [length_append, length_cons, length_nil] at heq hlen
          omega
        rw [getElem?_append_right hlt, getElem?_drop, Nat.add_sub_cancel' hlt]
        simp
      rw [length_singleton, driveWaiters, hlast]
      rfl
    | b :: c :: rest, ih, hvec, hkeeps =>
      obtain ⟨hkeep, hkeeps⟩ := hkeeps
      rw [hkeep, hvec, drop_length, append_nil]
      have hstep := ih (done ++ [a]) (visit s a) (by rw [hkeep, hvec]; simp) hkeeps
      rw [append_assoc, length_append, length_singleton] at hstep
      exact hstep

theorem waiters_completeFailed (m : Manager K) (k : K) (g : ℕ) :
    ((m.completeInterests k g false).1.hostEntry k).gpuWaiters.Sublist
      (m.hostEntry k).gpuWaiters := by
  rw [completeInterests_eq]
  show (((m.cleared k g).revertGpuEntry k g).hostEntry k).gpuWaiters.Sublist _
  rw [(reverted_revertGpuEntry (m.cleared k g) k g).waiters, if_pos rfl]
  exact filter_sublist

theorem waiters_startWaiter (k : K) (s : Manager.Polling K) (w : PendingGpuChain) :
    ((startWaiter k s w).1.hostEntry k).gpuWaiters.Sublist (s.1.hostEntry k).gpuWaiters := by
  unfold startWaiter
  simp only
  split
  · unfold reserveAndStart
    split
    · exact waiters_completeFailed _ k w.gpuIdx
    · rw [hostEntry_tryStartH2d]
      exact List.Sublist.refl _
  · rw [hostEntry_tryStartH2d]
    exact List.Sublist.refl _
  · exact List.Sublist.refl _

theorem waiters_failWaiter (k : K) (s : Manager.Polling K) (w : PendingGpuChain) :
    ((failWaiter k s w).1.hostEntry k).gpuWaiters.Sublist (s.1.hostEntry k).gpuWaiters := by
  unfold failWaiter
  split
  · exact List.Sublist.refl _
  · exact waiters_completeFailed _ k w.gpuIdx

theorem keeps_startWaiter (gpus : ℕ → GpuState K) (ws : List PendingGpuChain) :
    ∀ s : Manager.Polling K,
      (∀ w ∈ ws, ((gpus w.gpuIdx).reserve k w.gpuIdx w.zone false).2 ≠ none) →
      (∀ g, (s.1.gpuEntry k g).tier = .absent → s.1.cache.gpus g = gpus g) →
      Keeps (startWaiter k) k ws s := by
  induction ws with
  | nil => exact fun _ _ _ => trivial
  | cons w ws ih =>
    intro s hroom hsame
    have hentry : ∀ g, (s.1.setGpuEntry k w.gpuIdx (s.1.gpuEntry k w.gpuIdx)).gpuEntry k g =
        s.1.gpuEntry k g := by
      intro g
      rw [gpuEntry_setGpuEntry]
      split
      · rename_i hkg
        rw [hkg.2]
      · rfl
    have hrest : ∀ w' ∈ ws, ((gpus w'.gpuIdx).reserve k w'.gpuIdx w'.zone false).2 ≠ none :=
      fun w' hw' => hroom w' (mem_cons_of_mem _ hw')
    -- starting a copy touches neither the cache nor the vector, and no entry becomes absent
    have hdrive : ∀ m : Manager K, (m.gpuEntry k w.gpuIdx).tier ≠ .absent →
        (∀ g, (m.gpuEntry k g).tier = .absent → m.cache.gpus g = gpus g) →
        ∀ g, ((m.tryStartH2d k w.gpuIdx).gpuEntry k g).tier = .absent →
          (m.tryStartH2d k w.gpuIdx).cache.gpus g = gpus g := by
      intro m hne hm g hab
      have hd := driven_tryStartH2d m k w.gpuIdx
      rw [hd.cache]
      refine hm g ?_
      by_cases hg : g = w.gpuIdx
      · subst hg
        rcases hd.tier with heq | heq
        · rw [heq] at hab
          exact absurd hab hne
        · rw [heq] at hab
          cases hab
      · rw [tier_congr (hd.others k g fun hkg => hg hkg.2)] at hab
        exact hab
    have hvisit : ((startWaiter k s w).1.hostEntry k).gpuWaiters = (s.1.hostEntry k).gpuWaiters ∧
        ∀ g, ((startWaiter k s w).1.gpuEntry k g).tier = .absent →
          (startWaiter k s w).1.cache.gpus g = gpus g := by
      unfold startWaiter
      simp only [hentry]
      split
      · rename_i habsent
        have hgs : s.1.cache.gpus w.gpuIdx = gpus w.gpuIdx := hsame _ habsent
        obtain ⟨addr, haddr⟩ := Option.ne_none_iff_exists'.1 (hroom w mem_cons_self)
        have hgrant : (((s.1.setGpuEntry k w.gpuIdx (s.1.gpuEntry k w.gpuIdx)).cache.gpus
            w.gpuIdx).reserve k w.gpuIdx w.zone false).2 = some addr := by
          show ((s.1.cache.gpus w.gpuIdx).reserve k w.gpuIdx w.zone false).2 = some addr
          rw [hgs, haddr]
        unfold reserveAndStart
        rw [hgrant]
        refine ⟨by rw [hostEntry_tryStartH2d]; rfl, hdrive _ ?_ ?_⟩
        · rw [takeSlot_gpuEntry, if_pos ⟨rfl, rfl⟩]
          exact GpuTier.noConfusion
        · intro g hab
          rw [takeSlot_gpuEntry] at hab
          by_cases hg : g = w.gpuIdx
          · rw [if_pos ⟨rfl, hg⟩] at hab
            cases hab
          rw [if_neg fun hkg => hg hkg.2, hentry] at hab
          show (Function.update s.1.cache.gpus w.gpuIdx _) g = gpus g
          rw [Function.update_of_ne hg]
          exact hsame g hab
      · rename_i hreserved
        refine ⟨by rw [hostEntry_tryStartH2d]; rfl, hdrive _ ?_ ?_⟩
        · rw [hentry, hreserved]
          exact GpuTier.noConfusion
        · intro g hab
          rw [hentry] at hab
          exact hsame g hab
      · refine ⟨rfl, fun g hab => ?_⟩
        rw [hentry] at hab
        exact hsame g hab
    exact ⟨hvisit.1, ih _ hrest hvisit.2⟩

/-! ### One visit -/

/-- The entries of a key that wait for their visit. -/
def Waiting (k : K) (ws : List PendingGpuChain) : K → ℕ → GpuTier → Prop :=
  fun k' g t => k' = k ∧ t = .absent ∧ ∃ w ∈ ws, w.gpuIdx = g

variable {w : PendingGpuChain} {ws : List PendingGpuChain}

omit [DecidableEq K] in
theorem Waiting.tail {k' : K} {g' : ℕ} {t : GpuTier} (hne : ¬ (k' = k ∧ g' = w.gpuIdx))
    (h : Waiting k (w :: ws) k' g' t) :
    Waiting k ws k' g' t := by
  obtain ⟨rfl, ht, w', hw', rfl⟩ := h
  rcases mem_cons.1 hw' with rfl | hw'
  · exact absurd ⟨rfl, rfl⟩ hne
  · exact ⟨rfl, ht, w', hw', rfl⟩

/-- What one visit from `s` to `s'` does for its entry: the copy is started, deferred or
failed, or the entry was past that already. -/
def Visited (s s' : Manager.Polling K) (k : K) (g : ℕ) : Prop :=
  (s'.1.gpuEntry k g).tier = .transferring ∨
    (((s.1.answers 0).hostSource = .pending ∨ (s.1.answers 0).hostSource = .backpressure) ∧
      (s'.1.gpuEntry k g).tier = .reserved ∧
      (s'.1.gpuEntry k g).interests = (s.1.gpuEntry k g).interests ∧
      ((k, g) ∈ s'.1.arenaLoadWaiters k ∨ (k, g) ∈ s'.1.slotPressureWaiters)) ∨
    ((s.1.gpuEntry k g).tier = .absent ∧ (s'.1.gpuEntry k g).interests = [] ∧
      ∀ i ∈ (s.1.gpuEntry k g).interests,
        ⟨i.token, i.cmdSeq, k, g, false, false⟩ ∈ s'.2.lifecycle) ∨
    ((s.1.gpuEntry k g).tier ≠ .absent ∧ s'.1.gpuEntry k g = s.1.gpuEntry k g)

theorem mem_completeFailed {m : Manager K} {i : Interest} (hi : i ∈ (m.gpuEntry k g).interests) :
    ⟨i.token, i.cmdSeq, k, g, false, false⟩ ∈ (m.completeInterests k g false).2 := by
  exact mem_map_of_mem hi

theorem visited_tryStartH2d (h : WakeInv todo m) (hanswers : m.answers 0 = s.1.answers 0)
    (hint : (m.gpuEntry k g).interests =
      (s.1.gpuEntry k g).interests) (htier : (m.gpuEntry k g).tier = .reserved)
    (hs' : s'.1 = m.tryStartH2d k g) : Visited s s' k g := by
  have hne : (m.gpuEntry k g).tier ≠ .absent := by
    rw [htier]
    exact GpuTier.noConfusion
  unfold Visited
  rw [hs', ← hanswers, ← hint]
  rcases tryStartH2d_serves (h.base.backed k g hne) (h.serves 0) with heq | ⟨heq, hpark⟩
  · exact .inl heq
  refine .inr (.inl ?_)
  rw [heq]
  rcases hpark with ⟨ha, hpark⟩ | ⟨ha, hpark⟩
  · exact ⟨.inl ha, htier, rfl, .inl hpark⟩
  · exact ⟨.inr ha, htier, rfl, .inr hpark⟩

/-- The facts about one visit that the loop needs. -/
structure VisitSpec (s s' : Manager.Polling K) (k : K) (g : ℕ) : Prop where
  one : OneEntry s.1 s'.1 k g
  grows : ∀ c ∈ s.2.lifecycle, c ∈ s'.2.lifecycle
  visited : Visited s s' k g

theorem WakeInv.startWaiter (h : WakeInv (Waiting k (w :: ws)) s.1)
    (hwarm : (s.1.hostEntry k).tier = .warm) :
    WakeInv (Waiting k ws) (Manager.startWaiter k s w).1 ∧
      VisitSpec s (Manager.startWaiter k s w) k w.gpuIdx := by
  have hentry : ∀ k' g, (s.1.setGpuEntry k w.gpuIdx (s.1.gpuEntry k w.gpuIdx)).gpuEntry k' g =
      s.1.gpuEntry k' g := by
    intro k' g
    rw [Manager.gpuEntry_setGpuEntry]
    split
    · rename_i hkg
      rw [hkg.1, hkg.2]
    · rfl
  have htouch : WakeInv (Waiting k (w :: ws))
      (s.1.setGpuEntry k w.gpuIdx (s.1.gpuEntry k w.gpuIdx)) :=
    h.quiet (h.base.setInterests k w.gpuIdx _) hentry (fun _ => rfl) rfl rfl
      ⟨0, fun i => by rw [zero_add]; rfl⟩
  have hone := OneEntry.setGpuEntry s.1 k w.gpuIdx (s.1.gpuEntry k w.gpuIdx)
  have htail : ∀ k' g' t, ¬ (k' = k ∧ g' = w.gpuIdx) → Waiting k (w :: ws) k' g' t →
      Waiting k ws k' g' t := fun _ _ _ hne ht => ht.tail hne
  unfold Manager.startWaiter
  simp only [hentry]
  split
  · rename_i habsent
    refine ⟨htouch.reserveAndStart hwarm w.zone htail, ?_⟩
    unfold Manager.reserveAndStart
    split
    · -- the cache is full
      refine ⟨hone.trans (oneEntry_completeFailed _ k w.gpuIdx),
        fun c hc => mem_append_left _ hc, .inr (.inr (.inl ⟨habsent, ?_, ?_⟩))⟩
      · exact (gpuEntry_completeFailed _ k w.gpuIdx).2
      · intro i hi
        refine mem_append_right _ (mem_completeFailed ?_)
        rw [hentry]
        exact hi
    rename_i addr hr
    have hslot := OneEntry.takeSlot (s.1.setGpuEntry k w.gpuIdx (s.1.gpuEntry k w.gpuIdx)) k
      w.gpuIdx w.zone
    have htaken : WakeInv (fun _ _ _ => True) ((s.1.setGpuEntry k w.gpuIdx
        (s.1.gpuEntry k w.gpuIdx)).takeSlot k w.gpuIdx w.zone) := by
      refine htouch.change hslot (htouch.base.takeSlot hwarm hr) ?_ (fun _ => .inr trivial)
        fun _ _ _ _ _ => trivial
      rw [Manager.takeSlot_gpuEntry, if_pos ⟨rfl, rfl⟩]
      rintro ((hr | hr | hr) | hr) <;> cases hr
    have hself : ((s.1.setGpuEntry k w.gpuIdx (s.1.gpuEntry k w.gpuIdx)).takeSlot k w.gpuIdx
        w.zone).gpuEntry k w.gpuIdx = { s.1.gpuEntry k w.gpuIdx with tier := .reserved } := by
      rw [Manager.takeSlot_gpuEntry, if_pos ⟨rfl, rfl⟩, hentry]
    refine ⟨(hone.trans hslot).trans (driven_tryStartH2d _ k w.gpuIdx).oneEntry,
      fun c hc => mem_append_left _ hc, ?_⟩
    exact visited_tryStartH2d htaken rfl (by rw [hself]) (by rw [hself]) rfl
  · rename_i hreserved
    have htier : ((s.1.setGpuEntry k w.gpuIdx (s.1.gpuEntry k w.gpuIdx)).gpuEntry k
        w.gpuIdx).tier = .reserved := by
      rw [hentry, hreserved]
    refine ⟨htouch.tryStartH2d htier htail,
      ⟨hone.trans (driven_tryStartH2d _ k w.gpuIdx).oneEntry, fun c hc => hc, ?_⟩⟩
    exact visited_tryStartH2d htouch rfl (by rw [hentry]) htier rfl
  · rename_i hnabsent hnreserved
    refine ⟨htouch.weaken ?_, ⟨hone, fun c hc => hc, ?_⟩⟩
    · rintro k' g' _ ht
      by_cases hkg : k' = k ∧ g' = w.gpuIdx
      · obtain ⟨rfl, rfl⟩ := hkg
        have habsent := ht.2.1
        rw [hentry] at habsent
        exact absurd habsent hnabsent
      · exact .inr (ht.tail hkg)
    · refine .inr (.inr (.inr ⟨hnabsent, hentry k w.gpuIdx⟩))

theorem WakeInv.failWaiter (h : WakeInv (Waiting k (w :: ws)) s.1)
    (hcold : (s.1.hostEntry k).tier = .cold) :
    WakeInv (Waiting k ws) (Manager.failWaiter k s w).1 ∧
      VisitSpec s (Manager.failWaiter k s w) k w.gpuIdx := by
  have habsent : (s.1.gpuEntry k w.gpuIdx).tier = .absent := by
    refine h.base.cold k w.gpuIdx ?_
    rw [hcold]
    exact HostTier.noConfusion
  unfold Manager.failWaiter
  cases hge : s.1.gpuEntries k w.gpuIdx with
  | none =>
    have hempty : (s.1.gpuEntry k w.gpuIdx).interests = [] := by
      unfold Manager.gpuEntry
      rw [hge]
      rfl
    refine ⟨h.weaken ?_, ⟨?_, fun c hc => hc, ?_⟩⟩
    · rintro k' g' hint ht
      refine .inr (ht.tail ?_)
      rintro ⟨rfl, rfl⟩
      exact hint hempty
    · exact ⟨fun _ _ _ => rfl, fun _ hl => ⟨hl, fun w hw _ => ⟨w, hw, rfl⟩⟩, fun _ _ h => h,
        fun _ h => h, ⟨0, fun i => by rw [zero_add]⟩⟩
    · refine .inr (.inr (.inl ⟨habsent, hempty, ?_⟩))
      rw [hempty]
      exact fun i hi => absurd hi not_mem_nil
  | some ge =>
    refine ⟨h.completeFailed k w.gpuIdx fun _ _ _ hne ht => ht.tail hne,
      ⟨oneEntry_completeFailed s.1 k w.gpuIdx, fun c hc => mem_append_left _ hc, ?_⟩⟩
    refine .inr (.inr (.inl ⟨habsent, (gpuEntry_completeFailed s.1 k w.gpuIdx).2, ?_⟩))
    exact fun i hi => mem_append_right _ (mem_completeFailed hi)

/-! ### All visits -/

/-- What the loop has done since `s₀` for the waiters it has visited. -/
structure Tracks (s₀ : Manager.Polling K) (k : K) (done : List PendingGpuChain)
    (s : Manager.Polling K) : Prop where
  served : ∀ w ∈ done, Served s₀ s k w.gpuIdx
  /-- The other entries of the expert are as they were: absent, with their interests. -/
  fresh : ∀ g, (∀ w ∈ done, w.gpuIdx ≠ g) → (s.1.gpuEntry k g).tier = .absent ∧
    (s.1.gpuEntry k g).interests = (s₀.1.gpuEntry k g).interests
  answers : ∃ n, ∀ i, s.1.answers i = s₀.1.answers (n + i)

variable {s₀ : Manager.Polling K}

omit [DecidableEq K] in
theorem Served.mono (h : Served s₀ s k g) (hentry : s'.1.gpuEntry k g = s.1.gpuEntry k g)
    (harena : ∀ k' gk, gk ∈ s.1.arenaLoadWaiters k' → gk ∈ s'.1.arenaLoadWaiters k')
    (hpressure : ∀ gk, gk ∈ s.1.slotPressureWaiters → gk ∈ s'.1.slotPressureWaiters)
    (hgrows : ∀ c ∈ s.2.lifecycle, c ∈ s'.2.lifecycle) : Served s₀ s' k g := by
  unfold Served
  rw [hentry]
  rcases h with htrans | ⟨hint, hfail⟩ | ⟨hdefer, hres, hpark⟩
  · exact .inl htrans
  · exact .inr (.inl ⟨hint, fun i hi => hgrows _ (hfail i hi)⟩)
  refine .inr (.inr ⟨hdefer, hres, ?_⟩)
  rcases hpark with hpark | hpark
  · exact .inl (harena _ _ hpark)
  · exact .inr (hpressure _ hpark)

omit [DecidableEq K] in
theorem Tracks.snoc {done : List PendingGpuChain} (h : Tracks s₀ k done s)
    (hv : VisitSpec s s' k w.gpuIdx) :
    Tracks s₀ k (done ++ [w]) s' := by
  have hself : Served s₀ s' k w.gpuIdx := by
    obtain ⟨n, hn⟩ := h.answers
    rcases hv.visited with htrans | ⟨hdefer, hres, _, hpark⟩ | ⟨habsent, hint, hfail⟩ |
      ⟨hpresent, hsame⟩
    · exact .inl htrans
    · refine .inr (.inr ⟨⟨n, ?_⟩, hres, hpark⟩)
      have := hn 0
      rw [add_zero] at this
      rw [← this]
      exact hdefer
    · refine .inr (.inl ⟨hint, ?_⟩)
      by_cases hdone : ∃ w' ∈ done, w'.gpuIdx = w.gpuIdx
      · obtain ⟨w', hw', heq⟩ := hdone
        have hserved := h.served w' hw'
        rw [heq] at hserved
        rcases hserved with htrans | ⟨_, hold⟩ | ⟨_, hres, _⟩
        · rw [habsent] at htrans
          cases htrans
        · exact fun i hi => hv.grows _ (hold i hi)
        · rw [habsent] at hres
          cases hres
      · have hnone : ∀ w' ∈ done, w'.gpuIdx ≠ w.gpuIdx := fun w' hw' heq => hdone ⟨w', hw', heq⟩
        rw [← (h.fresh w.gpuIdx hnone).2]
        exact hfail
    · by_cases hdone : ∃ w' ∈ done, w'.gpuIdx = w.gpuIdx
      · obtain ⟨w', hw', heq⟩ := hdone
        have hserved := h.served w' hw'
        rw [heq] at hserved
        exact hserved.mono hsame hv.one.arena hv.one.pressure hv.grows
      · have hnone : ∀ w' ∈ done, w'.gpuIdx ≠ w.gpuIdx := fun w' hw' heq => hdone ⟨w', hw', heq⟩
        exact absurd (h.fresh w.gpuIdx hnone).1 hpresent
  refine ⟨?_, ?_, ?_⟩
  · intro w' hw'
    by_cases heq : w'.gpuIdx = w.gpuIdx
    · rw [heq]
      exact hself
    rcases mem_append.1 hw' with hw' | hw'
    · exact (h.served w' hw').mono (hv.one.others k _ fun hkg => heq hkg.2) hv.one.arena
        hv.one.pressure hv.grows
    · rw [mem_singleton] at hw'
      exact absurd (by rw [hw']) heq
  · intro g hnone
    have hne : ¬ (k = k ∧ g = w.gpuIdx) := by
      rintro ⟨_, rfl⟩
      exact hnone w (mem_append_right _ (mem_singleton_self w)) rfl
    rw [hv.one.others k g hne]
    exact h.fresh g fun w' hw' => hnone w' (mem_append_left _ hw')
  · obtain ⟨n, hn⟩ := h.answers
    obtain ⟨n', hn'⟩ := hv.one.answers
    exact ⟨n + n', fun i => by rw [hn', hn, add_assoc]⟩

omit [DecidableEq K] in
theorem Tracks.foldl {I : List PendingGpuChain → Manager.Polling K → Prop}
    (hvisit : ∀ w ws s, I (w :: ws) s → I ws (visit s w) ∧ VisitSpec s (visit s w) k w.gpuIdx)
    (ws : List PendingGpuChain) :
    ∀ (done : List PendingGpuChain) (s : Manager.Polling K), I ws s → Tracks s₀ k done s →
      I [] (ws.foldl visit s) ∧ Tracks s₀ k (done ++ ws) (ws.foldl visit s) := by
  induction ws with
  | nil =>
    intro done s hI h
    rw [append_nil]
    exact ⟨hI, h⟩
  | cons w ws ih =>
    intro done s hI h
    obtain ⟨hI', hv⟩ := hvisit w ws s hI
    have hnext := ih (done ++ [w]) (visit s w) hI' (h.snoc hv)
    rw [append_assoc] at hnext
    exact hnext

variable {he : HostEntry}

theorem WakeInv.leaveLoading (h : WakeInv Nothing m) (hhe : m.hostEntries k = some he)
    (hload : he.tier = .loadingToRam) (tier : HostTier) :
    WakeInv (Waiting k he.gpuWaiters)
      (m.setHostEntry k { he with tier := tier, nvmeToken := 0 }) := by
  have hentry := hostEntry_of_some hhe
  have hnot : (m.hostEntry k).tier ≠ .warm := by
    rw [hentry, hload]
    exact HostTier.noConfusion
  refine ⟨h.base.setHostEntry (.inr hnot), h.idle, ?_, h.serves⟩
  intro k' g' hint
  by_cases hk : k' = k
  · subst hk
    have habsent : (m.gpuEntry k' g').tier = .absent := h.base.cold k' g' hnot
    rcases h.wakes k' g' hint with (⟨_, w, hw, hg⟩ | htrans | ⟨hres, _⟩) | hf
    · rw [hentry] at hw
      exact .inr ⟨rfl, habsent, w, hw, hg⟩
    · rw [habsent] at htrans
      cases htrans
    · rw [habsent] at hres
      cases hres
    · exact hf.elim
  · rcases h.wakes k' g' hint with (⟨hl, hw⟩ | hw) | hf
    · refine .inl (.inl ?_)
      rw [hostEntry_setHostEntry, if_neg hk]
      exact ⟨hl, hw⟩
    · exact .inl (.inr hw)
    · exact hf.elim

theorem WakeInv.clearWaiters (h : WakeInv (Waiting k []) m)
    (hnot : (m.hostEntry k).tier ≠ .loadingToRam) : WakeInv Nothing (m.clearWaiters k) := by
  refine ⟨h.base.clearWaiters k, h.idle, ?_, h.serves⟩
  intro k' g' hint
  rcases h.wakes k' g' hint with (⟨hload, hw⟩ | hw) | ⟨_, _, w, hw, _⟩
  · refine .inl (.inl ?_)
    unfold Manager.clearWaiters
    rw [Manager.hostEntry_setHostEntry, if_neg]
    · exact ⟨hload, hw⟩
    · rintro rfl
      exact hnot hload
  · exact .inl (.inr hw)
  · cases hw

theorem WakeInv.finishLoad (h : WakeInv Nothing s.1) (hhe : s.1.hostEntries k = some he)
    (hload : he.tier = .loadingToRam) (tier : HostTier) (htier : tier ≠ .loadingToRam)
    (hsub : ∀ s w, ((visit s w).1.hostEntry k).gpuWaiters.Sublist (s.1.hostEntry k).gpuWaiters)
    (hvisit : ∀ w ws s, WakeInv (Waiting k (w :: ws)) s.1 ∧ (s.1.hostEntry k).tier = tier →
      (WakeInv (Waiting k ws) (visit s w).1 ∧ ((visit s w).1.hostEntry k).tier = tier) ∧
        VisitSpec s (visit s w) k w.gpuIdx)
    (hkeeps : Keeps visit k he.gpuWaiters.dropLast.dropLast
      (s.1.setHostEntry k { he with tier := tier, nvmeToken := 0 }, s.2)) :
    WakeInv Nothing (Manager.finishLoad k he tier visit s).1 ∧
      ∀ w ∈ he.gpuWaiters, Served s (Manager.finishLoad k he tier visit s) k w.gpuIdx := by
  have hnot : (s.1.hostEntry k).tier ≠ .warm := by
    rw [Manager.hostEntry_of_some hhe, hload]
    exact HostTier.noConfusion
  have hloop := driveWaiters_eq_foldl hsub he.gpuWaiters []
    (s.1.setHostEntry k { he with tier := tier, nvmeToken := 0 }, s.2) (by simp) hkeeps
  have hstart : Tracks s k [] (s.1.setHostEntry k { he with tier := tier, nvmeToken := 0 }, s.2) :=
    ⟨fun _ hw => absurd hw not_mem_nil, fun g _ => ⟨h.base.cold k g hnot, rfl⟩,
      ⟨0, fun i => by rw [zero_add]; rfl⟩⟩
  obtain ⟨⟨hinv, hhost⟩, htracks⟩ := Tracks.foldl
    (I := fun ws s => WakeInv (Waiting k ws) s.1 ∧ (s.1.hostEntry k).tier = tier) hvisit
    he.gpuWaiters [] _ ⟨h.leaveLoading hhe hload tier, by simp⟩ hstart
  simp only [nil_append, length_nil] at hloop htracks
  unfold Manager.finishLoad
  simp only [hloop]
  refine ⟨hinv.clearWaiters (by rw [hhost]; exact htier), ?_⟩
  intro w hw
  exact (htracks.served w hw).mono rfl (fun _ _ hgk => hgk) (fun _ hgk => hgk) fun _ hc => hc

theorem WakeInv.nvmeDone (h : WakeInv Nothing s.1) {nc : IoCompletion K}
    (hok : FailsAtEndOnly s.1 nc) :
    WakeInv Nothing (Manager.nvmeDone s nc).1 ∧ WaitersServed s nc := by
  unfold WaitersServed Manager.nvmeDone
  cases hhe : s.1.hostEntries nc.key with
  | none => exact ⟨h, fun _ heq => nomatch heq⟩
  | some he =>
    by_cases hload : he.tier = .loadingToRam
    · have hcond := hok he hhe hload
      simp only [hload]
      cases hsucc : nc.success with
      | true =>
        have hdone := h.finishLoad hhe hload .warm HostTier.noConfusion (waiters_startWaiter nc.key)
          (fun w ws s hs => ⟨⟨(hs.1.startWaiter hs.2).1, (hs.1.base.startWaiter hs.2 w).2⟩,
            (hs.1.startWaiter hs.2).2⟩)
          (keeps_startWaiter s.1.cache.gpus _ _ (fun w hw => (hcond w hw).2) fun _ _ => rfl)
        refine ⟨hdone.1, ?_⟩
        intro he' heq _
        cases heq
        exact hdone.2
      | false =>
        have hnil : he.gpuWaiters.dropLast.dropLast = [] := by
          refine eq_nil_iff_forall_not_mem.2 fun w hw => ?_
          have hfail := (hcond w hw).1
          rw [hsucc] at hfail
          cases hfail
        have hdone := h.finishLoad hhe hload .cold HostTier.noConfusion (waiters_failWaiter nc.key)
          (fun w ws s hs => ⟨⟨(hs.1.failWaiter hs.2).1, (hs.1.base.failWaiter hs.2 w).2⟩,
            (hs.1.failWaiter hs.2).2⟩)
          (by rw [hnil]; trivial)
        refine ⟨hdone.1, ?_⟩
        intro he' heq _
        cases heq
        exact hdone.2
    · simp only [ne_eq, hload]
      refine ⟨h, ?_⟩
      intro he' heq hload'
      cases heq
      exact absurd hload' hload

theorem WakeInv.nvmeAll (nvme : List (IoCompletion K)) :
    ∀ {s : Manager.Polling K}, WakeInv Nothing s.1 → LoopsFailAtEndOnly nvme s →
      WakeInv Nothing (nvme.foldl Manager.nvmeDone s).1 ∧ ∀ pre nc post, nvme = pre ++ nc :: post →
          WaitersServed (pre.foldl Manager.nvmeDone s) nc := by
  induction nvme with
  | nil =>
    intro s h _
    refine ⟨h, ?_⟩
    intro pre nc post heq
    exact absurd heq.symm (append_ne_nil_of_right_ne_nil _ (cons_ne_nil _ _))
  | cons nc nvme ih =>
    intro s h hok
    obtain ⟨hinv, hserved⟩ := h.nvmeDone hok.1
    obtain ⟨hrest, hall⟩ := ih hinv hok.2
    refine ⟨hrest, ?_⟩
    intro pre nc' post heq
    cases pre with
    | nil =>
      obtain ⟨rfl, rfl⟩ := List.cons.inj heq
      exact hserved
    | cons nc'' pre =>
      obtain ⟨rfl, htail⟩ := List.cons.inj heq
      exact hall pre nc' post htail

/-! ### Runs -/

theorem WakeInv.startPoll (h : WakeInv Nothing m) (loads : List (ArenaLoadCompletion K)) :
    WakeInv Nothing (loads.foldl Manager.arenaLoadDone m.startPoll).1 := by
  have hstart : WakeInv Nothing m.startPoll.1 :=
    h.quiet { h.base with } (fun _ _ => rfl)
      (fun _ => rfl) rfl rfl ⟨0, fun i => by rw [zero_add]; rfl⟩
  exact foldlRecOn (motive := fun s : Manager.Polling K => WakeInv Nothing s.1) _ _ hstart
    fun _ hb lc _ => hb.arenaLoadDone lc

theorem WakeInv.step (h : WakeInv Nothing m) {a : Action K} (hok : WaitersVisited m a)
    (hstep : m.step a = some m') : WakeInv Nothing m' := by
  obtain ⟨s, hs, rfl⟩ := Option.map_eq_some_iff.1 hstep
  cases a with
  | ensureResident key gpu zone cmdSeq =>
    cases hs
    exact h.ensureResident key gpu zone cmdSeq
  | ensureResidents gpu cmdSeq reqs victims =>
    cases hs
    exact WakeInv.ensureResidents gpu cmdSeq reqs victims h
  | requestEvict key gpu =>
    cases hs
    exact h.requestEvict key gpu
  | requestDrain key gpu cmdSeq =>
    cases hs
    exact h.requestDrain key gpu cmdSeq
  | cancel token =>
    cases hs
    exact h.cancel token
  | promote key gpu =>
    cases hs
    exact (h.zoneChange key gpu).1
  | demote key gpu =>
    cases hs
    exact (h.zoneChange key gpu).2
  | poll loads nvme transfers =>
    have hnvme := (WakeInv.nvmeAll nvme (h.startPoll loads) hok).1
    exact foldlM_invariant (P := fun s : Manager.Polling K => WakeInv Nothing s.1) transfers
      (fun _ _ _ _ hb hstep => hb.transferDone hstep) hs hnvme

theorem WakeInv.init (n : ℕ) (layout : ℕ → GpuLayout) (emitProgress : Bool) {answers : ℕ → Answer}
    (hserves : ∀ n, (answers n).Serves) :
    WakeInv Nothing (init n layout emitProgress answers : Manager K) :=
  ⟨Coherent.init n layout emitProgress answers, fun _ _ _ => rfl,
    fun _ _ hint => absurd rfl hint, hserves⟩

/-- **No lost waiter.**  If every answer gets its request on its way, then in every run
in which loops fail at their end only, every entry with interests has a wake-up source,
and a further poll that meets the condition serves every waiter of every NVMe load. -/
theorem noLostWaiter_of_run {n : ℕ} {layout : ℕ → GpuLayout} {emitProgress : Bool}
    {answers : ℕ → Answer} {as : List (Action K)} {m : Manager K}
    (hserves : ∀ n, (answers n).Serves)
    (hrun : GuardedRun Manager.step WaitersVisited (Manager.init n layout emitProgress answers)
      as m) :
    NoLostWaiter m ∧ ∀ loads nvme transfers, WaitersVisited m (.poll loads nvme transfers) →
      ∀ pre nc post, nvme = pre ++ nc :: post → WaitersServed (pre.foldl Manager.nvmeDone
          (loads.foldl Manager.arenaLoadDone m.startPoll)) nc := by
  have hinv : WakeInv Nothing m :=
    hrun.invariant (fun _ _ _ h hok hstep => h.step hok hstep)
      (WakeInv.init n layout emitProgress hserves)
  refine ⟨?_, ?_⟩
  · intro k g hint
    rcases hinv.wakes k g hint with hw | hf
    · exact hw
    · exact hf.elim
  · intro loads nvme transfers hok
    exact (WakeInv.nvmeAll nvme (hinv.startPoll loads) hok).2

/-- Services that read every expert from NVMe and accept every copy. -/
def coldAnswers (_ : ℕ) : Answer := ⟨.cold, some 1, .found, some 1, false, some 1⟩

/-- A run that meets the conditions: three GPUs wait for one load, and its success starts
a copy to each of them. -/
theorem noLostWaiter_of_run_three_waiters : (∀ n, (coldAnswers n).Serves) ∧
    ∃ as, ∃ m : Manager ℕ, GuardedRun Manager.step WaitersVisited
      (Manager.init 3 tinyLayout false coldAnswers) as m ∧
      (∀ g < 3, (m.gpuEntry 0 g).tier = .transferring ∧ (m.gpuEntry 0 g).interests ≠ []) ∧
      NoLostWaiter m := by
  have hserves : ∀ n, (coldAnswers n).Serves :=
    fun _ => .inr (.inr ⟨rfl, .inl (Option.some_ne_none 1)⟩)
  have hrun : GuardedRun step WaitersVisited (init 3 tinyLayout false coldAnswers : Manager ℕ)
      [.ensureResident 0 0 .stable 10, .ensureResident 0 1 .stable 11,
        .ensureResident 0 2 .stable 12, .poll [] [⟨0, true⟩] []] _ :=
    cons trivial rfl (cons trivial rfl (cons trivial rfl (cons ⟨fun he hhe _ w hw => by
          cases hhe
          rw [mem_singleton.1 hw]
          exact ⟨rfl, by decide⟩, trivial⟩
        rfl (nil _))))
  refine ⟨hserves, _, _, hrun, ?_, (noLostWaiter_of_run hserves hrun).1⟩
  decide

/-- Three GPUs wait for one load, and it fails: the first visit erases its waiter from the
vector, the second GPU moves to the place just visited and is skipped.  Its entry keeps
its interest, and nothing will wake it. -/
theorem skipped_waiter :
    ∃ as, ∃ m : Manager ℕ, Run Manager.step (Manager.init 3 tinyLayout false coldAnswers) as m ∧
      ¬ NoLostWaiter m := by
  have hrun : Run step (init 3 tinyLayout false coldAnswers : Manager ℕ)
      [.ensureResident 0 0 .stable 10, .ensureResident 0 1 .stable 11,
        .ensureResident 0 2 .stable 12, .poll [] [⟨0, false⟩] []] _ :=
    Run.cons rfl (Run.cons rfl (Run.cons rfl (Run.cons rfl (nil _))))
  refine ⟨_, _, hrun, ?_⟩
  intro h
  rcases h 0 1 (by decide) with ⟨hload, _⟩ | htrans | ⟨hres, _⟩
  · cases hload
  · cases htrans
  · cases hres

end LayerStorm.Daemon
