import LayerStorm.Lib.Run
import LayerStorm.Memory.StableResidents
import LayerStorm.GpuLoader.BoardUpdates

/-!
# The board mirrors the cache

A fresh board registered at a cache without residents holds, at every later time,
exactly the stable-zone residents of the cache: every call of the cache announces
what it does to the stable zone, the listener follows the announcements, and the
score feeds never insert or remove an entry.  The board's own consistency check
passes throughout.

## Main results

* `board_mirrors_cache` — so every run does.
-/

namespace LayerStorm.GpuLoader

open Lib Memory

variable {K R : Type} [DecidableEq K] [Score R]
variable {layout : ℕ → GpuLayout} {s s' : Mirrored K R}

/-- **The board mirrors the cache.** -/
structure MirrorInv (s : Mirrored K R) : Prop where
  board : BoardInv s.board
  numGpus : s.board.numGpus = s.cache.gpuCount
  mirror : ∀ g < s.cache.gpuCount, ∀ k, k ∈ (s.board.gpus g).keyToSlot ↔ (s.cache.gpus g).Stable k

theorem MirrorInv.register {cache : ExpertCache K} (hempty : ∀ g, (cache.gpus g).residents = ∅)
    (baseScore : R) : MirrorInv (Mirrored.register cache baseScore) where
  board := BoardInv.init _ _
  numGpus := rfl
  mirror := by
    intro g _ k
    simp [Mirrored.register, EvictScoreBoard.init, PerGpu.empty, GpuState.Stable, hempty]

variable {b : EvictScoreBoard K R}

theorem onResident_announces {gpu : ℕ} (h : BoardInv b) (hg : gpu < b.numGpus) {S S' : K → Prop}
    {es : List (ResidencyEvent K)} (ha : Announces gpu S S' es)
    (hS : ∀ k, k ∈ (b.gpus gpu).keyToSlot ↔ S k) :
    let b' := es.foldl EvictScoreBoard.onResident b
    BoardInv b' ∧ b'.numGpus = b.numGpus ∧ (∀ k, k ∈ (b'.gpus gpu).keyToSlot ↔ S' k) ∧
      ∀ g, g ≠ gpu → ∀ k, k ∈ (b'.gpus g).keyToSlot ↔ k ∈ (b.gpus g).keyToSlot := by
  rcases ha with ⟨rfl, hS'⟩ | ⟨k, rfl, hS'⟩ | ⟨k, rfl, hS'⟩
  · exact ⟨h, rfl, fun k => (hS k).trans (hS' k).symm, fun _ _ _ => Iff.rfl⟩
  · simp only [List.foldl_cons, List.foldl_nil, EvictScoreBoard.onResident, if_pos hg]
    obtain ⟨hinv, hnum, hmem⟩ := h.upsert hg k b.recencyClock
    refine ⟨hinv, hnum, ?_, ?_⟩
    · intro k'
      rw [hmem, hS', hS]
      simp
    · intro g hne k'
      rw [hmem]
      simp [hne]
  · simp only [List.foldl_cons, List.foldl_nil, EvictScoreBoard.onResident]
    obtain ⟨hinv, hnum, hmem⟩ := h.evict gpu k
    refine ⟨hinv, hnum, ?_, ?_⟩
    · intro k'
      rw [hmem hg, hS', hS]
      simp
    · intro g hne k'
      rw [hmem hg]
      simp [hne]

theorem MirrorInv.cacheStep (h : MirrorInv s) {gpu : ℕ} {op : CacheOp K}
    (hstep : s.step layout (.cache gpu op) = some s') : MirrorInv s' := by
  simp only [Mirrored.step, Option.map_eq_some_iff] at hstep
  obtain ⟨cache, hcache, rfl⟩ := hstep
  unfold ExpertCache.step at hcache
  split at hcache
  · rename_i hgpu
    simp only [Option.map_eq_some_iff] at hcache
    obtain ⟨gs', happly, rfl⟩ := hcache
    have hevents : ((s.cache.commit gpu op gs').events.drop s.cache.events.length) =
        (s.cache.gpus gpu).notifications gpu op := by
      simp [ExpertCache.commit]
    obtain ⟨hinv, hnum, hhere, hother⟩ := onResident_announces h.board (h.numGpus ▸ hgpu)
      (GpuState.announces_apply op happly) (h.mirror gpu hgpu)
    simp only [hevents]
    refine ⟨hinv, hnum.trans h.numGpus, ?_⟩
    intro g hg k
    show _ ↔ (Function.update s.cache.gpus gpu gs' g).Stable k
    by_cases hne : g = gpu
    · subst hne
      rw [Function.update_self]
      exact hhere k
    · rw [Function.update_of_ne hne]
      exact (hother g hne k).trans (h.mirror g hg k)
  · simp only [Option.some.injEq] at hcache
    subst hcache
    simpa using h

theorem MirrorInv.feed (h : MirrorInv s) (hb : BoardInv b ∧ SameResidents s.board b) :
    MirrorInv { s with board := b } where
  board := hb.1
  numGpus := hb.2.numGpus.trans h.numGpus
  mirror := by
    intro g hg k
    rw [hb.2.keyToSlot]
    exact h.mirror g hg k

variable {a : MirrorAction K R}

theorem MirrorInv.step (h : MirrorInv s) (hstep : s.step layout a = some s') : MirrorInv s' := by
  cases a with
  | cache gpu op => exact h.cacheStep hstep
  | touchExisting gpu key =>
    cases hstep
    exact h.feed (h.board.touchExisting gpu key)
  | touchExistingAll key rawBonus =>
    cases hstep
    exact h.feed (h.board.touchExistingAll key rawBonus)
  | updateExistingOnly ups =>
    cases hstep
    exact h.feed (h.board.updateExistingOnly ups)
  | advanceRecency =>
    cases hstep
    exact h.feed h.board.advanceRecency
  | decayAll factor =>
    cases hstep
    exact h.feed (h.board.decayAll factor)
  | setBaseScore v =>
    cases hstep
    exact h.feed (h.board.setBaseScore v)

theorem gpuCount_step (hstep : s.step layout a = some s') :
    s'.cache.gpuCount = s.cache.gpuCount := by
  cases a with
  | cache gpu op =>
    simp only [Mirrored.step, Option.map_eq_some_iff] at hstep
    obtain ⟨cache, hcache, rfl⟩ := hstep
    unfold ExpertCache.step at hcache
    split at hcache
    · simp only [Option.map_eq_some_iff] at hcache
      obtain ⟨gs', _, rfl⟩ := hcache
      rfl
    · cases hcache
      rfl
  | touchExisting gpu key | touchExistingAll key rawBonus | updateExistingOnly ups
  | advanceRecency | decayAll factor | setBaseScore v => cases hstep; rfl

/-- **The board mirrors the cache**: registered at a cache without residents, it holds
the stable residents of every GPU and passes its own check after every sequence of
cache calls and score feeds. -/
theorem board_mirrors_cache {cache : ExpertCache K}
    (hempty : ∀ g, (cache.gpus g).residents = ∅) (baseScore : R)
    {acts : List (MirrorAction K R)}
    (hrun : Run (Mirrored.step layout) (Mirrored.register cache baseScore) acts s) :
    ∀ g < cache.gpuCount, (∀ k, k ∈ (s.board.gpus g).keyToSlot ↔
        ∃ e, (s.cache.gpus g).residents.lookup k = some e ∧ e.zone = .stable) ∧
      s.board.checkInvariant g = true := by
  obtain ⟨hinv, hcount⟩ : MirrorInv s ∧ s.cache.gpuCount = cache.gpuCount := by
    refine hrun.invariant (I := fun t => MirrorInv t ∧ t.cache.gpuCount = cache.gpuCount) ?_
      ⟨MirrorInv.register hempty baseScore, rfl⟩
    intro t a u ht _ hstep
    exact ⟨ht.1.step hstep, (gpuCount_step hstep).trans ht.2⟩
  intro g hg
  rw [← hcount] at hg
  exact ⟨hinv.mirror g hg, hinv.board.checkInvariant (hinv.numGpus ▸ hg)⟩

def twoSlotLayout : GpuLayout where
  expertBytes := 4096
  expertBytes_pos := Nat.succ_pos 4095
  expertStable := 4096
  expertStableBytes := 8192
  expertStreaming := 16384
  streamingSpillBytes := 4096
  streamingPrefetchBytes := 4096
  disjoint := by decide

/-- Two copies of an expert, a touch, a decay, a demotion and a new base score. -/
theorem board_mirrors_cache_replicated : ∃ s : Mirrored ℕ ℚ,
    Run (Mirrored.step fun _ => twoSlotLayout)
      (Mirrored.register (ExpertCache.init 2 fun _ => twoSlotLayout) (9 / 10))
      [.cache 0 (.reserve 7 .stable false), .advanceRecency, .cache 1 (.reserve 7 .stable true),
        .cache 1 (.reserve 8 .streaming false), .cache 1 (.promote 8), .touchExistingAll 7 2,
        .decayAll (1 / 2), .cache 0 (.demote 7), .setBaseScore 3] s ∧
    (∃ e, (s.cache.gpus 1).residents.lookup 8 = some e ∧ e.zone = .stable) ∧
    8 ∈ (s.board.gpus 1).keyToSlot ∧ s.board.checkInvariant 0 = true ∧
    s.board.checkInvariant 1 = true := by
  obtain ⟨s, hs, hstable⟩ : ∃ s : Mirrored ℕ ℚ, List.foldlM (Mirrored.step fun _ => twoSlotLayout)
        (Mirrored.register (ExpertCache.init 2 fun _ => twoSlotLayout) (9 / 10))
        [.cache 0 (.reserve 7 .stable false), .advanceRecency,
          .cache 1 (.reserve 7 .stable true), .cache 1 (.reserve 8 .streaming false),
          .cache 1 (.promote 8), .touchExistingAll 7 2, .decayAll (1 / 2), .cache 0 (.demote 7),
          .setBaseScore 3] = some s ∧
        ((s.cache.gpus 1).residents.lookup 8).any (fun e => e.zone = .stable) = true :=
    ⟨_, rfl, by decide⟩
  have hrun := Run.of_foldlM hs
  have h := board_mirrors_cache (fun _ => rfl) (9 / 10) hrun
  have hcopy := (h 1 (by decide)).1 8
  rw [Option.any_eq_true] at hstable
  obtain ⟨e, he, hz⟩ := hstable
  have hin : ∃ e, (s.cache.gpus 1).residents.lookup 8 = some e ∧ e.zone = .stable :=
    ⟨e, he, of_decide_eq_true hz⟩
  exact ⟨s, hrun, hin, hcopy.2 hin, (h 0 (by decide)).2, (h 1 (by decide)).2⟩

end LayerStorm.GpuLoader
