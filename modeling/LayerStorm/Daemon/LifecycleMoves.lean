import LayerStorm.Lib.Run
import LayerStorm.Memory.StableResidents
import LayerStorm.Daemon.ExpertLifecycle

/-!
# What the manager's internal moves change

Every entry point of the lifecycle manager is put together from a few moves: start a
copy, revert an entry, answer its interests, reserve a slot.  This module says once
what each of them changes, so that the invariants never unfold them.
-/

namespace LayerStorm.Daemon

open Lib Memory
open Manager

variable {K : Type} [DecidableEq K]

/-! ### The cache -/

section Cache

variable {gs : GpuState K} {k : K}

theorem evict_lookup (hlock : ∀ e, gs.residents.lookup k = some e → e.lockCount = 0) (k' : K)
    (e' : CacheEntry K) : (gs.evict k).1.residents.lookup k' = some e' ↔
      k' ≠ k ∧ gs.residents.lookup k' = some e' := by
  unfold GpuState.evict
  cases hk : gs.residents.lookup k with
  | none =>
    constructor
    · intro h
      refine ⟨?_, h⟩
      rintro rfl
      rw [hk] at h
      cases h
    · exact fun h => h.2
  | some e =>
    have hzero : ¬ 0 < e.lockCount := by
      rw [hlock e hk]
      exact Nat.lt_irrefl 0
    simp only [hzero]
    have hres : (gs.returnSlot e).residents = gs.residents := by
      unfold GpuState.returnSlot
      repeat' split
      all_goals rfl
    show ((gs.returnSlot e).residents.erase k).lookup k' = some e' ↔ _
    rw [hres]
    exact Map.lookup_erase_iff

theorem evict_accepted (hlock : ∀ e, gs.residents.lookup k = some e → e.lockCount = 0) :
    (gs.evict k).2 = true ↔ k ∈ gs.residents := by
  unfold GpuState.evict
  cases hk : gs.residents.lookup k with
  | none =>
    have hmem : k ∉ gs.residents := AList.lookup_eq_none.1 hk
    simp [hmem]
  | some e =>
    have hmem : k ∈ gs.residents := Map.mem_of_lookup hk
    simp [hmem, hlock e hk]

end Cache

/-! ### Starting a copy -/

/-- From `m` to `m'` one entry may have got its copy started or been put on a retry
list; an answer has been read. -/
structure Driven (m m' : Manager K) (k : K) (g : ℕ) : Prop where
  cache : m'.cache = m.cache
  hostEntries : m'.hostEntries = m.hostEntries
  tokenIndex : m'.tokenIndex = m.tokenIndex
  cmdSeqToToken : m'.cmdSeqToToken = m.cmdSeqToToken
  pendingCompletions : m'.pendingCompletions = m.pendingCompletions
  nextToken : m'.nextToken = m.nextToken
  answers : m'.answers = fun n => m.answers (n + 1)
  others : ∀ k' g', ¬ (k' = k ∧ g' = g) → m'.gpuEntries k' g' = m.gpuEntries k' g'
  interests : (m'.gpuEntry k g).interests = (m.gpuEntry k g).interests
  tier : (m'.gpuEntry k g).tier = (m.gpuEntry k g).tier ∨ (m'.gpuEntry k g).tier = .transferring
  arena : ∀ k' gk, gk ∈ m.arenaLoadWaiters k' → gk ∈ m'.arenaLoadWaiters k'
  pressure : ∀ gk, gk ∈ m.slotPressureWaiters → gk ∈ m'.slotPressureWaiters

theorem mem_enlist_of_mem {waiters : List (K × ℕ)} {gk : K × ℕ} (h : gk ∈ waiters) (k : K)
    (g : ℕ) : gk ∈ enlist waiters k g := by
  unfold enlist
  split
  · exact h
  · exact List.mem_append_left _ h

theorem mem_enlist_self (waiters : List (K × ℕ)) (k : K) (g : ℕ) : (k, g) ∈ enlist waiters k g := by
  unfold enlist
  split
  · assumption
  · simp

variable (m : Manager K)

omit [DecidableEq K] in
theorem Driven.asked (k : K) (g : ℕ) : Driven m m.ask k g where
  cache := rfl
  hostEntries := rfl
  tokenIndex := rfl
  cmdSeqToToken := rfl
  pendingCompletions := rfl
  nextToken := rfl
  answers := rfl
  others := fun _ _ _ => rfl
  interests := rfl
  tier := .inl rfl
  arena := fun _ _ h => h
  pressure := fun _ h => h

theorem Driven.marked (k : K) (g token : ℕ) : Driven m (m.ask.markTransferring k g token) k g where
  cache := rfl
  hostEntries := rfl
  tokenIndex := rfl
  cmdSeqToToken := rfl
  pendingCompletions := rfl
  nextToken := rfl
  answers := rfl
  others := fun _ _ hne => gpuEntries_setGpuEntry_of_ne _ _ hne
  interests := by
    unfold markTransferring
    rw [gpuEntry_setGpuEntry, if_pos ⟨rfl, rfl⟩]
    rfl
  tier := by
    unfold markTransferring
    rw [gpuEntry_setGpuEntry, if_pos ⟨rfl, rfl⟩]
    exact .inr rfl
  arena := fun _ _ h => h
  pressure := fun _ h => h

theorem driven_tryStartH2d (k : K) (g : ℕ) : Driven m (m.tryStartH2d k g) k g := by
  have hasked := Driven.asked m k g
  unfold tryStartH2d
  simp only
  split
  · refine { hasked with arena := ?_ }
    intro k' gk hgk
    by_cases hk : k' = k
    · subst hk
      simp only [Function.update_self]
      exact mem_enlist_of_mem hgk _ _
    · simp only [Function.update_of_ne hk]
      exact hgk
  · refine { hasked with pressure := ?_ }
    intro gk hgk
    exact mem_enlist_of_mem hgk _ _
  · exact hasked
  split
  · split
    · rename_i token _
      have hmarked := Driven.marked m k g token
      split
      · exact hmarked
      split
      · exact { hmarked with }
      · exact hmarked
    · split
      · exact Driven.marked m k g 0
      · exact hasked
  · exact hasked

/-- The answer gets a request on its way: the source is being loaded or waits for the
arena, or it is there and the copy is accepted or in flight already. -/
def Answer.Serves (a : Answer) : Prop :=
  a.hostSource = .pending ∨ a.hostSource = .backpressure ∨
    (a.hostSource = .found ∧ (a.enqueueH2d ≠ none ∨ a.inflightH2d = true))

theorem tryStartH2d_serves {m : Manager K} {k : K} {g : ℕ}
    (hres : k ∈ (m.cache.gpus g).residents) (hserve : (m.answers 0).Serves) :
    ((m.tryStartH2d k g).gpuEntry k g).tier = .transferring ∨
      (m.tryStartH2d k g).gpuEntry k g = m.gpuEntry k g ∧
      (((m.answers 0).hostSource = .pending ∧ (k, g) ∈ (m.tryStartH2d k g).arenaLoadWaiters k) ∨
        ((m.answers 0).hostSource = .backpressure ∧
          (k, g) ∈ (m.tryStartH2d k g).slotPressureWaiters)) := by
  unfold tryStartH2d
  rcases hserve with hs | hs | ⟨hs, hcopy⟩
  · simp only [hs]
    refine .inr ⟨rfl, .inl ⟨trivial, ?_⟩⟩
    simp only [Function.update_self]
    exact mem_enlist_self _ k g
  · simp only [hs]
    exact .inr ⟨rfl, .inr ⟨trivial, mem_enlist_self _ k g⟩⟩
  have hres' : k ∈ (m.ask.cache.gpus g).residents := hres
  have hmarked : ∀ token, ((m.ask.markTransferring k g token).gpuEntry k g).tier =
      .transferring := by
    intro token
    unfold markTransferring
    rw [gpuEntry_setGpuEntry, if_pos ⟨rfl, rfl⟩]
  left
  simp only [hs, hres', if_true]
  cases he : (m.answers 0).enqueueH2d with
  | some token =>
    simp only
    split
    · exact hmarked token
    split
    · exact hmarked token
    · exact hmarked token
  | none =>
    have hin : (m.answers 0).inflightH2d = true := by
      rcases hcopy with hne | hin
      · exact absurd he hne
      · exact hin
    simp only [hin]
    exact hmarked 0

/-! ### Reverting an entry -/

/-- From `m` to `m'` one entry has been given up. -/
structure Reverted (m m' : Manager K) (k : K) (g : ℕ) : Prop where
  cache : m'.cache =
    if (m.gpuEntry k g).tier = .transferring ∨ (m.gpuEntry k g).tier = .reserved ∨
      (m.gpuEntry k g).tier = .draining then (m.evictSlot k g).cache else m.cache
  hostTier : ∀ k', (m'.hostEntry k').tier = (m.hostEntry k').tier
  nvmeToken : ∀ k', (m'.hostEntry k').nvmeToken = (m.hostEntry k').nvmeToken
  waiters : ∀ k', (m'.hostEntry k').gpuWaiters =
    if k' = k then (m.hostEntry k').gpuWaiters.filter fun w => w.gpuIdx ≠ g
    else (m.hostEntry k').gpuWaiters
  tokenIndex : m'.tokenIndex = m.tokenIndex
  cmdSeqToToken : m'.cmdSeqToToken = m.cmdSeqToToken
  pendingCompletions : m'.pendingCompletions = m.pendingCompletions
  nextToken : m'.nextToken = m.nextToken
  answers : m'.answers = m.answers
  others : ∀ k' g', ¬ (k' = k ∧ g' = g) → m'.gpuEntries k' g' = m.gpuEntries k' g'
  interests : (m'.gpuEntry k g).interests = (m.gpuEntry k g).interests
  tier : (m'.gpuEntry k g).tier = .absent
  arena : m'.arenaLoadWaiters = m.arenaLoadWaiters
  pressure : m'.slotPressureWaiters = m.slotPressureWaiters

theorem reverted_revertGpuEntry (k : K) (g : ℕ) : Reverted m (m.revertGpuEntry k g) k g := by
  unfold revertGpuEntry
  simp only
  -- the state before the host entry is written
  generalize hm₁ : setGpuEntry _ k g _ = m₁
  obtain ⟨c, d, hcache, rfl⟩ : ∃ c d,
      c = (if (m.gpuEntry k g).tier = .transferring ∨ (m.gpuEntry k g).tier = .reserved ∨
        (m.gpuEntry k g).tier = .draining then (m.evictSlot k g).cache else m.cache) ∧
      m₁ = ({ m with cache := c } : Manager K).setGpuEntry k g
        ⟨.absent, 0, (m.gpuEntry k g).interests, d⟩ := by
    refine ⟨_, if (m.gpuEntry k g).tier = .draining then 0 else (m.gpuEntry k g).drainCmdSeq,
      rfl, ?_⟩
    rw [← hm₁]
    cases ht : (m.gpuEntry k g).tier <;> rfl
  have hself : (({ m with cache := c } : Manager K).setGpuEntry k g
      ⟨.absent, 0, (m.gpuEntry k g).interests, d⟩).gpuEntry k g =
        ⟨.absent, 0, (m.gpuEntry k g).interests, d⟩ := by
    rw [gpuEntry_setGpuEntry, if_pos ⟨rfl, rfl⟩]
  have hhost : (({ m with cache := c } : Manager K).setGpuEntry k g
      ⟨.absent, 0, (m.gpuEntry k g).interests, d⟩).hostEntries k = m.hostEntries k := rfl
  rw [hhost]
  cases hk : m.hostEntries k with
  | none =>
    refine ⟨hcache, fun _ => rfl, fun _ => rfl, ?_, rfl, rfl, rfl, rfl, rfl, ?_, ?_, ?_, rfl, rfl⟩
    · intro k'
      by_cases heq : k' = k
      · subst heq
        simp [hostEntry, setGpuEntry, hk]
      · rw [if_neg heq]
        rfl
    · exact fun k' g' hne => gpuEntries_setGpuEntry_of_ne _ _ hne
    · rw [hself]
    · rw [hself]
  | some he =>
    have hentry := hostEntry_of_some hk
    refine ⟨hcache, ?_, ?_, ?_, rfl, rfl, rfl, rfl, rfl, ?_, ?_, ?_, rfl, rfl⟩
    · intro k'
      by_cases heq : k' = k
      · subst heq
        simp [hentry]
      · simp only [hostEntry_setHostEntry, heq]
        rfl
    · intro k'
      by_cases heq : k' = k
      · subst heq
        simp [hentry]
      · simp only [hostEntry_setHostEntry, heq]
        rfl
    · intro k'
      by_cases heq : k' = k
      · subst heq
        simp [hentry]
      · simp only [hostEntry_setHostEntry, heq]
        rfl
    · exact fun k' g' hne => gpuEntries_setGpuEntry_of_ne _ _ hne
    · rw [gpuEntry_setHostEntry, hself]
    · rw [gpuEntry_setHostEntry, hself]

omit [DecidableEq K] in
theorem foldl_unindex (l : List Interest) : ∀ m : Manager K, l.foldl unindex m = { m with
      tokenIndex := fun t => if t ∈ l.map (·.token) then none else m.tokenIndex t
      cmdSeqToToken := m.cmdSeqToToken.diff (l.map fun i => (i.cmdSeq, i.token)) } := by
  induction l with
  | nil =>
    intro m
    simp
  | cons i l ih =>
    intro m
    rw [List.foldl_cons, ih]
    simp only [unindex, List.map_cons, List.diff_cons, List.mem_cons]
    congr 1
    funext t
    by_cases ht : t ∈ l.map (·.token)
    · simp [ht]
    by_cases hti : t = i.token
    · subst hti
      simp
    · simp [ht, hti]

/-- An entry without its interests, which are in no index any more. -/
def Manager.cleared (k : K) (g : ℕ) : Manager K :=
  let ge := m.gpuEntry k g
  Manager.setGpuEntry { m with
      tokenIndex := fun t => if t ∈ ge.interests.map (·.token) then none else m.tokenIndex t
      cmdSeqToToken := m.cmdSeqToToken.diff (ge.interests.map fun i => (i.cmdSeq, i.token)) }
    k g { ge with interests := [] }

/-- **`completeInterests`** answers and clears the interests, and reverts the entry on
failure. -/
theorem completeInterests_eq (k : K) (g : ℕ) (success : Bool) : m.completeInterests k g success =
      (if success then m.cleared k g else (m.cleared k g).revertGpuEntry k g,
        (m.gpuEntry k g).interests.map fun i => ⟨i.token, i.cmdSeq, k, g, success, false⟩) := by
  unfold completeInterests cleared
  simp only [foldl_unindex]

@[simp] theorem Manager.cleared_gpuEntry (k : K) (g : ℕ) (k' : K) (g' : ℕ) :
    (m.cleared k g).gpuEntry k' g' =
      if k' = k ∧ g' = g then { m.gpuEntry k g with interests := [] } else m.gpuEntry k' g' :=
  gpuEntry_setGpuEntry _ _ _ _ _ _

/-! ### Taking a slot -/

theorem Manager.takeSlot_gpuEntry (k : K) (g : ℕ) (zone : CacheZone) (k' : K)
    (g' : ℕ) : (m.takeSlot k g zone).gpuEntry k' g' =
      if k' = k ∧ g' = g then { m.gpuEntry k g with tier := .reserved } else m.gpuEntry k' g' :=
  gpuEntry_setGpuEntry _ _ _ _ _ _

/-! ### Registering a request -/

theorem gpuEntry_register (k : K) (g cmdSeq : ℕ) (k' : K) (g' : ℕ) :
    (m.register k g cmdSeq).gpuEntry k' g' = m.gpuEntry k' g' := by
  have hissue : (m.issueToken k g cmdSeq).gpuEntry k' g' = m.gpuEntry k' g' := by
    unfold issueToken
    simp only [gpuEntry_setGpuEntry]
    split
    · rename_i heq
      rw [heq.1, heq.2]
    · rfl
  unfold register initHostTier
  simp only
  split <;> exact hissue

theorem hostEntry_register_of_loading {m : Manager K} {k' : K}
    (hload : (m.hostEntry k').tier = .loadingToRam) (k : K) (g cmdSeq : ℕ) :
    (m.register k g cmdSeq).hostEntry k' = m.hostEntry k' := by
  have hissue : ∀ k', (m.issueToken k g cmdSeq).hostEntry k' = m.hostEntry k' := fun _ => rfl
  unfold register initHostTier
  simp only [hissue]
  split
  · rename_i hcold
    rw [hostEntry_setHostEntry, if_neg]
    · rfl
    · rintro rfl
      exact absurd (hcold.1.symm.trans hload) HostTier.noConfusion
  · rw [hostEntry_setHostEntry]
    split
    · rename_i hk
      rw [hk]
    · rfl

end LayerStorm.Daemon
