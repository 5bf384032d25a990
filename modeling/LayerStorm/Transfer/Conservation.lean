import LayerStorm.Transfer.Containers

/-!
# Token conservation in the transfer engine

Whatever sequence of calls is made and however the device events fire, no
transfer is lost, duplicated or finished twice: every token issued is in exactly
one of five states, the dedup map holds exactly the live transfers, a pinned slot
is in use exactly when one pending transfer refers to it, and the bin counters are
the numbers of staged transfers.

Every operation is a sequence of a few moves on one transfer: it is staged,
dispatched, finished, or its cancellation is granted.  The invariant `Inv` has one
lemma per move; the operations are loops over moves.

## Main results

* `conserved_of_run` — conservation after every sequence of calls.
* `drain_idle` — **a drain is a barrier**.
-/

namespace LayerStorm.Transfer

open Lib
open Engine List Function Map

variable {K P : Type} [DecidableEq K] [LinearOrder P]
variable {Q : PriorityQueue fun x y : StagedTransfer K P => x.priority < y.priority}
variable {opts : Options P}

/-! ### The property -/

inductive TokenState
  | staged
  | pendingLive
  | pendingCancelled
  | completed
  | cancelled
  deriving DecidableEq

/-- The tokens reported by polls. -/
def Engine.completedTokens (e : Engine K P) : List ℕ := e.completed.map (·.token)

/-- The tokens whose callback has run, in order. -/
def Engine.callbackTokens (e : Engine K P) : List ℕ := e.callbacks.map Prod.fst

/-- A token's state, read off the containers. -/
def InState (opts : Options P) (e : Engine K P) (t : ℕ) : TokenState → Prop
  | .staged => ∃ gpu < opts.numGpus, ∃ st ∈ e.staged gpu, st.token = t
  | .pendingLive => ∃ pt, e.pending.lookup t = some pt ∧ pt.cancelled = false
  | .pendingCancelled => ∃ pt, e.pending.lookup t = some pt ∧ pt.cancelled = true
  | .completed => t ∈ e.completedTokens
  | .cancelled => t ∈ e.cancelled

/-- The token is live under the key: staged, or pending and not cancelled. -/
def Live (e : Engine K P) (k : InFlightKey K) (t : ℕ) : Prop :=
  LiveStaged e.staged k t ∨ LivePending e.pending k t

/-- **Token conservation.** -/
structure Conserved (opts : Options P) (e : Engine K P) : Prop where
  /-- Every issued token is in exactly one state. -/
  oneState : ∀ t, 1 ≤ t → t < e.nextToken → ∃! s, InState opts e t s
  /-- It is there once: the queues and the reports hold no token twice. -/
  once : (∀ gpu < opts.numGpus, ((e.staged gpu).map (·.token)).Nodup) ∧
    e.completedTokens.Nodup ∧ e.cancelled.Nodup
  callbackOnce : e.callbackTokens.Nodup
  noCallbackAfterCancel : ∀ t ∈ e.cancelGranted, t ∉ e.callbackTokens
  /-- The dedup map holds exactly the live tokens. -/
  inflightLive : ∀ k t, e.inflight.lookup k = some t ↔ Live e k t
  /-- There is at most one live token per key. -/
  oneLive : ∀ k t t', Live e k t → Live e k t' → t = t'
  /-- A slot in use is referred to by one pending transfer. -/
  slotInUse : ∀ i s, e.pinnedPool[i]? = some s → (s.inUse = true ↔ ∃! t, RefersTo e.pending t i)
  slotFree : ∀ i s, e.pinnedPool[i]? = some s → s.inUse = false → ∀ t, ¬ RefersTo e.pending t i
  bins : ∀ gpu < opts.numGpus, ∀ bin, e.stagedBinCounts gpu bin =
    (e.staged gpu).countP fun st => binFor opts st.priority = bin

/-! ### The invariant -/

/-- The number of places a token is found in. -/
def Engine.tally (e : Engine K P) (t : ℕ) : ℕ :=
  (if t ∈ e.stagedTokenGpu then 1 else 0) + (if t ∈ e.pending then 1 else 0) +
    e.completedTokens.count t + e.cancelled.count t

/-- **The engine's invariant.** -/
structure Inv (opts : Options P) (e : Engine K P) : Prop where
  nextPos : 1 ≤ e.nextToken
  account : ∀ t, e.tally t = if 1 ≤ t ∧ t < e.nextToken then 1 else 0
  staged : StagedInv opts e.staged e.stagedTokenGpu e.stagedBinCounts
  slots : SlotInv e.pinnedPool e.pending
  inflight : e.inflight.Represents (Live e)
  pendingToken : ∀ t pt, e.pending.lookup t = some pt → pt.token = t
  callbackOnce : e.callbackTokens.Nodup
  callbackDone : ∀ t ∈ e.callbackTokens, t ∈ e.completedTokens
  granted : ∀ t ∈ e.cancelGranted,
    t ∈ e.cancelled ∨ ∃ pt, e.pending.lookup t = some pt ∧ pt.cancelled = true

theorem Inv.init : Inv opts (Engine.init : Engine K P) where
  nextPos := Nat.le_refl 1
  account := by
    intro t
    rw [if_neg (by simp only [Engine.init]; omega)]
    simp [Engine.tally, Engine.init, Engine.completedTokens]
  staged := ⟨by simp [Engine.init], by simp [Engine.init], by simp [Engine.init],
    by simp [Engine.init]⟩
  slots := ⟨by simp [Engine.init, SlotBusy, RefersTo], by simp [Engine.init, RefersTo]⟩
  inflight := by
    intro k t
    simp [Engine.init, Live, LiveStaged, LivePending]
  pendingToken := by simp [Engine.init]
  callbackOnce := nodup_nil
  callbackDone := by simp [Engine.init, Engine.callbackTokens]
  granted := by simp [Engine.init]

variable {e : Engine K P}

theorem Inv.tally_le (h : Inv opts e) (t : ℕ) : e.tally t ≤ 1 := by
  rw [h.account t]
  split <;> omega

theorem Inv.fresh (h : Inv opts e) : e.nextToken ∉ e.stagedTokenGpu ∧ e.nextToken ∉ e.pending := by
  have htally := h.account e.nextToken
  rw [if_neg (by omega)] at htally
  unfold tally at htally
  constructor
  · intro hmem
    rw [if_pos hmem] at htally
    omega
  · intro hmem
    rw [if_pos hmem] at htally
    omega

variable {t : ℕ}

theorem Inv.notMem_pending (h : Inv opts e) (ht : t ∈ e.stagedTokenGpu) : t ∉ e.pending := by
  intro hmem
  have htally := h.tally_le t
  unfold tally at htally
  rw [if_pos ht, if_pos hmem] at htally
  omega

theorem Inv.not_liveStaged (h : Inv opts e) (ht : t ∈ e.pending) (k : InFlightKey K) :
    ¬ LiveStaged e.staged k t := by
  rintro ⟨st, hst, rfl, _⟩
  exact h.notMem_pending (mem_of_lookup (h.staged.entry _ st hst).2.2) ht

/-! ### Moves -/

variable {gpu : ℕ} {l : List (StagedTransfer K P)}

theorem Inv.perm (h : Inv opts e) (hl : l.Perm (e.staged gpu)) :
    Inv opts { e with staged := update e.staged gpu l } := by
  refine { h with staged := h.staged.perm hl, inflight := h.inflight.congr ?_ }
  intro k t
  have hmem : ∀ st, st ∈ update e.staged gpu l k.gpuIdx ↔ st ∈ e.staged k.gpuIdx := by
    intro st
    by_cases hg : k.gpuIdx = gpu
    · rw [hg, update_self, hl.mem_iff]
    · rw [update_of_ne hg]
  simp only [Live, LiveStaged, hmem]

variable {tally' : ℕ → ℕ}

theorem Inv.account_issue (h : Inv opts e) (hself : tally' e.nextToken = e.tally e.nextToken + 1)
    (hother : ∀ t, t ≠ e.nextToken → tally' t = e.tally t) (t : ℕ) :
    tally' t = if 1 ≤ t ∧ t < e.nextToken + 1 then 1 else 0 := by
  have hpos := h.nextPos
  by_cases ht : t = e.nextToken
  · subst ht
    rw [hself, h.account, if_neg (by omega), if_pos (by omega)]
  · have hiff : (1 ≤ t ∧ t < e.nextToken + 1) ↔ (1 ≤ t ∧ t < e.nextToken) := by omega
    simp only [hother t ht, h.account t, hiff]

theorem Inv.stage (h : Inv opts e) (st : StagedTransfer K P) (htoken : st.token = e.nextToken)
    (hgpu : st.gpuIdx < opts.numGpus) (hkey : st.inFlightKey ∉ e.inflight)
    (hl : l.Perm (st :: e.staged st.gpuIdx)) :
    Inv opts { e with
      nextToken := e.nextToken + 1
      inflight := e.inflight.insert st.inFlightKey st.token
      staged := update e.staged st.gpuIdx l
      stagedTokenGpu := e.stagedTokenGpu.insert st.token st.gpuIdx
      stagedBinCounts := bumpBin e.stagedBinCounts st.gpuIdx (binFor opts st.priority) 1 } := by
  obtain ⟨hidx, hpend⟩ := h.fresh
  refine ⟨Nat.le_succ_of_le h.nextPos, h.account_issue ?_ ?_, h.staged.push (htoken ▸ hidx) hgpu hl,
    h.slots, h.inflight.insert hkey ?_, h.pendingToken, h.callbackOnce, h.callbackDone, h.granted⟩
  · simp [tally, completedTokens, htoken, hidx]
    omega
  · intro t ht
    simp [tally, completedTokens, htoken, ht]
  · intro k t
    simp only [Live, liveStaged_push e.staged hl]
    exact or_right_comm

theorem Inv.launch (h : Inv opts e) (pt : PendingTransfer K P) (htoken : pt.token = e.nextToken)
    (hlive : pt.cancelled = false) (hkey : pt.inFlightKey ∉ e.inflight) (needs : Bool)
    (hslot : pt.pinnedSlotIdx = (stageThroughPool e.pinnedPool needs pt.direction pt.bytes).1) :
    Inv opts { e with
      nextToken := e.nextToken + 1
      inflight := e.inflight.insert pt.inFlightKey pt.token
      pinnedPool := (stageThroughPool e.pinnedPool needs pt.direction pt.bytes).2
      pending := e.pending.insert pt.token pt } := by
  obtain ⟨hidx, hpend⟩ := h.fresh
  have hfresh : pt.token ∉ e.pending := htoken ▸ hpend
  refine ⟨Nat.le_succ_of_le h.nextPos, h.account_issue ?_ ?_, h.staged,
    h.slots.dispatch hfresh needs _ _ hslot, h.inflight.insert hkey ?_, ?_, h.callbackOnce,
    h.callbackDone, ?_⟩
  · simp [tally, completedTokens, htoken, hpend]
    omega
  · intro t ht
    simp [tally, completedTokens, htoken, ht]
  · intro k t
    simp only [Live, livePending_insert hfresh hlive]
    exact or_assoc.symm
  · intro t p hp
    rcases lookup_insert_iff.1 hp with ⟨rfl, rfl⟩ | ⟨_, hold⟩
    · rfl
    · exact h.pendingToken t p hold
  · intro t ht
    rcases h.granted t ht with hdone | ⟨p, hp, hc⟩
    · exact .inl hdone
    refine .inr ⟨p, lookup_insert_iff.2 (.inr ⟨?_, hp⟩), hc⟩
    rintro rfl
    exact hfresh (mem_of_lookup hp)

theorem Inv.account_move (h : Inv opts e) (hsame : ∀ t, tally' t = e.tally t) (t : ℕ) :
    tally' t = if 1 ≤ t ∧ t < e.nextToken then 1 else 0 := by
  rw [hsame t, h.account t]

variable {rest : List (StagedTransfer K P)} {st : StagedTransfer K P}

theorem Inv.dispatch (h : Inv opts e) (hl : (e.staged gpu).Perm (st :: rest)) :
    Inv opts (dispatchStaged opts { e with staged := update e.staged gpu rest } st) := by
  have hst : st ∈ e.staged gpu := hl.mem_iff.2 mem_cons_self
  obtain ⟨rfl, _, hidx⟩ := h.staged.entry gpu st hst
  have hstaged : st.token ∈ e.stagedTokenGpu := mem_of_lookup hidx
  have hpend : st.token ∉ e.pending := h.notMem_pending hstaged
  refine ⟨h.nextPos, h.account_move ?_, h.staged.remove hl,
    h.slots.dispatch hpend st.needsPinnedStaging _ _ rfl, h.inflight.congr ?_, ?_,
    h.callbackOnce, h.callbackDone, ?_⟩
  · intro t
    by_cases ht : t = st.token
    · subst ht
      simp [dispatchStaged, tally, completedTokens, hstaged, hpend]
    · simp [dispatchStaged, tally, completedTokens, ht]
  · intro k t
    -- the transfer leaves the queue and enters the pending map under the same key
    rw [Live, Live, liveStaged_remove hl k t]
    refine (or_congr_right (livePending_insert hpend rfl k t)).trans ?_
    rw [or_right_comm, ← or_assoc]
    rfl
  · intro t p hp
    rcases lookup_insert_iff.1 hp with ⟨rfl, rfl⟩ | ⟨_, hold⟩
    · rfl
    · exact h.pendingToken t p hold
  · intro t ht
    rcases h.granted t ht with hdone | ⟨p, hp, hc⟩
    · exact .inl hdone
    refine .inr ⟨p, lookup_insert_iff.2 (.inr ⟨?_, hp⟩), hc⟩
    rintro rfl
    exact hpend (mem_of_lookup hp)

theorem Inv.notMem_completed (h : Inv opts e) (ht : t ∈ e.pending) : t ∉ e.completedTokens := by
  intro hmem
  have htally := h.tally_le t
  have hcount := count_pos_iff.2 hmem
  unfold tally at htally
  rw [if_pos ht] at htally
  omega

variable {pt : PendingTransfer K P}

section

variable (h : Inv opts e)
include h

theorem Inv.finishLive (hpt : e.pending.lookup t = some pt) (hlive : pt.cancelled = false)
    (success : Bool) :
    Inv opts { e with
      callbacks := if pt.callback then e.callbacks ++ [(pt.token, success)] else e.callbacks
      completed := e.completed ++ [⟨pt.token, pt.key, pt.gpuIdx, pt.direction, pt.bytes, success⟩]
      pinnedPool := releasePinnedSlot e.pinnedPool pt.pinnedSlotIdx
      inflight := e.inflight.erase pt.inFlightKey
      pending := e.pending.erase t } := by
  have hmem : t ∈ e.pending := mem_of_lookup hpt
  have htok : pt.token = t := h.pendingToken t pt hpt
  have hnot : t ∉ e.completedTokens := h.notMem_completed hmem
  refine ⟨h.nextPos, h.account_move ?_, h.staged, h.slots.finish hpt, h.inflight.erase t ?_ ?_,
    ?_, ?_, ?_, ?_⟩
  · intro u
    by_cases hu : u = t
    · subst hu
      simp [tally, completedTokens, htok, hmem]
      omega
    · simp [tally, completedTokens, htok, hu, Ne.symm hu]
  · intro k u
    have hlose := livePending_lose (e.pending.erase t) hpt hlive
      (fun u hu => AList.lookup_erase_ne hu) (by simp) k u
    simp only [Live, hlose]
    exact or_assoc.symm
  · rintro (hs | ⟨p, hp, _⟩)
    · exact h.not_liveStaged hmem _ hs
    · simp at hp
  · intro u p hp
    exact h.pendingToken u p (lookup_erase_iff.1 hp).2
  · simp only [callbackTokens]
    split
    · rw [map_append]
      refine nodup_append.2 ⟨h.callbackOnce, nodup_singleton _, ?_⟩
      rintro u hu v hv rfl
      obtain rfl : u = t := (mem_singleton.1 hv).trans htok
      exact hnot (h.callbackDone u hu)
    · exact h.callbackOnce
  · intro u hu
    simp only [callbackTokens] at hu
    simp only [completedTokens, map_append, mem_append]
    split at hu
    · rw [map_append, mem_append] at hu
      rcases hu with hu | hu
      · exact .inl (h.callbackDone u hu)
      · exact .inr hu
    · exact .inl (h.callbackDone u hu)
  · intro u hu
    rcases h.granted u hu with hdone | ⟨p, hp, hc⟩
    · exact .inl hdone
    refine .inr ⟨p, lookup_erase_iff.2 ⟨?_, hp⟩, hc⟩
    rintro rfl
    rw [hpt, Option.some.injEq] at hp
    rw [← hp, hlive] at hc
    cases hc

theorem Inv.finishCancelled (hpt : e.pending.lookup t = some pt) (hdead : pt.cancelled = true) :
    Inv opts { e with
      pinnedPool := releasePinnedSlot e.pinnedPool pt.pinnedSlotIdx
      pending := e.pending.erase t
      cancelled := e.cancelled ++ [t] } := by
  have hmem : t ∈ e.pending := mem_of_lookup hpt
  refine ⟨h.nextPos, h.account_move ?_, h.staged, h.slots.finish hpt, h.inflight.congr ?_,
    ?_, h.callbackOnce, h.callbackDone, ?_⟩
  · intro u
    by_cases hu : u = t
    · subst hu
      simp [tally, completedTokens, hmem]
      omega
    · simp [tally, completedTokens, hu, Ne.symm hu]
  · intro k u
    simp only [Live, LivePending, lookup_erase_iff]
    refine or_congr_right ⟨?_, ?_⟩
    · rintro ⟨p, ⟨_, hp⟩, hrest⟩
      exact ⟨p, hp, hrest⟩
    · rintro ⟨p, hp, hc, hk⟩
      refine ⟨p, ⟨?_, hp⟩, hc, hk⟩
      rintro rfl
      rw [hpt, Option.some.injEq] at hp
      rw [← hp, hdead] at hc
      cases hc
  · intro u p hp
    exact h.pendingToken u p (lookup_erase_iff.1 hp).2
  · intro u hu
    by_cases hut : u = t
    · subst hut
      exact .inl (mem_append_right _ (mem_singleton.2 rfl))
    · rcases h.granted u hu with hdone | ⟨p, hp, hc⟩
      · exact .inl (mem_append_left _ hdone)
      · exact .inr ⟨p, lookup_erase_iff.2 ⟨hut, hp⟩, hc⟩

theorem Inv.cancelStaged (hl : (e.staged gpu).Perm (st :: rest)) : Inv opts { e with
      stagedTokenGpu := e.stagedTokenGpu.erase st.token
      staged := update e.staged gpu rest
      inflight := e.inflight.erase st.inFlightKey
      stagedBinCounts := bumpBin e.stagedBinCounts gpu (binFor opts st.priority) (-1)
      cancelled := e.cancelled ++ [st.token]
      cancelGranted := e.cancelGranted ++ [st.token] } := by
  have hst : st ∈ e.staged gpu := hl.mem_iff.2 mem_cons_self
  obtain ⟨rfl, _, hidx⟩ := h.staged.entry gpu st hst
  have hstaged : st.token ∈ e.stagedTokenGpu := mem_of_lookup hidx
  have hremove := h.staged.remove hl
  refine { h with
    account := h.account_move ?_, staged := hremove
    inflight := h.inflight.erase st.token ?_ ?_, granted := ?_ }
  · intro t
    by_cases ht : t = st.token
    · subst ht
      simp [tally, completedTokens, hstaged]
      omega
    · simp [tally, completedTokens, ht, Ne.symm ht]
  · intro k t
    simp only [Live, liveStaged_remove hl k t]
    exact or_right_comm
  · rintro (⟨st', hst', htok, _⟩ | ⟨p, hp, _⟩)
    · have hgone := (hremove.entry _ st' hst').2.2
      rw [htok, AList.lookup_erase] at hgone
      cases hgone
    · exact h.notMem_pending hstaged (mem_of_lookup hp)
  · intro t ht
    rcases mem_append.1 ht with ht | ht
    · rcases h.granted t ht with hdone | hpend
      · exact .inl (mem_append_left _ hdone)
      · exact .inr hpend
    · exact .inl (mem_append_right _ ht)

theorem Inv.cancelPending (hpt : e.pending.lookup t = some pt) (hlive : pt.cancelled = false) :
    Inv opts { e with
      pending := e.pending.insert t { pt with cancelled := true }
      inflight := e.inflight.erase pt.inFlightKey
      cancelGranted := e.cancelGranted ++ [t] } := by
  have hmem : t ∈ e.pending := mem_of_lookup hpt
  refine ⟨h.nextPos, h.account_move ?_, h.staged, h.slots.mark hpt rfl, h.inflight.erase t ?_ ?_,
    ?_, h.callbackOnce, h.callbackDone, ?_⟩
  · intro u
    by_cases hu : u = t
    · subst hu
      simp [tally, completedTokens, hmem]
    · simp [tally, completedTokens, hu]
  · intro k u
    have hlose := livePending_lose (e.pending.insert t { pt with cancelled := true }) hpt hlive
      (fun u hu => AList.lookup_insert_ne hu) (by simp) k u
    simp only [Live, hlose]
    exact or_assoc.symm
  · rintro (hs | ⟨p, hp, hc, _⟩)
    · exact h.not_liveStaged hmem _ hs
    · rw [AList.lookup_insert, Option.some.injEq] at hp
      rw [← hp] at hc
      cases hc
  · intro u p hp
    rcases lookup_insert_iff.1 hp with ⟨rfl, rfl⟩ | ⟨_, hold⟩
    · exact h.pendingToken u pt hpt
    · exact h.pendingToken u p hold
  · intro u hu
    by_cases hut : u = t
    · subst hut
      exact .inr ⟨_, AList.lookup_insert e.pending, rfl⟩
    rcases mem_append.1 hu with hu | hu
    · rcases h.granted u hu with hdone | ⟨p, hp, hc⟩
      · exact .inl hdone
      · exact .inr ⟨p, lookup_insert_iff.2 (.inr ⟨hut, hp⟩), hc⟩
    · exact absurd (mem_singleton.1 hu) hut

/-! ### The operations -/

theorem Inv.enqueueImpl {r : EnqueueRequest K P} (hgpu : r.gpuIdx < opts.numGpus) (now : ℤ) :
    Inv opts (Transfer.enqueueImpl Q opts e r now).1 := by
  unfold Transfer.enqueueImpl
  simp only
  split
  · exact h
  rename_i hkey
  split
  · exact h.launch ⟨e.nextToken, r.key, r.gpuIdx, r.dir, r.bytes, r.priority, r.callback, _, false⟩
      rfl rfl hkey r.needsPinnedStaging rfl
  · exact h.stage ⟨e.nextToken, r.key, r.gpuIdx, r.dir, r.bytes, r.priority, r.delayUs, now,
        r.callback, r.needsPinnedStaging⟩
      rfl hgpu hkey (Q.push_perm _ _)

end

theorem Inv.sweep {mayTake : ℕ → StagedTransfer K P → Bool} {delayed : StagedTransfer K P → Bool}
    (fuel : ℕ) : ∀ (dispatched : ℕ) {e : Engine K P}, Inv opts e →
      Inv opts (Transfer.sweep Q opts mayTake delayed gpu fuel dispatched e) := by
  induction fuel with
  | zero => exact fun _ _ h => h
  | succ fuel ih =>
    intro dispatched e h
    unfold Transfer.sweep
    split
    · exact h
    rename_i st rest hpop
    have hperm := Q.pop_perm hpop
    split
    · split
      · -- the delayed transfer goes back into its queue
        exact h.perm ((Q.push_perm st rest).trans hperm.symm)
      · exact ih (dispatched + 1) (h.dispatch hperm)
    · exact h

theorem Inv.foldl {f : Engine K P → ℕ → Engine K P} (l : List ℕ)
    (hf : ∀ e gpu, Inv opts e → Inv opts (f e gpu)) :
    ∀ {e : Engine K P}, Inv opts e → Inv opts (l.foldl f e) := by
  induction l with
  | nil => exact fun h => h
  | cons gpu l ih => exact fun h => ih (hf _ gpu h)

theorem Inv.finishPending {eg eg' : Engine K P × List ℕ} (h : Inv opts eg.1) {done : ℕ × Bool}
    (hstep : Transfer.finishPending eg done = some eg') : Inv opts eg'.1 := by
  unfold Transfer.finishPending at hstep
  split at hstep
  · cases hstep
  rename_i pt hpt
  split at hstep
  · rename_i hdead
    cases hstep
    exact h.finishCancelled hpt hdead
  · rename_i hlive
    cases hstep
    exact h.finishLive hpt (Bool.not_eq_true _ ▸ hlive) done.2

variable {e' : Engine K P}

section

variable (h : Inv opts e)
include h

theorem Inv.pollCompletions {done : List (ℕ × Bool)} {now : ℕ → ℤ}
    (hstep : Transfer.pollCompletions Q opts done now e = some e') :
    Inv opts e' := by
  unfold Transfer.pollCompletions at hstep
  split at hstep
  · simp only [Option.bind_eq_bind, Option.bind_eq_some_iff] at hstep
    obtain ⟨eg, hfold, hgpus⟩ := hstep
    have heg : Inv opts eg.1 :=
      foldlM_invariant (P := fun eg : Engine K P × List ℕ => Inv opts eg.1) done
        (fun _ _ _ _ hs hf => hs.finishPending hf) hfold h
    cases hgpus
    exact Inv.foldl _ (fun _ gpu hs => Inv.sweep _ _ hs) heg
  · cases hstep

theorem Inv.cancel (token : ℕ) : Inv opts (Transfer.cancel Q opts e token).1 := by
  unfold Transfer.cancel
  split
  · rename_i gpu hidx
    obtain ⟨st, hst, htok⟩ := h.staged.indexed token gpu hidx
    have horder := Q.popAll_perm (e.staged gpu)
    simp only
    split
    · rename_i st' hfind
      obtain rfl : st'.token = token := by simpa using find?_some hfind
      exact h.cancelStaged (Q.rebuild_perm hfind)
    · -- the index is right about the queue, so the search succeeds
      rename_i hnone
      exact absurd (by simpa using htok) (find?_eq_none.1 hnone st (horder.mem_iff.2 hst))
  · exact cancelPending_inv h token
where
  cancelPending_inv {e : Engine K P} (h : Inv opts e) (token : ℕ) :
      Inv opts (Transfer.cancel.cancelPending e token).1 := by
    unfold Transfer.cancel.cancelPending
    split
    · exact h
    rename_i pt hpt
    split
    · exact h
    · rename_i hlive
      exact h.cancelPending hpt (Bool.not_eq_true _ ▸ hlive)

theorem Inv.reprioritize (token : ℕ) (priority : P) :
    Inv opts (Transfer.reprioritize Q opts e token priority).1 := by
  unfold Transfer.reprioritize
  split
  · exact h
  rename_i gpu hidx
  have horder := Q.popAll_perm (e.staged gpu)
  have hqueue := Q.ofList_perm ((Q.popAll (e.staged gpu)).map (raisePriority token priority))
  refine { h with
    staged := h.staged.raise token priority horder hqueue, inflight := h.inflight.congr ?_ }
  intro k t
  exact or_congr_left (liveStaged_raise (hqueue.trans (horder.map _)) k t)

theorem Inv.drain {polls : List (List (ℕ × Bool) × (ℕ → ℤ))}
    (hstep : Transfer.drain Q opts polls e = some e') : Inv opts e' := by
  refine drainPolls_inv polls (Inv.foldl _ (fun _ gpu hs => Inv.sweep _ _ hs) h) hstep
where
  drainPolls_inv (polls : List (List (ℕ × Bool) × (ℕ → ℤ))) :
      ∀ {e e' : Engine K P}, Inv opts e → drainPolls Q opts polls e = some e' → Inv opts e' := by
    induction polls with
    | nil =>
      intro e e' h hstep
      unfold drainPolls at hstep
      split at hstep
      · exact Option.some.inj hstep ▸ h
      · cases hstep
    | cons poll polls ih =>
      intro e e' h hstep
      unfold drainPolls at hstep
      split at hstep
      · cases hstep
      rw [Option.bind_eq_bind, Option.bind_eq_some_iff] at hstep
      obtain ⟨e₁, hpoll, hrest⟩ := hstep
      exact ih (h.pollCompletions hpoll) hrest

theorem Inv.initPinnedPool (bufferSize : ℕ) (allocs : List Bool) (hasBackend : Bool) :
    Inv opts (Transfer.initPinnedPool bufferSize allocs hasBackend e) := by
  unfold Transfer.initPinnedPool
  split
  · exact h
  rename_i hcond
  have hempty : e.pinnedPool = [] := by
    by_contra hne
    exact hcond (.inl hne)
  refine { h with slots := ⟨?_, h.slots.once⟩ }
  intro i
  rw [← h.slots.busy i, hempty]
  constructor
  · rintro ⟨s, hs, hbusy⟩
    obtain ⟨ok, _, rfl⟩ := Option.map_eq_some_iff.1 ((getElem?_map ..) ▸ hs)
    cases ok <;> cases hbusy
  · rintro ⟨s, hs, _⟩
    simp at hs

theorem Inv.step {a : Action K P} (hstep : Transfer.step Q opts e a = some e') : Inv opts e' := by
  cases a with
  | enqueue r now =>
    simp only [Transfer.step] at hstep
    split at hstep
    · rename_i hgpu
      exact Option.some.inj hstep ▸ h.enqueueImpl hgpu now
    · cases hstep
  | flushStaged now =>
    exact Option.some.inj hstep ▸ Inv.foldl _ (fun _ gpu hs => Inv.sweep _ _ hs) h
  | dispatchStagedAtLeast gpu minPriority now =>
    cases hstep
    unfold dispatchStagedAtLeast
    split
    · exact Inv.sweep _ _ h
    · exact h
  | pollCompletions done now => exact h.pollCompletions hstep
  | cancel token => exact Option.some.inj hstep ▸ h.cancel token
  | reprioritize token priority => exact Option.some.inj hstep ▸ h.reprioritize token priority
  | drain polls => exact h.drain hstep
  | initPinnedPool bufferSize allocs hasBackend =>
    exact Option.some.inj hstep ▸ h.initPinnedPool bufferSize allocs hasBackend

/-! ### Every run -/

theorem Inv.inState_staged : InState opts e t .staged ↔ t ∈ e.stagedTokenGpu := by
  constructor
  · rintro ⟨gpu, _, st, hst, rfl⟩
    exact mem_of_lookup (h.staged.entry gpu st hst).2.2
  · intro ht
    obtain ⟨gpu, hgpu⟩ := mem_iff.1 ht
    obtain ⟨st, hst, htok⟩ := h.staged.indexed t gpu hgpu
    exact ⟨gpu, (h.staged.entry gpu st hst).2.1, st, hst, htok⟩

theorem Inv.exists_inState (hpos : 1 ≤ t) (hlt : t < e.nextToken) : ∃ s, InState opts e t s := by
  have htally := h.account t
  rw [if_pos ⟨hpos, hlt⟩] at htally
  unfold tally at htally
  by_cases hstaged : t ∈ e.stagedTokenGpu
  · exact ⟨.staged, h.inState_staged.2 hstaged⟩
  by_cases hpend : t ∈ e.pending
  · obtain ⟨pt, hpt⟩ := mem_iff.1 hpend
    cases hc : pt.cancelled with
    | false => exact ⟨.pendingLive, pt, hpt, hc⟩
    | true => exact ⟨.pendingCancelled, pt, hpt, hc⟩
  rw [if_neg hstaged, if_neg hpend] at htally
  by_cases hdone : t ∈ e.completedTokens
  · exact ⟨.completed, hdone⟩
  · rw [count_eq_zero_of_not_mem hdone] at htally
    exact ⟨.cancelled, count_pos_iff.1 (by omega)⟩

end

/-- The summand of the tally that a state shows up in. -/
def Engine.summand (e : Engine K P) (t : ℕ) : TokenState → ℕ
  | .staged => if t ∈ e.stagedTokenGpu then 1 else 0
  | .pendingLive => if t ∈ e.pending then 1 else 0
  | .pendingCancelled => if t ∈ e.pending then 1 else 0
  | .completed => e.completedTokens.count t
  | .cancelled => e.cancelled.count t

theorem Inv.summand_pos (h : Inv opts e) {s : TokenState} (hs : InState opts e t s) :
    0 < e.summand t s := by
  cases s with
  | staged =>
    rw [summand, if_pos (h.inState_staged.1 hs)]
    exact Nat.one_pos
  | pendingLive | pendingCancelled =>
    obtain ⟨pt, hpt, _⟩ := hs
    rw [summand, if_pos (mem_of_lookup hpt)]
    exact Nat.one_pos
  | completed | cancelled => exact count_pos_iff.2 hs

theorem Inv.inState_unique (h : Inv opts e) {s s' : TokenState} (hs : InState opts e t s)
    (hs' : InState opts e t s') : s = s' := by
  have htally := h.tally_le t
  have hpos := h.summand_pos hs
  have hpos' := h.summand_pos hs'
  -- the two pending states share a summand and differ in the flag
  have hflag : InState opts e t .pendingLive → ¬ InState opts e t .pendingCancelled := by
    rintro ⟨pt, hpt, hc⟩ ⟨pt', hpt', hc'⟩
    rw [hpt, Option.some.injEq] at hpt'
    rw [← hpt', hc] at hc'
    cases hc'
  unfold tally at htally
  cases s <;> cases s' <;> simp only [summand] at hpos hpos' <;> first
    | rfl
    | exact absurd hs' (hflag hs)
    | exact absurd hs (hflag hs')
    | (exfalso; omega)

theorem Inv.conserved (h : Inv opts e) : Conserved opts e where
  oneState := by
    intro t hpos hlt
    obtain ⟨s, hs⟩ := h.exists_inState hpos hlt
    exact ⟨s, hs, fun s' hs' => h.inState_unique hs' hs⟩
  once := by
    refine ⟨fun gpu _ => h.staged.nodup gpu, ?_, ?_⟩
    · refine nodup_iff_count_le_one.2 fun t => ?_
      have htally := h.tally_le t
      unfold tally at htally
      omega
    · refine nodup_iff_count_le_one.2 fun t => ?_
      have htally := h.tally_le t
      unfold tally at htally
      omega
  callbackOnce := h.callbackOnce
  noCallbackAfterCancel := by
    intro t ht hcb
    have hdone : InState opts e t .completed := h.callbackDone t hcb
    rcases h.granted t ht with hgone | ⟨pt, hpt, hc⟩
    · have hgone : InState opts e t .cancelled := hgone
      exact absurd (h.inState_unique hdone hgone) (by decide)
    · exact h.notMem_completed (mem_of_lookup hpt) hdone
  inflightLive := h.inflight
  oneLive := by
    intro k t t' ht ht'
    have hl := (h.inflight k t).2 ht
    rw [(h.inflight k t').2 ht', Option.some.injEq] at hl
    exact hl.symm
  slotInUse := by
    intro i s hs
    have hbusy : s.inUse = true ↔ SlotBusy e.pinnedPool i := by
      constructor
      · exact fun hb => ⟨s, hs, hb⟩
      · rintro ⟨s', hs', hb⟩
        rw [hs, Option.some.injEq] at hs'
        exact hs' ▸ hb
    rw [hbusy, h.slots.busy i]
    constructor
    · rintro ⟨t, ht⟩
      exact ⟨t, ht, fun t' ht' => h.slots.once i t' t ht' ht⟩
    · rintro ⟨t, ht, _⟩
      exact ⟨t, ht⟩
  slotFree := by
    intro i s hs hfree t ht
    obtain ⟨s', hs', hb⟩ := (h.slots.busy i).2 ⟨t, ht⟩
    rw [hs, Option.some.injEq] at hs'
    rw [← hs', hfree] at hb
    cases hb
  bins := fun gpu _ bin => h.staged.bins gpu bin

/-- **Token conservation over every sequence of calls**, for every implementation
of the priority queues, every clock and every order in which device events fire. -/
theorem conserved_of_run (Q : PriorityQueue fun x y : StagedTransfer K P => x.priority < y.priority)
    (opts : Options P) {as : List (Action K P)} {e : Engine K P}
    (hrun : Run (step Q opts) Engine.init as e) : Conserved opts e :=
  (hrun.invariant (fun _ _ _ h _ hstep => h.step hstep) Inv.init).conserved

/-- One transfer completes and makes room for a staged one, which is then cancelled
and reaped. -/
theorem conserved_of_run_two_transfers : ∃ as, ∃ e : Engine ℕ ℕ,
      Run (step (listQueue StagedTransfer.priority)
        ⟨1, 1, 8, [5]⟩) Engine.init as e ∧
        e.completedTokens = [1] ∧ e.cancelled = [2] ∧ Conserved ⟨1, 1, 8, [5]⟩ e := by
  have hrun : Run (step (listQueue StagedTransfer.priority)
      ⟨1, 1, 8, [5]⟩) (init : Engine ℕ ℕ)
      [.enqueue ⟨.h2d, 10, 0, 64, 3, 0, true, false⟩ 0,
        .enqueue ⟨.h2d, 11, 0, 64, 7, 0, true, false⟩ 0,
        .pollCompletions [(1, true)] fun _ => 0, .cancel 2,
        .pollCompletions [(2, true)] fun _ => 0] _ :=
    Run.cons rfl (Run.cons rfl (Run.cons rfl (Run.cons rfl (Run.cons rfl (GuardedRun.nil _)))))
  exact ⟨_, _, hrun, rfl, rfl, conserved_of_run _ _ hrun⟩

/-! ### Draining -/

omit [DecidableEq K] in
theorem staged_sweep (gpu n : ℕ) : ∀ (d : ℕ) {e : Engine K P}, (e.staged gpu).length = n →
    (sweep Q opts (fun _ _ => true) (fun _ => false) gpu n d e).staged =
      update e.staged gpu [] := by
  induction n with
  | zero =>
    intro d e hn
    rw [← length_eq_zero_iff.1 hn]
    exact (update_eq_self gpu e.staged).symm
  | succ n ih =>
    intro d e hn
    unfold sweep
    split
    · next hpop =>
      rw [(Q.pop_eq_none _).1 hpop] at hn
      cases hn
    next st rest hpop =>
    have hlen := (Q.pop_perm hpop).length_eq
    rw [if_pos rfl, if_neg Bool.false_ne_true, ih]
    · exact update_idem ..
    · show (update e.staged gpu rest gpu).length = n
      rw [update_self]
      exact Nat.succ_inj.1 (hlen.symm.trans hn)

omit [DecidableEq K] in
theorem staged_foldl_sweep {g : ℕ} (l : List ℕ) : ∀ {e : Engine K P}, g ∈ l ∨ e.staged g = [] →
    (l.foldl (fun e gpu => sweep Q opts (fun _ _ => true) (fun _ => false) gpu
      (e.staged gpu).length 0 e) e).staged g = [] := by
  induction l with
  | nil => exact fun h => h.resolve_left not_mem_nil
  | cons gpu l ih =>
    intro e h
    refine ih ?_
    rw [staged_sweep gpu _ 0 rfl]
    by_cases hg : g = gpu
    · exact .inr (hg ▸ update_self ..)
    · rw [update_of_ne hg]
      exact h.imp_left fun hm => (mem_cons.1 hm).resolve_left hg

variable {e' : Engine K P}

theorem staged_pollCompletions {done : List (ℕ × Bool)} {now : ℕ → ℤ}
    (hempty : ∀ g, e.staged g = []) (hstep : pollCompletions Q opts done now e = some e') :
    ∀ g, e'.staged g = [] := by
  unfold pollCompletions at hstep
  split at hstep
  · simp only [Option.bind_eq_bind, Option.bind_eq_some_iff] at hstep
    obtain ⟨eg, hfold, hgpus⟩ := hstep
    have hfinished : ∀ g, eg.1.staged g = [] := by
      refine foldlM_invariant (P := fun eg : Engine K P × List ℕ => ∀ g, eg.1.staged g = []) done
        (fun eg d eg' _ hs hf => ?_) hfold hempty
      unfold finishPending at hf
      split at hf
      · cases hf
      · split at hf <;> (cases hf; exact hs)
    cases hgpus
    refine foldlRecOn (motive := fun e : Engine K P => ∀ g, e.staged g = []) _ _ hfinished ?_
    intro e he gpu _
    unfold replenishGpu sweepUpTo
    rw [he gpu]
    exact he
  · cases hstep

theorem drained {polls : List (List (ℕ × Bool) × (ℕ → ℤ))} : ∀ {e : Engine K P},
    (∀ g, e.staged g = []) → drainPolls Q opts polls e = some e' →
      (∀ g, e'.staged g = []) ∧ e'.pending.entries = [] := by
  induction polls with
  | nil =>
    intro e hempty h
    unfold drainPolls at h
    split at h
    · next hnone =>
      cases h
      exact ⟨hempty, hnone⟩
    · cases h
  | cons poll polls ih =>
    intro e hempty h
    unfold drainPolls at h
    split at h
    · cases h
    · obtain ⟨e₁, hpoll, hrest⟩ := Option.bind_eq_some_iff.1 h
      exact ih (staged_pollCompletions hempty hpoll) hrest

/-- Nothing is left of any transfer but its report. -/
structure Idle (e : Engine K P) : Prop where
  staged : ∀ g, e.staged g = []
  pending : ∀ t, t ∉ e.pending
  inflight : ∀ k, e.inflight.lookup k = none
  slots : ∀ s ∈ e.pinnedPool, s.inUse = false
  settled : ∀ t, 1 ≤ t → t < e.nextToken → (t ∈ e.cancelled ↔ t ∉ e.completedTokens)

/-- **`drain` is a barrier.**  After any sequence of calls, when it returns, in whatever order the
events have fired, every token issued is completed or else cancelled and nothing is in use. -/
theorem drain_idle {as : List (Action K P)} (hrun : Run (step Q opts) Engine.init as e)
    {polls : List (List (ℕ × Bool) × (ℕ → ℤ))} (hdrain : drain Q opts polls e = some e') :
    Idle e' := by
  have h : Inv opts e := hrun.invariant (fun _ _ _ h _ hstep => h.step hstep) Inv.init
  have h' : Inv opts e' := h.drain hdrain
  have hempty : ∀ g, g ∈ range opts.numGpus ∨ e.staged g = [] := by
    intro g
    refine or_iff_not_imp_right.2 fun hne => ?_
    obtain ⟨st, hst⟩ := exists_mem_of_ne_nil _ hne
    exact mem_range.2 (h.staged.entry g st hst).2.1
  obtain ⟨hstaged, hpending⟩ := drained (fun g => staged_foldl_sweep _ (hempty g)) hdrain
  have hnone : ∀ t, e'.pending.lookup t = none := by
    intro t
    rw [show e'.pending = ∅ from AList.ext hpending, AList.lookup_empty]
  have hnot : ∀ t, t ∉ e'.pending := fun t => AList.lookup_eq_none.1 (hnone t)
  refine ⟨hstaged, hnot, fun k => ?_, fun s hs => ?_, fun t hpos hlt => ?_⟩
  · refine Option.eq_none_iff_forall_ne_some.2 fun t ht => ?_
    rcases (h'.inflight k t).1 ht with ⟨st, hst, -⟩ | ⟨pt, hpt, -⟩
    · rw [hstaged] at hst
      exact not_mem_nil hst
    · rw [hnone] at hpt
      cases hpt
  · obtain ⟨i, hi⟩ := mem_iff_getElem?.mp hs
    refine Bool.eq_false_iff.2 fun hbusy => ?_
    obtain ⟨t, pt, hpt, -⟩ := (h'.slots.busy i).1 ⟨s, hi, hbusy⟩
    rw [hnone] at hpt
    cases hpt
  · have hindex : t ∉ e'.stagedTokenGpu := by
      intro ht
      obtain ⟨g, hg⟩ := mem_iff.1 ht
      obtain ⟨st, hst, -⟩ := h'.staged.indexed t g hg
      rw [hstaged] at hst
      exact not_mem_nil hst
    have htally := h'.account t
    rw [tally, if_neg hindex, if_neg (hnot t), if_pos ⟨hpos, hlt⟩] at htally
    rw [← count_pos_iff, ← count_eq_zero]
    omega

/-- One GPU, and room for one dispatch. -/
def oneGpu : Options ℕ := ⟨1, 1, 8, [5]⟩

/-- A delayed transfer. -/
def oneStaged : Engine ℕ ℕ := (enqueueImpl (listQueue StagedTransfer.priority) oneGpu init
  ⟨.h2d, 10, 0, 64, 3, 9, true, false⟩ 0).1

/-- It is dispatched by the drain and completes. -/
theorem drain_idle_oneStaged : ∃ e', drain (listQueue StagedTransfer.priority) oneGpu
      [([(1, true)], fun _ => 0)] oneStaged = some e' ∧ Idle e' :=
  (Option.isSome_iff_exists.1 rfl).imp fun _ h =>
    ⟨h, drain_idle (Run.cons (a := .enqueue ⟨.h2d, 10, 0, 64, 3, 9, true, false⟩ 0) rfl
      (GuardedRun.nil oneStaged)) h⟩

end LayerStorm.Transfer
