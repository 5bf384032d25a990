import LayerStorm.Orchestrator.PrefixTree

/-!
# The invariant of the prefix cache

On top of the tree there is a ledger: the checkpoint bytes add up over the live entries,
and every holder sequence is freed exactly once, when its entry is evicted.  After a
registration the budgets are met: with more than one entry there is always one to retire
other than the new one, and if the new entry is the only leaf the tree is a chain, whose
unique tokens are the new entry's.

## Main results

* `prefixCache_of_run` — the invariant over all runs, and what registrations achieve.
-/

namespace LayerStorm.Orchestrator

open Lib
open PrefixCache PrefixCacheConfig

variable {τ : Type} [DecidableEq τ]

/-! ### Definitions -/

/-- The tree and the ledger. -/
structure CacheInv (s : PrefixCache τ) : Prop where
  tree : TreeInv s
  /-- The checkpoint bytes add up. -/
  bytes : s.kdaCkptBytes = (s.entries.map fun e => (s.heap e).kdaCkptBytes).sum
  /-- Every object has its own holder sequence. -/
  distinct : ∀ e < s.next, ∀ e' < s.next, (s.heap e).seqId = (s.heap e').seqId → e = e'
  /-- The holder of a live entry was not freed. -/
  held : ∀ e ∈ s.entries, (s.heap e).seqId ∉ s.freed
  /-- The holder of an evicted entry was freed exactly once. -/
  gone : ∀ e < s.next, e ∉ s.entries → s.freed.count (s.heap e).seqId = 1
  /-- Nothing but holders of evicted entries was freed. -/
  freed : ∀ q ∈ s.freed, ∃ e < s.next, e ∉ s.entries ∧ (s.heap e).seqId = q

/-- Nothing but stamps and counters changes. -/
structure SameTree (s s' : PrefixCache τ) : Prop where
  objects : SameObjects s s'
  entries : s'.entries = s.entries
  parent : ∀ c, s'.parent c = s.parent c
  siblings : ∀ o, s'.siblings o = s.siblings o

/-- Entries go, nothing comes. -/
structure Shrunk (s s' : PrefixCache τ) : Prop where
  entries : s'.entries ⊆ s.entries
  tokens : ∀ c, s'.tokens c = s.tokens c
  seqId : ∀ c, (s'.heap c).seqId = (s.heap c).seqId
  next : s'.next = s.next

/-- What a registration of a string with a holder achieves: it is there, and the budgets are
met. -/
structure Registered (cfg : PrefixCacheConfig) (s : PrefixCache τ) (tokens : List τ)
    (holder : ℕ) : Prop where
  present : ∃ e ∈ s.entries, s.tokens e = tokens ∧ (s.heap e).seqId = holder
  slots : s.entries.length ≤ cfg.maxEntries
  budget : s.totalUniqueTokens ≤ cfg.maxCachedTokens

variable {cfg : PrefixCacheConfig} {s s' s'' : PrefixCache τ} {e c : ℕ}

/-! ### Stamps and counters -/

omit [DecidableEq τ] in
theorem SameTree.of_eq (hheap : s'.heap = s.heap) (hentries : s'.entries = s.entries)
    (hroots : s'.roots = s.roots) (hnext : s'.next = s.next)
    (htotal : s'.kdaCkptBytes = s.kdaCkptBytes) (hfreed : s'.freed = s.freed) : SameTree s s' := by
  refine ⟨⟨?_, ?_, ?_, hnext, htotal, hfreed⟩, hentries, ?_, ?_⟩
  · intro c
    unfold PrefixCache.tokens
    rw [hheap]
  · intro c
    rw [hheap]
  · intro c
    rw [hheap]
  · intro c
    unfold PrefixCache.parent
    rw [hheap]
  · intro o
    cases o with
    | none => exact hroots
    | some p =>
      unfold PrefixCache.siblings
      simp only [hheap]

omit [DecidableEq τ] in
theorem SameTree.trans (h : SameTree s s') (h' : SameTree s' s'') : SameTree s s'' where
  objects :=
    ⟨fun c => (h'.objects.tokens c).trans (h.objects.tokens c),
      fun c => (h'.objects.seqId c).trans (h.objects.seqId c),
      fun c => (h'.objects.bytes c).trans (h.objects.bytes c),
      h'.objects.next.trans h.objects.next, h'.objects.total.trans h.objects.total,
      h'.objects.freed.trans h.objects.freed⟩
  entries := h'.entries.trans h.entries
  parent := fun c => (h'.parent c).trans (h.parent c)
  siblings := fun o => (h'.siblings o).trans (h.siblings o)

theorem TreeInv.same (h : TreeInv s) (hentries : s'.entries = s.entries) (hnext : s.next ≤ s'.next)
    (htokens : ∀ c ∈ s.entries, s'.tokens c = s.tokens c)
    (hparent : ∀ c ∈ s.entries, s'.parent c = s.parent c)
    (hsiblings : ∀ o, (∀ p, o = some p → p ∈ s.entries) → s'.siblings o = s.siblings o) :
    TreeInv s' := by
  have hstrings : s'.strings = s.strings := by
    unfold strings
    rw [hentries, List.map_congr_left htokens]
  refine ⟨hentries ▸ h.nodup, ?_, ?_, ?_, ?_, ?_, ?_⟩
  · intro c hc
    rw [hentries] at hc
    exact lt_of_lt_of_le (h.lt c hc) hnext
  · intro c hc
    rw [hentries] at hc
    rw [htokens c hc]
    exact h.nonempty c hc
  · intro c hc c' hc' heq
    rw [hentries] at hc hc'
    rw [htokens c hc, htokens c' hc'] at heq
    exact h.inj c hc c' hc' heq
  · intro c hc p hp
    rw [hentries] at hc ⊢
    rw [hparent c hc] at hp
    exact h.live c hc p hp
  · intro c hc
    rw [hentries] at hc
    have hpar := h.parent c hc
    unfold parentTokens at hpar ⊢
    rw [hstrings, htokens c hc, hparent c hc]
    cases hp : s.parent c with
    | none =>
      rw [hp] at hpar
      exact hpar
    | some p =>
      rw [hp] at hpar
      rw [Option.map_some, htokens p (h.live c hc p hp)]
      exact hpar
  · intro o ho
    rw [hentries] at ho
    obtain ⟨hnodup, hsib⟩ := h.siblings o ho
    rw [hsiblings o ho]
    refine ⟨hnodup, fun c => ?_⟩
    rw [hsib, hentries]
    constructor
    · rintro ⟨hc, hp⟩
      exact ⟨hc, (hparent c hc).trans hp⟩
    · rintro ⟨hc, hp⟩
      exact ⟨hc, (hparent c hc).symm.trans hp⟩

theorem CacheInv.same (h : CacheInv s) (hs : SameTree s s') : CacheInv s' := by
  refine ⟨h.tree.same hs.entries hs.objects.next.ge (fun c _ => hs.objects.tokens c)
    (fun c _ => hs.parent c) (fun o _ => hs.siblings o), ?_, ?_, ?_, ?_, ?_⟩
  · rw [hs.objects.total, hs.entries, h.bytes]
    congr 1
    exact List.map_congr_left fun c _ => (hs.objects.bytes c).symm
  · intro e he e' he'
    rw [hs.objects.next] at he he'
    rw [hs.objects.seqId, hs.objects.seqId]
    exact h.distinct e he e' he'
  · intro e he
    rw [hs.entries] at he
    rw [hs.objects.seqId, hs.objects.freed]
    exact h.held e he
  · intro e he hne
    rw [hs.objects.next] at he
    rw [hs.entries] at hne
    rw [hs.objects.seqId, hs.objects.freed]
    exact h.gone e he hne
  · intro q hq
    rw [hs.objects.freed] at hq
    obtain ⟨e, he, hne, hseq⟩ := h.freed q hq
    refine ⟨e, ?_, ?_, ?_⟩
    · rw [hs.objects.next]
      exact he
    · rw [hs.entries]
      exact hne
    · rw [hs.objects.seqId]
      exact hseq

omit [DecidableEq τ] in
theorem sameTree_stamp (s : PrefixCache τ) (e stamp : ℕ) :
    SameTree s (s.modify e fun n => { n with lastUsed := stamp }) := by
  have hheap : ∀ c, (s.modify e fun n => { n with lastUsed := stamp }).heap c = s.heap c ∨
      (s.modify e fun n => { n with lastUsed := stamp }).heap c =
        { s.heap c with lastUsed := stamp } := by
    intro c
    unfold PrefixCache.modify
    by_cases hce : c = e
    · subst hce
      exact .inr (by simp)
    · exact .inl (by simp [hce])
  refine ⟨⟨?_, ?_, ?_, rfl, rfl, rfl⟩, rfl, ?_, ?_⟩
  · intro c
    unfold PrefixCache.tokens
    rcases hheap c with heq | heq <;> rw [heq]
  · intro c
    rcases hheap c with heq | heq <;> rw [heq]
  · intro c
    rcases hheap c with heq | heq <;> rw [heq]
  · intro c
    unfold PrefixCache.parent
    rcases hheap c with heq | heq <;> rw [heq]
  · intro o
    cases o with
    | none => rfl
    | some p =>
      unfold PrefixCache.siblings
      rcases hheap p with heq | heq <;> simp only [heq]

omit [DecidableEq τ] in
theorem sameTree_touchPath (stamp fuel : ℕ) (o : Option ℕ) (s : PrefixCache τ) :
    SameTree s (touchPath stamp fuel o s) := by
  induction fuel generalizing o s with
  | zero => exact SameTree.of_eq rfl rfl rfl rfl rfl rfl
  | succ fuel ih =>
    cases o with
    | none => exact SameTree.of_eq rfl rfl rfl rfl rfl rfl
    | some e => exact (sameTree_stamp s e stamp).trans (ih _ _)

omit [DecidableEq τ] in
theorem sameTree_touch (s : PrefixCache τ) (e : ℕ) : SameTree s (s.touch e) := by
  have hclock : SameTree s { s with clock := s.clock + 1, hits := s.hits + 1 } :=
    SameTree.of_eq rfl rfl rfl rfl rfl rfl
  exact hclock.trans (sameTree_touchPath _ _ _ _)

theorem sameTree_lookup (s : PrefixCache τ) (prompt : List τ) (valid : Option (ℕ → Bool)) :
    SameTree s (s.lookup prompt valid).1 := by
  unfold lookup
  split
  · exact sameTree_touch s _
  · exact SameTree.of_eq rfl rfl rfl rfl rfl rfl

theorem sameTree_lookupMidEdge (s : PrefixCache τ) (prompt : List τ) (grid : ℕ) (subgrid : Bool) :
    SameTree s (s.lookupMidEdge prompt grid subgrid).1 := by
  unfold lookupMidEdge
  simp only
  split
  · exact SameTree.of_eq rfl rfl rfl rfl rfl rfl
  split
  · exact SameTree.of_eq rfl rfl rfl rfl rfl rfl
  split
  · exact SameTree.of_eq rfl rfl rfl rfl rfl rfl
  · exact sameTree_touch s _

theorem sameTree_lookupKdaCkpt (s : PrefixCache τ) (prompt : List τ) :
    SameTree s (s.lookupKdaCkpt prompt).1 := by
  unfold lookupKdaCkpt
  simp only
  split
  · exact SameTree.of_eq rfl rfl rfl rfl rfl rfl
  · exact SameTree.of_eq rfl rfl rfl rfl rfl rfl

/-! ### Evictions -/

omit [DecidableEq τ] in
theorem freeHolder_spec (s : PrefixCache τ) (e : ℕ) :
    (s.freeHolder e).entries = s.entries ∧ (s.freeHolder e).roots = s.roots ∧
      (s.freeHolder e).next = s.next ∧ (s.freeHolder e).freed = s.freed ++ [(s.heap e).seqId] ∧
      (s.freeHolder e).kdaCkptBytes = s.kdaCkptBytes - (s.heap e).kdaCkptBytes ∧
      ∀ c, ((s.freeHolder e).heap c).tokens = (s.heap c).tokens ∧
        ((s.freeHolder e).heap c).parent = (s.heap c).parent ∧
        ((s.freeHolder e).heap c).children = (s.heap c).children ∧
        ((s.freeHolder e).heap c).seqId = (s.heap c).seqId ∧
        (c ≠ e → ((s.freeHolder e).heap c).kdaCkptBytes = (s.heap c).kdaCkptBytes) := by
  unfold PrefixCache.freeHolder
  simp only
  split
  · refine ⟨rfl, rfl, rfl, rfl, rfl, fun c => ?_⟩
    simp only [PrefixCache.modify, Function.update_apply]
    by_cases hce : c = e
    · subst hce
      simp
    · simp [hce]
  · rename_i hbytes
    rw [ne_eq, not_not] at hbytes
    rw [hbytes]
    exact ⟨rfl, rfl, rfl, rfl, rfl, fun c => ⟨rfl, rfl, rfl, rfl, fun _ => rfl⟩⟩

/-- What an eviction does to the entries and the ledger. -/
structure Evicted (s s' : PrefixCache τ) (e : ℕ) : Prop where
  entries : s'.entries = s.entries.erase e
  next : s'.next = s.next
  freed : s'.freed = s.freed ++ [(s.heap e).seqId]
  total : s'.kdaCkptBytes = s.kdaCkptBytes - (s.heap e).kdaCkptBytes
  tokens : ∀ c, s'.tokens c = s.tokens c
  seqId : ∀ c, (s'.heap c).seqId = (s.heap c).seqId
  bytes : ∀ c, c ≠ e → (s'.heap c).kdaCkptBytes = (s.heap c).kdaCkptBytes

theorem TreeInv.evicted (h : TreeInv s) (he : e ∈ s.entries) : Evicted s (s.evict e) e := by
  have hu := unlinked_detach s (h.parent_ne he)
  obtain ⟨hentries, _, hnext, hfreed, htotal, hheap⟩ := freeHolder_spec (s.detach e) e
  refine ⟨hentries.trans hu.entries, hnext.trans hu.objects.next, ?_, ?_, ?_, ?_, ?_⟩
  · exact hfreed.trans (by rw [hu.objects.freed, hu.objects.seqId])
  · exact htotal.trans (by rw [hu.objects.total, hu.objects.bytes])
  · exact fun c => (hheap c).1.trans (hu.objects.tokens c)
  · exact fun c => (hheap c).2.2.2.1.trans (hu.objects.seqId c)
  · exact fun c hce => ((hheap c).2.2.2.2 hce).trans (hu.objects.bytes c)

theorem TreeInv.evict (h : TreeInv s) (he : e ∈ s.entries) : TreeInv (s.evict e) := by
  obtain ⟨hentries, hroots, hnext, _, _, hheap⟩ := freeHolder_spec (s.detach e) e
  refine (h.detach he).same hentries hnext.ge (fun c _ => (hheap c).1) (fun c _ => (hheap c).2.1) ?_
  intro o _
  cases o with
  | none => exact hroots
  | some p => exact (hheap p).2.2.1

theorem sum_erase (f : ℕ → ℕ) {l : List ℕ} (he : e ∈ l) :
    (l.map f).sum = f e + ((l.erase e).map f).sum := by
  rw [((List.perm_cons_erase he).map f).sum_eq, List.map_cons, List.sum_cons]

theorem CacheInv.evict (h : CacheInv s) (he : e ∈ s.entries) : CacheInv (s.evict e) := by
  have hev := h.tree.evicted he
  have hlt := h.tree.lt e he
  have hmem : ∀ c, c ∈ (s.evict e).entries ↔ c ≠ e ∧ c ∈ s.entries := by
    intro c
    rw [hev.entries, h.tree.nodup.mem_erase_iff]
  have hne : ∀ c < s.next, c ≠ e → (s.heap c).seqId ≠ (s.heap e).seqId :=
    fun c hc hce heq => hce (h.distinct c hc e hlt heq)
  refine ⟨h.tree.evict he, ?_, ?_, ?_, ?_, ?_⟩
  · rw [hev.total, h.bytes, sum_erase _ he, Nat.add_sub_cancel_left, hev.entries]
    congr 1
    refine List.map_congr_left fun c hc => (hev.bytes c ?_).symm
    exact (h.tree.nodup.mem_erase_iff.1 hc).1
  · intro c hc c' hc'
    rw [hev.next] at hc hc'
    rw [hev.seqId, hev.seqId]
    exact h.distinct c hc c' hc'
  · intro c hc
    obtain ⟨hce, hc⟩ := (hmem c).1 hc
    rw [hev.freed, hev.seqId, List.mem_append, List.mem_singleton, not_or]
    exact ⟨h.held c hc, hne c (h.tree.lt c hc) hce⟩
  · intro c hc hnot
    rw [hev.next] at hc
    rw [hev.freed, hev.seqId, List.count_append]
    by_cases hce : c = e
    · rw [hce, List.count_eq_zero.2 (h.held e he), List.count_singleton_self]
    have hcs : c ∉ s.entries := fun hcs => hnot ((hmem c).2 ⟨hce, hcs⟩)
    rw [h.gone c hc hcs, List.count_singleton]
    simpa using (hne c hc hce).symm
  · intro q hq
    rw [hev.freed, List.mem_append, List.mem_singleton] at hq
    rcases hq with hq | rfl
    · obtain ⟨c, hc, hcs, hseq⟩ := h.freed q hq
      exact ⟨c, hev.next ▸ hc, fun hmem' => hcs ((hmem c).1 hmem').2, (hev.seqId c).trans hseq⟩
    · exact ⟨e, hev.next ▸ hlt, fun hmem' => ((hmem e).1 hmem').1 rfl, hev.seqId e⟩

omit [DecidableEq τ] in
theorem Shrunk.refl (s : PrefixCache τ) : Shrunk s s :=
  ⟨fun _ hc => hc, fun _ => rfl, fun _ => rfl, rfl⟩

omit [DecidableEq τ] in
theorem Shrunk.trans (h : Shrunk s s') (h' : Shrunk s' s'') : Shrunk s s'' :=
  ⟨fun _ hc => h.entries (h'.entries hc), fun c => (h'.tokens c).trans (h.tokens c),
    fun c => (h'.seqId c).trans (h.seqId c), h'.next.trans h.next⟩

theorem CacheInv.shrunk_evict (h : CacheInv s) (he : e ∈ s.entries) : Shrunk s (s.evict e) := by
  have hev := h.tree.evicted he
  refine { hev with entries := ?_ }
  rw [hev.entries]
  exact List.erase_subset

/-! ### Victims -/

theorem mem_sortedBy {key : ℕ → List ℤ} {l : List ℕ} : e ∈ sortedBy key l ↔ e ∈ l := by
  exact List.mem_insertionSort _

variable {protect : Option ℕ}

omit [DecidableEq τ] in
theorem mem_of_budgetVictim (hv : cfg.budgetVictim s protect = some e) :
    e ∈ s.entries ∧ some e ≠ protect := by
  unfold budgetVictim at hv
  have hsome : ∀ {l : List ℕ}, l.find? (fun e => decide (some e ≠ protect)) = some e →
      (∀ c ∈ l, c ∈ s.entries) → e ∈ s.entries ∧ some e ≠ protect := by
    intro l hl hsub
    have hok := List.find?_some hl
    rw [decide_eq_true_eq] at hok
    exact ⟨hsub e (List.mem_of_find?_eq_some hl), hok⟩
  split at hv
  · exact hsome hv fun c hc => List.mem_of_mem_filter (mem_sortedBy.1 hc)
  split at hv
  · exact hsome hv fun c hc => List.mem_of_mem_filter (mem_sortedBy.1 hc)
  · cases hv

omit [DecidableEq τ] in
theorem evictOne_spec (hv : cfg.evictOne s protect = some s') :
    ∃ e ∈ s.entries, some e ≠ protect ∧ s' = s.evict e := by
  unfold evictOne at hv
  split at hv
  · rename_i e he
    have hok := List.find?_some he
    rw [decide_eq_true_eq] at hok
    refine ⟨e, ?_, hok, (Option.some.inj hv).symm⟩
    exact List.mem_of_mem_filter (mem_sortedBy.1 (List.mem_of_find?_eq_some he))
  · rw [Option.map_eq_some_iff] at hv
    obtain ⟨e, he, rfl⟩ := hv
    have hok := List.find?_some he
    rw [decide_eq_true_eq] at hok
    exact ⟨e, mem_sortedBy.1 (List.mem_of_find?_eq_some he), hok, rfl⟩

/-! ### The loops -/

theorem CacheInv.forkWithEvictRetry (h : CacheInv s) (cfg : PrefixCacheConfig) (protect : Option ℕ)
    (call : ForkCall) (fuel : ℕ) (bridge : ℕ → ForkCall → ForkAnswer) :
    CacheInv (cfg.forkWithEvictRetry protect call fuel bridge s).1 ∧
      Shrunk s (cfg.forkWithEvictRetry protect call fuel bridge s).1 := by
  induction fuel generalizing bridge s with
  | zero => exact ⟨h, Shrunk.refl s⟩
  | succ fuel ih =>
    unfold forkWithEvictRetry
    split
    · exact ⟨h, Shrunk.refl s⟩
    · exact ⟨h, Shrunk.refl s⟩
    split
    · exact ⟨h, Shrunk.refl s⟩
    rename_i s' hs'
    obtain ⟨e, he, _, rfl⟩ := evictOne_spec hs'
    obtain ⟨hinv, hshrunk⟩ := ih (h.evict he) fun i => bridge (i + 1)
    exact ⟨hinv, (h.shrunk_evict he).trans hshrunk⟩

theorem CacheInv.forkWithEvictRetry_end (h : CacheInv s) (protect : Option ℕ) (call : ForkCall)
    (bridge : ℕ → ForkCall → ForkAnswer) {fuel : ℕ} (hfuel : s.entries.length < fuel) :
    cfg.forkWithEvictRetry protect call (fuel + 1) bridge s =
      cfg.forkWithEvictRetry protect call fuel bridge s := by
  induction fuel generalizing bridge s with
  | zero => omega
  | succ fuel ih =>
    rw [PrefixCacheConfig.forkWithEvictRetry]
    conv_rhs => rw [PrefixCacheConfig.forkWithEvictRetry]
    split
    · rfl
    · rfl
    split
    · rfl
    rename_i s' hs'
    obtain ⟨e, he, _, rfl⟩ := evictOne_spec hs'
    refine ih (h.evict he) _ ?_
    rw [(h.tree.evicted he).entries, List.length_erase_of_mem he]
    have hpos := List.length_pos_of_mem he
    omega

theorem CacheInv.evictOverBudget (h : CacheInv s) (cfg : PrefixCacheConfig) (protect : Option ℕ)
    {fuel : ℕ} (hfuel : s.entries.length ≤ fuel) :
    CacheInv (cfg.evictOverBudget protect fuel s) ∧ Shrunk s (cfg.evictOverBudget protect fuel s) ∧
      cfg.budgetVictim (cfg.evictOverBudget protect fuel s) protect = none ∧
      ∀ p ∈ s.entries, protect = some p → p ∈ (cfg.evictOverBudget protect fuel s).entries := by
  induction fuel generalizing s with
  | zero =>
    refine ⟨h, Shrunk.refl s, ?_, fun p hp _ => hp⟩
    have hempty : s.entries = [] := List.length_eq_zero_iff.1 (Nat.le_zero.1 hfuel)
    rw [Option.eq_none_iff_forall_ne_some]
    intro e he
    have hmem : e ∈ s.entries := (mem_of_budgetVictim he).1
    rw [hempty] at hmem
    cases hmem
  | succ fuel ih =>
    unfold evictOverBudget
    split
    · rename_i hnone
      exact ⟨h, Shrunk.refl s, hnone, fun p hp _ => hp⟩
    rename_i e hv
    obtain ⟨he, hne⟩ := mem_of_budgetVictim hv
    have hentries := (h.tree.evicted he).entries
    have hlen : (s.evict e).entries.length ≤ fuel := by
      rw [hentries, List.length_erase_of_mem he]
      omega
    obtain ⟨hinv, hshrunk, hdone, hkeep⟩ := ih (h.evict he) hlen
    refine ⟨hinv, (h.shrunk_evict he).trans hshrunk, hdone, ?_⟩
    intro p hp hpe
    refine hkeep p ?_ hpe
    rw [hentries, h.tree.nodup.mem_erase_iff]
    refine ⟨?_, hp⟩
    rintro rfl
    exact hne hpe.symm

theorem CacheInv.clearFrom (h : CacheInv s) (fuel : ℕ) : CacheInv (clearFrom fuel s) := by
  induction fuel generalizing s with
  | zero => exact h
  | succ fuel ih =>
    unfold clearFrom
    split
    · exact h
    · rename_i e he
      exact ih (h.evict (List.mem_of_getLast? he))

/-! ### There is always somebody to evict -/

theorem TreeInv.isLeaf_of (h : TreeInv s) (he : e ∈ s.entries)
    (hleaf : IsLeaf (s.strings : Set (List τ)) (s.tokens e)) : s.isLeaf e = true := by
  obtain ⟨_, hsib⟩ := h.siblings (some e) fun p hp => by
    rw [← Option.some.inj hp]
    exact he
  unfold isLeaf
  rw [List.isEmpty_iff]
  apply List.eq_nil_iff_forall_not_mem.2
  intro c hc
  obtain ⟨hce, hpc⟩ := (hsib c).1 hc
  have hpar := h.parent c hce
  unfold parentTokens at hpar
  rw [hpc] at hpar
  exact hleaf.2 _ (mem_strings.2 ⟨c, hce, rfl⟩) hpar

variable {p : ℕ}

theorem TreeInv.chain (h : TreeInv s) (hleaf : ∀ e ∈ s.entries, s.isLeaf e = true → e = p)
    (he : e ∈ s.entries) :
    s.tokens e <+: s.tokens p := by
  refine prefix_of_leaf (S := s.strings) ?_ (mem_strings.2 ⟨e, he, rfl⟩)
  intro v hv
  obtain ⟨c, hc, rfl⟩ := mem_strings.1 (Finset.mem_coe.1 hv.1)
  rw [hleaf c hc (h.isLeaf_of hc hv)]

/-- **With two entries there is one with at most one child that is not protected.** -/
theorem exists_slot_victim (h : TreeInv s) (p : ℕ) (hlen : 2 ≤ s.entries.length) :
    ∃ e ∈ s.entries, e ≠ p ∧ (s.heap e).children.length ≤ 1 := by
  by_contra hno
  push Not at hno
  -- then `p` is the only leaf, and the others form a chain with it
  have hchain : ∀ e ∈ s.entries, s.tokens e <+: s.tokens p := by
    intro e he
    refine h.chain ?_ he
    intro c hc hleaf
    by_contra hcp
    have hlt := hno c hc hcp
    unfold isLeaf at hleaf
    rw [List.isEmpty_iff] at hleaf
    rw [hleaf] at hlt
    simp at hlt
  obtain ⟨e, he, hep⟩ : ∃ e ∈ s.entries, e ≠ p := by
    by_contra hall
    push Not at hall
    have hsub : s.entries ⊆ [p] := fun e he => List.mem_singleton.2 (hall e he)
    have hle := (h.nodup.subperm hsub).length_le
    rw [List.length_singleton] at hle
    omega
  obtain ⟨hnodup, hsib⟩ := h.siblings (some e) fun q hq => by
    rw [← Option.some.inj hq]
    exact he
  -- two children of an entry of a chain are the same
  have hlt : 1 < (s.siblings (some e)).length := hno e he hep
  generalize s.siblings (some e) = l at hnodup hsib hlt
  cases l with
  | nil => simp at hlt
  | cons c l =>
    cases l with
    | nil => simp at hlt
    | cons c' l =>
      obtain ⟨hc, hpc⟩ := (hsib c).1 List.mem_cons_self
      obtain ⟨hc', hpc'⟩ := (hsib c').1 (List.mem_cons_of_mem _ List.mem_cons_self)
      have hpar := h.parent c hc
      have hpar' := h.parent c' hc'
      unfold parentTokens at hpar hpar'
      rw [hpc] at hpar
      rw [hpc'] at hpar'
      have heq := child_unique (hchain c hc) (hchain c' hc')
        (mem_strings.2 ⟨c, hc, rfl⟩) (mem_strings.2 ⟨c', hc', rfl⟩)
        hpar hpar'
      rw [h.inj c hc c' hc' heq] at hnodup
      simp at hnodup

theorem TreeInv.totalUniqueTokens_le (h : TreeInv s)
    (hchain : ∀ e ∈ s.entries, s.tokens e <+: s.tokens p) :
    s.totalUniqueTokens ≤ (s.tokens p).length := by
  have hedge : ∀ e ∈ s.entries, ((s.tokens e).length : ℤ) - s.parentLen e =
      (((s.tokens e).length - parentLength (s.parentTokens e) : ℕ) : ℤ) := by
    intro e he
    have hpar := h.parent e he
    unfold parentLen parentTokens at *
    have hp : (s.heap e).parent = s.parent e := rfl
    rw [hp]
    cases hpe : s.parent e with
    | none => simp [parentLength]
    | some q =>
      rw [hpe] at hpar
      have hle := hpar.2.1.length_le
      simp only [parentLength, Option.map_some, Option.getD_some]
      omega
  have hsum := sum_edges_le (t := s.tokens p) (I := s.entries.toFinset) (f := s.tokens)
    (S := (s.strings : Set (List τ)))
    (fun e he e' he' heq => h.inj e (List.mem_toFinset.1 he) e' (List.mem_toFinset.1 he') heq)
    (fun e he => mem_strings.2 ⟨e, List.mem_toFinset.1 he, rfl⟩)
    (fun e he => h.parent e (List.mem_toFinset.1 he))
    (fun e he => hchain e (List.mem_toFinset.1 he))
  unfold totalUniqueTokens
  rw [List.map_congr_left hedge, ← List.sum_toFinset _ h.nodup]
  exact_mod_cast hsum

/-- **If there are more unique tokens than the protected entry has, there is a leaf that is
not protected.** -/
theorem exists_leaf_victim (h : TreeInv s)
    (hover : ((s.tokens p).length : ℤ) < s.totalUniqueTokens) :
    ∃ e ∈ s.entries, e ≠ p ∧ s.isLeaf e = true := by
  by_contra hno
  push Not at hno
  have hchain : ∀ e ∈ s.entries, s.tokens e <+: s.tokens p := by
    intro e he
    refine h.chain ?_ he
    intro c hc hleaf
    by_contra hcp
    exact hno c hc hcp hleaf
  have hle := h.totalUniqueTokens_le hchain
  omega

theorem budget_of_no_victim (h : TreeInv s) (hlen : (s.tokens p).length ≤ cfg.maxCachedTokens)
    (hmax : 1 ≤ cfg.maxEntries) (hnone : cfg.budgetVictim s (some p) = none) :
    s.entries.length ≤ cfg.maxEntries ∧ s.totalUniqueTokens ≤ cfg.maxCachedTokens := by
  unfold budgetVictim at hnone
  have hslots : cfg.overSlots s = false := by
    by_contra hover
    rw [Bool.not_eq_false] at hover
    rw [if_pos hover] at hnone
    unfold overSlots at hover
    rw [decide_eq_true_eq] at hover
    obtain ⟨e, he, hep, hchild⟩ := exists_slot_victim h p (by omega)
    have hno := List.find?_eq_none.1 hnone e
      (mem_sortedBy.2 (List.mem_filter.2 ⟨he, by simpa using hchild⟩))
    simp at hno
    exact hep hno
  have hbytes : cfg.overBytes s = false := by
    by_contra hover
    rw [Bool.not_eq_false] at hover
    rw [hslots, if_pos hover] at hnone
    unfold overBytes at hover
    rw [decide_eq_true_eq] at hover
    obtain ⟨e, he, hep, hleaf⟩ := exists_leaf_victim h (p := p) (by omega)
    have hno := List.find?_eq_none.1 hnone e (mem_sortedBy.2 (List.mem_filter.2 ⟨he, hleaf⟩))
    simp at hno
    exact hep hno
  unfold overSlots at hslots
  unfold overBytes at hbytes
  rw [decide_eq_false_iff_not] at hslots hbytes
  exact ⟨by omega, by omega⟩

/-! ### Registering -/

/-- The new object of a registration, before it is attached. -/
def PrefixCache.alloc (s : PrefixCache τ) (entry : PrefixEntry τ) : PrefixCache τ :=
  { s with
    clock := s.clock + 1
    heap := Function.update s.heap s.next entry
    next := s.next + 1
    kdaCkptBytes := s.kdaCkptBytes + entry.kdaCkptBytes }

omit [DecidableEq τ] in
theorem PrefixCache.heap_alloc (s : PrefixCache τ) (entry : PrefixEntry τ) (c : ℕ) :
    (s.alloc entry).heap c = if c = s.next then entry else s.heap c := by
  unfold alloc
  simp [Function.update_apply]

theorem TreeInv.alloc (h : TreeInv s) (entry : PrefixEntry τ) : TreeInv (s.alloc entry) := by
  have hne : ∀ c ∈ s.entries, c ≠ s.next := fun c hc heq => absurd (h.lt c hc) (by omega)
  have hheap : ∀ c ∈ s.entries, (s.alloc entry).heap c = s.heap c := by
    intro c hc
    rw [PrefixCache.heap_alloc, if_neg (hne c hc)]
  refine h.same rfl (Nat.le_succ _) ?_ ?_ ?_
  · intro c hc
    unfold PrefixCache.tokens
    rw [hheap c hc]
  · intro c hc
    unfold PrefixCache.parent
    rw [hheap c hc]
  · intro o ho
    cases o with
    | none => rfl
    | some p =>
      unfold PrefixCache.siblings
      simp only [hheap p (ho p rfl)]

theorem CacheInv.attach (h : CacheInv s) (entry : PrefixEntry τ) (hne : entry.tokens ≠ [])
    (hnew : entry.tokens ∉ s.strings) (hchildren : entry.children = [])
    (hfresh : ∀ e < s.next, (s.heap e).seqId ≠ entry.seqId) :
    CacheInv ((s.alloc entry).attach s.next) ∧
      ((s.alloc entry).attach s.next).entries = s.entries ++ [s.next] ∧
      ((s.alloc entry).attach s.next).tokens s.next = entry.tokens ∧
      (((s.alloc entry).attach s.next).heap s.next).seqId = entry.seqId := by
  have htree := h.tree.alloc entry
  have hself : (s.alloc entry).heap s.next = entry := by
    rw [heap_alloc, if_pos rfl]
  have hnext : s.next ∉ (s.alloc entry).entries := fun hmem => absurd (h.tree.lt _ hmem) (by omega)
  have htokens : (s.alloc entry).tokens s.next = entry.tokens := by
    unfold tokens
    rw [hself]
  have hnone : ((s.alloc entry).heap s.next).children = [] := by
    rw [hself]
    exact hchildren
  have hstrings : (s.alloc entry).strings = s.strings := by
    unfold strings
    congr 1
    refine List.map_congr_left fun c hc => ?_
    have hcn : c ≠ s.next := fun heq => hnext (heq ▸ hc)
    unfold tokens
    rw [heap_alloc, if_neg hcn]
  have hattach := htree.attach hnext (Nat.lt_succ_self _) (htokens ▸ hne) hnone
    (by rw [hstrings, htokens]; exact hnew)
  -- the links of the attached object
  obtain ⟨hreach, _⟩ := htree.descend_spec ((s.alloc entry).tokens s.next)
    (((s.alloc entry).tokens s.next).length - 1)
  have hlive : ∀ p, (s.alloc entry).descend ((s.alloc entry).tokens s.next)
      (((s.alloc entry).tokens s.next).length - 1) = some p → p ∈ s.entries :=
    fun p hp => (hreach p hp).1
  have hl := linked_attach (s.alloc entry) rfl (fun heq => hnext (hlive _ heq)) rfl
    hnone (fun hmem => by
      have hsib := (htree.siblings _ hlive).2 s.next
      exact hnext (hsib.1 (List.mem_of_mem_filter hmem)).1)
  have hseq : ∀ c, (((s.alloc entry).attach s.next).heap c).seqId =
      if c = s.next then entry.seqId else (s.heap c).seqId := by
    intro c
    rw [hl.objects.seqId, heap_alloc]
    split <;> rfl
  have hbytes : ∀ c, (((s.alloc entry).attach s.next).heap c).kdaCkptBytes =
      if c = s.next then entry.kdaCkptBytes else (s.heap c).kdaCkptBytes := by
    intro c
    rw [hl.objects.bytes, heap_alloc]
    split <;> rfl
  have hentries : ((s.alloc entry).attach s.next).entries = s.entries ++ [s.next] := hl.entries
  have hnexts : ((s.alloc entry).attach s.next).next = s.next + 1 := hl.objects.next
  have hfreed : ((s.alloc entry).attach s.next).freed = s.freed := hl.objects.freed
  have hne_of : ∀ c ∈ s.entries, c ≠ s.next := fun c hc heq => hnext (heq ▸ hc)
  refine ⟨⟨hattach, ?_, ?_, ?_, ?_, ?_⟩, hentries, (hl.objects.tokens _).trans htokens,
    by rw [hseq, if_pos rfl]⟩
  · rw [hl.objects.total, hentries, List.map_append, List.sum_append]
    have hold : (s.entries.map fun c => (((s.alloc entry).attach s.next).heap c).kdaCkptBytes) =
        s.entries.map fun c => (s.heap c).kdaCkptBytes := by
      refine List.map_congr_left fun c hc => ?_
      rw [hbytes, if_neg (hne_of c hc)]
    rw [hold, ← h.bytes, List.map_singleton, hbytes, if_pos rfl]
    rfl
  · intro c hc c' hc' heq
    rw [hseq, hseq] at heq
    split_ifs at heq with h₁ h₂ h₂
    · rw [h₁, h₂]
    · exact absurd heq.symm (hfresh c' (by omega))
    · exact absurd heq (hfresh c (by omega))
    · exact h.distinct c (by omega) c' (by omega) heq
  · intro c hc
    rw [hentries, List.mem_append, List.mem_singleton] at hc
    rw [hseq, hfreed]
    rcases hc with hc | rfl
    · rw [if_neg (hne_of c hc)]
      exact h.held c hc
    rw [if_pos rfl]
    intro hmem
    obtain ⟨c, hc, _, hseq'⟩ := h.freed _ hmem
    exact hfresh c hc hseq'
  · intro c hc hnot
    rw [hentries, List.mem_append, List.mem_singleton, not_or] at hnot
    rw [hseq, if_neg hnot.2, hfreed]
    exact h.gone c (by omega) hnot.1
  · intro q hq
    rw [hfreed] at hq
    obtain ⟨c, hc, hcs, hseq'⟩ := h.freed q hq
    refine ⟨c, by rw [hnexts]; omega, ?_, ?_⟩
    · rw [hentries, List.mem_append, List.mem_singleton, not_or]
      exact ⟨hcs, by omega⟩
    · rw [hseq, if_neg (by omega)]
      exact hseq'

variable {tokens : List τ}

theorem CacheInv.insert (h : CacheInv s) (cfg : PrefixCacheConfig) {holder : ℕ} (ckpts : List ℕ)
    (bytes : ℕ) (hne : tokens ≠ []) (hnew : tokens ∉ s.strings)
    (hfresh : ∀ e < s.next, (s.heap e).seqId ≠ holder) :
    CacheInv (cfg.insert s tokens holder ckpts bytes) ∧
      (1 ≤ cfg.maxEntries → tokens.length ≤ cfg.maxCachedTokens →
        Registered cfg (cfg.insert s tokens holder ckpts bytes) tokens holder) := by
  generalize hentry : (⟨tokens, holder, s.clock + 1, none, [], ckpts.insertionSort (· ≤ ·),
    if ckpts = [] then 0 else bytes⟩ : PrefixEntry τ) = entry
  obtain ⟨hinv, hentries, htokens, hseq⟩ := h.attach entry (by rw [← hentry]; exact hne)
    (by rw [← hentry]; exact hnew) (by rw [← hentry]) (by rw [← hentry]; exact hfresh)
  have heq : cfg.insert s tokens holder ckpts bytes = cfg.evictOverBudget (some s.next)
      ((s.alloc entry).attach s.next).entries.length ((s.alloc entry).attach s.next) := by
    rw [← hentry]
    rfl
  obtain ⟨hinv', hshrunk, hdone, hkeep⟩ :=
    hinv.evictOverBudget cfg (some s.next) (le_refl _)
  rw [heq]
  refine ⟨hinv', ?_⟩
  intro hmax hlen
  have hmem := hkeep s.next (by rw [hentries]; simp) rfl
  have htok : (cfg.evictOverBudget (some s.next) ((s.alloc entry).attach s.next).entries.length
      ((s.alloc entry).attach s.next)).tokens s.next = tokens := by
    rw [hshrunk.tokens, htokens, ← hentry]
  obtain ⟨hslots, hbudget⟩ := budget_of_no_victim hinv'.tree (htok.symm ▸ hlen) hmax hdone
  exact ⟨⟨s.next, hmem, htok, by rw [hshrunk.seqId, hseq, ← hentry]⟩, hslots, hbudget⟩

theorem of_skipReason (h : TreeInv s) (hskip : cfg.skipReason s tokens = none) :
    tokens ≠ [] ∧ tokens ∉ s.strings ∧ tokens.length ≤ cfg.maxCachedTokens := by
  unfold skipReason at hskip
  split_ifs at hskip with hempty hexact hcap hbudget
  refine ⟨hempty, ?_, by omega⟩
  intro hmem
  exact hexact ((h.hasExact_iff tokens).2 hmem)

theorem CacheInv.register (h : CacheInv s) {src holder bytes : ℕ} {ckpts : List ℕ}
    {bridge : ℕ → ForkCall → ForkAnswer} (hfresh : ∀ e < s.next, (s.heap e).seqId ≠ holder) :
    CacheInv (cfg.register s tokens src holder ckpts bytes bridge).1 ∧ (1 ≤ cfg.maxEntries →
        (cfg.register s tokens src holder ckpts bytes bridge).2 = some true →
        Registered cfg (cfg.register s tokens src holder ckpts bytes bridge).1 tokens holder) := by
  unfold PrefixCacheConfig.register
  cases hskip : cfg.skipReason s tokens with
  | some reason =>
    refine ⟨h.same (.of_eq rfl rfl rfl rfl rfl rfl), ?_⟩
    intro _ hfalse
    cases hfalse
  | none =>
    obtain ⟨hne, hnew, hlen⟩ := of_skipReason h.tree hskip
    have h₀ : CacheInv { s with lastSkip := none } := h.same (.of_eq rfl rfl rfl rfl rfl rfl)
    obtain ⟨hinv, hshrunk⟩ := h₀.forkWithEvictRetry cfg none ⟨src, holder, true, 0, 0⟩
      (s.entries.length + 1) bridge
    simp only [PrefixCacheConfig.fork]
    generalize cfg.forkWithEvictRetry none _ _ bridge _ = r at hinv hshrunk
    obtain ⟨s', result⟩ := r
    cases result with
    | raised =>
      refine ⟨hinv, ?_⟩
      intro _ hfalse
      cases hfalse
    | exhausted =>
      refine ⟨hinv.same (.of_eq rfl rfl rfl rfl rfl rfl), ?_⟩
      intro _ hfalse
      cases hfalse
    | granted n =>
      -- the evictions took nothing but entries away
      have hnew' : tokens ∉ s'.strings := by
        intro hmem
        obtain ⟨e, he, htok⟩ := PrefixCache.mem_strings.1 hmem
        exact hnew (PrefixCache.mem_strings.2
          ⟨e, hshrunk.entries he, (hshrunk.tokens e).symm.trans htok⟩)
      have hfresh' : ∀ e < s'.next, (s'.heap e).seqId ≠ holder := by
        intro e he
        have hnext : s'.next = s.next := hshrunk.next
        have hseq : (s'.heap e).seqId = (s.heap e).seqId := hshrunk.seqId e
        rw [hseq]
        exact hfresh e (hnext ▸ he)
      obtain ⟨hinv', hreg⟩ := hinv.insert cfg ckpts bytes hne hnew' hfresh'
      exact ⟨hinv', fun hmax _ => hreg hmax hlen⟩

/-! ### Runs -/

/-- The caller's guarantee: the sequence of a holder to be registered is not that of an
earlier one. -/
def Fresh (s : PrefixCache τ) : CacheOp τ → Prop
  | .register _ _ holder _ _ _ => ∀ e < s.next, (s.heap e).seqId ≠ holder
  | _ => True

theorem CacheInv.init : CacheInv (init : PrefixCache τ) := by
  refine ⟨TreeInv.init, rfl, ?_, ?_, ?_, ?_⟩
  · intro e he
    exact absurd he (Nat.not_lt_zero e)
  · intro e he
    cases he
  · intro e he
    exact absurd he (Nat.not_lt_zero e)
  · intro q hq
    cases hq

theorem CacheInv.step (h : CacheInv s) {op : CacheOp τ} (hok : Fresh s op)
    (hstep : cfg.step s op = some s') : CacheInv s' := by
  cases op with
  | register tokens src holder ckpts bytes bridge =>
    cases hstep
    exact (h.register hok).1
  | lookup prompt valid =>
    cases hstep
    exact h.same (sameTree_lookup s prompt valid)
  | lookupMidEdge prompt grid subgrid =>
    simp only [PrefixCacheConfig.step, Option.ite_none_right_eq_some, Option.some.injEq] at hstep
    obtain ⟨_, rfl⟩ := hstep
    exact h.same (sameTree_lookupMidEdge s prompt grid subgrid)
  | lookupKdaCkpt prompt =>
    cases hstep
    exact h.same (sameTree_lookupKdaCkpt s prompt)
  | noteKdaCkptHit e =>
    cases hstep
    exact h.same ((sameTree_touch s e).trans (.of_eq rfl rfl rfl rfl rfl rfl))
  | forkFrom e dst reuseLen reserveTokens bridge =>
    cases hstep
    unfold PrefixCacheConfig.forkFrom
    simp only
    split
    · exact h
    have hfork := (h.forkWithEvictRetry cfg (some e) ⟨(s.heap e).seqId, dst, false,
      (reuseLen.filter fun r => decide (r < (s.tokens e).length)).getD 0, reserveTokens⟩
      (s.entries.length + 1) bridge).1
    unfold PrefixCacheConfig.fork
    split
    · rename_i heq
      rw [heq] at hfork
      exact hfork
    · rename_i heq
      rw [heq] at hfork
      exact hfork
    · rename_i heq
      rw [heq] at hfork
      exact hfork
  | evictForAdmission =>
    cases hstep
    unfold PrefixCacheConfig.evictForAdmission
    split
    · exact h
    rename_i s' hs'
    obtain ⟨e, he, _, rfl⟩ := evictOne_spec hs'
    exact h.evict he
  | dropLeaf e =>
    cases hstep
    unfold PrefixCache.dropLeaf
    split
    · exact h
    rename_i hnot
    rw [not_or, not_not] at hnot
    exact h.evict hnot.2
  | clear =>
    cases hstep
    exact h.clearFrom _

/-- **The prefix cache over all runs.**  The tree is the forest of the registered strings,
the ledger adds up, every registration that succeeds leaves its entry there and the budgets
met, and the loops end. -/
theorem prefixCache_of_run {ops : List (CacheOp τ)}
    (hrun : GuardedRun cfg.step Fresh PrefixCache.init ops s) :
    CacheInv s ∧
    (∀ tokens src holder ckpts bytes bridge,
      Fresh s (.register tokens src holder ckpts bytes bridge) → 1 ≤ cfg.maxEntries →
      (cfg.register s tokens src holder ckpts bytes bridge).2 = some true →
      Registered cfg (cfg.register s tokens src holder ckpts bytes bridge).1 tokens holder) ∧
    (∀ protect fuel, s.entries.length ≤ fuel →
      cfg.budgetVictim (cfg.evictOverBudget protect fuel s) protect = none) ∧
    ∀ protect call bridge fuel, s.entries.length < fuel →
      cfg.forkWithEvictRetry protect call (fuel + 1) bridge s =
        cfg.forkWithEvictRetry protect call fuel bridge s := by
  have hinv : CacheInv s := hrun.invariant (fun _ _ _ h hok hstep => h.step hok hstep) CacheInv.init
  refine ⟨hinv, ?_, ?_, ?_⟩
  · intro tokens src holder ckpts bytes bridge hfresh hmax hreg
    exact (hinv.register hfresh).2 hmax hreg
  · intro protect fuel hfuel
    exact (hinv.evictOverBudget cfg protect hfuel).2.2.1
  · intro protect call bridge fuel hfuel
    exact hinv.forkWithEvictRetry_end protect call bridge hfuel

def smallCache : PrefixCacheConfig := ⟨8, 1, 0, 0⟩

def grantAll : ℕ → ForkCall → ForkAnswer := fun _ _ => .granted 0

/-- Two nested prompts are registered, and the shorter one makes room. -/
theorem prefixCache_of_run_nested : ∃ s : PrefixCache ℕ,
    GuardedRun smallCache.step Fresh PrefixCache.init
      [.register [1] 0 10 [] 0 grantAll, .register [1, 2] 0 11 [64] 7 grantAll] s ∧
    CacheInv s ∧ s.freed = [10] ∧ s.kdaCkptBytes = 7 ∧ s.totalUniqueTokens = 2 := by
  obtain ⟨s₁, s₂, hs₁, hnext, hs₂, hfreed, hbytes, htotal⟩ : ∃ s₁ s₂ : PrefixCache ℕ,
      smallCache.step init (.register [1] 0 10 [] 0 grantAll) = some s₁ ∧
      (∀ e < s₁.next, (s₁.heap e).seqId ≠ 11) ∧
      smallCache.step s₁ (.register [1, 2] 0 11 [64] 7 grantAll) = some s₂ ∧
      s₂.freed = [10] ∧ s₂.kdaCkptBytes = 7 ∧ s₂.totalUniqueTokens = 2 :=
    ⟨_, _, rfl, by decide, rfl, by decide, by decide, by decide⟩
  have hrun : GuardedRun smallCache.step Fresh init
      [.register [1] 0 10 [] 0 grantAll, .register [1, 2] 0 11 [64] 7 grantAll] s₂ :=
    .cons (fun e he => absurd he (Nat.not_lt_zero e)) hs₁ (.cons hnext hs₂ (.nil s₂))
  exact ⟨s₂, hrun, (prefixCache_of_run hrun).1, hfreed, hbytes, htotal⟩

end LayerStorm.Orchestrator
