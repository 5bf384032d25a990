import LayerStorm.Daemon.Coherence

/-!
# Token accounting in the lifecycle manager

Every request is known by a token.  The token index and the command-sequence map
should hold exactly the tokens that have been neither completed nor cancelled.  They
do, as long as no request is answered at once: for an expert that is hot, or being
drained, `ensureResident` queues the completion and leaves the token in both indexes
for good.

## Main results

* `tokenAccounting_of_run` — every run whose calls meet the condition accounts for its
  tokens.
* `hit_token_stays` — without it, a completed token stays in the index.
-/

namespace LayerStorm.Daemon

open Lib Memory
open Function Manager GuardedRun List

variable {K : Type} [DecidableEq K]

/-! ### The property -/

inductive TokenEvent
  | completed (token : ℕ)
  | cancelled (token : ℕ)
  deriving DecidableEq

/-- The manager and what has happened to its tokens: the completions `poll` has
returned and the cancellations that found their token. -/
structure History (K : Type) where
  manager : Manager K
  log : List TokenEvent

omit [DecidableEq K] in
/-- The tokens of completions of requests. -/
def returned (out : List (LifecycleCompletion K)) : List ℕ :=
  (out.filter fun c => !c.isEviction).map (·.token)

/-- What a call adds to the log. -/
def Manager.events (m : Manager K) (a : Action K) (r : PollResult K) : List TokenEvent :=
  match a with
  | .cancel token => if m.tokenIndex token = none then [] else [.cancelled token]
  | _ => (returned r.lifecycle).map .completed

/-- One call, with its log. -/
def History.step (h : History K) (a : Action K) : Option (History K) :=
  (h.manager.perform a).map fun s => ⟨s.1, h.log ++ h.manager.events a s.2⟩

/-- A request is open: its token has been handed out, it has no completion, returned or
queued, and it has not been cancelled. -/
def History.Open (h : History K) (t : ℕ) : Prop :=
  (1 ≤ t ∧ t < h.manager.nextToken) ∧ .completed t ∉ h.log ∧
    (∀ c ∈ h.manager.pendingCompletions, c.token ≠ t) ∧ .cancelled t ∉ h.log

/-- **Token accounting.** -/
structure TokenAccounting (h : History K) : Prop where
  /-- A token has at most one completion. -/
  once : ∀ t, h.log.count (.completed t) ≤ 1
  notAfterCancel : h.log.Pairwise fun e e' => ∀ t, e = .cancelled t → e' ≠ .completed t
  indexExact : ∀ t, h.manager.tokenIndex t ≠ none ↔ h.Open t
  /-- So does the command-sequence map. -/
  cmdSeqExact : ∀ t, (∃ cmdSeq, (cmdSeq, t) ∈ h.manager.cmdSeqToToken) ↔ h.Open t

/-- A request for the entry would be answered at once. -/
def AnswersAtOnce (m : Manager K) (k : K) (g : ℕ) : Prop :=
  (m.gpuEntry k g).tier.isReady ∨ (m.gpuEntry k g).tier = .draining

/-- A call requests no expert that is ready, or being drained, on its GPU. -/
def JoinsChain (m : Manager K) : Action K → Prop
  | .ensureResident k g _ _ => ¬ AnswersAtOnce m k g
  | .ensureResidents g _ reqs _ => ∀ req ∈ reqs, ¬ AnswersAtOnce m req.1 g
  | _ => True

/-! ### The invariant -/

/-- **The invariant**, where the tokens `C` have been cancelled and `A` answered. -/
structure TokenInv (m : Manager K) (C A : List ℕ) : Prop where
  /-- The index points from a token to the entry with its interest. -/
  index : ∀ t k g, m.tokenIndex t = some (k, g) ↔ ∃ i ∈ (m.gpuEntry k g).interests, i.token = t
  distinct : ∀ k g, ((m.gpuEntry k g).interests.map (·.token)).Nodup
  /-- The command-sequence map has one pair for each interest. -/
  cmdSeq : ∀ c t, (c, t) ∈ m.cmdSeqToToken ↔
    ∃ k g, ∃ i ∈ (m.gpuEntry k g).interests, i.cmdSeq = c ∧ i.token = t
  cmdSeqNodup : m.cmdSeqToToken.Nodup
  answered : A.Nodup
  apart : ∀ t ∈ A, t ∉ C
  handedOut : ∀ t, (1 ≤ t ∧ t < m.nextToken) ↔ m.tokenIndex t ≠ none ∨ t ∈ A ∨ t ∈ C
  settled : ∀ t, t ∈ A ∨ t ∈ C → m.tokenIndex t = none
  nextPos : 1 ≤ m.nextToken

variable {m m' : Manager K} {k : K} {g : ℕ} {C A : List ℕ}

omit [DecidableEq K] in
theorem TokenInv.congr (h : TokenInv m C A)
    (hint : ∀ k g, (m'.gpuEntry k g).interests = (m.gpuEntry k g).interests)
    (hindex : m'.tokenIndex = m.tokenIndex) (hcmd : m'.cmdSeqToToken = m.cmdSeqToToken)
    (hnext : m'.nextToken = m.nextToken) : TokenInv m' C A := by
  refine ⟨?_, ?_, ?_, ?_, h.answered, h.apart, ?_, ?_, ?_⟩
  · intro t k g
    rw [hindex, hint]
    exact h.index t k g
  · intro k g
    rw [hint]
    exact h.distinct k g
  · intro c t
    simp only [hcmd, hint]
    exact h.cmdSeq c t
  · rw [hcmd]
    exact h.cmdSeqNodup
  · rw [hindex, hnext]
    exact h.handedOut
  · rw [hindex]
    exact h.settled
  · rw [hnext]
    exact h.nextPos

/-! ### The moves of a token -/

omit [DecidableEq K] in
theorem TokenInv.entry_unique (h : TokenInv m C A) {k' : K} {g' : ℕ} {i i' : Interest}
    (hi : i ∈ (m.gpuEntry k g).interests) (hi' : i' ∈ (m.gpuEntry k' g').interests)
    (ht : i.token = i'.token) : k' = k ∧ g' = g := by
  have hidx := (h.index i.token k g).2 ⟨i, hi, rfl⟩
  have hidx' := (h.index i.token k' g').2 ⟨i', hi', ht.symm⟩
  rw [hidx] at hidx'
  simp only [Option.some.injEq, Prod.mk.injEq] at hidx'
  exact ⟨hidx'.1.symm, hidx'.2.symm⟩

theorem interests_addInterest (m : Manager K) (k : K) (g : ℕ) (i : Interest) (k' : K) (g' : ℕ) :
    ((m.addInterest k g i).gpuEntry k' g').interests =
      if k' = k ∧ g' = g then (m.gpuEntry k g).interests ++ [i]
      else (m.gpuEntry k' g').interests := by
  unfold addInterest
  rw [gpuEntry_setGpuEntry]
  split <;> rfl

theorem register_indexes (m : Manager K) (k : K) (g cmdSeq : ℕ) :
    (m.register k g cmdSeq).tokenIndex = update m.tokenIndex m.nextToken (some (k, g)) ∧
      (m.register k g cmdSeq).cmdSeqToToken = (cmdSeq, m.nextToken) :: m.cmdSeqToToken ∧
      (m.register k g cmdSeq).nextToken = m.nextToken + 1 ∧
      (m.register k g cmdSeq).pendingCompletions = m.pendingCompletions := by
  unfold register initHostTier
  simp only
  split <;> exact ⟨rfl, rfl, rfl, rfl⟩

section

variable (h : TokenInv m C A)
include h

/-- **A new request** that joins an entry. -/
theorem TokenInv.issue (k : K) (g cmdSeq : ℕ) (zone : CacheZone) :
    TokenInv ((m.register k g cmdSeq).addInterest k g ⟨m.nextToken, cmdSeq, zone⟩) C A := by
  obtain ⟨hindex, hcmd, hnext, _⟩ := register_indexes m k g cmdSeq
  have hfresh : m.tokenIndex m.nextToken = none := by
    by_contra hne
    have := (h.handedOut m.nextToken).2 (.inl hne)
    omega
  have hnone : ∀ k' g', ∀ i ∈ (m.gpuEntry k' g').interests, i.token ≠ m.nextToken := by
    intro k' g' i hi htok
    have := (h.index _ k' g').2 ⟨i, hi, htok⟩
    rw [hfresh] at this
    cases this
  have hint : ∀ k' g', (((m.register k g cmdSeq).addInterest k g
      ⟨m.nextToken, cmdSeq, zone⟩).gpuEntry k' g').interests =
      if k' = k ∧ g' = g then (m.gpuEntry k g).interests ++ [⟨m.nextToken, cmdSeq, zone⟩]
      else (m.gpuEntry k' g').interests := by
    intro k' g'
    rw [interests_addInterest, gpuEntry_register, gpuEntry_register]
  have hmem : ∀ k' g' i, i ∈ (((m.register k g cmdSeq).addInterest k g
      ⟨m.nextToken, cmdSeq, zone⟩).gpuEntry k' g').interests ↔
      i ∈ (m.gpuEntry k' g').interests ∨ ((k' = k ∧ g' = g) ∧ i = ⟨m.nextToken, cmdSeq, zone⟩) := by
    intro k' g' i
    rw [hint]
    by_cases hkg : k' = k ∧ g' = g
    · obtain ⟨rfl, rfl⟩ := hkg
      simp
    · simp [hkg]
  refine ⟨?index, ?distinct, ?cmdSeq_iff, ?cmdSeqNodup, h.answered, h.apart, ?handedOut, ?settled,
    ?nextPos⟩
  case index =>
    intro t k' g'
    show (m.register k g cmdSeq).tokenIndex t = _ ↔ _
    rw [hindex]
    simp only [hmem]
    by_cases ht : t = m.nextToken
    · subst ht
      rw [update_self]
      constructor
      · intro heq
        simp only [Option.some.injEq, Prod.mk.injEq] at heq
        exact ⟨_, .inr ⟨⟨heq.1.symm, heq.2.symm⟩, rfl⟩, rfl⟩
      · rintro ⟨i, hi | ⟨⟨rfl, rfl⟩, _⟩, htok⟩
        · exact absurd htok (hnone k' g' i hi)
        · rfl
    · rw [update_of_ne ht, h.index t k' g']
      constructor
      · rintro ⟨i, hi, htok⟩
        exact ⟨i, .inl hi, htok⟩
      · rintro ⟨i, hi | ⟨_, rfl⟩, htok⟩
        · exact ⟨i, hi, htok⟩
        · exact absurd htok.symm ht
  case distinct =>
    intro k' g'
    rw [hint]
    split
    · rw [map_append, nodup_append]
      refine ⟨h.distinct k g, nodup_singleton _, ?_⟩
      intro t ht t' ht'
      obtain ⟨i, hi, rfl⟩ := mem_map.1 ht
      obtain rfl : t' = m.nextToken := by simpa using ht'
      exact hnone k g i hi
    · exact h.distinct k' g'
  case cmdSeq_iff =>
    intro c t
    show (c, t) ∈ (m.register k g cmdSeq).cmdSeqToToken ↔ _
    rw [hcmd, mem_cons, h.cmdSeq c t]
    simp only [hmem, Prod.mk.injEq]
    constructor
    · rintro (⟨rfl, rfl⟩ | ⟨k', g', i, hi, hc, ht⟩)
      · exact ⟨k, g, _, .inr ⟨⟨rfl, rfl⟩, rfl⟩, rfl, rfl⟩
      · exact ⟨k', g', i, .inl hi, hc, ht⟩
    · rintro ⟨k', g', i, hi | ⟨_, rfl⟩, hc, ht⟩
      · exact .inr ⟨k', g', i, hi, hc, ht⟩
      · exact .inl ⟨hc.symm, ht.symm⟩
  case cmdSeqNodup =>
    show (m.register k g cmdSeq).cmdSeqToToken.Nodup
    rw [hcmd, nodup_cons]
    refine ⟨?_, h.cmdSeqNodup⟩
    intro hin
    obtain ⟨k', g', i, hi, _, ht⟩ := (h.cmdSeq _ _).1 hin
    exact hnone k' g' i hi ht
  case handedOut =>
    intro t
    show 1 ≤ t ∧ t < (m.register k g cmdSeq).nextToken ↔
      (m.register k g cmdSeq).tokenIndex t ≠ none ∨ _
    rw [hindex]
    have hold := h.handedOut t
    by_cases ht : t = m.nextToken
    · subst ht
      have hpos := h.nextPos
      simp only [update_self, ne_eq, reduceCtorEq, not_false_iff, true_or, iff_true]
      omega
    · rw [update_of_ne ht, ← hold]
      omega
  case settled =>
    intro t ht
    show (m.register k g cmdSeq).tokenIndex t = none
    rw [hindex]
    have hne : t ≠ m.nextToken := by
      rintro rfl
      have := (h.handedOut m.nextToken).2 (.inr ht)
      omega
    rw [update_of_ne hne]
    exact h.settled t ht
  case nextPos =>
    show 1 ≤ (m.register k g cmdSeq).nextToken
    rw [hnext]
    exact Nat.le_add_left 1 _

/-- **Interests `is` of one entry are settled**: their tokens leave the index and the
command-sequence map, and are answered or cancelled from now on. -/
theorem TokenInv.settle (is rest : List Interest) {C' A' : List ℕ}
    (his : ∀ i ∈ is, i ∈ (m.gpuEntry k g).interests)
    (hint : ∀ k' g', (m'.gpuEntry k' g').interests =
      if k' = k ∧ g' = g then rest else (m.gpuEntry k' g').interests)
    (hsub : rest.Sublist (m.gpuEntry k g).interests)
    (hrest : ∀ j, j ∈ rest ↔ j ∈ (m.gpuEntry k g).interests ∧ j.token ∉ is.map (·.token))
    (hindex : ∀ t, m'.tokenIndex t = if t ∈ is.map (·.token) then none else m.tokenIndex t)
    (hcmd : m'.cmdSeqToToken = m.cmdSeqToToken.diff (is.map fun i => (i.cmdSeq, i.token)))
    (hnext : m'.nextToken = m.nextToken) (hnodup : A'.Nodup) (hapart : ∀ t ∈ A', t ∉ C')
    (hgone : ∀ t, t ∈ A' ∨ t ∈ C' ↔ (t ∈ A ∨ t ∈ C) ∨ t ∈ is.map (·.token)) :
    TokenInv m' C' A' := by
  have htok : ∀ t ∈ is.map (·.token), m.tokenIndex t = some (k, g) := by
    intro t ht
    obtain ⟨i, hi, rfl⟩ := mem_map.1 ht
    exact (h.index _ k g).2 ⟨i, his i hi, rfl⟩
  have hmem : ∀ k' g' j, j ∈ (m'.gpuEntry k' g').interests ↔
      j ∈ (m.gpuEntry k' g').interests ∧ j.token ∉ is.map (·.token) := by
    intro k' g' j
    rw [hint]
    by_cases hkg : k' = k ∧ g' = g
    · obtain ⟨rfl, rfl⟩ := hkg
      rw [if_pos ⟨rfl, rfl⟩]
      exact hrest j
    · rw [if_neg hkg]
      refine ⟨fun hj => ⟨hj, ?_⟩, fun hj => hj.1⟩
      intro hin
      obtain ⟨i, hi, heq⟩ := mem_map.1 hin
      exact hkg (h.entry_unique (his i hi) hj heq)
  refine ⟨?_, ?_, ?_, ?_, hnodup, hapart, ?_, ?_, ?_⟩
  · intro t k' g'
    rw [hindex]
    simp only [hmem]
    split
    · rename_i ht
      refine iff_of_false (by simp) ?_
      rintro ⟨j, ⟨_, hne⟩, rfl⟩
      exact hne ht
    · rename_i ht
      rw [h.index t k' g']
      constructor
      · rintro ⟨j, hj, rfl⟩
        exact ⟨j, ⟨hj, ht⟩, rfl⟩
      · rintro ⟨j, ⟨hj, _⟩, heq⟩
        exact ⟨j, hj, heq⟩
  · intro k' g'
    rw [hint]
    split
    · exact (hsub.map _).nodup (h.distinct k g)
    · exact h.distinct k' g'
  · intro c t
    rw [hcmd, h.cmdSeqNodup.mem_sdiff_iff, h.cmdSeq c t]
    simp only [hmem]
    constructor
    · rintro ⟨⟨k', g', j, hj, hc, ht⟩, hnot⟩
      refine ⟨k', g', j, ⟨hj, ?_⟩, hc, ht⟩
      intro hin
      obtain ⟨i, hi, heq⟩ := mem_map.1 hin
      -- the same token: then it is the same interest
      obtain ⟨rfl, rfl⟩ := h.entry_unique (his i hi) hj heq
      obtain rfl : i = j := inj_on_of_nodup_map (h.distinct k' g') (his i hi) hj heq
      exact hnot (mem_map.2 ⟨i, hi, by rw [hc, ht]⟩)
    · rintro ⟨k', g', j, ⟨hj, hne⟩, hc, ht⟩
      refine ⟨⟨k', g', j, hj, hc, ht⟩, ?_⟩
      intro hin
      obtain ⟨i, hi, heq⟩ := mem_map.1 hin
      exact hne (mem_map.2 ⟨i, hi, (Prod.mk.inj heq).2.trans ht.symm⟩)
  · rw [hcmd]
    exact h.cmdSeqNodup.diff
  · intro t
    rw [hnext, h.handedOut t, hgone, hindex]
    by_cases ht : t ∈ is.map (·.token)
    · simp [htok t ht, ht]
    · simp [ht]
  · intro t ht
    rw [hindex]
    split
    · rfl
    · rename_i hnot
      exact h.settled t (((hgone t).1 ht).resolve_right hnot)
  · rw [hnext]
    exact h.nextPos

theorem TokenInv.cleared (k : K) (g : ℕ) :
    TokenInv (m.cleared k g) C (A ++ (m.gpuEntry k g).interests.map (·.token)) := by
  have hfresh : ∀ t, t ∈ A ∨ t ∈ C → t ∉ (m.gpuEntry k g).interests.map (·.token) := by
    intro t ht hin
    obtain ⟨i, hi, rfl⟩ := mem_map.1 hin
    have := h.settled _ ht
    rw [(h.index _ k g).2 ⟨i, hi, rfl⟩] at this
    cases this
  refine h.settle (m.gpuEntry k g).interests [] (fun _ hi => hi) ?_
    (nil_sublist _) ?_ (fun _ => rfl) rfl rfl ?_ ?_ ?_
  · intro k' g'
    rw [cleared_gpuEntry]
    split <;> rfl
  · intro j
    refine iff_of_false not_mem_nil ?_
    rintro ⟨hj, hne⟩
    exact hne (mem_map_of_mem hj)
  · rw [nodup_append]
    refine ⟨h.answered, h.distinct k g, ?_⟩
    rintro t ht t' ht' rfl
    exact hfresh t (.inl ht) ht'
  · intro t ht htC
    rcases mem_append.1 ht with ht | ht
    · exact h.apart t ht htC
    · exact hfresh t (.inr htC) ht
  · intro t
    rw [mem_append]
    tauto

theorem TokenInv.revertGpuEntry (k : K) (g : ℕ) : TokenInv (m.revertGpuEntry k g) C A := by
  have hr := reverted_revertGpuEntry m k g
  refine h.congr ?_ hr.tokenIndex hr.cmdSeqToToken hr.nextToken
  intro k' g'
  by_cases hkg : k' = k ∧ g' = g
  · obtain ⟨rfl, rfl⟩ := hkg
    exact hr.interests
  · unfold gpuEntry
    rw [hr.others k' g' hkg]

/-- **The interests of an entry are answered.** -/
theorem TokenInv.complete (k : K) (g : ℕ) (success : Bool) :
    TokenInv (m.completeInterests k g success).1 C
      (A ++ (m.gpuEntry k g).interests.map (·.token)) := by
  rw [completeInterests_eq]
  cases success with
  | true => exact h.cleared k g
  | false => exact (h.cleared k g).revertGpuEntry k g

end

omit [DecidableEq K] in
theorem mem_eraseP_token {l : List Interest} (hnodup : (l.map (·.token)).Nodup) (t : ℕ)
    (i : Interest) : i ∈ l.eraseP (fun i => i.token = t) ↔ i ∈ l ∧ i.token ≠ t := by
  induction l with
  | nil => simp
  | cons j l ih =>
    rw [map_cons, nodup_cons] at hnodup
    by_cases hj : j.token = t
    · rw [eraseP_cons_of_pos (by simpa using hj)]
      constructor
      · intro hi
        refine ⟨mem_cons_of_mem _ hi, ?_⟩
        intro heq
        exact hnodup.1 (mem_map.2 ⟨i, hi, heq.trans hj.symm⟩)
      · rintro ⟨hi, hne⟩
        rcases mem_cons.1 hi with rfl | hi
        · exact absurd hj hne
        · exact hi
    · rw [eraseP_cons_of_neg (by simpa using hj), mem_cons, ih hnodup.2, mem_cons]
      constructor
      · rintro (rfl | ⟨hi, hne⟩)
        · exact ⟨.inl rfl, hj⟩
        · exact ⟨.inr hi, hne⟩
      · rintro ⟨rfl | hi, hne⟩
        · exact .inl rfl
        · exact .inr ⟨hi, hne⟩

theorem TokenInv.cancelled (h : TokenInv m C A) {i : Interest}
    (hi : i ∈ (m.gpuEntry k g).interests) :
    TokenInv (setGpuEntry { m with
        tokenIndex := update m.tokenIndex i.token none
        cmdSeqToToken := m.cmdSeqToToken.erase (i.cmdSeq, i.token) } k g
      { m.gpuEntry k g with
        interests := (m.gpuEntry k g).interests.eraseP fun j => j.token = i.token })
      (C ++ [i.token]) A := by
  have hself : m.tokenIndex i.token = some (k, g) := (h.index _ k g).2 ⟨i, hi, rfl⟩
  refine h.settle [i] ((m.gpuEntry k g).interests.eraseP fun j => j.token = i.token) ?_ ?_
    eraseP_sublist ?_ ?_ ?_ rfl h.answered ?_ ?_
  · intro j hj
    rwa [mem_singleton.1 hj]
  · intro k' g'
    rw [gpuEntry_setGpuEntry]
    split <;> rfl
  · intro j
    rw [mem_eraseP_token (h.distinct k g) i.token j, map_singleton, mem_singleton]
  · intro t
    simp only [map_singleton, mem_singleton]
    exact update_apply _ _ _ _
  · rw [map_singleton, diff_cons, diff_nil]
    rfl
  · intro t ht htC
    rcases mem_append.1 htC with htC | htC
    · exact h.apart t ht htC
    have := h.settled t (.inl ht)
    rw [mem_singleton.1 htC, hself] at this
    cases this
  · intro t
    rw [mem_append, map_singleton]
    tauto

/-! ### Moves that answer requests -/

omit [DecidableEq K] in
theorem returned_append (out out' : List (LifecycleCompletion K)) :
    returned (out ++ out') = returned out ++ returned out' := by
  unfold returned
  rw [filter_append, map_append]

/-- From `m` to `m'` the requests of `out` have been answered, and nothing else has
happened to any token. -/
structure Settles (m m' : Manager K) (out : List (LifecycleCompletion K)) : Prop where
  inv : ∀ C A, TokenInv m C A → TokenInv m' C (A ++ returned out)
  pending : m'.pendingCompletions = m.pendingCompletions

omit [DecidableEq K] in
theorem Settles.of_same (hint : ∀ k g, (m'.gpuEntry k g).interests = (m.gpuEntry k g).interests)
    (hindex : m'.tokenIndex = m.tokenIndex) (hcmd : m'.cmdSeqToToken = m.cmdSeqToToken)
    (hnext : m'.nextToken = m.nextToken) (hpending : m'.pendingCompletions = m.pendingCompletions) :
    Settles m m' [] where
  inv := by
    intro C A h
    rw [show A ++ returned ([] : List (LifecycleCompletion K)) = A from append_nil A]
    exact h.congr hint hindex hcmd hnext
  pending := hpending

omit [DecidableEq K] in
theorem Settles.refl (m : Manager K) : Settles m m [] :=
  Settles.of_same (fun _ _ => rfl) rfl rfl rfl rfl

variable {out : List (LifecycleCompletion K)} {m'' : Manager K}

omit [DecidableEq K] in
theorem Settles.trans {out' : List (LifecycleCompletion K)} (h : Settles m m' out)
    (h' : Settles m' m'' out') : Settles m m'' (out ++ out') where
  inv := by
    intro C A hinv
    rw [returned_append, ← append_assoc]
    exact h'.inv C _ (h.inv C A hinv)
  pending := h'.pending.trans h.pending

omit [DecidableEq K] in
theorem Settles.after (h : Settles m m' []) (h' : Settles m' m'' out) : Settles m m'' out :=
  h.trans h'

variable {ge : GpuEntry}

theorem Settles.setGpuEntry (m : Manager K) {k : K} {g : ℕ}
    (hge : ge.interests = (m.gpuEntry k g).interests) : Settles m (m.setGpuEntry k g ge) [] := by
  refine Settles.of_same ?_ rfl rfl rfl rfl
  intro k' g'
  rw [gpuEntry_setGpuEntry]
  split
  · rename_i hkg
    rw [hkg.1, hkg.2, hge]
  · rfl

theorem settles_tryStartH2d (m : Manager K) (k : K) (g : ℕ) : Settles m (m.tryStartH2d k g) [] := by
  have hd := driven_tryStartH2d m k g
  refine Settles.of_same ?_ hd.tokenIndex hd.cmdSeqToToken hd.nextToken hd.pendingCompletions
  intro k' g'
  by_cases hkg : k' = k ∧ g' = g
  · obtain ⟨rfl, rfl⟩ := hkg
    exact hd.interests
  · unfold gpuEntry
    rw [hd.others k' g' hkg]

theorem settles_completeInterests (m : Manager K) (k : K) (g : ℕ) (success : Bool) :
    Settles m (m.completeInterests k g success).1 (m.completeInterests k g success).2 where
  inv := by
    intro C A h
    have hout : returned (m.completeInterests k g success).2 =
        (m.gpuEntry k g).interests.map (·.token) := by
      rw [completeInterests_eq]
      unfold returned
      rw [filter_map, map_map]
      simp only [comp_def, Bool.not_false, filter_true]
    rw [hout]
    exact h.complete k g success
  pending := by
    rw [completeInterests_eq]
    cases success with
    | true => rfl
    | false => exact (reverted_revertGpuEntry (m.cleared k g) k g).pendingCompletions

omit [DecidableEq K] in
/-- None of the completions is that of a drain. -/
def Requests (out : List (LifecycleCompletion K)) : Prop := ∀ c ∈ out, c.isEviction = false

omit [DecidableEq K] in
theorem requests_nil : Requests ([] : List (LifecycleCompletion K)) :=
  fun _ hc => absurd hc not_mem_nil

theorem requests_completeInterests (m : Manager K) (k : K) (g : ℕ) (success : Bool) :
    Requests (m.completeInterests k g success).2 := by
  intro c hc
  obtain ⟨i, _, rfl⟩ := mem_map.1 hc
  rfl

theorem settles_reserveAndStart (m : Manager K) (k : K) (g : ℕ) (zone : CacheZone) :
    Settles m (m.reserveAndStart k g zone).1 (m.reserveAndStart k g zone).2 ∧
      Requests (m.reserveAndStart k g zone).2 := by
  unfold reserveAndStart
  split
  · exact ⟨settles_completeInterests m k g false, requests_completeInterests m k g false⟩
  refine ⟨Settles.after ?_ (settles_tryStartH2d _ k g), requests_nil⟩
  refine Settles.of_same ?_ rfl rfl rfl rfl
  intro k' g'
  rw [takeSlot_gpuEntry]
  split
  · rename_i hkg
    rw [hkg.1, hkg.2]
  · rfl

/-- From `m` to `m'` requests have been answered, and their completions queued. -/
structure Queues (m m' : Manager K) : Prop where
  out : ∃ out, m'.pendingCompletions = m.pendingCompletions ++ out ∧ Requests out ∧
    ∀ C A, TokenInv m C A → TokenInv m' C (A ++ returned out)

omit [DecidableEq K] in
theorem Settles.queue (h : Settles m m' out) (hreq : Requests out) : Queues m (m'.queue out) where
  out := by
    refine ⟨out, ?_, hreq, ?_⟩
    · show m'.pendingCompletions ++ out = _
      rw [h.pending]
    · intro C A hinv
      exact (h.inv C A hinv).congr (fun _ _ => rfl) rfl rfl rfl

omit [DecidableEq K] in
theorem Settles.queues (h : Settles m m' []) : Queues m m' where
  out := ⟨[], by rw [h.pending, append_nil], requests_nil, h.inv⟩

omit [DecidableEq K] in
theorem Settles.thenQueues (h : Settles m m' []) (h' : Queues m' m'') : Queues m m'' where
  out := by
    obtain ⟨out, hpending, hreq, hinv⟩ := h'.out
    refine ⟨out, by rw [hpending, h.pending], hreq, ?_⟩
    intro C A hm
    have := hinv C _ (h.inv C A hm)
    rwa [show A ++ returned ([] : List (LifecycleCompletion K)) = A from append_nil A] at this

theorem queues_startChain (m : Manager K) (k : K) (g : ℕ) (zone : CacheZone) :
    Queues m (m.startChain k g zone) := by
  have hasked : Settles m m.ask [] := Settles.of_same (fun _ _ => rfl) rfl rfl rfl rfl
  have hhost : ∀ (m : Manager K) (he : HostEntry), Settles m (m.setHostEntry k he) [] :=
    fun m he => Settles.of_same (fun _ _ => rfl) rfl rfl rfl rfl
  have hreserve : ∀ m : Manager K,
      Queues m ((m.reserveAndStart k g zone).1.queue (m.reserveAndStart k g zone).2) :=
    fun m => (settles_reserveAndStart m k g zone).1.queue (settles_reserveAndStart m k g zone).2
  unfold startChain
  cases (m.hostEntry k).tier with
  | warm => exact hreserve m
  | loadingToRam => exact (hhost m _).queues
  | cold =>
    simp only
    split
    · exact hasked.thenQueues ((hhost m.ask _).thenQueues (hreserve _))
    · exact hasked.thenQueues ((hhost m.ask _).thenQueues (hhost _ _).queues)
    · exact hasked.thenQueues ((settles_completeInterests m.ask k g false).queue
        (requests_completeInterests m.ask k g false))

/-! ### Tiers that answer at once -/

/-- No entry comes to be ready or draining. -/
def NoNewHits (m m' : Manager K) : Prop := ∀ k g, AnswersAtOnce m' k g → AnswersAtOnce m k g

omit [DecidableEq K] in
theorem NoNewHits.of_entry
    (hothers : ∀ k' g', ¬ (k' = k ∧ g' = g) → (m'.gpuEntry k' g').tier = (m.gpuEntry k' g').tier)
    (htier : (m'.gpuEntry k g).tier = (m.gpuEntry k g).tier ∨
      (m'.gpuEntry k g).tier = .absent ∨ (m'.gpuEntry k g).tier = .reserved ∨
      (m'.gpuEntry k g).tier = .transferring) : NoNewHits m m' := by
  intro k' g' hit
  by_cases hkg : k' = k ∧ g' = g
  · obtain ⟨rfl, rfl⟩ := hkg
    unfold AnswersAtOnce GpuTier.isReady at hit ⊢
    rcases htier with heq | heq | heq | heq
    · rwa [heq] at hit
    all_goals simp [heq] at hit
  · unfold AnswersAtOnce at hit ⊢
    rwa [hothers k' g' hkg] at hit

omit [DecidableEq K] in
theorem NoNewHits.trans (h : NoNewHits m m') (h' : NoNewHits m' m'') : NoNewHits m m'' :=
  fun k g hit => h k g (h' k g hit)

theorem noNewHits_tryStartH2d (m : Manager K) (k : K) (g : ℕ) :
    NoNewHits m (m.tryStartH2d k g) := by
  have hd := driven_tryStartH2d m k g
  refine NoNewHits.of_entry (fun k' g' hne => tier_congr (hd.others k' g' hne)) ?_
  rcases hd.tier with heq | heq
  · exact .inl heq
  · exact .inr (.inr (.inr heq))

theorem noNewHits_completeFailed (m : Manager K) (k : K) (g : ℕ) :
    NoNewHits m (m.completeInterests k g false).1 := by
  rw [completeInterests_eq]
  have hr := reverted_revertGpuEntry (m.cleared k g) k g
  refine NoNewHits.of_entry (k := k) (g := g) ?_ (.inr (.inl hr.tier))
  intro k' g' hne
  refine (tier_congr (hr.others k' g' hne)).trans ?_
  rw [cleared_gpuEntry, if_neg hne]

theorem noNewHits_reserveAndStart (m : Manager K) (k : K) (g : ℕ) (zone : CacheZone) :
    NoNewHits m (m.reserveAndStart k g zone).1 := by
  unfold reserveAndStart
  split
  · exact noNewHits_completeFailed m k g
  refine NoNewHits.trans ?_ (noNewHits_tryStartH2d _ k g)
  refine NoNewHits.of_entry (k := k) (g := g) ?_ ?_
  · intro k' g' hne
    rw [takeSlot_gpuEntry, if_neg hne]
  · rw [takeSlot_gpuEntry, if_pos ⟨rfl, rfl⟩]
    exact .inr (.inr (.inl rfl))

theorem noNewHits_startChain (m : Manager K) (k : K) (g : ℕ) (zone : CacheZone) :
    NoNewHits m (m.startChain k g zone) := by
  have hreserve : ∀ m' : Manager K, (∀ k g, m'.gpuEntry k g = m.gpuEntry k g) →
      NoNewHits m ((m'.reserveAndStart k g zone).1.queue (m'.reserveAndStart k g zone).2) := by
    intro m' hsame k' g' hit
    have := noNewHits_reserveAndStart m' k g zone k' g' hit
    unfold AnswersAtOnce at this ⊢
    rwa [hsame] at this
  unfold startChain
  cases (m.hostEntry k).tier with
  | warm => exact hreserve m fun _ _ => rfl
  | loadingToRam => exact fun _ _ hit => hit
  | cold =>
    simp only
    split
    · exact hreserve _ fun _ _ => rfl
    · exact fun _ _ hit => hit
    · exact fun k' g' hit => noNewHits_completeFailed m.ask k g k' g' hit

variable {zone : CacheZone}

theorem noNewHits_ensureResident {cmdSeq : ℕ} (hwait : ¬ AnswersAtOnce m k g) :
    NoNewHits m (m.ensureResident k g zone cmdSeq) := by
  have hadd : NoNewHits m
      ((m.register k g cmdSeq).addInterest k g ⟨m.nextToken, cmdSeq, zone⟩) := by
    refine NoNewHits.of_entry (k := k) (g := g) ?_ (.inl ?_)
    · intro k' g' hne
      unfold addInterest
      rw [gpuEntry_setGpuEntry, if_neg hne, gpuEntry_register]
    · unfold addInterest
      rw [gpuEntry_setGpuEntry, if_pos ⟨rfl, rfl⟩, gpuEntry_register]
  unfold AnswersAtOnce GpuTier.isReady at hwait
  unfold ensureResident
  simp only [gpuEntry_register]
  cases ht : (m.gpuEntry k g).tier with
  | hot | partial1 | partial12 | draining => simp [ht] at hwait
  | transferring => exact hadd
  | reserved =>
    simp only
    split
    · exact hadd.trans (noNewHits_tryStartH2d _ k g)
    · exact hadd
  | absent => exact hadd.trans (noNewHits_startChain _ k g zone)

theorem noNewHits_requestEvict (m : Manager K) (k : K) (g : ℕ) :
    NoNewHits m (m.requestEvict k g).1 := by
  unfold requestEvict
  cases m.gpuEntries k g with
  | none => exact fun _ _ hit => hit
  | some ge =>
    simp only
    split_ifs
    · exact fun _ _ hit => hit
    · exact fun _ _ hit => hit
    · refine NoNewHits.of_entry (k := k) (g := g) ?_ ?_
      · intro k' g' hne
        rw [gpuEntry_setGpuEntry, if_neg hne]
        rfl
      · rw [gpuEntry_setGpuEntry, if_pos ⟨rfl, rfl⟩]
        exact .inr (.inl rfl)
    · exact fun _ _ hit => hit

/-! ### Polling -/

/-- While polling, from `s` to `s'`, requests have been answered, and their completions
are in the result. -/
def PollSettles (s s' : Manager.Polling K) : Prop :=
  ∃ out, s'.2.lifecycle = s.2.lifecycle ++ out ∧ Settles s.1 s'.1 out

omit [DecidableEq K] in
theorem Settles.polls {m m' : Manager K} (h : Settles m m' []) {r r' : PollResult K}
    (hr : r'.lifecycle = r.lifecycle) : PollSettles (m, r) (m', r') :=
  ⟨[], by rw [hr, append_nil], h⟩

variable {s : Manager.Polling K}

omit [DecidableEq K] in
theorem PollSettles.trans {s' s'' : Manager.Polling K} (h : PollSettles s s')
    (h' : PollSettles s' s'') : PollSettles s s'' := by
  obtain ⟨out, hout, hs⟩ := h
  obtain ⟨out', hout', hs'⟩ := h'
  exact ⟨out ++ out', by rw [hout', hout, append_assoc], hs.trans hs'⟩

theorem pollSettles_completeInterests (s : Manager.Polling K) (k : K) (g : ℕ) (success : Bool) :
    PollSettles s ((s.1.completeInterests k g success).1,
      report s.2 (s.1.completeInterests k g success).2) :=
  ⟨_, rfl, settles_completeInterests s.1 k g success⟩

theorem settles_retry (m : Manager K) (gk : K × ℕ) : Settles m (m.retry gk) [] := by
  unfold retry
  split
  · exact Settles.refl m
  split
  · exact settles_tryStartH2d m gk.1 gk.2
  · exact Settles.refl m

theorem settles_retryAll (waiters : List (K × ℕ)) (m : Manager K) :
    Settles m (waiters.foldl retry m) [] :=
  foldlRecOn (motive := fun m' => Settles m m' []) waiters _ (Settles.refl m)
    fun _ hb gk _ => hb.after (settles_retry _ gk)

theorem settles_redrivePressured (m : Manager K) : Settles m m.redrivePressured [] := by
  have htaken : Settles m { m with slotPressureWaiters := [] } [] :=
    Settles.of_same (fun _ _ => rfl) rfl rfl rfl rfl
  exact htaken.after (settles_retryAll _ _)

theorem pollSettles_arenaLoadDone (s : Manager.Polling K) (lc : ArenaLoadCompletion K) :
    PollSettles s (arenaLoadDone s lc) := by
  have htaken : Settles s.1 { s.1 with
      arenaLoadWaiters := update s.1.arenaLoadWaiters lc.key [] } [] :=
    Settles.of_same (fun _ _ => rfl) rfl rfl rfl rfl
  unfold arenaLoadDone
  split
  · exact (htaken.after (settles_retryAll _ _)).polls rfl
  refine foldlRecOn (motive := fun s' => PollSettles s s') _ _ (htaken.polls rfl) ?_
  intro s' hs' gk _
  refine hs'.trans ?_
  unfold failReserved
  split
  · exact (Settles.refl _).polls rfl
  split
  · exact pollSettles_completeInterests s' gk.1 gk.2 false
  · exact (Settles.refl _).polls rfl

theorem pollSettles_startWaiter (k : K) (s : Manager.Polling K) (w : PendingGpuChain) :
    PollSettles s (startWaiter k s w) := by
  have htouch : Settles s.1 (s.1.setGpuEntry k w.gpuIdx (s.1.gpuEntry k w.gpuIdx)) [] :=
    Settles.setGpuEntry s.1 rfl
  unfold startWaiter
  simp only
  split
  · exact ⟨_, rfl, htouch.after (settles_reserveAndStart _ k w.gpuIdx w.zone).1⟩
  · exact (htouch.after (settles_tryStartH2d _ k w.gpuIdx)).polls rfl
  · exact htouch.polls rfl

theorem pollSettles_failWaiter (k : K) (s : Manager.Polling K) (w : PendingGpuChain) :
    PollSettles s (failWaiter k s w) := by
  unfold failWaiter
  split
  · exact (Settles.refl _).polls rfl
  · exact pollSettles_completeInterests s k w.gpuIdx false

theorem pollSettles_finishLoad {visit : Manager.Polling K → PendingGpuChain → Manager.Polling K}
    (hvisit : ∀ s w, PollSettles s (visit s w)) (k : K) (he : HostEntry) (tier : HostTier)
    (s : Manager.Polling K) : PollSettles s (finishLoad k he tier visit s) := by
  have hhost : ∀ (m : Manager K) (he : HostEntry), Settles m (m.setHostEntry k he) [] :=
    fun m he => Settles.of_same (fun _ _ => rfl) rfl rfl rfl rfl
  refine PollSettles.trans ?_ ((hhost _ _).polls rfl)
  exact driveWaiters_invariant (P := fun s' => PollSettles s s')
    (fun s' w hs' => hs'.trans (hvisit s' w)) _ ((hhost s.1 _).polls rfl)

theorem pollSettles_nvmeDone (s : Manager.Polling K) (nc : IoCompletion K) :
    PollSettles s (nvmeDone s nc) := by
  unfold nvmeDone
  split
  · exact (Settles.refl _).polls rfl
  rename_i he _
  split
  · exact (Settles.refl _).polls rfl
  split
  · exact pollSettles_finishLoad (pollSettles_startWaiter nc.key) nc.key he .warm s
  · exact pollSettles_finishLoad (pollSettles_failWaiter nc.key) nc.key he .cold s

theorem settles_h2dDone (hge : m.gpuEntries k g = some ge)
    {r : Manager K × List (LifecycleCompletion K)} (hr : m.h2dDone k g ge = some r) :
    Settles m r.1 r.2 := by
  obtain ⟨gs, _, rfl⟩ := Option.map_eq_some_iff.1 hr
  have hhot : Settles m (m.markHot k g ge gs) [] := by
    refine Settles.of_same ?_ rfl rfl rfl rfl
    intro k' g'
    rw [markHot, gpuEntry_setGpuEntry]
    split
    · rename_i hkg
      rw [hkg.1, hkg.2, gpuEntry_of_some hge]
    · rfl
  have hdone := hhot.after (settles_completeInterests _ k g true)
  have hrest := hdone.trans (settles_redrivePressured _)
  rwa [append_nil] at hrest

theorem pollSettles_transferDone {s' : Manager.Polling K} {xc : TransferCompletion K}
    (hs : transferDone s xc = some s') : PollSettles s s' := by
  unfold transferDone at hs
  cases hge : s.1.gpuEntries xc.key xc.gpuIdx with
  | none =>
    rw [hge] at hs
    cases hs
    exact (Settles.refl _).polls rfl
  | some ge =>
    rw [hge] at hs
    have hentry := gpuEntry_of_some hge
    cases hdir : xc.direction with
    | h2d =>
      simp only [hdir] at hs
      split at hs
      · cases hs
        exact (Settles.refl _).polls rfl
      split at hs
      · obtain ⟨r, hr, rfl⟩ := Option.map_eq_some_iff.1 hs
        exact ⟨r.2, rfl, settles_h2dDone hge hr⟩
      cases hs
      have hset : Settles s.1 (s.1.setGpuEntry xc.key xc.gpuIdx
          { ge with transferToken := 0 }) [] := by
        refine Settles.setGpuEntry s.1 ?_
        rw [hentry]
      exact ⟨_, rfl, hset.after (settles_completeInterests _ xc.key xc.gpuIdx false)⟩
    | d2h =>
      simp only [hdir] at hs
      split at hs
      · cases hs
        exact (Settles.refl _).polls rfl
      cases hs
      -- the completion of a drain answers no request
      refine ⟨_, rfl, ⟨fun C A h => ?_, rfl⟩⟩
      have hset : Settles s.1 ((s.1.evictSlot xc.key xc.gpuIdx).setGpuEntry xc.key xc.gpuIdx
          { ge with tier := .absent, transferToken := 0, drainCmdSeq := 0 }) [] := by
        refine Settles.of_same ?_ rfl rfl rfl rfl
        intro k' g'
        rw [gpuEntry_setGpuEntry]
        split
        · rename_i hkg
          rw [hkg.1, hkg.2, hentry]
        · rfl
      exact hset.inv C A h

variable {transfers : List (TransferCompletion K)} {loads : List (ArenaLoadCompletion K)}
  {nvme : List (IoCompletion K)}

theorem settles_poll (hs : m.poll loads nvme transfers = some s) : PollSettles m.startPoll s := by
  have hloads : PollSettles m.startPoll (loads.foldl arenaLoadDone m.startPoll) :=
    foldlRecOn (motive := fun s => PollSettles m.startPoll s) _ _
      ((Settles.refl _).polls rfl) fun _ hb lc _ => hb.trans (pollSettles_arenaLoadDone _ lc)
  have hnvme : PollSettles m.startPoll
      (nvme.foldl nvmeDone (loads.foldl arenaLoadDone m.startPoll)) :=
    foldlRecOn (motive := fun s => PollSettles m.startPoll s) _ _ hloads
      fun _ hb nc _ => hb.trans (pollSettles_nvmeDone _ nc)
  exact foldlM_invariant (P := fun s => PollSettles m.startPoll s) transfers
    (fun _ _ _ _ hb hstep => hb.trans (pollSettles_transferDone hstep)) hs hnvme

/-! ### Requests and evictions -/

omit [DecidableEq K] in
theorem Queues.trans (h : Queues m m') (h' : Queues m' m'') : Queues m m'' where
  out := by
    obtain ⟨out, hpending, hreq, hinv⟩ := h.out
    obtain ⟨out', hpending', hreq', hinv'⟩ := h'.out
    refine ⟨out ++ out', by rw [hpending', hpending, append_assoc], ?_, ?_⟩
    · intro c hc
      rcases mem_append.1 hc with hc | hc
      · exact hreq c hc
      · exact hreq' c hc
    · intro C A hm
      rw [returned_append, ← append_assoc]
      exact hinv' C _ (hinv C A hm)

theorem queues_issue (m : Manager K) (k : K) (g cmdSeq : ℕ) (zone : CacheZone) :
    Queues m ((m.register k g cmdSeq).addInterest k g ⟨m.nextToken, cmdSeq, zone⟩) where
  out := by
    refine ⟨[], ?_, requests_nil, ?_⟩
    · rw [append_nil]
      exact (register_indexes m k g cmdSeq).2.2.2
    · intro C A h
      rw [show A ++ returned ([] : List (LifecycleCompletion K)) = A from append_nil A]
      exact h.issue k g cmdSeq zone

theorem queues_ensureResident {cmdSeq : ℕ} (hwait : ¬ AnswersAtOnce m k g) :
    Queues m (m.ensureResident k g zone cmdSeq) := by
  have hissue := queues_issue m k g cmdSeq zone
  unfold AnswersAtOnce GpuTier.isReady at hwait
  unfold ensureResident
  simp only [gpuEntry_register]
  cases ht : (m.gpuEntry k g).tier with
  | hot | partial1 | partial12 | draining => simp [ht] at hwait
  | transferring => exact hissue
  | reserved =>
    simp only
    split
    · exact hissue.trans (settles_tryStartH2d _ k g).queues
    · exact hissue
  | absent => exact hissue.trans (queues_startChain _ k g zone)

theorem settles_requestEvict (m : Manager K) (k : K) (g : ℕ) :
    Settles m (m.requestEvict k g).1 [] := by
  have hevict : Settles m (m.evictSlot k g) [] :=
    Settles.of_same (fun _ _ => rfl) rfl rfl rfl rfl
  unfold requestEvict
  cases hge : m.gpuEntries k g with
  | none => exact hevict
  | some ge =>
    have hentry : (m.evictSlot k g).gpuEntry k g = ge := gpuEntry_of_some hge
    simp only
    split_ifs
    · exact Settles.refl m
    · exact Settles.refl m
    · refine hevict.after (Settles.setGpuEntry _ ?_)
      rw [hentry]
    · exact hevict

theorem settles_makeRoom (g : ℕ) (victims : List K) :
    ∀ m : Manager K, Settles m (m.makeRoom g victims).1 [] ∧
      NoNewHits m (m.makeRoom g victims).1 := by
  induction victims with
  | nil => exact fun m => ⟨Settles.refl m, fun _ _ hit => hit⟩
  | cons victim victims ih =>
    intro m
    have hevict := settles_requestEvict m victim g
    have hhits := noNewHits_requestEvict m victim g
    unfold makeRoom
    simp only
    split
    · exact ⟨hevict, hhits⟩
    · exact ⟨hevict.after (ih _).1, hhits.trans (ih _).2⟩

theorem queues_ensureResidents (g cmdSeq : ℕ) (reqs : List (K × CacheZone)) :
    ∀ (m : Manager K) (victims : List K), (∀ req ∈ reqs, ¬ AnswersAtOnce m req.1 g) →
      Queues m (m.ensureResidents g cmdSeq reqs victims).1 := by
  induction reqs with
  | nil => exact fun m _ _ => (Settles.refl m).queues
  | cons req reqs ih =>
    intro m victims hwait
    unfold ensureResidents
    -- the manager once room has been made
    have hroom : ∀ m' : Manager K, Settles m m' [] → NoNewHits m m' → ∀ victims',
        Queues m (ensureResidents (m'.ensureResident req.1 g req.2 cmdSeq) g cmdSeq reqs
          victims').1 := by
      intro m' hm' hhits victims'
      have hreq : ¬ AnswersAtOnce m' req.1 g :=
        fun hit => hwait req mem_cons_self (hhits _ _ hit)
      refine hm'.thenQueues ((queues_ensureResident hreq).trans (ih _ victims' ?_))
      intro req' hreq' hit
      exact hwait req' (mem_cons_of_mem _ hreq') (hhits _ _ (noNewHits_ensureResident hreq _ _ hit))
    split
    · exact hroom _ (settles_makeRoom g victims m).1 (settles_makeRoom g victims m).2 _
    · exact hroom m (Settles.refl m) (fun _ _ hit => hit) victims

theorem settles_requestDrain (m : Manager K) (k : K) (g cmdSeq : ℕ) :
    Settles m (m.requestDrain k g cmdSeq).1 [] := by
  have hasked : Settles m m.ask [] := Settles.of_same (fun _ _ => rfl) rfl rfl rfl rfl
  unfold requestDrain
  cases hge : m.gpuEntries k g with
  | none => exact Settles.refl m
  | some ge =>
    have hentry : m.ask.gpuEntry k g = ge := gpuEntry_of_some hge
    simp only
    split_ifs
    · split
      · exact hasked
      · refine hasked.after (Settles.setGpuEntry _ ?_)
        rw [hentry]
    · exact Settles.refl m

theorem settles_zoneChange (m : Manager K) (k : K) (g : ℕ) :
    Settles m (m.promote k g).1 [] ∧ Settles m (m.demote k g).1 [] := by
  have hcache : ∀ c : ExpertCache K, Settles m { m with cache := c } [] :=
    fun c => Settles.of_same (fun _ _ => rfl) rfl rfl rfl rfl
  constructor
  · unfold promote
    split
    · split
      · exact Settles.refl m
      · exact hcache _
    · exact hcache _
  · unfold demote
    split
    · split
      · exact Settles.refl m
      · exact hcache _
    · exact hcache _

/-! ### Histories -/

def completedOf (log : List TokenEvent) : List ℕ :=
  log.filterMap fun e => match e with
    | .completed t => some t
    | .cancelled _ => none

def cancelledOf (log : List TokenEvent) : List ℕ :=
  log.filterMap fun e => match e with
    | .completed _ => none
    | .cancelled t => some t

variable {log : List TokenEvent} {t : ℕ}

theorem mem_completedOf : t ∈ completedOf log ↔ .completed t ∈ log := by
  unfold completedOf
  rw [mem_filterMap]
  constructor
  · rintro ⟨e, he, heq⟩
    cases e with
    | completed t' =>
      cases heq
      exact he
    | cancelled t' => cases heq
  · exact fun h => ⟨_, h, rfl⟩

theorem mem_cancelledOf : t ∈ cancelledOf log ↔ .cancelled t ∈ log := by
  unfold cancelledOf
  rw [mem_filterMap]
  constructor
  · rintro ⟨e, he, heq⟩
    cases e with
    | cancelled t' =>
      cases heq
      exact he
    | completed t' => cases heq
  · exact fun h => ⟨_, h, rfl⟩

theorem count_completedOf (log : List TokenEvent) (t : ℕ) :
    (completedOf log).count t = log.count (.completed t) := by
  induction log with
  | nil => rfl
  | cons e log ih =>
    unfold completedOf at ih ⊢
    cases e with
    | completed t' =>
      simp only [filterMap_cons, count_cons, ih]
      simp
    | cancelled t' =>
      simp only [filterMap_cons, ih]
      simp

/-- **The invariant of a history.** -/
structure HistoryInv (h : History K) : Prop where
  tokens : TokenInv h.manager (cancelledOf h.log)
    (completedOf h.log ++ returned h.manager.pendingCompletions)
  pending : Requests h.manager.pendingCompletions

omit [DecidableEq K] in
theorem mem_returned (hreq : Requests out) : t ∈ returned out ↔ ∃ c ∈ out, c.token = t := by
  unfold returned
  rw [mem_map]
  constructor
  · rintro ⟨c, hc, rfl⟩
    exact ⟨c, (mem_filter.1 hc).1, rfl⟩
  · rintro ⟨c, hc, rfl⟩
    refine ⟨c, mem_filter.2 ⟨hc, ?_⟩, rfl⟩
    rw [hreq c hc]
    rfl

variable {h : History K}

omit [DecidableEq K] in
theorem HistoryInv.open_iff (hinv : HistoryInv h) (t : ℕ) :
    h.Open t ↔ h.manager.tokenIndex t ≠ none := by
  have hA : t ∈ completedOf h.log ++ returned h.manager.pendingCompletions ↔
      .completed t ∈ h.log ∨ ∃ c ∈ h.manager.pendingCompletions, c.token = t := by
    rw [mem_append, mem_completedOf, mem_returned hinv.pending]
  have hall := hinv.tokens.handedOut t
  have hsettled := hinv.tokens.settled t
  rw [hA, mem_cancelledOf] at hall hsettled
  constructor
  · rintro ⟨hbound, hlog, hpending, hcancel⟩
    rcases hall.1 hbound with hne | (hin | ⟨c, hc, ht⟩) | hin
    · exact hne
    · exact absurd hin hlog
    · exact absurd ht (hpending c hc)
    · exact absurd hin hcancel
  · intro hne
    refine ⟨hall.2 (.inl hne), ?_, ?_, ?_⟩
    · exact fun hin => hne (hsettled (.inl (.inl hin)))
    · exact fun c hc ht => hne (hsettled (.inl (.inr ⟨c, hc, ht⟩)))
    · exact fun hin => hne (hsettled (.inr hin))

omit [DecidableEq K] in
theorem HistoryInv.accounting (hinv : HistoryInv h) : TokenAccounting h := by
  have hnodup := (nodup_append.1 hinv.tokens.answered).1
  refine ⟨?_, ?_, ?_, ?_⟩
  · intro t
    rw [← count_completedOf]
    exact nodup_iff_count_le_one.1 hnodup t
  · refine pairwise_of_forall_mem_list ?_
    rintro e he e' he' t rfl rfl
    exact hinv.tokens.apart t (mem_append_left _ (mem_completedOf.2 he')) (mem_cancelledOf.2 he)
  · intro t
    exact (hinv.open_iff t).symm
  · intro t
    rw [hinv.open_iff t]
    constructor
    · rintro ⟨c, hc⟩
      obtain ⟨k, g, i, hi, _, ht⟩ := (hinv.tokens.cmdSeq c t).1 hc
      rw [(hinv.tokens.index t k g).2 ⟨i, hi, ht⟩]
      exact Option.some_ne_none _
    · intro hne
      obtain ⟨⟨k, g⟩, hidx⟩ := Option.ne_none_iff_exists'.1 hne
      obtain ⟨i, hi, ht⟩ := (hinv.tokens.index t k g).1 hidx
      exact ⟨i.cmdSeq, (hinv.tokens.cmdSeq _ t).2 ⟨k, g, i, hi, rfl, ht⟩⟩

omit [DecidableEq K] in
theorem HistoryInv.queues (h : HistoryInv ⟨m, log⟩) (hq : Queues m m') : HistoryInv ⟨m', log⟩ := by
  obtain ⟨out, hpending, hreq, hinv⟩ := hq.out
  refine ⟨?_, ?_⟩
  · show TokenInv m' _ (completedOf log ++ returned m'.pendingCompletions)
    rw [hpending, returned_append, ← append_assoc]
    exact hinv _ _ h.tokens
  · show Requests m'.pendingCompletions
    rw [hpending]
    intro c hc
    rcases mem_append.1 hc with hc | hc
    · exact h.pending c hc
    · exact hreq c hc

theorem HistoryInv.cancel (h : HistoryInv ⟨m, log⟩) (token : ℕ) : HistoryInv ⟨m.cancel token,
      log ++ if m.tokenIndex token = none then [] else [.cancelled token]⟩ := by
  unfold Manager.cancel
  cases hidx : m.tokenIndex token with
  | none =>
    simp only [if_true, append_nil]
    exact h
  | some kg =>
    obtain ⟨k, g⟩ := kg
    obtain ⟨i, hi, rfl⟩ := (h.tokens.index token k g).1 hidx
    simp only
    cases hge : m.gpuEntries k g with
    | none =>
      have hempty : (m.gpuEntry k g).interests = [] := by
        unfold Manager.gpuEntry
        rw [hge]
        rfl
      rw [hempty] at hi
      cases hi
    | some ge =>
      have hentry : m.gpuEntry k g = ge := Manager.gpuEntry_of_some hge
      rw [hentry] at hi
      -- the interest found is the one with the token
      have hfind : ge.interests.find? (fun j => j.token = i.token) = some i := by
        cases hf : ge.interests.find? fun j => j.token = i.token with
        | none =>
          have := find?_eq_none.1 hf i hi
          simp at this
        | some j =>
          have hj : j ∈ ge.interests := mem_of_find?_eq_some hf
          have htok : j.token = i.token := by simpa using find?_some hf
          have hdistinct := h.tokens.distinct k g
          rw [hentry] at hdistinct
          rw [inj_on_of_nodup_map hdistinct hj hi htok]
      -- no completion is queued for it
      have hfilter : m.pendingCompletions.filter (fun c => c.token ≠ i.token) =
          m.pendingCompletions := by
        refine filter_eq_self.2 fun c hc => ?_
        simp only [decide_not, Bool.not_eq_true', decide_eq_false_iff_not]
        intro heq
        have hin : i.token ∈ completedOf log ++ returned m.pendingCompletions :=
          mem_append_right _ ((mem_returned h.pending).2 ⟨c, hc, heq⟩)
        have hnone := h.tokens.settled i.token (.inl hin)
        rw [show m.tokenIndex i.token = some (k, g) from hidx] at hnone
        cases hnone
      simp only [hfind]
      have hcan := h.tokens.cancelled (k := k) (g := g) (i := i) (by rw [hentry]; exact hi)
      rw [hentry] at hcan
      have hlogC : cancelledOf (log ++ [.cancelled i.token]) = cancelledOf log ++ [i.token] := by
        unfold cancelledOf
        rw [filterMap_append]
        rfl
      have hlogA : completedOf (log ++ [.cancelled i.token]) = completedOf log := by
        unfold completedOf
        simp
      -- whatever is done with the entry then, the tokens stay
      have hfinal : ∀ m' : Manager K, TokenInv m' (cancelledOf log ++ [i.token])
            (completedOf log ++ returned m.pendingCompletions) →
          m'.pendingCompletions = m.pendingCompletions →
          HistoryInv ⟨m', log ++ [.cancelled i.token]⟩ := by
        intro m' hm' hpending
        refine ⟨?_, ?_⟩
        · show TokenInv m' (cancelledOf (log ++ [.cancelled i.token]))
            (completedOf (log ++ [.cancelled i.token]) ++ returned m'.pendingCompletions)
          rw [hlogC, hlogA, hpending]
          exact hm'
        · show Requests m'.pendingCompletions
          rw [hpending]
          exact h.pending
      split
      · refine hfinal _ ?_ ?_
        · refine TokenInv.revertGpuEntry ?_ k g
          exact hcan.congr (fun _ _ => rfl) rfl rfl rfl
        · rw [(reverted_revertGpuEntry _ k g).pendingCompletions]
          exact hfilter
      · refine hfinal _ ?_ hfilter
        exact hcan.congr (fun _ _ => rfl) rfl rfl rfl

theorem HistoryInv.poll (h : HistoryInv ⟨m, log⟩) (hs : m.poll loads nvme transfers = some s) :
    HistoryInv ⟨s.1, log ++ (returned s.2.lifecycle).map .completed⟩ := by
  obtain ⟨out, hout, hsettles⟩ := settles_poll hs
  have hlife : s.2.lifecycle = m.pendingCompletions ++ out := hout
  have hpending : s.1.pendingCompletions = [] := hsettles.pending
  have hC : cancelledOf (log ++ (returned s.2.lifecycle).map .completed) = cancelledOf log := by
    unfold cancelledOf
    simp
  have hA : completedOf (log ++ (returned s.2.lifecycle).map .completed) =
      completedOf log ++ returned s.2.lifecycle := by
    unfold completedOf
    rw [filterMap_append, filterMap_map]
    congr 1
    exact filterMap_some
  refine ⟨?_, ?_⟩
  · show TokenInv s.1 (cancelledOf (log ++ (returned s.2.lifecycle).map .completed))
      (completedOf (log ++ (returned s.2.lifecycle).map .completed) ++
        returned s.1.pendingCompletions)
    rw [hC, hA, hpending, hlife, returned_append, ← append_assoc]
    have hstart : TokenInv m.startPoll.1 (cancelledOf log)
        (completedOf log ++ returned m.pendingCompletions) :=
      h.tokens.congr (fun _ _ => rfl) rfl rfl rfl
    have := hsettles.inv _ _ hstart
    rwa [show ∀ l : List ℕ, l ++ returned ([] : List (LifecycleCompletion K)) = l from
      append_nil]
  · show Requests s.1.pendingCompletions
    rw [hpending]
    exact requests_nil

/-! ### Runs -/

theorem HistoryInv.step {h' : History K} (hinv : HistoryInv h) {a : Action K}
    (hok : JoinsChain h.manager a) (hstep : h.step a = some h') : HistoryInv h' := by
  obtain ⟨m, log⟩ := h
  obtain ⟨s, hs, rfl⟩ := Option.map_eq_some_iff.1 hstep
  -- calls other than `cancel` and `poll` add nothing to the log
  have hquiet : ∀ m', Queues m m' → HistoryInv ⟨m', log ++ []⟩ := by
    intro m' hq
    rw [append_nil]
    exact hinv.queues hq
  cases a with
  | ensureResident key gpu zone cmdSeq =>
    cases hs
    exact hquiet _ (queues_ensureResident hok)
  | ensureResidents gpu cmdSeq reqs victims =>
    cases hs
    exact hquiet _ (queues_ensureResidents gpu cmdSeq reqs m victims hok)
  | requestEvict key gpu =>
    cases hs
    exact hquiet _ (settles_requestEvict m key gpu).queues
  | requestDrain key gpu cmdSeq =>
    cases hs
    exact hquiet _ (settles_requestDrain m key gpu cmdSeq).queues
  | cancel token =>
    cases hs
    exact hinv.cancel token
  | promote key gpu =>
    cases hs
    exact hquiet _ (settles_zoneChange m key gpu).1.queues
  | demote key gpu =>
    cases hs
    exact hquiet _ (settles_zoneChange m key gpu).2.queues
  | poll loads nvme transfers => exact hinv.poll hs

omit [DecidableEq K] in
theorem HistoryInv.init (n : ℕ) (layout : ℕ → GpuLayout) (emitProgress : Bool)
    (answers : ℕ → Answer) :
    HistoryInv (⟨init n layout emitProgress answers, []⟩ : History K) := by
  refine ⟨⟨?_, ?_, ?_, nodup_nil, nodup_nil, ?_, ?_, ?_, Nat.le_refl 1⟩, requests_nil⟩
  · intro t k g
    refine iff_of_false (fun h => by cases h) ?_
    rintro ⟨i, hi, _⟩
    cases hi
  · exact fun k g => nodup_nil
  · intro c t
    refine iff_of_false (fun h => by cases h) ?_
    rintro ⟨k, g, i, hi, _⟩
    cases hi
  · exact fun t ht => absurd ht not_mem_nil
  · intro t
    refine iff_of_false ?_ ?_
    · rintro ⟨h1, h2⟩
      exact absurd h1 (Nat.not_le.2 h2)
    · rintro (h | h | h)
      · exact h rfl
      · cases h
      · cases h
  · exact fun t _ => rfl

/-- **Token accounting.**  In every run whose calls never request an expert that is
ready, or being drained, on its GPU, every token has at most one completion and none
after its cancellation, and both indexes hold exactly the open requests, in every
state reached and whatever the services answer. -/
theorem tokenAccounting_of_run {n : ℕ} {layout : ℕ → GpuLayout} {emitProgress : Bool}
    {answers : ℕ → Answer} {as : List (Action K)} {h : History K}
    (hrun : GuardedRun History.step (fun h => JoinsChain h.manager)
      ⟨Manager.init n layout emitProgress answers, []⟩ as h) : TokenAccounting h :=
  HistoryInv.accounting (hrun.invariant (fun _ _ _ hinv hok hstep => hinv.step hok hstep)
    (HistoryInv.init n layout emitProgress answers))

/-- A run that meets the condition: of two requests, one is cancelled and the other is
completed by the copy. -/
theorem tokenAccounting_of_run_one_cancelled :
    ∃ as, ∃ h : History ℕ, GuardedRun History.step (fun h => JoinsChain h.manager)
      ⟨Manager.init 1 tinyLayout false warmAnswers, []⟩ as h ∧
      h.log = [.cancelled 2, .completed 1] ∧ TokenAccounting h := by
  have hrun : GuardedRun History.step (fun h => JoinsChain h.manager)
      (⟨init 1 tinyLayout false warmAnswers, []⟩ : History ℕ)
      [.ensureResident 0 0 .stable 10, .ensureResident 1 0 .stable 11, .cancel 2,
        .poll [] [] [⟨0, 0, .h2d, true⟩]] _ :=
    cons (by rintro ((h | h | h) | h) <;> cases h) rfl (cons
      (by rintro ((h | h | h) | h) <;> cases h) rfl (cons trivial rfl (cons trivial rfl (nil _))))
  exact ⟨_, _, hrun, rfl, tokenAccounting_of_run hrun⟩

/-- A request for a hot expert is completed at once; its token is still in the index
after `poll` has returned the completion. -/
theorem hit_token_stays :
    ∃ as, ∃ h : History ℕ, Run History.step ⟨Manager.init 1 tinyLayout false warmAnswers, []⟩
      as h ∧ ¬ TokenAccounting h := by
  have hrun : Run History.step (⟨init 1 tinyLayout false warmAnswers, []⟩ : History ℕ)
      [.ensureResident 0 0 .stable 10, .poll [] [] [⟨0, 0, .h2d, true⟩],
        .ensureResident 0 0 .stable 11, .poll [] [] []] _ :=
    Run.cons rfl (Run.cons rfl (Run.cons rfl (Run.cons rfl (nil _))))
  refine ⟨_, _, hrun, ?_⟩
  intro h
  have hopen := (h.indexExact 2).1 (Option.some_ne_none _)
  exact hopen.2.1 (by decide)

end LayerStorm.Daemon
