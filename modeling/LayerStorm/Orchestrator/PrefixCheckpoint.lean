import LayerStorm.Orchestrator.PrefixLookup

/-!
# The checkpoint lookup of the prefix cache

A checkpoint belongs to the entry that was registered when it was taken.  `lookup_kda_ckpt` looks at
the registered prefixes of the prompt and at the entries where the descent ends, but not below them
and not beside the way: a checkpoint that only an entry elsewhere carries is not found, although the
prompt shares all its tokens.

## Main results

* `checkpoint_lookup_iff` — just when this is the deepest of all.
-/

namespace LayerStorm.Orchestrator

open Lib PrefixCache List

variable {τ : Type} [DecidableEq τ] {s : PrefixCache τ} {prompt : List τ}

/-! ### Definitions -/

/-- An entry offers a checkpoint: it is within what the prompt shares with the entry, and leaves a
token of both. -/
def Offers (s : PrefixCache τ) (prompt : List τ) (e ckpt : ℕ) : Prop :=
  e ∈ s.entries ∧ ckpt ∈ (s.heap e).kdaCkpts ∧
    ckpt ≤ min (min (commonPrefix (s.tokens e) prompt) (prompt.length - 1))
      ((s.tokens e).length - 1)

/-- The deepest checkpoint that is offered, or `none` if there is none. -/
def IsDeepest (s : PrefixCache τ) (prompt : List τ) : Option (ℕ × ℕ) → Prop
  | some (e, ckpt) => Offers s prompt e ckpt ∧ ∀ e' ckpt', Offers s prompt e' ckpt' → ckpt' ≤ ckpt
  | none => ∀ e ckpt, ¬Offers s prompt e ckpt

def Below (s : PrefixCache τ) (prompt q : List τ) : Prop :=
  q ∈ s.strings ∧ q <+: prompt ∧ q.length ≤ prompt.length - 1

/-- What the lookup looks at: the registered prefixes of the prompt, and each entry that agrees with
the prompt longer than all of them while all that is registered above it is among them. -/
def Scanned (s : PrefixCache τ) (prompt : List τ) (e : ℕ) : Prop :=
  e ∈ s.entries ∧ (Below s prompt (s.tokens e) ∨ (∀ q, Below s prompt q →
      q.length < min (commonPrefix (s.tokens e) prompt) (prompt.length - 1)) ∧
    ∀ q ∈ s.strings, q <+: s.tokens e → q ≠ s.tokens e → Below s prompt q)

/-- The deepest checkpoint that is offered by what is scanned; one at the beginning does not
count. -/
def IsDeepestScanned (s : PrefixCache τ) (prompt : List τ) : Option (ℕ × ℕ) → Prop
  | some (e, ckpt) => 0 < ckpt ∧ Scanned s prompt e ∧ Offers s prompt e ckpt ∧
      ∀ e' ckpt', Scanned s prompt e' → Offers s prompt e' ckpt' → ckpt' ≤ ckpt
  | none => ∀ e ckpt, Scanned s prompt e → Offers s prompt e ckpt → ckpt = 0

/-! ### Ascending lists -/

theorem find?_reverse_of_pairwise {l : List ℕ} (hl : l.Pairwise (· ≤ ·)) (limit : ℕ) :
    (∀ p, (l.reverse.find? fun p => p ≤ limit) = some p →
      p ∈ l ∧ p ≤ limit ∧ ∀ q ∈ l, q ≤ limit → q ≤ p) ∧
    ((l.reverse.find? fun p => p ≤ limit) = none → ∀ q ∈ l, ¬q ≤ limit) := by
  constructor
  · intro p hp
    rw [find?_eq_some_iff_append] at hp
    obtain ⟨hle, as, bs, hsplit, has⟩ := hp
    rw [decide_eq_true_eq] at hle
    have hmem : ∀ q, q ∈ l ↔ q ∈ as ++ p :: bs := by
      intro q
      rw [← hsplit, mem_reverse]
    have hdesc : (as ++ p :: bs).Pairwise (· ≥ ·) := by
      rw [← hsplit, pairwise_reverse]
      exact hl
    refine ⟨(hmem p).2 (by simp), hle, fun q hq hql => ?_⟩
    rcases mem_append.1 ((hmem q).1 hq) with hqa | hqb
    · -- what comes before in the search is too large
      have hbig := has q hqa
      rw [Bool.not_eq_true', decide_eq_false_iff_not] at hbig
      exact absurd hql hbig
    · rcases mem_cons.1 hqb with rfl | hqb
      · exact le_rfl
      · exact (pairwise_cons.1 (pairwise_append.1 hdesc).2.1).1 q hqb
  · intro hnone q hq hql
    have hno := find?_eq_none.1 hnone q (mem_reverse.2 hq)
    rw [decide_eq_true_eq] at hno
    exact hno hql

/-! ### The walk to the root -/

/-- The checkpoints of an entry and of those above it, within a limit of their own. -/
def Above (s : PrefixCache τ) (lcp e a ckpt : ℕ) : Prop :=
  a ∈ s.entries ∧ s.tokens a <+: s.tokens e ∧ ckpt ∈ (s.heap a).kdaCkpts ∧
    ckpt ≤ min lcp ((s.tokens a).length - 1)

namespace TreeInv

omit [DecidableEq τ] in
theorem bestCkpt_step {e : ℕ} (hsorted : (s.heap e).kdaCkpts.Pairwise (· ≤ ·)) (lcp fuel : ℕ)
    (acc : Option ℕ × ℕ) :
    ∃ acc', s.bestCkpt lcp (fuel + 1) (some e) acc = s.bestCkpt lcp fuel (s.parent e) acc' ∧
      acc.2 ≤ acc'.2 ∧
      (∀ p ∈ (s.heap e).kdaCkpts, p ≤ min lcp ((s.tokens e).length - 1) → p ≤ acc'.2) ∧
      (acc' = acc ∨ ∃ p ∈ (s.heap e).kdaCkpts, p ≤ min lcp ((s.tokens e).length - 1) ∧ 0 < p ∧
        acc' = (some e, p)) := by
  obtain ⟨hsome, hnone⟩ :=
    find?_reverse_of_pairwise hsorted (min lcp ((s.tokens e).length - 1))
  refine ⟨_, rfl, ?_⟩
  cases hfind : (s.heap e).kdaCkpts.reverse.find? fun p =>
      p ≤ min lcp ((s.tokens e).length - 1) with
  | none => exact ⟨le_rfl, fun p hp hle => absurd hle (hnone hfind p hp), .inl rfl⟩
  | some p =>
    obtain ⟨hp, hle, hmax⟩ := hsome p hfind
    simp only
    by_cases hlt : acc.2 < p
    · rw [if_pos hlt]
      exact ⟨hlt.le, hmax, .inr ⟨p, hp, hle, Nat.zero_lt_of_lt hlt, rfl⟩⟩
    · rw [if_neg hlt]
      exact ⟨le_rfl, fun q hq hql => (hmax q hq hql).trans (not_lt.1 hlt), .inl rfl⟩

theorem bestCkpt_spec (h : TreeInv s)
    (hsorted : ∀ e ∈ s.entries, (s.heap e).kdaCkpts.Pairwise (· ≤ ·)) (lcp fuel : ℕ) {e : ℕ}
    (he : e ∈ s.entries) (hfuel : (s.tokens e).length < fuel) (acc : Option ℕ × ℕ) :
    acc.2 ≤ (s.bestCkpt lcp fuel (some e) acc).2 ∧
    (∀ a p, Above s lcp e a p → p ≤ (s.bestCkpt lcp fuel (some e) acc).2) ∧
    (s.bestCkpt lcp fuel (some e) acc = acc ∨
      ∃ a p, Above s lcp e a p ∧ 0 < p ∧ s.bestCkpt lcp fuel (some e) acc = (some a, p)) := by
  induction fuel generalizing e acc with
  | zero => omega
  | succ fuel ih =>
    obtain ⟨acc', hstep, hle, hown, hkept⟩ := bestCkpt_step (hsorted e he) lcp fuel acc
    rw [hstep]
    have hpar := h.parent e he
    unfold parentTokens at hpar
    cases hp : s.parent e with
    | none =>
      -- a root has nothing above it
      rw [hp] at hpar
      have hend : s.bestCkpt lcp fuel none acc' = acc' := by cases fuel <;> rfl
      rw [hend]
      refine ⟨hle, fun a p ha => ?_, ?_⟩
      · have heq := hpar _ (Finset.mem_coe.2 (mem_strings.2 ⟨a, ha.1, rfl⟩)) ha.2.1
        have hae := h.inj a ha.1 e he heq
        subst hae
        exact hown p ha.2.2.1 ha.2.2.2
      · rcases hkept with hkept | ⟨p, hmem, hlim, hpos, hkept⟩
        · exact .inl hkept
        · exact .inr ⟨e, p, ⟨he, prefix_rfl, hmem, hlim⟩, hpos, hkept⟩
    | some b =>
      rw [hp] at hpar
      have hlt := length_lt_of_prefix hpar.2.1 hpar.2.2.1
      obtain ⟨hle', habove, hfound⟩ := ih (h.live e he b hp) (by omega) acc'
      refine ⟨hle.trans hle', fun a p ha => ?_, ?_⟩
      · by_cases hae : s.tokens a = s.tokens e
        · have hae := h.inj a ha.1 e he hae
          subst hae
          exact (hown p ha.2.2.1 ha.2.2.2).trans hle'
        · refine habove a p ⟨ha.1, ?_, ha.2.2⟩
          exact hpar.2.2.2 _ (Finset.mem_coe.2 (mem_strings.2 ⟨a, ha.1, rfl⟩)) ha.2.1 hae
      · rcases hfound with hfound | ⟨a, p, ha, hpos, hfound⟩
        · rw [hfound]
          rcases hkept with hkept | ⟨p, hmem, hlim, hpos, hkept⟩
          · exact .inl hkept
          · exact .inr ⟨e, p, ⟨he, prefix_rfl, hmem, hlim⟩, hpos, hkept⟩
        · exact .inr ⟨a, p, ⟨ha.1, ha.2.1.trans hpar.2.1, ha.2.2⟩, hpos, hfound⟩

theorem foldl_bestCkpt_spec (h : TreeInv s)
    (hsorted : ∀ e ∈ s.entries, (s.heap e).kdaCkpts.Pairwise (· ≤ ·)) (cands : List (ℕ × ℕ))
    (hmem : ∀ c ∈ cands, c.1 ∈ s.entries) (acc : Option ℕ × ℕ) :
    let r := cands.foldl
      (fun acc p => s.bestCkpt p.2 ((s.tokens p.1).length + 1) (some p.1) acc) acc
    acc.2 ≤ r.2 ∧ (∀ c ∈ cands, ∀ a p, Above s c.2 c.1 a p → p ≤ r.2) ∧
      (r = acc ∨ ∃ c ∈ cands, ∃ a p, Above s c.2 c.1 a p ∧ 0 < p ∧ r = (some a, p)) := by
  induction cands generalizing acc with
  | nil => exact ⟨le_rfl, fun c hc => (by cases hc), .inl rfl⟩
  | cons d cands ih =>
    obtain ⟨hd, hcands⟩ := forall_mem_cons.1 hmem
    obtain ⟨hle, hall, hkept⟩ := h.bestCkpt_spec hsorted d.2 ((s.tokens d.1).length + 1) hd
      (Nat.lt_succ_self _) acc
    obtain ⟨hle', hall', hkept'⟩ := ih hcands
      (s.bestCkpt d.2 ((s.tokens d.1).length + 1) (some d.1) acc)
    simp only [foldl_cons, forall_mem_cons]
    refine ⟨hle.trans hle', ⟨fun a p ha => (hall a p ha).trans hle', hall'⟩, ?_⟩
    rcases hkept' with hkept' | ⟨c, hc, hfound⟩
    · rw [hkept']
      rcases hkept with hkept | ⟨a, p, hfound⟩
      · exact .inl hkept
      · exact .inr ⟨d, mem_cons_self, a, p, hfound⟩
    · exact .inr ⟨c, mem_cons_of_mem d hc, hfound⟩

/-! ### What is scanned -/

theorem offers_of_below {e p : ℕ} (he : e ∈ s.entries) (hbelow : Below s prompt (s.tokens e))
    (hp : p ∈ (s.heap e).kdaCkpts) (hle : p ≤ (s.tokens e).length - 1) : Offers s prompt e p := by
  refine ⟨he, hp, ?_⟩
  have hlen := hbelow.2.2
  rw [commonPrefix_eq_length hbelow.2.1]
  omega

theorem below_of_sibling (h : TreeInv s) {c : ℕ} {q : List τ}
    (hc : c ∈ s.siblings (s.descend prompt (prompt.length - 1))) (hq : q ∈ s.strings)
    (hpre : q <+: s.tokens c) (hne : q ≠ s.tokens c) : Below s prompt q := by
  obtain ⟨hreach, -⟩ := h.descend_spec prompt (prompt.length - 1)
  obtain ⟨hce, hpc⟩ := ((h.siblings _ fun d hd => (hreach d hd).1).2 c).1 hc
  have hpar := h.parent c hce
  unfold parentTokens at hpar
  rw [hpc] at hpar
  cases hbest : s.descend prompt (prompt.length - 1) with
  | none =>
    rw [hbest] at hpar
    exact absurd (hpar q (Finset.mem_coe.2 hq) hpre) hne
  | some b =>
    rw [hbest] at hpar
    obtain ⟨-, hbt, hlen⟩ := hreach b hbest
    have hqb := hpar.2.2.2 q (Finset.mem_coe.2 hq) hpre hne
    exact ⟨hq, hqb.trans hbt, hqb.length_le.trans hlen⟩

theorem mem_siblings_of_scanned (h : TreeInv s) {e : ℕ} (he : e ∈ s.entries)
    (hlong : ∀ q, Below s prompt q →
      q.length < min (commonPrefix (s.tokens e) prompt) (prompt.length - 1))
    (habove : ∀ q ∈ s.strings, q <+: s.tokens e → q ≠ s.tokens e → Below s prompt q) :
    e ∈ s.siblings (s.descend prompt (prompt.length - 1)) := by
  obtain ⟨hreach, hlongest⟩ := h.descend_spec prompt (prompt.length - 1)
  refine ((h.siblings _ fun d hd => (hreach d hd).1).2 e).2 ⟨he, ?_⟩
  apply h.parent_of_isParent he (fun d hd => (hreach d hd).1)
  cases hbest : s.descend prompt (prompt.length - 1) with
  | none =>
    intro q hq hqe
    by_contra hne
    obtain ⟨hmem, hqt, hlen⟩ := habove q (Finset.mem_coe.1 hq) hqe hne
    obtain ⟨b, hb, -⟩ := hlongest q hmem hqt hlen
    rw [hbest] at hb
    cases hb
  | some b =>
    obtain ⟨hb, hbt, hlen⟩ := hreach b hbest
    have hmem : s.tokens b ∈ s.strings := mem_strings.2 ⟨b, hb, rfl⟩
    have hlt := hlong _ ⟨hmem, hbt, hlen⟩
    obtain ⟨hcp, -, htake⟩ := le_commonPrefix.1 (le_trans hlt.le (min_le_left _ _))
    refine ⟨Finset.mem_coe.2 hmem, ?_, ?_, fun q hq hqe hne => ?_⟩
    · rw [prefix_iff_eq_take, htake, ← prefix_iff_eq_take]
      exact hbt
    · intro heq
      have hshare := (le_commonPrefix.1 (le_refl (commonPrefix (s.tokens e) prompt))).1
      rw [heq] at hlt
      omega
    · obtain ⟨hqm, hqt, hql⟩ := habove q (Finset.mem_coe.1 hq) hqe hne
      obtain ⟨b', hb', hqb⟩ := hlongest q hqm hqt hql
      rw [hbest] at hb'
      cases hb'
      exact hqb

/-- The candidates of `lookup_kda_ckpt`, with how long each agrees with the prompt. -/
def cands (s : PrefixCache τ) (prompt : List τ) : List (ℕ × ℕ) :=
  let best := s.descend prompt (prompt.length - 1)
  (best.toList.map fun b => (b, s.lenOf best)) ++ ((s.siblings best).map fun c =>
      (c, s.matchLen prompt (prompt.length - 1) (s.lenOf best) c)).filter
        fun p => s.lenOf best < p.2

theorem mem_cands (h : TreeInv s) {c : ℕ × ℕ} (hc : c ∈ cands s prompt) :
    c.1 ∈ s.entries ∧ ∀ a p, Above s c.2 c.1 a p → Scanned s prompt a ∧ Offers s prompt a p := by
  obtain ⟨hreach, hlongest⟩ := h.descend_spec prompt (prompt.length - 1)
  rcases mem_append.1 hc with hbest | hsib
  · obtain ⟨b, hb, rfl⟩ := mem_map.1 hbest
    obtain ⟨hbe, hbt, hlen⟩ := hreach b (Option.mem_toList.1 hb)
    refine ⟨hbe, fun a p ha => ?_⟩
    have hbelow : Below s prompt (s.tokens a) :=
      ⟨mem_strings.2 ⟨a, ha.1, rfl⟩, ha.2.1.trans hbt, ha.2.1.length_le.trans hlen⟩
    exact ⟨⟨ha.1, .inl hbelow⟩,
      offers_of_below ha.1 hbelow ha.2.2.1 (ha.2.2.2.trans (min_le_right _ _))⟩
  obtain ⟨hmem, hlt⟩ := mem_filter.1 hsib
  obtain ⟨d, hd, rfl⟩ := mem_map.1 hmem
  rw [decide_eq_true_eq] at hlt
  have hde := (((h.siblings _ fun d hd => (hreach d hd).1).2 d).1 hd).1
  have hmatch := h.matchLen_eq hreach hd
  refine ⟨hde, fun a p ha => ?_⟩
  by_cases hae : s.tokens a = s.tokens d
  · have had := h.inj a ha.1 d hde hae
    subst had
    refine ⟨⟨hde, .inr ⟨fun q hq => ?_, fun q hq => h.below_of_sibling hd hq⟩⟩, hde, ha.2.2.1, ?_⟩
    · obtain ⟨b, hb, hqb⟩ := hlongest q hq.1 hq.2.1 hq.2.2
      have hle : q.length ≤ s.lenOf (s.descend prompt (prompt.length - 1)) := by
        rw [hb]
        exact hqb.length_le
      omega
    · have hle := ha.2.2.2
      omega
  · have hbelow := h.below_of_sibling hd (mem_strings.2 ⟨a, ha.1, rfl⟩) ha.2.1 hae
    exact ⟨⟨ha.1, .inl hbelow⟩,
      offers_of_below ha.1 hbelow ha.2.2.1 (ha.2.2.2.trans (min_le_right _ _))⟩

theorem exists_cand (h : TreeInv s) {e p : ℕ} (hscan : Scanned s prompt e)
    (hoffer : Offers s prompt e p) (hpos : 0 < p) :
    ∃ c ∈ cands s prompt, Above s c.2 c.1 e p := by
  obtain ⟨hreach, hlongest⟩ := h.descend_spec prompt (prompt.length - 1)
  obtain ⟨he, hp, hle⟩ := hoffer
  rcases hscan.2 with ⟨hmem, het, hlen⟩ | ⟨hlong, habove⟩
  · obtain ⟨b, hb, heb⟩ := hlongest _ hmem het hlen
    refine ⟨(b, s.lenOf (some b)), ?_, he, heb, hp, ?_⟩
    · apply mem_append_left
      simp only [hb, Option.toList_some, map_cons, map_nil, mem_singleton]
    · have hshort := heb.length_le
      have hfloor : s.lenOf (some b) = (s.tokens b).length := rfl
      omega
  have hsib := h.mem_siblings_of_scanned he hlong habove
  have hmatch := h.matchLen_eq hreach hsib
  have hfloor : s.lenOf (s.descend prompt (prompt.length - 1)) <
      min (commonPrefix (s.tokens e) prompt) (prompt.length - 1) := by
    cases hbest : s.descend prompt (prompt.length - 1) with
    | none =>
      have hzero : s.lenOf none = 0 := rfl
      omega
    | some b =>
      obtain ⟨hb, hbt, hlen⟩ := hreach b hbest
      exact hlong _ ⟨mem_strings.2 ⟨b, hb, rfl⟩, hbt, hlen⟩
  refine ⟨(e, s.matchLen prompt (prompt.length - 1)
    (s.lenOf (s.descend prompt (prompt.length - 1))) e), ?_, he, prefix_rfl, hp, ?_⟩
  · apply mem_append_right
    refine mem_filter.2 ⟨mem_map.2 ⟨e, hsib, rfl⟩, ?_⟩
    rw [decide_eq_true_eq]
    omega
  · omega

theorem lookupKdaCkpt_spec (h : TreeInv s)
    (hsorted : ∀ e ∈ s.entries, (s.heap e).kdaCkpts.Pairwise (· ≤ ·)) (prompt : List τ) :
    IsDeepestScanned s prompt (s.lookupKdaCkpt prompt).2 := by
  unfold lookupKdaCkpt
  by_cases hcap : prompt.length - 1 = 0
  · rw [if_pos hcap]
    intro e ckpt _ hoffer
    have hle := hoffer.2.2
    omega
  rw [if_neg hcap]
  change IsDeepestScanned s prompt (Option.map (fun e => (e, ((cands s prompt).foldl
    (fun acc p => s.bestCkpt p.2 ((s.tokens p.1).length + 1) (some p.1) acc) (none, 0)).2))
    ((cands s prompt).foldl
      (fun acc p => s.bestCkpt p.2 ((s.tokens p.1).length + 1) (some p.1) acc) (none, 0)).1)
  obtain ⟨-, hall, hkept⟩ := h.foldl_bestCkpt_spec hsorted (cands s prompt)
    (fun c hc => (h.mem_cands hc).1) (none, 0)
  generalize (cands s prompt).foldl
    (fun acc p => s.bestCkpt p.2 ((s.tokens p.1).length + 1) (some p.1) acc) (none, 0) = found at *
  rcases hkept with rfl | ⟨c, hc, e, ckpt, habove, hpos, rfl⟩
  · intro e ckpt hscan hoffer
    by_contra hne
    obtain ⟨c, hc, habove⟩ := h.exists_cand hscan hoffer (Nat.pos_of_ne_zero hne)
    exact hne (Nat.le_zero.1 (hall c hc e ckpt habove))
  · obtain ⟨hscan, hoffer⟩ := (h.mem_cands hc).2 e ckpt habove
    refine ⟨hpos, hscan, hoffer, fun e' ckpt' hscan' hoffer' => ?_⟩
    by_cases hzero : ckpt' = 0
    · rw [hzero]
      exact Nat.zero_le _
    · obtain ⟨c', hc', habove'⟩ := h.exists_cand hscan' hoffer' (Nat.pos_of_ne_zero hzero)
      exact hall c' hc' e' ckpt' habove'

end TreeInv

/-! ### Runs -/

/-- **When the checkpoint lookup is maximal**: in every reachable cache with ascending checkpoints,
it returns the deepest checkpoint that any entry offers just if, for every offer, what is scanned
has one that is as deep. -/
theorem checkpoint_lookup_iff {cfg : PrefixCacheConfig} {ops : List (CacheOp τ)}
    (hrun : GuardedRun cfg.step Fresh PrefixCache.init ops s)
    (hsorted : ∀ e ∈ s.entries, (s.heap e).kdaCkpts.Pairwise (· ≤ ·)) (prompt : List τ) :
    IsDeepest s prompt (s.lookupKdaCkpt prompt).2 ↔ ∀ e ckpt, Offers s prompt e ckpt →
        ∃ e' ckpt', Scanned s prompt e' ∧ Offers s prompt e' ckpt' ∧ ckpt ≤ ckpt' ∧ 0 < ckpt' := by
  have hinv : CacheInv s := hrun.invariant (fun _ _ _ h hok hstep => h.step hok hstep) CacheInv.init
  have hspec := hinv.tree.lookupKdaCkpt_spec hsorted prompt
  cases hfound : (s.lookupKdaCkpt prompt).2 with
  | none =>
    rw [hfound] at hspec
    constructor
    · intro hnone e ckpt hoffer
      exact absurd hoffer (hnone e ckpt)
    · intro hcond e ckpt hoffer
      obtain ⟨e', ckpt', hscan, hoffer', -, hpos⟩ := hcond e ckpt hoffer
      rw [hspec e' ckpt' hscan hoffer'] at hpos
      exact lt_irrefl _ hpos
  | some found =>
    obtain ⟨e, ckpt⟩ := found
    rw [hfound] at hspec
    obtain ⟨hpos, hscan, hoffer, hmax⟩ := hspec
    constructor
    · intro hdeepest e' ckpt' hoffer'
      exact ⟨e, ckpt, hscan, hoffer, hdeepest.2 e' ckpt' hoffer', hpos⟩
    · intro hcond
      refine ⟨hoffer, fun e' ckpt' hoffer' => ?_⟩
      obtain ⟨e'', ckpt'', hscan', hoffer'', hle, -⟩ := hcond e' ckpt' hoffer'
      exact hle.trans (hmax e'' ckpt'' hscan' hoffer'')

/-- A prompt that leaves the only entry in the middle, beyond its checkpoint. -/
theorem checkpoint_lookup_iff_one : ∃ s : PrefixCache ℕ,
    GuardedRun fourEntries.step Fresh PrefixCache.init
      [.register [1, 2, 3, 4, 5, 6, 7, 8] 0 10 [4] 1 grantAll] s ∧
    (s.lookupKdaCkpt [1, 2, 3, 4, 5, 9]).2 = some (0, 4) ∧
    (IsDeepest s [1, 2, 3, 4, 5, 9] (s.lookupKdaCkpt [1, 2, 3, 4, 5, 9]).2 ↔
      ∀ e ckpt, Offers s [1, 2, 3, 4, 5, 9] e ckpt →
        ∃ e' ckpt', Scanned s [1, 2, 3, 4, 5, 9] e' ∧ Offers s [1, 2, 3, 4, 5, 9] e' ckpt' ∧
          ckpt ≤ ckpt' ∧ 0 < ckpt') := by
  obtain ⟨s, hs, hsorted, hfound⟩ : ∃ s : PrefixCache ℕ, fourEntries.step PrefixCache.init
        (.register [1, 2, 3, 4, 5, 6, 7, 8] 0 10 [4] 1 grantAll) = some s ∧
      (∀ e ∈ s.entries, (s.heap e).kdaCkpts.Pairwise (· ≤ ·)) ∧
      (s.lookupKdaCkpt [1, 2, 3, 4, 5, 9]).2 = some (0, 4) :=
    ⟨_, rfl, by decide, by decide⟩
  have hrun : GuardedRun fourEntries.step Fresh PrefixCache.init
      [.register [1, 2, 3, 4, 5, 6, 7, 8] 0 10 [4] 1 grantAll] s :=
    .cons (fun e he => absurd he (Nat.not_lt_zero e)) hs (.nil s)
  exact ⟨s, hrun, hfound, checkpoint_lookup_iff hrun hsorted _⟩

/-- A later entry comes between: the checkpoint at four, which only the entry below it has, is not
found, although the prompt agrees beyond it. -/
theorem checkpoint_below_reparented_is_lost : ∃ s : PrefixCache ℕ,
    GuardedRun fourEntries.step Fresh PrefixCache.init
      [.register [1, 2, 3, 4, 5, 6, 7, 8] 0 10 [4] 1 grantAll,
        .register [1, 2, 3, 4, 5, 6] 0 11 [] 0 grantAll] s ∧
    (∀ e ∈ s.entries, (s.heap e).kdaCkpts.Pairwise (· ≤ ·)) ∧
    Offers s [1, 2, 3, 4, 5, 9] 0 4 ∧ (s.lookupKdaCkpt [1, 2, 3, 4, 5, 9]).2 = none ∧
    ¬IsDeepest s [1, 2, 3, 4, 5, 9] (s.lookupKdaCkpt [1, 2, 3, 4, 5, 9]).2 := by
  obtain ⟨s₁, s₂, hs₁, hnext, hs₂, hsorted, hoffer, hnone⟩ : ∃ s₁ s₂ : PrefixCache ℕ,
      fourEntries.step PrefixCache.init
        (.register [1, 2, 3, 4, 5, 6, 7, 8] 0 10 [4] 1 grantAll) = some s₁ ∧
      (∀ e < s₁.next, (s₁.heap e).seqId ≠ 11) ∧
      fourEntries.step s₁ (.register [1, 2, 3, 4, 5, 6] 0 11 [] 0 grantAll) = some s₂ ∧
      (∀ e ∈ s₂.entries, (s₂.heap e).kdaCkpts.Pairwise (· ≤ ·)) ∧
      (0 ∈ s₂.entries ∧ 4 ∈ (s₂.heap 0).kdaCkpts ∧
        4 ≤ min (min (commonPrefix (s₂.tokens 0) [1, 2, 3, 4, 5, 9]) 5)
          ((s₂.tokens 0).length - 1)) ∧
      (s₂.lookupKdaCkpt [1, 2, 3, 4, 5, 9]).2 = none :=
    ⟨_, _, rfl, by decide, rfl, by decide, by decide, by decide⟩
  have hrun : GuardedRun fourEntries.step Fresh PrefixCache.init
      [.register [1, 2, 3, 4, 5, 6, 7, 8] 0 10 [4] 1 grantAll,
        .register [1, 2, 3, 4, 5, 6] 0 11 [] 0 grantAll] s₂ :=
    .cons (fun e he => absurd he (Nat.not_lt_zero e)) hs₁ (.cons hnext hs₂ (.nil s₂))
  refine ⟨s₂, hrun, hsorted, hoffer, hnone, ?_⟩
  rw [hnone]
  exact fun hall => hall 0 4 hoffer

end LayerStorm.Orchestrator
