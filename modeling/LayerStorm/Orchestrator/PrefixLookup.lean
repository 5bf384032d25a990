import LayerStorm.Orchestrator.PrefixLedger

/-!
# The lookups of the prefix cache

Whatever was registered and evicted before, the way down the tree meets every registered prefix of a
prompt, and what stops it is next to every entry that agrees with the prompt longer.  So the lookups
find the longest prefix that is usable, and the longest reuse point that their policy allows.

## Main results

* `prefix_lookups_maximal` — both, in every reachable cache.
-/

namespace LayerStorm.Orchestrator

open Lib List

variable {τ : Type} [DecidableEq τ] {s : PrefixCache τ}

/-! ### Common prefixes -/

namespace PrefixCache

variable {n : ℕ}

theorem le_commonPrefix : ∀ {as bs : List τ},
    n ≤ commonPrefix as bs ↔ n ≤ as.length ∧ n ≤ bs.length ∧ as.take n = bs.take n := by
  induction n with
  | zero => simp
  | succ n ih =>
    intro as bs
    cases as with
    | nil => simp [commonPrefix]
    | cons a as =>
      cases bs with
      | nil => simp [commonPrefix]
      | cons b bs =>
        unfold commonPrefix
        split
        · next hab =>
          subst hab
          simp only [Nat.add_le_add_iff_right, ih, length_cons, take_succ_cons,
            cons.injEq, true_and]
        · next hab => simp [hab]

theorem commonPrefix_append {p as bs : List τ} :
    commonPrefix (p ++ as) (p ++ bs) = p.length + commonPrefix as bs := by
  induction p with
  | nil => simp
  | cons a p ih =>
    simp only [cons_append, commonPrefix, if_true, length_cons]
    omega

theorem commonPrefix_take {as bs : List τ} :
    commonPrefix (as.take n) bs = min n (commonPrefix as bs) := by
  induction n generalizing as bs with
  | zero => simp [commonPrefix]
  | succ n ih =>
    cases as with
    | nil => simp [commonPrefix]
    | cons a as =>
      cases bs with
      | nil => simp [commonPrefix]
      | cons b bs =>
        simp only [take_succ_cons, commonPrefix]
        by_cases hab : a = b
        · rw [if_pos hab, if_pos hab, ih]
          omega
        · rw [if_neg hab, if_neg hab, Nat.min_zero]

theorem commonPrefix_eq_length {as bs : List τ} (h : as <+: bs) :
    commonPrefix as bs = as.length := by
  apply Nat.le_antisymm (le_commonPrefix.1 le_rfl).1
  apply le_commonPrefix.2
  refine ⟨le_rfl, h.length_le, ?_⟩
  rw [take_length, ← prefix_iff_eq_take]
  exact h

/-- How long the registered strings agree with a prompt, one token of which is left out. -/
def agreement (s : PrefixCache τ) (prompt : List τ) : ℕ :=
  s.entries.foldr (fun e m => max (min (commonPrefix (s.tokens e) prompt) (prompt.length - 1)) m) 0

variable {prompt : List τ}

theorem agreement_le_iff : s.agreement prompt ≤ n ↔
    ∀ e ∈ s.entries, min (commonPrefix (s.tokens e) prompt) (prompt.length - 1) ≤ n := by
  unfold agreement
  induction s.entries with
  | nil => simp
  | cons e l ih => simp only [foldr_cons, max_le_iff, ih, forall_mem_cons]

theorem le_agreement {e : ℕ} (he : e ∈ s.entries) :
    min (commonPrefix (s.tokens e) prompt) (prompt.length - 1) ≤ s.agreement prompt :=
  agreement_le_iff.1 le_rfl e he

/-- The largest reuse point that the policy allows: the whole agreement if finer points than the
grid are allowed; else its last grid point, or the prompt without its last token if just this is
registered. -/
def reuseLimit (s : PrefixCache τ) (subgrid : Bool) (grid : ℕ) (prompt : List τ) : ℕ :=
  if subgrid then s.agreement prompt
  else max (s.agreement prompt / grid * grid)
    (if prompt.take (prompt.length - 1) ∈ s.strings then prompt.length - 1 else 0)

theorem agreement_le (prompt : List τ) : s.agreement prompt ≤ prompt.length - 1 :=
  agreement_le_iff.2 fun _ _ => min_le_right _ _

theorem agreement_of_mem (hmem : prompt.take (prompt.length - 1) ∈ s.strings) :
    s.agreement prompt = prompt.length - 1 := by
  obtain ⟨e, he, heq⟩ := mem_strings.1 hmem
  have hle : min (commonPrefix (s.tokens e) prompt) (prompt.length - 1) ≤ s.agreement prompt :=
    le_agreement he
  have hcapped := s.agreement_le prompt
  rw [heq, commonPrefix_eq_length (List.take_prefix _ _), length_take] at hle
  omega

theorem reuseLimit_le (grid : ℕ) (subgrid : Bool) (prompt : List τ) :
    s.reuseLimit subgrid grid prompt ≤ s.agreement prompt := by
  cases subgrid with
  | true => exact le_rfl
  | false =>
    apply max_le (Nat.div_mul_le_self _ _)
    by_cases hmem : prompt.take (prompt.length - 1) ∈ s.strings
    · rw [if_pos hmem, agreement_of_mem hmem]
    · rw [if_neg hmem]
      exact Nat.zero_le _

theorem reusePoint_eq (grid : ℕ) (subgrid : Bool) {node : ℕ} (hnode : node ∈ s.entries)
    (hagree : s.agreement prompt ≤ commonPrefix (s.tokens node) prompt)
    (hexact : prompt.take (prompt.length - 1) ∈ s.strings →
      (s.tokens node).length = prompt.length - 1) :
    reusePoint subgrid grid (prompt.length - 1) (s.tokens node).length (s.agreement prompt) =
      s.reuseLimit subgrid grid prompt := by
  unfold reusePoint reuseLimit
  cases subgrid with
  | true => rfl
  | false =>
    rw [if_neg Bool.false_ne_true, if_neg Bool.false_ne_true]
    by_cases hmem : prompt.take (prompt.length - 1) ∈ s.strings
    · -- the entry is the registered string
      have hall := agreement_of_mem hmem
      have hgrid : s.agreement prompt / grid * grid ≤ s.agreement prompt := Nat.div_mul_le_self _ _
      rw [if_pos hmem, if_pos ⟨hall.trans (hexact hmem).symm, .inr hall⟩]
      omega
    rw [if_neg hmem, Nat.max_zero]
    by_cases hwhole : s.agreement prompt = (s.tokens node).length ∧
        (s.agreement prompt % grid = 0 ∨ s.agreement prompt = prompt.length - 1)
    · rw [if_pos hwhole]
      rcases hwhole.2 with hmod | hcap
      · exact (Nat.div_mul_cancel (Nat.dvd_of_mod_eq_zero hmod)).symm
      -- then the prompt without its last token would be registered
      exfalso
      apply hmem
      obtain ⟨-, -, htake⟩ := le_commonPrefix.1 hagree
      refine mem_strings.2 ⟨node, hnode, ?_⟩
      rw [← hcap, ← htake, hwhole.1, take_length]
    · rw [if_neg hwhole]

end PrefixCache

open PrefixCache

/-! ### Lookup -/

def Usable (s : PrefixCache τ) (prompt : List τ) (valid : Option (ℕ → Bool)) (e : ℕ) : Prop :=
  e ∈ s.entries ∧ s.tokens e <+: prompt ∧ (s.tokens e).length < prompt.length ∧
    valid.all (fun v => v (s.tokens e).length) = true

/-- The longest usable entry, or `none` if there is none. -/
def IsLongest (s : PrefixCache τ) (prompt : List τ) (valid : Option (ℕ → Bool)) : Option ℕ → Prop
  | some e => Usable s prompt valid e ∧
      ∀ e', Usable s prompt valid e' → (s.tokens e').length ≤ (s.tokens e).length
  | none => ∀ e, ¬Usable s prompt valid e

namespace TreeInv

variable {o : Option ℕ} (h : TreeInv s)
include h

theorem lenOf_lt {c : ℕ} (hc : c ∈ s.entries) (hpc : s.parent c = o) :
    s.lenOf o < (s.tokens c).length := by
  have hpar := h.parent c hc
  unfold parentTokens at hpar
  rw [hpc] at hpar
  cases o with
  | none => exact length_pos_iff.2 (h.nonempty c hc)
  | some b => exact length_lt_of_prefix hpar.2.1 hpar.2.2.1

theorem eq_of_between {c e : ℕ} (he : e ∈ s.entries) (hc : c ∈ s.entries) (hpc : s.parent c = o)
    (hec : s.tokens e <+: s.tokens c) (hlong : s.lenOf o < (s.tokens e).length) : e = c := by
  have hpar := h.parent c hc
  have hmem : s.tokens e ∈ (s.strings : Set (List τ)) :=
    Finset.mem_coe.2 (mem_strings.2 ⟨e, he, rfl⟩)
  unfold parentTokens at hpar
  rw [hpc] at hpar
  by_contra hne
  have hne' : s.tokens e ≠ s.tokens c := fun heq => hne (h.inj e he c hc heq)
  cases o with
  | none => exact hne' (hpar _ hmem hec)
  | some b => exact absurd (hpar.2.2.2 _ hmem hec hne').length_le (not_le.2 hlong)

theorem exists_next {t : List τ} {e : ℕ} (ho : ∀ b, o = some b → b ∈ s.entries ∧ s.tokens b <+: t)
    (he : e ∈ s.entries) (het : s.tokens e <+: t) (hlong : s.lenOf o < (s.tokens e).length) :
    ∃ c ∈ s.entries, c ∈ s.siblings o ∧ s.tokens c <+: s.tokens e := by
  have hbelow : ∀ b, o.map s.tokens = some b →
      b ∈ (s.strings : Set (List τ)) ∧ b <+: s.tokens e ∧ b ≠ s.tokens e := by
    intro b hb
    rw [Option.map_eq_some_iff] at hb
    obtain ⟨d, rfl, rfl⟩ := hb
    have hlt : (s.tokens d).length < (s.tokens e).length := hlong
    refine ⟨mem_strings.2 ⟨d, (ho d rfl).1, rfl⟩,
      prefix_of_prefix_length_le (ho d rfl).2 het hlt.le, ?_⟩
    intro heq
    rw [heq] at hlt
    exact lt_irrefl _ hlt
  obtain ⟨u, hu, hpar, hue⟩ := h.forest.exists_child_prefix
    (Finset.mem_coe.2 (mem_strings.2 ⟨e, he, rfl⟩)) hbelow
  obtain ⟨c, hc, rfl⟩ := mem_strings.1 (Finset.mem_coe.1 hu)
  have hpc := h.parent_of_isParent hc (fun p hp => (ho p hp).1) hpar
  exact ⟨c, hc, ((h.siblings o fun p hp => (ho p hp).1).2 c).2 ⟨hc, hpc⟩, hue⟩

theorem lookupFrom_spec {prompt : List τ} {valid : Option (ℕ → Bool)} (fuel : ℕ)
    {at_ best : Option ℕ} (hat : ∀ b, at_ = some b →
      b ∈ s.entries ∧ s.tokens b <+: prompt ∧ (s.tokens b).length < prompt.length)
    (hbest : ∀ b, best = some b → Usable s prompt valid b)
    (habove : ∀ e, Usable s prompt valid e → (s.tokens e).length ≤ s.lenOf at_ →
      ∃ b, best = some b ∧ (s.tokens e).length ≤ (s.tokens b).length)
    (hfuel : prompt.length < s.lenOf at_ + fuel) :
    IsLongest s prompt valid (s.lookupFrom prompt valid fuel at_ best) := by
  have hlenOf : s.lenOf at_ ≤ prompt.length := by
    cases at_ with
    | none => exact Nat.zero_le _
    | some b => exact (hat b rfl).2.2.le
  induction fuel generalizing at_ best with
  | zero => omega
  | succ fuel ih =>
    unfold PrefixCache.lookupFrom
    split
    · next hnone =>
      -- nothing usable is longer than where the way down ends
      have hstop : ∀ e, Usable s prompt valid e → (s.tokens e).length ≤ s.lenOf at_ := by
        intro e he
        by_contra hlong
        obtain ⟨c, hc, hpar, hce⟩ := h.exists_next (fun b hb => ⟨(hat b hb).1, (hat b hb).2.1⟩) he.1
          he.2.1 (not_le.1 hlong)
        have hno := find?_eq_none.1 hnone c hpar
        simp only [decide_eq_true_eq, not_and] at hno
        exact hno (hce.length_le.trans_lt he.2.2.1) (hce.trans he.2.1)
      cases best with
      | none =>
        intro e he
        obtain ⟨b, hb, -⟩ := habove e he (hstop e he)
        cases hb
      | some b =>
        refine ⟨hbest b rfl, fun e he => ?_⟩
        obtain ⟨b', hb', hle⟩ := habove e he (hstop e he)
        cases hb'
        exact hle
    · next c hc =>
      have hmem := mem_of_find?_eq_some hc
      have hok := find?_some hc
      rw [decide_eq_true_eq] at hok
      obtain ⟨hce, hpc⟩ := ((h.siblings at_ fun b hb => (hat b hb).1).2 c).1 hmem
      have hlt := h.lenOf_lt hce hpc
      apply ih
      case hat =>
        intro b hb
        cases hb
        exact ⟨hce, hok.2, hok.1⟩
      case hbest =>
        intro b hb
        split at hb
        · next hvalid =>
          cases hb
          exact ⟨hce, hok.2, hok.1, hvalid⟩
        · exact hbest b hb
      case habove =>
        intro e he hle
        by_cases hshort : (s.tokens e).length ≤ s.lenOf at_
        · obtain ⟨b, hb, hlen⟩ := habove e he hshort
          split
          · exact ⟨c, rfl, hle⟩
          · exact ⟨b, hb, hlen⟩
        · -- between the candidate and its parent there is nothing
          have heq : e = c := h.eq_of_between he.1 hce hpc
            (prefix_of_prefix_length_le he.2.1 hok.2 hle) (not_le.1 hshort)
          subst heq
          rw [if_pos he.2.2.2]
          exact ⟨e, rfl, le_rfl⟩
      case hfuel =>
        have hlen : s.lenOf (some c) = (s.tokens c).length := rfl
        omega
      case hlenOf => exact hok.1.le

theorem lookup_spec (prompt : List τ) (valid : Option (ℕ → Bool)) :
    IsLongest s prompt valid (s.lookup prompt valid).2 := by
  have hnone : ∀ e, Usable s prompt valid e → (s.tokens e).length ≤ s.lenOf none →
      ∃ b, none = some b ∧ (s.tokens e).length ≤ (s.tokens b).length := by
    intro e he hle
    have hpos := length_pos_iff.2 (h.nonempty e he.1)
    simp only [lenOf, Option.map_none, Option.getD_none] at hle
    omega
  have hspec := h.lookupFrom_spec (prompt.length + 1) (fun b hb => (by cases hb))
    (fun b hb => (by cases hb)) hnone (by simp [lenOf])
  unfold PrefixCache.lookup
  cases hfrom : s.lookupFrom prompt valid (prompt.length + 1) none none with
  | some e | none =>
    rw [hfrom] at hspec
    exact hspec

end TreeInv

/-! ### Reuse points -/

/-- A reuse point within the tokens of an entry: the largest that the policy allows, and the
entry is the registered prefix itself if there is one; or `none` if it allows none. -/
def IsReusePoint (s : PrefixCache τ) (prompt : List τ) (grid : ℕ) (subgrid : Bool) :
    Option (ℕ × ℕ) → Prop
  | some (node, reuse) => node ∈ s.entries ∧ 0 < reuse ∧
      reuse ≤ min (s.tokens node).length (prompt.length - 1) ∧
      (s.tokens node).take reuse = prompt.take reuse ∧
      reuse = s.reuseLimit subgrid grid prompt ∧
      (prompt.take reuse ∈ s.strings → (s.tokens node).length = reuse)
  | none => s.reuseLimit subgrid grid prompt = 0

namespace TreeInv

variable {prompt : List τ} {best : Option ℕ}

theorem take_floor (h : TreeInv s) {cap c : ℕ} (hreach : Reached s prompt cap best)
    (hc : c ∈ s.siblings best) :
    ∃ p as bs : List τ, p.length = s.lenOf best ∧ s.tokens c = p ++ as ∧ prompt = p ++ bs := by
  cases best with
  | none => exact ⟨[], s.tokens c, prompt, rfl, rfl, rfl⟩
  | some b =>
    obtain ⟨hb, ⟨bs, hbs⟩, -⟩ := hreach b rfl
    obtain ⟨hce, hpc⟩ := ((h.siblings (some b) fun d hd => (hreach d hd).1).2 c).1 hc
    have hpar := h.parent c hce
    unfold parentTokens at hpar
    rw [hpc] at hpar
    obtain ⟨as, has⟩ := hpar.2.1
    exact ⟨s.tokens b, as, bs, rfl, has.symm, hbs.symm⟩

theorem matchLen_eq (h : TreeInv s) {cap c : ℕ} (hreach : Reached s prompt cap best)
    (hc : c ∈ s.siblings best) :
    s.matchLen prompt cap (s.lenOf best) c =
      max (s.lenOf best) (min (commonPrefix (s.tokens c) prompt) cap) := by
  obtain ⟨p, as, bs, hp, has, hbs⟩ := h.take_floor hreach hc
  have hlen := (le_commonPrefix.1 (le_refl (commonPrefix (s.tokens c) prompt))).1
  unfold matchLen
  by_cases hshort : min (s.tokens c).length cap ≤ s.lenOf best
  · rw [if_pos (.inl hshort)]
    omega
  have htake : (s.tokens c).take (s.lenOf best) = prompt.take (s.lenOf best) := by
    rw [has, hbs, ← hp, take_left, take_left]
  rw [if_neg (not_or.2 ⟨hshort, not_not.2 htake⟩)]
  have hdrop : ((s.tokens c).take (min (s.tokens c).length cap)).drop (s.lenOf best) =
      as.take (min (s.tokens c).length cap - s.lenOf best) := by
    rw [drop_take, has, ← hp, drop_left]
  have hshare : commonPrefix (s.tokens c) prompt = s.lenOf best + commonPrefix as bs := by
    rw [has, hbs, commonPrefix_append, hp]
  rw [hdrop, hbs, ← hp, drop_left, commonPrefix_take]
  rw [hbs] at hshare hlen
  omega

theorem exists_sibling_agreeing (h : TreeInv s) {cap e n : ℕ} (he : e ∈ s.entries)
    (hn : n ≤ min (commonPrefix (s.tokens e) prompt) cap)
    (hbeyond : s.lenOf (s.descend prompt cap) < n) :
    ∃ c ∈ s.siblings (s.descend prompt cap), s.tokens c <+: s.tokens e ∧
      n < (s.tokens c).length ∧ n ≤ min (commonPrefix (s.tokens c) prompt) cap := by
  obtain ⟨hreach, hlongest⟩ := h.descend_spec prompt cap
  obtain ⟨hlen, hlen', hagree⟩ := le_commonPrefix.1 (le_trans hn (min_le_left _ _))
  have hcap : n ≤ cap := le_trans hn (min_le_right _ _)
  have hb : ∀ b, (s.descend prompt cap).map s.tokens = some b →
      b ∈ (s.strings : Set (List τ)) ∧ b <+: prompt := by
    intro b hb
    obtain ⟨d, hd, rfl⟩ := Option.map_eq_some_iff.1 hb
    exact ⟨mem_strings.2 ⟨d, (hreach d hd).1, rfl⟩, (hreach d hd).2.1⟩
  have hlong : ∀ q ∈ (s.strings : Set (List τ)), q <+: prompt → q.length ≤ cap →
      ∃ b, (s.descend prompt cap).map s.tokens = some b ∧ q <+: b := by
    intro q hq hqt hle
    obtain ⟨b, hb, hqb⟩ := hlongest q hq hqt hle
    exact ⟨s.tokens b, by rw [hb, Option.map_some], hqb⟩
  have hshort : ∀ b, (s.descend prompt cap).map s.tokens = some b → b.length < n := by
    intro b hb
    obtain ⟨d, hd, rfl⟩ := Option.map_eq_some_iff.1 hb
    rw [hd] at hbeyond
    exact hbeyond
  obtain ⟨u, hu, hpar, hue, hlt, htake⟩ := h.forest.exists_child_agreeing hb hlong
    (Finset.mem_coe.2 (mem_strings.2 ⟨e, he, rfl⟩)) hcap hlen hagree hshort
  obtain ⟨c, hc, rfl⟩ := mem_strings.1 (Finset.mem_coe.1 hu)
  have hpc := h.parent_of_isParent hc (fun p hp => (hreach p hp).1) hpar
  refine ⟨c, ((h.siblings _ fun p hp => (hreach p hp).1).2 c).2 ⟨hc, hpc⟩, hue, hlt, ?_⟩
  exact le_min (le_commonPrefix.2 ⟨hlt.le, hlen', htake⟩) hcap

end TreeInv

theorem scan_spec {f : ℕ → ℕ} (l : List ℕ) (best : Option ℕ) (floor : ℕ) :
    let r := l.foldl (fun (acc : Option ℕ × ℕ) c => if acc.2 < f c then (some c, f c) else acc)
      (best, floor)
    floor ≤ r.2 ∧ (∀ c ∈ l, f c ≤ r.2) ∧
      (r = (best, floor) ∨ ∃ c ∈ l, r = (some c, f c) ∧ floor < f c) := by
  induction l generalizing best floor with
  | nil => exact ⟨le_rfl, fun c hc => (by cases hc), .inl rfl⟩
  | cons d l ih =>
    simp only [foldl_cons, forall_mem_cons]
    by_cases hd : floor < f d
    · rw [if_pos hd]
      obtain ⟨hle, hall, hr⟩ := ih (some d) (f d)
      refine ⟨hd.le.trans hle, ⟨hle, hall⟩, .inr ?_⟩
      rcases hr with hr | ⟨c, hc, hr, hlt⟩
      · exact ⟨d, mem_cons_self, hr, hd⟩
      · exact ⟨c, mem_cons_of_mem d hc, hr, hd.trans hlt⟩
    · rw [if_neg hd]
      obtain ⟨hle, hall, hr⟩ := ih best floor
      refine ⟨hle, ⟨(not_lt.1 hd).trans hle, hall⟩, ?_⟩
      rcases hr with hr | ⟨c, hc, hr, hlt⟩
      · exact .inl hr
      · exact .inr ⟨c, mem_cons_of_mem d hc, hr, hlt⟩

namespace TreeInv

variable {prompt : List τ} (h : TreeInv s)
include h

theorem scan_eq_agreement {best : Option ℕ} (hbest : s.descend prompt (prompt.length - 1) = best) :
    let scan := (s.siblings best).foldl (fun (acc : Option ℕ × ℕ) c =>
        let n := s.matchLen prompt (prompt.length - 1) (s.lenOf best) c
        if acc.2 < n then (some c, n) else acc) (best, s.lenOf best)
    scan.2 = s.agreement prompt ∧ (scan.1 = best ∧ scan.2 = s.lenOf best ∨ s.lenOf best < scan.2 ∧
        ∃ c ∈ s.siblings best, scan.1 = some c ∧ scan.2 ≤ commonPrefix (s.tokens c) prompt) := by
  intro scan
  obtain ⟨hreach, -⟩ := h.descend_spec prompt (prompt.length - 1)
  rw [hbest] at hreach
  obtain ⟨hle, hall, hr⟩ := scan_spec (f := s.matchLen prompt (prompt.length - 1) (s.lenOf best))
    (s.siblings best) best (s.lenOf best)
  have hmem : ∀ c ∈ s.siblings best, c ∈ s.entries := fun c hc =>
    (((h.siblings best fun d hd => (hreach d hd).1).2 c).1 hc).1
  have hcase : scan.1 = best ∧ scan.2 = s.lenOf best ∨ s.lenOf best < scan.2 ∧
      ∃ c ∈ s.siblings best, scan.1 = some c ∧
        scan.2 = min (commonPrefix (s.tokens c) prompt) (prompt.length - 1) := by
    rcases hr with hr | ⟨c, hc, hr, hlt⟩
    · exact .inl ⟨congrArg Prod.fst hr, congrArg Prod.snd hr⟩
    have hsnd : scan.2 = s.matchLen prompt (prompt.length - 1) (s.lenOf best) c :=
      congrArg Prod.snd hr
    refine .inr ⟨hsnd ▸ hlt, c, hc, congrArg Prod.fst hr, ?_⟩
    have heq := h.matchLen_eq hreach hc
    omega
  refine ⟨Nat.le_antisymm ?_ ?_, ?_⟩
  · rcases hcase with ⟨-, hfloor⟩ | ⟨-, c, hc, -, heq⟩
    · -- the prefix itself agrees as long as it is
      rw [hfloor]
      cases best with
      | none => exact Nat.zero_le _
      | some b =>
        obtain ⟨hb, hpre, hlen⟩ := hreach b rfl
        have hshare : min (commonPrefix (s.tokens _) prompt) (prompt.length - 1) ≤
            s.agreement prompt := le_agreement hb
        rw [commonPrefix_eq_length hpre, min_eq_left hlen] at hshare
        exact hshare
    · rw [heq]
      exact le_agreement (hmem c hc)
  · apply agreement_le_iff.2
    intro e he
    by_contra hlong
    push Not at hlong
    have hbeyond : s.lenOf (s.descend prompt (prompt.length - 1)) <
        min (commonPrefix (s.tokens e) prompt) (prompt.length - 1) := by
      rw [hbest]
      exact lt_of_le_of_lt hle hlong
    obtain ⟨c, hc, -, -, hge⟩ := h.exists_sibling_agreeing he le_rfl hbeyond
    rw [hbest] at hc
    have hmatch : s.matchLen prompt (prompt.length - 1) (s.lenOf best) c ≤ scan.2 := hall c hc
    have heq := h.matchLen_eq hreach hc
    omega
  · rcases hcase with hkeep | ⟨hlt, c, hc, hfst, hsnd⟩
    · exact .inl hkeep
    · exact .inr ⟨hlt, c, hc, hfst, hsnd ▸ min_le_left _ _⟩

theorem exactAncestor_spec (len fuel : ℕ) {e : ℕ} (he : e ∈ s.entries)
    (hfuel : (s.tokens e).length < fuel) :
    (∀ a, s.exactAncestor len fuel (some e) = some a →
      a ∈ s.entries ∧ s.tokens a <+: s.tokens e ∧ (s.tokens a).length = len) ∧
    ∀ a ∈ s.entries, s.tokens a <+: s.tokens e → (s.tokens a).length = len →
      s.exactAncestor len fuel (some e) = some a := by
  induction fuel generalizing e with
  | zero => omega
  | succ fuel ih =>
    unfold exactAncestor
    by_cases hshort : (s.tokens e).length < len
    · rw [if_pos hshort]
      refine ⟨fun a ha => (by cases ha), fun a _ hpre hlen => ?_⟩
      exact absurd hpre.length_le (by omega)
    rw [if_neg hshort]
    by_cases heq : (s.tokens e).length = len
    · rw [if_pos heq]
      refine ⟨fun a ha => ?_, fun a ha hpre hlen => ?_⟩
      · cases ha
        exact ⟨he, prefix_rfl, heq⟩
      · rw [h.inj a ha e he (hpre.eq_of_length (hlen.trans heq.symm))]
    rw [if_neg heq]
    have hpar := h.parent e he
    unfold parentTokens at hpar
    change (∀ a, s.exactAncestor len fuel (s.parent e) = some a → _) ∧
      ∀ a ∈ s.entries, _ → _ → s.exactAncestor len fuel (s.parent e) = some a
    cases hp : s.parent e with
    | none =>
      rw [hp] at hpar
      have hno : s.exactAncestor len fuel none = none := by cases fuel <;> rfl
      rw [hno]
      refine ⟨fun a ha => (by cases ha), fun a ha hpre hlen => ?_⟩
      rw [hpar _ (Finset.mem_coe.2 (mem_strings.2 ⟨a, ha, rfl⟩)) hpre] at hlen
      exact absurd hlen heq
    | some p =>
      rw [hp] at hpar
      have hlt := length_lt_of_prefix hpar.2.1 hpar.2.2.1
      obtain ⟨hfound, hfinds⟩ := ih (h.live e he p hp) (by omega)
      refine ⟨fun a ha => ?_, fun a ha hpre hlen => ?_⟩
      · obtain ⟨hae, hap, hlen⟩ := hfound a ha
        exact ⟨hae, hap.trans hpar.2.1, hlen⟩
      · apply hfinds a ha ?_ hlen
        apply hpar.2.2.2 _ (Finset.mem_coe.2 (mem_strings.2 ⟨a, ha, rfl⟩)) hpre
        intro hae
        rw [hae] at hlen
        exact heq hlen

theorem exactAncestor_getD {node reuse : ℕ} (hnode : node ∈ s.entries)
    (hagree : reuse ≤ commonPrefix (s.tokens node) prompt) :
    let e := (s.exactAncestor reuse ((s.tokens node).length + 1) (some node)).getD node
    e ∈ s.entries ∧ reuse ≤ (s.tokens e).length ∧ (s.tokens e).take reuse = prompt.take reuse ∧
      (prompt.take reuse ∈ s.strings → (s.tokens e).length = reuse) := by
  intro e
  obtain ⟨hlen, hlen', htake⟩ := le_commonPrefix.1 hagree
  obtain ⟨hfound, hfinds⟩ := h.exactAncestor_spec reuse ((s.tokens node).length + 1) hnode
    (Nat.lt_succ_self _)
  have hexact : prompt.take reuse ∈ s.strings →
      ∃ a, s.exactAncestor reuse ((s.tokens node).length + 1) (some node) = some a := by
    intro hmem
    obtain ⟨a, ha, heq⟩ := mem_strings.1 hmem
    refine ⟨a, hfinds a ha ?_ ?_⟩
    · rw [heq, ← htake]
      exact take_prefix _ _
    · rw [heq, length_take, min_eq_left hlen']
  cases hwalk : s.exactAncestor reuse ((s.tokens node).length + 1) (some node) with
  | none =>
    have he : e = node := by simp only [e, hwalk, Option.getD_none]
    rw [he]
    refine ⟨hnode, hlen, htake, fun hmem => ?_⟩
    obtain ⟨a, ha⟩ := hexact hmem
    rw [hwalk] at ha
    cases ha
  | some a =>
    have he : e = a := by simp only [e, hwalk, Option.getD_some]
    rw [he]
    obtain ⟨hae, hpre, hal⟩ := hfound a hwalk
    refine ⟨hae, hal.ge, ?_, fun _ => hal⟩
    rw [← htake, ← hal, take_length, ← prefix_iff_eq_take]
    exact hpre

theorem descend_of_mem {r : ℕ} (hr : r ≤ prompt.length - 1) (hmem : prompt.take r ∈ s.strings) :
    ∃ b, s.descend prompt (prompt.length - 1) = some b ∧ r ≤ (s.tokens b).length := by
  have hlen : (prompt.take r).length = r := by
    rw [length_take]
    omega
  obtain ⟨b, hb, hpre⟩ := (h.descend_spec prompt (prompt.length - 1)).2 _ hmem
    (List.take_prefix _ _) (hlen.trans_le hr)
  exact ⟨b, hb, hlen ▸ hpre.length_le⟩

theorem lookupMidEdge_spec (prompt : List τ) (grid : ℕ) (subgrid : Bool) :
    IsReusePoint s prompt grid subgrid (s.lookupMidEdge prompt grid subgrid).2 := by
  have hcapped := s.agreement_le prompt
  have hlimit := reuseLimit_le (s := s) grid subgrid prompt
  unfold lookupMidEdge
  by_cases hcap : prompt.length - 1 = 0
  · rw [if_pos hcap]
    change s.reuseLimit subgrid grid prompt = 0
    omega
  rw [if_neg hcap]
  simp only
  obtain ⟨hreach, -⟩ := h.descend_spec prompt (prompt.length - 1)
  obtain ⟨hagree, hkept⟩ := h.scan_eq_agreement (rfl : s.descend prompt (prompt.length - 1) = _)
  have hexact := fun hmem : prompt.take (prompt.length - 1) ∈ s.strings =>
    h.descend_of_mem le_rfl hmem
  generalize s.descend prompt (prompt.length - 1) = best at *
  generalize (s.siblings best).foldl _ (best, s.lenOf best) = scan at *
  obtain ⟨kept, lcp⟩ := scan
  simp only at hagree hkept ⊢
  subst hagree
  cases kept with
  | none =>
    -- only where nothing was reached nothing is kept
    rcases hkept with ⟨hnone, hfloor⟩ | ⟨-, c, -, hsome, -⟩
    · rw [← hnone] at hfloor
      exact Nat.le_zero.1 (hlimit.trans_eq hfloor)
    · cases hsome
  | some node =>
    have hnode : node ∈ s.entries ∧ s.agreement prompt ≤ commonPrefix (s.tokens node) prompt ∧
        (prompt.take (prompt.length - 1) ∈ s.strings →
          (s.tokens node).length = prompt.length - 1) := by
      rcases hkept with ⟨hsome, hfloor⟩ | ⟨hlt, c, hc, hsome, hshare⟩
      · obtain ⟨hb, hpre, hlen⟩ := hreach node hsome.symm
        refine ⟨hb, ?_, fun hmem => ?_⟩
        · rw [hfloor, ← hsome, commonPrefix_eq_length hpre]
          rfl
        · obtain ⟨b, hb, hle⟩ := hexact hmem
          rw [← hsome] at hb
          cases hb
          exact Nat.le_antisymm hlen hle
      · cases hsome
        refine ⟨(((h.siblings best fun d hd => (hreach d hd).1).2 _).1 hc).1, hshare, ?_⟩
        intro hmem
        -- nothing is beyond the whole prompt
        obtain ⟨b, hb, hle⟩ := hexact hmem
        rw [hb] at hlt
        have hfloor : s.lenOf (some b) = (s.tokens b).length := rfl
        omega
    obtain ⟨hmem, hshare, hwhole⟩ := hnode
    have hreuse := reusePoint_eq grid subgrid hmem hshare hwhole
    simp only [hreuse]
    by_cases hzero : s.reuseLimit subgrid grid prompt = 0
    · rw [if_pos hzero]
      exact hzero
    rw [if_neg hzero]
    -- the prefix reached is preferred where it is long enough
    have hsource : ∀ source, (best.filter fun b =>
        s.reuseLimit subgrid grid prompt ≤ (s.tokens b).length).getD node = source →
        source ∈ s.entries ∧
          s.reuseLimit subgrid grid prompt ≤ commonPrefix (s.tokens source) prompt := by
      rintro source rfl
      cases hfilter : best.filter fun b =>
          s.reuseLimit subgrid grid prompt ≤ (s.tokens b).length with
      | none => exact ⟨hmem, hlimit.trans hshare⟩
      | some b =>
        rw [Option.filter_eq_some_iff, decide_eq_true_eq] at hfilter
        obtain ⟨hb, hpre, -⟩ := hreach b hfilter.1
        refine ⟨hb, ?_⟩
        rw [Option.getD_some, commonPrefix_eq_length hpre]
        exact hfilter.2
    generalize (best.filter fun b =>
      s.reuseLimit subgrid grid prompt ≤ (s.tokens b).length).getD node = source at *
    obtain ⟨hsmem, hsshare⟩ := hsource source rfl
    obtain ⟨hmem, hlen, htake, hreg⟩ := h.exactAncestor_getD hsmem hsshare
    exact ⟨hmem, Nat.pos_of_ne_zero hzero, le_min hlen (hlimit.trans hcapped), htake, rfl, hreg⟩

end TreeInv

/-! ### Runs -/

/-- **The lookups are maximal in every reachable cache**: `lookup` finds the longest registered
proper prefix of a valid length, and `lookup_mid_edge` the longest reuse point of its policy over
all entries. -/
theorem prefix_lookups_maximal {cfg : PrefixCacheConfig} {ops : List (CacheOp τ)}
    (hrun : GuardedRun cfg.step Fresh PrefixCache.init ops s) (prompt : List τ)
    (valid : Option (ℕ → Bool)) (grid : ℕ) (subgrid : Bool) :
    IsLongest s prompt valid (s.lookup prompt valid).2 ∧
    IsReusePoint s prompt grid subgrid (s.lookupMidEdge prompt grid subgrid).2 := by
  have hinv : CacheInv s := hrun.invariant (fun _ _ _ h hok hstep => h.step hok hstep) CacheInv.init
  exact ⟨hinv.tree.lookup_spec prompt valid, hinv.tree.lookupMidEdge_spec prompt grid subgrid⟩

def fourEntries : PrefixCacheConfig := ⟨64, 4, 0, 0⟩

/-- A prompt that leaves an entry in the middle: the prefix is found, and a fork of the longer
entry cut at the grid. -/
theorem prefix_lookups_maximal_mid_edge : ∃ s : PrefixCache ℕ,
    GuardedRun fourEntries.step Fresh PrefixCache.init
      [.register [1, 2, 3, 4, 5, 6] 0 10 [] 0 grantAll, .register [1, 2] 0 11 [] 0 grantAll] s ∧
    (IsLongest s [1, 2, 3, 4, 5, 9] none (s.lookup [1, 2, 3, 4, 5, 9] none).2 ∧
      IsReusePoint s [1, 2, 3, 4, 5, 9] 4 false (s.lookupMidEdge [1, 2, 3, 4, 5, 9] 4 false).2) ∧
    (s.lookup [1, 2, 3, 4, 5, 9] none).2 = some 1 ∧
    (s.lookupMidEdge [1, 2, 3, 4, 5, 9] 4 false).2 = some (0, 4) := by
  obtain ⟨s₁, s₂, hs₁, hnext, hs₂, hlookup, hmid⟩ : ∃ s₁ s₂ : PrefixCache ℕ,
      fourEntries.step PrefixCache.init
        (.register [1, 2, 3, 4, 5, 6] 0 10 [] 0 grantAll) = some s₁ ∧
      (∀ e < s₁.next, (s₁.heap e).seqId ≠ 11) ∧
      fourEntries.step s₁ (.register [1, 2] 0 11 [] 0 grantAll) = some s₂ ∧
      (s₂.lookup [1, 2, 3, 4, 5, 9] none).2 = some 1 ∧
      (s₂.lookupMidEdge [1, 2, 3, 4, 5, 9] 4 false).2 = some (0, 4) :=
    ⟨_, _, rfl, by decide, rfl, by decide, by decide⟩
  have hrun : GuardedRun fourEntries.step Fresh PrefixCache.init
      [.register [1, 2, 3, 4, 5, 6] 0 10 [] 0 grantAll, .register [1, 2] 0 11 [] 0 grantAll] s₂ :=
    .cons (fun e he => absurd he (Nat.not_lt_zero e)) hs₁ (.cons hnext hs₂ (.nil s₂))
  exact ⟨s₂, hrun, prefix_lookups_maximal hrun _ none 4 false, hlookup, hmid⟩

end LayerStorm.Orchestrator
