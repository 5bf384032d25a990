import LayerStorm.Lib.PrefixForest
import LayerStorm.Orchestrator.PrefixCache

/-!
# The tree of the prefix cache

The links of the prefix cache are those of the forest of its registered strings: the
parent of an entry is its longest registered proper prefix, and the lists of children and
roots say the same.  Attaching an entry inserts a string into the forest, detaching one
erases it.
-/

namespace LayerStorm.Orchestrator

open Lib List Option

variable {τ : Type} [DecidableEq τ]

/-! ### Definitions -/

namespace PrefixCache

def strings (s : PrefixCache τ) : Finset (List τ) := (s.entries.map s.tokens).toFinset

def parent (s : PrefixCache τ) (e : ℕ) : Option ℕ := (s.heap e).parent

/-- The string of the parent of an object. -/
def parentTokens (s : PrefixCache τ) (e : ℕ) : Option (List τ) := (s.parent e).map s.tokens

end PrefixCache

/-- The links are those of the forest of the registered strings. -/
structure TreeInv (s : PrefixCache τ) : Prop where
  nodup : s.entries.Nodup
  lt : ∀ e ∈ s.entries, e < s.next
  nonempty : ∀ e ∈ s.entries, s.tokens e ≠ []
  /-- The registered strings are distinct. -/
  inj : ∀ e ∈ s.entries, ∀ e' ∈ s.entries, s.tokens e = s.tokens e' → e = e'
  live : ∀ e ∈ s.entries, ∀ p, s.parent e = some p → p ∈ s.entries
  /-- The parent is the longest registered proper prefix. -/
  parent : ∀ e ∈ s.entries, IsParent (s.strings : Set (List τ)) (s.tokens e) (s.parentTokens e)
  /-- The lists of children and roots agree. -/
  siblings : ∀ o, (∀ p, o = some p → p ∈ s.entries) →
    (s.siblings o).Nodup ∧ ∀ c, c ∈ s.siblings o ↔ c ∈ s.entries ∧ s.parent c = o

variable {s s' : PrefixCache τ} {e c : ℕ}

theorem PrefixCache.mem_strings {t : List τ} : t ∈ s.strings ↔ ∃ e ∈ s.entries, s.tokens e = t := by
  simp [strings]

namespace TreeInv

theorem init : TreeInv (PrefixCache.init : PrefixCache τ) := by
  have hnone : ∀ e, e ∉ (PrefixCache.init : PrefixCache τ).entries := by
    intro e he
    cases he
  refine ⟨nodup_nil, ?lt, ?nonempty, ?inj, ?live, ?parent, ?siblings⟩
  case lt =>
    exact fun e he => absurd he (hnone e)
  case nonempty =>
    exact fun e he => absurd he (hnone e)
  case inj =>
    exact fun e he => absurd he (hnone e)
  case live =>
    exact fun e he => absurd he (hnone e)
  case parent =>
    exact fun e he => absurd he (hnone e)
  case siblings =>
    intro o ho
    cases o with
    | none => exact ⟨nodup_nil, fun c => by simp [PrefixCache.init, PrefixCache.siblings]⟩
    | some p => exact absurd (ho p rfl) (hnone p)

theorem forest (h : TreeInv s) : Forest (s.strings : Set (List τ)) := by
  intro t ht
  obtain ⟨e, he, rfl⟩ := PrefixCache.mem_strings.1 ht
  exact ⟨_, h.parent e he⟩

theorem parent_of_isParent (h : TreeInv s) (he : e ∈ s.entries) {o : Option ℕ}
    (ho : ∀ p, o = some p → p ∈ s.entries)
    (hpar : IsParent (s.strings : Set (List τ)) (s.tokens e) (o.map s.tokens)) :
    s.parent e = o := by
  have heq := (h.parent e he).unique hpar
  unfold PrefixCache.parentTokens at heq
  cases hp : s.parent e with
  | none =>
    cases o with
    | none => rfl
    | some q =>
      rw [hp] at heq
      cases heq
  | some p =>
    cases o with
    | none =>
      rw [hp] at heq
      cases heq
    | some q =>
      rw [hp, map_some, map_some, some.injEq] at heq
      rw [h.inj p (h.live e he p hp) q (ho q rfl) heq]

/-! ### Descending -/

/-- What the descent has reached: a registered prefix that is not too long. -/
def Reached (s : PrefixCache τ) (t : List τ) (maxLen : ℕ) (best : Option ℕ) : Prop :=
  ∀ b, best = some b → b ∈ s.entries ∧ s.tokens b <+: t ∧ (s.tokens b).length ≤ maxLen

variable (h : TreeInv s)
include h

theorem descendFrom_spec {t : List τ} {maxLen : ℕ} (fuel : ℕ) {best : Option ℕ}
    (hbest : Reached s t maxLen best) (hfuel : t.length < s.lenOf best + fuel) :
    Reached s t maxLen (s.descendFrom t maxLen fuel best) ∧
      ∀ c ∈ s.siblings (s.descendFrom t maxLen fuel best),
        ¬ ((s.tokens c).length ≤ maxLen ∧ s.tokens c <+: t) := by
  induction fuel generalizing best with
  | zero =>
    -- a registered prefix is not longer than the string
    exfalso
    cases best with
    | none => simp [PrefixCache.lenOf] at hfuel
    | some b =>
      have hle := (hbest b rfl).2.1.length_le
      simp only [PrefixCache.lenOf, map_some, getD_some] at hfuel
      omega
  | succ fuel ih =>
    unfold PrefixCache.descendFrom
    split
    · rename_i hnone
      refine ⟨hbest, fun c hc => ?_⟩
      have hno := find?_eq_none.1 hnone c hc
      simpa using hno
    rename_i c hc
    have hmem := mem_of_find?_eq_some hc
    have hok := find?_some hc
    rw [decide_eq_true_eq] at hok
    obtain ⟨hce, hpc⟩ := ((h.siblings best fun b hb => (hbest b hb).1).2 c).1 hmem
    refine ih ?_ ?_
    · intro b hb
      cases hb
      exact ⟨hce, hok.2, hok.1⟩
    · -- the step is to a longer prefix
      have hlt : s.lenOf best < (s.tokens c).length := by
        have hpar := h.parent c hce
        unfold PrefixCache.parentTokens at hpar
        rw [hpc] at hpar
        cases best with
        | none =>
          have hne := h.nonempty c hce
          exact length_pos_iff.2 hne
        | some b => exact length_lt_of_prefix hpar.2.1 hpar.2.2.1
      change t.length < (s.tokens c).length + fuel
      omega

theorem descend_spec (t : List τ) (maxLen : ℕ) : Reached s t maxLen (s.descend t maxLen) ∧
      ∀ q ∈ s.strings, q <+: t → q.length ≤ maxLen →
        ∃ b, s.descend t maxLen = some b ∧ q <+: s.tokens b := by
  have hnone : Reached s t maxLen none := fun b hb => by cases hb
  obtain ⟨hreach, hstop⟩ := h.descendFrom_spec (t.length + 2) hnone (by
    omega)
  refine ⟨hreach, ?_⟩
  intro q hq hqt hlen
  by_contra hno
  push Not at hno
  -- there would be a step towards the longer prefix
  have hbelow : ∀ b, (s.descend t maxLen).map s.tokens = some b →
      b ∈ (s.strings : Set (List τ)) ∧ b <+: q ∧ b ≠ q := by
    intro b hb
    rw [map_eq_some_iff] at hb
    obtain ⟨d, hd, rfl⟩ := hb
    obtain ⟨hde, hdt, _⟩ := hreach d hd
    refine ⟨PrefixCache.mem_strings.2 ⟨d, hde, rfl⟩, ?_, ?_⟩
    · rcases prefix_or_prefix_of_prefix hdt hqt with hdq | hqd
      · exact hdq
      · exact absurd hqd (hno d hd)
    · rintro rfl
      exact hno d hd prefix_rfl
  obtain ⟨u, hu, hpar, huq⟩ := h.forest.exists_child_prefix (Finset.mem_coe.2 hq) hbelow
  obtain ⟨c, hc, rfl⟩ := PrefixCache.mem_strings.1 (Finset.mem_coe.1 hu)
  have hpc := h.parent_of_isParent hc (fun p hp => (hreach p hp).1) hpar
  have hmem := ((h.siblings (s.descend t maxLen) fun p hp => (hreach p hp).1).2 c).2 ⟨hc, hpc⟩
  exact hstop c hmem ⟨le_trans huq.length_le hlen, huq.trans hqt⟩

theorem isParent_descend {t : List τ} (ht : t ≠ []) :
    IsParent (s.strings : Set (List τ)) t ((s.descend t (t.length - 1)).map s.tokens) := by
  obtain ⟨hreach, hlongest⟩ := h.descend_spec t (t.length - 1)
  have hpos := length_pos_iff.2 ht
  have hproper : ∀ q, q <+: t → q ≠ t → q.length ≤ t.length - 1 := by
    intro q hq hne
    have hlt := length_lt_of_prefix hq hne
    omega
  cases hd : s.descend t (t.length - 1) with
  | none =>
    intro q hq hqt
    by_contra hne
    obtain ⟨b, hb, _⟩ := hlongest q hq hqt (hproper q hqt hne)
    rw [hd] at hb
    cases hb
  | some d =>
    obtain ⟨hde, hdt, hlen⟩ := hreach d hd
    refine ⟨PrefixCache.mem_strings.2 ⟨d, hde, rfl⟩, hdt, ?_, ?_⟩
    · intro heq
      rw [heq] at hlen
      omega
    · intro q hq hqt hne
      obtain ⟨b, hb, hqb⟩ := hlongest q hq hqt (hproper q hqt hne)
      rw [hd] at hb
      cases hb
      exact hqb

theorem hasExact_iff (t : List τ) : s.hasExact t = true ↔ t ∈ s.strings := by
  obtain ⟨hreach, hlongest⟩ := h.descend_spec t t.length
  unfold PrefixCache.hasExact
  constructor
  · intro hex
    rw [Option.any_eq_true] at hex
    obtain ⟨d, hd, heq⟩ := hex
    rw [decide_eq_true_eq] at heq
    exact PrefixCache.mem_strings.2 ⟨d, (hreach d hd).1, heq⟩
  · intro ht
    obtain ⟨b, hb, htb⟩ := hlongest t ht prefix_rfl le_rfl
    rw [hb, any_some, decide_eq_true_eq]
    exact prefix_antisymm (hreach b hb).2.1 htb

end TreeInv

/-! ### Links -/

omit [DecidableEq τ] in
theorem foldl_setParent (l : List ℕ) (q : Option ℕ) (s : PrefixCache τ) :
    l.foldl (fun s c => s.modify c fun n => { n with parent := q }) s =
      { s with heap := fun c => if c ∈ l then { s.heap c with parent := q } else s.heap c } := by
  induction l generalizing s with
  | nil => simp
  | cons d l ih =>
    rw [foldl_cons, ih]
    simp only [PrefixCache.modify]
    congr 1
    funext c
    by_cases hcd : c = d
    · subst hcd
      by_cases hcl : c ∈ l <;> simp [hcl]
    · simp [hcd]

omit [DecidableEq τ] in
theorem heap_setSiblings (s : PrefixCache τ) (l : List ℕ) (o : Option ℕ) (c : ℕ) :
    (s.setSiblings l o).heap c =
      if o = some c then { s.heap c with children := l } else s.heap c := by
  cases o with
  | none => rfl
  | some p =>
    simp only [PrefixCache.setSiblings, PrefixCache.modify, Function.update_apply, some.injEq]
    by_cases hcp : c = p
    · subst hcp
      simp
    · rw [if_neg hcp, if_neg (Ne.symm hcp)]

omit [DecidableEq τ] in
theorem roots_setSiblings (s : PrefixCache τ) (l : List ℕ) (o : Option ℕ) :
    (s.setSiblings l o).roots = if o = none then l else s.roots := by
  cases o with
  | none | some p => rfl

/-- What links do not concern. -/
structure SameObjects (s s' : PrefixCache τ) : Prop where
  tokens : ∀ c, s'.tokens c = s.tokens c
  seqId : ∀ c, (s'.heap c).seqId = (s.heap c).seqId
  bytes : ∀ c, (s'.heap c).kdaCkptBytes = (s.heap c).kdaCkptBytes
  next : s'.next = s.next
  total : s'.kdaCkptBytes = s.kdaCkptBytes
  freed : s'.freed = s.freed

/-- The links after attaching an object to `q`, above the siblings `moved`. -/
structure Linked (s s' : PrefixCache τ) (e : ℕ) (q : Option ℕ) (moved : List ℕ) : Prop where
  objects : SameObjects s s'
  entries : s'.entries = s.entries ++ [e]
  parent : ∀ c, s'.parent c = if c = e then q else if c ∈ moved then some e else s.parent c
  siblings : ∀ o, s'.siblings o =
    if o = some e then moved else if o = q then (s.siblings q).diff moved ++ [e] else s.siblings o

theorem linked_attach (s : PrefixCache τ) {q : Option ℕ} {moved : List ℕ}
    (hq : s.descend (s.tokens e) ((s.tokens e).length - 1) = q) (hqe : q ≠ some e)
    (hmoved : (s.siblings q).filter (fun c => s.tokens e <+: s.tokens c) = moved)
    (hchildren : (s.heap e).children = []) (hem : e ∉ moved) : Linked s (s.attach e) e q moved := by
  have hheap : ∀ c, (s.attach e).heap c =
      if q = some c then
        { (if c = e then { s.heap c with parent := q, children := moved }
            else if c ∈ moved then { s.heap c with parent := some e } else s.heap c) with
          children := (s.siblings q).diff moved ++ [e] }
      else if c = e then { s.heap c with parent := q, children := moved }
      else if c ∈ moved then { s.heap c with parent := some e } else s.heap c := by
    intro c
    have hbase : ((moved.foldl (fun s c => s.modify c fun n => { n with parent := some e })
        s).modify e fun n => { n with parent := q, children := n.children ++ moved }).heap c =
        if c = e then { s.heap c with parent := q, children := moved }
        else if c ∈ moved then { s.heap c with parent := some e } else s.heap c := by
      rw [foldl_setParent]
      simp only [PrefixCache.modify, Function.update_apply, if_neg hem]
      by_cases hce : c = e
      · subst hce
        rw [if_pos rfl, if_pos rfl, hchildren, nil_append]
      · rw [if_neg hce, if_neg hce]
    unfold PrefixCache.attach
    simp only [hq, hmoved]
    rw [heap_setSiblings, hbase]
  have hroots : (s.attach e).roots =
      if q = none then (s.siblings q).diff moved ++ [e] else s.roots := by
    unfold PrefixCache.attach
    simp only [hq, hmoved, foldl_setParent, roots_setSiblings]
    rfl
  have hfields : (s.attach e).next = s.next ∧ (s.attach e).kdaCkptBytes = s.kdaCkptBytes ∧
      (s.attach e).freed = s.freed ∧ (s.attach e).entries = s.entries ++ [e] := by
    unfold PrefixCache.attach
    simp only [hq, foldl_setParent]
    cases q with
    | none | some p => exact ⟨rfl, rfl, rfl, rfl⟩
  refine ⟨⟨?tokens, ?seqId, ?bytes, hfields.1, hfields.2.1, hfields.2.2.1⟩, hfields.2.2.2,
    ?parent, ?siblings⟩
  case tokens =>
    intro c
    unfold PrefixCache.tokens
    rw [hheap]
    split_ifs <;> rfl
  case seqId =>
    intro c
    rw [hheap]
    split_ifs <;> rfl
  case bytes =>
    intro c
    rw [hheap]
    split_ifs <;> rfl
  case parent =>
    intro c
    unfold PrefixCache.parent
    rw [hheap]
    split_ifs <;> rfl
  case siblings =>
    intro o
    cases o with
    | none =>
      rw [if_neg (by simp)]
      change (s.attach e).roots = _
      rw [hroots]
      by_cases hqn : q = none
      · rw [if_pos hqn, if_pos hqn.symm]
      · rw [if_neg hqn, if_neg (Ne.symm hqn)]
        rfl
    | some p =>
      change ((s.attach e).heap p).children = _
      rw [hheap]
      by_cases hqp : q = some p
      · have hpe : (some p : Option ℕ) ≠ some e := fun heq => hqe (hqp.trans heq)
        rw [if_pos hqp, if_neg hpe, if_pos hqp.symm]
      rw [if_neg hqp, if_neg (Ne.symm hqp)]
      by_cases hpe : p = e
      · subst hpe
        rw [if_pos rfl, if_pos rfl]
      · have hpe' : (some p : Option ℕ) ≠ some e := fun heq => hpe (some.inj heq)
        split_ifs <;> rfl

theorem Linked.strings {q : Option ℕ} {moved : List ℕ} (hl : Linked s s' e q moved) :
    (s'.strings : Set (List τ)) = insert (s.tokens e) (s.strings : Set (List τ)) := by
  ext t
  simp only [Finset.mem_coe, PrefixCache.mem_strings, Set.mem_insert_iff, hl.entries,
    mem_append, mem_singleton, hl.objects.tokens]
  constructor
  · rintro ⟨c, hc | rfl, rfl⟩
    · exact .inr ⟨c, hc, rfl⟩
    · exact .inl rfl
  · rintro (rfl | ⟨c, hc, rfl⟩)
    · exact ⟨e, .inr rfl, rfl⟩
    · exact ⟨c, .inl hc, rfl⟩

/-- The links after detaching an object. -/
structure Unlinked (s s' : PrefixCache τ) (e : ℕ) : Prop where
  objects : SameObjects s s'
  entries : s'.entries = s.entries.erase e
  parent : ∀ c, c ≠ e → s'.parent c = if c ∈ s.siblings (some e) then s.parent e else s.parent c
  siblings : ∀ o, o ≠ some e → s'.siblings o =
    if o = s.parent e then (s.siblings o).erase e ++ s.siblings (some e) else s.siblings o

omit [DecidableEq τ] in
theorem unlinked_detach (s : PrefixCache τ) (hpe : s.parent e ≠ some e) :
    Unlinked s (s.detach e) e := by
  have hheap : ∀ c, (s.detach e).heap c =
      if c = e then { s.heap c with parent := none, children := [] }
      else if s.parent e = some c then
        { (if c ∈ s.siblings (some e) then { s.heap c with parent := s.parent e }
            else s.heap c) with
          children := (s.siblings (s.parent e)).erase e ++ s.siblings (some e) }
      else if c ∈ s.siblings (some e) then { s.heap c with parent := s.parent e }
      else s.heap c := by
    intro c
    unfold PrefixCache.detach
    simp only [foldl_setParent]
    simp only [PrefixCache.modify, Function.update_apply]
    by_cases hce : c = e
    · subst hce
      have hpc : (s.heap c).parent ≠ some c := hpe
      rw [if_pos rfl, if_pos rfl, heap_setSiblings, if_neg hpc]
      by_cases hcc : c ∈ (s.heap c).children <;> simp [hcc]
    · rw [if_neg hce, if_neg hce, heap_setSiblings]
      rfl
  have hroots : (s.detach e).roots =
      if s.parent e = none then (s.siblings (s.parent e)).erase e ++ s.siblings (some e)
      else s.roots := by
    unfold PrefixCache.detach
    simp only [foldl_setParent]
    simp only [PrefixCache.modify, roots_setSiblings]
    rfl
  have hfields : (s.detach e).next = s.next ∧ (s.detach e).kdaCkptBytes = s.kdaCkptBytes ∧
      (s.detach e).freed = s.freed ∧ (s.detach e).entries = s.entries.erase e := by
    unfold PrefixCache.detach
    simp only [foldl_setParent]
    cases (s.heap e).parent with
    | none | some p => exact ⟨rfl, rfl, rfl, rfl⟩
  refine ⟨⟨?tokens, ?seqId, ?bytes, hfields.1, hfields.2.1, hfields.2.2.1⟩, hfields.2.2.2,
    ?parent, ?siblings⟩
  case tokens =>
    intro c
    unfold PrefixCache.tokens
    rw [hheap]
    split_ifs <;> rfl
  case seqId =>
    intro c
    rw [hheap]
    split_ifs <;> rfl
  case bytes =>
    intro c
    rw [hheap]
    split_ifs <;> rfl
  case parent =>
    intro c hce
    unfold PrefixCache.parent
    rw [hheap, if_neg hce]
    split_ifs <;> rfl
  case siblings =>
    intro o hoe
    cases o with
    | none =>
      change (s.detach e).roots = _
      rw [hroots]
      by_cases hpn : s.parent e = none
      · rw [if_pos hpn, if_pos hpn.symm, hpn]
      · rw [if_neg hpn, if_neg (Ne.symm hpn)]
        rfl
    | some p =>
      have hpe' : p ≠ e := fun heq => hoe (by rw [heq])
      change ((s.detach e).heap p).children = _
      rw [hheap, if_neg hpe']
      by_cases hpp : s.parent e = some p
      · rw [if_pos hpp, if_pos hpp.symm, hpp]
      · rw [if_neg hpp, if_neg (Ne.symm hpp)]
        split_ifs <;> rfl

/-! ### Attaching and detaching -/

namespace TreeInv

variable (h : TreeInv s)
include h

theorem attach (he : e ∉ s.entries) (hlt : e < s.next) (hne : s.tokens e ≠ [])
    (hchildren : (s.heap e).children = []) (hnew : s.tokens e ∉ s.strings) :
    TreeInv (s.attach e) := by
  obtain ⟨hreach, _⟩ := h.descend_spec (s.tokens e) ((s.tokens e).length - 1)
  have hpar := h.isParent_descend hne
  generalize hq : s.descend (s.tokens e) ((s.tokens e).length - 1) = q at hreach hpar
  have hlive : ∀ p, q = some p → p ∈ s.entries := fun p hp => (hreach p hp).1
  have hqe : q ≠ some e := fun heq => he (hlive e heq)
  obtain ⟨hnodup, hsib⟩ := h.siblings q hlive
  generalize hmoved : (s.siblings q).filter (fun c => s.tokens e <+: s.tokens c) = moved
  have hmem : ∀ c, c ∈ moved ↔ c ∈ s.entries ∧ s.parent c = q ∧ s.tokens e <+: s.tokens c := by
    intro c
    rw [← hmoved, mem_filter, hsib, decide_eq_true_eq, and_assoc]
  have hem : e ∉ moved := fun hmem' => he ((hmem e).1 hmem').1
  have hl := linked_attach s hq hqe hmoved hchildren hem
  have hne_of : ∀ c ∈ s.entries, c ≠ e := fun c hc heq => he (heq ▸ hc)
  have htok : (s.attach e).tokens = s.tokens := funext hl.objects.tokens
  constructor
  case nodup =>
    rw [hl.entries]
    refine h.nodup.append (nodup_singleton e) ?_
    intro c hc hce
    exact hne_of c hc (mem_singleton.1 hce)
  case lt =>
    intro c hc
    rw [hl.objects.next]
    rw [hl.entries, mem_append, mem_singleton] at hc
    rcases hc with hc | rfl
    · exact h.lt c hc
    · exact hlt
  case nonempty =>
    intro c hc
    rw [hl.objects.tokens]
    rw [hl.entries, mem_append, mem_singleton] at hc
    rcases hc with hc | rfl
    · exact h.nonempty c hc
    · exact hne
  case inj =>
    intro c hc c' hc' heq
    rw [hl.objects.tokens, hl.objects.tokens] at heq
    rw [hl.entries, mem_append, mem_singleton] at hc hc'
    rcases hc with hc | rfl
    · rcases hc' with hc' | rfl
      · exact h.inj c hc c' hc' heq
      · exact absurd (PrefixCache.mem_strings.2 ⟨c, hc, heq⟩) hnew
    · rcases hc' with hc' | rfl
      · exact absurd (PrefixCache.mem_strings.2 ⟨c', hc', heq.symm⟩) hnew
      · rfl
  case live =>
    intro c hc p hp
    rw [hl.entries, mem_append, mem_singleton] at hc ⊢
    rw [hl.parent] at hp
    split_ifs at hp with hce hcm
    · exact .inl (hlive p hp)
    · exact .inr (some.inj hp).symm
    rcases hc with hc | hc
    · exact .inl (h.live c hc p hp)
    · exact absurd hc hce
  case parent =>
    intro c hc
    rw [hl.entries, mem_append, mem_singleton] at hc
    unfold PrefixCache.parentTokens
    rw [htok, hl.parent, hl.strings]
    by_cases hce : c = e
    · rw [if_pos hce, hce]
      exact hpar.insert_self
    have hc' : c ∈ s.entries := hc.resolve_right hce
    have hpc := h.parent c hc'
    have hcs : s.tokens c ∈ (s.strings : Set (List τ)) :=
      PrefixCache.mem_strings.2 ⟨c, hc', rfl⟩
    rw [if_neg hce]
    by_cases hcm : c ∈ moved
    · -- the new object comes between `q` and a sibling that it is a prefix of
      obtain ⟨_, hpq, hext⟩ := (hmem c).1 hcm
      unfold PrefixCache.parentTokens at hpc
      rw [hpq] at hpc
      rw [if_pos hcm]
      exact IsParent.insert_of_extends hnew hcs hpar hpc hext
    · rw [if_neg hcm]
      refine IsParent.insert_of_not hnew hpar hpc ?_
      rintro ⟨hext, heq⟩
      refine hcm ((hmem c).2 ⟨hc', ?_, hext⟩)
      refine h.parent_of_isParent hc' hlive ?_
      have hmap : (s.parent c).map s.tokens = q.map s.tokens := heq
      rw [← hmap]
      exact hpc
  case siblings =>
    intro o ho
    rw [hl.siblings]
    by_cases hoe : o = some e
    · -- the children of the new object are the moved siblings
      rw [if_pos hoe]
      refine ⟨hmoved ▸ hnodup.filter _, ?_⟩
      intro c
      rw [hmem, hl.entries, hl.parent, mem_append, mem_singleton, hoe]
      constructor
      · rintro ⟨hc, hpc, hext⟩
        refine ⟨.inl hc, ?_⟩
        rw [if_neg (hne_of c hc), if_pos ((hmem c).2 ⟨hc, hpc, hext⟩)]
      · rintro ⟨hc, hpc⟩
        split_ifs at hpc with hce hcm
        · exact absurd hpc hqe
        · exact (hmem c).1 hcm
        · exact absurd (h.live c (hc.resolve_right hce) e hpc) he
    · have ho' : ∀ p, o = some p → p ∈ s.entries := by
        intro p hp
        have hmem' := ho p hp
        rw [hl.entries, mem_append, mem_singleton] at hmem'
        refine hmem'.resolve_right fun hpe => hoe ?_
        rw [hp, hpe]
      rw [if_neg hoe]
      by_cases hoq : o = q
      · -- its parent's list loses them and gains the new object
        rw [if_pos hoq]
        refine ⟨(hnodup.diff).append (nodup_singleton e) ?_, ?_⟩
        · intro c hc hce
          rw [mem_singleton.1 hce] at hc
          exact he ((hsib e).1 ((diff_subset _ _) hc)).1
        · intro c
          rw [mem_append, mem_singleton, hnodup.mem_sdiff_iff, hsib, hl.entries,
            hl.parent, mem_append, mem_singleton, hoq]
          constructor
          · rintro (⟨⟨hc, hpc⟩, hcm⟩ | rfl)
            · refine ⟨.inl hc, ?_⟩
              rw [if_neg (hne_of c hc), if_neg hcm, hpc]
            · exact ⟨.inr rfl, by rw [if_pos rfl]⟩
          · rintro ⟨hc, hpc⟩
            by_cases hce : c = e
            · exact .inr hce
            rw [if_neg hce] at hpc
            by_cases hcm : c ∈ moved
            · rw [if_pos hcm] at hpc
              exact absurd hpc.symm hqe
            · rw [if_neg hcm] at hpc
              exact .inl ⟨⟨hc.resolve_right hce, hpc⟩, hcm⟩
      · rw [if_neg hoq]
        obtain ⟨hnodup', hsib'⟩ := h.siblings o ho'
        refine ⟨hnodup', ?_⟩
        intro c
        rw [hsib', hl.entries, hl.parent, mem_append, mem_singleton]
        constructor
        · rintro ⟨hc, hpc⟩
          have hcm : c ∉ moved := fun hcm => hoq (hpc.symm.trans ((hmem c).1 hcm).2.1)
          refine ⟨.inl hc, ?_⟩
          rw [if_neg (hne_of c hc), if_neg hcm, hpc]
        · rintro ⟨hc, hpc⟩
          split_ifs at hpc with hce hcm
          · exact absurd hpc.symm hoq
          · exact absurd hpc.symm hoe
          · exact ⟨hc.resolve_right hce, hpc⟩

theorem parent_ne (he : e ∈ s.entries) : s.parent e ≠ some e := by
  intro heq
  have hpar := h.parent e he
  unfold PrefixCache.parentTokens at hpar
  rw [heq] at hpar
  exact hpar.2.2.1 rfl

theorem strings_erase (he : e ∈ s.entries) (hentries : s'.entries = s.entries.erase e)
    (htokens : ∀ c, s'.tokens c = s.tokens c) :
    (s'.strings : Set (List τ)) = (s.strings : Set (List τ)) \ {s.tokens e} := by
  ext t
  simp only [Finset.mem_coe, PrefixCache.mem_strings, Set.mem_sdiff, Set.mem_singleton_iff, hentries,
    htokens]
  constructor
  · rintro ⟨c, hc, rfl⟩
    obtain ⟨hce, hc⟩ := h.nodup.mem_erase_iff.1 hc
    exact ⟨⟨c, hc, rfl⟩, fun heq => hce (h.inj c hc e he heq)⟩
  · rintro ⟨⟨c, hc, rfl⟩, hne⟩
    refine ⟨c, h.nodup.mem_erase_iff.2 ⟨?_, hc⟩, rfl⟩
    rintro rfl
    exact hne rfl

theorem detach (he : e ∈ s.entries) : TreeInv (s.detach e) := by
  have hpe := h.parent_ne he
  have hu := unlinked_detach s hpe
  have hmem : ∀ c, c ∈ (s.detach e).entries ↔ c ≠ e ∧ c ∈ s.entries := by
    intro c
    rw [hu.entries, h.nodup.mem_erase_iff]
  have hstrings := h.strings_erase he hu.entries hu.objects.tokens
  have htok : (s.detach e).tokens = s.tokens := funext hu.objects.tokens
  obtain ⟨hnodupE, hsibE⟩ := h.siblings (some e) fun p hp => by
    rw [← some.inj hp]
    exact he
  have hparent : ∀ c, c ∈ s.entries → c ≠ e → (s.detach e).parent c =
      if s.parent c = some e then s.parent e else s.parent c := by
    intro c hc hce
    rw [hu.parent c hce]
    by_cases hpc : s.parent c = some e
    · rw [if_pos hpc, if_pos ((hsibE c).2 ⟨hc, hpc⟩)]
    · rw [if_neg hpc, if_neg fun hmem' => hpc ((hsibE c).1 hmem').2]
  constructor
  case nodup =>
    rw [hu.entries]
    exact h.nodup.erase e
  case lt =>
    intro c hc
    rw [hu.objects.next]
    exact h.lt c ((hmem c).1 hc).2
  case nonempty =>
    intro c hc
    rw [hu.objects.tokens]
    exact h.nonempty c ((hmem c).1 hc).2
  case inj =>
    intro c hc c' hc' heq
    rw [hu.objects.tokens, hu.objects.tokens] at heq
    exact h.inj c ((hmem c).1 hc).2 c' ((hmem c').1 hc').2 heq
  case live =>
    intro c hc p hp
    obtain ⟨hce, hc⟩ := (hmem c).1 hc
    rw [hparent c hc hce] at hp
    rw [hmem]
    split_ifs at hp with hpc
    · exact ⟨fun heq => hpe (heq ▸ hp), h.live e he p hp⟩
    · exact ⟨fun heq => hpc (heq ▸ hp), h.live c hc p hp⟩
  case parent =>
    intro c hc
    obtain ⟨hce, hc⟩ := (hmem c).1 hc
    have hpc := h.parent c hc
    unfold PrefixCache.parentTokens at hpc ⊢
    rw [htok, hstrings, hparent c hc hce]
    by_cases hce' : s.parent c = some e
    · rw [hce'] at hpc
      rw [if_pos hce']
      exact (h.parent e he).erase_child hpc
    rw [if_neg hce']
    refine hpc.erase_of_ne ?_
    intro heq
    rw [map_eq_some_iff] at heq
    obtain ⟨p, hp, heq⟩ := heq
    rw [h.inj p (h.live c hc p hp) e he heq] at hp
    exact hce' hp
  case siblings =>
    intro o ho
    have hoe : o ≠ some e := fun heq => ((hmem e).1 (ho e heq)).1 rfl
    have ho' : ∀ p, o = some p → p ∈ s.entries := fun p hp => ((hmem p).1 (ho p hp)).2
    obtain ⟨hnodup, hsib⟩ := h.siblings o ho'
    rw [hu.siblings o hoe]
    by_cases hop : o = s.parent e
    · -- the children of the detached object go to its parent
      rw [if_pos hop]
      refine ⟨(hnodup.erase e).append hnodupE ?_, ?_⟩
      · intro c hc hc'
        have hpo := ((hsib c).1 (mem_of_mem_erase hc)).2
        exact hoe (hpo.symm.trans ((hsibE c).1 hc').2)
      · intro c
        rw [mem_append, hnodup.mem_erase_iff, hsib, hsibE, hmem]
        constructor
        · rintro (⟨hce, hc, hpc⟩ | ⟨hc, hpc⟩)
          · refine ⟨⟨hce, hc⟩, ?_⟩
            rw [hparent c hc hce, if_neg fun heq => hoe (hpc.symm.trans heq), hpc]
          · have hce : c ≠ e := by
              rintro rfl
              exact hpe hpc
            refine ⟨⟨hce, hc⟩, ?_⟩
            rw [hparent c hc hce, if_pos hpc, hop]
        · rintro ⟨⟨hce, hc⟩, hpc⟩
          rw [hparent c hc hce] at hpc
          split_ifs at hpc with hpc'
          · exact .inr ⟨hc, hpc'⟩
          · exact .inl ⟨hce, hc, hpc⟩
    · rw [if_neg hop]
      refine ⟨hnodup, ?_⟩
      intro c
      rw [hsib, hmem]
      constructor
      · rintro ⟨hc, hpc⟩
        have hce : c ≠ e := by
          rintro rfl
          exact hop hpc.symm
        refine ⟨⟨hce, hc⟩, ?_⟩
        rw [hparent c hc hce, if_neg fun heq => hoe (hpc.symm.trans heq), hpc]
      · rintro ⟨⟨hce, hc⟩, hpc⟩
        rw [hparent c hc hce] at hpc
        split_ifs at hpc with hpc'
        · exact absurd hpc.symm hop
        · exact ⟨hc, hpc⟩

end TreeInv

end LayerStorm.Orchestrator
