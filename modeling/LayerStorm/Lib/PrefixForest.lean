import Mathlib.Data.List.Infix
import Mathlib.Data.Finset.Card
import Mathlib.Data.Finset.Max
import Mathlib.Algebra.BigOperators.Group.Finset.Basic
import Mathlib.Order.Interval.Finset.Nat

/-!
# The forest of a set of strings

A finite set of strings is a forest: the parent of a string is the longest other
member that is a prefix of it.  Two prefixes of one string are comparable, so that
there is at most one parent, and a string can be found by descending from the roots.
Inserting a string makes it the parent of those children of its own parent that extend
it, and erasing one hands its children to its parent.
-/

namespace LayerStorm.Lib

variable {τ : Type*} {S : Set (List τ)} {s t u p q : List τ} {o o' : Option (List τ)}

/-- The parent of `t` in `S` is the longest other member that is a prefix of `t`. -/
def IsParent (S : Set (List τ)) (t : List τ) : Option (List τ) → Prop
  | none => ∀ q ∈ S, q <+: t → q = t
  | some p => p ∈ S ∧ p <+: t ∧ p ≠ t ∧ ∀ q ∈ S, q <+: t → q ≠ t → q <+: p

/-- Every member has a parent or is a root. -/
def Forest (S : Set (List τ)) : Prop := ∀ t ∈ S, ∃ o, IsParent S t o

/-! ### Prefixes -/

theorem length_lt_of_prefix (h : p <+: t) (hne : p ≠ t) : p.length < t.length := by
  have hle := h.length_le
  have hlen : p.length ≠ t.length := fun heq => hne (h.eq_of_length heq)
  omega

theorem prefix_antisymm (h : p <+: t) (h' : t <+: p) : p = t :=
  h.eq_of_length (Nat.le_antisymm h.length_le h'.length_le)

/-! ### Parents -/

namespace IsParent

theorem unique (h : IsParent S t o) (h' : IsParent S t o') : o = o' := by
  cases o with
  | none =>
    cases o' with
    | none => rfl
    | some p => exact absurd (h p h'.1 h'.2.1) h'.2.2.1
  | some p =>
    cases o' with
    | none => exact absurd (h' p h.1 h.2.1) h.2.2.1
    | some p' =>
      have hp : p <+: p' := h'.2.2.2 p h.1 h.2.1 h.2.2.1
      have hp' : p' <+: p := h.2.2.2 p' h'.1 h'.2.1 h'.2.2.1
      rw [prefix_antisymm hp hp']

theorem insert_self (h : IsParent S t o) : IsParent (insert t S) t o := by
  cases o with
  | none =>
    rintro q (rfl | hq) hqt
    · rfl
    · exact h q hq hqt
  | some p =>
    refine ⟨.inr h.1, h.2.1, h.2.2.1, ?_⟩
    rintro q (rfl | hq) hqt hne
    · exact absurd rfl hne
    · exact h.2.2.2 q hq hqt hne

theorem insert_of_extends (ht : t ∉ S) (hu : u ∈ S) (h : IsParent S t o) (hu' : IsParent S u o)
    (htu : t <+: u) : IsParent (insert t S) u (some t) := by
  refine ⟨.inl rfl, htu, fun heq => ht (heq ▸ hu), ?_⟩
  rintro q (rfl | hq) hqu hne
  · exact List.prefix_rfl
  · cases o with
    | none => exact absurd (hu' q hq hqu) hne
    | some p => exact (hu'.2.2.2 q hq hqu hne).trans h.2.1

theorem insert_of_not (ht : t ∉ S) (h : IsParent S t o) (hu' : IsParent S u o')
    (hnot : ¬ (t <+: u ∧ o' = o)) : IsParent (insert t S) u o' := by
  -- if the new string is a prefix, it is one of the parent
  have hkey : t <+: u → ∃ p, o' = some p ∧ t <+: p := by
    intro htu
    have hne : o' ≠ o := fun heq => hnot ⟨htu, heq⟩
    cases o' with
    | none =>
      cases o with
      | none => exact absurd rfl hne
      | some a =>
        have hau := hu' a h.1 (h.2.1.trans htu)
        have hlen := length_lt_of_prefix h.2.1 h.2.2.1
        rw [hau] at hlen
        exact absurd htu.length_le (by omega)
    | some p =>
      refine ⟨p, rfl, ?_⟩
      rcases List.prefix_or_prefix_of_prefix htu hu'.2.1 with htp | hpt
      · exact htp
      have hpt' : p ≠ t := fun heq => ht (heq ▸ hu'.1)
      cases o with
      | none => exact absurd (h p hu'.1 hpt) hpt'
      | some a =>
        have hpa := h.2.2.2 p hu'.1 hpt hpt'
        have hau : a ≠ u := by
          intro heq
          have hlen := length_lt_of_prefix h.2.1 h.2.2.1
          rw [heq] at hlen
          exact absurd htu.length_le (by omega)
        have hap := hu'.2.2.2 a h.1 (h.2.1.trans htu) hau
        exact absurd (by rw [prefix_antisymm hpa hap]) hne
  cases o' with
  | none =>
    rintro q (rfl | hq) hqu
    · obtain ⟨p, hp, _⟩ := hkey hqu
      cases hp
    · exact hu' q hq hqu
  | some p =>
    refine ⟨.inr hu'.1, hu'.2.1, hu'.2.2.1, ?_⟩
    rintro q (rfl | hq) hqu hne
    · obtain ⟨p', hp', hq⟩ := hkey hqu
      cases hp'
      exact hq
    · exact hu'.2.2.2 q hq hqu hne

theorem erase_child (h : IsParent S t o) (hu : IsParent S u (some t)) : IsParent (S \ {t}) u o := by
  cases o with
  | none =>
    intro q hq hqu
    by_contra hne
    exact hq.2 (h q hq.1 (hu.2.2.2 q hq.1 hqu hne))
  | some p =>
    refine ⟨⟨h.1, h.2.2.1⟩, h.2.1.trans hu.2.1, ?_, ?_⟩
    · intro heq
      have hlen := length_lt_of_prefix h.2.1 h.2.2.1
      rw [heq] at hlen
      exact absurd hu.2.1.length_le (by omega)
    · intro q hq hqu hne
      exact h.2.2.2 q hq.1 (hu.2.2.2 q hq.1 hqu hne) hq.2

theorem erase_of_ne (hu : IsParent S u o) (hne : o ≠ some t) : IsParent (S \ {t}) u o := by
  cases o with
  | none => exact fun q hq => hu q hq.1
  | some p =>
    refine ⟨⟨hu.1, fun hp => hne (by rw [Set.mem_singleton_iff.1 hp])⟩, hu.2.1, hu.2.2.1, ?_⟩
    exact fun q hq => hu.2.2.2 q hq.1

end IsParent

/-! ### Descending and climbing -/

/-- Below a prefix of a member, or at the roots, there is a step towards the member. -/
theorem Forest.exists_child_prefix (hS : Forest S) (hu : u ∈ S)
    (ho : ∀ b, o = some b → b ∈ S ∧ b <+: u ∧ b ≠ u) :
    ∃ c ∈ S, IsParent S c o ∧ c <+: u := by
  -- by induction on the length: climb from the member to its parent
  induction hn : u.length using Nat.strong_induction_on generalizing u with
  | h n ih =>
    obtain ⟨o', ho'⟩ := hS u hu
    by_cases heq : o' = o
    · exact ⟨u, hu, heq ▸ ho', List.prefix_rfl⟩
    cases o' with
    | none =>
      cases o with
      | none => exact absurd rfl heq
      | some b =>
        obtain ⟨hb, hbu, hne⟩ := ho b rfl
        exact absurd (ho' b hb hbu) hne
    | some p =>
      have hlt := length_lt_of_prefix ho'.2.1 ho'.2.2.1
      have hbelow : ∀ b, o = some b → b ∈ S ∧ b <+: p ∧ b ≠ p := by
        intro b hb
        obtain ⟨hbS, hbu, hne⟩ := ho b hb
        refine ⟨hbS, ho'.2.2.2 b hbS hbu hne, ?_⟩
        rintro rfl
        exact heq hb.symm
      obtain ⟨c, hc, hpar, hcp⟩ := ih p.length (hn ▸ hlt) ho'.1 hbelow rfl
      exact ⟨c, hc, hpar, hcp.trans ho'.2.1⟩

/-- **What agrees with a string longest** is found where the descent towards it ends: a member that
agrees with `t` beyond the longest member that is a prefix of `t` lies below a child of this one
that agrees as long. -/
theorem Forest.exists_child_agreeing (hS : Forest S) {cap n : ℕ}
    (hb : ∀ b, o = some b → b ∈ S ∧ b <+: t)
    (hlongest : ∀ q ∈ S, q <+: t → q.length ≤ cap → ∃ b, o = some b ∧ q <+: b) (hu : u ∈ S)
    (hn : n ≤ cap) (hlen : n ≤ u.length) (hagree : u.take n = t.take n)
    (hbeyond : ∀ b, o = some b → b.length < n) :
    ∃ c ∈ S, IsParent S c o ∧ c <+: u ∧ n < c.length ∧ c.take n = t.take n := by
  have hbelow : ∀ b, o = some b → b ∈ S ∧ b <+: u ∧ b ≠ u := by
    intro b ho
    obtain ⟨hbS, hbt⟩ := hb b ho
    have hlt := hbeyond b ho
    have hbn : b <+: t.take n := by
      rw [List.prefix_take_iff]
      exact ⟨hbt, hlt.le⟩
    refine ⟨hbS, (hagree ▸ hbn).trans (List.take_prefix _ _), ?_⟩
    rintro rfl
    omega
  obtain ⟨c, hc, hpar, hcu⟩ := hS.exists_child_prefix hu hbelow
  have hlt : n < c.length := by
    -- otherwise the child would be a prefix, longer than the longest one
    by_contra hle
    have hcn : c <+: u.take n := by
      rw [List.prefix_take_iff]
      exact ⟨hcu, not_lt.1 hle⟩
    have hct : c <+: t := (hagree ▸ hcn).trans (List.take_prefix _ _)
    obtain ⟨b, hob, hcb⟩ := hlongest c hc hct (le_trans (not_lt.1 hle) hn)
    subst hob
    have hshort := length_lt_of_prefix hpar.2.1 hpar.2.2.1
    exact absurd hcb.length_le (not_le.2 hshort)
  refine ⟨c, hc, hpar, hcu, hlt, ?_⟩
  rw [← hagree]
  obtain ⟨z, rfl⟩ := hcu
  rw [List.take_append_of_le_length hlt.le]

def IsLeaf (S : Set (List τ)) (t : List τ) : Prop := t ∈ S ∧ ∀ u ∈ S, ¬ IsParent S u (some t)

theorem exists_leaf {S : Finset (List τ)} (hu : u ∈ S) :
    ∃ t, IsLeaf (S : Set (List τ)) t ∧ u <+: t := by
  classical
  -- a longest extension within the set
  obtain ⟨t, ht, hmax⟩ := (S.filter fun t => u <+: t).exists_max_image List.length
    ⟨u, Finset.mem_filter.2 ⟨hu, List.prefix_rfl⟩⟩
  rw [Finset.mem_filter] at ht
  refine ⟨t, ⟨ht.1, ?_⟩, ht.2⟩
  intro v hv hpar
  have hlt := length_lt_of_prefix hpar.2.1 hpar.2.2.1
  have hle := hmax v (Finset.mem_filter.2 ⟨hv, ht.2.trans hpar.2.1⟩)
  omega

theorem prefix_of_leaf {S : Finset (List τ)} (hleaf : ∀ v, IsLeaf (S : Set (List τ)) v → v = t)
    (hu : u ∈ S) : u <+: t := by
  obtain ⟨v, hv, huv⟩ := exists_leaf hu
  rw [← hleaf v hv]
  exact huv

theorem child_unique (hp : p <+: t) (hq : q <+: t) (hpS : p ∈ S) (hqS : q ∈ S)
    (hpar : IsParent S p (some u)) (hpar' : IsParent S q (some u)) : p = q := by
  have hle : ∀ {a b : List τ}, a ∈ S → a <+: b → IsParent S a (some u) →
      IsParent S b (some u) → a = b := by
    intro a b ha hab hpa hpb
    by_contra hne
    have hau := hpb.2.2.2 a ha hab hne
    have hlt := length_lt_of_prefix hpa.2.1 hpa.2.2.1
    exact absurd hau.length_le (by omega)
  rcases List.prefix_or_prefix_of_prefix hp hq with hpq | hqp
  · exact hle hpS hpq hpar hpar'
  · exact (hle hqS hqp hpar' hpar).symm

def parentLength (o : Option (List τ)) : ℕ := (o.map List.length).getD 0

/-- **The edges of a chain add up to at most its longest member.** -/
theorem sum_edges_le {ι : Type*} {I : Finset ι} {f : ι → List τ} {par : ι → Option (List τ)}
    (hinj : Set.InjOn f I) (hmem : ∀ i ∈ I, f i ∈ S) (hpar : ∀ i ∈ I, IsParent S (f i) (par i))
    (hchain : ∀ i ∈ I, f i <+: t) :
    ∑ i ∈ I, ((f i).length - parentLength (par i)) ≤ t.length := by
  -- the edges are disjoint intervals below the longest member
  have hlt : ∀ i ∈ I, ∀ j ∈ I, f i <+: f j → f i ≠ f j → (f i).length ≤ parentLength (par j) := by
    intro i hi j hj hij hne
    have hj' := hpar j hj
    cases hp : par j with
    | none =>
      rw [hp] at hj'
      exact absurd (hj' (f i) (hmem i hi) hij) hne
    | some p =>
      rw [hp] at hj'
      exact (hj'.2.2.2 (f i) (hmem i hi) hij hne).length_le
  have hdisj : (I : Set ι).PairwiseDisjoint
      fun i => Finset.Ioc (parentLength (par i)) (f i).length := by
    intro i hi j hj hne
    have hne' : f i ≠ f j := fun heq => hne (hinj hi hj heq)
    rw [Function.onFun, Finset.disjoint_left]
    intro x hxi hxj
    rw [Finset.mem_Ioc] at hxi hxj
    rcases List.prefix_or_prefix_of_prefix (hchain i hi) (hchain j hj) with hij | hji
    · have hle := hlt i hi j hj hij hne'
      omega
    · have hle := hlt j hj i hi hji hne'.symm
      omega
  calc ∑ i ∈ I, ((f i).length - parentLength (par i))
      = ∑ i ∈ I, (Finset.Ioc (parentLength (par i)) (f i).length).card := by simp
    _ = (I.biUnion fun i => Finset.Ioc (parentLength (par i)) (f i).length).card :=
        (Finset.card_biUnion hdisj).symm
    _ ≤ (Finset.Ioc 0 t.length).card := by
        apply Finset.card_le_card
        intro x hx
        rw [Finset.mem_biUnion] at hx
        obtain ⟨i, hi, hxi⟩ := hx
        rw [Finset.mem_Ioc] at hxi ⊢
        have hle := (hchain i hi).length_le
        omega
    _ = t.length := by simp

end LayerStorm.Lib
