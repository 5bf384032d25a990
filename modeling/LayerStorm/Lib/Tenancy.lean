import Mathlib

/-!
# Exclusive tenancy of resources

A pool of resources is shared by several tenants.  A resource is claimed if and only if
it has a tenant, and it never has two.  Tenants get resources in grants, of resources
that are not claimed, and give up some or all of their own.
-/

namespace LayerStorm.Lib

variable {R T : Type*}

/-- Every claimed resource has exactly one tenant, and no other resource has any. -/
structure Tenancy (claimed : R → Prop) (owns : T → R → Prop) : Prop where
  claimed_iff : ∀ r, claimed r ↔ ∃ t, owns t r
  unique : ∀ t t' r, owns t r → owns t' r → t = t'

variable {claimed claimed' : R → Prop} {owns owns' : T → R → Prop}

theorem Tenancy.claimed_of_owns (h : Tenancy claimed owns) {t : T} {r : R} (ho : owns t r) :
    claimed r :=
  (h.claimed_iff r).2 ⟨t, ho⟩

/-- **Grants**: the new tenancies are exclusive among themselves and their resources were
not claimed. -/
theorem Tenancy.grant (h : Tenancy claimed owns) (new : T → R → Prop)
    (hfree : ∀ t r, new t r → ¬ claimed r) (hnew : ∀ t t' r, new t r → new t' r → t = t')
    (howns : ∀ t r, owns' t r ↔ owns t r ∨ new t r)
    (hclaimed : ∀ r, claimed' r ↔ claimed r ∨ ∃ t, new t r) : Tenancy claimed' owns' := by
  refine ⟨?_, ?_⟩
  · intro r
    rw [hclaimed, h.claimed_iff, ← exists_or]
    exact exists_congr fun t => (howns t r).symm
  · intro t t' r ht ht'
    rcases (howns t r).1 ht with ho | hn <;> rcases (howns t' r).1 ht' with ho' | hn'
    · exact h.unique t t' r ho ho'
    · exact absurd (h.claimed_of_owns ho) (hfree t' r hn')
    · exact absurd (h.claimed_of_owns ho') (hfree t r hn)
    · exact hnew t t' r hn hn'

/-- **Giving up** resources of one tenant. -/
theorem Tenancy.revoke (h : Tenancy claimed owns) {t : T} (span : R → Prop)
    (hown : ∀ r, span r → owns t r)
    (howns : ∀ t' r, owns' t' r ↔ owns t' r ∧ ¬ (t' = t ∧ span r))
    (hclaimed : ∀ r, claimed' r ↔ claimed r ∧ ¬ span r) : Tenancy claimed' owns' := by
  refine ⟨?_, ?_⟩
  · intro r
    rw [hclaimed, h.claimed_iff]
    constructor
    · rintro ⟨⟨t', ho⟩, hspan⟩
      exact ⟨t', (howns t' r).2 ⟨ho, fun hs => hspan hs.2⟩⟩
    · rintro ⟨t', ho'⟩
      obtain ⟨ho, hnot⟩ := (howns t' r).1 ho'
      refine ⟨⟨t', ho⟩, ?_⟩
      intro hspan
      exact hnot ⟨h.unique t' t r ho (hown r hspan), hspan⟩
  · intro t' t'' r ho ho'
    exact h.unique t' t'' r ((howns t' r).1 ho).1 ((howns t'' r).1 ho').1

/-- A sum over a set of resources, after those of a subset have changed. -/
theorem sum_change {R : Type*} [DecidableEq R] {s c : Finset R} {f f' : R → ℤ}
    (hsub : c ⊆ s) (hsame : ∀ r ∈ s, r ∉ c → f' r = f r) :
    ∑ r ∈ s, f' r = ∑ r ∈ s, f r + ∑ r ∈ c, (f' r - f r) := by
  have hdiff : ∑ r ∈ c, (f' r - f r) = ∑ r ∈ s, (f' r - f r) := by
    refine Finset.sum_subset hsub ?_
    intro r hr hnot
    rw [hsame r hr hnot, sub_self]
  rw [hdiff, Finset.sum_sub_distrib]
  ring

end LayerStorm.Lib
