import Mathlib.Data.List.AList

/-!
# Finite maps

A hash map of the source is an association list without duplicate keys, `AList`
from Mathlib at a constant type of values.  Its order of entries stands for the
map's unspecified order of iteration.
-/

namespace LayerStorm.Lib

abbrev Map (κ ν : Type*) := AList fun _ : κ => ν

variable {κ ν : Type*} [DecidableEq κ]

/-- The number of entries that satisfy `p`. -/
def Map.countEntries (m : Map κ ν) (p : κ → ν → Bool) : ℕ :=
  m.entries.countP fun e => p e.1 e.2

variable {m : Map κ ν} {k : κ}

theorem Map.mem_iff : k ∈ m ↔ ∃ v, m.lookup k = some v := by
  rw [← AList.lookup_isSome, Option.isSome_iff_exists]

variable {v : ν}

theorem Map.mem_of_lookup (h : m.lookup k = some v) : k ∈ m :=
  Map.mem_iff.2 ⟨v, h⟩

theorem Map.lookup_insert_iff {a : κ} {b : ν} :
    (m.insert k v).lookup a = some b ↔ (a = k ∧ v = b) ∨ (a ≠ k ∧ m.lookup a = some b) := by
  by_cases h : a = k
  · subst h
    simp
  · rw [AList.lookup_insert_ne h]
    simp [h]

theorem Map.lookup_erase_iff {a : κ} {b : ν} :
    (m.erase k).lookup a = some b ↔ a ≠ k ∧ m.lookup a = some b := by
  by_cases h : a = k
  · subst h
    simp
  · rw [AList.lookup_erase_ne h]
    simp [h]

theorem Map.entries_perm (h : m.lookup k = some v) :
    m.entries.Perm (⟨k, v⟩ :: (m.erase k).entries) := by
  obtain ⟨v', l₁, l₂, _, hl, herase⟩ := List.exists_of_kerase (Map.mem_of_lookup h)
  have hv' : m.lookup k = some v' := AList.mem_lookup_iff.2 (by simp [hl])
  obtain rfl : v = v' := Option.some.inj (h.symm.trans hv')
  have hrest : (m.erase k).entries = l₁ ++ l₂ := herase
  rw [hrest, hl]
  exact List.perm_middle

theorem Map.erase_insert_entries : ((m.insert k v).erase k).entries = (m.erase k).entries :=
  List.kerase_cons_eq rfl

/-- The map `m` is the relation `R`. -/
def Map.Represents (m : Map κ ν) (R : κ → ν → Prop) : Prop :=
  ∀ k v, m.lookup k = some v ↔ R k v

/-- A relation that gains one pair, at a key it did not have. -/
theorem Map.Represents.insert {R R' : κ → ν → Prop} (h : m.Represents R) (hk : k ∉ m)
    (hR : ∀ a b, R' a b ↔ R a b ∨ (a = k ∧ b = v)) :
    Map.Represents (m.insert k v) R' := by
  intro a b
  rw [Map.lookup_insert_iff, hR, ← h a b]
  constructor
  · rintro (⟨rfl, rfl⟩ | ⟨_, hab⟩)
    · exact .inr ⟨rfl, rfl⟩
    · exact .inl hab
  · rintro (hab | ⟨rfl, rfl⟩)
    · refine .inr ⟨?_, hab⟩
      rintro rfl
      exact hk (Map.mem_of_lookup hab)
    · exact .inl ⟨rfl, rfl⟩

/-- A relation that loses one pair. -/
theorem Map.Represents.erase {R R' : κ → ν → Prop} (h : m.Represents R) (v : ν)
    (hR : ∀ a b, R a b ↔ R' a b ∨ (a = k ∧ b = v)) (hkv : ¬ R' k v) :
    Map.Represents (m.erase k) R' := by
  intro a b
  rw [Map.lookup_erase_iff, h a b, hR a b]
  constructor
  · rintro ⟨hne, hab | ⟨rfl, _⟩⟩
    · exact hab
    · exact absurd rfl hne
  · intro hab
    refine ⟨?_, .inl hab⟩
    rintro rfl
    -- the map has one value at the key, and it is the one that is lost
    have hb : m.lookup a = some b := (h a b).2 ((hR a b).2 (.inl hab))
    have hv : m.lookup a = some v := (h a v).2 ((hR a v).2 (.inr ⟨rfl, rfl⟩))
    rw [hb, Option.some.injEq] at hv
    exact hkv (hv ▸ hab)

theorem Map.Represents.congr {R R' : κ → ν → Prop} (h : m.Represents R)
    (hR : ∀ a b, R' a b ↔ R a b) : m.Represents R' :=
  fun a b => (h a b).trans (hR a b).symm

end LayerStorm.Lib
