import Mathlib.Data.Nat.Find
import Mathlib.Data.List.Range

/-!
# One holder for each routed expert

The combine of a routed expert adds up what its holders compute, so that an expert that is resident
on two ranks counts twice.  `dedup_ep_residency` reads the bitsets of the ranks, a bit for each
expert, and leaves each expert to the lowest rank that has it.

A bitset is the memory at the pointer of its rank, and the pointers are not equal.

## Main results

* `residency_dedup` — **each expert stays with its lowest holder**, and once is enough.
-/

namespace LayerStorm.Daemon.EpResidency

open List Function

abbrev Bitset := ℕ → BitVec 8

/-- The bitsets of the ranks; there is none for a rank that is absent. -/
abbrev Bitsets := ℕ → Option Bitset

/-- The variables of the inner loop. -/
structure Scan where
  bitsets : Bitsets
  firstR : Option ℕ
  dup : Bool

def mask (e : ℕ) : BitVec 8 := 1#8 <<< (e % 8)

/-- Clears the bit of an expert. -/
def clear (bits : Bitset) (e : ℕ) : Bitset := update bits (e / 8) (bits (e / 8) &&& ~~~mask e)

/-- The body of the inner loop. -/
def visit (e : ℕ) (s : Scan) (r : ℕ) : Scan :=
  match s.bitsets r with
  | none => s
  | some bits =>
    if bits (e / 8) &&& mask e ≠ 0 then
      match s.firstR with
      | none => { s with firstR := some r }
      | some _ => { s with bitsets := update s.bitsets r (some (clear bits e)), dup := true }
    else s

/-- The inner loop. -/
def dedupExpert (numRanks e : ℕ) (bitsets : Bitsets) : Scan :=
  (range numRanks).foldl (visit e) ⟨bitsets, none, false⟩

/-- `dedup_ep_residency`: the bitsets afterwards and the number of duplicates. -/
def dedupEpResidency (bitsets : Bitsets) (numRanks nExperts : ℕ) : Bitsets × ℕ :=
  (range nExperts).foldl (fun s e =>
    let scan := dedupExpert numRanks e s.1
    (scan.bitsets, if scan.dup then s.2 + 1 else s.2)) (bitsets, 0)

/-! ### Bits -/

/-- A rank is there and has an expert. -/
def has (bitsets : Bitsets) (r e : ℕ) : Bool := (bitsets r).any fun bits => bits (e / 8) &&& mask e ≠ 0

/-- A rank below the number is a holder. -/
def Held (bitsets : Bitsets) (n e : ℕ) : Prop := ∃ r < n, has bitsets r e

/-- Two ranks below the number are holders. -/
def Shared (bitsets : Bitsets) (n e : ℕ) : Prop := ∃ r < n, has bitsets r e ∧ Held bitsets r e

variable {bitsets : Bitsets} {numRanks n r e x : ℕ} {bits : Bitset}

theorem and_mask_ne_zero (b : BitVec 8) (e : ℕ) : b &&& mask e ≠ 0 ↔ b.getLsbD (e % 8) = true := by
  have hlt : e % 8 < 8 := Nat.mod_lt e (by omega)
  show b &&& BitVec.twoPow 8 (e % 8) ≠ 0 ↔ _
  rw [BitVec.and_twoPow]
  split_ifs with h
  · refine ⟨fun _ => h, fun _ hzero => ?_⟩
    have hbit := congrArg (BitVec.getLsbD · (e % 8)) hzero
    simp [hlt] at hbit
  · exact ⟨fun hne => absurd rfl hne, fun hb => absurd hb h⟩

theorem has_some (h : bitsets r = some bits) :
    has bitsets r x ↔ (bits (x / 8)).getLsbD (x % 8) = true := by
  rw [has, h, Option.any_some, decide_eq_true_iff, and_mask_ne_zero]

theorem getLsbD_clear (bits : Bitset) (e x : ℕ) : (clear bits e (x / 8)).getLsbD (x % 8) = true ↔
      (bits (x / 8)).getLsbD (x % 8) = true ∧ x ≠ e := by
  have hx : x % 8 < 8 := Nat.mod_lt x (by omega)
  have he : e % 8 < 8 := Nat.mod_lt e (by omega)
  by_cases hbyte : x / 8 = e / 8
  · have hiff : e % 8 = x % 8 ↔ x = e := by omega
    show (update bits (e / 8) _ (x / 8)).getLsbD (x % 8) = true ↔ _
    rw [hbyte, update_self]
    show (bits (e / 8) &&& ~~~BitVec.twoPow 8 (e % 8)).getLsbD (x % 8) = true ↔ _
    simp only [BitVec.getLsbD_and, BitVec.getLsbD_not, BitVec.getLsbD_twoPow, hx, he, hiff,
      Bool.and_eq_true, decide_true, Bool.true_and, Bool.not_eq_true', decide_eq_false_iff_not,
      ne_eq]
  · rw [clear, update_of_ne hbyte]
    exact (and_iff_left (mt (congrArg (· / 8)) hbyte)).symm

theorem has_clear (h : bitsets r = some bits) (q x : ℕ) :
    has (update bitsets r (some (clear bits e))) q x ↔ has bitsets q x ∧ ¬ (q = r ∧ x = e) := by
  by_cases hq : q = r
  · rw [hq, has_some (update_self ..), has_some h, getLsbD_clear]
    simp only [true_and, ne_eq]
  · rw [has, update_of_ne hq]
    exact (and_iff_left fun hc => hq hc.1).symm

/-- A bitset is determined by its bits. -/
theorem bitsets_ext {a b : Bitsets} (hsome : ∀ r, (a r).isSome = (b r).isSome)
    (hbit : ∀ r x, has a r x ↔ has b r x) : a = b := by
  funext r
  have hs := hsome r
  cases ha : a r with
  | none =>
    rw [ha] at hs
    exact (Option.not_isSome_iff_eq_none.1 (by rw [← hs]; exact Bool.false_ne_true)).symm
  | some p =>
    rw [ha] at hs
    obtain ⟨q, hq⟩ := Option.isSome_iff_exists.1 hs.symm
    rw [hq]
    refine congrArg some (funext fun k => BitVec.eq_of_getLsbD_eq fun i hi => ?_)
    have hdiv : (8 * k + i) / 8 = k := by omega
    have hmod : (8 * k + i) % 8 = i := by omega
    have hki := hbit r (8 * k + i)
    rw [has_some ha, has_some hq, hdiv, hmod] at hki
    exact Bool.eq_iff_iff.2 hki

theorem held_succ : Held bitsets (n + 1) e ↔ Held bitsets n e ∨ has bitsets n e :=
  Nat.exists_lt_succ_right

theorem shared_succ : Shared bitsets (n + 1) e ↔
    Shared bitsets n e ∨ has bitsets n e ∧ Held bitsets n e :=
  Nat.exists_lt_succ_right

/-! ### The inner loop -/

/-- The variables after the ranks below a number. -/
structure Visited (bitsets : Bitsets) (e n : ℕ) (s : Scan) : Prop where
  isSome : ∀ r, (s.bitsets r).isSome = (bitsets r).isSome
  has : ∀ r x, has s.bitsets r x ↔ has bitsets r x ∧ ¬ (x = e ∧ r < n ∧ Held bitsets r e)
  first : s.firstR ≠ none ↔ Held bitsets n e
  dup : s.dup = true ↔ Shared bitsets n e

/-- **A round of the inner loop**: the bit of the rank goes if a lower rank has the expert. -/
theorem Visited.visit {s : Scan} (h : Visited bitsets e n s) :
    Visited bitsets e (n + 1) (visit e s n) := by
  obtain ⟨hsome, hhas, hfirst, hdup⟩ := h
  have hn : EpResidency.has s.bitsets n e ↔ EpResidency.has bitsets n e := by
    rw [hhas]
    exact and_iff_left fun hc => lt_irrefl n hc.2.1
  -- the bits stay if the rank is no holder or the first one
  have hkeep : ¬ (EpResidency.has bitsets n e ∧ Held bitsets n e) → ∀ r x,
      EpResidency.has s.bitsets r x ↔
        EpResidency.has bitsets r x ∧ ¬ (x = e ∧ r < n + 1 ∧ Held bitsets r e) := by
    intro hnot r x
    rw [hhas]
    grind
  unfold EpResidency.visit
  cases hbits : s.bitsets n with
  | none =>
    have hnone : ¬ EpResidency.has bitsets n e := by
      rw [← hn, EpResidency.has, hbits]
      exact Bool.false_ne_true
    refine ⟨hsome, hkeep fun hc => hnone hc.1, ?_, ?_⟩
    · rw [hfirst, held_succ, or_iff_left hnone]
    · rw [hdup, shared_succ, or_iff_left fun hc => hnone hc.1]
  | some bits =>
    have hset : bits (e / 8) &&& mask e ≠ 0 ↔ EpResidency.has bitsets n e := by
      rw [← hn, has_some hbits, and_mask_ne_zero]
    dsimp only
    split_ifs with hmask
    · have hholds := hset.1 hmask
      cases hr : s.firstR with
      | none =>
        have hnone : ¬ Held bitsets n e := fun hc => hfirst.2 hc hr
        refine ⟨hsome, hkeep fun hc => hnone hc.2, ?_, ?_⟩
        · exact iff_of_true (Option.some_ne_none n) (held_succ.2 (.inr hholds))
        · rw [hdup, shared_succ, or_iff_left fun hc => hnone hc.2]
      | some q =>
        have hheld : Held bitsets n e := hfirst.1 (by rw [hr]; exact Option.some_ne_none q)
        refine ⟨fun r => ?_, fun r x => ?_, ?_, ?_⟩
        · rw [← hsome]
          show (update s.bitsets n _ r).isSome = _
          rw [update_apply]
          split_ifs with hrn
          · rw [hrn, hbits]
            rfl
          · rfl
        · rw [has_clear hbits, hhas]
          grind
        · exact iff_of_true (Option.some_ne_none q) (held_succ.2 (.inl hheld))
        · exact iff_of_true rfl (shared_succ.2 (.inr ⟨hholds, hheld⟩))
    · have hnone : ¬ EpResidency.has bitsets n e := fun hc => hmask (hset.2 hc)
      refine ⟨hsome, hkeep fun hc => hnone hc.1, ?_, ?_⟩
      · rw [hfirst, held_succ, or_iff_left hnone]
      · rw [hdup, shared_succ, or_iff_left fun hc => hnone hc.1]

theorem visited_dedupExpert (bitsets : Bitsets) (numRanks e : ℕ) :
    Visited bitsets e numRanks (dedupExpert numRanks e bitsets) := by
  unfold dedupExpert
  induction numRanks with
  | zero =>
    refine ⟨fun _ => rfl, fun r x => ?_, ?_, ?_⟩
    · exact (and_iff_left fun hc => Nat.not_lt_zero r hc.2.1).symm
    · exact iff_of_false (fun hc => hc rfl) fun ⟨r, hr, _⟩ => Nat.not_lt_zero r hr
    · exact iff_of_false Bool.false_ne_true fun ⟨r, hr, _⟩ => Nat.not_lt_zero r hr
  | succ n ih =>
    rw [range_succ, foldl_append]
    exact ih.visit

/-! ### All experts -/

instance (bitsets : Bitsets) (n e : ℕ) : Decidable (Held bitsets n e) :=
  inferInstanceAs (Decidable (∃ r < n, _))

instance (bitsets : Bitsets) (n e : ℕ) : Decidable (Shared bitsets n e) :=
  inferInstanceAs (Decidable (∃ r < n, _))

/-- The state after the experts below a number. -/
structure Deduped (bitsets : Bitsets) (numRanks n : ℕ) (s : Bitsets × ℕ) : Prop where
  isSome : ∀ r, (s.1 r).isSome = (bitsets r).isSome
  has : ∀ r x, has s.1 r x ↔ has bitsets r x ∧ ¬ (x < n ∧ r < numRanks ∧ Held bitsets r x)
  count : s.2 = (range n).countP fun e => Shared bitsets numRanks e

theorem Deduped.held_iff {s : Bitsets × ℕ} (h : Deduped bitsets numRanks n s) {m : ℕ} (e : ℕ) :
    Held s.1 m e ↔ Held bitsets m e := by
  constructor
  · rintro ⟨r, hr, hr'⟩
    exact ⟨r, hr, ((h.has r e).1 hr').1⟩
  · -- the lowest holder keeps the expert
    intro hheld
    obtain ⟨hr, hhas⟩ := Nat.find_spec hheld
    refine ⟨Nat.find hheld, hr, (h.has _ e).2 ⟨hhas, ?_⟩⟩
    rintro ⟨-, -, q, hq, hqhas⟩
    exact Nat.find_min hheld hq ⟨hq.trans hr, hqhas⟩

/-- **The whole loop**, by induction on the number of experts. -/
theorem deduped_dedupEpResidency (bitsets : Bitsets) (numRanks nExperts : ℕ) :
    Deduped bitsets numRanks nExperts (dedupEpResidency bitsets numRanks nExperts) := by
  unfold dedupEpResidency
  induction nExperts with
  | zero => exact ⟨fun _ => rfl, fun r x => by simp, rfl⟩
  | succ n ih =>
    rw [range_succ, foldl_append]
    set s := (range n).foldl _ (bitsets, 0) with hs
    -- the bits of this expert are still the first ones
    have hsame : ∀ r, EpResidency.has s.1 r n ↔ EpResidency.has bitsets r n := by
      intro r
      rw [ih.has]
      exact and_iff_left fun hc => lt_irrefl n hc.1
    have hheld : ∀ m, Held s.1 m n ↔ Held bitsets m n := fun m => ih.held_iff n
    have hshared : Shared s.1 numRanks n ↔ Shared bitsets numRanks n := by
      simp only [Shared, hsame, hheld]
    have hv := visited_dedupExpert s.1 numRanks n
    refine ⟨fun r => (hv.isSome r).trans (ih.isSome r), fun r x => ?_, ?_⟩
    · rw [foldl_cons, foldl_nil, hv.has, ih.has, hheld]
      grind
    · show (if (dedupExpert numRanks n s.1).dup then s.2 + 1 else s.2) = _
      rw [range_succ, countP_append, ← ih.count, countP_singleton]
      simp only [decide_eq_true_eq, ← hshared, ← hv.dup]
      split <;> rfl

/-- **Each expert stays with its lowest holder**: its union over the ranks is the same, the other
bits and the absent ranks stay, the result is the number of experts with more than one holder, and a
second pass does nothing. -/
theorem residency_dedup (bitsets : Bitsets) (numRanks nExperts : ℕ) :
    let out := dedupEpResidency bitsets numRanks nExperts
    (∀ e < nExperts, ∀ r < numRanks, has out.1 r e ↔ has bitsets r e ∧ ∀ q < r, ¬ has bitsets q e) ∧
    (∀ e, (∃ r < numRanks, has out.1 r e) ↔ ∃ r < numRanks, has bitsets r e) ∧
    (∀ r e, nExperts ≤ e ∨ numRanks ≤ r → (has out.1 r e ↔ has bitsets r e)) ∧
    (∀ r, (out.1 r).isSome = (bitsets r).isSome) ∧
    out.2 = (range nExperts).countP (fun e =>
      ∃ r < numRanks, has bitsets r e ∧ ∃ q < r, has bitsets q e) ∧
    dedupEpResidency out.1 numRanks nExperts = (out.1, 0) := by
  intro out
  have h : Deduped bitsets numRanks nExperts out := deduped_dedupEpResidency ..
  have hagain := deduped_dedupEpResidency out.1 numRanks nExperts
  -- no expert has two holders any more
  have hsole : ∀ e < nExperts, ∀ r < numRanks, has out.1 r e → ¬ Held out.1 r e := by
    intro e he r hr hhas hheld
    exact ((h.has r e).1 hhas).2 ⟨he, hr, (h.held_iff e).1 hheld⟩
  refine ⟨fun e he r hr => ?_, fun e => h.held_iff e, fun r e hor => ?_, h.isSome, h.count, ?_⟩
  · rw [h.has]
    refine and_congr_right fun _ => ⟨fun hc q hq hqe => hc ⟨he, hr, q, hq, hqe⟩, ?_⟩
    rintro hc ⟨-, -, q, hq, hqe⟩
    exact hc q hq hqe
  · rw [h.has]
    exact and_iff_left fun hc => by omega
  · refine Prod.ext (bitsets_ext hagain.isSome fun r e => ?_) ?_
    · rw [hagain.has]
      exact ⟨And.left, fun hr => ⟨hr, fun hc => hsole e hc.1 r hc.2.1 hr hc.2.2⟩⟩
    · rw [hagain.count]
      refine countP_eq_zero.2 fun e he hshared => ?_
      obtain ⟨r, hr, hhas, hheld⟩ := of_decide_eq_true hshared
      exact hsole e (mem_range.1 he) r hr hhas hheld

end LayerStorm.Daemon.EpResidency
