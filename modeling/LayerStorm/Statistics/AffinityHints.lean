import LayerStorm.Lib.GreedyPlacement
import LayerStorm.Statistics.CoactivationGraph

/-!
# Affinity hints

`compute_affinity_hints` divides the experts of every layer among the GPUs: the experts are sorted
by their total connectivity, and each goes to the GPU with which it is most co-activated, among
those with a free slot.  It reads the rows as they are stored and multiplies each by the decay that
is pending for the layer.

The order in which experts of the same connectivity are sorted is left to the library, so the sort
is a parameter.

## Main results

* `graph_answers` — **the graph answers as if it had been kept up to date**.
-/

namespace LayerStorm.Statistics

open List
namespace CoactivationGraph

open Lib

/-! ### The hints -/

/-- Affinity hint produced by greedy graph partitioning. -/
structure AffinityHint where
  key : ExpertKey
  gpuIdx : ℕ
  score : ℚ
  deriving DecidableEq, Repr

/-- Sorting experts by connectivity, the most connected first. -/
structure DescendingSort where
  sort : List (ℚ × UInt16) → List (ℚ × UInt16)
  perm : ∀ l, (sort l).Perm l
  sorted : ∀ l, (sort l).Pairwise fun a b => b.1 ≤ a.1

/-- Insertion sort is such a sort. -/
instance : Inhabited DescendingSort where
  default :=
    { sort := List.insertionSort fun a b => b.1 ≤ a.1
      perm := List.perm_insertionSort _
      sorted := fun l => by
        have : Std.Total fun a b : ℚ × UInt16 => b.1 ≤ a.1 := ⟨fun a b => le_total b.1 a.1⟩
        have : IsTrans (ℚ × UInt16) fun a b => b.1 ≤ a.1 := ⟨fun _ _ _ hab hbc => hbc.trans hab⟩
        exact List.pairwise_insertionSort _ l }

variable (o : Options) (s : DescendingSort) (st : CoactivationGraph)
variable (numGpus : ℕ) (caps : List ℤ) (off : ℕ)

def layerAt : UInt32 := o.firstMoeLayer + UInt32.ofNat off

/-- The factor with which the rows of a layer are read. -/
def pendingDecay : ℚ :=
  if gap st off > 0 then computeDecay o (gap st off) else 1

def assignedExperts (placed : List AffinityHint) (g : ℕ) : List UInt16 :=
  (placed.filter fun h => h.gpuIdx = g).map fun h => h.key.expertIdx

/-- Sum of co-activation weights with experts already assigned to a GPU. -/
def partitionScore (placed : List AffinityHint) (expert : UInt16) (g : ℕ) : ℚ :=
  ((assignedExperts placed g).map fun assigned =>
    st.matrices off expert.toNat assigned.toNat * pendingDecay o st off).sum

/-- Prefer higher score; break ties by fewer assigned. -/
def preferGpu (placed : List AffinityHint) (expert : UInt16) (g best : ℕ) : Bool :=
  partitionScore o st off placed expert g > partitionScore o st off placed expert best ||
    (partitionScore o st off placed expert g == partitionScore o st off placed expert best &&
      (assignedExperts placed g).length < (assignedExperts placed best).length)

/-- The GPUs with a free slot. -/
def openGpus (placed : List AffinityHint) : List ℕ :=
  (List.range numGpus).filter fun g => !((assignedExperts placed g).length ≥ caps.getD g 0)

def assignExpert (placed : List AffinityHint) (expert : UInt16) : List AffinityHint :=
  match firstBest (preferGpu o st off placed expert) (openGpus numGpus caps placed) with
  | some g => placed ++ [⟨⟨layerAt o off, expert⟩, g, partitionScore o st off placed expert g⟩]
  | none => placed

def expertConnectivity : List (ℚ × UInt16) :=
  (List.range o.numExperts.toNat).map fun e =>
    (((List.range o.numExperts.toNat).map (st.matrices off e)).sum * pendingDecay o st off,
      UInt16.ofNat e)

def layerHints : List AffinityHint :=
  (s.sort (expertConnectivity o st off)).foldl
    (fun placed p => assignExpert o st numGpus caps off placed p.2) []

def computeAffinityHints : List AffinityHint :=
  if numGpus = 0 || caps.length < numGpus then []
  else (List.range o.numMoeLayers.toNat).flatMap (layerHints o s st numGpus caps)

variable {o s st numGpus caps off}

/-! ### The hints are a function of the weights -/

theorem matrices_mul_pendingDecay (i j : ℕ) :
    st.matrices off i j * pendingDecay o st off = materialized o st off i j := by
  unfold pendingDecay
  rw [materialized_eq_ite]
  split
  · rfl
  · exact mul_one _

theorem partitionScore_eq (placed : List AffinityHint) (expert : UInt16) (g : ℕ) :
    partitionScore o st off placed expert g = ((assignedExperts placed g).map fun assigned =>
      materialized o st off expert.toNat assigned.toNat).sum := by
  simp only [partitionScore, matrices_mul_pendingDecay]

theorem expertConnectivity_eq : expertConnectivity o st off =
    (range o.numExperts.toNat).map fun e =>
      (((range o.numExperts.toNat).map (materialized o st off e)).sum, UInt16.ofNat e) := by
  refine map_congr_left fun e _ => ?_
  rw [← sum_map_mul_right]
  simp only [matrices_mul_pendingDecay]

variable (o st off) in
theorem expertConnectivity_snd : (expertConnectivity o st off).map Prod.snd =
    (range o.numExperts.toNat).map UInt16.ofNat := by
  simp [expertConnectivity, Function.comp_def]

theorem mem_experts {e : UInt16} (h : e ∈ (range o.numExperts.toNat).map UInt16.ofNat) :
    e.toNat < o.numExperts.toNat := by
  obtain ⟨n, hn, rfl⟩ := mem_map.1 h
  have hlt := mem_range.1 hn
  rw [UInt16.toNat_ofNat']
  omega

theorem nodup_experts : ((range o.numExperts.toNat).map UInt16.ofNat).Nodup := by
  refine List.Nodup.map_on (fun n hn m hm h => ?_) nodup_range
  have hle := o.experts_le
  have hn' := mem_range.1 hn
  have hm' := mem_range.1 hm
  have := congrArg UInt16.toNat h
  rw [UInt16.toNat_ofNat', UInt16.toNat_ofNat'] at this
  omega

/-- **The hints are a function of the weights**: what decay is pending does not matter. -/
theorem computeAffinityHints_congr {st' : CoactivationGraph}
    (h : ∀ off < o.numMoeLayers.toNat, ∀ i < o.numExperts.toNat, ∀ j < o.numExperts.toNat,
      materialized o st' off i j = materialized o st off i j) :
    computeAffinityHints o s st' numGpus caps = computeAffinityHints o s st numGpus caps := by
  unfold computeAffinityHints
  split
  · rfl
  refine flatMap_congr fun off hoff => ?_
  have hw := h off (mem_range.1 hoff)
  have hconn : expertConnectivity o st' off = expertConnectivity o st off := by
    rw [expertConnectivity_eq, expertConnectivity_eq]
    refine map_congr_left fun e he => ?_
    congr 2
    exact map_congr_left fun j hj => hw e (mem_range.1 he) j (mem_range.1 hj)
  -- the scores of an expert agree while only experts of the layer are assigned
  have hassign : ∀ placed expert, (∀ x ∈ placed, x.key.expertIdx.toNat < o.numExperts.toNat) →
      expert.toNat < o.numExperts.toNat →
      assignExpert o st' numGpus caps off placed expert =
        assignExpert o st numGpus caps off placed expert := by
    intro placed expert hplaced he
    have hscore : partitionScore o st' off placed expert =
        partitionScore o st off placed expert := by
      funext g
      rw [partitionScore_eq, partitionScore_eq]
      refine congrArg sum (map_congr_left fun a ha => ?_)
      obtain ⟨x, hx, rfl⟩ := mem_map.1 ha
      exact hw _ he _ (hplaced x (mem_filter.1 hx).1)
    have hprefer : preferGpu o st' off placed expert = preferGpu o st off placed expert := by
      funext g best
      simp only [preferGpu, hscore]
    simp only [assignExpert, hprefer, hscore]
  have hmem : ∀ p ∈ s.sort (expertConnectivity o st off), p.2.toNat < o.numExperts.toNat := by
    intro p hp
    have : p.2 ∈ (expertConnectivity o st off).map Prod.snd :=
      mem_map_of_mem ((s.perm _).mem_iff.1 hp)
    rw [expertConnectivity_snd] at this
    exact mem_experts this
  unfold layerHints
  rw [hconn]
  have hfold : ∀ (l : List (ℚ × UInt16)) (placed : List AffinityHint),
      (∀ p ∈ l, p.2.toNat < o.numExperts.toNat) →
      (∀ x ∈ placed, x.key.expertIdx.toNat < o.numExperts.toNat) →
      l.foldl (fun placed p => assignExpert o st' numGpus caps off placed p.2) placed =
        l.foldl (fun placed p => assignExpert o st numGpus caps off placed p.2) placed := by
    intro l
    induction l with
    | nil => exact fun _ _ _ => rfl
    | cons p l ih =>
      intro placed hl hplaced
      rw [foldl_cons, hassign placed p.2 hplaced (hl p mem_cons_self)]
      refine ih _ (fun q hq => hl q (mem_cons_of_mem _ hq)) fun x hx => ?_
      unfold assignExpert at hx
      split at hx
      · rcases mem_append.1 hx with hx | hx
        · exact hplaced x hx
        · rw [mem_singleton.1 hx]
          exact hl p mem_cons_self
      · exact hplaced x hx
  exact hfold _ [] hmem (by simp)

/-! ### The hints of a layer are a greedy placement -/

def AffinityHint.pair (h : AffinityHint) : UInt16 × ℕ := (h.key.expertIdx, h.gpuIdx)

/-- A hint with nothing but an expert and a GPU. -/
def AffinityHint.bare (p : UInt16 × ℕ) : AffinityHint := ⟨⟨0, p.1⟩, p.2, 0⟩

variable (caps) in
/-- The slots of a GPU. -/
def capacity (g : ℕ) : ℕ := (caps.getD g 0).toNat

variable (o st off) in
/-- The preference among GPUs, given what is placed. -/
def preferPlaced (placed : List (UInt16 × ℕ)) (expert : UInt16) (g best : ℕ) : Bool :=
  preferGpu o st off (placed.map AffinityHint.bare) expert g best

section

variable (placed : List AffinityHint)
include placed

@[simp] theorem assignedExperts_bare (g : ℕ) :
    assignedExperts ((placed.map AffinityHint.pair).map AffinityHint.bare) g =
      assignedExperts placed g := by
  induction placed with
  | nil => rfl
  | cons h placed ih =>
    simp only [assignedExperts, map_cons, filter_cons, AffinityHint.pair, AffinityHint.bare] at ih ⊢
    split
    · exact congrArg (h.key.expertIdx :: ·) ih
    · exact ih

theorem preferPlaced_pair :
    preferPlaced o st off (placed.map AffinityHint.pair) = preferGpu o st off placed := by
  funext expert g best
  simp only [preferPlaced, preferGpu, partitionScore, assignedExperts_bare]
  rfl

theorem load_pair (g : ℕ) :
    load (placed.map AffinityHint.pair) g = (assignedExperts placed g).length := by
  induction placed with
  | nil => rfl
  | cons h placed ih =>
    rw [map_cons, ← singleton_append, load_append, ih, load_singleton]
    by_cases hg : h.gpuIdx = g
    · simp [assignedExperts, AffinityHint.pair, hg, add_comm]
    · simp [assignedExperts, AffinityHint.pair, hg]

theorem openGpus_eq : openGpus numGpus caps placed =
    roomy (range numGpus) (capacity caps) (placed.map AffinityHint.pair) := by
  refine filter_congr fun g _ => ?_
  rw [load_pair, Bool.eq_iff_iff, decide_eq_true_iff]
  simp only [capacity, Bool.not_eq_true', decide_eq_false_iff_not]
  omega

end

variable (o st off) in
theorem strictWeak_preferPlaced (placed : List (UInt16 × ℕ)) (expert : UInt16) :
    StrictWeak (preferPlaced o st off placed expert) := by
  refine StrictWeak.lex (fun g => -partitionScore o st off (placed.map AffinityHint.bare) expert g)
    (fun g => (assignedExperts (placed.map AffinityHint.bare) g).length) fun g best => ?_
  simp [preferPlaced, preferGpu]

variable (o s st numGpus caps off) in
/-- The experts of a layer and their GPUs, placed one after another. -/
def placement : List (UInt16 × ℕ) :=
  placeAll (List.range numGpus) (capacity caps) (preferPlaced o st off)
    ((s.sort (expertConnectivity o st off)).map Prod.snd)

theorem assignExpert_pair (placed : List AffinityHint) (expert : UInt16) :
    (assignExpert o st numGpus caps off placed expert).map AffinityHint.pair =
      place (range numGpus) (capacity caps) (preferPlaced o st off)
        (placed.map AffinityHint.pair) expert := by
  unfold assignExpert place
  rw [openGpus_eq, preferPlaced_pair]
  cases firstBest (preferGpu o st off placed expert)
    (roomy (range numGpus) (capacity caps) (placed.map AffinityHint.pair)) with
  | none => rfl
  | some g => simp [AffinityHint.pair]

theorem layerHints_pair : (layerHints o s st numGpus caps off).map AffinityHint.pair =
    placement o s st numGpus caps off := by
  unfold layerHints placement placeAll
  rw [foldl_map]
  have hfold : ∀ (l : List (ℚ × UInt16)) (placed : List AffinityHint),
      (l.foldl (fun placed p => assignExpert o st numGpus caps off placed p.2) placed).map
        AffinityHint.pair =
      l.foldl (fun pairs p => place (range numGpus) (capacity caps) (preferPlaced o st off)
        pairs p.2) (placed.map AffinityHint.pair) := by
    intro l
    induction l with
    | nil => exact fun _ => rfl
    | cons p l ih =>
      intro placed
      rw [foldl_cons, foldl_cons, ih, assignExpert_pair]
  exact hfold _ []

variable {h : AffinityHint}

theorem layerHints_split {before after : List AffinityHint}
    (heq : layerHints o s st numGpus caps off = before ++ h :: after) :
    h.key.layerIdx = layerAt o off ∧
      h.score = partitionScore o st off before h.key.expertIdx h.gpuIdx := by
  unfold layerHints at heq
  revert heq
  induction s.sort (expertConnectivity o st off) using reverseRecOn generalizing after with
  | nil => simp
  | append_singleton l p ih =>
    intro heq
    rw [foldl_append, foldl_cons] at heq
    unfold assignExpert at heq
    split at heq
    · next g _ =>
      cases after using reverseRecOn with
      | nil =>
        obtain ⟨hpre, hlast⟩ := append_inj' heq rfl
        rw [← singleton_inj.1 hlast, hpre]
        exact ⟨rfl, rfl⟩
      | append_singleton after x =>
        rw [← cons_append, ← append_assoc] at heq
        exact ih (append_inj' heq rfl).1
    · exact ih heq

/-- How much an expert is co-activated with those on a GPU. -/
def coactivation (w : UInt16 → UInt16 → ℚ) (placed : List AffinityHint) (expert : UInt16)
    (g : ℕ) : ℚ :=
  ((assignedExperts placed g).map (w expert)).sum

structure LayerPlacement (o : Options) (w : UInt16 → UInt16 → ℚ) (numGpus : ℕ) (caps : List ℤ)
    (hints : List AffinityHint) : Prop where
  once : (hints.map fun h => h.key.expertIdx).Nodup
  known : ∀ h ∈ hints, h.key.expertIdx.toNat < o.numExperts.toNat ∧ h.gpuIdx < numGpus
  within : ∀ g, (assignedExperts hints g).length ≤ capacity caps g
  count : hints.length = min o.numExperts.toNat ((List.range numGpus).map (capacity caps)).sum
  best : ∀ before h after, hints = before ++ h :: after →
    h.score = coactivation w before h.key.expertIdx h.gpuIdx ∧
      ∀ g < numGpus, (assignedExperts before g).length < capacity caps g →
        coactivation w before h.key.expertIdx g ≤ h.score

theorem length_placed : ((s.sort (expertConnectivity o st off)).map Prod.snd).length =
    o.numExperts.toNat := by
  rw [length_map, (s.perm _).length_eq]
  simp [expertConnectivity]

theorem perm_placed : ((s.sort (expertConnectivity o st off)).map Prod.snd).Perm
    ((range o.numExperts.toNat).map UInt16.ofNat) :=
  expertConnectivity_snd o st off ▸ (s.perm _).map Prod.snd

variable (st numGpus caps off) in
theorem placed_sublist : ((placement o s st numGpus caps off).map Prod.fst).Sublist
    ((s.sort (expertConnectivity o st off)).map Prod.snd) :=
  placeAll_sublist (strictWeak_preferPlaced o st off) _

variable (o s st numGpus caps off) in
theorem layerHints_placement : LayerPlacement o
    (fun i j => materialized o st off i.toNat j.toNat) numGpus caps
      (layerHints o s st numGpus caps off) where
  once := by
    have hsub := placed_sublist (o := o) (s := s) st numGpus caps off
    have hnodup := hsub.nodup (perm_placed.nodup_iff.2 nodup_experts)
    rw [← layerHints_pair, map_map] at hnodup
    exact hnodup
  known h hh := by
    have hp : h.pair ∈ placement o s st numGpus caps off :=
      layerHints_pair ▸ mem_map_of_mem hh
    constructor
    · have hmem : h.key.expertIdx ∈ (s.sort (expertConnectivity o st off)).map Prod.snd :=
        (placed_sublist st numGpus caps off).subset (mem_map.2 ⟨h.pair, hp, rfl⟩)
      exact mem_experts (perm_placed.mem_iff.1 hmem)
    · exact mem_range.1 (mem_bins_of_placeAll (strictWeak_preferPlaced o st off) _ _ hp)
  within g := by
    rw [← load_pair, layerHints_pair]
    exact load_placeAll_le (strictWeak_preferPlaced o st off) _ g
  count := by
    have hlen : (placement o s st numGpus caps off).length = min
        ((s.sort (expertConnectivity o st off)).map Prod.snd).length
        ((range numGpus).map (capacity caps)).sum :=
      length_placeAll (strictWeak_preferPlaced o st off) nodup_range _
    rw [← layerHints_pair, length_map, length_placed] at hlen
    exact hlen
  best before h after heq := by
    have hscore : ∀ g, partitionScore o st off before h.key.expertIdx g =
        coactivation (fun i j => materialized o st off i.toNat j.toNat) before h.key.expertIdx g :=
      fun g => partitionScore_eq before h.key.expertIdx g
    obtain ⟨-, hh⟩ := layerHints_split heq
    have hsplit : placement o s st numGpus caps off = before.map AffinityHint.pair ++
        (h.key.expertIdx, h.gpuIdx) :: after.map AffinityHint.pair := by
      rw [← layerHints_pair, heq, map_append, map_cons]
      rfl
    obtain ⟨-, hbest⟩ := placeAll_best (strictWeak_preferPlaced o st off) _ hsplit
    refine ⟨hh.trans (hscore _), fun g hg hroom => ?_⟩
    have hg' := hbest g (mem_range.2 hg) (by rwa [load_pair])
    rw [preferPlaced_pair, preferGpu, Bool.or_eq_false_iff] at hg'
    rw [← hscore, hh]
    simpa using hg'.1

theorem LayerPlacement.congr {w w' : UInt16 → UInt16 → ℚ} {hints : List AffinityHint}
    (h : LayerPlacement o w numGpus caps hints)
    (hw : ∀ i j : UInt16, i.toNat < o.numExperts.toNat → j.toNat < o.numExperts.toNat →
      w i j = w' i j) : LayerPlacement o w' numGpus caps hints := by
  refine { h with best := fun before x after heq => ?_ }
  have hx : x.key.expertIdx.toNat < o.numExperts.toNat := (h.known x (by simp [heq])).1
  have hsame : ∀ g, coactivation w before x.key.expertIdx g =
      coactivation w' before x.key.expertIdx g := by
    intro g
    refine congrArg sum (map_congr_left fun a ha => ?_)
    obtain ⟨y, hy, rfl⟩ := mem_map.1 ha
    exact hw _ _ hx (h.known y (by simp [heq, (mem_filter.1 hy).1])).1
  simpa only [hsame] using h.best before x after heq

/-! ### What the graph answers -/

theorem toNat_layerAt_sub (hoff : off < o.numMoeLayers.toNat) :
    layerOffset o (layerAt o off) = off := by
  have := o.numMoeLayers.toNat_lt
  simp only [layerOffset, layerAt, add_sub_cancel_left, UInt32.toNat_ofNat']
  omega

variable {es : List Event}

theorem weight_layerAt (h : Faithful o st es) (hoff : off < o.numMoeLayers.toNat) {i j : UInt16}
    (hi : i.toNat < o.numExperts.toNat) (hj : j.toNat < o.numExperts.toNat) :
    weight o st (layerAt o off) i j = materialized o st off i.toNat j.toNat := by
  cases hl : validLayer o (layerAt o off) with
  | true =>
    by_cases hij : i = j
    · subst hij
      simp [weight, materialized, h.diag]
    · rw [weight_of_valid st hl hi hj hij, toNat_layerAt_sub hoff]
  | false =>
    have hun : ∀ l, validLayer o l = true → layerOffset o l ≠ off := by
      rintro l hl' rfl
      rw [layerOffset_inj (toNat_layerAt_sub hoff), hl'] at hl
      cases hl
    simp [weight, hl, materialized, h.unused off hun]

theorem weight_eq_eager (h : Faithful o st es) (l : UInt32) (i j : UInt16) : weight o st l i j =
      if validLayer o l = true ∧ i.toNat < o.numExperts.toNat ∧ j.toNat < o.numExperts.toNat then
        eagerWeight o l i.toNat j.toNat es else 0 := by
  by_cases hval : validLayer o l = true ∧ i.toNat < o.numExperts.toNat ∧
      j.toNat < o.numExperts.toNat
  · obtain ⟨hl, hi, hj⟩ := hval
    rw [if_pos ⟨hl, hi, hj⟩, ← h.eager l hl]
    by_cases hij : i = j
    · subst hij
      simp [weight, materialized, h.diag]
    · exact weight_of_valid st hl hi hj hij
  rw [if_neg hval]
  have hge : ∀ e : UInt16, e.toUInt32 ≥ o.numExperts ↔ ¬ e.toNat < o.numExperts.toNat := by
    intro e
    rw [ge_iff_le, UInt32.le_iff_toNat_le, UInt16.toNat_toUInt32, not_lt]
  unfold weight
  by_cases hl : validLayer o l = true
  · have hor : ¬ i.toNat < o.numExperts.toNat ∨ ¬ j.toNat < o.numExperts.toNat := by
      by_contra hcon
      rw [not_or, not_not, not_not] at hcon
      exact hval ⟨hl, hcon⟩
    simp only [hl, Bool.not_true, Bool.false_eq_true, if_false]
    rw [if_pos (by simpa [hge] using hor)]
  · simp [hl]

theorem row_eq_eager (h : Faithful o st es) (l : UInt32) (e : UInt16) :
    (row o st l e).1 = if validLayer o l = true ∧ e.toNat < o.numExperts.toNat then
      (range o.numExperts.toNat).map fun j => eagerWeight o l e.toNat j es else [] := by
  have hge : e.toUInt32 ≥ o.numExperts ↔ ¬ e.toNat < o.numExperts.toNat := by
    rw [ge_iff_le, UInt32.le_iff_toNat_le, UInt16.toNat_toUInt32, not_lt]
  unfold row
  by_cases hval : validLayer o l = true ∧ e.toNat < o.numExperts.toNat
  · rw [if_neg (by simp [hge, hval.1, hval.2])]
    have hentry : ∀ j, eagerWeight o l e.toNat j es = materialized o st (layerOffset o l) e.toNat j :=
      fun j => (h.eager l hval.1 e.toNat j).symm
    simp only [hentry, materialized_eq_ite]
    split
    · simp
    · rfl
  · rw [if_neg hval, if_pos]
    by_cases hl : validLayer o l = true
    · simpa [hl, hge] using fun he => hval ⟨hl, he⟩
    · simp [hl]

theorem layerAt_inj {off' : ℕ} (hoff : off < o.numMoeLayers.toNat)
    (hoff' : off' < o.numMoeLayers.toNat) (h : layerAt o off = layerAt o off') : off = off' := by
  rw [← toNat_layerAt_sub hoff, ← toNat_layerAt_sub hoff', h]

theorem layerIdx_of_mem (hh : h ∈ layerHints o s st numGpus caps off) :
    h.key.layerIdx = layerAt o off := by
  obtain ⟨before, after, heq⟩ := append_of_mem hh
  exact (layerHints_split heq).1

theorem filter_hints (hcaps : numGpus ≤ caps.length) (hpos : numGpus ≠ 0)
    (hoff : off < o.numMoeLayers.toNat) : (computeAffinityHints o s st numGpus caps).filter
      (fun h => h.key.layerIdx = layerAt o off) = layerHints o s st numGpus caps off := by
  have hgo : ∀ l : List ℕ, (∀ x ∈ l, x < o.numMoeLayers.toNat) → l.Nodup →
      (l.flatMap (layerHints o s st numGpus caps)).filter
        (fun h => h.key.layerIdx = layerAt o off) =
      if off ∈ l then layerHints o s st numGpus caps off else [] := by
    intro l
    induction l with
    | nil => exact fun _ _ => rfl
    | cons x l ih =>
      intro hl hnodup
      rw [nodup_cons] at hnodup
      rw [flatMap_cons, filter_append, ih (fun y hy => hl y (mem_cons_of_mem _ hy)) hnodup.2]
      by_cases hx : x = off
      · subst hx
        rw [if_neg hnodup.1, if_pos mem_cons_self, append_nil]
        exact filter_eq_self.2 fun h hh => by simpa using layerIdx_of_mem hh
      have hnone : (layerHints o s st numGpus caps x).filter
          (fun h => h.key.layerIdx = layerAt o off) = [] := by
        refine filter_eq_nil_iff.2 fun h hh => ?_
        rw [layerIdx_of_mem hh]
        simpa using fun heq => hx (layerAt_inj (hl x mem_cons_self) hoff heq)
      rw [hnone]
      simp [Ne.symm hx]
  unfold computeAffinityHints
  rw [if_neg (by simp [hpos, hcaps]), hgo _ (by simp) nodup_range, if_pos (mem_range.2 hoff)]

variable (o s) in
structure Answers (calls : List Call) : Prop where
  symm : ∀ off i j, (run o calls).matrices off i j = (run o calls).matrices off j i
  diag : ∀ off i, (run o calls).matrices off i i = 0
  nonneg : ∀ off i j, 0 ≤ (run o calls).matrices off i j
  weight : ∀ l i j, weight o (run o calls) l i j =
    if validLayer o l = true ∧ i.toNat < o.numExperts.toNat ∧ j.toNat < o.numExperts.toNat then
      eagerWeight o l i.toNat j.toNat (calls.flatMap Call.events) else 0
  row : ∀ l e, (row o (run o calls) l e).1 =
    if validLayer o l = true ∧ e.toNat < o.numExperts.toNat then
      (List.range o.numExperts.toNat).map fun j =>
        eagerWeight o l e.toNat j (calls.flatMap Call.events) else []
  hints : ∀ numGpus caps, numGpus ≤ caps.length → ∀ off < o.numMoeLayers.toNat,
    LayerPlacement o (CoactivationGraph.weight o (run o calls) (layerAt o off)) numGpus caps
      ((computeAffinityHints o s (run o calls) numGpus caps).filter
        fun h => h.key.layerIdx = layerAt o off)
  layers : ∀ numGpus caps, ∀ h ∈ computeAffinityHints o s (run o calls) numGpus caps,
    ∃ off < o.numMoeLayers.toNat, h.key.layerIdx = layerAt o off
  pending : ∀ calls', (∀ l i j, CoactivationGraph.weight o (run o calls') l i j =
      CoactivationGraph.weight o (run o calls) l i j) → ∀ numGpus caps,
    computeAffinityHints o s (run o calls') numGpus caps =
      computeAffinityHints o s (run o calls) numGpus caps
  settled : ∀ off numGpus caps, computeAffinityHints o s (settleLayer o (run o calls) off)
    numGpus caps = computeAffinityHints o s (run o calls) numGpus caps

theorem hints_of_no_gpu : computeAffinityHints o s st 0 caps = [] := by
  simp [computeAffinityHints]

theorem layerHints_of_no_gpu : layerHints o s st 0 caps off = [] := by
  have hlen := (layerHints_placement o s st 0 caps off).count
  exact length_eq_zero_iff.1 (by simpa using hlen)

theorem toNat_ofNat_of_lt {i : ℕ} (h : i < o.numExperts.toNat) : (UInt16.ofNat i).toNat = i := by
  have := o.experts_le
  rw [UInt16.toNat_ofNat']
  omega

/-- **The graph answers as if it had been kept up to date.** -/
theorem graph_answers (o : Options) (s : DescendingSort) (calls : List Call) :
    Answers o s calls where
  symm := (run_faithful calls).symm
  diag := (run_faithful calls).diag
  nonneg := (run_faithful calls).nonneg
  weight := weight_eq_eager (run_faithful calls)
  row := row_eq_eager (run_faithful calls)
  hints numGpus caps hcaps off hoff := by
    have hlayer : (computeAffinityHints o s (run o calls) numGpus caps).filter
        (fun h => h.key.layerIdx = layerAt o off) =
          layerHints o s (run o calls) numGpus caps off := by
      by_cases hpos : numGpus = 0
      · subst hpos
        rw [hints_of_no_gpu, layerHints_of_no_gpu, filter_nil]
      · exact filter_hints hcaps hpos hoff
    rw [hlayer]
    exact (layerHints_placement o s _ numGpus caps off).congr fun i j hi hj =>
      (weight_layerAt (run_faithful calls) hoff hi hj).symm
  layers numGpus caps h hh := by
    unfold computeAffinityHints at hh
    split at hh
    · simp at hh
    · obtain ⟨off, hoff, hmem⟩ := mem_flatMap.1 hh
      exact ⟨off, mem_range.1 hoff, layerIdx_of_mem hmem⟩
  pending calls' hw numGpus caps := by
    refine computeAffinityHints_congr fun off hoff i hi j hj => ?_
    have h := hw (layerAt o off) (UInt16.ofNat i) (UInt16.ofNat j)
    have hi' := toNat_ofNat_of_lt hi
    have hj' := toNat_ofNat_of_lt hj
    rwa [weight_layerAt (run_faithful calls') hoff (hi'.symm ▸ hi) (hj'.symm ▸ hj),
      weight_layerAt (run_faithful calls) hoff (hi'.symm ▸ hi) (hj'.symm ▸ hj), hi', hj'] at h
  settled off numGpus caps :=
    computeAffinityHints_congr fun off' _ i _ j _ => materialized_settleLayer _ off off' i j

def threeExperts : Options where
  numMoeLayers := 1
  numExperts := 3
  firstMoeLayer := 3
  decayFactor := 1 / 2
  decay_nonneg := by norm_num
  experts_le := by decide

/-- Experts 0 and 2 meet, and a token later they are put on one GPU. -/
example : (computeAffinityHints threeExperts default (run threeExperts
    [.update [⟨1, 3, [⟨⟨3, 0⟩, 1⟩, ⟨⟨3, 2⟩, 1⟩]⟩, ⟨2, 0, []⟩]]) 2 [2, 2]).map
      (fun h => (h.key.expertIdx, h.gpuIdx, h.score)) = [(0, 0, 0), (2, 0, 1 / 2), (1, 1, 0)] := by
  decide +kernel

end CoactivationGraph
end LayerStorm.Statistics
