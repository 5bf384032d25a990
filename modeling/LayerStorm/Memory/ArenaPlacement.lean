import LayerStorm.Lib.GreedyPlacement
import LayerStorm.Memory.ArenaCache

/-!
# Placing the experts on the nodes of the arena

`compute_arena_placement` gives the most fetched experts to the HBM nodes and deals the others to
the DDR nodes, layer by layer and by their rank in the layer.  What finds no room is left to the
caller.  The layers come in their order, so it is the end of the last layers that is left over and
not what is fetched least.

## Main results

* `arena_placement` — what is placed, and where.
* `computeArenaPlacement_perm` — the order of the lists does not matter.
-/

namespace LayerStorm.Memory

open Lib List

/-! ### The placement -/

/-- `ArenaFreqTable`; a key that it does not have counts zero. -/
structure ArenaFreqTable (F : Type) where
  counts : ExpertKey → Option F

/-- `ArenaPlacementNode`; no two nodes have one id. -/
structure ArenaPlacementNode where
  node : ℤ
  freeSlots : ℕ
  isHbm : Bool

variable {F : Type} [LinearOrder F] [Zero F] (freq : ArenaFreqTable F)

/-- `at`. -/
def ArenaFreqTable.atKey (k : ExpertKey) : F := (freq.counts k).getD 0

/-- Frequency descending, then the key ascending. -/
def ArenaFreqTable.sortKey (k : ExpertKey) : Fᵒᵈ ×ₗ ℕ ×ₗ ℕ :=
  toLex (OrderDual.toDual (freq.atKey k), toLex (k.layerIdx, k.expertIdx))

variable (nodes : List ArenaPlacementNode)

def freeSlots (id : ℤ) : ℕ := ((nodes.find? (·.node = id)).map (·.freeSlots)).getD 0

/-- The ids of a class of nodes. -/
def classOf (hbm : Bool) : List ℤ := (nodes.filter (·.isHbm = hbm)).map (·.node)

/-- The keys of each layer with their rank in the layer, the layers ascending. -/
def byLayer (set : List ExpertKey) : List (ExpertKey × ℕ) :=
  ((set.map (·.layerIdx)).dedup.insertionSort (· ≤ ·)).flatMap fun layer =>
    (set.filter (·.layerIdx = layer)).zipIdx

/-- The node whose turn it is. -/
def turnOf (cls : List ℤ) (k : ExpertKey × ℕ) : ℤ :=
  cls.getD ((k.2 + k.1.layerIdx) % cls.length) 0

/-- Which of two nodes with free slots a key gets: the one whose turn it is, and else the one with
more free slots. -/
def preferNode (cls : List ℤ) (free : ℤ → ℕ) (k : ExpertKey × ℕ) (a b : ℤ) : Bool :=
  b ≠ turnOf cls k ∧ (a = turnOf cls k ∨ free b < free a)

/-- `assign_rr`: what is placed on a class of nodes; of nodes with as many free slots the first
one is taken. -/
def assignRr (cls : List ℤ) (free : ℤ → ℕ) (set : List ExpertKey) : List ((ExpertKey × ℕ) × ℤ) :=
  placeAll cls free (fun placed => preferNode cls fun id => free id - load placed id) (byLayer set)

/-- The keys that fit nowhere in the class. -/
def unplaced (cls : List ℤ) (placed : List ((ExpertKey × ℕ) × ℤ)) (set : List ExpertKey) :
    List ExpertKey :=
  if cls = [] then set
  else ((byLayer set).map Prod.fst).filter fun k => k ∉ placed.map fun p => p.1.1

/-- `compute_arena_placement`; the keys are distinct, so that none is emplaced twice. -/
def computeArenaPlacement (keys : List ExpertKey) : List (ExpertKey × ℤ) :=
  if keys = [] ∨ nodes = [] then [] else
    let nodes := nodes.insertionSort fun a b => a.node ≤ b.node
    let order := keys.insertionSort fun a b => freq.sortKey a ≤ freq.sortKey b
    let nHot := min ((classOf nodes true).map (freeSlots nodes)).sum order.length
    let hot := assignRr (classOf nodes true) (freeSlots nodes) (order.take nHot)
    let rest := unplaced (classOf nodes true) hot (order.take nHot) ++ order.drop nHot
    (hot ++ assignRr (classOf nodes false) (fun id => freeSlots nodes id - load hot id) rest).map
      fun p => (p.1.1, p.2)

/-! ### The order of a stage -/

variable {freq nodes} {set : List ExpertKey} {cls : List ℤ}

theorem mem_byLayer {k : ExpertKey} : k ∈ (byLayer set).map Prod.fst ↔ k ∈ set := by
  simpa [byLayer, map_flatMap] using fun hk => ⟨k, hk, rfl⟩

theorem pairwise_byLayer {R : ExpertKey → ExpertKey → Prop} (h : set.Pairwise R) :
    ((byLayer set).map Prod.fst).Pairwise fun k k' =>
      k.layerIdx < k'.layerIdx ∨ k.layerIdx = k'.layerIdx ∧ R k k' := by
  unfold byLayer
  have hsorted := pairwise_insertionSort (· ≤ ·) (set.map (·.layerIdx)).dedup
  have hnodup := (perm_insertionSort (· ≤ ·) _).nodup_iff.2 (nodup_dedup (set.map (·.layerIdx)))
  rw [map_flatMap, pairwise_flatMap]
  simp only [zipIdx_map_fst]
  constructor
  · intro layer _
    refine (h.filter _).imp_of_mem fun hk hk' hR => .inr ⟨?_, hR⟩
    rw [of_decide_eq_true (mem_filter.1 hk).2, of_decide_eq_true (mem_filter.1 hk').2]
  · refine (hsorted.and hnodup).imp fun {a b} hab k hk k' hk' => .inl ?_
    rw [of_decide_eq_true (mem_filter.1 hk).2, of_decide_eq_true (mem_filter.1 hk').2]
    exact lt_of_le_of_ne hab.1 hab.2

theorem byLayer_perm (hset : set.Nodup) : ((byLayer set).map Prod.fst).Perm set := by
  refine (perm_ext_iff_of_nodup ?_ hset).2 fun k => mem_byLayer
  refine (pairwise_byLayer hset).imp ?_
  rintro k k' (h | h) rfl
  · exact lt_irrefl _ h
  · exact h.2 rfl

theorem strictWeak_preferNode (cls : List ℤ) (free : ℤ → ℕ) (k : ExpertKey × ℕ) :
    StrictWeak (preferNode cls free k) := by
  refine .lex (fun a => if a = turnOf cls k then 0 else 1) (fun a => OrderDual.toDual (free a)) ?_
  intro a b
  by_cases ha : a = turnOf cls k <;> by_cases hb : b = turnOf cls k <;> simp [preferNode, ha, hb]

/-- **A stage places its keys in their order** as long as its class of nodes has room. -/
theorem fst_assignRr (hcls : cls.Nodup) (free : ℤ → ℕ) (set : List ExpertKey) :
    (assignRr cls free set).map (fun p => p.1.1) =
      ((byLayer set).map Prod.fst).take (cls.map free).sum := by
  rw [← map_take, ← fst_placeAll (fun _ => strictWeak_preferNode cls _) hcls, map_map]
  rfl

theorem node_assignRr (free : ℤ → ℕ) (set : List ExpertKey) :
    ∀ p ∈ assignRr cls free set, p.2 ∈ cls :=
  mem_bins_of_placeAll (fun _ => strictWeak_preferNode cls _) _

theorem load_assignRr_le (free : ℤ → ℕ) (set : List ExpertKey) (id : ℤ) :
    load (assignRr cls free set) id ≤ free id :=
  load_placeAll_le (fun _ => strictWeak_preferNode cls _) _ id

theorem unplaced_nil (hcls : cls.Nodup) {free : ℤ → ℕ} (hset : set.Nodup)
    (hroom : set.length ≤ (cls.map free).sum) : unplaced cls (assignRr cls free set) set = [] := by
  unfold unplaced
  split
  · next hnil =>
    subst hnil
    exact length_eq_zero_iff.1 (Nat.le_zero.1 hroom)
  · rw [fst_assignRr hcls, take_of_length_le ((byLayer_perm hset).length_eq.trans_le hroom)]
    exact filter_eq_nil_iff.2 fun k hk => by simpa using hk

/-! ### Both stages -/

/-- The order of the sort. -/
def ArenaFreqTable.Before (freq : ArenaFreqTable F) (k k' : ExpertKey) : Prop :=
  freq.sortKey k < freq.sortKey k'

/-- What is placed, and where. -/
structure ArenaPacking (freq : ArenaFreqTable F) (keys : List ExpertKey)
    (nodes : List ArenaPlacementNode) (out : List (ExpertKey × ℤ)) : Prop where
  once : (out.map Prod.fst).Nodup
  known : ∀ p ∈ out, p.1 ∈ keys ∧ ∃ n ∈ nodes, n.node = p.2
  capacity : ∀ n ∈ nodes, out.countP (·.2 = n.node) ≤ n.freeSlots
  placed : out.length = min keys.length (nodes.map (·.freeSlots)).sum
  hbm : ∀ n ∈ nodes, n.isHbm = true → ∀ k, (k, n.node) ∈ out → ∀ k' ∈ keys,
    (∀ n' ∈ nodes, n'.isHbm = true → (k', n'.node) ∉ out) → freq.Before k k'
  ddr : ∀ n ∈ nodes, n.isHbm = false → ∀ k, (k, n.node) ∈ out → ∀ k' ∈ keys,
    k' ∉ out.map Prod.fst → k.layerIdx < k'.layerIdx ∨ k.layerIdx = k'.layerIdx ∧ freq.Before k k'

omit [LinearOrder F] in
theorem sortKey_inj (freq : ArenaFreqTable F) {k k' : ExpertKey}
    (h : freq.sortKey k = freq.sortKey k') : k = k' := by
  have hkey := congrArg (fun x => ofLex (ofLex x).2) h
  obtain ⟨hl, he⟩ := Prod.mk.inj hkey
  exact ExpertKey.mk.injEq .. ▸ ⟨hl, he⟩

theorem freeSlots_eq (hids : (nodes.map (·.node)).Nodup) {n : ArenaPlacementNode}
    (hn : n ∈ nodes) : freeSlots nodes n.node = n.freeSlots := by
  obtain ⟨m, hm⟩ := Option.isSome_iff_exists.1
    (find?_isSome (p := fun m => m.node = n.node).2 ⟨n, hn, by simp⟩)
  have heq := inj_on_of_nodup_map hids (mem_of_find?_eq_some hm) hn (by simpa using find?_some hm)
  unfold freeSlots
  rw [hm, heq]
  rfl

theorem mem_classOf {id : ℤ} {b : Bool} :
    id ∈ classOf nodes b ↔ ∃ n ∈ nodes, n.isHbm = b ∧ n.node = id := by
  simp [classOf, and_assoc]

theorem sum_classOf (hids : (nodes.map (·.node)).Nodup) :
    ((classOf nodes true).map (freeSlots nodes)).sum + ((classOf nodes false).map (freeSlots nodes)).sum =
      (nodes.map (·.freeSlots)).sum := by
  have hroom : ∀ b, ((classOf nodes b).map (freeSlots nodes)).sum =
      ((nodes.filter (·.isHbm = b)).map (·.freeSlots)).sum := by
    intro b
    unfold classOf
    rw [map_map]
    exact congrArg sum (map_congr_left fun n hn =>
      freeSlots_eq hids (mem_of_mem_filter hn))
  have hperm := filter_append_perm (fun n : ArenaPlacementNode => n.isHbm = true) nodes
  rw [hroom, hroom, ← ((hperm.map (·.freeSlots)).sum_eq), map_append, sum_append]
  simp

theorem class_disjoint (hids : (nodes.map (·.node)).Nodup) {id : ℤ}
    (htrue : id ∈ classOf nodes true) (hfalse : id ∈ classOf nodes false) : False := by
  obtain ⟨n, hn, hb, rfl⟩ := mem_classOf.1 htrue
  obtain ⟨m, hm, hb', heq⟩ := mem_classOf.1 hfalse
  rw [inj_on_of_nodup_map hids hm hn heq, hb] at hb'
  cases hb'

theorem packing_of_stages (hids : (nodes.map (·.node)).Nodup) {order : List ExpertKey}
    (horder : order.Nodup) (hsorted : order.Pairwise freq.Before) {nHot : ℕ}
    (hHot : nHot = min ((classOf nodes true).map (freeSlots nodes)).sum order.length) :
    let hot := assignRr (classOf nodes true) (freeSlots nodes) (order.take nHot)
    let rest := unplaced (classOf nodes true) hot (order.take nHot) ++ order.drop nHot
    ArenaPacking freq order nodes ((hot ++ assignRr (classOf nodes false)
      (fun id => freeSlots nodes id - load hot id) rest).map fun p => (p.1.1, p.2)) := by
  have hcls : ∀ b, (classOf nodes b).Nodup := fun b => (filter_sublist.map _).nodup hids
  have htake : (order.take nHot).length = nHot := by
    rw [length_take, hHot]
    omega
  have hperm₁ := byLayer_perm (horder.sublist (take_sublist nHot _))
  have hperm₂ := byLayer_perm (horder.sublist (drop_sublist nHot _))
  have hpair := pairwise_byLayer (hsorted.sublist (drop_sublist nHot _))
  have hsplit := take_append_drop nHot order
  intro hot
  rw [unplaced_nil (hcls true) (horder.sublist (take_sublist nHot _)) (by omega), nil_append]
  have hfst₁ : hot.map (fun p => p.1.1) = (byLayer (order.take nHot)).map Prod.fst := by
    rw [fst_assignRr (hcls true), take_of_length_le (by rw [hperm₁.length_eq]; omega)]
  have hin₁ : ∀ p ∈ hot, p.2 ∈ classOf nodes true := node_assignRr _ _
  set free := fun id => freeSlots nodes id - load hot id
  set cold := assignRr (classOf nodes false) free (order.drop nHot)
  have hroom : ((classOf nodes false).map free).sum =
      ((classOf nodes false).map (freeSlots nodes)).sum := by
    refine congrArg sum (map_congr_left fun id hid => ?_)
    have hzero : load hot id = 0 := countP_eq_zero.2 fun p hp => by
      have : p.2 ≠ id := fun heq => class_disjoint hids (hin₁ p hp) (heq ▸ hid)
      simpa using this
    show freeSlots nodes id - load hot id = _
    rw [hzero, Nat.sub_zero]
  have hfst₂ := fst_assignRr (hcls false) free (order.drop nHot)
  rw [hroom] at hfst₂
  have hin₂ : ∀ p ∈ cold, p.2 ∈ classOf nodes false := node_assignRr _ _
  set n₂ := ((classOf nodes false).map (freeSlots nodes)).sum
  set first := (byLayer (order.take nHot)).map Prod.fst
  set second := (byLayer (order.drop nHot)).map Prod.fst
  have hfst : ((hot ++ cold).map fun p => (p.1.1, p.2)).map Prod.fst = first ++ second.take n₂ := by
    rw [map_map, ← hfst₁, ← hfst₂, ← map_append]
    rfl
  have hmem : ∀ {k id}, (k, id) ∈ (hot ++ cold).map (fun p => (p.1.1, p.2)) ↔
      ∃ r, ((k, r), id) ∈ hot ∨ ((k, r), id) ∈ cold := by
    intro k id
    simp [exists_or]
  have hall : (first ++ second).Perm order := by
    have := hperm₁.append hperm₂
    rwa [hsplit] at this
  have hsub : (first ++ second.take n₂).Sublist (first ++ second) :=
    (List.Sublist.refl _).append (take_sublist _ _)
  -- a key that the HBM stage left over comes later in the order
  have hlate : ∀ k ∈ order, k ∉ first → k ∈ order.drop nHot := by
    intro k hk hno
    rw [← hsplit, mem_append] at hk
    exact hk.resolve_left fun h => hno (mem_byLayer.2 h)
  constructor
  case once =>
    rw [hfst]
    exact (hall.nodup_iff.2 horder).sublist hsub
  case known =>
    rintro ⟨k, id⟩ hp
    have hkey : k ∈ first ++ second.take n₂ := hfst ▸ mem_map_of_mem (f := Prod.fst) hp
    refine ⟨hall.mem_iff.1 (hsub.subset hkey), ?_⟩
    obtain ⟨r, hp | hp⟩ := hmem.1 hp
    · obtain ⟨n, hn, -, heq⟩ := mem_classOf.1 (hin₁ _ hp)
      exact ⟨n, hn, heq⟩
    · obtain ⟨n, hn, -, heq⟩ := mem_classOf.1 (hin₂ _ hp)
      exact ⟨n, hn, heq⟩
  case capacity =>
    intro n hn
    have hcount : ((hot ++ cold).map fun p => (p.1.1, p.2)).countP (·.2 = n.node) =
        load hot n.node + load cold n.node := by
      rw [countP_map, ← load_append]
      rfl
    have h₁ : load hot n.node ≤ freeSlots nodes n.node := load_assignRr_le _ _ _
    have h₂ : load cold n.node ≤ freeSlots nodes n.node - load hot n.node :=
      load_assignRr_le _ _ _
    rw [hcount, ← freeSlots_eq hids hn]
    omega
  case placed =>
    have hlen := congrArg length hfst
    have htotal := hall.length_eq
    have hfirst := hperm₁.length_eq
    rw [length_map, length_append, length_take] at hlen
    rw [length_append] at htotal
    rw [hlen, ← sum_classOf hids]
    omega
  case hbm =>
    intro n hn hb k hk k' hk' hno
    have hnode : n.node ∈ classOf nodes true := mem_classOf.2 ⟨n, hn, hb, rfl⟩
    obtain ⟨r, hk | hk⟩ := hmem.1 hk
    · have hfirst : k ∈ first := hfst₁ ▸ mem_map_of_mem (f := fun p => p.1.1) hk
      rw [← hsplit] at hsorted
      refine (pairwise_append.1 hsorted).2.2 k (mem_byLayer.1 hfirst) k'
        (hlate k' hk' fun hkey => ?_)
      obtain ⟨p, hp, rfl⟩ := mem_map.1 (hfst₁.symm ▸ hkey)
      obtain ⟨m, hm, hb, heq⟩ := mem_classOf.1 (hin₁ p hp)
      exact hno m hm hb (hmem.2 ⟨p.1.2, .inl (heq ▸ hp)⟩)
    · exact (class_disjoint hids hnode (hin₂ _ hk)).elim
  case ddr =>
    intro n hn hb k hk k' hk' hno
    have hnode : n.node ∈ classOf nodes false := mem_classOf.2 ⟨n, hn, hb, rfl⟩
    rw [hfst, mem_append, not_or] at hno
    obtain ⟨r, hk | hk⟩ := hmem.1 hk
    · exact (class_disjoint hids (hin₁ _ hk) hnode).elim
    have htaken : k ∈ second.take n₂ := hfst₂ ▸ mem_map_of_mem (f := fun p => p.1.1) hk
    have hk' : k' ∈ second := mem_byLayer.2 (hlate k' hk' hno.1)
    rw [← take_append_drop n₂ second] at hk' hpair
    exact (pairwise_append.1 hpair).2.2 k htaken k' ((mem_append.1 hk').resolve_left hno.2)

/-- **The placement.**  No node gets more keys than it has free slots, and as many keys are placed as
fit.  A key on an HBM node is fetched at least as often as one that is on none; a key on a DDR node
comes before one without a node by its layer, and in one layer by how often it is fetched.  Keys
that are fetched equally often come in their own order. -/
theorem arena_placement (freq : ArenaFreqTable F) {keys : List ExpertKey}
    {nodes : List ArenaPlacementNode} (hkeys : keys.Nodup) (hids : (nodes.map (·.node)).Nodup) :
    ArenaPacking freq keys nodes (computeArenaPlacement freq nodes keys) := by
  unfold computeArenaPlacement
  split
  · next hempty =>
    refine ⟨nodup_nil, by simp, by simp, ?_, by simp, fun n hn _ k hk => by simp at hk⟩
    rcases hempty with rfl | rfl <;> simp
  have hperm := perm_insertionSort (fun a b => freq.sortKey a ≤ freq.sortKey b) keys
  have hnodes := perm_insertionSort (fun a b : ArenaPlacementNode => a.node ≤ b.node) nodes
  have horder := hperm.nodup_iff.2 hkeys
  have hsorted := (pairwise_insertionSort
    (fun a b => freq.sortKey a ≤ freq.sortKey b) keys).and horder
  have hbefore := hsorted.imp (S := freq.Before)
    fun hab => lt_of_le_of_ne hab.1 fun heq => hab.2 (sortKey_inj freq heq)
  have h := packing_of_stages ((hnodes.map (·.node)).nodup_iff.2 hids) horder hbefore rfl
  exact ⟨h.once, fun p hp => by simpa only [hperm.mem_iff, hnodes.mem_iff] using h.known p hp,
    fun n hn => h.capacity n (hnodes.mem_iff.2 hn),
    h.placed.trans (by rw [hperm.length_eq, (hnodes.map _).sum_eq]),
    fun n hn hb k hk k' hk' hno => h.hbm n (hnodes.mem_iff.2 hn) hb k hk k'
      (hperm.mem_iff.2 hk') fun m hm => hno m (hnodes.mem_iff.1 hm),
    fun n hn hb k hk k' hk' => h.ddr n (hnodes.mem_iff.2 hn) hb k hk k' (hperm.mem_iff.2 hk')⟩

/-- The experts of a later layer are fetched more often. -/
def secondLayerHot : ArenaFreqTable ℕ := ⟨fun k => some (k.layerIdx + 1)⟩

/-- The HBM node gets the hottest expert, and the other node those of the first layer. -/
theorem arena_placement_two :
    computeArenaPlacement secondLayerHot [⟨0, 2, false⟩, ⟨1, 1, true⟩]
        [⟨0, 0⟩, ⟨1, 1⟩, ⟨0, 1⟩, ⟨1, 0⟩] = [(⟨1, 0⟩, 1), (⟨0, 0⟩, 0), (⟨0, 1⟩, 0)] ∧
      ArenaPacking secondLayerHot [⟨0, 0⟩, ⟨1, 1⟩, ⟨0, 1⟩, ⟨1, 0⟩] [⟨0, 2, false⟩, ⟨1, 1, true⟩]
        (computeArenaPlacement secondLayerHot [⟨0, 2, false⟩, ⟨1, 1, true⟩]
          [⟨0, 0⟩, ⟨1, 1⟩, ⟨0, 1⟩, ⟨1, 0⟩]) :=
  ⟨by decide, arena_placement secondLayerHot (by decide) (by decide)⟩

/-- **What is left over may be fetched more often**: of two layers it is the second. -/
theorem hotter_key_unplaced :
    computeArenaPlacement secondLayerHot [⟨0, 1, false⟩] [⟨0, 0⟩, ⟨1, 0⟩] = [(⟨0, 0⟩, 0)] ∧
      secondLayerHot.atKey ⟨0, 0⟩ < secondLayerHot.atKey ⟨1, 0⟩ := by
  decide

/-- What a list is sorted to by an order that tells its elements apart is a matter of what it
holds. -/
theorem insertionSort_congr {α : Type*} {r : α → α → Prop} [DecidableRel r] [Std.Total r]
    [IsTrans α r] {l l' : List α} (h : l.Perm l') (hr : ∀ a ∈ l, ∀ b ∈ l, r a b → r b a → a = b) :
    l.insertionSort r = l'.insertionSort r := by
  refine ((perm_insertionSort r l).trans (h.trans (perm_insertionSort r l').symm)).eq_of_pairwise
    (fun a b ha hb => ?_) (pairwise_insertionSort _ _) (pairwise_insertionSort _ _)
  exact hr a ((mem_insertionSort _).1 ha) b (h.mem_iff.2 ((mem_insertionSort _).1 hb))

/-- **The placement is a matter of what is listed**, not of the order of the lists or of how a sort
treats ties. -/
theorem computeArenaPlacement_perm (freq : ArenaFreqTable F) {keys keys' : List ExpertKey}
    {nodes nodes' : List ArenaPlacementNode} (hids : (nodes.map (·.node)).Nodup)
    (hkeys : keys.Perm keys') (hnodes : nodes.Perm nodes') :
    computeArenaPlacement freq nodes keys = computeArenaPlacement freq nodes' keys' := by
  have horder := insertionSort_congr (r := fun a b => freq.sortKey a ≤ freq.sortKey b) hkeys
    fun _ _ _ _ hab hba => sortKey_inj freq (le_antisymm hab hba)
  have hsorted := insertionSort_congr (r := fun a b => a.node ≤ b.node) hnodes
    fun _ ha _ hb hab hba => inj_on_of_nodup_map hids ha hb (le_antisymm hab hba)
  unfold computeArenaPlacement
  simp only [horder, hsorted, ← length_eq_zero_iff, hkeys.length_eq, hnodes.length_eq]

theorem computeArenaPlacement_perm_two :
    computeArenaPlacement secondLayerHot [⟨0, 1, false⟩, ⟨1, 1, true⟩] [⟨0, 0⟩, ⟨1, 0⟩] =
      computeArenaPlacement secondLayerHot [⟨1, 1, true⟩, ⟨0, 1, false⟩] [⟨1, 0⟩, ⟨0, 0⟩] :=
  computeArenaPlacement_perm secondLayerHot (by decide) (.swap ..) (.swap ..)

end LayerStorm.Memory
