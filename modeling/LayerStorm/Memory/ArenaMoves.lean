import LayerStorm.Memory.ArenaLocation

/-!
# What an operation of the arena does to the slots

For users of the arena that keep state per slot, the effect of an operation on the
assignment of slots to keys: a touch, a pin or a loading mark leaves it alone
(`SameSlots`), a reserve places one key on a node where it was not and may evict one
key that is not in use (`Placed`), and the phases of a migration add the target and
drop the source.
-/

namespace LayerStorm.Memory

open Lib
open PinnedArena ArenaConfig NodeArena NodeInv Option

variable {K : Type} [DecidableEq K]

variable {a : NodeArena K} {r : NodeArena.Reserved K}

/-! ### Effects -/

/-- The slot of a key on a node. -/
def PinnedArena.slotOf (s : PinnedArena K) (n : ℕ) (k : K) : Option ℕ :=
  (s.arenas n).index.lookup k

/-- Is the key ready on the node? -/
def PinnedArena.readyOf (s : PinnedArena K) (n : ℕ) (k : K) : Bool := (s.arenas n).isReady k

/-- A key whose slot at its location is in use. -/
def Anchored (s : PinnedArena K) (k : K) : Prop :=
  ∀ n st, s.location k = some n → s.view k n = some st → st.Busy

/-- No slot changes hands and no key becomes ready or unready. -/
structure SameSlots (s s' : PinnedArena K) : Prop where
  slot : ∀ n k, s'.slotOf n k = s.slotOf n k
  ready : ∀ n k, s'.readyOf n k = s.readyOf n k
  location : ∀ k, s'.location k = s.location k

/-- The key is placed in slot `i` of node `n`, not ready, and the key `evicted` makes room;
everything else stays. -/
structure Placed (cfg : ArenaConfig K) (s s' : PinnedArena K) (key : K) (n i : ℕ)
    (evicted : Option K) : Prop where
  node : n ∈ cfg.nodes
  slot : s'.slotOf n key = some i
  notReady : s'.readyOf n key = false
  fresh : s.slotOf n key = none
  evicted_ne : evicted ≠ some key
  evicted_slot : ∀ k, evicted = some k → s'.slotOf n k = none
  evicted_idle : ∀ k, evicted = some k → ¬ Anchored s k
  others : ∀ m k, ¬ (m = n ∧ (k = key ∨ evicted = some k)) →
    s'.slotOf m k = s.slotOf m k ∧ s'.readyOf m k = s.readyOf m k
  locations : ∀ k, k ≠ key → evicted ≠ some k → s'.location k = s.location k

variable {cfg : ArenaConfig K} {s s' s'' : PinnedArena K} {key : K} {n : ℕ}

namespace SameSlots

theorem refl (s : PinnedArena K) : SameSlots s s := ⟨fun _ _ => rfl, fun _ _ => rfl, fun _ => rfl⟩

theorem trans (h : SameSlots s s') (h' : SameSlots s' s'') : SameSlots s s'' :=
  ⟨fun n k => (h'.slot n k).trans (h.slot n k), fun n k => (h'.ready n k).trans (h.ready n k),
    fun k => (h'.location k).trans (h.location k)⟩

theorem of_eq (ha : s'.arenas = s.arenas) (hl : s'.location = s.location) : SameSlots s s' := by
  refine ⟨?_, ?_, ?_⟩
  · intro n k
    unfold slotOf
    rw [ha]
  · intro n k
    unfold readyOf
    rw [ha]
  · intro k
    rw [hl]

theorem setArena {a : NodeArena K} (hindex : a.index = (s.arenas a.node).index)
    (hready : ∀ k, a.isReady k = (s.arenas a.node).isReady k) : SameSlots s (s.setArena a) := by
  refine ⟨?_, ?_, fun _ => rfl⟩
  · intro n k
    unfold slotOf
    rw [setArena_arenas]
    by_cases hn : n = a.node
    · rw [if_pos hn, hindex, hn]
    · rw [if_neg hn]
  · intro n k
    unfold readyOf
    rw [setArena_arenas]
    by_cases hn : n = a.node
    · rw [if_pos hn, hready, hn]
    · rw [if_neg hn]

end SameSlots

variable {f : Slot K → Slot K}

theorem isReady_modifyEntry (h : NodeInv a) (hf : ∀ s, (f s).ready = s.ready) (k : K) :
    (a.modifyEntry key f).isReady k = a.isReady k := by
  unfold NodeArena.isReady
  rw [h.entry_modifyEntry]
  by_cases hk : k = key
  · rw [if_pos hk, hk, any_map]
    congr 1
    funext s
    exact hf s
  · rw [if_neg hk]

section

variable (h : ArenaInv cfg s)
include h

theorem sameSlots_onRouted {gpu : Option ℕ} (hf : ∀ s, (f s).ready = s.ready)
    {g : NodeArena K → NodeArena K × List (Call K)} (hg : ∀ a, (g a).1 = a.modifyEntry key f) :
    SameSlots s (cfg.onRouted s key gpu g).1 := by
  unfold onRouted
  split
  · exact SameSlots.refl s
  rename_i a ha
  obtain ⟨n, _, rfl, _⟩ := h.routed ha
  rw [hg]
  apply SameSlots.setArena
  · rw [index_modifyEntry, node_modifyEntry, h.node]
  · intro k
    rw [isReady_modifyEntry (h.inv n) hf, node_modifyEntry, h.node]

theorem sameSlots_acquireInflight (key : K) : SameSlots s (cfg.acquireInflight s key) :=
  sameSlots_onRouted h (f := fun s => { s with inflight := s.inflight + 1 }) (fun _ => rfl)
    fun _ => rfl

theorem sameSlots_releaseInflight (key : K) : SameSlots s (cfg.releaseInflight s key) :=
  sameSlots_onRouted h (f := fun s => { s with inflight := s.inflight - 1 }) (fun _ => rfl)
    fun _ => rfl

theorem sameSlots_markLoading (key : K) (gpu : Option ℕ) :
    SameSlots s (cfg.markLoading s key gpu).1 :=
  sameSlots_onRouted h (f := fun s => { s with loading := true }) (fun _ => rfl)
    fun a => fst_markLoading a key

theorem sameSlots_clearLoading (key : K) (gpu : Option ℕ) :
    SameSlots s (cfg.clearLoading s key gpu).1 :=
  sameSlots_onRouted h (f := fun s => { s with loading := false }) (fun _ => rfl)
    fun a => fst_clearLoading a key

end

theorem isReady_touch (h : NodeInv a) (key k : K) : (a.touch key).isReady k = a.isReady k := by
  rw [isReady_eq, isReady_eq, h.status_touch]

theorem sameSlots_touch (h : ArenaInv cfg s) (key : K) : SameSlots s (cfg.touch s key) := by
  unfold ArenaConfig.touch
  split
  · exact SameSlots.refl s
  rename_i a ha
  obtain ⟨n, _, _, rfl⟩ := ArenaConfig.locatedArena_some ha
  apply SameSlots.setArena
  · rw [NodeInv.index_touch, NodeInv.node_touch, h.node]
  · intro k
    rw [isReady_touch (h.inv n), NodeInv.node_touch, h.node]

/-! ### Reserving -/

variable {k : K}

theorem isReady_reserve (h : NodeInv a) (hr : a.reserve key = some r) (hk : k ≠ key)
    (hev : r.evicted ≠ some k) :
    r.arena.isReady k = a.isReady k := by
  rw [isReady_eq, isReady_eq, h.status_reserve hr, if_neg hk, if_neg hev]

theorem placed_placeOn (h : ArenaInv cfg s) (hn : n ∈ cfg.nodes) (hloc : s.location key = none)
    {p : ℕ × ℕ} {calls : List (Call K)} (hp : placeOn s key n = some (s', p, calls)) :
    ∃ i ev, p = (n, i) ∧ calls = [.onReuse n i] ∧ Placed cfg s s' key n i ev ∧
      s'.location key = some n ∧ ((s.arenas n).hasFreeSlot → ev = none) := by
  unfold placeOn at hp
  rw [map_eq_some_iff] at hp
  obtain ⟨r, hr, heq⟩ := hp
  simp only [Prod.mk.injEq] at heq
  obtain ⟨rfl, rfl, rfl⟩ := heq
  have hnode : r.arena.node = n := by rw [node_reserve hr, h.node]
  have hnone := h.lookup_none hloc hn
  have hcalls : r.calls = [.onReuse n r.slot] := by
    rcases reserve_cases hr with ⟨hlk, _⟩ | ⟨_, _, _, _, _, _, heq⟩
    · rw [hnone] at hlk
      cases hlk
    · rw [heq, h.node]
  have hslot : ∀ m k, (((s.setArena r.arena).dropEvicted r.evicted).setLocation key
      (some n)).slotOf m k = if m = n then r.arena.index.lookup k else s.slotOf m k := by
    intro m k
    unfold slotOf
    rw [setLocation_arenas, dropEvicted_arenas, setArena_arenas, hnode]
    split <;> rfl
  have hready : ∀ m k, (((s.setArena r.arena).dropEvicted r.evicted).setLocation key
      (some n)).readyOf m k = if m = n then r.arena.isReady k else s.readyOf m k := by
    intro m k
    unfold readyOf
    rw [setLocation_arenas, dropEvicted_arenas, setArena_arenas, hnode]
    split <;> rfl
  have hevne : r.evicted ≠ some key := fun hev => ((h.inv n).evicted_reserve hr hev).1 rfl
  refine ⟨r.slot, r.evicted, rfl, hcalls, ⟨hn, ?_, ?_, hnone, hevne, ?_, ?_, ?_, ?_⟩, ?_, ?_⟩
  · rw [hslot, if_pos rfl, lookup_reserve hr, if_pos rfl]
  · rw [hready, if_pos rfl, isReady_eq, (h.inv n).status_reserve hr, if_pos rfl,
      (h.inv n).status_eq_none.2 hnone]
    rfl
  · intro k hev
    have hk : k ≠ key := ((h.inv n).evicted_reserve hr hev).1
    rw [hslot, if_pos rfl, lookup_reserve hr, if_neg hk, if_pos hev]
  · intro k hev hanchored
    obtain ⟨_, st, hst, hl, h0⟩ := (h.inv n).evicted_reserve hr hev
    have hlock := (h.key k).loc_of_not_loading hn hst hl
    rcases hanchored n st hlock hst with hload | hin
    · rw [hl] at hload
      cases hload
    · omega
  · intro m k hne
    rw [hslot, hready]
    by_cases hm : m = n
    · subst hm
      push Not at hne
      obtain ⟨hk, hev⟩ := hne rfl
      rw [if_pos rfl, if_pos rfl, lookup_reserve hr, if_neg hk, if_neg hev,
        isReady_reserve (h.inv m) hr hk hev]
      exact ⟨rfl, rfl⟩
    · rw [if_neg hm, if_neg hm]
      exact ⟨rfl, rfl⟩
  · intro k hk hev
    rw [setLocation_location, if_neg hk, dropEvicted_location, if_neg hev]
    rfl
  · rw [setLocation_location, if_pos rfl]
  · exact fun hfree => (h.inv n).evicted_none hfree hr

/-- What a reserve can do: nothing, hand out the slot that the key has already, or place it. -/
inductive ReserveEffect (cfg : ArenaConfig K) (s : PinnedArena K) (key : K) (mayEvict : Prop) :
    PinnedArena K × Option (ℕ × ℕ) × List (Call K) → Prop
  /-- There is no slot to give. -/
  | refused {s' : PinnedArena K} : SameSlots s s' → ReserveEffect cfg s key mayEvict (s', none, [])
  /-- The key has a slot already. -/
  | held {s' : PinnedArena K} {n i : ℕ} : SameSlots s s' → n ∈ cfg.nodes → s.location key = some n →
      s.slotOf n key = some i → ReserveEffect cfg s key mayEvict (s', some (n, i), [])
  /-- The key is placed. -/
  | placed {s' : PinnedArena K} {n i : ℕ} {ev : Option K} :
      s.location key = none → Placed cfg s s' key n i ev → s'.location key = some n →
      (¬ mayEvict → ev = none) →
      ReserveEffect cfg s key mayEvict (s', some (n, i), [.onReuse n i])

theorem reserveLocated_spec (h : ArenaInv cfg s) (ha : cfg.locatedArena s key = some a)
    (mayEvict : Prop) :
    ReserveEffect cfg s key mayEvict (reserveLocated s key a) := by
  obtain ⟨n, hloc, hn, rfl⟩ := locatedArena_some ha
  unfold reserveLocated
  split
  · rename_i r hr
    obtain ⟨st, hst⟩ := isSome_iff_exists.1 ((h.key key).located n hloc).2
    have hst' : (s.arenas n).status key = some st := hst
    rcases reserve_cases hr with ⟨hlk, heq⟩ | ⟨hnone, _⟩
    · rw [heq, h.node]
      refine .held ?_ hn hloc hlk
      apply SameSlots.setArena
      · rw [index_touch, node_touch, h.node]
      · intro k
        rw [isReady_touch (h.inv n), node_touch, h.node]
    · rw [(h.inv n).status_eq_none.2 hnone] at hst'
      cases hst'
  · exact .refused (SameSlots.refl s)

theorem reserveForFill_spec (h : ArenaInv cfg s) (key : K) (gpu : Option ℕ) (extendOnly : Bool) :
    ReserveEffect cfg s key (extendOnly = false) (cfg.reserveForFill s key gpu extendOnly) := by
  unfold reserveForFill
  split
  · rename_i a ha
    exact reserveLocated_spec h ha _
  rename_i hnone
  have hloc := h.location_of_locatedArena hnone
  have h' : ArenaInv cfg (cfg.fillCandidates s key gpu).2 := h.congr rfl rfl
  have hticks : SameSlots s (cfg.fillCandidates s key gpu).2 := SameSlots.of_eq rfl rfl
  have hback : ∀ {s' n i ev}, Placed cfg (cfg.fillCandidates s key gpu).2 s' key n i ev →
      Placed cfg s s' key n i ev := fun hp =>
    { hp with }
  simp only
  split
  · -- a candidate with a free slot
    rename_i s' p calls hp
    obtain ⟨n, hn, hok, hp⟩ := ArenaInv.placeFirst_ok hp
    obtain ⟨i, ev, rfl, rfl, hplaced, hloc', hfree⟩ :=
      placed_placeOn h' (ArenaInv.mem_fillCandidates hn) hloc hp
    exact .placed hloc (hback hplaced) hloc' fun _ => hfree hok
  · split
    · exact .refused hticks
    rename_i hextend
    split
    · rename_i s' p calls hp
      obtain ⟨n, hn, _, hp⟩ := ArenaInv.placeFirst_ok hp
      obtain ⟨i, ev, rfl, rfl, hplaced, hloc', _⟩ :=
        placed_placeOn h' (ArenaInv.mem_fillCandidates hn) hloc hp
      exact .placed hloc (hback hplaced) hloc' fun hne => absurd (by simpa using hextend) hne
    · exact .refused hticks

theorem reserveOnNode_spec (h : ArenaInv cfg s) (key : K) (n : ℕ) :
    ReserveEffect cfg s key False (cfg.reserveOnNode s key n) := by
  unfold reserveOnNode
  split
  · rename_i a ha
    exact reserveLocated_spec h ha _
  rename_i hnone
  have hloc := h.location_of_locatedArena hnone
  split
  · rename_i hn
    split
    · rename_i s' p calls hp
      obtain ⟨i, ev, rfl, rfl, hplaced, hloc', hfree⟩ := placed_placeOn h hn.1 hloc hp
      exact .placed hloc hplaced hloc' fun _ => hfree hn.2
    · exact .refused (SameSlots.refl s)
  · exact .refused (SameSlots.refl s)

/-! ### Dropping, adopting and readying a key -/

/-- The key leaves node `n`; everything else stays. -/
structure Dropped (s s' : PinnedArena K) (key : K) (n : ℕ) : Prop where
  slot : s'.slotOf n key = none
  others : ∀ m k, ¬ (m = n ∧ k = key) →
    s'.slotOf m k = s.slotOf m k ∧ s'.readyOf m k = s.readyOf m k
  locations : ∀ k, k ≠ key → s'.location k = s.location k

theorem isReady_evict {a' : NodeArena K} (h : NodeInv a) (he : a.evict key = some a')
    (hk : k ≠ key) : a'.isReady k = a.isReady k := by
  rw [isReady_eq, isReady_eq, h.status_evict he, if_neg hk]

theorem evictKey_spec (h : ArenaInv cfg s) (key : K) : SameSlots s (cfg.evictKey s key).1 ∨
      (¬ Anchored s key ∧ ∃ n, Dropped s (cfg.evictKey s key).1 key n) := by
  unfold evictKey
  split
  · exact .inl (SameSlots.refl s)
  rename_i a ha
  obtain ⟨n, hloc, _, rfl⟩ := locatedArena_some ha
  split
  · exact .inl (SameSlots.refl s)
  rename_i a' he
  have hnode : a'.node = n := by rw [node_evict he, h.node]
  refine .inr ⟨?_, n, ?_, ?_, ?_⟩
  · intro hanchored
    obtain ⟨st, hst, hl, h0⟩ := evictable_of_evict he
    rcases hanchored n st hloc hst with hload | hin
    · rw [hl] at hload
      cases hload
    · omega
  · unfold slotOf
    rw [setLocation_arenas, setArena_arenas, hnode, if_pos rfl, lookup_evict he, if_pos rfl]
  · intro m k hne
    unfold slotOf readyOf
    rw [setLocation_arenas, setArena_arenas, hnode]
    by_cases hm : m = n
    · subst hm
      have hk : k ≠ key := fun hk => hne ⟨rfl, hk⟩
      rw [if_pos rfl, lookup_evict he, if_neg hk, isReady_evict (h.inv m) he hk]
      exact ⟨rfl, rfl⟩
    · rw [if_neg hm]
      exact ⟨rfl, rfl⟩
  · intro k hk
    rw [setLocation_location, if_neg hk]
    rfl

/-- The key, held nowhere, takes the unoccupied slot `i` of node `n` and is ready there. -/
structure Adopted (cfg : ArenaConfig K) (s s' : PinnedArena K) (key : K) (n i : ℕ) : Prop where
  node : n ∈ cfg.nodes
  fresh : s.location key = none
  slot : s'.slotOf n key = some i
  ready : s'.readyOf n key = true
  others : ∀ m k, ¬ (m = n ∧ k = key) →
    s'.slotOf m k = s.slotOf m k ∧ s'.readyOf m k = s.readyOf m k
  locations : ∀ k, k ≠ key → s'.location k = s.location k

theorem adoptReady_spec (h : ArenaInv cfg s) (key : K) (n i : ℕ) :
    cfg.adoptReady s key n i = (s, false) ∨ ((cfg.adoptReady s key n i).2 = true ∧
        Adopted cfg s (cfg.adoptReady s key n i).1 key n i) := by
  unfold adoptReady
  split
  · exact .inl rfl
  rename_i a ha
  obtain ⟨hn, rfl⟩ := nodeArena_some ha
  split
  · exact .inl rfl
  rename_i hloc
  rw [not_isSome_iff_eq_none] at hloc
  split
  · exact .inl rfl
  rename_i a' had
  have hnode : a'.node = n := by rw [node_adoptSlot had, h.node]
  refine .inr ⟨rfl, hn, hloc, ?_, ?_, ?_, ?_⟩
  · unfold slotOf
    rw [setLocation_arenas, setArena_arenas, hnode, if_pos rfl, lookup_adoptSlot had, if_pos rfl]
  · unfold readyOf
    rw [setLocation_arenas, setArena_arenas, hnode, if_pos rfl,
      isReady_eq, (h.inv n).status_adoptSlot had, if_pos rfl]
    rfl
  · intro m k hne
    unfold slotOf readyOf
    rw [setLocation_arenas, setArena_arenas, hnode]
    by_cases hm : m = n
    · subst hm
      have hk : k ≠ key := fun hk => hne ⟨rfl, hk⟩
      rw [if_pos rfl, lookup_adoptSlot had, if_neg hk, isReady_eq,
        isReady_eq, (h.inv m).status_adoptSlot had, if_neg hk]
      exact ⟨rfl, rfl⟩
    · rw [if_neg hm]
      exact ⟨rfl, rfl⟩
  · intro k hk
    rw [setLocation_location, if_neg hk]
    rfl

theorem tryAdopt_spec (h : ArenaInv cfg s) (key : K) (hit : Option (ℕ × ℕ)) :
    (cfg.tryAdopt s key hit).2 = false ∨
      ∃ n i, hit = some (n, i) ∧ Adopted cfg s (cfg.tryAdopt s key hit).1 key n i := by
  unfold tryAdopt
  split
  · exact .inl rfl
  rename_i n i
  split
  · exact .inl rfl
  split
  · exact .inl rfl
  rcases adoptReady_spec h key n i with heq | ⟨_, hadopted⟩
  · rw [heq]
    exact .inl rfl
  · exact .inr ⟨n, i, rfl, hadopted⟩

/-- The key becomes ready in its slot `i` of node `n`. -/
structure Readied (s s' : PinnedArena K) (key : K) (n : ℕ) : Prop where
  ready : s'.readyOf n key = true
  slots : ∀ m k, s'.slotOf m k = s.slotOf m k
  others : ∀ m k, ¬ (m = n ∧ k = key) → s'.readyOf m k = s.readyOf m k
  locations : ∀ k, s'.location k = s.location k

theorem isReady_markReady (h : NodeInv a) (hk : k ≠ key) :
    (a.markReady key).1.isReady k = a.isReady k := by
  rw [NodeInv.fst_markReady]
  unfold NodeArena.isReady
  rw [h.entry_modifyEntry, if_neg hk]

variable {i : ℕ}

theorem NodeInv.isReady_markReady (h : NodeInv a) (hlk : a.index.lookup key = some i) :
    (a.markReady key).1.isReady key = true := by
  rw [NodeInv.fst_markReady]
  unfold NodeArena.isReady
  rw [h.entry_modifyEntry, if_pos rfl, any_map]
  obtain ⟨e, he, _⟩ := (h.repr key i).1 hlk
  unfold NodeArena.entry
  rw [hlk, bind_some, he]
  rfl

theorem markReady_spec (h : ArenaInv cfg s) (gpu : Option ℕ) (hloc : s.location key = some n)
    (hslot : s.slotOf n key = some i) (hready : s.readyOf n key = false) :
    Readied s (cfg.markReady s key gpu).1 key n ∧
      (cfg.markReady s key gpu).2 = [.postFill key n i, .onLoadReady n i key] := by
  have hlk : (s.arenas n).index.lookup key = some i := hslot
  have hrdy : (s.arenas n).isReady key = false := hready
  have hnode : ((s.arenas n).markReady key).1.node = n := by
    rw [NodeInv.node_markReady, h.node]
  unfold ArenaConfig.markReady ArenaConfig.onRouted
  rw [h.routed_of_location hloc]
  refine ⟨⟨?_, ?_, ?_, fun _ => rfl⟩, ?_⟩
  · unfold PinnedArena.readyOf
    rw [PinnedArena.setArena_arenas, hnode, if_pos rfl, (h.inv n).isReady_markReady hlk]
  · intro m k
    unfold PinnedArena.slotOf
    rw [PinnedArena.setArena_arenas, hnode]
    by_cases hm : m = n
    · rw [if_pos hm, NodeInv.index_markReady, hm]
    · rw [if_neg hm]
  · intro m k hne
    unfold PinnedArena.readyOf
    rw [PinnedArena.setArena_arenas, hnode]
    by_cases hm : m = n
    · subst hm
      rw [if_pos rfl, isReady_markReady (h.inv m) fun hk => hne ⟨rfl, hk⟩]
    · rw [if_neg hm]
  · unfold NodeArena.markReady
    simp only [hlk, hrdy, h.node]
    rfl

theorem slot_of_ready (hready : s.readyOf n key = true) : ∃ i, s.slotOf n key = some i := by
  have hr : (s.arenas n).isReady key = true := hready
  unfold NodeArena.isReady NodeArena.entry at hr
  cases hlk : (s.arenas n).index.lookup key with
  | none =>
    rw [hlk] at hr
    cases hr
  | some i => exact ⟨i, hlk⟩

theorem resolve_eq (h : ArenaInv cfg s) (hloc : s.location key = some n)
    (hslot : s.slotOf n key = some i) (hready : s.readyOf n key = true) :
    cfg.resolve s key = some (n, i) := by
  have hlk : (s.arenas n).index.lookup key = some i := hslot
  have hr : (s.arenas n).isReady key = true := hready
  unfold NodeArena.isReady NodeArena.entry at hr
  rw [hlk, bind_some] at hr
  unfold ArenaConfig.resolve NodeArena.resolve
  rw [h.routed_of_location hloc, bind_some, hlk, filter_some, if_pos hr, map_some, h.node]

theorem resolve_spec (h : ArenaInv cfg s) (hr : cfg.resolve s key = some (n, i)) :
    s.location key = some n ∧ s.slotOf n key = some i ∧ s.readyOf n key = true := by
  have hsome : (cfg.resolve s key).isSome := by
    rw [hr]
    rfl
  rw [h.resolve_isSome, h.isReady_iff] at hsome
  obtain ⟨m, st, hloc, hst, hstatus⟩ := hsome
  have hst' : (s.arenas m).status key = some st := hst
  have hready : s.readyOf m key = true := by
    unfold readyOf
    rw [isReady_eq, hst']
    exact hstatus
  obtain ⟨j, hslot⟩ := slot_of_ready hready
  rw [resolve_eq h hloc hslot hready, some.injEq, Prod.mk.injEq] at hr
  obtain ⟨rfl, rfl⟩ := hr
  exact ⟨hloc, hslot, hready⟩

/-! ### Migration -/

/-- The key is placed on the target of a migration, beside its location. -/
structure Begun (cfg : ArenaConfig K) (s s' : PinnedArena K) (key : K) (target i : ℕ) : Prop where
  node : target ∈ cfg.nodes
  source : ∃ n, n ≠ target ∧ s.location key = some n ∧ s.readyOf n key = true
  fresh : s.slotOf target key = none
  slot : s'.slotOf target key = some i
  notReady : s'.readyOf target key = false
  loading : (s'.arenas target).isLoading key = true
  others : ∀ m k, ¬ (m = target ∧ k = key) →
    s'.slotOf m k = s.slotOf m k ∧ s'.readyOf m k = s.readyOf m k
  locations : ∀ k, s'.location k = s.location k

theorem readyOf_of_view {m : ℕ} {k : K} (hview : s'.view k m = s.view k m) :
    s'.readyOf m k = s.readyOf m k := by
  unfold readyOf
  rw [isReady_eq, isReady_eq]
  exact congrArg _ hview

theorem readyOf_of_some {m : ℕ} {k : K} {st : Status} (hst : s.view k m = some st) :
    s.readyOf m k = st.ready := by
  have hst' : (s.arenas m).status k = some st := hst
  unfold readyOf
  rw [isReady_eq, hst', any_some]

theorem migrateBegin_spec (h : ArenaInv cfg s) (key : K) (target : ℕ) :
    (∃ s', SameSlots s s' ∧ cfg.migrateBegin s key target = (s', none, [])) ∨
    ∃ s' i, Begun cfg s s' key target i ∧ cfg.migrateBegin s key target =
      (s', some (target, i), [.onReuse target i, .onLoadStart target i key]) := by
  rcases h.migrateBegin_cases key target with ⟨s', hs, heq⟩ | ⟨s', n, st, i, hb, heq⟩
  · refine .inl ⟨s', ⟨?_, fun m k => readyOf_of_view (hs.status k m), ?_⟩, heq⟩
    · intro m k
      unfold slotOf
      rw [hs.index]
    · exact congrFun hs.location
  have htarget := hb.migrated.view target
  rw [if_neg (Ne.symm hb.ne), if_pos rfl] at htarget
  refine .inr ⟨s', i, ⟨hb.mem, ⟨n, hb.ne, hb.located, ?_⟩, ?_, hb.slot, ?_, ?_, ?_, ?_⟩, heq⟩
  · rw [readyOf_of_some hb.status, hb.ready]
  · exact (h.inv target).status_eq_none.1 hb.fresh
  · rw [readyOf_of_some htarget]
  · have htarget' : (s'.arenas target).status key = some ⟨false, true, 0⟩ := htarget
    rw [isLoading_eq, htarget', any_some]
  · intro m k hne
    by_cases hk : k = key
    · subst hk
      by_cases hn : m = n
      · subst hn
        have hsource := (hb.migrated.view m).trans (if_pos rfl)
        unfold slotOf
        rw [hb.index, readyOf_of_some hsource, readyOf_of_some hb.status]
        exact ⟨rfl, rfl⟩
      · unfold slotOf readyOf
        rw [hb.migrated.others m hn fun ht => hne ⟨ht, rfl⟩]
        exact ⟨rfl, rfl⟩
    · exact ⟨(hb.migrated.same hk m).2, readyOf_of_view (hb.migrated.same hk m).1⟩
  · exact congrFun hb.location

/-- The key moves from its location to the target, where it becomes ready. -/
structure Committed (cfg : ArenaConfig K) (s s' : PinnedArena K) (key : K) (n target : ℕ) :
    Prop where
  target_mem : target ∈ cfg.targets s key
  only : ∀ m ∈ cfg.targets s key, m = target
  source : s.location key = some n
  slot : s'.slotOf target key = s.slotOf target key
  ready : s'.readyOf target key = true
  gone : s'.slotOf n key = none
  others : ∀ m k, ¬ (k = key ∧ (m = target ∨ m = n)) →
    s'.slotOf m k = s.slotOf m k ∧ s'.readyOf m k = s.readyOf m k
  location : s'.location key = some target
  locations : ∀ k, k ≠ key → s'.location k = s.location k

theorem migrateCommit_spec (h : ArenaInv cfg s) {target : ℕ} (hne : s.location key ≠ some target) :
    cfg.migrateCommit s key target = (s, .retry, []) ∨
    ∃ s' n i, Committed cfg s s' key n target ∧ s.slotOf target key = some i ∧
      cfg.migrateCommit s key target =
        (s', .committed, [.postFill key target i, .onLoadReady target i key]) := by
  rcases h.migrateCommit_cases hne with heq | ⟨s', n, st, i, hc, heq⟩
  · exact .inl heq
  have hmem : target ∈ cfg.targets s key := by
    unfold targets
    rw [hc.located]
    exact hc.mem
  have honly : ∀ m ∈ cfg.targets s key, m = target := by
    have hle := (h.key key).pinned n st hc.located hc.status
    exact fun m hm => Finset.card_le_one.1 (le_trans hle hc.pins) m hm target hmem
  have htarget := hc.migrated.view target
  rw [if_neg (Ne.symm hc.ne), if_pos rfl] at htarget
  refine .inr ⟨s', n, i, ⟨hmem, honly, hc.located, ?_, ?_, ?_, ?_, hc.location, ?_⟩, hc.slot, heq⟩
  · unfold slotOf
    rw [hc.index]
  · rw [readyOf_of_some htarget]
  · exact hc.migrated.source.inv.status_eq_none.1 ((hc.migrated.view n).trans (if_pos rfl))
  · intro m k hnot
    by_cases hk : k = key
    · subst hk
      unfold slotOf readyOf
      rw [hc.migrated.others m (fun hn => hnot ⟨rfl, .inr hn⟩) fun ht => hnot ⟨rfl, .inl ht⟩]
      exact ⟨rfl, rfl⟩
    · exact ⟨(hc.migrated.same hk m).2, readyOf_of_view (hc.migrated.same hk m).1⟩
  · exact hc.migrated.locations

end LayerStorm.Memory
