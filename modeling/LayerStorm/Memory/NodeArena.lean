import Mathlib
import LayerStorm.Lib.Map

/-!
# The pinned expert arena of one NUMA node

`PinnedNodeArena` cuts a page-locked region of one node into fixed expert slots.
A slot is reserved for a key, filled, and marked ready; while a GPU copies from it
it is pinned by an in-flight count, and while an asynchronous read writes into it
it is marked loading.  A hash index maps the keys that are resident to their
slots.  When no slot is free, `reserve` takes the least recently used slot that is
neither pinned nor loading.

The arena calls two collaborators: the persistence layer, which keeps one record
per slot, and the post-fill hook, which rewrites the bytes of a slot that becomes
ready.  What it asks of them is recorded as a list of calls, in the order in which
they are made.
-/

namespace LayerStorm.Memory

open Lib List Option

/-! ### Data model -/

structure Slot (K : Type) where
  key : Option K
  ready : Bool
  loading : Bool
  lruTick : ℕ
  inflight : ℕ
  deriving DecidableEq

/-- A slot nothing has been put into. -/
def Slot.empty {K : Type} : Slot K := ⟨none, false, false, 0, 0⟩

/-- The arena of the node `node`. -/
structure NodeArena (K : Type) where
  node : ℕ
  slots : List (Slot K)
  index : Map K ℕ
  lruClock : ℕ

/-- A call the arena makes: `onReuse`, `onLoadStart` and `onLoadReady` go to the
persistence layer, `postFill` is the hook run on a slot's bytes. -/
inductive Call (K : Type)
  | onReuse (node slot : ℕ)
  | onLoadStart (node slot : ℕ) (key : K)
  | onLoadReady (node slot : ℕ) (key : K)
  | postFill (key : K) (node slot : ℕ)
  deriving DecidableEq

variable {K : Type} [DecidableEq K]

namespace NodeArena

/-- An arena of `numSlots` unoccupied slots. -/
def init (node numSlots : ℕ) : NodeArena K :=
  ⟨node, List.replicate numSlots Slot.empty, ∅, 0⟩

def entry (a : NodeArena K) (key : K) : Option (Slot K) :=
  (a.index.lookup key).bind fun i => a.slots[i]?

/-- `resident`: does the key occupy a slot? -/
def resident (a : NodeArena K) (key : K) : Bool := (a.index.lookup key).isSome

def isReady (a : NodeArena K) (key : K) : Bool := (a.entry key).any fun s => s.ready

def isLoading (a : NodeArena K) (key : K) : Bool := (a.entry key).any fun s => s.loading

/-- `inflight`: the in-flight count of a key's slot, 0 if it has none. -/
def inflight (a : NodeArena K) (key : K) : ℕ := ((a.entry key).map fun s => s.inflight).getD 0

/-- `resolve`: the slot of a key whose data is ready. -/
def resolve (a : NodeArena K) (key : K) : Option ℕ :=
  (a.index.lookup key).filter fun i => (a.slots[i]?).any fun s => s.ready

/-- `occupied`: the number of resident keys. -/
def occupied (a : NodeArena K) : ℕ := a.index.entries.length

def hasFreeSlot (a : NodeArena K) : Bool := a.occupied < a.slots.length

/-- `slot_occupied`; a slot out of range counts as occupied. -/
def slotOccupied (a : NodeArena K) (i : ℕ) : Bool :=
  match a.slots[i]? with
  | none => true
  | some s => s.key.isSome

/-! ### Operations -/

def modifyEntry (a : NodeArena K) (key : K) (f : Slot K → Slot K) : NodeArena K :=
  match a.index.lookup key with
  | none => a
  | some i => { a with slots := a.slots.modify i f }

/-- `touch`: the key becomes the most recently used one. -/
def touch (a : NodeArena K) (key : K) : NodeArena K :=
  if a.resident key then
    { a.modifyEntry key fun s => { s with lruTick := a.lruClock + 1 } with
      lruClock := a.lruClock + 1 }
  else a

/-- One round of the search for the least recently used slot that may be evicted. -/
def lruRound (best : Option (ℕ × ℕ)) (p : Slot K × ℕ) : Option (ℕ × ℕ) :=
  if p.1.inflight ≠ 0 ∨ p.1.loading then best
  else
    match best with
    | none => some (p.2, p.1.lruTick)
    | some (i, tick) => if p.1.lruTick < tick then some (p.2, p.1.lruTick) else some (i, tick)

/-- `pick_slot`: the first unoccupied slot, else the least recently used one that is
neither pinned nor loading. -/
def pickSlot (a : NodeArena K) : Option ℕ :=
  match a.slots.findIdx? fun s => s.key.isNone with
  | some i => some i
  | none => (a.slots.zipIdx.foldl lruRound none).map Prod.fst

/-- What `reserve` returns besides the slot: the arena afterwards, the key that was
evicted to make room and the calls made. -/
structure Reserved (K : Type) where
  arena : NodeArena K
  slot : ℕ
  evicted : Option K
  calls : List (Call K)

/-- `reserve`: the key's own slot, or a slot picked for it whose record is killed
before anything is written; nothing when every slot is pinned or loading. -/
def reserve (a : NodeArena K) (key : K) : Option (Reserved K) :=
  match a.index.lookup key with
  | some i => some ⟨a.touch key, i, none, []⟩
  | none =>
    match a.pickSlot with
    | none => none
    | some i =>
      let evicted := (a.slots[i]?).bind fun s => s.key
      let index :=
        match evicted with
        | some old => a.index.erase old
        | none => a.index
      some {
        arena := { a with
          slots := a.slots.modify i fun s =>
            { s with key := some key, ready := false, loading := false, lruTick := a.lruClock + 1 }
          index := index.insert key i
          lruClock := a.lruClock + 1 }
        slot := i
        evicted := evicted
        calls := [.onReuse a.node i] }

def markLoading (a : NodeArena K) (key : K) : NodeArena K × List (Call K) :=
  match a.index.lookup key with
  | none => (a, [])
  | some i => (a.modifyEntry key fun s => { s with loading := true }, [.onLoadStart a.node i key])

/-- `clear_loading`: the load failed and the slot's bytes are undefined. -/
def clearLoading (a : NodeArena K) (key : K) : NodeArena K × List (Call K) :=
  match a.index.lookup key with
  | none => (a, [])
  | some i => (a.modifyEntry key fun s => { s with loading := false }, [.onReuse a.node i])

/-- `mark_ready`: on the transition to ready the hook is run on the slot, and then
the record is published. -/
def markReady (a : NodeArena K) (key : K) : NodeArena K × List (Call K) :=
  match a.index.lookup key with
  | none => (a, [])
  | some i =>
    (a.modifyEntry key fun s => { s with ready := true, loading := false },
      if a.isReady key then [] else [.postFill key a.node i, .onLoadReady a.node i key])

/-- `adopt_slot`: occupy a slot whose bytes are known to be the key's. -/
def adoptSlot (a : NodeArena K) (key : K) (i : ℕ) : Option (NodeArena K) :=
  if a.slotOccupied i || a.resident key then none
  else
    some { a with
      slots := a.slots.modify i fun s =>
        { s with key := some key, ready := true, loading := false, lruTick := a.lruClock + 1 }
      index := a.index.insert key i
      lruClock := a.lruClock + 1 }

/-- `evict`: give up a key's slot; refused while the slot is loading or pinned. -/
def evict (a : NodeArena K) (key : K) : Option (NodeArena K) :=
  match a.entry key with
  | none => none
  | some s =>
    if s.loading ∨ s.inflight ≠ 0 then none
    else
      some { a.modifyEntry key fun s => { s with key := none, ready := false } with
        index := a.index.erase key }

def acquireInflight (a : NodeArena K) (key : K) : NodeArena K :=
  a.modifyEntry key fun s => { s with inflight := s.inflight + 1 }

/-- `release_inflight`; an underflow is undone. -/
def releaseInflight (a : NodeArena K) (key : K) : NodeArena K :=
  a.modifyEntry key fun s => { s with inflight := s.inflight - 1 }

end NodeArena

/-! ### What the arena holds for a key -/

/-- The flags and the count of a slot. -/
structure Status where
  ready : Bool
  loading : Bool
  inflight : ℕ
  deriving DecidableEq

def Slot.status (s : Slot K) : Status := ⟨s.ready, s.loading, s.inflight⟩

namespace NodeArena

def status (a : NodeArena K) (key : K) : Option Status := (a.entry key).map Slot.status

theorem isReady_eq (a : NodeArena K) (key : K) :
    a.isReady key = (a.status key).any fun s => s.ready := by
  unfold isReady status
  rw [Option.any_map]
  rfl

theorem isLoading_eq (a : NodeArena K) (key : K) :
    a.isLoading key = (a.status key).any fun s => s.loading := by
  unfold isLoading status
  rw [Option.any_map]
  rfl

theorem inflight_eq (a : NodeArena K) (key : K) :
    a.inflight key = ((a.status key).map fun s => s.inflight).getD 0 := by
  unfold inflight status
  rw [Option.map_map]
  rfl

omit [DecidableEq K] in
theorem lruRound_spec {slots : List (Slot K)} {l : List (Slot K × ℕ)}
    (hl : ∀ p ∈ l, slots[p.2]? = some p.1) {best : Option (ℕ × ℕ)} {i tick : ℕ}
    (hbest : ∀ j t, best = some (j, t) →
      ∃ s, slots[j]? = some s ∧ s.inflight = 0 ∧ s.loading = false)
    (h : l.foldl lruRound best = some (i, tick)) :
    ∃ s, slots[i]? = some s ∧ s.inflight = 0 ∧ s.loading = false := by
  induction l generalizing best with
  | nil => exact hbest i tick h
  | cons p l ih =>
    refine ih (fun q hq => hl q (mem_cons_of_mem _ hq)) ?_ h
    intro j t hround
    unfold lruRound at hround
    split at hround
    · exact hbest j t hround
    rename_i hfree
    have hp : ∃ s, slots[p.2]? = some s ∧ s.inflight = 0 ∧ s.loading = false := by
      refine ⟨p.1, hl p mem_cons_self, ?_, ?_⟩
      · by_contra hne
        exact hfree (.inl hne)
      · by_contra hne
        exact hfree (.inr (by simpa using hne))
    split at hround
    · cases hround
      exact hp
    split at hround
    · cases hround
      exact hp
    · exact hbest j t hround

omit [DecidableEq K] in
theorem evictable_of_pickSlot {a : NodeArena K} {i : ℕ} (h : a.pickSlot = some i) :
    ∃ s, a.slots[i]? = some s ∧ (s.key = none ∨ (s.inflight = 0 ∧ s.loading = false)) := by
  unfold pickSlot at h
  split at h
  · rename_i j hj
    cases h
    obtain ⟨hlt, hnone, _⟩ := findIdx?_eq_some_iff_getElem.1 hj
    exact ⟨a.slots[i], getElem?_eq_getElem hlt, .inl (isNone_iff_eq_none.1 hnone)⟩
  · rw [map_eq_some_iff] at h
    obtain ⟨⟨j, tick⟩, hfold, rfl⟩ := h
    obtain ⟨s, hs, hfree⟩ := lruRound_spec (fun p hp => mem_zipIdx_iff_getElem?.mp hp)
      (fun _ _ hb => by cases hb) hfold
    exact ⟨s, hs, .inr hfree⟩

end NodeArena

/-! ### The invariant -/

/-- The index and the slot table are inverse to each other, and an unoccupied slot is
at rest. -/
structure NodeInv (a : NodeArena K) : Prop where
  repr : ∀ key i, a.index.lookup key = some i ↔ ∃ s, a.slots[i]? = some s ∧ s.key = some key
  /-- Nobody reads or fills an unoccupied slot. -/
  idle : ∀ (i : ℕ) (s : Slot K), a.slots[i]? = some s → s.key = none →
    s.ready = false ∧ s.loading = false ∧ s.inflight = 0

namespace NodeInv

variable {a : NodeArena K} {key : K} {i : ℕ} {s : Slot K}

theorem init (node numSlots : ℕ) : NodeInv (NodeArena.init node numSlots : NodeArena K) where
  repr := by
    intro key i
    simp only [NodeArena.init, getElem?_replicate]
    constructor
    · intro h
      cases h
    · rintro ⟨s, hs, hk⟩
      split at hs
      · cases hs
        cases hk
      · cases hs
  idle := by
    intro i s hs _
    simp only [NodeArena.init, getElem?_replicate] at hs
    split at hs
    · cases hs
      exact ⟨rfl, rfl, rfl⟩
    · cases hs

section

variable (h : NodeInv a)
include h

theorem lookup_of_slot (hs : a.slots[i]? = some s) (hk : s.key = some key) :
    a.index.lookup key = some i :=
  (h.repr key i).2 ⟨s, hs, hk⟩

theorem slot_of_lookup (hk : a.index.lookup key = some i) :
    ∃ s, a.slots[i]? = some s ∧ s.key = some key ∧ a.entry key = some s := by
  obtain ⟨s, hs, hkey⟩ := (h.repr key i).1 hk
  refine ⟨s, hs, hkey, ?_⟩
  simp [NodeArena.entry, hk, hs]

theorem status_eq_none : a.status key = none ↔ a.index.lookup key = none := by
  constructor
  · intro hst
    by_contra hne
    obtain ⟨i, hi⟩ := ne_none_iff_exists'.1 hne
    obtain ⟨s, _, _, he⟩ := h.slot_of_lookup hi
    simp [NodeArena.status, he] at hst
  · intro hlk
    simp [NodeArena.status, NodeArena.entry, hlk]

theorem resident_iff : a.resident key = true ↔ (a.status key).isSome := by
  unfold NodeArena.resident
  cases hlk : a.index.lookup key with
  | none => simp [h.status_eq_none.2 hlk]
  | some i =>
    have hne : a.status key ≠ none := fun hn => by simp [h.status_eq_none.1 hn] at hlk
    simp [isSome_iff_ne_none, hne]

theorem resolve_isSome : (a.resolve key).isSome = a.isReady key := by
  unfold NodeArena.resolve NodeArena.isReady NodeArena.entry
  cases hlk : a.index.lookup key with
  | none => rfl
  | some i =>
    obtain ⟨s, hs, _, _⟩ := h.slot_of_lookup hlk
    cases hr : s.ready <;> simp [hs, hr, Option.filter]

/-! ### Rewriting a key's slot -/

theorem key_unique {k k' : K} (hk : a.index.lookup k = some i) (hk' : a.index.lookup k' = some i) :
    k = k' := by
  obtain ⟨s, hs, hkey⟩ := (h.repr k i).1 hk
  obtain ⟨s', hs', hkey'⟩ := (h.repr k' i).1 hk'
  rw [hs, some.injEq] at hs'
  subst hs'
  rw [hkey, some.injEq] at hkey'
  exact hkey'

end

theorem index_modifyEntry (a : NodeArena K) (key : K) (f : Slot K → Slot K) :
    (a.modifyEntry key f).index = a.index := by
  unfold NodeArena.modifyEntry
  split <;> rfl

theorem node_modifyEntry (a : NodeArena K) (key : K) (f : Slot K → Slot K) :
    (a.modifyEntry key f).node = a.node := by
  unfold NodeArena.modifyEntry
  split <;> rfl

variable {f : Slot K → Slot K}

theorem modifyEntry (h : NodeInv a) (key : K) (hf : ∀ s, (f s).key = s.key) :
    NodeInv (a.modifyEntry key f) := by
  unfold NodeArena.modifyEntry
  split
  · exact h
  rename_i i hi
  have hslot : ∀ j : ℕ, ((a.slots.modify i f)[j]?).map Slot.key = (a.slots[j]?).map Slot.key := by
    intro j
    rw [getElem?_modify]
    cases a.slots[j]? with
    | none => rfl
    | some s => by_cases hij : i = j <;> simp [hij, hf]
  constructor
  · intro k j
    rw [h.repr k j]
    have hj := hslot j
    constructor
    · rintro ⟨s, hs, hk⟩
      rw [hs, map_some, map_eq_some_iff] at hj
      obtain ⟨s', hs', hkey⟩ := hj
      exact ⟨s', hs', hkey.trans hk⟩
    · rintro ⟨s, hs, hk⟩
      rw [hs, map_some, eq_comm, map_eq_some_iff] at hj
      obtain ⟨s', hs', hkey⟩ := hj
      exact ⟨s', hs', hkey.trans hk⟩
  · intro j s hs hkey
    by_cases hij : i = j
    · -- the slot is occupied
      subst hij
      obtain ⟨s₀, hs₀, hk₀, _⟩ := h.slot_of_lookup hi
      rw [List.getElem?_modify_eq, hs₀, Option.map_eq_map, Option.map_some, some.injEq] at hs
      rw [← hs, hf, hk₀] at hkey
      cases hkey
    · rw [getElem?_modify_ne f a.slots hij] at hs
      exact h.idle j s hs hkey

theorem entry_modifyEntry (h : NodeInv a) (key k : K) (f : Slot K → Slot K) :
    (a.modifyEntry key f).entry k = if k = key then (a.entry key).map f else a.entry k := by
  by_cases hk : k = key
  · subst hk
    unfold NodeArena.modifyEntry
    cases hi : a.index.lookup k with
    | none | some i => simp [NodeArena.entry, hi]
  rw [if_neg hk]
  unfold NodeArena.modifyEntry
  cases hi : a.index.lookup key with
  | none => rfl
  | some i =>
    cases hj : a.index.lookup k with
    | none => simp [NodeArena.entry, hj]
    | some j =>
      have hij : i ≠ j := by
        rintro rfl
        exact hk (h.key_unique hj hi)
      simp [NodeArena.entry, hj, getElem?_modify_ne f a.slots hij]

theorem status_modifyEntry (h : NodeInv a) (key k : K) {g : Status → Status}
    (hfg : ∀ s, (f s).status = g s.status) :
    (a.modifyEntry key f).status k = if k = key then (a.status key).map g else a.status k := by
  unfold NodeArena.status
  rw [h.entry_modifyEntry]
  by_cases hk : k = key
  · rw [if_pos hk, if_pos hk, Option.map_map, Option.map_map]
    congr 1
    funext s
    exact hfg s
  · rw [if_neg hk, if_neg hk]

/-! ### Occupying and vacating a slot -/

variable {index : Map K ℕ}

theorem occupy (h : NodeInv a) (hnew : a.index.lookup key = none) (hs : a.slots[i]? = some s)
    (hf : (f s).key = some key) (clock : ℕ)
    (hindex : ∀ k j, index.lookup k = some j ↔ a.index.lookup k = some j ∧ s.key ≠ some k) :
    NodeInv ({ a with slots := a.slots.modify i f, index := index.insert key i, lruClock := clock } :
      NodeArena K) := by
  constructor
  · intro k j
    simp only [Map.lookup_insert_iff, hindex, List.getElem?_modify]
    by_cases hij : i = j
    · subst hij
      simp only [hs, if_true, Option.map_eq_map, Option.map_some, Option.some.injEq]
      constructor
      · rintro (⟨rfl, _⟩ | ⟨_, hlk, hne⟩)
        · exact ⟨f s, rfl, hf⟩
        · obtain ⟨s', hs', hk'⟩ := (h.repr k i).1 hlk
          rw [hs, Option.some.injEq] at hs'
          subst hs'
          exact absurd hk' hne
      · rintro ⟨s', rfl, hk'⟩
        rw [hf, Option.some.injEq] at hk'
        exact .inl ⟨hk'.symm, trivial⟩
    · have hmap : ((fun x => if i = j then f x else x) <$> a.slots[j]?) = a.slots[j]? := by
        simp [hij]
      rw [hmap, ← h.repr k j]
      constructor
      · rintro (⟨_, heq⟩ | ⟨_, hlk, _⟩)
        · exact absurd heq hij
        · exact hlk
      · intro hlk
        refine .inr ⟨?_, hlk, ?_⟩
        · rintro rfl
          rw [hnew] at hlk
          cases hlk
        · intro hk
          have hi := h.lookup_of_slot hs hk
          rw [hlk, Option.some.injEq] at hi
          exact hij hi.symm
  · intro j t ht hkey
    by_cases hij : i = j
    · subst hij
      rw [List.getElem?_modify_eq, hs, Option.map_eq_map, Option.map_some, Option.some.injEq] at ht
      rw [← ht, hf] at hkey
      cases hkey
    · rw [List.getElem?_modify_ne f a.slots hij] at ht
      exact h.idle j t ht hkey

theorem status_occupy (h : NodeInv a) (hs : a.slots[i]? = some s) (clock : ℕ)
    (hindex : ∀ k j, index.lookup k = some j ↔ a.index.lookup k = some j ∧ s.key ≠ some k) (k : K) :
    ({ a with slots := a.slots.modify i f, index := index.insert key i, lruClock := clock } :
      NodeArena K).status k =
    if k = key then some (f s).status else if s.key = some k then none else a.status k := by
  simp only [NodeArena.status, NodeArena.entry]
  by_cases hk : k = key
  · subst hk
    simp [hs]
  rw [if_neg hk, AList.lookup_insert_ne hk]
  by_cases hold : s.key = some k
  · have hnone : index.lookup k = none := by
      by_contra hne
      obtain ⟨j, hj⟩ := ne_none_iff_exists'.1 hne
      exact ((hindex k j).1 hj).2 hold
    simp [hold, hnone]
  rw [if_neg hold]
  have hsame : index.lookup k = a.index.lookup k := by
    apply ext
    intro j
    rw [hindex]
    simp [hold]
  rw [hsame]
  cases hj : a.index.lookup k with
  | none => rfl
  | some j =>
    have hij : i ≠ j := by
      rintro rfl
      obtain ⟨s', hs', hk', _⟩ := h.slot_of_lookup hj
      rw [hs, some.injEq] at hs'
      exact hold (hs' ▸ hk')
    simp [getElem?_modify_ne f a.slots hij]

/-! ### The operations -/

theorem touch (h : NodeInv a) (key : K) : NodeInv (a.touch key) := by
  unfold NodeArena.touch
  split
  · have hm := h.modifyEntry key (f := fun s => { s with lruTick := a.lruClock + 1 }) fun _ => rfl
    exact ⟨hm.repr, hm.idle⟩
  · exact h

theorem index_touch (a : NodeArena K) (key : K) : (a.touch key).index = a.index := by
  unfold NodeArena.touch
  split
  · exact index_modifyEntry a key _
  · rfl

theorem status_touch (h : NodeInv a) (key k : K) : (a.touch key).status k = a.status k := by
  unfold NodeArena.touch
  split
  · have hst := h.status_modifyEntry key k (f := fun s => { s with lruTick := a.lruClock + 1 })
      (g := id) fun _ => rfl
    refine hst.trans ?_
    by_cases hk : k = key
    · rw [if_pos hk, hk, Option.map_id]
      rfl
    · rw [if_neg hk]
  · rfl

theorem node_touch (a : NodeArena K) (key : K) : (a.touch key).node = a.node := by
  unfold NodeArena.touch
  split
  · exact node_modifyEntry a key _
  · rfl

theorem reserve_cases {r : NodeArena.Reserved K} (hr : a.reserve key = some r) :
    (a.index.lookup key = some r.slot ∧ r = ⟨a.touch key, r.slot, none, []⟩) ∨
    (a.index.lookup key = none ∧ ∃ s, a.slots[r.slot]? = some s ∧
      (s.key = none ∨ (s.inflight = 0 ∧ s.loading = false)) ∧
      ∃ index : Map K ℕ,
        (∀ k j, index.lookup k = some j ↔ a.index.lookup k = some j ∧ s.key ≠ some k) ∧
        r = ⟨{ a with
            slots := a.slots.modify r.slot fun s =>
              { s with key := some key, ready := false, loading := false,
                       lruTick := a.lruClock + 1 }
            index := index.insert key r.slot
            lruClock := a.lruClock + 1 }, r.slot, s.key, [.onReuse a.node r.slot]⟩) := by
  unfold NodeArena.reserve at hr
  split at hr
  · rename_i i hi
    cases hr
    exact .inl ⟨hi, rfl⟩
  rename_i hnew
  split at hr
  · cases hr
  rename_i i hpick
  obtain ⟨s, hs, hfree⟩ := NodeArena.evictable_of_pickSlot hpick
  cases hr
  refine .inr ⟨hnew, s, hs, hfree, ?_⟩
  simp only [hs, bind_some]
  cases hkey : s.key with
  | none =>
    refine ⟨a.index, fun k j => ?_, rfl⟩
    simp
  | some old =>
    refine ⟨a.index.erase old, fun k j => ?_, rfl⟩
    rw [Map.lookup_erase_iff]
    constructor
    · rintro ⟨hne, hlk⟩
      refine ⟨hlk, ?_⟩
      intro heq
      exact hne (some.inj heq).symm
    · rintro ⟨hlk, hne⟩
      refine ⟨?_, hlk⟩
      rintro rfl
      exact hne rfl

theorem fst_markLoading (a : NodeArena K) (key : K) :
    (a.markLoading key).1 = a.modifyEntry key fun s => { s with loading := true } := by
  unfold NodeArena.markLoading NodeArena.modifyEntry
  cases a.index.lookup key <;> rfl

theorem fst_clearLoading (a : NodeArena K) (key : K) :
    (a.clearLoading key).1 = a.modifyEntry key fun s => { s with loading := false } := by
  unfold NodeArena.clearLoading NodeArena.modifyEntry
  cases a.index.lookup key <;> rfl

theorem fst_markReady (a : NodeArena K) (key : K) : (a.markReady key).1 =
      a.modifyEntry key fun s => { s with ready := true, loading := false } := by
  unfold NodeArena.markReady NodeArena.modifyEntry
  cases a.index.lookup key <;> rfl

@[simp] theorem node_markLoading (a : NodeArena K) (key : K) :
    (a.markLoading key).1.node = a.node := by
  rw [fst_markLoading, node_modifyEntry]

@[simp] theorem index_markLoading (a : NodeArena K) (key : K) :
    (a.markLoading key).1.index = a.index := by
  rw [fst_markLoading, index_modifyEntry]

@[simp] theorem node_clearLoading (a : NodeArena K) (key : K) :
    (a.clearLoading key).1.node = a.node := by
  rw [fst_clearLoading, node_modifyEntry]

@[simp] theorem index_clearLoading (a : NodeArena K) (key : K) :
    (a.clearLoading key).1.index = a.index := by
  rw [fst_clearLoading, index_modifyEntry]

@[simp] theorem node_markReady (a : NodeArena K) (key : K) : (a.markReady key).1.node = a.node := by
  rw [fst_markReady, node_modifyEntry]

@[simp] theorem index_markReady (a : NodeArena K) (key : K) :
    (a.markReady key).1.index = a.index := by
  rw [fst_markReady, index_modifyEntry]

section Reserve

variable {r : NodeArena.Reserved K}

theorem reserve (h : NodeInv a) (hr : a.reserve key = some r) : NodeInv r.arena := by
  rcases reserve_cases hr with ⟨_, hr⟩ | ⟨hnew, s, hs, _, index, hindex, hr⟩
  · rw [hr]
    exact h.touch key
  · rw [hr]
    exact h.occupy hnew hs rfl _ hindex

theorem node_reserve (hr : a.reserve key = some r) : r.arena.node = a.node := by
  rcases reserve_cases hr with ⟨_, hr⟩ | ⟨_, s, _, _, index, _, hr⟩
  · rw [hr]
    exact node_touch a key
  · rw [hr]

theorem lookup_reserve (hr : a.reserve key = some r) (k : K) : r.arena.index.lookup k =
      if k = key then some r.slot else if r.evicted = some k then none
      else a.index.lookup k := by
  rcases reserve_cases hr with ⟨hlk, hr⟩ | ⟨hnew, s, hs, _, index, hindex, hr⟩
  · rw [hr]
    simp only [index_touch, reduceCtorEq, if_false]
    by_cases hk : k = key
    · rw [if_pos hk, hk, hlk]
    · rw [if_neg hk]
  · rw [hr]
    by_cases hk : k = key
    · subst hk
      simp
    rw [if_neg hk, AList.lookup_insert_ne hk]
    apply ext
    intro j
    rw [hindex]
    by_cases hold : s.key = some k <;> simp [hold]

theorem status_reserve (h : NodeInv a) (hr : a.reserve key = some r) (k : K) : r.arena.status k =
      if k = key then some ((a.status key).getD ⟨false, false, 0⟩)
      else if r.evicted = some k then none else a.status k := by
  rcases reserve_cases hr with ⟨hlk, hr⟩ | ⟨hnew, s, hs, hfree, index, hindex, hr⟩
  · rw [hr]
    simp only [h.status_touch, reduceCtorEq, if_false]
    by_cases hk : k = key
    · obtain ⟨st, hst⟩ : ∃ st, a.status key = some st := by
        apply ne_none_iff_exists'.1
        intro hn
        rw [h.status_eq_none, hlk] at hn
        cases hn
      rw [if_pos hk, hk, hst]
      rfl
    · rw [if_neg hk]
  · rw [hr]
    simp only [h.status_occupy hs _ hindex]
    have hzero : s.inflight = 0 := by
      rcases hfree with hn | ⟨h0, _⟩
      · exact (h.idle _ s hs hn).2.2
      · exact h0
    rw [h.status_eq_none.2 hnew]
    simp [Slot.status, hzero]

theorem evicted_reserve (h : NodeInv a) (hr : a.reserve key = some r) {k : K}
    (hk : r.evicted = some k) :
    k ≠ key ∧ ∃ st, a.status k = some st ∧ st.loading = false ∧ st.inflight = 0 := by
  rcases reserve_cases hr with ⟨_, hr⟩ | ⟨hnew, s, hs, hfree, index, _, hr⟩
  · rw [hr] at hk
    cases hk
  rw [hr] at hk
  have hkey : s.key = some k := hk
  have hlk := h.lookup_of_slot hs hkey
  refine ⟨?_, s.status, ?_, ?_⟩
  · rintro rfl
    rw [hnew] at hlk
    cases hlk
  · simp [NodeArena.status, NodeArena.entry, hlk, hs]
  · rcases hfree with hn | ⟨h0, hl⟩
    · rw [hkey] at hn
      cases hn
    · exact ⟨hl, h0⟩

/-- A node with fewer keys than slots has a free slot, so `reserve` evicts nothing. -/
theorem free_of_hasFreeSlot (h : NodeInv a) (hfree : a.hasFreeSlot) :
    ∃ i, (a.slots.findIdx? fun s => s.key.isNone) = some i := by
  by_contra hnone
  push Not at hnone
  have hall : a.slots.findIdx? (fun s => s.key.isNone) = none := by
    apply eq_none_iff_forall_ne_some.2
    exact hnone
  rw [findIdx?_eq_none_iff] at hall
  -- every slot has a key, and two slots do not have the same one
  have hkey : ∀ i : Fin a.slots.length, ∃ k, a.index.lookup k = some i.val := by
    intro i
    have hocc := hall a.slots[i] (getElem_mem i.isLt)
    rw [isNone_eq_false_iff, isSome_iff_exists] at hocc
    obtain ⟨k, hk⟩ := hocc
    exact ⟨k, h.lookup_of_slot (getElem?_eq_getElem i.isLt) hk⟩
  choose f hf using hkey
  have hinj : Function.Injective f := by
    intro i j hij
    have hi := hf i
    rw [hij, hf j, some.injEq] at hi
    exact Fin.ext hi.symm
  have hsub : (Finset.univ.image f) ⊆ a.index.keys.toFinset := by
    intro k hk
    rw [Finset.mem_image] at hk
    obtain ⟨i, _, rfl⟩ := hk
    rw [List.mem_toFinset]
    exact AList.mem_keys.1 (Map.mem_of_lookup (hf i))
  have hcard := Finset.card_le_card hsub
  rw [Finset.card_image_of_injective _ hinj, Finset.card_univ, Fintype.card_fin,
    toFinset_card_of_nodup a.index.keys_nodup] at hcard
  have hlen : a.index.keys.length = a.index.entries.length := by
    simp [AList.keys, keys]
  unfold NodeArena.hasFreeSlot NodeArena.occupied at hfree
  rw [decide_eq_true_eq] at hfree
  omega

theorem evicted_none (h : NodeInv a) (hfree : a.hasFreeSlot)
    (hr : a.reserve key = some r) : r.evicted = none := by
  obtain ⟨i, hi⟩ := h.free_of_hasFreeSlot hfree
  unfold NodeArena.reserve at hr
  split at hr
  · cases hr
    rfl
  unfold NodeArena.pickSlot at hr
  rw [hi] at hr
  simp only [some.injEq] at hr
  rw [← hr]
  obtain ⟨hlt, hnone, _⟩ := findIdx?_eq_some_iff_getElem.1 hi
  rw [getElem?_eq_getElem hlt]
  exact isNone_iff_eq_none.1 hnone

end Reserve

section Evict

variable {a' : NodeArena K}

theorem evict_cases (he : a.evict key = some a') :
    ∃ s, a.entry key = some s ∧ s.loading = false ∧ s.inflight = 0 ∧
      a' = { a.modifyEntry key fun s => { s with key := none, ready := false } with
        index := a.index.erase key } := by
  unfold NodeArena.evict at he
  split at he
  · cases he
  rename_i s hs
  split at he
  · cases he
  rename_i hfree
  push Not at hfree
  exact ⟨s, hs, by simpa using hfree.1, hfree.2, (some.inj he).symm⟩

theorem evict (h : NodeInv a) (he : a.evict key = some a') : NodeInv a' := by
  obtain ⟨s, hs, hl, h0, rfl⟩ := evict_cases he
  unfold NodeArena.entry at hs
  rw [Option.bind_eq_some_iff] at hs
  obtain ⟨i, hi, hs⟩ := hs
  simp only [NodeArena.modifyEntry, hi]
  constructor
  · intro k j
    simp only [Map.lookup_erase_iff, List.getElem?_modify]
    by_cases hij : i = j
    · subst hij
      simp only [hs, Option.map_eq_map, Option.map_some, Option.some.injEq]
      constructor
      · rintro ⟨hne, hlk⟩
        exact absurd (h.key_unique hlk hi) hne
      · rintro ⟨s', rfl, hk'⟩
        cases hk'
    have hmap : ((fun x => if i = j then ({ x with key := none, ready := false } : Slot K)
        else x) <$> a.slots[j]?) = a.slots[j]? := by
      simp [hij]
    rw [hmap, ← h.repr k j]
    constructor
    · rintro ⟨_, hlk⟩
      exact hlk
    · intro hlk
      refine ⟨?_, hlk⟩
      rintro rfl
      rw [hi, Option.some.injEq] at hlk
      exact hij hlk
  · intro j t ht hkey'
    simp only [List.getElem?_modify] at ht
    by_cases hij : i = j
    · subst hij
      simp only [hs, Option.map_eq_map, Option.map_some, Option.some.injEq] at ht
      rw [← ht]
      exact ⟨rfl, hl, h0⟩
    · have hmap : ((fun x => if i = j then ({ x with key := none, ready := false } : Slot K)
          else x) <$> a.slots[j]?) = a.slots[j]? := by
        simp [hij]
      rw [hmap] at ht
      exact h.idle j t ht hkey'

theorem node_evict (he : a.evict key = some a') : a'.node = a.node := by
  obtain ⟨s, _, _, _, rfl⟩ := evict_cases he
  exact node_modifyEntry a key _

theorem lookup_evict (he : a.evict key = some a') (k : K) :
    a'.index.lookup k = if k = key then none else a.index.lookup k := by
  obtain ⟨s, _, _, _, rfl⟩ := evict_cases he
  by_cases hk : k = key
  · rw [if_pos hk, hk]
    exact AList.lookup_erase _ _
  · rw [if_neg hk]
    exact AList.lookup_erase_ne hk

theorem status_evict (h : NodeInv a) (he : a.evict key = some a') (k : K) :
    a'.status k = if k = key then none else a.status k := by
  have hlk := lookup_evict he k
  have hinv := h.evict he
  by_cases hk : k = key
  · rw [if_pos hk] at hlk ⊢
    exact hinv.status_eq_none.2 hlk
  rw [if_neg hk] at hlk ⊢
  obtain ⟨s, _, _, _, rfl⟩ := evict_cases he
  have hentry := h.entry_modifyEntry key k fun s => { s with key := none, ready := false }
  rw [if_neg hk] at hentry
  unfold NodeArena.status
  rw [← hentry]
  unfold NodeArena.entry
  rw [hlk, index_modifyEntry]

theorem evictable_of_evict (he : a.evict key = some a') :
    ∃ st, a.status key = some st ∧ st.loading = false ∧ st.inflight = 0 := by
  obtain ⟨s, hs, hl, h0, _⟩ := evict_cases he
  exact ⟨s.status, by simp [NodeArena.status, hs], hl, h0⟩

theorem evict_isSome {st : Status} (hst : a.status key = some st) (hl : st.loading = false)
    (h0 : st.inflight = 0) : ∃ a', a.evict key = some a' := by
  unfold NodeArena.status at hst
  rw [map_eq_some_iff] at hst
  obtain ⟨s, hs, rfl⟩ := hst
  have hl' : s.loading = false := hl
  have h0' : s.inflight = 0 := h0
  unfold NodeArena.evict
  rw [hs]
  simp [hl', h0']

end Evict

section Adopt

variable {a' : NodeArena K}

theorem adoptSlot_cases (ha : a.adoptSlot key i = some a') :
    a.index.lookup key = none ∧ ∃ s, a.slots[i]? = some s ∧ s.key = none ∧ a' = { a with
        slots := a.slots.modify i fun s =>
          { s with key := some key, ready := true, loading := false, lruTick := a.lruClock + 1 }
        index := a.index.insert key i
        lruClock := a.lruClock + 1 } := by
  unfold NodeArena.adoptSlot at ha
  split at ha
  · cases ha
  rename_i hfree
  rw [Bool.or_eq_true, not_or] at hfree
  refine ⟨by simpa [NodeArena.resident] using hfree.2, ?_⟩
  have hocc := hfree.1
  unfold NodeArena.slotOccupied at hocc
  cases hs : a.slots[i]? with
  | none => simp [hs] at hocc
  | some s =>
    simp only [hs, not_isSome_iff_eq_none] at hocc
    exact ⟨s, rfl, hocc, (some.inj ha).symm⟩

theorem adoptSlot (h : NodeInv a) (ha : a.adoptSlot key i = some a') : NodeInv a' := by
  obtain ⟨hnew, s, hs, hkey, rfl⟩ := adoptSlot_cases ha
  exact h.occupy hnew hs rfl _ fun k j => by simp [hkey]

theorem node_adoptSlot (ha : a.adoptSlot key i = some a') : a'.node = a.node := by
  obtain ⟨_, s, _, _, rfl⟩ := adoptSlot_cases ha
  rfl

theorem lookup_adoptSlot (ha : a.adoptSlot key i = some a') (k : K) :
    a'.index.lookup k = if k = key then some i else a.index.lookup k := by
  obtain ⟨_, s, _, _, rfl⟩ := adoptSlot_cases ha
  by_cases hk : k = key
  · subst hk
    simp
  · rw [if_neg hk]
    exact AList.lookup_insert_ne hk

theorem status_adoptSlot (h : NodeInv a) (ha : a.adoptSlot key i = some a') (k : K) :
    a'.status k = if k = key then some ⟨true, false, 0⟩ else a.status k := by
  obtain ⟨_, s, hs, hkey, rfl⟩ := adoptSlot_cases ha
  rw [h.status_occupy hs _ fun k j => by simp [hkey]]
  simp [hkey, Slot.status, (h.idle _ s hs hkey).2.2]

end Adopt

end NodeInv

end LayerStorm.Memory
