import LayerStorm.Memory.PinnedArena

/-!
# The location invariant of the pinned arena

Seen from one key, the arena is a partial map from nodes to slot statuses and the
key's location.  The invariant of a key (`KeyInv`) says that the key is where its
location says, that any other node that holds it is the loading target of a running
migration whose source is ready, and that every running migration has its pin on the
source.  An operation changes the view of a key in one of a few ways, one lemma each;
the state invariant is the conjunction over all keys, together with the bijections of
the node arenas.

The source states some obligations of its callers: a commit or an abort belongs to a
begun migration, a release to an acquire, and a load is started on a slot that is not
ready.  `ArenaConfig.Contract` spells them out, and without them the index and the
arenas do come apart.
-/

namespace LayerStorm.Memory

open Lib
open PinnedArena ArenaConfig NodeInv Option

variable {K : Type} [DecidableEq K]

/-! ### The invariant of one key -/

/-- The nodes that hold a key without being its location. -/
def targetsOf (nodes : Finset ℕ) (view : ℕ → Option Status) (loc : Option ℕ) : Finset ℕ :=
  nodes.filter fun n => (view n).isSome ∧ loc ≠ some n

/-- The invariant of one key, of which `view n` is the status on node `n` and `loc` the
location. -/
structure KeyInv (nodes : Finset ℕ) (view : ℕ → Option Status) (loc : Option ℕ) : Prop where
  /-- The key is where its location says. -/
  located : ∀ n, loc = some n → n ∈ nodes ∧ (view n).isSome
  /-- Where it is besides, it is being copied to from a slot that is ready. -/
  held : ∀ n st, n ∈ nodes → view n = some st →
    loc = some n ∨ (st = ⟨false, true, 0⟩ ∧ ∃ m sm, loc = some m ∧ view m = some sm ∧ sm.ready)
  settled : ∀ n st, view n = some st → st.ready → st.loading = false
  /-- Every running migration pins the source. -/
  pinned : ∀ n st, loc = some n → view n = some st → (targetsOf nodes view loc).card ≤ st.inflight

namespace KeyInv

variable {nodes : Finset ℕ} {view view' : ℕ → Option Status} {loc : Option ℕ} {n : ℕ} {st : Status}

theorem mem_targetsOf :
    n ∈ targetsOf nodes view loc ↔ n ∈ nodes ∧ (view n).isSome ∧ loc ≠ some n := by
  simp [targetsOf]

theorem target (h : KeyInv nodes view loc) (hn : n ∈ targetsOf nodes view loc) :
    view n = some ⟨false, true, 0⟩ ∧ ∃ m sm, loc = some m ∧ view m = some sm ∧ sm.ready := by
  obtain ⟨hmem, hsome, hne⟩ := mem_targetsOf.1 hn
  obtain ⟨st, hst⟩ := isSome_iff_exists.1 hsome
  rcases h.held n st hmem hst with hloc | ⟨hst', hsrc⟩
  · exact absurd hloc hne
  · exact ⟨hst' ▸ hst, hsrc⟩

theorem absent (h : KeyInv nodes view none) (hn : n ∈ nodes) : view n = none := by
  by_contra hne
  obtain ⟨st, hst⟩ := ne_none_iff_exists'.1 hne
  rcases h.held n st hn hst with hloc | ⟨_, m, sm, hloc, _⟩
  · cases hloc
  · cases hloc

theorem loc_of_not_loading (h : KeyInv nodes view loc) (hn : n ∈ nodes) (hst : view n = some st)
    (hl : st.loading = false) : loc = some n := by
  rcases h.held n st hn hst with hloc | ⟨hst', _⟩
  · exact hloc
  · rw [hst'] at hl
    cases hl

theorem targets_eq_empty (h : KeyInv nodes view loc) (hloc : loc = some n) (hst : view n = some st)
    (h0 : st.inflight = 0) : targetsOf nodes view loc = ∅ := by
  rw [← Finset.card_eq_zero]
  have hle := h.pinned n st hloc hst
  omega

theorem unplaced : KeyInv nodes (fun _ => none) none := by
  constructor
  · intro n hn
    cases hn
  · intro n st _ hst
    cases hst
  · intro n st hst
    cases hst
  · intro n st hn
    cases hn

theorem settled_of {o : Option Status} (h : ∀ m sm, view m = some sm → sm.ready → sm.loading = false)
    (ho : ∀ sm, o = some sm → sm.ready → sm.loading = false)
    (hview : ∀ m, view' m = if m = n then o else view m) :
    ∀ m sm, view' m = some sm → sm.ready → sm.loading = false := by
  intro m sm hsm hr
  rw [hview] at hsm
  by_cases hmn : m = n
  · rw [if_pos hmn] at hsm
    exact ho sm hsm hr
  · rw [if_neg hmn] at hsm
    exact h m sm hsm hr

theorem enter (h : KeyInv nodes view none) (st : Status) (hn : n ∈ nodes) (hl : st.loading = false)
    (hview : ∀ m, view' m = if m = n then some st else view m) :
    KeyInv nodes view' (some n) := by
  have hself : view' n = some st := by rw [hview, if_pos rfl]
  have hother : ∀ m, m ∈ nodes → m ≠ n → view' m = none := by
    intro m hm hne
    rw [hview, if_neg hne]
    exact h.absent hm
  have hempty : targetsOf nodes view' (some n) = ∅ := by
    rw [Finset.eq_empty_iff_forall_notMem]
    intro m hm
    obtain ⟨hmem, hsome, hne⟩ := mem_targetsOf.1 hm
    rw [hother m hmem (fun heq => hne (by rw [heq]))] at hsome
    cases hsome
  constructor
  · rintro m heq
    cases heq
    exact ⟨hn, by simp [hself]⟩
  · intro m sm hm hsm
    by_cases hmn : m = n
    · exact .inl (by rw [hmn])
    · rw [hother m hm hmn] at hsm
      cases hsm
  · exact settled_of h.settled (fun sm hsm _ => some.inj hsm ▸ hl) hview
  · intro m sm _ _
    simp [hempty]

theorem leave (h : KeyInv nodes view loc) (hn : n ∈ nodes) (hst : view n = some st)
    (hl : st.loading = false) (h0 : st.inflight = 0)
    (hview : ∀ m, view' m = if m = n then none else view m) : KeyInv nodes view' none := by
  have hloc := h.loc_of_not_loading hn hst hl
  have hempty := h.targets_eq_empty hloc hst h0
  have hgone : ∀ m, m ∈ nodes → view' m = none := by
    intro m hm
    rw [hview]
    by_cases hmn : m = n
    · rw [if_pos hmn]
    rw [if_neg hmn]
    by_contra hne
    have hmem : m ∈ targetsOf nodes view loc :=
      mem_targetsOf.2 ⟨hm, isSome_iff_ne_none.2 hne, by
        rw [hloc, ne_eq, some.injEq]
        exact fun heq => hmn heq.symm⟩
    rw [hempty] at hmem
    cases hmem
  constructor
  · intro m hm
    cases hm
  · intro m sm hm hsm
    rw [hgone m hm] at hsm
    cases hsm
  · exact settled_of h.settled (fun sm hsm => by cases hsm) hview
  · intro m sm hm
    cases hm

theorem update (h : KeyInv nodes view (some n)) {st' : Status} (hst : view n = some st)
    (hready : st.ready → st'.ready) (hsettled : st'.ready → st'.loading = false)
    (hpin : (targetsOf nodes view (some n)).card ≤ st'.inflight)
    (hview : ∀ m, view' m = if m = n then some st' else view m) :
    KeyInv nodes view' (some n) := by
  have hself : view' n = some st' := by rw [hview, if_pos rfl]
  have htargets : targetsOf nodes view' (some n) = targetsOf nodes view (some n) := by
    ext m
    simp only [mem_targetsOf, hview]
    by_cases hmn : m = n
    · simp [hmn]
    · simp [hmn]
  constructor
  · rintro m heq
    cases heq
    exact ⟨(h.located n rfl).1, by simp [hself]⟩
  · intro m sm hm hsm
    by_cases hmn : m = n
    · exact .inl (by rw [hmn])
    rw [hview, if_neg hmn] at hsm
    rcases h.held m sm hm hsm with hloc | ⟨hsm', m', sm', hloc, hsm'', hr⟩
    · exact .inl hloc
    cases hloc
    rw [hst, some.injEq] at hsm''
    exact .inr ⟨hsm', n, st', rfl, hself, hready (hsm'' ▸ hr)⟩
  · exact settled_of h.settled (fun sm hsm => some.inj hsm ▸ hsettled) hview
  · intro m sm heq hsm
    cases heq
    rw [hself, some.injEq] at hsm
    rw [htargets, ← hsm]
    exact hpin

variable {t : ℕ}

theorem begin (h : KeyInv nodes view (some n)) (hst : view n = some st) (hready : st.ready)
    (hpin : (targetsOf nodes view (some n)).card < st.inflight) (ht : t ∈ nodes)
    (hfree : view t = none)
    (hview : ∀ m, view' m = if m = t then some ⟨false, true, 0⟩ else view m) :
    KeyInv nodes view' (some n) := by
  have htn : n ≠ t := by
    rintro rfl
    rw [hst] at hfree
    cases hfree
  have hself : view' n = some st := by rw [hview, if_neg htn, hst]
  have htargets : targetsOf nodes view' (some n) = insert t (targetsOf nodes view (some n)) := by
    ext m
    rw [Finset.mem_insert, mem_targetsOf, mem_targetsOf, hview]
    by_cases hmt : m = t
    · subst hmt
      simp [ht, htn]
    · simp [hmt]
  constructor
  · rintro m heq
    cases heq
    exact ⟨(h.located n rfl).1, by simp [hself]⟩
  · intro m sm hm hsm
    have hsrc : ∃ m' sm', (some n : Option ℕ) = some m' ∧ view' m' = some sm' ∧ sm'.ready :=
      ⟨n, st, rfl, hself, hready⟩
    rw [hview] at hsm
    by_cases hmt : m = t
    · rw [if_pos hmt, some.injEq] at hsm
      exact .inr ⟨hsm.symm, hsrc⟩
    rw [if_neg hmt] at hsm
    rcases h.held m sm hm hsm with hloc | ⟨hsm', _⟩
    · exact .inl hloc
    · exact .inr ⟨hsm', hsrc⟩
  · exact settled_of h.settled (fun sm hsm hr => by cases hsm; cases hr) hview
  · intro m sm heq hsm
    cases heq
    rw [hself, some.injEq] at hsm
    rw [htargets, ← hsm]
    have hins := Finset.card_insert_le t (targetsOf nodes view (some n))
    omega

theorem commit (h : KeyInv nodes view (some n)) (hst : view n = some st)
    (ht : t ∈ targetsOf nodes view (some n)) (hone : st.inflight ≤ 1) (hview : ∀ m, view' m =
      if m = n then none else if m = t then some ⟨true, false, 0⟩ else view m) :
    KeyInv nodes view' (some t) := by
  obtain ⟨htn, _, hne⟩ := mem_targetsOf.1 ht
  have hnt : t ≠ n := fun heq => hne (by rw [heq])
  have honly : ∀ m, m ∈ targetsOf nodes view (some n) → m = t := by
    have hle := h.pinned n st rfl hst
    have hcard : (targetsOf nodes view (some n)).card ≤ 1 := le_trans hle hone
    exact fun m hm => Finset.card_le_one.1 hcard m hm t ht
  have htarget : view' t = some ⟨true, false, 0⟩ := by
    rw [hview, if_neg hnt, if_pos rfl]
  have hgone : ∀ m, m ∈ nodes → m ≠ t → view' m = none := by
    intro m hm hmt
    rw [hview]
    by_cases hmn : m = n
    · rw [if_pos hmn]
    rw [if_neg hmn, if_neg hmt]
    by_contra hsome
    exact hmt (honly m (mem_targetsOf.2 ⟨hm, isSome_iff_ne_none.2 hsome, by
      rw [ne_eq, some.injEq]
      exact fun heq => hmn heq.symm⟩))
  constructor
  · rintro m heq
    cases heq
    exact ⟨htn, by simp [htarget]⟩
  · intro m sm hm hsm
    by_cases hmt : m = t
    · exact .inl (by rw [hmt])
    · rw [hgone m hm hmt] at hsm
      cases hsm
  · refine settled_of ?_ (fun sm hsm => by cases hsm) hview
    exact settled_of h.settled (fun sm hsm _ => by cases hsm; rfl) fun m => rfl
  · intro m sm _ _
    have hempty : targetsOf nodes view' (some t) = ∅ := by
      rw [Finset.eq_empty_iff_forall_notMem]
      intro m' hm'
      obtain ⟨hmem, hsome, hne'⟩ := mem_targetsOf.1 hm'
      rw [hgone m' hmem (fun heq => hne' (by rw [heq]))] at hsome
      cases hsome
    simp [hempty]

theorem abort (h : KeyInv nodes view (some n)) (hst : view n = some st)
    (ht : t ∈ targetsOf nodes view (some n)) (hview : ∀ m, view' m =
      if m = n then some { st with inflight := st.inflight - 1 }
      else if m = t then none else view m) :
    KeyInv nodes view' (some n) := by
  have hready : st.ready := by
    obtain ⟨_, m, sm, hloc, hsm, hr⟩ := h.target ht
    cases hloc
    rw [hst, some.injEq] at hsm
    exact hsm ▸ hr
  have hself : view' n = some { st with inflight := st.inflight - 1 } := by
    rw [hview, if_pos rfl]
  have htargets : targetsOf nodes view' (some n) = (targetsOf nodes view (some n)).erase t := by
    ext m
    rw [Finset.mem_erase, mem_targetsOf, mem_targetsOf, hview]
    by_cases hmn : m = n
    · simp [hmn]
    by_cases hmt : m = t
    · subst hmt
      simp [hmn]
    · simp [hmn, hmt]
  constructor
  · rintro m heq
    cases heq
    exact ⟨(h.located n rfl).1, by simp [hself]⟩
  · intro m sm hm hsm
    by_cases hmn : m = n
    · exact .inl (by rw [hmn])
    rw [hview, if_neg hmn] at hsm
    by_cases hmt : m = t
    · rw [if_pos hmt] at hsm
      cases hsm
    rw [if_neg hmt] at hsm
    rcases h.held m sm hm hsm with hloc | ⟨hsm', _⟩
    · exact .inl hloc
    · exact .inr ⟨hsm', n, _, rfl, hself, hready⟩
  · refine settled_of ?_ (fun sm hsm _ => by cases hsm; exact h.settled n st hst hready) hview
    exact settled_of h.settled (fun sm hsm => by cases hsm) fun m => rfl
  · intro m sm heq hsm
    cases heq
    rw [hself, some.injEq] at hsm
    rw [htargets, ← hsm, Finset.card_erase_of_mem ht]
    have hle := h.pinned n st rfl hst
    exact Nat.sub_le_sub_right hle 1

end KeyInv

/-! ### The invariant of the arena -/

def PinnedArena.view (s : PinnedArena K) (key : K) (n : ℕ) : Option Status :=
  (s.arenas n).status key

/-- The invariant: the node arenas are consistent, and so is every key. -/
structure ArenaInv (cfg : ArenaConfig K) (s : PinnedArena K) : Prop where
  node : ∀ n, (s.arenas n).node = n
  inv : ∀ n, NodeInv (s.arenas n)
  key : ∀ k, KeyInv cfg.nodes (s.view k) (s.location k)

variable {cfg : ArenaConfig K} {s : PinnedArena K} {key : K} {n : ℕ}

omit [DecidableEq K] in
@[simp] theorem PinnedArena.setArena_arenas (s : PinnedArena K) (a : NodeArena K) (n : ℕ) :
    (s.setArena a).arenas n = if n = a.node then a else s.arenas n := by
  simp [setArena, Function.update_apply]

omit [DecidableEq K] in
@[simp] theorem PinnedArena.setArena_location (s : PinnedArena K) (a : NodeArena K) :
    (s.setArena a).location = s.location := rfl

@[simp] theorem PinnedArena.setLocation_arenas (s : PinnedArena K) (k : K) (n : Option ℕ) :
    (s.setLocation k n).arenas = s.arenas := rfl

@[simp] theorem PinnedArena.setLocation_location (s : PinnedArena K) (k k' : K) (n : Option ℕ) :
    (s.setLocation k n).location k' = if k' = k then n else s.location k' := by
  simp [setLocation, Function.update_apply]

@[simp] theorem PinnedArena.dropEvicted_arenas (s : PinnedArena K) (e : Option K) :
    (s.dropEvicted e).arenas = s.arenas := by
  cases e <;> rfl

@[simp] theorem PinnedArena.dropEvicted_location (s : PinnedArena K) (e : Option K) (k : K) :
    (s.dropEvicted e).location k = if e = some k then none else s.location k := by
  cases e with
  | none => rfl
  | some old =>
    simp only [dropEvicted]
    by_cases hk : k = old
    · simp [hk]
    · simp [hk, Ne.symm hk]

theorem PinnedArena.setArena_view (s : PinnedArena K) (a : NodeArena K) (k : K) (n : ℕ) :
    (s.setArena a).view k n = if n = a.node then a.status k else s.view k n := by
  unfold view
  rw [setArena_arenas]
  split <;> rfl

theorem PinnedArena.view_setArena {a : NodeArena K} (hnode : a.node = n)
    (hst : a.status key = (s.arenas n).status key) : (s.setArena a).view key = s.view key := by
  funext m
  rw [setArena_view, hnode]
  by_cases hm : m = n
  · rw [if_pos hm, hst, hm]
    rfl
  · rw [if_neg hm]

@[simp] theorem PinnedArena.setLocation_view (s : PinnedArena K) (k : K) (n : Option ℕ) :
    (s.setLocation k n).view = s.view := rfl

@[simp] theorem PinnedArena.dropEvicted_view (s : PinnedArena K) (e : Option K) :
    (s.dropEvicted e).view = s.view := by
  cases e <;> rfl

variable {a : NodeArena K}

omit [DecidableEq K] in
theorem ArenaConfig.nodeArena_some (h : cfg.nodeArena s n = some a) :
    n ∈ cfg.nodes ∧ a = s.arenas n := by
  unfold nodeArena at h
  split at h
  · rename_i hn
    exact ⟨hn, (some.inj h).symm⟩
  · cases h

omit [DecidableEq K] in
theorem ArenaConfig.locatedArena_some (h : cfg.locatedArena s key = some a) :
    ∃ n, s.location key = some n ∧ n ∈ cfg.nodes ∧ a = s.arenas n := by
  unfold locatedArena at h
  rw [bind_eq_some_iff] at h
  obtain ⟨n, hloc, hn⟩ := h
  obtain ⟨hmem, ha⟩ := nodeArena_some hn
  exact ⟨n, hloc, hmem, ha⟩

namespace ArenaInv

theorem init (cfg : ArenaConfig K) (numSlots : ℕ → ℕ) :
    ArenaInv cfg (PinnedArena.init numSlots) where
  node := fun _ => rfl
  inv := fun n => NodeInv.init n (numSlots n)
  key := by
    intro k
    exact KeyInv.unplaced

variable {s' : PinnedArena K}

theorem congr (h : ArenaInv cfg s) (ha : s'.arenas = s.arenas) (hl : s'.location = s.location) :
    ArenaInv cfg s' := by
  have hview : s'.view = s.view := by
    funext k n
    unfold view
    rw [ha]
  refine ⟨?_, ?_, ?_⟩
  · rw [ha]
    exact h.node
  · rw [ha]
    exact h.inv
  · rw [hview, hl]
    exact h.key

theorem locatedArena_eq (h : ArenaInv cfg s) (hloc : s.location key = some n) :
    cfg.locatedArena s key = some (s.arenas n) := by
  unfold locatedArena nodeArena
  rw [hloc, bind_some, if_pos ((h.key key).located n hloc).1]

theorem location_of_locatedArena (h : ArenaInv cfg s) (hloc : cfg.locatedArena s key = none) :
    s.location key = none := by
  by_contra hne
  obtain ⟨n, hn⟩ := ne_none_iff_exists'.1 hne
  rw [h.locatedArena_eq hn] at hloc
  cases hloc

theorem lookup_none (h : ArenaInv cfg s) (hloc : s.location key = none) (hn : n ∈ cfg.nodes) :
    (s.arenas n).index.lookup key = none := by
  have hk := h.key key
  rw [hloc] at hk
  exact (h.inv n).status_eq_none.1 (hk.absent hn)

variable {a : NodeArena K} {gpu : Option ℕ}

theorem routed (h : ArenaInv cfg s) (hr : cfg.routedArena s key gpu = some a) :
    ∃ n, n ∈ cfg.nodes ∧ a = s.arenas n ∧
      (s.location key = some n ∨ (s.location key = none ∧ a.index.lookup key = none)) := by
  unfold routedArena at hr
  split at hr
  · rename_i b hb
    cases hr
    obtain ⟨n, hloc, hn, ha⟩ := locatedArena_some hb
    exact ⟨n, hn, ha, .inl hloc⟩
  rename_i hnone
  have hloc := h.location_of_locatedArena hnone
  have hfind : ∀ o : Option ℕ, o.bind (cfg.nodeArena s) = some a →
      ∃ n, n ∈ cfg.nodes ∧ a = s.arenas n := by
    intro o ho
    rw [bind_eq_some_iff] at ho
    obtain ⟨n, _, hn⟩ := ho
    exact ⟨n, nodeArena_some hn⟩
  obtain ⟨n, hn, ha⟩ : ∃ n, n ∈ cfg.nodes ∧ a = s.arenas n := by
    cases gpu with
    | some g | none => exact hfind _ hr
  refine ⟨n, hn, ha, .inr ⟨hloc, ?_⟩⟩
  rw [ha]
  exact h.lookup_none hloc hn

/-! ### Operations on a key's slot -/

theorem setArena (h : ArenaInv cfg s) (key : K) (hinv : NodeInv a)
    (hkey : KeyInv cfg.nodes ((s.setArena a).view key) (s.location key))
    (hother : ∀ k, k ≠ key → a.status k = (s.arenas a.node).status k) :
    ArenaInv cfg (s.setArena a) := by
  refine ⟨?_, ?_, ?_⟩
  · intro m
    rw [setArena_arenas]
    by_cases hm : m = a.node
    · rw [if_pos hm, hm]
    · rw [if_neg hm, h.node]
  · intro m
    rw [setArena_arenas]
    by_cases hm : m = a.node
    · rw [if_pos hm]
      exact hinv
    · rw [if_neg hm]
      exact h.inv m
  · intro k
    by_cases hk : k = key
    · rw [hk]
      exact hkey
    · rw [view_setArena rfl (hother k hk)]
      exact h.key k

theorem modifyRouted (h : ArenaInv cfg s) (f : Slot K → Slot K) (g : Status → Status)
    (hf : ∀ s, (f s).key = s.key) (hfg : ∀ s, (f s).status = g s.status)
    (hready : ∀ st, st.ready → (g st).ready)
    (hsettled : ∀ n st, s.location key = some n → s.view key n = some st →
      (g st).ready → (g st).loading = false)
    (hpin : ∀ n st, s.location key = some n → s.view key n = some st →
      (targetsOf cfg.nodes (s.view key) (s.location key)).card ≤ (g st).inflight)
    (hr : cfg.routedArena s key gpu = some a) :
    ArenaInv cfg (s.setArena (a.modifyEntry key f)) := by
  obtain ⟨n, hn, rfl, hloc | ⟨_, hlk⟩⟩ := h.routed hr
  · have hnode : ((s.arenas n).modifyEntry key f).node = n := by
      rw [NodeInv.node_modifyEntry, h.node]
    refine h.setArena key ((h.inv n).modifyEntry key hf) ?_ ?_
    · have hk := h.key key
      obtain ⟨st, hst⟩ := isSome_iff_exists.1 (hk.located n hloc).2
      have hset := hsettled n st hloc hst
      have hcard := hpin n st hloc hst
      rw [hloc] at hk hcard ⊢
      refine hk.update hst (hready st) hset hcard ?_
      intro m
      rw [PinnedArena.setArena_view, hnode]
      by_cases hm : m = n
      · rw [if_pos hm, if_pos hm, (h.inv n).status_modifyEntry key key hfg, if_pos rfl]
        have hst' : (s.arenas n).status key = some st := hst
        rw [hst', map_some]
      · rw [if_neg hm, if_neg hm]
    · intro k hk
      rw [hnode, (h.inv n).status_modifyEntry key k hfg, if_neg hk]
  · -- the key is not there, so nothing happens
    have hsame : (s.arenas n).modifyEntry key f = s.arenas n := by
      unfold NodeArena.modifyEntry
      rw [hlk]
    rw [hsame]
    refine h.congr ?_ rfl
    funext m
    rw [PinnedArena.setArena_arenas, h.node]
    split
    · rename_i hm
      rw [hm]
    · rfl

theorem rebuild (h : ArenaInv cfg s) (key : K) (hnode : ∀ n, (s'.arenas n).node = n)
    (hinv : ∀ n, NodeInv (s'.arenas n)) (hkey : KeyInv cfg.nodes (s'.view key) (s'.location key))
    (hother : ∀ k, k ≠ key → (∀ n, s'.view k n = s.view k n) ∧ s'.location k = s.location k) :
    ArenaInv cfg s' := by
  refine ⟨hnode, hinv, ?_⟩
  intro k
  by_cases hk : k = key
  · rw [hk]
    exact hkey
  · obtain ⟨hview, hloc⟩ := hother k hk
    rw [funext hview, hloc]
    exact h.key k

omit [DecidableEq K] in
theorem node_setArena (h : ∀ n, (s.arenas n).node = n) (a : NodeArena K) (n : ℕ) :
    ((s.setArena a).arenas n).node = n := by
  rw [setArena_arenas]
  by_cases hn : n = a.node
  · rw [if_pos hn, hn]
  · rw [if_neg hn, h]

theorem inv_setArena (h : ∀ n, NodeInv (s.arenas n)) (ha : NodeInv a) (n : ℕ) :
    NodeInv ((s.setArena a).arenas n) := by
  rw [setArena_arenas]
  by_cases hn : n = a.node
  · rw [if_pos hn]
    exact ha
  · rw [if_neg hn]
    exact h n

theorem reserved (h : ArenaInv cfg s) (hn : n ∈ cfg.nodes) {r : NodeArena.Reserved K}
    (hr : (s.arenas n).reserve key = some r) (ha : NodeInv a) (hnode : a.node = n)
    (hst : ∀ k, k ≠ key → a.status k = r.arena.status k)
    (harenas : s'.arenas = (s.setArena a).arenas)
    (hloc : ∀ k, k ≠ key → s'.location k = if r.evicted = some k then none else s.location k)
    (hkey : KeyInv cfg.nodes (s'.view key) (s'.location key)) : ArenaInv cfg s' := by
  have hview : ∀ k m, s'.view k m = if m = n then a.status k else s.view k m := by
    intro k m
    unfold view
    rw [harenas, setArena_arenas, hnode]
    split <;> rfl
  refine ⟨?_, ?_, ?_⟩
  · rw [harenas]
    exact node_setArena h.node a
  · rw [harenas]
    exact inv_setArena h.inv ha
  · intro k
    by_cases hk : k = key
    · rw [hk]
      exact hkey
    have hsk := (h.inv n).status_reserve hr k
    rw [if_neg hk, ← hst k hk] at hsk
    rw [hloc k hk]
    by_cases hev : r.evicted = some k
    · -- it made room
      rw [if_pos hev] at hsk ⊢
      obtain ⟨_, st, hst', hl, h0⟩ := (h.inv n).evicted_reserve hr hev
      refine (h.key k).leave hn hst' hl h0 ?_
      intro m
      rw [hview, hsk]
    · rw [if_neg hev] at hsk ⊢
      have hsame : s'.view k = s.view k := by
        funext m
        rw [hview, hsk]
        by_cases hm : m = n
        · rw [if_pos hm, hm]
          rfl
        · rw [if_neg hm]
      rw [hsame]
      exact h.key k

theorem placeOn (h : ArenaInv cfg s) (hn : n ∈ cfg.nodes)
    (hloc : s.location key = none ∨ s.location key = some n) {p : ℕ × ℕ} {calls : List (Call K)}
    (hp : ArenaConfig.placeOn s key n = some (s', p, calls)) :
    ArenaInv cfg s' := by
  unfold ArenaConfig.placeOn at hp
  rw [map_eq_some_iff] at hp
  obtain ⟨r, hr, heq⟩ := hp
  obtain rfl : ((s.setArena r.arena).dropEvicted r.evicted).setLocation key (some n) = s' :=
    congrArg Prod.fst heq
  have hnode : r.arena.node = n := by rw [NodeInv.node_reserve hr, h.node]
  refine h.reserved hn hr ((h.inv n).reserve hr) hnode (fun _ _ => rfl) ?_ ?_ ?_
  · rw [PinnedArena.setLocation_arenas, PinnedArena.dropEvicted_arenas]
  · intro k hk
    rw [PinnedArena.setLocation_location, if_neg hk, PinnedArena.dropEvicted_location,
      PinnedArena.setArena_location]
  · have hst := (h.inv n).status_reserve hr key
    rw [if_pos rfl] at hst
    rw [PinnedArena.setLocation_location, if_pos rfl, PinnedArena.setLocation_view,
      PinnedArena.dropEvicted_view]
    have hk := h.key key
    rcases hloc with hloc | hloc
    · -- it was nowhere
      rw [hloc] at hk
      have hnone : (s.arenas n).status key = none := hk.absent hn
      rw [hnone] at hst
      refine hk.enter ⟨false, false, 0⟩ hn rfl ?_
      intro m
      rw [PinnedArena.setArena_view, hnode, hst]
      rfl
    · -- it was here
      obtain ⟨st, hst'⟩ := isSome_iff_exists.1 (hk.located n hloc).2
      have hst'' : (s.arenas n).status key = some st := hst'
      rw [view_setArena hnode (by rw [hst, hst'']; rfl), ← hloc]
      exact hk

theorem placeFirst_ok {ok : NodeArena K → Bool} {r : PinnedArena K × (ℕ × ℕ) × List (Call K)} :
    ∀ {cands : List ℕ}, ArenaConfig.placeFirst ok s key cands = some r →
      ∃ n ∈ cands, ok (s.arenas n) = true ∧ ArenaConfig.placeOn s key n = some r := by
  intro cands
  induction cands with
  | nil =>
    intro h
    cases h
  | cons n rest ih =>
    intro h
    unfold ArenaConfig.placeFirst at h
    have hrest : ArenaConfig.placeFirst ok s key rest = some r →
        ∃ m ∈ n :: rest, ok (s.arenas m) = true ∧ ArenaConfig.placeOn s key m = some r := by
      intro hr
      obtain ⟨m, hm, hp⟩ := ih hr
      exact ⟨m, List.mem_cons_of_mem _ hm, hp⟩
    split at h
    · rename_i hok
      split at h
      · rename_i r' hp
        cases h
        exact ⟨n, List.mem_cons_self, hok, hp⟩
      · exact hrest h
    · exact hrest h

omit [DecidableEq K] in
theorem mem_fillCandidates (hn : n ∈ (cfg.fillCandidates s key gpu).1) : n ∈ cfg.nodes := by
  unfold fillCandidates at hn
  simp only at hn
  split at hn
  · simp only [List.mem_filter, decide_eq_true_eq] at hn
    exact hn.2
  rw [List.mem_append] at hn
  rcases hn with hn | hn
  · simp only [List.mem_filter, decide_eq_true_eq] at hn
    exact hn.2
  unfold spillCandidatesInOrder at hn
  simp only [List.mem_flatten, List.mem_map] at hn
  obtain ⟨l, ⟨g, _, rfl⟩, hn⟩ := hn
  rw [List.mem_mergeSort, List.mem_filter, decide_eq_true_eq] at hn
  exact hn.2.2

theorem reserveLocated (h : ArenaInv cfg s) (ha : cfg.locatedArena s key = some a) :
    ArenaInv cfg (reserveLocated s key a).1 := by
  obtain ⟨n, hloc, hn, rfl⟩ := locatedArena_some ha
  unfold reserveLocated
  split
  · rename_i r hr
    have hnode : r.arena.node = n := by rw [node_reserve hr, h.node]
    obtain ⟨st, hst⟩ := isSome_iff_exists.1 ((h.key key).located n hloc).2
    have hst' : (s.arenas n).status key = some st := hst
    -- the key is resident, so nothing is evicted
    have hsame : ∀ k, r.arena.status k = (s.arenas n).status k := by
      intro k
      rcases reserve_cases hr with ⟨_, heq⟩ | ⟨hnone, _⟩
      · rw [heq]
        exact (h.inv n).status_touch key k
      · rw [(h.inv n).status_eq_none.2 hnone] at hst'
        cases hst'
    refine h.setArena key ((h.inv n).reserve hr) ?_ ?_
    · rw [view_setArena hnode (hsame key)]
      exact h.key key
    · intro k _
      rw [hsame, hnode]
  · exact h

theorem reserve (h : ArenaInv cfg s) (key : K) : ArenaInv cfg (cfg.reserve s key).1 := by
  unfold ArenaConfig.reserve
  split
  · exact h
  rename_i a ha
  obtain ⟨n, hn, rfl, hloc⟩ := h.routed ha
  rw [h.node]
  split
  · rename_i s' p calls hp
    refine h.placeOn hn ?_ hp
    rcases hloc with hloc | ⟨hloc, _⟩
    · exact .inr hloc
    · exact .inl hloc
  · exact h

theorem reserveForFill (h : ArenaInv cfg s) (key : K) (gpu : Option ℕ) (extendOnly : Bool) :
    ArenaInv cfg (cfg.reserveForFill s key gpu extendOnly).1 := by
  unfold ArenaConfig.reserveForFill
  split
  · rename_i a ha
    exact h.reserveLocated ha
  rename_i hnone
  have hloc := h.location_of_locatedArena hnone
  -- the ticks of the spill nodes are all that the candidates change
  have h' : ArenaInv cfg (cfg.fillCandidates s key gpu).2 := h.congr rfl rfl
  have hplace : ∀ (ok : NodeArena K → Bool) s' p calls,
      ArenaConfig.placeFirst ok (cfg.fillCandidates s key gpu).2 key
        (cfg.fillCandidates s key gpu).1 = some (s', p, calls) → ArenaInv cfg s' := by
    intro ok s' p calls hp
    obtain ⟨n, hn, _, hp⟩ := placeFirst_ok hp
    exact h'.placeOn (mem_fillCandidates hn) (.inl hloc) hp
  simp only
  split
  · rename_i s' p calls hp
    exact hplace _ s' p calls hp
  split
  · exact h'
  split
  · rename_i s' p calls hp
    exact hplace _ s' p calls hp
  · exact h'

theorem reserveOnNode (h : ArenaInv cfg s) (key : K) (n : ℕ) :
    ArenaInv cfg (cfg.reserveOnNode s key n).1 := by
  unfold ArenaConfig.reserveOnNode
  split
  · rename_i a ha
    exact h.reserveLocated ha
  rename_i hnone
  split
  · rename_i hn
    split
    · rename_i s' p calls hp
      exact h.placeOn hn.1 (.inl (h.location_of_locatedArena hnone)) hp
    · exact h
  · exact h

theorem onRouted (h : ArenaInv cfg s) {f : NodeArena K → NodeArena K × List (Call K)}
    (hf : ∀ a, cfg.routedArena s key gpu = some a → ArenaInv cfg (s.setArena (f a).1)) :
    ArenaInv cfg (cfg.onRouted s key gpu f).1 := by
  unfold ArenaConfig.onRouted
  split
  · exact h
  · rename_i a ha
    exact hf a ha

theorem markLoading (h : ArenaInv cfg s) (gpu : Option ℕ)
    (hready : ∀ n st, s.location key = some n → s.view key n = some st → st.ready = false) :
    ArenaInv cfg (cfg.markLoading s key gpu).1 := by
  refine h.onRouted fun a ha => ?_
  rw [fst_markLoading]
  refine h.modifyRouted (fun s => { s with loading := true })
    (fun st => { st with loading := true }) (fun _ => rfl)
    (fun _ => rfl) (fun _ hr => hr) ?_ ?_ ha
  · intro n st hloc hst hr
    have hst' : st.ready = true := hr
    rw [hready n st hloc hst] at hst'
    cases hst'
  · intro n st hloc hst
    exact (h.key key).pinned n st hloc hst

theorem clearLoading (h : ArenaInv cfg s) (key : K) (gpu : Option ℕ) :
    ArenaInv cfg (cfg.clearLoading s key gpu).1 := by
  refine h.onRouted fun a ha => ?_
  rw [fst_clearLoading]
  exact h.modifyRouted (fun s => { s with loading := false })
    (fun st => { st with loading := false }) (fun _ => rfl)
    (fun _ => rfl) (fun _ hr => hr) (fun _ _ _ _ _ => rfl) (h.key key).pinned ha

theorem markReady (h : ArenaInv cfg s) (key : K) (gpu : Option ℕ) :
    ArenaInv cfg (cfg.markReady s key gpu).1 := by
  refine h.onRouted fun a ha => ?_
  rw [fst_markReady]
  exact h.modifyRouted (fun s => { s with ready := true, loading := false })
    (fun st => { st with ready := true, loading := false }) (fun _ => rfl)
    (fun _ => rfl) (fun _ _ => rfl) (fun _ _ _ _ _ => rfl) (h.key key).pinned ha

theorem acquireInflight (h : ArenaInv cfg s) (key : K) :
    ArenaInv cfg (cfg.acquireInflight s key) := by
  refine h.onRouted fun a ha => ?_
  refine h.modifyRouted (fun s => { s with inflight := s.inflight + 1 })
    (fun st => { st with inflight := st.inflight + 1 }) (fun _ => rfl)
    (fun _ => rfl) (fun _ hr => hr) (fun n st _ hst hr => (h.key key).settled n st hst hr) ?_ ha
  intro n st hloc hst
  exact le_trans ((h.key key).pinned n st hloc hst) (Nat.le_succ _)

theorem releaseInflight (h : ArenaInv cfg s)
    (hpin : ∀ n st, s.location key = some n → s.view key n = some st →
      (targetsOf cfg.nodes (s.view key) (s.location key)).card ≤ st.inflight - 1) :
    ArenaInv cfg (cfg.releaseInflight s key) := by
  refine h.onRouted fun a ha => ?_
  exact h.modifyRouted (fun s => { s with inflight := s.inflight - 1 })
    (fun st => { st with inflight := st.inflight - 1 }) (fun _ => rfl)
    (fun _ => rfl) (fun _ hr => hr) (fun n st _ hst hr => (h.key key).settled n st hst hr) hpin ha

theorem routed_of_location (h : ArenaInv cfg s) (hloc : s.location key = some n) (gpu : Option ℕ) :
    cfg.routedArena s key gpu = some (s.arenas n) := by
  unfold routedArena
  rw [h.locatedArena_eq hloc]

theorem touch (h : ArenaInv cfg s) (key : K) : ArenaInv cfg (cfg.touch s key) := by
  unfold ArenaConfig.touch
  split
  · exact h
  rename_i a ha
  obtain ⟨n, hloc, _, rfl⟩ := ArenaConfig.locatedArena_some ha
  have hnode : ((s.arenas n).touch key).node = n := by rw [NodeInv.node_touch, h.node]
  refine h.setArena key ((h.inv n).touch key) ?_ ?_
  · rw [view_setArena hnode ((h.inv n).status_touch key key)]
    exact h.key key
  · intro k _
    rw [(h.inv n).status_touch, hnode]

/-! ### Eviction and adoption -/

/-- One arena is replaced, and with it the location of a key. -/
theorem relocate (h : ArenaInv cfg s) (hnode : a.node = n) (hinv : NodeInv a) (loc : Option ℕ)
    (hst : ∀ k, k ≠ key → a.status k = (s.arenas n).status k)
    (hkey : ∀ view', (∀ m, view' m = if m = n then a.status key else s.view key m) →
      KeyInv cfg.nodes view' loc) : ArenaInv cfg ((s.setArena a).setLocation key loc) := by
  refine h.rebuild key (node_setArena h.node a) (inv_setArena h.inv hinv) ?_ fun k hk => ?_
  · rw [setLocation_location, if_pos rfl]
    refine hkey _ fun m => ?_
    rw [setLocation_view, setArena_view, hnode]
  · rw [setLocation_view, view_setArena hnode (hst k hk), setLocation_location, if_neg hk]
    exact ⟨fun _ => rfl, rfl⟩

theorem evictKey (h : ArenaInv cfg s) (key : K) : ArenaInv cfg (cfg.evictKey s key).1 := by
  unfold ArenaConfig.evictKey
  split
  · exact h
  rename_i a ha
  obtain ⟨n, hloc, hn, rfl⟩ := ArenaConfig.locatedArena_some ha
  split
  · exact h
  rename_i a' he
  obtain ⟨st, hst, hl, h0⟩ := NodeInv.evictable_of_evict he
  refine h.relocate ((NodeInv.node_evict he).trans (h.node n)) ((h.inv n).evict he) none ?_
    fun view' hview => (h.key key).leave hn hst hl h0 fun m => ?_
  · intro k hk
    rw [(h.inv n).status_evict he, if_neg hk]
  · rw [hview, (h.inv n).status_evict he, if_pos rfl]

theorem adoptReady (h : ArenaInv cfg s) (key : K) (n i : ℕ) :
    ArenaInv cfg (cfg.adoptReady s key n i).1 := by
  unfold ArenaConfig.adoptReady
  split
  · exact h
  rename_i a ha
  obtain ⟨hn, rfl⟩ := ArenaConfig.nodeArena_some ha
  split
  · exact h
  rename_i hloc
  rw [not_isSome_iff_eq_none] at hloc
  split
  · exact h
  rename_i a' had
  have hk := h.key key
  rw [hloc] at hk
  refine h.relocate ((NodeInv.node_adoptSlot had).trans (h.node n)) ((h.inv n).adoptSlot had)
    (some n) ?_ fun view' hview => hk.enter ⟨true, false, 0⟩ hn rfl fun m => ?_
  · intro k hk
    rw [(h.inv n).status_adoptSlot had, if_neg hk]
  · rw [hview, (h.inv n).status_adoptSlot had, if_pos rfl]

theorem tryAdopt (h : ArenaInv cfg s) (key : K) (hit : Option (ℕ × ℕ)) :
    ArenaInv cfg (cfg.tryAdopt s key hit).1 := by
  unfold ArenaConfig.tryAdopt
  split
  · exact h
  split
  · exact h
  split
  · exact h
  · exact h.adoptReady key _ _

end ArenaInv

/-! ### Rewriting a key on a node -/

section Rewrites

variable {a a' : NodeArena K} {st : Status}

/-- From `a` to `a'` one key is rewritten, and has the status `st` afterwards. -/
structure Rewrites (a a' : NodeArena K) (key : K) (st : Option Status) : Prop where
  node : a'.node = a.node
  inv : NodeInv a'
  status : ∀ k, a'.status k = if k = key then st else a.status k
  lookup : ∀ k, k ≠ key → a'.index.lookup k = a.index.lookup k

theorem Rewrites.modifyEntry (h : NodeInv a) (hst : a.status key = some st) {f : Slot K → Slot K}
    {g : Status → Status} (hf : ∀ s, (f s).key = s.key) (hfg : ∀ s, (f s).status = g s.status) :
    Rewrites a (a.modifyEntry key f) key (some (g st)) where
  node := node_modifyEntry a key f
  inv := h.modifyEntry key hf
  status := fun k => by rw [h.status_modifyEntry key k hfg, hst, map_some]
  lookup := fun k _ => by rw [index_modifyEntry]

theorem Rewrites.acquireInflight (h : NodeInv a) (hst : a.status key = some st) :
    Rewrites a (a.acquireInflight key) key (some { st with inflight := st.inflight + 1 }) :=
  Rewrites.modifyEntry h hst (g := fun st => { st with inflight := st.inflight + 1 })
    (fun _ => rfl) fun _ => rfl

theorem Rewrites.releaseInflight (h : NodeInv a) (hst : a.status key = some st) :
    Rewrites a (a.releaseInflight key) key (some { st with inflight := st.inflight - 1 }) :=
  Rewrites.modifyEntry h hst (g := fun st => { st with inflight := st.inflight - 1 })
    (fun _ => rfl) fun _ => rfl

/-- A free slot is reserved and marked. -/
theorem Rewrites.reserve {r : NodeArena.Reserved K} (h : NodeInv a) (hfree : a.hasFreeSlot)
    (hnone : a.status key = none) (hr : a.reserve key = some r) :
    Rewrites a (r.arena.markLoading key).1 key (some ⟨false, true, 0⟩) := by
  have hev := h.evicted_none hfree hr
  have hself := h.status_reserve hr key
  rw [if_pos rfl, hnone] at hself
  have hmarked := Rewrites.modifyEntry (h.reserve hr) hself
    (f := fun s => { s with loading := true }) (g := fun st => { st with loading := true })
    (fun _ => rfl) fun _ => rfl
  rw [fst_markLoading]
  refine ⟨?_, hmarked.inv, ?_, ?_⟩
  · rw [hmarked.node, node_reserve hr]
  · intro k
    rw [hmarked.status]
    by_cases hk : k = key
    · rw [if_pos hk, if_pos hk]
      rfl
    · rw [if_neg hk, if_neg hk, h.status_reserve hr, if_neg hk, hev, if_neg (by simp)]
  · intro k hk
    rw [hmarked.lookup k hk, lookup_reserve hr, if_neg hk, hev, if_neg (by simp)]

theorem Rewrites.evict (h : Rewrites a a' key (some st)) (hl : st.loading = false)
    (hzero : st.inflight = 0) : ∃ b, a'.evict key = some b ∧ Rewrites a b key none := by
  have hself := h.status key
  rw [if_pos rfl] at hself
  obtain ⟨b, he⟩ := evict_isSome hself hl hzero
  refine ⟨b, he, ?_, h.inv.evict he, ?_, ?_⟩
  · rw [node_evict he, h.node]
  · intro k
    rw [h.inv.status_evict he, h.status]
    by_cases hk : k = key
    · rw [if_pos hk, if_pos hk]
    · rw [if_neg hk, if_neg hk, if_neg hk]
  · intro k hk
    rw [lookup_evict he, if_neg hk, h.lookup k hk]

end Rewrites

/-! ### Migration -/

section Migrated

variable {s' : PinnedArena K} {t : ℕ} {source target : Option Status}

/-- A phase of the migration of a key from node `n` to node `t`; its statuses there are
`source` and `target` afterwards. -/
structure Migrated (s s' : PinnedArena K) (key : K) (n t : ℕ) (source target : Option Status) :
    Prop where
  source : Rewrites (s.arenas n) (s'.arenas n) key source
  target : Rewrites (s.arenas t) (s'.arenas t) key target
  others : ∀ m, m ≠ n → m ≠ t → s'.arenas m = s.arenas m
  locations : ∀ k, k ≠ key → s'.location k = s.location k

theorem Migrated.of_arenas {a b : NodeArena K} (hnt : n ≠ t)
    (ha : Rewrites (s.arenas n) a key source) (hb : Rewrites (s.arenas t) b key target)
    (harenas : ∀ m, s'.arenas m = if m = n then a else if m = t then b else s.arenas m)
    (hloc : ∀ k, k ≠ key → s'.location k = s.location k) : Migrated s s' key n t source target := by
  refine ⟨?_, ?_, ?_, hloc⟩
  · rwa [harenas, if_pos rfl]
  · rwa [harenas, if_neg hnt.symm, if_pos rfl]
  · intro m hn ht
    rw [harenas, if_neg hn, if_neg ht]

theorem Migrated.view (h : Migrated s s' key n t source target) (m : ℕ) :
    s'.view key m = if m = n then source else if m = t then target else s.view key m := by
  unfold PinnedArena.view
  split
  · next hn => rw [hn, h.source.status, if_pos rfl]
  next hn =>
  split
  · next ht => rw [ht, h.target.status, if_pos rfl]
  · next ht => rw [h.others m hn ht]

theorem Migrated.same (h : Migrated s s' key n t source target) {k : K} (hk : k ≠ key) (m : ℕ) :
    s'.view k m = s.view k m ∧ (s'.arenas m).index.lookup k = (s.arenas m).index.lookup k := by
  unfold PinnedArena.view
  by_cases hn : m = n
  · rw [hn, h.source.status, if_neg hk, h.source.lookup k hk]
    exact ⟨rfl, rfl⟩
  by_cases ht : m = t
  · rw [ht, h.target.status, if_neg hk, h.target.lookup k hk]
    exact ⟨rfl, rfl⟩
  rw [h.others m hn ht]
  exact ⟨rfl, rfl⟩

/-- Only pins have come and gone. -/
structure Unmoved (s s' : PinnedArena K) : Prop where
  node : ∀ m, (s'.arenas m).node = (s.arenas m).node
  inv : ∀ m, NodeInv (s.arenas m) → NodeInv (s'.arenas m)
  status : ∀ k m, s'.view k m = s.view k m
  index : ∀ m, (s'.arenas m).index = (s.arenas m).index
  location : s'.location = s.location

theorem Unmoved.refl (s : PinnedArena K) : Unmoved s s :=
  ⟨fun _ => rfl, fun _ h => h, fun _ _ => rfl, fun _ => rfl, rfl⟩

/-- The key is placed on the target of a migration and marked, and its source is pinned. -/
structure Begins (cfg : ArenaConfig K) (s s' : PinnedArena K) (key : K) (n t : ℕ) (st : Status)
    (i : ℕ) : Prop where
  located : s.location key = some n
  status : s.view key n = some st
  ready : st.ready = true
  ne : n ≠ t
  mem : t ∈ cfg.nodes
  fresh : s.view key t = none
  migrated : Migrated s s' key n t (some { st with inflight := st.inflight + 1 })
    (some ⟨false, true, 0⟩)
  location : s'.location = s.location
  index : (s'.arenas n).index = (s.arenas n).index
  slot : (s'.arenas t).index.lookup key = some i

/-- The key moves to the target, which gets ready, and its source is given up. -/
structure Commits (cfg : ArenaConfig K) (s s' : PinnedArena K) (key : K) (n t : ℕ) (st : Status)
    (i : ℕ) : Prop where
  located : s.location key = some n
  status : s.view key n = some st
  pins : st.inflight ≤ 1
  mem : t ∈ targetsOf cfg.nodes (s.view key) (some n)
  ne : n ≠ t
  migrated : Migrated s s' key n t none (some ⟨true, false, 0⟩)
  location : s'.location key = some t
  index : (s'.arenas t).index = (s.arenas t).index
  slot : (s.arenas t).index.lookup key = some i

/-- The target is given up and the pin of the source is taken off. -/
structure Aborts (s s' : PinnedArena K) (key : K) (n t : ℕ) (st : Status) : Prop where
  located : s.location key = some n
  status : s.view key n = some st
  ne : n ≠ t
  migrated : Migrated s s' key n t (some { st with inflight := st.inflight - 1 }) none
  location : s'.location = s.location
  index : (s'.arenas n).index = (s.arenas n).index

end Migrated

namespace ArenaInv

variable {target : ℕ}

theorem migrateBegin_cases (h : ArenaInv cfg s) (key : K) (target : ℕ) :
    (∃ s', Unmoved s s' ∧ cfg.migrateBegin s key target = (s', none, [])) ∨
    ∃ s' n st i, Begins cfg s s' key n target st i ∧ cfg.migrateBegin s key target =
      (s', some (target, i), [.onReuse target i, .onLoadStart target i key]) := by
  unfold ArenaConfig.migrateBegin
  split
  · exact .inl ⟨s, Unmoved.refl s, rfl⟩
  rename_i src hsrc
  obtain ⟨n, hloc, hn, rfl⟩ := ArenaConfig.locatedArena_some hsrc
  split
  · exact .inl ⟨s, Unmoved.refl s, rfl⟩
  rename_i hready
  rw [not_or, h.node, Bool.not_eq_false] at hready
  split
  · exact .inl ⟨s, Unmoved.refl s, rfl⟩
  rename_i tgt htgt
  obtain ⟨ht, rfl⟩ := ArenaConfig.nodeArena_some htgt
  split
  · exact .inl ⟨s, Unmoved.refl s, rfl⟩
  rename_i hfree
  rw [not_or, Bool.not_eq_false, (h.inv target).resident_iff, not_isSome_iff_eq_none] at hfree
  obtain ⟨st, hst⟩ := isSome_iff_exists.1 ((h.key key).located n hloc).2
  have hpin := Rewrites.acquireInflight (h.inv n) hst
  have hnode : ((s.arenas n).acquireInflight key).node = n := hpin.node.trans (h.node n)
  have hindex : ((s.arenas n).acquireInflight key).index = (s.arenas n).index :=
    NodeInv.index_modifyEntry _ _ _
  simp only
  split
  · -- the pin is taken off again
    have hback := Rewrites.releaseInflight hpin.inv ((hpin.status key).trans (if_pos rfl))
    have hnode' := hback.node.trans hnode
    have harena : ∀ m, ((s.setArena ((s.arenas n).acquireInflight key)).setArena
        (((s.arenas n).acquireInflight key).releaseInflight key)).arenas m =
        if m = n then ((s.arenas n).acquireInflight key).releaseInflight key else s.arenas m := by
      intro m
      rw [PinnedArena.setArena_arenas, hnode', PinnedArena.setArena_arenas, hnode]
      split <;> rfl
    refine .inl ⟨(s.setArena ((s.arenas n).acquireInflight key)).setArena
      (((s.arenas n).acquireInflight key).releaseInflight key), ⟨?_, ?_, ?_, ?_, rfl⟩, rfl⟩
    · intro m
      rw [harena]
      split
      · next hm => rw [hnode', h.node, hm]
      · rfl
    · intro m hinv
      rw [harena]
      split
      · exact hback.inv
      · exact hinv
    · intro k m
      unfold PinnedArena.view
      rw [harena]
      split
      · next hm =>
        subst hm
        rw [hback.status, hpin.status]
        split
        · next hk => rw [hk]; exact hst.symm
        · rfl
      · rfl
    · intro m
      rw [harena]
      split
      · next hm => rw [hm, ← hindex]; exact NodeInv.index_modifyEntry _ _ _
      · rfl
  · rename_i r hr
    have hnone : (s.arenas target).index.lookup key = none :=
      (h.inv target).status_eq_none.1 hfree.2
    have hmarked := Rewrites.reserve (h.inv target) hfree.1 hfree.2 hr
    have hslot : r.arena.index.lookup key = some r.slot := by
      rw [NodeInv.lookup_reserve hr, if_pos rfl]
    have hcalls : r.calls = [.onReuse target r.slot] := by
      rcases NodeInv.reserve_cases hr with ⟨hlk, _⟩ | ⟨_, _, _, _, _, _, heq⟩
      · rw [hnone] at hlk
        cases hlk
      · rw [heq, h.node]
    have hstart : (r.arena.markLoading key).2 = [.onLoadStart target r.slot key] := by
      unfold NodeArena.markLoading
      rw [hslot]
      simp only
      rw [NodeInv.node_reserve hr, h.node]
    have harena : ∀ m, ((s.setArena ((s.arenas n).acquireInflight key)).setArena
        (r.arena.markLoading key).1).arenas m =
        if m = n then (s.arenas n).acquireInflight key
        else if m = target then (r.arena.markLoading key).1 else s.arenas m := by
      intro m
      rw [PinnedArena.setArena_arenas, hmarked.node, h.node, PinnedArena.setArena_arenas, hnode]
      by_cases hm : m = n
      · rw [if_pos hm, if_pos hm, if_neg fun heq => hready.1 (hm.symm.trans heq)]
      · rw [if_neg hm, if_neg hm]
    refine .inr ⟨_, n, st, r.slot, ⟨hloc, hst, ?_, hready.1, ht, hfree.2,
      Migrated.of_arenas hready.1 hpin hmarked harena fun _ _ => rfl, rfl, ?_, ?_⟩, ?_⟩
    · have hst' : (s.arenas n).status key = some st := hst
      simpa [NodeArena.isReady_eq, hst'] using hready.2
    · rw [harena, if_pos rfl, hindex]
    · rw [harena, if_neg (Ne.symm hready.1), if_pos rfl, NodeInv.index_markLoading, hslot]
    · rw [(h.inv target).evicted_none hfree.1 hr, hcalls, hstart]
      rfl

/-- **What `migrate_commit` can do** to a key that is not on the target. -/
theorem migrateCommit_cases (h : ArenaInv cfg s) (hne : s.location key ≠ some target) :
    cfg.migrateCommit s key target = (s, .retry, []) ∨
    ∃ s' n st i, Commits cfg s s' key n target st i ∧ cfg.migrateCommit s key target =
      (s', .committed, [.postFill key target i, .onLoadReady target i key]) := by
  unfold ArenaConfig.migrateCommit
  split
  swap
  · exact .inl rfl
  rename_i src tgt hsrc htgt
  obtain ⟨n, hloc, hn, rfl⟩ := ArenaConfig.locatedArena_some hsrc
  obtain ⟨ht, rfl⟩ := ArenaConfig.nodeArena_some htgt
  split
  · exact .inl rfl
  rename_i hres
  split
  · exact .inl rfl
  rename_i hone
  rw [Bool.not_eq_false] at hres
  obtain ⟨i, hi⟩ := isSome_iff_exists.1 hres
  have hnt : n ≠ target := by
    rintro rfl
    exact hne hloc
  have hk := h.key key
  rw [hloc] at hk hne
  have hmem : target ∈ targetsOf cfg.nodes (s.view key) (some n) :=
    KeyInv.mem_targetsOf.2 ⟨ht, (h.inv target).resident_iff.1 hres, hne⟩
  obtain ⟨htst, m, st, hm, hst, hready⟩ := hk.target hmem
  obtain rfl : n = m := some.inj hm
  have htst' : (s.arenas target).status key = some ⟨false, true, 0⟩ := htst
  have hst' : (s.arenas n).status key = some st := hst
  have hpins : st.inflight ≤ 1 := by
    rw [NodeArena.inflight_eq, hst'] at hone
    simpa using hone
  obtain ⟨a', he, ha'⟩ := (Rewrites.releaseInflight (h.inv n) hst').evict
    (hk.settled n st hst hready) (Nat.sub_eq_zero_of_le hpins)
  have hb : Rewrites (s.arenas target) ((s.arenas target).markReady key).1 key
      (some ⟨true, false, 0⟩) := by
    rw [NodeInv.fst_markReady]
    exact Rewrites.modifyEntry (h.inv target) htst'
      (g := fun st => { st with ready := true, loading := false }) (fun _ => rfl) fun _ => rfl
  have hcalls : ((s.arenas target).markReady key).2 =
      [.postFill key target i, .onLoadReady target i key] := by
    have hnotReady : (s.arenas target).isReady key = false := by
      rw [NodeArena.isReady_eq, htst']
      rfl
    unfold NodeArena.markReady
    rw [hi]
    simp only [hnotReady, h.node]
    rfl
  simp only [PinnedArena.setArena_arenas, hb.node, h.node, if_neg hnt, he, getD_some, hcalls]
  have harena : ∀ m, (((s.setArena ((s.arenas target).markReady key).1).setArena
      a').setLocation key (some target)).arenas m =
      if m = n then a' else if m = target then ((s.arenas target).markReady key).1
      else s.arenas m := by
    intro m
    rw [PinnedArena.setLocation_arenas, PinnedArena.setArena_arenas, PinnedArena.setArena_arenas,
      ha'.node, h.node, hb.node, h.node]
  refine .inr ⟨_, n, st, i, ⟨hloc, hst, hpins, hmem, hnt,
    Migrated.of_arenas hnt ha' hb harena ?_, ?_, ?_, hi⟩, rfl⟩
  · intro k hk
    rw [PinnedArena.setLocation_location, if_neg hk]
    rfl
  · rw [PinnedArena.setLocation_location, if_pos rfl]
  · rw [harena, if_neg (Ne.symm hnt), if_pos rfl, NodeInv.index_markReady]

theorem migrateAbort_unlocated (h : ArenaInv cfg s) (hloc : s.location key = none) :
    cfg.migrateAbort s key target = (s, []) := by
  have hlocated : cfg.locatedArena s key = none := by
    unfold locatedArena
    rw [hloc]
    rfl
  unfold migrateAbort abortTarget unpinSource
  cases htgt : cfg.nodeArena s target with
  | none => simp [hlocated]
  | some tgt =>
    obtain ⟨ht, rfl⟩ := nodeArena_some htgt
    have hres : (s.arenas target).resident key = false := by
      unfold NodeArena.resident
      rw [h.lookup_none hloc ht]
      rfl
    simp [hres, hlocated]

theorem migrateAbort_spec (h : ArenaInv cfg s)
    (hmem : target ∈ targetsOf cfg.nodes (s.view key) (s.location key)) :
    ∃ n st, Aborts s (cfg.migrateAbort s key target).1 key n target st := by
  have hk := h.key key
  obtain ⟨htst, n, st, hloc, hst, hready⟩ := hk.target hmem
  rw [hloc] at hk hmem
  obtain ⟨ht, hres, hne⟩ := KeyInv.mem_targetsOf.1 hmem
  have hnt : n ≠ target := by
    rintro rfl
    exact hne rfl
  have htst' : (s.arenas target).status key = some ⟨false, true, 0⟩ := htst
  have hclear : Rewrites (s.arenas target) ((s.arenas target).clearLoading key).1 key
      (some ⟨false, false, 0⟩) := by
    rw [fst_clearLoading]
    exact Rewrites.modifyEntry (h.inv target) htst' (g := fun st => { st with loading := false })
      (fun _ => rfl) fun _ => rfl
  obtain ⟨b, he, hb⟩ := hclear.evict rfl rfl
  have ha := Rewrites.releaseInflight (h.inv n) hst
  have hnodeArena : cfg.nodeArena s target = some (s.arenas target) := by
    unfold nodeArena
    rw [if_pos ht]
  have hcond : (s.arenas target).resident key = true ∧ (s.arenas target).isReady key = false := by
    refine ⟨(h.inv target).resident_iff.2 hres, ?_⟩
    rw [NodeArena.isReady_eq, htst']
    rfl
  have hlocated : cfg.locatedArena (s.setArena b) key = some (s.arenas n) := by
    unfold locatedArena nodeArena
    rw [setArena_location, hloc, bind_some, if_pos (hk.located n rfl).1,
      setArena_arenas, hb.node, h.node, if_neg hnt]
  unfold migrateAbort abortTarget unpinSource
  simp only [hnodeArena, if_pos hcond, he, getD_some, hlocated]
  have harena : ∀ m, ((s.setArena b).setArena ((s.arenas n).releaseInflight key)).arenas m =
      if m = n then (s.arenas n).releaseInflight key
      else if m = target then b else s.arenas m := by
    intro m
    rw [setArena_arenas, setArena_arenas, ha.node, hb.node, h.node, h.node]
  refine ⟨n, st, hloc, hst, hnt, Migrated.of_arenas hnt ha hb harena fun _ _ => rfl, rfl, ?_⟩
  rw [harena, if_pos rfl]
  exact index_modifyEntry _ _ _

variable {s' : PinnedArena K}

theorem unmoved (h : ArenaInv cfg s) (hs : Unmoved s s') : ArenaInv cfg s' where
  node := fun m => (hs.node m).trans (h.node m)
  inv := fun m => hs.inv m (h.inv m)
  key := fun k => by
    rw [funext (hs.status k), hs.location]
    exact h.key k

theorem migrated {t : ℕ} {source target : Option Status} (h : ArenaInv cfg s)
    (hm : Migrated s s' key n t source target)
    (hkey : KeyInv cfg.nodes (s'.view key) (s'.location key)) : ArenaInv cfg s' := by
  have hnode : ∀ m, (s'.arenas m).node = m ∧ NodeInv (s'.arenas m) := by
    intro m
    by_cases hn : m = n
    · subst hn
      exact ⟨hm.source.node.trans (h.node m), hm.source.inv⟩
    by_cases ht : m = t
    · subst ht
      exact ⟨hm.target.node.trans (h.node m), hm.target.inv⟩
    rw [hm.others m hn ht]
    exact ⟨h.node m, h.inv m⟩
  exact h.rebuild key (fun m => (hnode m).1) (fun m => (hnode m).2) hkey
    fun k hk => ⟨fun m => (hm.same hk m).1, hm.locations k hk⟩

theorem migrateBegin (h : ArenaInv cfg s) (key : K) (target : ℕ) :
    ArenaInv cfg (cfg.migrateBegin s key target).1 := by
  rcases h.migrateBegin_cases key target with ⟨s', hs, heq⟩ | ⟨s', n, st, i, hb, heq⟩
  · rw [heq]
    exact h.unmoved hs
  rw [heq]
  refine h.migrated hb.migrated ?_
  rw [hb.location, hb.located]
  have hk := h.key key
  have hcard := hk.pinned n st hb.located hb.status
  rw [hb.located] at hk hcard
  -- first the source is pinned
  have hpinned : KeyInv cfg.nodes (fun m => if m = n then
      some { st with inflight := st.inflight + 1 } else s.view key m) (some n) := by
    refine hk.update hb.status ?_ ?_ ?_ fun _ => rfl
    · exact fun hr => hr
    · exact fun hr => hk.settled n st hb.status hr
    · exact hcard.trans (Nat.le_succ _)
  refine hpinned.begin (if_pos rfl) hb.ready (Nat.lt_succ_of_le ?_) hb.mem
    ((if_neg (Ne.symm hb.ne)).trans hb.fresh) ?_
  · refine le_trans (le_of_eq ?_) hcard
    congr 1
    ext m
    rw [KeyInv.mem_targetsOf, KeyInv.mem_targetsOf]
    by_cases hm : m = n <;> simp [hm]
  · intro m
    rw [hb.migrated.view]
    by_cases hm : m = n
    · rw [if_pos hm, if_neg fun heq => hb.ne (hm.symm.trans heq), if_pos hm]
    · rw [if_neg hm, if_neg hm]

theorem migrateCommit (h : ArenaInv cfg s) (hne : s.location key ≠ some target) :
    ArenaInv cfg (cfg.migrateCommit s key target).1 := by
  rcases h.migrateCommit_cases hne with heq | ⟨s', n, st, i, hc, heq⟩
  · rw [heq]
    exact h
  rw [heq]
  refine h.migrated hc.migrated ?_
  have hk := h.key key
  rw [hc.located] at hk
  rw [hc.location]
  exact hk.commit hc.status hc.mem hc.pins hc.migrated.view

theorem migrateAbort (h : ArenaInv cfg s)
    (hmem : target ∈ targetsOf cfg.nodes (s.view key) (s.location key)) :
    ArenaInv cfg (cfg.migrateAbort s key target).1 := by
  obtain ⟨n, st, ha⟩ := h.migrateAbort_spec hmem
  refine h.migrated ha.migrated ?_
  have hk := h.key key
  rw [ha.located] at hk hmem
  rw [ha.location, ha.located]
  exact hk.abort ha.status hmem ha.migrated.view

end ArenaInv

end LayerStorm.Memory
