import LayerStorm.Memory.ArenaInvariant

/-!
# The pinned arena along a run

What the callers of the arena promise, that every operation that keeps the promise
keeps the invariant and the slots in use, and what follows for every state of a run:
the index and the slots of each node are inverse bijections, the location index agrees
with the arenas up to the targets of running migrations, no slot that is pinned or
loading loses its expert, and an expert that is ready stays resolvable while it
migrates.

## Main results

* `arenaOk_of_run` — **the location invariant holds in every state of a run**.
* `commit_without_begin` — without the contract it does not.
-/

namespace LayerStorm.Memory

open Lib
open ArenaConfig NodeInv Option

variable {K : Type} [DecidableEq K]

/-! ### The contract -/

def ArenaConfig.targets (cfg : ArenaConfig K) (s : PinnedArena K) (key : K) : Finset ℕ :=
  targetsOf cfg.nodes (s.view key) (s.location key)

/-- The in-flight count of a key where it is located. -/
def ArenaConfig.inflight (cfg : ArenaConfig K) (s : PinnedArena K) (key : K) : ℕ :=
  ((cfg.locatedArena s key).map fun a => a.inflight key).getD 0

/-- What the callers promise: a load is started for a key that is not ready; a pin that is
released is not that of a migration; a commit does not name the key's own node; and an
abort belongs to a running migration. -/
def ArenaConfig.Contract (cfg : ArenaConfig K) (s : PinnedArena K) : ArenaOp K → Prop
  | .markLoading key _ => cfg.isReady s key = false
  | .releaseInflight key =>
    cfg.targets s key = ∅ ∨ (cfg.targets s key).card < cfg.inflight s key
  | .migrateCommit key target => s.location key ≠ some target
  | .migrateAbort key target => s.location key = none ∨ target ∈ cfg.targets s key
  | _ => True

instance (cfg : ArenaConfig K) (s : PinnedArena K) : ∀ op, Decidable (cfg.Contract s op)
  | .markLoading _ _ => inferInstanceAs (Decidable (_ = _))
  | .releaseInflight _ => inferInstanceAs (Decidable (_ ∨ _))
  | .migrateCommit _ _ => inferInstanceAs (Decidable (_ ≠ _))
  | .migrateAbort _ _ => inferInstanceAs (Decidable (_ ∨ _))
  | .reserve _ | .reserveForFill .. | .reserveOnNode .. | .clearLoading .. | .markReady ..
  | .touch _ | .acquireInflight _ | .evictKey _ | .adoptReady .. | .tryAdopt ..
  | .migrateBegin .. => inferInstanceAs (Decidable True)

variable {cfg : ArenaConfig K} {s : PinnedArena K} {key : K} {n : ℕ}

namespace ArenaInv

variable (h : ArenaInv cfg s)
include h

theorem inflight_eq {st : Status} (hloc : s.location key = some n) (hst : s.view key n = some st) :
    cfg.inflight s key = st.inflight := by
  have hst' : (s.arenas n).status key = some st := hst
  unfold ArenaConfig.inflight
  rw [h.locatedArena_eq hloc, map_some, getD_some, NodeArena.inflight_eq, hst']
  rfl

theorem isReady_iff : cfg.isReady s key = true ↔
    ∃ n st, s.location key = some n ∧ s.view key n = some st ∧ st.ready = true := by
  unfold ArenaConfig.isReady
  constructor
  · intro hr
    rw [any_eq_true] at hr
    obtain ⟨a, ha, hready⟩ := hr
    obtain ⟨n, hn, rfl, hloc | ⟨_, hlk⟩⟩ := h.routed ha
    · rw [NodeArena.isReady_eq, any_eq_true] at hready
      obtain ⟨st, hst, hready⟩ := hready
      exact ⟨n, st, hloc, hst, hready⟩
    · rw [NodeArena.isReady_eq, (h.inv n).status_eq_none.2 hlk] at hready
      cases hready
  · rintro ⟨n, st, hloc, hst, hready⟩
    have hst' : (s.arenas n).status key = some st := hst
    rw [h.routed_of_location hloc, any_some, NodeArena.isReady_eq, hst', any_some]
    exact hready

theorem resolve_isSome : (cfg.resolve s key).isSome = cfg.isReady s key := by
  unfold ArenaConfig.resolve ArenaConfig.isReady
  cases hr : cfg.routedArena s key none with
  | none => rfl
  | some a =>
    obtain ⟨n, _, rfl, _⟩ := h.routed hr
    rw [bind_some, isSome_map, (h.inv n).resolve_isSome]
    rfl

theorem isReady_of_target (hn : n ∈ cfg.targets s key) : cfg.isReady s key = true := by
  obtain ⟨_, m, st, hloc, hst, hready⟩ := (h.key key).target hn
  exact h.isReady_iff.2 ⟨m, st, hloc, hst, hready⟩

theorem perform {op : ArenaOp K} (hop : cfg.Contract s op) : ArenaInv cfg (cfg.perform s op).1 := by
  cases op with
  | reserve key => exact h.reserve key
  | reserveForFill key gpu extendOnly => exact h.reserveForFill key gpu extendOnly
  | reserveOnNode key node => exact h.reserveOnNode key node
  | markLoading key gpu =>
    refine h.markLoading gpu ?_
    intro n st hloc hst
    by_contra hready
    have hr := h.isReady_iff.2 ⟨n, st, hloc, hst, by simpa using hready⟩
    rw [hop] at hr
    cases hr
  | clearLoading key gpu => exact h.clearLoading key gpu
  | markReady key gpu => exact h.markReady key gpu
  | touch key => exact h.touch key
  | acquireInflight key => exact h.acquireInflight key
  | releaseInflight key =>
    refine h.releaseInflight ?_
    intro n st hloc hst
    rcases hop with hempty | hlt
    · rw [show targetsOf cfg.nodes (s.view key) (s.location key) = ∅ from hempty]
      exact Nat.zero_le _
    · rw [h.inflight_eq hloc hst] at hlt
      exact Nat.le_sub_one_of_lt hlt
  | evictKey key => exact h.evictKey key
  | adoptReady key node slot => exact h.adoptReady key node slot
  | tryAdopt key hit => exact h.tryAdopt key hit
  | migrateBegin key target => exact h.migrateBegin key target
  | migrateCommit key target => exact h.migrateCommit hop
  | migrateAbort key target =>
    rcases hop with hloc | hmem
    · have hsame : cfg.migrateAbort s key target = (s, []) := h.migrateAbort_unlocated hloc
      simp only [ArenaConfig.perform, hsame]
      exact h
    · exact h.migrateAbort hmem

end ArenaInv

/-! ### Slots in use -/

/-- A slot in use: a GPU copies from it or a read fills it. -/
def Status.Busy (st : Status) : Prop := st.loading = true ∨ 0 < st.inflight

/-- Every slot in use keeps its expert from `s` to `s'`, up to the exceptions. -/
def Keeps (except : ℕ → K → Prop) (s s' : PinnedArena K) : Prop :=
  ∀ m k i st, (s.arenas m).index.lookup k = some i → s.view k m = some st → st.Busy →
    except m k ∨ (s'.arenas m).index.lookup k = some i

/-- The places that an operation may empty although they are in use: the source of the
migration that it commits, and the target of the one that it aborts. -/
def OwnSlot (s : PinnedArena K) : ArenaOp K → ℕ → K → Prop
  | .migrateCommit key _, m, k => k = key ∧ s.location key = some m
  | .migrateAbort key target, m, k => k = key ∧ m = target
  | _, _, _ => False

section Keeps

variable {except : ℕ → K → Prop}

theorem Keeps.refl (s : PinnedArena K) : Keeps except s s :=
  fun _ _ _ _ hlk _ _ => .inr hlk

variable {a : NodeArena K}

theorem Keeps.setArena
    (ha : ∀ k i st, (s.arenas a.node).index.lookup k = some i → s.view k a.node = some st →
      st.Busy → except a.node k ∨ a.index.lookup k = some i) : Keeps except s (s.setArena a) := by
  intro m k i st hlk hst hbusy
  rw [PinnedArena.setArena_arenas]
  by_cases hm : m = a.node
  · subst hm
    rw [if_pos rfl]
    exact ha k i st hlk hst hbusy
  · rw [if_neg hm]
    exact .inr hlk

theorem Keeps.congr (s' : PinnedArena K) {s'' : PinnedArena K} (h : Keeps except s s')
    (harenas : s''.arenas = s'.arenas) : Keeps except s s'' := by
  intro m k i st hlk hst hbusy
  rw [harenas]
  exact h m k i st hlk hst hbusy

variable {r : NodeArena.Reserved K}

theorem lookup_reserve_of_busy (h : NodeInv a) (hr : a.reserve key = some r) {k : K} {i : ℕ}
    {st : Status} (hlk : a.index.lookup k = some i) (hst : a.status k = some st) (hbusy : st.Busy) :
    r.arena.index.lookup k = some i := by
  rw [lookup_reserve hr]
  by_cases hk : k = key
  · subst hk
    rw [if_pos rfl]
    rcases reserve_cases hr with ⟨hslot, _⟩ | ⟨hnone, _⟩
    · exact hslot.symm.trans hlk
    · rw [hnone] at hlk
      cases hlk
  rw [if_neg hk]
  have hev : r.evicted ≠ some k := by
    intro hev
    obtain ⟨_, st', hst', hl, h0⟩ := h.evicted_reserve hr hev
    rw [hst, some.injEq] at hst'
    subst hst'
    rcases hbusy with hload | hin
    · rw [hl] at hload
      cases hload
    · omega
  rw [if_neg hev]
  exact hlk

section

variable (h : ArenaInv cfg s)
include h

theorem keeps_reserved (hr : (s.arenas n).reserve key = some r) :
    Keeps except s (s.setArena r.arena) := by
  have hnode : r.arena.node = n := by rw [node_reserve hr, h.node]
  apply Keeps.setArena
  rw [hnode]
  intro k i st hlk hst hbusy
  exact .inr (lookup_reserve_of_busy (h.inv n) hr hlk hst hbusy)

theorem keeps_placeOn {s' : PinnedArena K} {p : ℕ × ℕ} {calls : List (Call K)}
    (hp : placeOn s key n = some (s', p, calls)) :
    Keeps except s s' := by
  unfold placeOn at hp
  rw [map_eq_some_iff] at hp
  obtain ⟨r, hr, heq⟩ := hp
  obtain rfl : ((s.setArena r.arena).dropEvicted r.evicted).setLocation key (some n) = s' :=
    congrArg Prod.fst heq
  refine (keeps_reserved h hr).congr _ ?_
  rw [PinnedArena.setLocation_arenas, PinnedArena.dropEvicted_arenas]

theorem keeps_reserveLocated (ha : cfg.locatedArena s key = some a) :
    Keeps except s (reserveLocated s key a).1 := by
  obtain ⟨n, _, _, rfl⟩ := locatedArena_some ha
  unfold reserveLocated
  split
  · rename_i r hr
    exact keeps_reserved h hr
  · exact Keeps.refl s

theorem keeps_reserve (key : K) : Keeps except s (cfg.reserve s key).1 := by
  unfold ArenaConfig.reserve
  split
  · exact Keeps.refl s
  split
  · rename_i hp
    exact keeps_placeOn h hp
  · exact Keeps.refl s

theorem keeps_reserveForFill (key : K) (gpu : Option ℕ) (extendOnly : Bool) :
    Keeps except s (cfg.reserveForFill s key gpu extendOnly).1 := by
  unfold reserveForFill
  split
  · rename_i a ha
    exact keeps_reserveLocated h ha
  have h' : ArenaInv cfg (cfg.fillCandidates s key gpu).2 := h.congr rfl rfl
  have hplace : ∀ (ok : NodeArena K → Bool) s' p calls,
      placeFirst ok (cfg.fillCandidates s key gpu).2 key
        (cfg.fillCandidates s key gpu).1 = some (s', p, calls) → Keeps except s s' := by
    intro ok s' p calls hp
    obtain ⟨n, _, _, hp⟩ := ArenaInv.placeFirst_ok hp
    exact keeps_placeOn h' hp
  simp only
  split
  · rename_i s' p calls hp
    exact hplace _ s' p calls hp
  split
  · exact Keeps.refl s
  split
  · rename_i s' p calls hp
    exact hplace _ s' p calls hp
  · exact Keeps.refl s

theorem keeps_reserveOnNode (key : K) (n : ℕ) : Keeps except s (cfg.reserveOnNode s key n).1 := by
  unfold reserveOnNode
  split
  · rename_i a ha
    exact keeps_reserveLocated h ha
  split
  · split
    · rename_i hp
      exact keeps_placeOn h hp
    · exact Keeps.refl s
  · exact Keeps.refl s

theorem keeps_onRouted {gpu : Option ℕ} {f : NodeArena K → NodeArena K × List (Call K)}
    (hf : ∀ a, (f a).1.index = a.index ∧ (f a).1.node = a.node) :
    Keeps except s (cfg.onRouted s key gpu f).1 := by
  unfold onRouted
  split
  · exact Keeps.refl s
  rename_i a ha
  obtain ⟨n, _, rfl, _⟩ := h.routed ha
  apply Keeps.setArena
  rw [(hf _).1, (hf _).2, h.node]
  exact fun k i st hlk _ _ => .inr hlk

theorem keeps_touch (key : K) : Keeps except s (cfg.touch s key) := by
  unfold ArenaConfig.touch
  split
  · exact Keeps.refl s
  rename_i a ha
  obtain ⟨n, _, _, rfl⟩ := ArenaConfig.locatedArena_some ha
  apply Keeps.setArena
  rw [NodeInv.node_touch, NodeInv.index_touch, h.node]
  exact fun k i st hlk _ _ => .inr hlk

theorem keeps_evictKey (key : K) : Keeps except s (cfg.evictKey s key).1 := by
  unfold evictKey
  split
  · exact Keeps.refl s
  rename_i a ha
  obtain ⟨n, _, _, rfl⟩ := locatedArena_some ha
  split
  · exact Keeps.refl s
  rename_i a' he
  refine Keeps.congr (s.setArena a') ?_ rfl
  apply Keeps.setArena
  rw [node_evict he, h.node]
  intro k i st hlk hst hbusy
  rw [lookup_evict he]
  by_cases hk : k = key
  · -- a slot in use is not evicted
    subst hk
    obtain ⟨st', hst', hl, h0⟩ := evictable_of_evict he
    have hsame : some st = some st' := hst.symm.trans hst'
    rw [some.injEq] at hsame
    subst hsame
    rcases hbusy with hload | hin
    · rw [hl] at hload
      cases hload
    · omega
  · rw [if_neg hk]
    exact .inr hlk

theorem keeps_adoptReady (key : K) (n i : ℕ) : Keeps except s (cfg.adoptReady s key n i).1 := by
  unfold adoptReady
  split
  · exact Keeps.refl s
  rename_i a ha
  obtain ⟨_, rfl⟩ := nodeArena_some ha
  split
  · exact Keeps.refl s
  split
  · exact Keeps.refl s
  rename_i a' had
  refine Keeps.congr (s.setArena a') ?_ rfl
  apply Keeps.setArena
  rw [node_adoptSlot had, h.node]
  intro k j st hlk _ _
  rw [lookup_adoptSlot had]
  by_cases hk : k = key
  · subst hk
    rw [(adoptSlot_cases had).1] at hlk
    cases hlk
  · rw [if_neg hk]
    exact .inr hlk

theorem keeps_tryAdopt (key : K) (hit : Option (ℕ × ℕ)) :
    Keeps except s (cfg.tryAdopt s key hit).1 := by
  unfold tryAdopt
  split
  · exact Keeps.refl s
  split
  · exact Keeps.refl s
  split
  · exact Keeps.refl s
  · exact keeps_adoptReady h key _ _

end

variable {s' : PinnedArena K} {t : ℕ} {source target : Option Status}

theorem Keeps.migrated (hm : Migrated s s' key n t source target)
    (hsource : ∀ i, (s.arenas n).index.lookup key = some i →
      except n key ∨ (s'.arenas n).index.lookup key = some i)
    (htarget : ∀ i, (s.arenas t).index.lookup key = some i →
      except t key ∨ (s'.arenas t).index.lookup key = some i) : Keeps except s s' := by
  intro m k i st hlk _ _
  by_cases hk : k = key
  · subst hk
    by_cases hn : m = n
    · subst hn
      exact hsource i hlk
    by_cases ht : m = t
    · subst ht
      exact htarget i hlk
    rw [hm.others m hn ht]
    exact .inr hlk
  · rw [(hm.same hk m).2]
    exact .inr hlk

variable (h : ArenaInv cfg s)
include h

theorem keeps_migrateBegin (key : K) (target : ℕ) :
    Keeps except s (cfg.migrateBegin s key target).1 := by
  rcases h.migrateBegin_cases key target with ⟨s', hs, heq⟩ | ⟨s', n, st, i, hb, heq⟩
  · rw [heq]
    intro m k i st hlk _ _
    rw [hs.index]
    exact .inr hlk
  · rw [heq]
    refine Keeps.migrated hb.migrated ?_ ?_
    · rw [hb.index]
      exact fun _ => .inr
    · rw [(h.inv target).status_eq_none.1 hb.fresh]
      intro i hi
      cases hi

theorem keeps_migrateCommit {target : ℕ} (hne : s.location key ≠ some target) :
    Keeps (fun m k => k = key ∧ s.location key = some m) s (cfg.migrateCommit s key target).1 := by
  rcases h.migrateCommit_cases hne with heq | ⟨s', n, st, i, hc, heq⟩
  · rw [heq]
    exact Keeps.refl s
  rw [heq]
  refine Keeps.migrated hc.migrated (fun _ _ => .inl ⟨rfl, hc.located⟩) ?_
  rw [hc.index]
  exact fun _ => .inr

theorem keeps_migrateAbort {target : ℕ} (hop : s.location key = none ∨ target ∈ cfg.targets s key) :
    Keeps (fun m k => k = key ∧ m = target) s (cfg.migrateAbort s key target).1 := by
  rcases hop with hloc | hmem
  · rw [h.migrateAbort_unlocated hloc]
    exact Keeps.refl s
  obtain ⟨n, st, ha⟩ := h.migrateAbort_spec hmem
  refine Keeps.migrated ha.migrated ?_ fun _ _ => .inl ⟨rfl, rfl⟩
  rw [ha.index]
  exact fun _ => .inr

end Keeps

variable {op : ArenaOp K}

/-- **Slots in use keep their expert**, up to the source of a migration that is committed
and the target of one that is aborted. -/
theorem keeps_perform (h : ArenaInv cfg s) (hop : cfg.Contract s op) :
    Keeps (OwnSlot s op) s (cfg.perform s op).1 := by
  cases op with
  | reserve key => exact keeps_reserve h key
  | reserveForFill key gpu extendOnly => exact keeps_reserveForFill h key gpu extendOnly
  | reserveOnNode key node => exact keeps_reserveOnNode h key node
  | markLoading key gpu =>
    exact keeps_onRouted h fun a => ⟨index_markLoading a key, node_markLoading a key⟩
  | clearLoading key gpu =>
    exact keeps_onRouted h fun a => ⟨index_clearLoading a key, node_clearLoading a key⟩
  | markReady key gpu =>
    exact keeps_onRouted h fun a => ⟨index_markReady a key, node_markReady a key⟩
  | touch key => exact keeps_touch h key
  | acquireInflight key | releaseInflight key =>
    exact keeps_onRouted h fun a =>
      ⟨index_modifyEntry _ _ _, node_modifyEntry _ _ _⟩
  | evictKey key => exact keeps_evictKey h key
  | adoptReady key node slot => exact keeps_adoptReady h key node slot
  | tryAdopt key hit => exact keeps_tryAdopt h key hit
  | migrateBegin key target => exact keeps_migrateBegin h key target
  | migrateCommit key target => exact keeps_migrateCommit h hop
  | migrateAbort key target => exact keeps_migrateAbort h hop

/-! ### A migrating expert stays ready -/

/-- The key is located on node `n` and ready there. -/
def ReadyOn (s : PinnedArena K) (key : K) (n : ℕ) : Prop :=
  s.location key = some n ∧ ∃ st, s.view key n = some st ∧ st.ready = true

variable {target : ℕ}

theorem ready_migrateBegin (h : ArenaInv cfg s) (target : ℕ) (hr : ReadyOn s key n) :
    ReadyOn (cfg.migrateBegin s key target).1 key n := by
  obtain ⟨hloc, st, hst, hready⟩ := hr
  rcases h.migrateBegin_cases key target with ⟨s', hs, heq⟩ | ⟨s', m, sm, i, hb, heq⟩
  · rw [heq]
    exact ⟨(congrFun hs.location key).trans hloc, st, (hs.status key n).trans hst, hready⟩
  rw [heq]
  obtain rfl : m = n := some.inj (hb.located.symm.trans hloc)
  exact ⟨(congrFun hb.location key).trans hloc, _, (hb.migrated.view m).trans (if_pos rfl),
    hb.ready⟩

theorem ready_migrateCommit (h : ArenaInv cfg s) (hr : ReadyOn s key n)
    (hne : s.location key ≠ some target) :
    ∃ m, ReadyOn (cfg.migrateCommit s key target).1 key m := by
  rcases h.migrateCommit_cases hne with heq | ⟨s', n, st, i, hc, heq⟩
  · rw [heq]
    exact ⟨n, hr⟩
  · rw [heq]
    refine ⟨target, hc.location, ⟨true, false, 0⟩, ?_, rfl⟩
    rw [hc.migrated.view, if_neg (Ne.symm hc.ne), if_pos rfl]

theorem ready_migrateAbort (h : ArenaInv cfg s) (hr : ReadyOn s key n)
    (hmem : target ∈ cfg.targets s key) : ReadyOn (cfg.migrateAbort s key target).1 key n := by
  obtain ⟨hloc, st, hst, hready⟩ := hr
  obtain ⟨m, sm, ha⟩ := h.migrateAbort_spec hmem
  obtain rfl : m = n := some.inj (ha.located.symm.trans hloc)
  obtain rfl : sm = st := some.inj (ha.status.symm.trans hst)
  exact ⟨(congrFun ha.location key).trans hloc, _, (ha.migrated.view m).trans (if_pos rfl), hready⟩

theorem resolve_migrate (h : ArenaInv cfg s)
    (hop : op = .migrateBegin key target ∨ op = .migrateCommit key target ∨
      op = .migrateAbort key target) (hcontract : cfg.Contract s op)
    (hr : (cfg.resolve s key).isSome) :
    (cfg.resolve (cfg.perform s op).1 key).isSome := by
  have h' := h.perform hcontract
  rw [h.resolve_isSome, h.isReady_iff] at hr
  rw [h'.resolve_isSome, h'.isReady_iff]
  obtain ⟨n, st, hloc, hst, hready⟩ := hr
  have hon : ReadyOn s key n := ⟨hloc, st, hst, hready⟩
  obtain ⟨m, hm, st', hst', hready'⟩ : ∃ m, ReadyOn (cfg.perform s op).1 key m := by
    rcases hop with rfl | rfl | rfl
    · exact ⟨n, ready_migrateBegin h target hon⟩
    · exact ready_migrateCommit h hon hcontract
    rcases hcontract with hnone | hmem
    · rw [hloc] at hnone
      cases hnone
    · exact ⟨n, ready_migrateAbort h hon hmem⟩
  exact ⟨m, st', hm, hst', hready'⟩

/-! ### Every run -/

/-- The location invariant of a state of the arena. -/
structure ArenaOk (cfg : ArenaConfig K) (s : PinnedArena K) : Prop where
  /-- On every node the index and the slot table are inverse partial bijections. -/
  bijection : ∀ n ∈ cfg.nodes, ∀ key i, (s.arenas n).index.lookup key = some i ↔
    ∃ sl, (s.arenas n).slots[i]? = some sl ∧ sl.key = some key
  located : ∀ key n, s.location key = some n → n ∈ cfg.nodes ∧ (s.arenas n).resident key
  /-- A node that holds a key is its location, or the target, not yet ready, of a migration
  from a location where the key is ready and pinned. -/
  held : ∀ key, ∀ n ∈ cfg.nodes, (s.arenas n).resident key → s.location key = some n ∨
      ((s.arenas n).isReady key = false ∧ (s.arenas n).isLoading key ∧
        ∃ m, m ≠ n ∧ s.location key = some m ∧ (s.arenas m).isReady key ∧
          0 < (s.arenas m).inflight key)
  /-- A slot that is picked for reuse is unoccupied, or neither pinned nor loading. -/
  victims : ∀ n ∈ cfg.nodes, ∀ i, (s.arenas n).pickSlot = some i →
    ∃ sl, (s.arenas n).slots[i]? = some sl ∧ sl.inflight = 0 ∧ sl.loading = false
  /-- No operation takes a slot in use from its key, except that a commit gives the source
  up whose only pin is the migration's own, and an abort the target of the migration. -/
  kept : ∀ op, cfg.Contract s op → ∀ n ∈ cfg.nodes, ∀ key i,
    (s.arenas n).index.lookup key = some i →
    ((s.arenas n).isLoading key ∨ 0 < (s.arenas n).inflight key) →
    (((cfg.perform s op).1.arenas n).index.lookup key = some i ∨
      (∃ target, op = .migrateCommit key target ∧ s.location key = some n ∧
        (s.arenas n).inflight key = 1) ∨
      (op = .migrateAbort key n ∧ n ∈ cfg.targets s key))
  migrating : ∀ key n, n ∈ cfg.targets s key → (cfg.resolve s key).isSome
  /-- An expert that resolves still does after each step of a migration of it. -/
  resolvable : ∀ key target op, (op = .migrateBegin key target ∨ op = .migrateCommit key target ∨
    op = .migrateAbort key target) → cfg.Contract s op → (cfg.resolve s key).isSome →
      (cfg.resolve (cfg.perform s op).1 key).isSome

theorem NodeInv.exists_status (h : NodeInv a) {i : ℕ} (hlk : a.index.lookup key = some i) :
    ∃ st, a.status key = some st := by
  apply ne_none_iff_exists'.1
  intro hnone
  rw [h.status_eq_none, hlk] at hnone
  cases hnone

namespace ArenaInv

variable (h : ArenaInv cfg s)
include h

theorem held_ok (hn : n ∈ cfg.nodes) (hres : (s.arenas n).resident key) : s.location key = some n ∨
      ((s.arenas n).isReady key = false ∧ (s.arenas n).isLoading key ∧
        ∃ m, m ≠ n ∧ s.location key = some m ∧ (s.arenas m).isReady key ∧
          0 < (s.arenas m).inflight key) := by
  by_cases hloc : s.location key = some n
  · exact .inl hloc
  right
  have hmem : n ∈ targetsOf cfg.nodes (s.view key) (s.location key) :=
    KeyInv.mem_targetsOf.2 ⟨hn, (h.inv n).resident_iff.1 hres, hloc⟩
  obtain ⟨hst, m, sm, hm, hsm, hready⟩ := (h.key key).target hmem
  have hst' : (s.arenas n).status key = some ⟨false, true, 0⟩ := hst
  have hsm' : (s.arenas m).status key = some sm := hsm
  have hpin : 0 < sm.inflight :=
    lt_of_lt_of_le (Finset.card_pos.2 ⟨n, hmem⟩) ((h.key key).pinned m sm hm hsm)
  refine ⟨?_, ?_, m, ?_, hm, ?_, ?_⟩
  · rw [NodeArena.isReady_eq, hst']
    rfl
  · rw [NodeArena.isLoading_eq, hst']
    rfl
  · rintro rfl
    exact hloc hm
  · rw [NodeArena.isReady_eq, hsm']
    exact hready
  · rw [NodeArena.inflight_eq, hsm']
    exact hpin

theorem commit_cases (hloc : s.location key = some n) (hne : s.location key ≠ some target) {i : ℕ}
    (hlk : (s.arenas n).index.lookup key = some i) :
    ((cfg.migrateCommit s key target).1.arenas n).index.lookup key = some i ∨
      (s.arenas n).inflight key = 1 := by
  unfold ArenaConfig.migrateCommit
  rw [h.locatedArena_eq hloc]
  split
  · rename_i src tgt hsrc htgt
    obtain rfl : s.arenas n = src := some.inj hsrc
    obtain ⟨ht, rfl⟩ := ArenaConfig.nodeArena_some htgt
    split
    · exact .inl hlk
    rename_i hres
    split
    · exact .inl hlk
    rename_i hone
    right
    rw [Bool.not_eq_false, (h.inv target).resident_iff] at hres
    have hmem : target ∈ targetsOf cfg.nodes (s.view key) (s.location key) :=
      KeyInv.mem_targetsOf.2 ⟨ht, hres, hne⟩
    obtain ⟨st, hst⟩ := (h.inv n).exists_status hlk
    have hpin := lt_of_lt_of_le (Finset.card_pos.2 ⟨target, hmem⟩)
      ((h.key key).pinned n st hloc hst)
    rw [NodeArena.inflight_eq, hst] at hone ⊢
    simp only [map_some, getD_some] at hone ⊢
    omega
  · exact .inl hlk

theorem kept_ok {op : ArenaOp K} (hop : cfg.Contract s op) {i : ℕ}
    (hlk : (s.arenas n).index.lookup key = some i)
    (hbusy : (s.arenas n).isLoading key ∨ 0 < (s.arenas n).inflight key) :
    ((cfg.perform s op).1.arenas n).index.lookup key = some i ∨
      (∃ target, op = .migrateCommit key target ∧ s.location key = some n ∧
        (s.arenas n).inflight key = 1) ∨
      (op = .migrateAbort key n ∧ n ∈ cfg.targets s key) := by
  obtain ⟨st, hst⟩ := (h.inv n).exists_status hlk
  have hb : st.Busy := by
    rw [NodeArena.isLoading_eq, NodeArena.inflight_eq, hst] at hbusy
    exact hbusy
  rcases keeps_perform h hop n key i st hlk hst hb with hown | hkeep
  · cases op with
    | migrateCommit k target =>
      obtain ⟨rfl, hloc⟩ := hown
      rcases h.commit_cases hloc hop hlk with hkeep | hone
      · exact .inl hkeep
      · exact .inr (.inl ⟨target, rfl, hloc, hone⟩)
    | migrateAbort k target =>
      obtain ⟨rfl, rfl⟩ := hown
      rcases hop with hloc | hmem
      · left
        have hsame : cfg.migrateAbort s key n = (s, []) := h.migrateAbort_unlocated hloc
        simp only [ArenaConfig.perform, hsame]
        exact hlk
      · exact .inr (.inr ⟨rfl, hmem⟩)
    | _ => exact hown.elim
  · exact .inl hkeep

theorem ok : ArenaOk cfg s where
  bijection := fun n _ key i => (h.inv n).repr key i
  located := by
    intro key n hloc
    obtain ⟨hn, hsome⟩ := (h.key key).located n hloc
    exact ⟨hn, (h.inv n).resident_iff.2 hsome⟩
  held := fun key n hn hres => h.held_ok hn hres
  victims := by
    intro n _ i hpick
    obtain ⟨sl, hsl, hfree⟩ := NodeArena.evictable_of_pickSlot hpick
    refine ⟨sl, hsl, ?_⟩
    rcases hfree with hnone | hfree
    · exact ⟨((h.inv n).idle i sl hsl hnone).2.2, ((h.inv n).idle i sl hsl hnone).2.1⟩
    · exact hfree
  kept := fun op hop n _ key i hlk hbusy => h.kept_ok hop hlk hbusy
  migrating := by
    intro key n hn
    rw [h.resolve_isSome]
    exact h.isReady_of_target hn
  resolvable := fun key target op hop hcontract hr => resolve_migrate h hop hcontract hr

end ArenaInv

/-- **The location invariant holds in every state of a run** of operations that keep the
contract, on any keys, nodes and topology. -/
theorem arenaOk_of_run (cfg : ArenaConfig K) (numSlots : ℕ → ℕ) {ops : List (ArenaOp K)}
    {s : PinnedArena K}
    (hrun : GuardedRun cfg.step cfg.Contract (PinnedArena.init numSlots) ops s) :
    ArenaOk cfg s := by
  apply ArenaInv.ok
  refine hrun.invariant ?_ (ArenaInv.init cfg numSlots)
  intro t op u ht hop hu
  cases hu
  exact ht.perform hop

/-- Two nodes, of which the first is everybody's home. -/
def smallArena : ArenaConfig ℕ where
  nodes := {0, 1}
  expertHomeNode := fun _ => some 0
  gpuNumaNode := fun _ => some 0
  spillOrder := []

/-- An expert is loaded and then moved to the other node while it is read once. -/
theorem arenaOk_of_run_migration : ∃ s,
    GuardedRun smallArena.step smallArena.Contract (PinnedArena.init fun _ => 1)
      [.reserve 7, .markLoading 7 none, .markReady 7 none, .migrateBegin 7 1, .acquireInflight 7,
        .releaseInflight 7, .migrateCommit 7 1] s ∧
    s.location 7 = some 1 ∧ ArenaOk smallArena s := by
  obtain ⟨s, hrun, hloc⟩ : ∃ s,
      GuardedRun smallArena.step smallArena.Contract (PinnedArena.init fun _ => 1)
        [.reserve 7, .markLoading 7 none, .markReady 7 none, .migrateBegin 7 1,
          .acquireInflight 7, .releaseInflight 7, .migrateCommit 7 1] s ∧
      s.location 7 = some 1 :=
    ⟨_, .cons (by decide) rfl (.cons (by decide) rfl (.cons (by decide) rfl
      (.cons (by decide) rfl (.cons (by decide) rfl (.cons (by decide) rfl
      (.cons (by decide) rfl (.nil _))))))), by decide⟩
  exact ⟨s, hrun, hloc, arenaOk_of_run smallArena _ hrun⟩

/-- The obligations of the callers are needed: a commit of a migration that was never
begun, to the key's own node, drops the key from its arena and keeps its location. -/
theorem commit_without_begin : ∃ s, Run smallArena.step (PinnedArena.init fun _ => 1)
      [.reserve 7, .markReady 7 none, .migrateCommit 7 0] s ∧
    s.location 7 = some 0 ∧ (s.arenas 0).resident 7 = false :=
  ⟨_, Run.of_foldlM rfl, by decide, by decide⟩

end LayerStorm.Memory
