import LayerStorm.Memory.ArenaStore
import LayerStorm.Memory.ArenaMoves

/-!
# The invariant of the arena with its jobs

Every job fills a slot that holds its expert and is not ready; what is not ready has no
active record, and what is ready has final contents.  So no byte is ever written under
an active record, and a record is published over final contents only.
-/

namespace LayerStorm.Memory

open Lib
open NodeArena HostConfig Option

variable {β : Type} {size : ℕ}

/-! ### Definitions -/

/-- A job fills a slot that holds its expert and is not ready; a load at the expert's
location, a relocation beside it; and what is written is right. -/
structure JobOk (cfg : HostConfig β size) (h : Host β size) (j : Job size) : Prop where
  node : j.node ∈ cfg.arena.nodes
  slot : h.arena.slotOf j.node j.key = some j.slot
  notReady : h.arena.readyOf j.node j.key = false
  load : j.source = none → h.arena.location j.key = some j.node
  copy : ∀ m i, j.source = some (m, i) →
    m ≠ j.node ∧ h.arena.location j.key = some m ∧ h.arena.slotOf m j.key = some i
  data : ∀ o ∈ j.written, h.store.mem j.node j.slot o = cfg.jobData h j o

/-- The invariant of the process. -/
structure HostInv (cfg : HostConfig β size) (moved : Prop) (h : Host β size) : Prop where
  arena : ArenaInv cfg.arena h.arena
  jobs : ∀ j ∈ h.jobs, JobOk cfg h j
  distinct : h.jobs.Pairwise fun j j' => (j.node, j.slot) ≠ (j'.node, j'.slot)
  vouched : cfg.Vouched moved h.store
  /-- What is not ready is not vouched for. -/
  filling : ∀ n k i, n ∈ cfg.arena.nodes → h.arena.slotOf n k = some i →
    h.arena.readyOf n k = false → (h.store.records n i).state ≠ .active
  /-- What is ready has final contents. -/
  ready : ∀ n k i, n ∈ cfg.arena.nodes → h.arena.slotOf n k = some i →
    h.arena.readyOf n k = true → cfg.Final moved (identOf h.idents k) k (h.store.mem n i)

/-- A stage of an operation: the invariant afterwards, and harmless writes that change the
bytes of no slot but the jobs'. -/
structure Fine (cfg : HostConfig β size) (moved : Prop) (h : Host β size)
    (r : Host β size × List (PWrite β size)) : Prop where
  inv : HostInv cfg moved r.1
  harmless : cfg.AllHarmless moved h.store r.2
  store : r.1.store = h.store.writes r.2
  frame : ∀ m i, (∀ j ∈ h.jobs, (m, i) ≠ (j.node, j.slot)) → r.1.store.mem m i = h.store.mem m i

/-- What a key holds it keeps. -/
structure KeyKept (s s' : PinnedArena ExpertKey) (k : ExpertKey) : Prop where
  slot : ∀ m i, s.slotOf m k = some i → s'.slotOf m k = some i ∧ s'.readyOf m k = s.readyOf m k
  location : s'.location k = s.location k

variable {cfg : HostConfig β size} {moved : Prop} {h : Host β size} {key : ExpertKey} {n i : ℕ}

/-! ### Stages -/

theorem callsWrites_append (cc : CacheConfig β size) (idents : List FileIdentity)
    (st : Store β size) (cs ds : List (Call ExpertKey)) :
    cc.callsWrites idents st (cs ++ ds) = cc.callsWrites idents st cs ++
      cc.callsWrites idents (st.writes (cc.callsWrites idents st cs)) ds := by
  induction cs generalizing st with
  | nil => rfl
  | cons c cs ih =>
    simp only [List.cons_append, CacheConfig.callsWrites, ih, List.append_assoc,
      Store.writes_append]

theorem callsIndex_append (cc : CacheConfig β size) (idents : List FileIdentity) (st : Store β size)
    (index : ℕ → Option (ℕ × ℕ)) (cs ds : List (Call ExpertKey)) :
    cc.callsIndex idents st index (cs ++ ds) =
      cc.callsIndex idents (st.writes (cc.callsWrites idents st cs))
        (cc.callsIndex idents st index cs) ds := by
  induction cs generalizing st index with
  | nil => rfl
  | cons c cs ih =>
    simp only [List.cons_append, CacheConfig.callsIndex, CacheConfig.callsWrites, ih,
      Store.writes_append]

namespace Fine

theorem append {a₁ a₂ : PinnedArena ExpertKey} {c₁ c₂ : List (Call ExpertKey)}
    {js : List (Job size)} (h₁ : Fine cfg moved h (cfg.after h a₁ c₁ h.jobs))
    (h₂ : Fine cfg moved (cfg.after h a₁ c₁ h.jobs).1
      (cfg.after (cfg.after h a₁ c₁ h.jobs).1 a₂ c₂ js)) :
    Fine cfg moved h (cfg.after h a₂ (c₁ ++ c₂) js) := by
  have hsame : (cfg.after h a₂ (c₁ ++ c₂) js).1 =
      (cfg.after (cfg.after h a₁ c₁ h.jobs).1 a₂ c₂ js).1 := by
    simp only [after, callsWrites_append, callsIndex_append, Store.writes_append]
  have hws : (cfg.after h a₂ (c₁ ++ c₂) js).2 = (cfg.after h a₁ c₁ h.jobs).2 ++
      (cfg.after (cfg.after h a₁ c₁ h.jobs).1 a₂ c₂ js).2 := by
    simp only [after, callsWrites_append]
  refine ⟨hsame ▸ h₂.inv, ?_, rfl, ?_⟩
  · rw [hws]
    exact HostConfig.AllHarmless.append h₁.harmless h₂.harmless
  · intro m i hne
    rw [hsame]
    exact (h₂.frame m i hne).trans (h₁.frame m i hne)

end Fine

theorem JobOk.keep {j : Job size} (hj : JobOk cfg h j) {h' : Host β size}
    (hidents : h'.idents = h.idents) (hkept : KeyKept h.arena h'.arena j.key)
    (hmem : h'.store.mem j.node j.slot = h.store.mem j.node j.slot)
    (hmemSource : ∀ m i, j.source = some (m, i) → h'.store.mem m i = h.store.mem m i) :
    JobOk cfg h' j := by
  obtain ⟨hslot, hready⟩ := hkept.slot j.node j.slot hj.slot
  refine ⟨hj.node, hslot, hready.trans hj.notReady, ?_, ?_, ?_⟩
  · intro hs
    rw [hkept.location]
    exact hj.load hs
  · intro m i hs
    obtain ⟨hne, hl, hsl⟩ := hj.copy m i hs
    exact ⟨hne, hkept.location.trans hl, (hkept.slot m i hsl).1⟩
  · intro o ho
    rw [hmem, hj.data o ho]
    unfold jobData
    rw [hidents]
    cases hs : j.source with
    | none => rfl
    | some p =>
      obtain ⟨m, i⟩ := p
      simp only [hmemSource m i hs]

namespace HostInv

theorem slot_unique (hinv : HostInv cfg moved h) {k k' : ExpertKey}
    (hk : h.arena.slotOf n k = some i)
    (hk' : h.arena.slotOf n k' = some i) : k = k' :=
  (hinv.arena.inv n).key_unique hk hk'

variable {j : Job size} (hinv : HostInv cfg moved h)
include hinv

theorem copy_target (hj : j ∈ h.jobs) {p : ℕ × ℕ} (hs : j.source = some p) :
    j.node ∈ cfg.arena.targets h.arena j.key := by
  have hok := hinv.jobs j hj
  obtain ⟨hne, hloc, _⟩ := hok.copy p.1 p.2 hs
  refine KeyInv.mem_targetsOf.2 ⟨hok.node, ?_, ?_⟩
  · apply (hinv.arena.inv j.node).resident_iff.1
    unfold resident
    rw [show (h.arena.arenas j.node).index.lookup j.key = some j.slot from hok.slot]
    rfl
  · rw [hloc, ne_eq, some.injEq]
    exact hne

theorem copy_source_ready (hj : j ∈ h.jobs) {m i : ℕ} (hs : j.source = some (m, i)) :
    h.arena.readyOf m j.key = true := by
  obtain ⟨_, m', st, hloc, hst, hready⟩ := (hinv.arena.key j.key).target (hinv.copy_target hj hs)
  obtain ⟨_, hloc', _⟩ := (hinv.jobs j hj).copy m i hs
  obtain rfl : m' = m := some.inj (hloc.symm.trans hloc')
  have hst' : (h.arena.arenas m').status j.key = some st := hst
  unfold PinnedArena.readyOf
  rw [isReady_eq, hst']
  exact hready

theorem load_unique {j' : Job size} (hj : j ∈ h.jobs) (hj' : j' ∈ h.jobs) (hkey : j'.key = j.key)
    (hs : j.source = none) : (j'.node, j'.slot) = (j.node, j.slot) := by
  have hok := hinv.jobs j hj
  have hok' := hinv.jobs j' hj'
  cases hs' : j'.source with
  | none =>
    have hloc := hok.load hs
    have hloc' := hok'.load hs'
    rw [hkey, hloc, some.injEq] at hloc'
    have hslot := hok'.slot
    rw [hkey, ← hloc', hok.slot, some.injEq] at hslot
    rw [← hloc', hslot]
  | some p =>
    -- a relocation's source is ready, a load's slot is not
    have hready : h.arena.readyOf p.1 j'.key = true := hinv.copy_source_ready hj' hs'
    obtain ⟨_, hloc', _⟩ := hok'.copy p.1 p.2 hs'
    rw [hkey, hok.load hs, some.injEq] at hloc'
    rw [hkey, ← hloc', hok.notReady] at hready
    cases hready

theorem anchored (hquiet : quiet h = true) (hj : j ∈ h.jobs) : Anchored h.arena j.key := by
  intro n st hloc hst
  have hok := hinv.jobs j hj
  cases hs : j.source with
  | none =>
    have hload := List.all_eq_true.1 hquiet j hj
    obtain rfl : n = j.node := some.inj (hloc.symm.trans (hok.load hs))
    have hst' : (h.arena.arenas j.node).status j.key = some st := hst
    rw [isLoading_eq, hst'] at hload
    exact .inl hload
  | some p =>
    have hcard := Finset.card_pos.2 ⟨j.node, hinv.copy_target hj hs⟩
    exact .inr (lt_of_lt_of_le hcard ((hinv.arena.key j.key).pinned n st hloc hst))

theorem slot_ne {m k' : ℕ} {k₁ k₂ : ExpertKey} {i₁ i₂ : ℕ} (h₁ : h.arena.slotOf m k₁ = some i₁)
    (h₂ : h.arena.slotOf k' k₂ = some i₂)
    (hne : k₁ ≠ k₂ ∨ h.arena.readyOf m k₁ ≠ h.arena.readyOf k' k₂) : (m, i₁) ≠ (k', i₂) := by
  intro heq
  cases heq
  obtain rfl := hinv.slot_unique h₁ h₂
  rcases hne with hne | hne
  · exact hne rfl
  · exact hne rfl

theorem located (hj : j ∈ h.jobs) : ∃ n, h.arena.location j.key = some n := by
  cases hs : j.source with
  | none => exact ⟨_, (hinv.jobs j hj).load hs⟩
  | some p => exact ⟨_, ((hinv.jobs j hj).copy p.1 p.2 hs).2.1⟩

end HostInv

/-! ### Stages that publish nothing -/

namespace Fine

variable {cs : List (Call ExpertKey)} {a : PinnedArena ExpertKey}

theorem kills (hinv : HostInv cfg moved h) (harena : ArenaInv cfg.arena a)
    (hcs : ∀ c ∈ cs, c.Kills n i)
    (hslots : ∀ m ∈ cfg.arena.nodes, ∀ k j, a.slotOf m k = some j →
      (h.arena.slotOf m k = some j ∧ a.readyOf m k = h.arena.readyOf m k) ∨
      ((m, j) = (n, i) ∧ a.readyOf m k = false ∧ cs ≠ []) ∨
      (a.readyOf m k = true ∧ cfg.Final moved (identOf h.idents k) k (h.store.mem m j)))
    (hjobs : ∀ j ∈ h.jobs, KeyKept h.arena a j.key) :
    Fine cfg moved h (cfg.after h a cs h.jobs) := by
  obtain ⟨hmem, hkilled, hquiet⟩ := Store.kills_writes cfg.cache h.idents h.store hcs
  have hharmless : cfg.AllHarmless moved h.store _ := harmless_kills cfg h.idents h.store hcs
  refine ⟨⟨harena, ?_, hinv.distinct, hinv.vouched.writes hharmless, ?_, ?_⟩, hharmless, rfl, ?_⟩
  · intro j hj
    exact (hinv.jobs j hj).keep rfl (hjobs j hj) (congrFun (congrFun hmem _) _)
      fun m i _ => congrFun (congrFun hmem m) i
  · intro m k j hm hslot hready
    rcases hslots m hm k j hslot with ⟨hold, hsame⟩ | ⟨heq, _, hne⟩ | ⟨hr, _⟩
    · exact Store.not_active_writes _ (hinv.filling m k j hm hold (hsame ▸ hready)) (hquiet m j)
    · cases heq
      exact hkilled hne
    · exact absurd (hready.symm.trans hr) Bool.false_ne_true
  · intro m k j hm hslot hready
    have hcell : (cfg.after h a cs h.jobs).1.store.mem m j = h.store.mem m j :=
      congrFun (congrFun hmem m) j
    rw [hcell]
    rcases hslots m hm k j hslot with ⟨hold, hsame⟩ | ⟨_, hr, _⟩ | ⟨_, hfinal⟩
    · exact hinv.ready m k j hm hold (hsame ▸ hready)
    · exact absurd (hr.symm.trans hready) Bool.false_ne_true
    · exact hfinal
  · exact fun m i _ => congrFun (congrFun hmem m) i

theorem same (hinv : HostInv cfg moved h) (hsame : SameSlots h.arena a)
    (harena : ArenaInv cfg.arena a) (hcs : ∀ c ∈ cs, c.Kills n i) :
    Fine cfg moved h (cfg.after h a cs h.jobs) := by
  refine kills hinv harena hcs ?_ ?_
  · intro m _ k j hslot
    rw [hsame.slot] at hslot
    exact .inl ⟨hslot, hsame.ready m k⟩
  · intro j _
    exact ⟨fun m i hs => ⟨(hsame.slot m j.key).trans hs, hsame.ready m j.key⟩, hsame.location _⟩

theorem idle (hinv : HostInv cfg moved h) : Fine cfg moved h (cfg.after h h.arena [] h.jobs) :=
  same (n := 0) (i := 0) hinv (SameSlots.refl _) hinv.arena fun _ hc => by cases hc

variable {mayEvict : Prop}

section

variable (hinv : HostInv cfg moved h)
include hinv

theorem not_evicted {s' : PinnedArena ExpertKey} {ev : Option ExpertKey}
    (hp : Placed cfg.arena h.arena s' key n i ev) (hquiet : mayEvict → quiet h = true)
    (hev : ¬ mayEvict → ev = none) {j : Job size} (hj : j ∈ h.jobs) : ev ≠ some j.key := by
  intro heq
  by_cases hmay : mayEvict
  · exact hp.evicted_idle _ heq (hinv.anchored (hquiet hmay) hj)
  · rw [hev hmay] at heq
    cases heq

theorem reserve {r : PinnedArena ExpertKey × Option (ℕ × ℕ) × List (Call ExpertKey)}
    (heff : ReserveEffect cfg.arena h.arena key mayEvict r) (harena : ArenaInv cfg.arena r.1)
    (hquiet : mayEvict → quiet h = true) :
    Fine cfg moved h (cfg.after h r.1 r.2.2 h.jobs) := by
  cases heff with
  | refused hsame => exact same (n := 0) (i := 0) hinv hsame harena fun _ hc => by cases hc
  | held hsame _ _ _ => exact same (n := 0) (i := 0) hinv hsame harena fun _ hc => by cases hc
  | placed hloc hp hloc' hev =>
    rename_i s' n i ev
    refine kills (n := n) (i := i) hinv harena ?_ ?_ ?_
    · intro c hc
      exact .inl (List.mem_singleton.1 hc)
    · intro m _ k j hslot
      by_cases hk : m = n ∧ (k = key ∨ ev = some k)
      · obtain ⟨rfl, rfl | hk⟩ := hk
        · have hji : j = i := some.inj (hslot.symm.trans hp.slot)
          rw [hji]
          exact .inr (.inl ⟨rfl, hp.notReady, by simp⟩)
        · have hnone := hp.evicted_slot k hk
          rw [show s'.slotOf m k = some j from hslot] at hnone
          cases hnone
      · obtain ⟨hs, hr⟩ := hp.others m k hk
        exact .inl ⟨hs.symm.trans hslot, hr⟩
    · intro j hj
      have hne : j.key ≠ key := by
        intro heq
        obtain ⟨m, hm⟩ := hinv.located hj
        rw [heq, hloc] at hm
        cases hm
      have hnev := not_evicted hinv hp hquiet hev hj
      refine ⟨?_, hp.locations _ hne hnev⟩
      intro m i' hs
      obtain ⟨hs', hr⟩ := hp.others m j.key fun hk => hk.2.elim hne hnev
      exact ⟨hs'.trans hs, hr⟩

theorem mark (hloc : h.arena.location key = some n) (hslot : h.arena.slotOf n key = some i)
    (hready : h.arena.readyOf n key = false) :
    Fine cfg moved h (cfg.after h (cfg.arena.markLoading h.arena key none).1
      (cfg.arena.markLoading h.arena key none).2 h.jobs) := by
  have hlk : (h.arena.arenas n).index.lookup key = some i := hslot
  refine same (n := n) (i := i) hinv (sameSlots_markLoading hinv.arena key none)
    (hinv.arena.markLoading none ?_) ?_
  · intro m st hm hst
    obtain rfl : n = m := some.inj (hloc.symm.trans hm)
    have hst' : (h.arena.arenas n).status key = some st := hst
    have hr : (h.arena.arenas n).isReady key = false := hready
    rw [isReady_eq, hst'] at hr
    exact hr
  · intro c hc
    unfold ArenaConfig.markLoading ArenaConfig.onRouted at hc
    rw [hinv.arena.routed_of_location hloc] at hc
    simp only [markLoading, hlk, hinv.arena.node, List.mem_singleton] at hc
    exact .inr ⟨key, hc⟩

theorem clear (hloc : h.arena.location key = some n) (hslot : h.arena.slotOf n key = some i) :
    Fine cfg moved h (cfg.after h (cfg.arena.clearLoading h.arena key none).1
      (cfg.arena.clearLoading h.arena key none).2 h.jobs) := by
  have hlk : (h.arena.arenas n).index.lookup key = some i := hslot
  refine same (n := n) (i := i) hinv (sameSlots_clearLoading hinv.arena key none)
    (hinv.arena.clearLoading key none) ?_
  intro c hc
  unfold ArenaConfig.clearLoading ArenaConfig.onRouted at hc
  rw [hinv.arena.routed_of_location hloc] at hc
  simp only [clearLoading, hlk, hinv.arena.node, List.mem_singleton] at hc
  exact .inl hc

theorem handOut (key : ExpertKey) : Fine cfg moved h (cfg.handOut h h.arena key) := by
  have htouch := hinv.arena.touch key
  refine same (n := 0) (i := 0) hinv ?_ (htouch.acquireInflight key) fun _ hc => by cases hc
  exact (sameSlots_touch hinv.arena key).trans (sameSlots_acquireInflight htouch key)

end

theorem push {j : Job size} (hf : Fine cfg moved h (cfg.after h a cs h.jobs))
    (hj : JobOk cfg (cfg.after h a cs h.jobs).1 j)
    (hfree : ∀ j' ∈ h.jobs, (j'.node, j'.slot) ≠ (j.node, j.slot)) :
    Fine cfg moved h (cfg.after h a cs (h.jobs ++ [j])) := by
  refine ⟨{ hf.inv with jobs := ?_, distinct := ?_ }, hf.harmless,
    hf.store, hf.frame⟩
  · intro j' hj'
    rcases List.mem_append.1 hj' with hj' | hj'
    · have hok := hf.inv.jobs j' hj'
      exact { hok with }
    · rw [List.mem_singleton.1 hj']
      exact { hj with }
  · refine List.pairwise_append.2 ⟨hf.inv.distinct, List.pairwise_singleton _ _, ?_⟩
    intro j' hj' j'' hj''
    rw [List.mem_singleton.1 hj'']
    exact hfree j' hj'

theorem drop (hf : Fine cfg moved h (cfg.after h a cs h.jobs)) (idx : ℕ) :
    Fine cfg moved h (cfg.after h a cs (h.jobs.eraseIdx idx)) := by
  refine ⟨{ hf.inv with jobs := ?_, distinct := ?_ }, hf.harmless,
    hf.store, hf.frame⟩
  · intro j hj
    have hok := hf.inv.jobs j (List.mem_of_mem_eraseIdx hj)
    exact { hok with }
  · exact hf.inv.distinct.sublist (List.eraseIdx_sublist _ _)

end Fine

/-! ### Filling -/

variable {a : PinnedArena ExpertKey} {mayEvict : Prop} {s : PinnedArena ExpertKey}

theorem ReserveEffect.handed {calls : List (Call ExpertKey)}
    (heff : ReserveEffect cfg.arena s key mayEvict (a, some (n, i), calls))
    (hready : ∀ m, s.location key = some m → s.readyOf m key = false) :
    n ∈ cfg.arena.nodes ∧ a.location key = some n ∧ a.slotOf n key = some i ∧
      a.readyOf n key = false := by
  cases heff with
  | held hsame hn hloc hslot =>
    refine ⟨hn, (hsame.location key).trans hloc, (hsame.slot n key).trans hslot, ?_⟩
    rw [hsame.ready]
    exact hready n hloc
  | placed hloc hp hloc' _ => exact ⟨hp.node, hloc', hp.slot, hp.notReady⟩

theorem Fine.submit {cs : List (Call ExpertKey)} (hf : Fine cfg moved h (cfg.after h a cs h.jobs))
    (hnone : ∀ j ∈ h.jobs, j.key ≠ key) (hn : n ∈ cfg.arena.nodes) (hloc : a.location key = some n)
    (hslot : a.slotOf n key = some i) (hready : a.readyOf n key = false) :
    Fine cfg moved h (cfg.after h a cs (h.jobs ++ [⟨key, n, i, none, ∅⟩])) := by
  refine hf.push ⟨hn, hslot, hready, fun _ => hloc, ?_, ?_⟩ ?_
  · intro m i' hs
    cases hs
  · intro o ho
    simp at ho
  · intro j hj heq
    obtain ⟨hnode, hslot'⟩ := Prod.mk.inj heq
    have hok := hf.inv.jobs j hj
    have hheld : a.slotOf j.node j.key = some j.slot := hok.slot
    rw [hnode, hslot'] at hheld
    exact hnone j hj (hf.inv.slot_unique hheld hslot)

theorem Fine.submitted {p : Option (ℕ × ℕ)} {calls cs : List (Call ExpertKey)}
    (hf : Fine cfg moved h (cfg.after h a cs h.jobs)) (hnone : ∀ j ∈ h.jobs, j.key ≠ key)
    (heff : ReserveEffect cfg.arena s key mayEvict (a, p, calls))
    (hready : ∀ m, s.location key = some m → s.readyOf m key = false) :
    Fine cfg moved h (cfg.after h a cs (submitted h key p)) := by
  cases p with
  | none => exact hf
  | some p =>
    obtain ⟨hn, hloc, hslot, hnr⟩ := heff.handed hready
    exact hf.submit hnone hn hloc hslot hnr

namespace HostInv

theorem fill (hinv : HostInv cfg moved h) (hquiet : HostConfig.quiet h = true)
    (hnone : ∀ j ∈ h.jobs, j.key ≠ key)
    (hready : ∀ m, h.arena.location key = some m → h.arena.readyOf m key = false) (gpu : Option ℕ)
    (mode : FillMode) : Fine cfg moved h (cfg.fill h key gpu mode) := by
  have heff := reserveForFill_spec hinv.arena key gpu false
  have hreserve := Fine.reserve hinv heff (hinv.arena.reserveForFill key gpu false) fun _ => hquiet
  unfold HostConfig.fill
  generalize cfg.arena.reserveForFill h.arena key gpu false = r at heff hreserve
  obtain ⟨a, p, calls⟩ := r
  cases p with
  | none => exact hreserve
  | some p =>
    obtain ⟨n, i⟩ := p
    obtain ⟨hn, hloc, hslot, hnr⟩ := heff.handed hready
    -- marking the slot, and taking the mark off again
    have hmark := Fine.mark hreserve.inv hloc hslot hnr
    have hsame := sameSlots_markLoading hreserve.inv.arena key none
    have hloc₁ := (hsame.location key).trans hloc
    have hslot₁ := (hsame.slot n key).trans hslot
    have hnr₁ := (hsame.ready n key).trans hnr
    have hmarked := hreserve.append hmark
    cases mode with
    | sync => exact hreserve.submit hnone hn hloc hslot hnr
    | async => exact hmarked.submit hnone hn hloc₁ hslot₁ hnr₁
    | declined =>
      have hclear := Fine.clear hmarked.inv hloc₁ hslot₁
      have hsame₂ := sameSlots_clearLoading hmarked.inv.arena key none
      exact (hmarked.append hclear).submit hnone hn ((hsame₂.location key).trans hloc₁)
        ((hsame₂.slot n key).trans hslot₁) ((hsame₂.ready n key).trans hnr₁)

variable {j : Job size}

section

variable (hinv : HostInv cfg moved h)
include hinv

theorem no_job (hquiet : quiet h = true)
    (hready : ∀ m, h.arena.location key = some m → h.arena.readyOf m key = false ∧
      (h.arena.arenas m).isLoading key = false) (hj : j ∈ h.jobs) :
    j.key ≠ key := by
  rintro rfl
  have hok := hinv.jobs j hj
  cases hs : j.source with
  | none =>
    have hload := List.all_eq_true.1 hquiet j hj
    rw [(hready j.node (hok.load hs)).2] at hload
    cases hload
  | some p =>
    have hr : h.arena.readyOf p.1 j.key = true := hinv.copy_source_ready hj hs
    rw [(hready p.1 (hok.copy p.1 p.2 hs).2.1).1] at hr
    cases hr

theorem adopt {a : PinnedArena ExpertKey} (harena : ArenaInv cfg.arena a)
    (ha : Adopted cfg.arena h.arena a key n i)
    (hfinal : cfg.Final moved (identOf h.idents key) key (h.store.mem n i)) :
    Fine cfg moved h (cfg.after h a [] h.jobs) := by
  refine Fine.kills (n := n) (i := i) hinv harena (fun _ hc => by cases hc) ?_ ?_
  · intro m _ k j hslot
    by_cases hk : m = n ∧ k = key
    · obtain ⟨rfl, rfl⟩ := hk
      have hji : j = i := some.inj (hslot.symm.trans ha.slot)
      rw [hji]
      exact .inr (.inr ⟨ha.ready, hfinal⟩)
    · obtain ⟨hs, hr⟩ := ha.others m k hk
      exact .inl ⟨hs.symm.trans hslot, hr⟩
  · intro j hj
    have hne : j.key ≠ key := by
      intro heq
      obtain ⟨m, hm⟩ := hinv.located hj
      rw [heq, ha.fresh] at hm
      cases hm
    refine ⟨?_, ha.locations _ hne⟩
    intro m i' hs
    obtain ⟨hs', hr⟩ := ha.others m j.key fun hk => hne hk.2
    exact ⟨hs'.trans hs, hr⟩

theorem request (hquiet : HostConfig.quiet h = true) (key : ExpertKey) (gpu : Option ℕ)
    (mode : FillMode) : Fine cfg moved h (cfg.request h key gpu mode) := by
  unfold HostConfig.request
  split
  · rename_i a ha
    obtain ⟨n, hloc, _, rfl⟩ := ArenaConfig.locatedArena_some ha
    split
    · exact Fine.handOut hinv key
    rename_i hready
    rw [Bool.not_eq_true] at hready
    split
    · exact Fine.idle hinv
    rename_i hload
    rw [Bool.not_eq_true] at hload
    have hidle : ∀ m, h.arena.location key = some m → h.arena.readyOf m key = false ∧
        (h.arena.arenas m).isLoading key = false := by
      intro m hm
      obtain rfl : n = m := some.inj (hloc.symm.trans hm)
      exact ⟨hready, hload⟩
    exact hinv.fill hquiet (fun j hj => hinv.no_job hquiet hidle hj) (fun m hm => (hidle m hm).1)
      gpu mode
  · rename_i hnone
    have hloc := hinv.arena.location_of_locatedArena hnone
    have hidle : ∀ m, h.arena.location key = some m → h.arena.readyOf m key = false ∧
        (h.arena.arenas m).isLoading key = false := by
      intro m hm
      rw [hloc] at hm
      cases hm
    have hspec := tryAdopt_spec hinv.arena key (cfg.cache.lookup h.idents h.store h.index key)
    have harena := hinv.arena.tryAdopt key (cfg.cache.lookup h.idents h.store h.index key)
    generalize cfg.arena.tryAdopt h.arena key _ = r at hspec harena
    obtain ⟨a, b⟩ := r
    cases b with
    | false =>
      exact hinv.fill hquiet (fun j hj => hinv.no_job hquiet hidle hj) (fun m hm => (hidle m hm).1)
        gpu mode
    | true =>
      rcases hspec with hfalse | ⟨n, i, hhit, hadopted⟩
      · cases hfalse
      · have hadopt := hinv.adopt harena hadopted (HostConfig.final_of_lookup hinv.vouched hhit)
        exact hadopt.append (Fine.handOut hadopt.inv key)

theorem preload (hnone : ∀ j ∈ h.jobs, j.key ≠ key) (planned gpu : Option ℕ) :
    Fine cfg moved h (cfg.preload h key planned gpu) := by
  unfold HostConfig.preload
  split
  · exact Fine.idle hinv
  rename_i hunready
  have hready : ∀ m, h.arena.location key = some m → h.arena.readyOf m key = false := by
    intro m hm
    by_contra hr
    rw [Bool.not_eq_false] at hr
    have hr' : (h.arena.arenas m).isReady key = true := hr
    rw [NodeArena.isReady_eq, any_eq_true] at hr'
    obtain ⟨st, hst, hst'⟩ := hr'
    exact hunready (hinv.arena.isReady_iff.2 ⟨m, st, hm, hst, hst'⟩)
  -- the first attempt, on the planned node
  have hfirst : ReserveEffect cfg.arena h.arena key False
        (planned.elim (h.arena, none, []) (cfg.arena.reserveOnNode h.arena key)) ∧
      ArenaInv cfg.arena
        (planned.elim (h.arena, none, []) (cfg.arena.reserveOnNode h.arena key)).1 := by
    cases planned with
    | none => exact ⟨.refused (SameSlots.refl _), hinv.arena⟩
    | some n => exact ⟨reserveOnNode_spec hinv.arena key n, hinv.arena.reserveOnNode key n⟩
  simp only
  generalize planned.elim (h.arena, none, []) (cfg.arena.reserveOnNode h.arena key) = r at hfirst
  obtain ⟨heff, harena⟩ := hfirst
  have hreserve := Fine.reserve hinv heff harena False.elim
  obtain ⟨a, p, calls⟩ := r
  split
  · exact hreserve.submitted hnone heff hready
  -- the second, on any node
  rename_i hp
  rw [not_isSome_iff_eq_none] at hp
  obtain rfl : p = none := hp
  have hready' : ∀ m, a.location key = some m → a.readyOf m key = false := by
    cases heff with
    | refused hsame =>
      intro m hm
      rw [hsame.ready]
      exact hready m ((hsame.location key).symm.trans hm)
  have heff' := reserveForFill_spec harena key gpu true
  have hextend := Fine.reserve hreserve.inv heff' (harena.reserveForFill key gpu true)
    fun hmay => by cases hmay
  exact (hreserve.append hextend).submitted hnone heff' hready'

end

/-! ### Writing -/

variable {j' : Job size}

theorem place_ne (hinv : HostInv cfg moved h) {idx idx' : ℕ} (hj : h.jobs[idx]? = some j)
    (hj' : h.jobs[idx']? = some j') (hne : idx' ≠ idx) :
    (j'.node, j'.slot) ≠ (j.node, j.slot) := by
  obtain ⟨hlt, rfl⟩ := List.getElem?_eq_some_iff.1 hj
  obtain ⟨hlt', rfl⟩ := List.getElem?_eq_some_iff.1 hj'
  have hpair := List.pairwise_iff_getElem.1 hinv.distinct
  rcases lt_or_gt_of_ne hne with hlt'' | hlt''
  · exact hpair idx' idx hlt' hlt hlt''
  · exact (hpair idx idx' hlt hlt' hlt'').symm

theorem source_ne (hinv : HostInv cfg moved h) (hj : j ∈ h.jobs) (hj' : j' ∈ h.jobs) {m i : ℕ}
    (hs : j'.source = some (m, i)) : (m, i) ≠ (j.node, j.slot) := by
  refine hinv.slot_ne ((hinv.jobs j' hj').copy m i hs).2.2 (hinv.jobs j hj).slot (.inr ?_)
  rw [hinv.copy_source_ready hj' hs, (hinv.jobs j hj).notReady]
  exact Bool.true_eq_false_eq_False

theorem writeByte (hinv : HostInv cfg moved h) {idx : ℕ} (hj : h.jobs[idx]? = some j)
    (o : Fin size) : Fine cfg moved h (cfg.writeByte h j idx o) := by
  have hmem : j ∈ h.jobs := List.mem_of_getElem? hj
  have hok := hinv.jobs j hmem
  have hinactive := hinv.filling _ _ _ hok.node hok.slot hok.notReady
  have hharmless :
      cfg.AllHarmless moved h.store [PWrite.byte j.node j.slot o (cfg.jobData h j o)] :=
    ⟨hinactive, trivial⟩
  have hother : ∀ m i, (m, i) ≠ (j.node, j.slot) →
      (cfg.writeByte h j idx o).1.store.mem m i = h.store.mem m i :=
    fun m i hne =>
      (Store.write_other h.store (w := .byte j.node j.slot o (cfg.jobData h j o)) hne).2
  have hcell : (cfg.writeByte h j idx o).1.store.mem j.node j.slot =
      Function.update (h.store.mem j.node j.slot) o (cfg.jobData h j o) := by
    simp [HostConfig.writeByte, Store.writes, Store.write]
  have hkept : ∀ k, KeyKept h.arena (cfg.writeByte h j idx o).1.arena k :=
    fun k => ⟨fun m i hs => ⟨hs, rfl⟩, rfl⟩
  -- what a job writes does not change
  have hdata : ∀ j' ∈ h.jobs, cfg.jobData (cfg.writeByte h j idx o).1 j' = cfg.jobData h j' := by
    intro j' hj'
    unfold HostConfig.jobData
    cases hs : j'.source with
    | none => rfl
    | some p =>
      obtain ⟨m, i⟩ := p
      exact hother m i (hinv.source_ne hmem hj' hs)
  refine ⟨⟨hinv.arena, ?_, ?_, hinv.vouched.writes hharmless, ?_, ?_⟩, hharmless, rfl, ?_⟩
  · intro j' hj'
    obtain ⟨idx', hj'⟩ := List.mem_iff_getElem?.mp hj'
    simp only [HostConfig.writeByte, List.getElem?_set] at hj'
    split at hj'
    · -- the job itself
      split at hj'
      · cases hj'
        refine { hok with data := ?_ }
        intro o' ho'
        rw [show cfg.jobData (cfg.writeByte h j idx o).1
          { j with written := insert o j.written } = cfg.jobData h j from hdata j hmem, hcell]
        by_cases heq : o' = o
        · rw [heq, Function.update_self]
        · rw [Function.update_of_ne heq]
          exact hok.data o' (Finset.mem_of_mem_insert_of_ne ho' heq)
      · cases hj'
    · rename_i hne
      have hmem' : j' ∈ h.jobs := List.mem_of_getElem? hj'
      refine (hinv.jobs j' hmem').keep rfl (hkept _) ?_ ?_
      · exact hother _ _ (hinv.place_ne hj hj' (Ne.symm hne))
      · exact fun m i hs => hother m i (hinv.source_ne hmem hmem' hs)
  · -- the places stay
    have hplaces : (h.jobs.set idx { j with written := insert o j.written }).map
        (fun j => (j.node, j.slot)) = h.jobs.map fun j => (j.node, j.slot) := by
      apply List.ext_getElem?
      intro l
      rw [List.getElem?_map, List.getElem?_map, List.getElem?_set]
      by_cases heq : idx = l
      · subst heq
        rw [if_pos rfl, if_pos (List.getElem?_eq_some_iff.1 hj).1, hj]
        rfl
      · rw [if_neg heq]
    have hpair := List.pairwise_map.2 hinv.distinct
    rw [← hplaces] at hpair
    exact List.pairwise_map.1 hpair
  · exact hinv.filling
  · intro m k i hm hslot hready
    have hne : (m, i) ≠ (j.node, j.slot) := by
      refine hinv.slot_ne hslot hok.slot (.inr ?_)
      have hready' : h.arena.readyOf m k = true := hready
      rw [hready', hok.notReady]
      exact Bool.true_eq_false_eq_False
    rw [hother m i hne]
    exact hinv.ready m k i hm hslot hready
  · exact fun m i hne => hother m i (hne j hmem)

/-! ### Publishing -/

end HostInv

theorem mem_publish (cfg : HostConfig β size) (h : Host β size) (a : PinnedArena ExpertKey)
    (js : List (Job size)) (key : ExpertKey) (n i : ℕ) :
    (cfg.after h a [.postFill key n i, .onLoadReady n i key] js).1.store.mem n i =
      cfg.cache.filled key (h.store.mem n i) := by
  simp only [after, CacheConfig.callsWrites, List.append_nil, Store.writes_append]
  exact (Store.mem_postFill cfg.cache h.idents h.store key n i).1

theorem Fine.publish (hinv : HostInv cfg moved h) {js : List (Job size)}
    (harena : ArenaInv cfg.arena a)
    (hn : n ∈ cfg.arena.nodes) (hslot : h.arena.slotOf n key = some i)
    (hnr : h.arena.readyOf n key = false)
    (hfinal : cfg.Final moved (identOf h.idents key) key (cfg.cache.filled key (h.store.mem n i)))
    (hslot' : a.slotOf n key = some i) (hready' : a.readyOf n key = true)
    (hslots : ∀ m k j, a.slotOf m k = some j → ¬ (m = n ∧ k = key) →
      h.arena.slotOf m k = some j ∧ a.readyOf m k = h.arena.readyOf m k)
    (hplace : ∃ j ∈ h.jobs, (j.node, j.slot) = (n, i)) (hjs : js.Sublist h.jobs)
    (hkept : ∀ j ∈ js, (j.node, j.slot) ≠ (n, i) ∧ KeyKept h.arena a j.key) :
    Fine cfg moved h (cfg.after h a [.postFill key n i, .onLoadReady n i key] js) := by
  have hinactive := hinv.filling n key i hn hslot hnr
  obtain ⟨hfilled, hrecords⟩ := Store.mem_postFill cfg.cache h.idents h.store key n i
  have hcell := mem_publish cfg h a js key n i
  -- only the published slot changes
  have hother : ∀ m j, (m, j) ≠ (n, i) →
      (cfg.after h a [.postFill key n i, .onLoadReady n i key] js).1.store.records m j =
        h.store.records m j ∧
      (cfg.after h a [.postFill key n i, .onLoadReady n i key] js).1.store.mem m j =
        h.store.mem m j := by
    intro m j hne
    refine callsWrites_other cfg.cache h.idents h.store ?_
    intro c hc
    simp only [List.mem_cons, List.not_mem_nil, or_false] at hc
    rcases hc with rfl | rfl <;> exact hne
  have hharmless : cfg.AllHarmless moved h.store
      (cfg.after h a [.postFill key n i, .onLoadReady n i key] js).2 := by
    refine HostConfig.AllHarmless.append (harmless_bytes cfg h.store hinactive _) ?_
    refine HostConfig.AllHarmless.append ?_ trivial
    refine harmless_loadReady cfg h.idents _ ?_ ?_
    · rw [hrecords]
      exact hinactive
    · rw [hfilled]
      exact hfinal
  refine ⟨⟨harena, ?_, hinv.distinct.sublist hjs, hinv.vouched.writes hharmless, ?_, ?_⟩,
    hharmless, rfl, ?_⟩
  · intro j hj
    have hok := hinv.jobs j (hjs.subset hj)
    refine hok.keep rfl (hkept j hj).2 (hother _ _ (hkept j hj).1).2 ?_
    intro m i' hs
    refine (hother m i' (hinv.slot_ne (hok.copy m i' hs).2.2 hslot (.inr ?_))).2
    rw [hinv.copy_source_ready (hjs.subset hj) hs, hnr]
    exact Bool.true_eq_false_eq_False
  · intro m k j hm hs hr
    by_cases hk : m = n ∧ k = key
    · obtain ⟨rfl, rfl⟩ := hk
      exact absurd (hready'.symm.trans hr) Bool.true_eq_false_eq_False
    obtain ⟨hs₀, hr₀⟩ := hslots m k j hs hk
    have hne : (m, j) ≠ (n, i) := by
      intro heq
      cases heq
      exact hk ⟨rfl, hinv.slot_unique hs₀ hslot⟩
    rw [(hother m j hne).1]
    exact hinv.filling m k j hm hs₀ (hr₀ ▸ hr)
  · intro m k j hm hs hr
    by_cases hk : m = n ∧ k = key
    · obtain ⟨rfl, rfl⟩ := hk
      have hji : j = i := some.inj (hs.symm.trans hslot')
      rw [hji, hcell]
      exact hfinal
    · obtain ⟨hs₀, hr₀⟩ := hslots m k j hs hk
      have hne : (m, j) ≠ (n, i) := by
        intro heq
        cases heq
        exact hk ⟨rfl, hinv.slot_unique hs₀ hslot⟩
      rw [(hother m j hne).2]
      exact hinv.ready m k j hm hs₀ (hr₀ ▸ hr)
  · intro m j hne
    obtain ⟨j', hj', heq⟩ := hplace
    refine (hother m j ?_).2
    rw [← heq]
    exact hne j' hj'

namespace HostInv

variable {j : Job size}

theorem complete (hinv : HostInv cfg moved h) (hj : j ∈ h.jobs) (hall : j.written = Finset.univ) :
    h.store.mem j.node j.slot = cfg.jobData h j := by
  funext o
  exact (hinv.jobs j hj).data o (hall ▸ Finset.mem_univ o)

variable {idx : ℕ}

section

variable (hinv : HostInv cfg moved h)
include hinv

theorem of_mem_eraseIdx {j' : Job size} (hj : h.jobs[idx]? = some j)
    (hj' : j' ∈ h.jobs.eraseIdx idx) :
    j' ∈ h.jobs ∧ (j'.node, j'.slot) ≠ (j.node, j.slot) := by
  refine ⟨List.mem_of_mem_eraseIdx hj', ?_⟩
  obtain ⟨idx', hne, hj'⟩ := List.mem_eraseIdx_iff_getElem?.mp hj'
  exact hinv.place_ne hj hj' hne

theorem finish {success : Bool} (hj : h.jobs[idx]? = some j) (hs : j.source = none)
    (hall : success = true → j.written = Finset.univ) :
    Fine cfg moved h (cfg.finish h j idx success) := by
  have hmem : j ∈ h.jobs := List.mem_of_getElem? hj
  have hok := hinv.jobs j hmem
  have hloc := hok.load hs
  unfold HostConfig.finish
  split
  · rename_i hsucc
    obtain ⟨hr, hcalls⟩ := markReady_spec hinv.arena none hloc hok.slot hok.notReady
    simp only [hcalls]
    refine Fine.publish hinv (hinv.arena.markReady j.key none) hok.node hok.slot hok.notReady ?_
      ((hr.slots _ _).trans hok.slot) hr.ready ?_ ⟨j, hmem, rfl⟩ (List.eraseIdx_sublist _ _) ?_
    · rw [hinv.complete hmem (hall hsucc)]
      unfold HostConfig.jobData
      rw [hs]
      exact .load
    · intro m k i hslot hne
      exact ⟨(hr.slots m k).symm.trans hslot, hr.others m k hne⟩
    · intro j' hj'
      obtain ⟨hmem', hne⟩ := hinv.of_mem_eraseIdx hj hj'
      refine ⟨hne, ?_, hr.locations _⟩
      intro m i hslot
      refine ⟨(hr.slots m _).trans hslot, hr.others m _ ?_⟩
      rintro ⟨_, hkey⟩
      exact hne (hinv.load_unique hmem hmem' hkey hs)
  · split
    · exact (Fine.clear hinv hloc hok.slot).drop idx
    · exact (Fine.idle hinv).drop idx

/-! ### Pins and evictions -/

theorem release {key : ExpertKey} (hop : cfg.arena.Contract h.arena (.releaseInflight key)) :
    Fine cfg moved h (cfg.after h (cfg.arena.releaseInflight h.arena key) [] h.jobs) :=
  Fine.same (n := 0) (i := 0) hinv (sameSlots_releaseInflight hinv.arena key)
    (hinv.arena.perform hop) fun _ hc => by cases hc

theorem evictKey (hquiet : quiet h = true) (key : ExpertKey) :
    Fine cfg moved h (cfg.after h (cfg.arena.evictKey h.arena key).1 [] h.jobs) := by
  have harena := hinv.arena.evictKey key
  rcases evictKey_spec hinv.arena key with hsame | ⟨hidle, n, hd⟩
  · exact Fine.same (n := 0) (i := 0) hinv hsame harena fun _ hc => by cases hc
  refine Fine.kills (n := 0) (i := 0) hinv harena (fun _ hc => by cases hc) ?_ ?_
  · intro m _ k j hslot
    have hne : ¬ (m = n ∧ k = key) := by
      rintro ⟨rfl, rfl⟩
      rw [hd.slot] at hslot
      cases hslot
    obtain ⟨hs, hr⟩ := hd.others m k hne
    exact .inl ⟨hs.symm.trans hslot, hr⟩
  · intro j hj
    have hne : j.key ≠ key := by
      rintro rfl
      exact hidle (hinv.anchored hquiet hj)
    refine ⟨?_, hd.locations _ hne⟩
    intro m i hs
    obtain ⟨hs', hr⟩ := hd.others m j.key fun hk => hne hk.2
    exact ⟨hs'.trans hs, hr⟩

/-! ### Relocations -/

theorem begun {a : PinnedArena ExpertKey} {target : ℕ} (harena : ArenaInv cfg.arena a)
    (hb : Begun cfg.arena h.arena a key target i) :
    Fine cfg moved h (cfg.after h a [.onReuse target i, .onLoadStart target i key] h.jobs) := by
  refine Fine.kills (n := target) (i := i) hinv harena ?_ ?_ ?_
  · intro c hc
    simp only [List.mem_cons, List.not_mem_nil, or_false] at hc
    rcases hc with rfl | rfl
    · exact .inl rfl
    · exact .inr ⟨key, rfl⟩
  · intro m _ k j hslot
    by_cases hk : m = target ∧ k = key
    · obtain ⟨rfl, rfl⟩ := hk
      have hji : j = i := some.inj (hslot.symm.trans hb.slot)
      rw [hji]
      exact .inr (.inl ⟨rfl, hb.notReady, by simp⟩)
    · obtain ⟨hs, hr⟩ := hb.others m k hk
      exact .inl ⟨hs.symm.trans hslot, hr⟩
  · intro j _
    refine ⟨?_, hb.locations _⟩
    intro m i' hs
    have hne : ¬ (m = target ∧ j.key = key) := by
      rintro ⟨rfl, hk⟩
      rw [hk, hb.fresh] at hs
      cases hs
    obtain ⟨hs', hr⟩ := hb.others m j.key hne
    exact ⟨hs'.trans hs, hr⟩

theorem relocate (key : ExpertKey) (target : ℕ) : Fine cfg moved h (cfg.relocate h key target) := by
  have harena := hinv.arena.migrateBegin key target
  unfold HostConfig.relocate
  rcases migrateBegin_spec hinv.arena key target with ⟨a, hsame, heq⟩ | ⟨a, i, hb, heq⟩
  · rw [heq] at harena ⊢
    exact Fine.same (n := 0) (i := 0) hinv hsame harena fun _ hc => by cases hc
  rw [heq] at harena ⊢
  have hbegun := hinv.begun harena hb
  obtain ⟨n, hne, hloc, hready⟩ := hb.source
  obtain ⟨i', hslot⟩ := slot_of_ready hready
  obtain ⟨hslot', hready'⟩ := hb.others n key fun hk => hne hk.1
  have hloc' := (hb.locations key).trans hloc
  have hsource := hslot'.trans hslot
  simp only [resolve_eq harena hloc' hsource (hready'.trans hready)]
  refine hbegun.push ⟨hb.node, hb.slot, hb.notReady, ?_, ?_, ?_⟩ ?_
  · intro hs
    cases hs
  · intro m j hs
    obtain ⟨rfl, rfl⟩ := Prod.mk.inj (some.inj hs)
    exact ⟨hne, hloc', hsource⟩
  · intro o ho
    simp at ho
  · -- a job of the key is on another node, for the target did not have the key
    intro j hj heq'
    obtain ⟨hnode, hslotj⟩ := Prod.mk.inj heq'
    have hheld : a.slotOf j.node j.key = some j.slot := (hbegun.inv.jobs j hj).slot
    rw [hnode, hslotj] at hheld
    have hkey := hbegun.inv.slot_unique hheld hb.slot
    have hold := (hinv.jobs j hj).slot
    rw [hnode, hkey, hb.fresh] at hold
    cases hold

theorem commit (hmoved : moved) (hj : h.jobs[idx]? = some j) (hs : j.source ≠ none)
    (hall : j.written = Finset.univ) :
    Fine cfg moved h (cfg.commit h j idx) := by
  have hmem : j ∈ h.jobs := List.mem_of_getElem? hj
  have hok := hinv.jobs j hmem
  obtain ⟨⟨m, i⟩, hsource⟩ := ne_none_iff_exists'.1 hs
  obtain ⟨hne, hloc, hslot⟩ := hok.copy m i hsource
  have hneloc : h.arena.location j.key ≠ some j.node := by
    rw [hloc, ne_eq, some.injEq]
    exact hne
  have harena := hinv.arena.migrateCommit hneloc
  unfold HostConfig.commit
  rcases migrateCommit_spec hinv.arena hneloc with heq | ⟨a, n, i', hc, hslot', heq⟩
  · rw [heq]
    exact Fine.idle hinv
  rw [heq] at harena ⊢
  obtain rfl : i' = j.slot := some.inj (hslot'.symm.trans hok.slot)
  obtain rfl : n = m := some.inj (hc.source.symm.trans hloc)
  refine Fine.publish hinv harena hok.node hok.slot hok.notReady ?_ (hc.slot.trans hok.slot)
    hc.ready ?_ ⟨j, hmem, rfl⟩ (List.eraseIdx_sublist _ _) ?_
  · rw [hinv.complete hmem hall]
    unfold HostConfig.jobData
    rw [hsource]
    have hn := ((hinv.arena.key j.key).located n hloc).1
    exact .move hmoved (hinv.ready n j.key i hn hslot (hinv.copy_source_ready hmem hsource))
  · intro m' k i' hs' hk
    have hk' : ¬ (k = j.key ∧ (m' = j.node ∨ m' = n)) := by
      rintro ⟨rfl, rfl | rfl⟩
      · exact hk ⟨rfl, rfl⟩
      · rw [hc.gone] at hs'
        cases hs'
    obtain ⟨hs₀, hr₀⟩ := hc.others m' k hk'
    exact ⟨hs₀.symm.trans hs', hr₀⟩
  · intro j' hj'
    obtain ⟨hmem', hplace⟩ := hinv.of_mem_eraseIdx hj hj'
    -- a second job of the key would be a second relocation of it
    have hkey : j'.key ≠ j.key := by
      intro hkey
      cases hs' : j'.source with
      | none => exact hplace (hinv.load_unique hmem' hmem hkey.symm hs').symm
      | some p =>
        have htarget := hinv.copy_target hmem' hs'
        rw [hkey] at htarget
        have hnode := hc.only _ htarget
        have hslotj := (hinv.jobs j' hmem').slot
        rw [hkey, hnode, hok.slot, some.injEq] at hslotj
        exact hplace (by rw [hnode, hslotj])
    refine ⟨hplace, ?_, hc.locations _ hkey⟩
    intro m' i' hs'
    obtain ⟨hs₀, hr₀⟩ := hc.others m' j'.key fun hk => hkey hk.1
    exact ⟨hs₀.trans hs', hr₀⟩

end

/-! ### Attaching -/

variable {st : Store β size}

theorem boot (cfg : HostConfig β size) (hst : cfg.Vouched moved st) (idents : List FileIdentity) :
    HostInv cfg moved (cfg.boot st idents) := by
  refine ⟨ArenaInv.init _ _, ?_, List.Pairwise.nil, hst, ?_, ?_⟩
  · intro j hj
    cases hj
  · intro n k i _ hslot
    cases hslot
  · intro n k i _ hslot
    cases hslot

theorem adopt_all (cfg : HostConfig β size) (found : List (ℕ × ℕ × ExpertKey))
    {s : PinnedArena ExpertKey} {P : ℕ → ExpertKey → ℕ → Prop} (hs : ArenaInv cfg.arena s)
    (hP : ∀ n k i, s.slotOf n k = some i → s.readyOf n k = true ∧ P n k i)
    (hfound : ∀ p ∈ found, P p.1 p.2.2 p.2.1) :
    let s' := found.foldl (fun a p => (cfg.arena.adoptReady a p.2.2 p.1 p.2.1).1) s
    ArenaInv cfg.arena s' ∧ ∀ n k i, s'.slotOf n k = some i → s'.readyOf n k = true ∧ P n k i := by
  induction found generalizing s with
  | nil => exact ⟨hs, hP⟩
  | cons p found ih =>
    refine ih (hs.adoptReady p.2.2 p.1 p.2.1) ?_ fun q hq => hfound q (List.mem_cons_of_mem _ hq)
    rcases adoptReady_spec hs p.2.2 p.1 p.2.1 with heq | ⟨_, had⟩
    · simp only [heq]
      exact hP
    intro n k i hslot
    by_cases hk : n = p.1 ∧ k = p.2.2
    · obtain ⟨rfl, rfl⟩ := hk
      have hi : i = p.2.1 := some.inj (hslot.symm.trans had.slot)
      rw [hi]
      exact ⟨had.ready, hfound p List.mem_cons_self⟩
    · obtain ⟨hs₀, hr₀⟩ := had.others n k hk
      rw [hr₀]
      exact hP n k i (hs₀.symm.trans hslot)

theorem harmless_reset (cfg : HostConfig β size) (moved : Prop) (st : Store β size)
    (ps : List (ℕ × ℕ)) :
    cfg.AllHarmless moved st (ps.map fun p => PWrite.state p.1 p.2 .empty) ∧
      (st.writes (ps.map fun p => PWrite.state p.1 p.2 .empty)).mem = st.mem := by
  induction ps generalizing st with
  | nil => exact ⟨trivial, rfl⟩
  | cons p ps ih =>
    obtain ⟨hh, hm⟩ := ih (st.write (.state p.1 p.2 .empty))
    exact ⟨⟨fun hv => (by cases hv), hh⟩, hm⟩

theorem restart (hst : cfg.Vouched moved st) (idents : List FileIdentity)
    (numLayers numExperts : ℕ) :
    HostInv cfg moved (cfg.restart st idents numLayers numExperts).1 ∧
      cfg.AllHarmless moved st (cfg.restart st idents numLayers numExperts).2 := by
  obtain ⟨hharmless, hmem⟩ := harmless_reset cfg moved st
    (cfg.cache.scanAdoptable idents numLayers numExperts st cfg.slots).reset
  obtain ⟨harena, hheld⟩ := adopt_all cfg
    (cfg.cache.scanAdoptable idents numLayers numExperts st cfg.slots).adopted
    (P := fun n k i => cfg.Final moved (identOf idents k) k (st.mem n i))
    (ArenaInv.init cfg.arena cfg.numSlots) (fun n k i hs => by cases hs)
    (fun p hp => final_of_adopted hst hp)
  refine ⟨⟨harena, ?_, List.Pairwise.nil, hst.writes hharmless, ?_, ?_⟩, hharmless⟩
  · intro j hj
    cases hj
  · intro n k i _ hslot hready
    exact absurd ((hheld n k i hslot).1.symm.trans hready) Bool.true_eq_false_eq_False
  · intro n k i _ hslot _
    have hcell : (cfg.restart st idents numLayers numExperts).1.store.mem n i = st.mem n i :=
      congrFun (congrFun hmem n) i
    rw [hcell]
    exact (hheld n k i hslot).2

theorem perform (hinv : HostInv cfg moved h) {op : HostOp size}
    {r : Host β size × List (PWrite β size)} (hmoved : (∃ idx, op = .commit idx) → moved)
    (hr : cfg.perform h op = some r) : Fine cfg moved h r := by
  cases op with
  | request key gpu mode =>
    simp only [HostConfig.perform, ite_none_right_eq_some, some.injEq] at hr
    obtain ⟨hquiet, rfl⟩ := hr
    exact hinv.request hquiet key gpu mode
  | preload key planned gpu =>
    simp only [HostConfig.perform, ite_none_left_eq_some, some.injEq] at hr
    obtain ⟨hnone, rfl⟩ := hr
    refine hinv.preload ?_ planned gpu
    intro j hj heq
    exact hnone (List.any_eq_true.2 ⟨j, hj, by simpa using heq⟩)
  | write idx o =>
    simp only [HostConfig.perform, map_eq_some_iff] at hr
    obtain ⟨j, hj, rfl⟩ := hr
    exact hinv.writeByte hj o
  | finish idx success =>
    simp only [HostConfig.perform, bind_eq_some_iff, ite_none_right_eq_some,
      some.injEq] at hr
    obtain ⟨j, hj, ⟨hs, hall⟩, rfl⟩ := hr
    exact hinv.finish hj hs hall
  | release key =>
    simp only [HostConfig.perform, ite_none_right_eq_some, some.injEq] at hr
    obtain ⟨hop, rfl⟩ := hr
    exact hinv.release hop
  | evictKey key =>
    simp only [HostConfig.perform, ite_none_right_eq_some, some.injEq] at hr
    obtain ⟨hquiet, rfl⟩ := hr
    exact hinv.evictKey hquiet key
  | relocate key target =>
    simp only [HostConfig.perform, ite_none_right_eq_some, some.injEq] at hr
    obtain ⟨_, rfl⟩ := hr
    exact hinv.relocate key target
  | commit idx =>
    simp only [HostConfig.perform, bind_eq_some_iff, ite_none_right_eq_some,
      some.injEq] at hr
    obtain ⟨j, hj, ⟨_, hs, hall⟩, rfl⟩ := hr
    exact hinv.commit (hmoved ⟨idx, rfl⟩) hj hs hall
  | restart idents numLayers numExperts =>
    simp only [HostConfig.perform, some.injEq] at hr
    obtain rfl := hr
    obtain ⟨hinv', hharmless⟩ := restart hinv.vouched idents numLayers numExperts
    refine ⟨hinv', hharmless, rfl, ?_⟩
    intro m i _
    exact congrFun (congrFun (harmless_reset cfg moved h.store _).2 m) i

theorem step {s s' : Host β size × List (PWrite β size)} {e : HostConfig.Event size}
    (hinv : HostInv cfg moved s.1) (hmoved : e.Commits → moved) (hstep : cfg.step s e = some s') :
    HostInv cfg moved s'.1 := by
  cases e with
  | op op =>
    simp only [HostConfig.step, map_eq_some_iff] at hstep
    obtain ⟨r, hr, rfl⟩ := hstep
    exact (hinv.perform hmoved hr).inv
  | crash op done =>
    simp only [HostConfig.step, map_eq_some_iff] at hstep
    obtain ⟨r, hr, rfl⟩ := hstep
    exact boot cfg (hinv.vouched.take (hinv.perform hmoved hr).harmless done) _

theorem init (cfg : HostConfig β size) (mem : ℕ → ℕ → Fin size → β) (idents : List FileIdentity) :
    HostInv cfg moved (cfg.init mem idents).1 := by
  refine boot cfg ?_ idents
  intro n i hactive
  cases hactive

end HostInv

end LayerStorm.Memory
