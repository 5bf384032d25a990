import LayerStorm.Daemon.V4TieringInvariant

/-!
# Tiering preserves contents and conserves pages

`ensure_hot` promotes its pages one by one and drops the cold copies at the end.  When the pool
refuses a page in the middle, the pages before it are hot and still have their cold copies; a
retry promotes them again, into other pages, and the first ones are lost.  When the pool grants
all pages of a call or refuses the first one, tiering changes the place of the bytes and
nothing else.

## Main results

* `tiering_preserved` — so does every run of such calls.
* `promoted_page_lost` — a refusal in the middle and a retry lose a page.
-/

namespace LayerStorm.Daemon

open List
namespace V4

open Lib

variable {V : Type} {o : TieringOptions} {w : Tiering V}

/-! ### The property -/

/-- **Tiering changes the place of the bytes and nothing else.** -/
structure Preserved (o : TieringOptions) (w : Tiering V) : Prop where
  hot_xor_cold : ∀ s l lp, l < o.kvLayers → lp < w.numLogical s →
    Xor (∃ p, w.kvPages ⟨s, l, lp⟩ = some p) ((l, lp) ∈ w.cold s)
  /-- A page that is hot again holds on every rank the bytes it had when it was demoted. -/
  hot_again : ∀ k p b, w.kvPages k = some p → w.demoted k = some b →
    ∀ r < o.dcpSize, ∀ off < o.pageTokens, w.mem r p off = b off
  /-- Hot pages hold what was written. -/
  hot_content : ∀ k p, w.kvPages k = some p → ∀ r < o.dcpSize, ∀ off < o.pageTokens,
    k.logical * o.pageTokens + off < w.len k.seq k.layer →
      w.mem r p off = w.view k.seq k.layer (k.logical * o.pageTokens + off)
  /-- Cold copies hold what was written. -/
  cold_content : ∀ s l lp b, (w.cold s).lookup (l, lp) = some b →
    ∀ off < o.pageTokens, b off = w.view s l (lp * o.pageTokens + off)
  /-- A page of the pool is referred to by the page lists that hold it, and by nothing else: no
  page is handed out and lost. -/
  conserved : ∀ k p, k ∈ w.held p ↔ w.kvPages k = some p
  window : ∀ s l lp, (l, lp) ∈ w.cold s → (lp + 1) * o.pageTokens + o.retention ≤ w.len s l

/-- Every selected block is hot, and every row of its step names its page. -/
def SelectedHot (o : TieringOptions) (w : Tiering V) (seq layer : ℕ)
    (sel : Tiering.Selection) : Prop :=
  ∀ block ∈ sel.blocks, 0 ≤ block → block.toNat / o.blocksPerPage < w.numLogical seq →
    ∃ p, w.kvPages ⟨seq, layer, block.toNat / o.blocksPerPage⟩ = some p ∧
      ∀ st ∈ w.stepBt, st.seq = seq → st.layer = layer → block.toNat / o.blocksPerPage < st.len →
          ∀ row ∈ st.rows, row (block.toNat / o.blocksPerPage) = some p

/-- **The condition**: when a call needs pages, the pool refuses the first one or grants them
all. -/
def GrantedAtOnce (o : TieringOptions) (w : Tiering V) : Action V → Prop
  | .ensureHot seq layer sel answers =>
    answers.head?.join = none ∨ (Tiering.neededPages o (w.cold seq) layer sel.blocks).length ≤
        (answers.takeWhile Option.isSome).length
  | _ => True

theorem Tiered.preserved (h : Tiered o w) : Preserved o w where
  hot_xor_cold := by
    intro s l lp hl hlp
    have hiff := h.hot_or_cold s l lp hl hlp id
    rcases hpage : w.kvPages ⟨s, l, lp⟩ with _ | p
    · exact .inr ⟨hiff.1 hpage, by simp⟩
    refine .inl ⟨⟨p, rfl⟩, fun hmem => ?_⟩
    rw [hiff.2 hmem] at hpage
    cases hpage
  hot_again := by
    intro k p b hp hb r hr off hoff
    obtain ⟨hbehind, hbytes⟩ := h.demoted_content k b hb
    rw [hbytes off hoff]
    refine h.hot_content k p hp r hr off hoff ?_
    have hmul : (k.logical + 1) * o.pageTokens = k.logical * o.pageTokens + o.pageTokens := by
      ring
    omega
  hot_content := h.hot_content
  cold_content := fun s l lp b hb => (h.cold_content s l lp b hb).2
  conserved := h.refs
  window := by
    intro s l lp hmem
    obtain ⟨b, hb⟩ := Map.mem_iff.1 hmem
    exact (h.cold_content s l lp b hb).1

/-! ### The pages of a call -/

/-- **The pages that a call collects** are the cold pages of the selected blocks, each once. -/
theorem neededPages_spec (o : TieringOptions) (cold : Map (ℕ × ℕ) (Page V)) (layer : ℕ)
    (blocks : List ℤ) :
    (Tiering.neededPages o cold layer blocks).Nodup ∧
      ∀ lp, lp ∈ Tiering.neededPages o cold layer blocks ↔
        (layer, lp) ∈ cold ∧ ∃ b ∈ blocks, 0 ≤ b ∧ b.toNat / o.blocksPerPage = lp := by
  unfold Tiering.neededPages
  induction blocks using reverseRecOn with
  | nil => simp
  | append_singleton blocks b ih =>
    obtain ⟨hnodup, hmem⟩ := ih
    rw [foldl_append, foldl_cons, foldl_nil]
    split
    next hneg =>
      refine ⟨hnodup, fun lp => (hmem lp).trans ?_⟩
      have : ¬ 0 ≤ b := not_le.2 hneg
      simp [this, or_and_right, exists_or]
    next hneg =>
      have hb : 0 ≤ b := not_lt.1 hneg
      split
      next hcold =>
        refine ⟨hnodup, fun lp => (hmem lp).trans ?_⟩
        constructor
        · rintro ⟨hlp, b', hb', hrest⟩
          exact ⟨hlp, b', mem_append_left _ hb', hrest⟩
        · rintro ⟨hlp, b', hb', hpos, rfl⟩
          rcases mem_append.1 hb' with hb' | hb'
          · exact ⟨hlp, b', hb', hpos, rfl⟩
          · obtain rfl := mem_singleton.1 hb'
            exact absurd hlp hcold
      next hcold =>
        rw [not_not] at hcold
        split
        next hin =>
          refine ⟨hnodup, fun lp => ?_⟩
          constructor
          · intro hlp
            obtain ⟨hlpc, b', hb', hrest⟩ := (hmem lp).1 hlp
            exact ⟨hlpc, b', mem_append_left _ hb', hrest⟩
          · rintro ⟨hlp, b', hb', hpos, rfl⟩
            rcases mem_append.1 hb' with hb' | hb'
            · exact (hmem _).2 ⟨hlp, b', hb', hpos, rfl⟩
            · obtain rfl := mem_singleton.1 hb'
              exact hin
        next hin =>
          refine ⟨?_, fun lp => ?_⟩
          · rw [nodup_append]
            refine ⟨hnodup, nodup_singleton _, ?_⟩
            intro x hx y hy heq
            obtain rfl := mem_singleton.1 hy
            exact hin (heq ▸ hx)
          · rw [mem_append, hmem, mem_singleton]
            constructor
            · rintro (⟨hlpc, b', hb', hrest⟩ | rfl)
              · exact ⟨hlpc, b', mem_append_left _ hb', hrest⟩
              · exact ⟨hcold, b, mem_append_right _ mem_cons_self, hb, rfl⟩
            · rintro ⟨hlp, b', hb', hpos, rfl⟩
              rcases mem_append.1 hb' with hb' | hb'
              · exact .inl ⟨hlp, b', hb', hpos, rfl⟩
              · obtain rfl := mem_singleton.1 hb'
                exact .inr rfl

/-! ### A call -/

namespace TierInv

theorem repromoteAll {s l : ℕ} :
    ∀ (lps : List ℕ) (answers : List (Option ℕ)) (w : Tiering V) (twice : PageKey → Prop)
      (res : Bool × Tiering V), TierInv o twice w → lps.Nodup →
      (∀ lp ∈ lps, (l, lp) ∈ w.cold s ∧ ¬ twice ⟨s, l, lp⟩) →
      (∀ st ∈ w.stepBt, st.seq = s ∧ st.layer = l) →
      lps.length ≤ (answers.takeWhile Option.isSome).length →
      Tiering.repromoteAll o s l lps answers w = some res →
      res.1 = true ∧ res.2.cold = w.cold ∧
        TierInv o (fun k => (k.seq = s ∧ k.layer = l ∧ k.logical ∈ lps) ∨ twice k) res.2 := by
  intro lps
  induction lps with
  | nil =>
    intro answers w twice res h _ _ _ _ hres
    cases hres
    refine ⟨rfl, rfl, ?_⟩
    simpa using h
  | cons lp lps ih =>
    intro answers w twice res h hnodup hlps hstep hlen hres
    rcases answers with _ | ⟨_ | page, answers⟩
    · simp at hlen
    · simp at hlen
    have hlen' : lps.length ≤ (answers.takeWhile Option.isSome).length := by
      simpa using hlen
    obtain ⟨hlp, hlps'⟩ := nodup_cons.1 hnodup
    obtain ⟨hcold, hno⟩ := hlps lp mem_cons_self
    obtain ⟨bytes, hbytes⟩ := Map.mem_iff.1 hcold
    have hrange := h.cold_range _ _ _ hcold
    have hneutral : w.kvPages ⟨s, l, lp⟩ = none :=
      (h.hot_or_cold s l lp hrange.1 hrange.2 hno).2 hcold
    simp only [Tiering.repromoteAll, head?_cons, Option.join_some, hbytes, tail_cons] at hres
    split at hres
    next hfresh =>
      have hone := h.repromote (k := PageKey.mk s l lp) hbytes hneutral hfresh hstep
      have hnext := ih answers _ _ res hone hlps' ?_ ?_ hlen' hres
      · obtain ⟨htrue, hsame, hinv⟩ := hnext
        refine ⟨htrue, hsame, ?_⟩
        have hset : (fun k : PageKey => (k.seq = s ∧ k.layer = l ∧ k.logical ∈ lps) ∨
              (k = ⟨s, l, lp⟩ ∨ twice k)) =
            fun k => (k.seq = s ∧ k.layer = l ∧ k.logical ∈ lp :: lps) ∨ twice k := by
          funext ⟨ks, kl, klog⟩
          simp only [PageKey.mk.injEq, mem_cons, eq_iff_iff]
          tauto
        rw [← hset]
        exact hinv
      · intro lp' hlp'
        refine ⟨(hlps lp' (mem_cons_of_mem _ hlp')).1, ?_⟩
        rintro (heq | htw)
        · obtain ⟨-, -, rfl⟩ := PageKey.mk.inj heq
          exact hlp hlp'
        · exact (hlps lp' (mem_cons_of_mem _ hlp')).2 htw
      · intro st hst
        obtain ⟨st₀, hst₀, rfl⟩ := Option.mem_map.1 hst
        exact hstep st₀ hst₀
    next => cases hres

variable {sel : Tiering.Selection}

theorem selectedHot (h : Tiered o w) {s l : ℕ} (hl : l < o.kvLayers)
    (hcold : ∀ b ∈ sel.blocks, 0 ≤ b → (l, b.toNat / o.blocksPerPage) ∉ w.cold s) :
    SelectedHot o w s l sel := by
  intro b hb hpos hlog
  have hhot := mt (h.hot_or_cold s l _ hl hlog id).1 (hcold b hb hpos)
  obtain ⟨p, hp⟩ := Option.ne_none_iff_exists'.1 hhot
  refine ⟨p, hp, ?_⟩
  rintro st hst rfl rfl hlt row hrow
  exact (h.rows st hst).2.2 row hrow _ hlt p hp

theorem ensureHot (h : Tiered o w) {s l : ℕ} {answers : List (Option ℕ)} {res : Bool × Tiering V}
    (hok : GrantedAtOnce o w (.ensureHot s l sel answers))
    (hres : w.ensureHot o s l sel answers = some res) :
    Tiered o res.2 ∧ (l < o.kvLayers → res.1 = true → SelectedHot o res.2 s l sel) := by
  unfold Tiering.ensureHot at hres
  split at hres
  next hempty =>
    cases hres
    refine ⟨h, fun hl _ => h.selectedHot hl fun b _ _ hmem => ?_⟩
    rw [AList.mem_keys, hempty] at hmem
    exact absurd hmem not_mem_nil
  next =>
    split at hres
    next =>
      cases hres
      exact ⟨h, fun _ hfalse => absurd hfalse (by simp)⟩
    next st hst =>
      split at hres
      next hctx =>
        obtain ⟨hnodup, hmem⟩ := neededPages_spec o (w.cold s) l sel.blocks
        simp only [Option.map_eq_some_iff] at hres
        obtain ⟨res₀, hloop, rfl⟩ := hres
        have hstep : ∀ st' ∈ w.stepBt, st'.seq = s ∧ st'.layer = l := by
          intro st' hst'
          obtain rfl : st = st' := Option.some.inj (hst.symm.trans hst')
          exact hctx
        by_cases hgrant : (Tiering.neededPages o (w.cold s) l sel.blocks).length ≤
            (answers.takeWhile Option.isSome).length
        · obtain ⟨htrue, hcold, hinv⟩ := repromoteAll _ answers w _ res₀ h hnodup
            (fun lp hlp => ⟨((hmem lp).1 hlp).1, id⟩) hstep hgrant hloop
          have hdrop : Tiered o (res₀.2.dropCold s l
              (Tiering.neededPages o (w.cold s) l sel.blocks)) := by
            refine dropCold ?_
            simpa using hinv
          rw [if_pos htrue]
          refine ⟨hdrop, fun hl _ => hdrop.selectedHot hl fun b hb hpos hin => ?_⟩
          obtain ⟨hin, hno⟩ := mem_dropCold.1 hin
          rw [hcold] at hin
          exact hno ⟨rfl, rfl, (hmem _).2 ⟨hin, b, hb, hpos, rfl⟩⟩
        · -- the first page is refused, and nothing has been done yet
          have hrefused : answers.head?.join = none := hok.resolve_right hgrant
          rcases hneed : Tiering.neededPages o (w.cold s) l sel.blocks with _ | ⟨lp, lps⟩
          · exact absurd (by simp [hneed]) hgrant
          rw [hneed] at hloop
          simp only [Tiering.repromoteAll, hrefused, Option.some.injEq] at hloop
          subst hloop
          exact ⟨h, fun _ hfalse => absurd hfalse (by simp)⟩
      next =>
        cases hres
        exact ⟨h, fun _ hfalse => absurd hfalse (by simp)⟩

theorem step (h : Tiered o w) {a : Action V} {w' : Tiering V} (hok : GrantedAtOnce o w a)
    (hstep : V4.step o w a = some w') : Tiered o w' := by
  cases a with
  | create seq =>
    simp only [V4.step] at hstep
    split at hstep
    next => cases hstep
    next hs =>
      cases hstep
      exact h.create hs
  | grow seq pages =>
    simp only [V4.step] at hstep
    split at hstep
    next hg =>
      cases hstep
      exact h.grow hg.1 hg.2.1 hg.2.2.1 hg.2.2.2
    next => cases hstep
  | write seq layer v =>
    simp only [V4.step] at hstep
    split at hstep
    next => cases hstep
    next page hpage =>
      split at hstep
      next hothers =>
        cases hstep
        exact h.write hpage hothers
      next => cases hstep
  | setStepBt seq layer len =>
    simp only [V4.step] at hstep
    split at hstep
    next hs =>
      cases hstep
      exact h.setStepBt hs.1 hs.2
    next => cases hstep
  | ensureHot seq layer sel answers =>
    simp only [V4.step, Option.map_eq_some_iff] at hstep
    obtain ⟨res, hres, rfl⟩ := hstep
    exact (h.ensureHot hok hres).1
  | afterAttention seq layer pos =>
    simp only [V4.step] at hstep
    split at hstep
    next hpos =>
      cases hstep
      exact h.afterAttention hpos.2
    next => cases hstep
  | fork src dst =>
    simp only [V4.step] at hstep
    split at hstep
    next hs =>
      cases hstep
      exact h.fork hs.1 hs.2
    next => cases hstep
  | cowCopy k fresh =>
    simp only [V4.step] at hstep
    split at hstep
    next => cases hstep
    next page hpage =>
      split at hstep
      next hs =>
        cases hstep
        exact h.cowCopy hpage hs.1 hs.2
      next => cases hstep
  | free seq =>
    simp only [V4.step] at hstep
    split at hstep
    next =>
      cases hstep
      exact h.release seq
    next => cases hstep

end TierInv

/-! ### Runs -/

/-- **Tiering preserves contents and conserves pages** in every run whose promotions are granted
at once; and each of its calls that returns has made the selected blocks hot. -/
theorem tiering_preserved [Inhabited V] {as : List (Action V)}
    (hrun : GuardedRun (step o) (GrantedAtOnce o) Tiering.init as w) :
    Preserved o w ∧ ∀ seq layer sel answers w', layer < o.kvLayers →
      GrantedAtOnce o w (.ensureHot seq layer sel answers) →
      w.ensureHot o seq layer sel answers = some (true, w') → SelectedHot o w' seq layer sel := by
  have hinv : Tiered o w := hrun.invariant (I := Tiered o)
    (fun _ _ _ h hok hst => TierInv.step h hok hst) Tiered.init
  refine ⟨hinv.preserved, ?_⟩
  intro seq layer sel answers w' hl hok hres
  exact (hinv.ensureHot hok hres).2 hl rfl

/-- One rank, one layer, pages of one token, and a window of one token. -/
def tinyOptions : TieringOptions where
  dcpSize := 1
  dcp_pos := Nat.one_pos
  csaRatio := 1
  pageTokens := 1
  page_pos := Nat.one_pos
  retentionTokens := 1
  indexTopk := 1
  coldCapPages := 8
  csaLayers := [true]
  kvLayers := 1

/-- A sequence of three tokens, two of which are demoted, about to attend to all. -/
def twoColdPages : List (Action ℕ) :=
  [.create 0, .grow 0 [10], .grow 0 [11], .grow 0 [12], .write 0 0 5, .write 0 0 6,
    .write 0 0 7, .afterAttention 0 0 2, .setStepBt 0 0 3]

/-- Both pages are promoted at once after a refusal, and the sequence is forked. -/
theorem tiering_preserved_two_pages :
    ∃ as w, GuardedRun (step tinyOptions) (GrantedAtOnce tinyOptions)
        (Tiering.init : Tiering ℕ) as w ∧
      w.statDemotes = 2 ∧ w.statRepromotes = 2 ∧ w.kvPages ⟨1, 0, 0⟩ = some 20 ∧
      Preserved tinyOptions w := by
  obtain ⟨w, hrun, hdemotes, hrepromotes, hpage⟩ :
      ∃ w, GuardedRun (step tinyOptions) (GrantedAtOnce tinyOptions) (Tiering.init : Tiering ℕ)
        (twoColdPages ++ [.ensureHot 0 0 (.ids [0, -1, 1]) [none],
          .ensureHot 0 0 (.ids [0, -1, 1]) [some 20, some 21], .fork 0 1]) w ∧
      w.statDemotes = 2 ∧ w.statRepromotes = 2 ∧ w.kvPages ⟨1, 0, 0⟩ = some 20 := by
    refine ⟨_, .cons trivial rfl <| .cons trivial rfl <| .cons trivial rfl <|
      .cons trivial rfl <| .cons trivial rfl <| .cons trivial rfl <| .cons trivial rfl <|
      .cons trivial rfl <| .cons trivial rfl <| .cons (.inl rfl) rfl <|
      .cons (.inr ?_) rfl <| .cons trivial rfl <| .nil _, rfl, rfl, rfl⟩
    decide
  exact ⟨_, w, hrun, hdemotes, hrepromotes, hpage, (tiering_preserved hrun).1⟩

/-- **A refusal in the middle and a retry lose a page**: after the refusal the first page is hot
and cold, and after the retry the page that was handed out first belongs to no list. -/
theorem promoted_page_lost : ∃ w w', Run (step tinyOptions) (Tiering.init : Tiering ℕ)
        (twoColdPages ++ [.ensureHot 0 0 (.ids [0, 1]) [some 20, none]]) w ∧
      w.kvPages ⟨0, 0, 0⟩ = some 20 ∧ (0, 0) ∈ w.cold 0 ∧ ¬ Preserved tinyOptions w ∧
      w.ensureHot tinyOptions 0 0 (.ids [0, 1]) [some 21, some 22] = some (true, w') ∧
      ⟨0, 0, 0⟩ ∈ w'.held 20 ∧ w'.kvPages ⟨0, 0, 0⟩ = some 21 ∧ ¬ Preserved tinyOptions w' := by
  obtain ⟨w, w', hw, hpage, hcold, hlog, hw', hheld, hpage'⟩ : ∃ w w',
      (twoColdPages ++ [Action.ensureHot 0 0 (.ids [0, 1]) [some 20, none]]).foldlM
        (step tinyOptions) (Tiering.init : Tiering ℕ) = some w ∧
      w.kvPages ⟨0, 0, 0⟩ = some 20 ∧ (0, 0) ∈ w.cold 0 ∧ 0 < w.numLogical 0 ∧
      w.ensureHot tinyOptions 0 0 (.ids [0, 1]) [some 21, some 22] = some (true, w') ∧
      PageKey.mk 0 0 0 ∈ w'.held 20 ∧ w'.kvPages ⟨0, 0, 0⟩ = some 21 :=
    ⟨_, _, rfl, rfl, by decide, by decide, rfl, by decide, rfl⟩
  refine ⟨w, w', Run.of_foldlM hw, hpage, hcold, ?_, hw', hheld, hpage', ?_⟩
  · intro hpres
    rcases hpres.hot_xor_cold 0 0 0 Nat.one_pos hlog with ⟨-, hno⟩ | ⟨-, hno⟩
    · exact hno hcold
    · exact hno ⟨20, hpage⟩
  · intro hpres
    have := (hpres.conserved _ _).1 hheld
    rw [hpage'] at this
    exact absurd this (by decide)

end V4
end LayerStorm.Daemon
