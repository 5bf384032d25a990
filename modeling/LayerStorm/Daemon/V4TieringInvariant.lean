import LayerStorm.Daemon.V4KvTiering

/-!
# The invariant of the tiering

Every logical page is hot or cold and not both, hot pages hold on every rank what was written
to them, cold copies hold the same, the pool refers to the entries of the page lists and to
nothing else, and a cold page lies behind the retention window.  While pages are promoted, the
ones already promoted still have their cold copies: the invariant takes them as a parameter.
-/

namespace LayerStorm.Daemon

open List Nat Function
namespace V4

open Lib

variable {V : Type} {o : TieringOptions} {w : Tiering V}

/-- **The invariant**; the entries of `twice` are hot and have a cold copy as well. -/
structure TierInv (o : TieringOptions) (twice : PageKey → Prop) (w : Tiering V) : Prop where
  live_used : ∀ s ∈ w.live, s ∈ w.used
  dead : ∀ s, s ∉ w.live → w.numLogical s = 0
  len_le : ∀ s ∈ w.live, ∀ l, w.len s l ≤ w.numLogical s * o.pageTokens
  hot_range : ∀ k p, w.kvPages k = some p → k.layer < o.kvLayers ∧ k.logical < w.numLogical k.seq
  cold_range : ∀ s l lp, (l, lp) ∈ w.cold s → l < o.kvLayers ∧ lp < w.numLogical s
  hot_or_cold : ∀ s l lp, l < o.kvLayers → lp < w.numLogical s → ¬ twice ⟨s, l, lp⟩ →
    (w.kvPages ⟨s, l, lp⟩ = none ↔ (l, lp) ∈ w.cold s)
  twice_hot : ∀ k, twice k → ∃ p, w.kvPages k = some p
  refs : ∀ k p, k ∈ w.held p ↔ w.kvPages k = some p
  refs_nodup : ∀ p, (w.held p).Nodup
  kin : ∀ k k' p, w.kvPages k = some p → w.kvPages k' = some p →
    k'.layer = k.layer ∧ k'.logical = k.logical
  hot_content : ∀ k p, w.kvPages k = some p → ∀ r < o.dcpSize, ∀ off < o.pageTokens,
    k.logical * o.pageTokens + off < w.len k.seq k.layer →
      w.mem r p off = w.view k.seq k.layer (k.logical * o.pageTokens + off)
  cold_content : ∀ s l lp b, (w.cold s).lookup (l, lp) = some b →
    (lp + 1) * o.pageTokens + o.retention ≤ w.len s l ∧
      ∀ off < o.pageTokens, b off = w.view s l (lp * o.pageTokens + off)
  demoted_content : ∀ k b, w.demoted k = some b →
    (k.logical + 1) * o.pageTokens ≤ w.len k.seq k.layer ∧
      ∀ off < o.pageTokens, b off = w.view k.seq k.layer (k.logical * o.pageTokens + off)
  rows : ∀ st ∈ w.stepBt, st.seq ∈ w.used ∧ (st.seq ∈ w.live → st.len ≤ w.numLogical st.seq) ∧
    ∀ row ∈ st.rows, ∀ lp < st.len, ∀ p, w.kvPages ⟨st.seq, st.layer, lp⟩ = some p → row lp = some p

/-- No entry is hot and cold. -/
abbrev Tiered (o : TieringOptions) (w : Tiering V) : Prop := TierInv o (fun _ => False) w

theorem Tiered.init [Inhabited V] : Tiered o (Tiering.init : Tiering V) where
  live_used := fun s hs => absurd hs not_mem_nil
  dead := fun _ _ => rfl
  len_le := fun s hs => absurd hs not_mem_nil
  hot_range := fun k p h => by simp [Tiering.init] at h
  cold_range := fun s l lp h => absurd h (AList.notMem_empty _)
  hot_or_cold := fun s l lp _ h _ => absurd h (not_lt_zero _)
  twice_hot := fun _ h => absurd h id
  refs := fun k p => by simp [Tiering.init]
  refs_nodup := fun p => nodup_nil
  kin := fun k k' p h => by simp [Tiering.init] at h
  hot_content := fun k p h => by simp [Tiering.init] at h
  cold_content := fun s l lp b h => by simp [Tiering.init] at h
  demoted_content := fun k b h => by simp [Tiering.init] at h
  rows := fun st h => by simp [Tiering.init] at h

namespace TierInv

/-! ### Demotion -/

variable {m : Map (ℕ × ℕ) (Page V)}

theorem mem_emplace {k a : ℕ × ℕ} {b : Page V} : a ∈ Tiering.emplace m k b ↔ a = k ∨ a ∈ m := by
  unfold Tiering.emplace
  split
  next h =>
    constructor
    · exact .inr
    · rintro (rfl | ha)
      · exact h
      · exact ha
  next => rw [AList.mem_insert]

theorem lookup_emplace {k a : ℕ × ℕ} {b c : Page V}
    (h : (Tiering.emplace m k b).lookup a = some c) :
    (a = k ∧ b = c) ∨ m.lookup a = some c := by
  unfold Tiering.emplace at h
  split at h
  next => exact .inr h
  next =>
    rcases Map.lookup_insert_iff.1 h with h | h
    · exact .inl h
    · exact .inr h.2

variable {k : PageKey} {page : ℕ}

theorem demote (h : Tiered o w) (hk : w.kvPages k = some page)
    (hret : (k.logical + 1) * o.pageTokens + o.retention ≤ w.len k.seq k.layer) :
    Tiered o (w.demote k page) := by
  obtain ⟨s, l, lp⟩ := k
  have hrange := h.hot_range _ _ hk
  have hbytes : ∀ off < o.pageTokens, w.mem 0 page off = w.view s l (lp * o.pageTokens + off) := by
    intro off hoff
    refine h.hot_content _ _ hk 0 o.dcp_pos off hoff ?_
    have hlen : (lp + 1) * o.pageTokens + o.retention ≤ w.len s l := hret
    have hmul : (lp + 1) * o.pageTokens = lp * o.pageTokens + o.pageTokens := by ring
    show lp * o.pageTokens + off < w.len s l
    omega
  have hpages : ∀ k p, (w.demote ⟨s, l, lp⟩ page).kvPages k = some p ↔
      k ≠ ⟨s, l, lp⟩ ∧ w.kvPages k = some p := by
    intro k p
    by_cases hkey : k = ⟨s, l, lp⟩
    · subst hkey
      simp [Tiering.demote]
    · simp [Tiering.demote, hkey]
  have hcold : ∀ s' a, a ∈ (w.demote ⟨s, l, lp⟩ page).cold s' ↔
      (s' = s ∧ a = (l, lp)) ∨ a ∈ w.cold s' := by
    intro s' a
    by_cases hs : s' = s
    · subst hs
      simp [Tiering.demote, mem_emplace]
    · simp [Tiering.demote, hs]
  refine ⟨h.live_used, h.dead, h.len_le, ?hot_range, ?cold_range, ?hot_or_cold,
    fun _ hf => absurd hf id, ?refs, ?refs_nodup, ?kin, ?hot_content, ?cold_content,
    ?demoted_content, ?rows⟩
  case hot_range =>
    intro k p hp
    exact h.hot_range k p ((hpages k p).1 hp).2
  case cold_range =>
    intro s' l' lp' hmem
    rcases (hcold _ _).1 hmem with ⟨rfl, heq⟩ | hmem
    · cases heq
      exact hrange
    · exact h.cold_range s' l' lp' hmem
  case hot_or_cold =>
    intro s' l' lp' hl hlp hno
    rw [hcold, ← h.hot_or_cold s' l' lp' hl hlp hno]
    by_cases hkey : (⟨s', l', lp'⟩ : PageKey) = ⟨s, l, lp⟩
    · obtain ⟨rfl, rfl, rfl⟩ := PageKey.mk.inj hkey
      simp [Tiering.demote]
    have hne : ¬ (s' = s ∧ (l', lp') = (l, lp)) := by
      rintro ⟨rfl, heq⟩
      cases heq
      exact hkey rfl
    rw [or_iff_right hne]
    simp only [Tiering.demote, update_of_ne hkey]
  case refs =>
    intro k p
    rw [hpages, ← h.refs]
    by_cases hp : p = page
    · subst hp
      simp [Tiering.demote, (h.refs_nodup p).mem_erase_iff]
    have : k ∈ w.held p → k ≠ ⟨s, l, lp⟩ := by
      rintro hmem rfl
      exact hp (Option.some.inj (((h.refs _ _).1 hmem).symm.trans hk))
    simp only [Tiering.demote, update_of_ne hp]
    exact ⟨fun hmem => ⟨this hmem, hmem⟩, And.right⟩
  case refs_nodup =>
    intro p
    by_cases hp : p = page
    · subst hp
      simpa [Tiering.demote] using (h.refs_nodup p).erase _
    · simpa [Tiering.demote, update_of_ne hp] using h.refs_nodup p
  case kin =>
    intro k k' p hp hp'
    exact h.kin k k' p ((hpages k p).1 hp).2 ((hpages k' p).1 hp').2
  case hot_content =>
    intro k p hp
    exact h.hot_content k p ((hpages k p).1 hp).2
  case cold_content =>
    intro s' l' lp' b hb
    by_cases hs : s' = s
    · subst hs
      simp only [Tiering.demote, update_self] at hb
      rcases lookup_emplace hb with ⟨heq, rfl⟩ | hb
      · cases heq
        exact ⟨hret, hbytes⟩
      · exact h.cold_content s' l' lp' b hb
    · simp only [Tiering.demote, update_of_ne hs] at hb
      exact h.cold_content s' l' lp' b hb
  case demoted_content =>
    intro k b hb
    by_cases hkey : k = ⟨s, l, lp⟩
    · subst hkey
      simp only [Tiering.demote, update_self, Option.some.injEq] at hb
      subst hb
      exact ⟨le_trans (le_add_right _ _) hret, hbytes⟩
    · simp only [Tiering.demote, update_of_ne hkey] at hb
      exact h.demoted_content k b hb
  case rows =>
    intro st hst
    obtain ⟨hused, hlen, hrows⟩ := h.rows st hst
    exact ⟨hused, hlen, fun row hrow lp' hlp p hp =>
      hrows row hrow lp' hlp p ((hpages _ _).1 hp).2⟩

theorem demoteSweep (s l : ℕ) : ∀ (lps : List ℕ) (w : Tiering V), Tiered o w →
      (∀ lp ∈ lps, (lp + 1) * o.pageTokens + o.retention ≤ w.len s l) →
      Tiered o (Tiering.demoteSweep o s l lps w) := by
  intro lps
  induction lps with
  | nil => exact fun w h _ => h
  | cons lp lps ih =>
    intro w h hlps
    have hrest : ∀ lp' ∈ lps, (lp' + 1) * o.pageTokens + o.retention ≤ w.len s l :=
      fun lp' hlp' => hlps lp' (mem_cons_of_mem _ hlp')
    simp only [Tiering.demoteSweep]
    split
    next => exact ih w h hrest
    next page hpage =>
      split
      next =>
        exact { h with }
      next => exact ih _ (h.demote hpage (hlps lp mem_cons_self)) hrest

variable {s : ℕ} {l : ℕ}

theorem afterAttention (h : Tiered o w) {pos : ℕ} (hpos : pos < w.len s l) :
    Tiered o (w.afterAttention o s l pos) := by
  unfold Tiering.afterAttention
  split
  next =>
    refine demoteSweep s l _ w h ?_
    intro lp hlp
    have hlt : lp < (pos + 1 - o.retention) / o.pageTokens :=
      lt_of_lt_of_le (mem_range.1 hlp) (min_le_left _ _)
    have hpages : (lp + 1) * o.pageTokens ≤ pos + 1 - o.retention :=
      (mul_le_mul_right _ hlt).trans (div_mul_le_self _ _)
    have hpositive : 0 < pos + 1 - o.retention := by
      rcases Nat.eq_zero_or_pos (pos + 1 - o.retention) with hzero | hpos'
      · rw [hzero, Nat.zero_div] at hlt
        exact absurd hlt (not_lt_zero _)
      · exact hpos'
    omega
  next => exact h

/-! ### Promotion -/

theorem unheld {twice : PageKey → Prop} (h : TierInv o twice w) (hfresh : w.held page = [])
    (k : PageKey) : w.kvPages k ≠ some page := by
  intro hk
  have hmem := (h.refs k page).2 hk
  rw [hfresh] at hmem
  exact absurd hmem not_mem_nil

/-- An entry moves to a page that nothing holds. -/
theorem kin_moved {twice : PageKey → Prop} {w' : Tiering V} (h : TierInv o twice w)
    (hfresh : w.held page = []) (hpages : ∀ k' p, w'.kvPages k' = some p ↔
      (k' = k ∧ p = page) ∨ (k' ≠ k ∧ w.kvPages k' = some p)) (k₁ k₂ : PageKey) (p : ℕ)
    (h₁ : w'.kvPages k₁ = some p) (h₂ : w'.kvPages k₂ = some p) :
    k₂.layer = k₁.layer ∧ k₂.logical = k₁.logical := by
  rcases (hpages k₁ p).1 h₁ with ⟨rfl, rfl⟩ | ⟨-, h₁'⟩
  · rcases (hpages k₂ _).1 h₂ with ⟨rfl, -⟩ | ⟨-, h₂'⟩
    · exact ⟨rfl, rfl⟩
    · exact absurd h₂' (h.unheld hfresh k₂)
  · rcases (hpages k₂ p).1 h₂ with ⟨-, rfl⟩ | ⟨-, h₂'⟩
    · exact absurd h₁' (h.unheld hfresh k₁)
    · exact h.kin k₁ k₂ p h₁' h₂'

theorem repromote {twice : PageKey → Prop} (h : TierInv o twice w) {bytes : Page V}
    (hcold : (w.cold k.seq).lookup (k.layer, k.logical) = some bytes)
    (hneutral : w.kvPages k = none) (hfresh : w.held page = [])
    (hstep : ∀ st ∈ w.stepBt, st.seq = k.seq ∧ st.layer = k.layer) :
    TierInv o (fun k' => k' = k ∨ twice k') (w.repromote o k page bytes) := by
  have hrange := h.cold_range _ _ _ (Map.mem_of_lookup hcold)
  have hunheld := h.unheld hfresh
  have hpages : ∀ k' p, (w.repromote o k page bytes).kvPages k' = some p ↔
      (k' = k ∧ p = page) ∨ (k' ≠ k ∧ w.kvPages k' = some p) := by
    intro k' p
    by_cases hkey : k' = k
    · subst hkey
      simp [Tiering.repromote, eq_comm]
    · simp [Tiering.repromote, hkey]
  refine ⟨h.live_used, h.dead, h.len_le, ?hot_range, h.cold_range, ?hot_or_cold, ?twice_hot, ?refs,
    ?refs_nodup, ?kin, ?hot_content, h.cold_content, h.demoted_content, ?rows⟩
  case hot_range =>
    intro k' p hp
    rcases (hpages k' p).1 hp with ⟨rfl, -⟩ | ⟨-, hp⟩
    · exact hrange
    · exact h.hot_range k' p hp
  case hot_or_cold =>
    intro s l lp hl hlp hno
    rw [not_or] at hno
    simp only [Tiering.repromote, update_of_ne hno.1]
    exact h.hot_or_cold s l lp hl hlp hno.2
  case twice_hot =>
    rintro k' (rfl | hk')
    · exact ⟨page, (hpages _ _).2 (.inl ⟨rfl, rfl⟩)⟩
    · obtain ⟨p, hp⟩ := h.twice_hot k' hk'
      refine ⟨p, (hpages _ _).2 (.inr ⟨?_, hp⟩)⟩
      rintro rfl
      rw [hneutral] at hp
      cases hp
  case refs =>
    intro k' p
    rw [hpages]
    by_cases hp : p = page
    · subst hp
      have hnone : ¬ (k' ≠ k ∧ w.kvPages k' = some p) := fun hk' => hunheld k' hk'.2
      simp [Tiering.repromote, hfresh, hnone]
    rw [← h.refs]
    have hne : k' ∈ w.held p → k' ≠ k := by
      rintro hmem rfl
      have := (h.refs _ _).1 hmem
      rw [hneutral] at this
      cases this
    simp only [Tiering.repromote, update_of_ne hp]
    constructor
    · exact fun hmem => .inr ⟨hne hmem, hmem⟩
    · rintro (⟨-, rfl⟩ | ⟨-, hmem⟩)
      · exact absurd rfl hp
      · exact hmem
  case refs_nodup =>
    intro p
    by_cases hp : p = page
    · subst hp
      simp [Tiering.repromote, hfresh]
    · simpa [Tiering.repromote, update_of_ne hp] using h.refs_nodup p
  case kin =>
    exact h.kin_moved hfresh hpages
  case hot_content =>
    intro k' p hp r hr off hoff hlen
    rcases (hpages k' p).1 hp with ⟨rfl, rfl⟩ | ⟨-, hp'⟩
    · have hbytes := (h.cold_content _ _ _ _ hcold).2 off hoff
      simpa [Tiering.repromote, hr] using hbytes
    have hne : p ≠ page := by
      rintro rfl
      exact hunheld k' hp'
    simpa [Tiering.repromote, hne] using h.hot_content k' p hp' r hr off hoff hlen
  case rows =>
    intro st hst
    obtain ⟨st₀, hst₀, rfl⟩ := Option.mem_map.1 hst
    obtain ⟨hseq, hlayer⟩ := hstep st₀ hst₀
    obtain ⟨hused, hlen, hrows⟩ := h.rows st₀ hst₀
    refine ⟨hused, hlen, ?_⟩
    intro row hrow lp hlp p hp
    obtain ⟨row₀, hrow₀, rfl⟩ := mem_map.1 hrow
    have hlp₀ : lp < st₀.len := hlp
    rcases (hpages _ _).1 hp with ⟨hkey, rfl⟩ | ⟨hkey, hp⟩
    · have hlog : k.logical = lp := by rw [← hkey]
      rw [hlog, if_pos hlp₀, update_self]
    have hne : lp ≠ k.logical := by
      rintro rfl
      apply hkey
      show PageKey.mk st₀.seq st₀.layer k.logical = k
      rw [hseq, hlayer]
    split
    next => rw [update_of_ne hne]; exact hrows row₀ hrow₀ lp hlp₀ p hp
    next => exact hrows row₀ hrow₀ lp hlp₀ p hp

theorem lookup_foldl_erase (layer : ℕ) :
    ∀ (pages : List ℕ) (m : Map (ℕ × ℕ) (Page V)) (a : ℕ × ℕ) (b : Page V),
      (pages.foldl (fun m lp => m.erase (layer, lp)) m).lookup a = some b ↔
        m.lookup a = some b ∧ ∀ lp ∈ pages, a ≠ (layer, lp) := by
  intro pages
  induction pages with
  | nil => simp
  | cons lp pages ih =>
    intro m a b
    rw [foldl_cons, ih, Map.lookup_erase_iff]
    simp only [mem_cons, forall_eq_or_imp]
    tauto

variable {pages : List ℕ}

theorem lookup_dropCold {s' : ℕ} {a : ℕ × ℕ} {b : Page V} :
    ((w.dropCold s l pages).cold s').lookup a = some b ↔
      (w.cold s').lookup a = some b ∧ (s' = s → ∀ lp ∈ pages, a ≠ (l, lp)) := by
  by_cases hs : s' = s
  · subst hs
    simp only [Tiering.dropCold, update_self, lookup_foldl_erase, forall_const]
  · simp [Tiering.dropCold, hs]

theorem mem_dropCold {s' l' lp : ℕ} : (l', lp) ∈ (w.dropCold s l pages).cold s' ↔
      (l', lp) ∈ w.cold s' ∧ ¬ (s' = s ∧ l' = l ∧ lp ∈ pages) := by
  rw [Map.mem_iff, Map.mem_iff]
  constructor
  · rintro ⟨b, hb⟩
    obtain ⟨hb, hne⟩ := lookup_dropCold.1 hb
    refine ⟨⟨b, hb⟩, ?_⟩
    rintro ⟨hs, rfl, hlp⟩
    exact hne hs lp hlp rfl
  · rintro ⟨⟨b, hb⟩, hne⟩
    refine ⟨b, lookup_dropCold.2 ⟨hb, ?_⟩⟩
    intro hs lp' hlp' heq
    cases heq
    exact hne ⟨hs, rfl, hlp'⟩

theorem dropCold (h : TierInv o (fun k => k.seq = s ∧ k.layer = l ∧ k.logical ∈ pages) w) :
    Tiered o (w.dropCold s l pages) := by
  refine { h with
    cold_range := ?_, hot_or_cold := ?_, twice_hot := fun _ hf => absurd hf id, cold_content := ?_ }
  · intro s' l' lp hin
    exact h.cold_range s' l' lp (mem_dropCold.1 hin).1
  · intro s' l' lp hl hlp _
    rw [mem_dropCold]
    by_cases htwice : s' = s ∧ l' = l ∧ lp ∈ pages
    · obtain ⟨p, hp⟩ := h.twice_hot ⟨s', l', lp⟩ htwice
      have hhot : (w.dropCold s l pages).kvPages ⟨s', l', lp⟩ ≠ none := by
        show w.kvPages ⟨s', l', lp⟩ ≠ none
        rw [hp]
        exact Option.some_ne_none p
      exact ⟨fun hnone => absurd hnone hhot, fun hno => absurd htwice hno.2⟩
    · rw [← h.hot_or_cold s' l' lp hl hlp htwice]
      exact ⟨fun hp => ⟨hp, htwice⟩, And.left⟩
  · intro s' l' lp b hb
    exact h.cold_content s' l' lp b (lookup_dropCold.1 hb).1

/-! ### Sequences -/

variable (h : Tiered o w)
include h

theorem create (hs : s ∉ w.used) : Tiered o (w.create s) := by
  have hdead : w.numLogical s = 0 := h.dead s fun hl => hs (h.live_used s hl)
  have hkey : ∀ k p, w.kvPages k = some p → k.seq ≠ s := by
    rintro k p hk rfl
    have := (h.hot_range k p hk).2
    omega
  refine { h with
    live_used := ?live_used, dead := ?dead, len_le := ?len_le, hot_content := ?hot_content
    cold_content := ?cold_content, demoted_content := ?demoted_content, rows := ?rows }
  case live_used =>
    intro s' hs'
    rcases mem_cons.1 hs' with rfl | hs'
    · exact mem_cons_self
    · exact mem_cons_of_mem _ (h.live_used s' hs')
  case dead =>
    intro s' hs'
    exact h.dead s' fun hl => hs' (mem_cons_of_mem _ hl)
  case len_le =>
    intro s' hs' l
    by_cases heq : s' = s
    · subst heq
      simp [Tiering.create]
    · simp only [Tiering.create, update_of_ne heq]
      exact h.len_le s' ((mem_cons.1 hs').resolve_left heq) l
  case hot_content =>
    intro k p hk r hr off hoff hlen
    simp only [Tiering.create, update_of_ne (hkey k p hk)] at hlen
    exact h.hot_content k p hk r hr off hoff hlen
  case cold_content =>
    intro s' l lp b hb
    have hne : s' ≠ s := by
      rintro rfl
      have := (h.cold_range s' l lp (Map.mem_of_lookup hb)).2
      omega
    simp only [Tiering.create, update_of_ne hne]
    exact h.cold_content s' l lp b hb
  case demoted_content =>
    intro k b hb
    simp only [Tiering.create] at hb
    split at hb
    next => cases hb
    next hne =>
      simp only [Tiering.create, update_of_ne hne]
      exact h.demoted_content k b hb
  case rows =>
    intro st hst
    obtain ⟨hused, hlen, hrows⟩ := h.rows st hst
    refine ⟨mem_cons_of_mem _ hused, ?_, hrows⟩
    intro hl
    rcases mem_cons.1 hl with heq | hl
    · exact absurd (heq ▸ hused) hs
    · exact hlen hl

theorem grow (hs : s ∈ w.live) (hlayers : pages.length = o.kvLayers) (hnodup : pages.Nodup)
    (hfresh : ∀ p ∈ pages, w.held p = []) : Tiered o (w.grow s pages) := by
  have hunheld := fun k p hp => h.unheld (hfresh p hp) k
  have hnew : ∀ l, w.kvPages ⟨s, l, w.numLogical s⟩ = none := by
    intro l
    rw [Option.eq_none_iff_forall_ne_some]
    intro p hp
    exact absurd (h.hot_range _ _ hp).2 (lt_irrefl _)
  have hpages : ∀ k p, (w.grow s pages).kvPages k = some p ↔
      (k.seq = s ∧ k.logical = w.numLogical s ∧ pages[k.layer]? = some p) ∨
        w.kvPages k = some p := by
    intro k p
    simp only [Tiering.grow]
    split
    next hk =>
      obtain ⟨ks, kl, klog⟩ := k
      obtain ⟨rfl, rfl⟩ : s = ks ∧ klog = w.numLogical s := ⟨hk.1.symm, hk.2⟩
      simp [hnew]
    next hk =>
      constructor
      · exact .inr
      · rintro (⟨h₁, h₂, -⟩ | hp)
        · exact absurd ⟨h₁, h₂⟩ hk
        · exact hp
  have hlog : ∀ s', w.numLogical s' ≤ (w.grow s pages).numLogical s' := by
    intro s'
    by_cases heq : s' = s
    · subst heq
      simp [Tiering.grow]
    · simp [Tiering.grow, heq]
  refine ⟨h.live_used, ?dead, ?len_le, ?hot_range, ?cold_range, ?hot_or_cold,
    fun _ hf => absurd hf id, ?refs, ?refs_nodup, ?kin, ?hot_content, h.cold_content,
    h.demoted_content, ?rows⟩
  case dead =>
    intro s' hs'
    have hne : s' ≠ s := fun heq => hs' (heq ▸ hs)
    simp only [Tiering.grow, update_of_ne hne]
    exact h.dead s' hs'
  case len_le =>
    intro s' hs' l
    exact (h.len_le s' hs' l).trans (mul_le_mul_right _ (hlog s'))
  case hot_range =>
    intro k p hp
    rcases (hpages k p).1 hp with ⟨rfl, hlogical, hget⟩ | hp
    · refine ⟨hlayers ▸ (List.getElem?_eq_some_iff.1 hget).1, ?_⟩
      simp [Tiering.grow, hlogical]
    · exact ⟨(h.hot_range k p hp).1, lt_of_lt_of_le (h.hot_range k p hp).2 (hlog _)⟩
  case cold_range =>
    intro s' l lp hmem
    exact ⟨(h.cold_range s' l lp hmem).1, lt_of_lt_of_le (h.cold_range s' l lp hmem).2 (hlog s')⟩
  case hot_or_cold =>
    intro s' l lp hl hlp hno
    by_cases hk : s' = s ∧ lp = w.numLogical s
    · obtain ⟨rfl, rfl⟩ := hk
      have hsome : (w.grow s' pages).kvPages ⟨s', l, w.numLogical s'⟩ ≠ none := by
        simp [Tiering.grow, hlayers, hl]
      have hncold : (l, w.numLogical s') ∉ w.cold s' := fun hmem =>
        absurd (h.cold_range _ _ _ hmem).2 (lt_irrefl _)
      exact ⟨fun hnone => absurd hnone hsome, fun hmem => absurd hmem hncold⟩
    · have hlp' : lp < w.numLogical s' := by
        by_cases heq : s' = s
        · subst heq
          simp only [Tiering.grow, update_self] at hlp
          omega
        · simpa [Tiering.grow, update_of_ne heq] using hlp
      have hsame : (w.grow s pages).kvPages ⟨s', l, lp⟩ = w.kvPages ⟨s', l, lp⟩ := by
        simp [Tiering.grow, hk]
      rw [hsame]
      exact h.hot_or_cold s' l lp hl hlp' hno
  case refs =>
    intro k p
    rw [hpages]
    by_cases hp : p ∈ pages
    · have hget : ∀ l, pages[l]? = some p ↔ l = pages.idxOf p := by
        intro l
        constructor
        · intro hl
          obtain ⟨hlt, rfl⟩ := List.getElem?_eq_some_iff.1 hl
          exact (hnodup.idxOf_getElem l hlt).symm
        · rintro rfl
          exact getElem?_idxOf hp
      have hnone : w.kvPages k ≠ some p := hunheld k p hp
      simp only [Tiering.grow, if_pos hp, mem_singleton, hget]
      obtain ⟨ks, kl, klog⟩ := k
      simp only [PageKey.mk.injEq]
      tauto
    · have hno : ¬ (k.seq = s ∧ k.logical = w.numLogical s ∧ pages[k.layer]? = some p) := by
        rintro ⟨-, -, hget⟩
        exact hp (mem_of_getElem? hget)
      simp only [Tiering.grow, if_neg hp, or_iff_right hno]
      exact h.refs k p
  case refs_nodup =>
    intro p
    by_cases hp : p ∈ pages
    · simp [Tiering.grow, hp]
    · simpa [Tiering.grow, hp] using h.refs_nodup p
  case kin =>
    intro k k' p hk hk'
    rcases (hpages k p).1 hk with ⟨-, hlogical, hget⟩ | hk
    · rcases (hpages k' p).1 hk' with ⟨-, hlogical', hget'⟩ | hk'
      · refine ⟨?_, hlogical'.trans hlogical.symm⟩
        obtain ⟨hlt, heq⟩ := List.getElem?_eq_some_iff.1 hget
        obtain ⟨hlt', heq'⟩ := List.getElem?_eq_some_iff.1 hget'
        exact (List.Nodup.getElem_inj_iff hnodup).1 (heq'.trans heq.symm)
      · exact absurd hk' (hunheld k' p (mem_of_getElem? hget))
    · rcases (hpages k' p).1 hk' with ⟨-, -, hget'⟩ | hk'
      · exact absurd hk (hunheld k p (mem_of_getElem? hget'))
      · exact h.kin k k' p hk hk'
  case hot_content =>
    intro k p hk r hr off hoff hlen
    rcases (hpages k p).1 hk with ⟨hseq, hlogical, -⟩ | hk
    · -- no token has been written to the new page
      have hfull := h.len_le s hs k.layer
      rw [hseq, hlogical] at hlen
      have hlen' : w.numLogical s * o.pageTokens + off < w.len s k.layer := hlen
      omega
    · exact h.hot_content k p hk r hr off hoff hlen
  case rows =>
    intro st hst
    obtain ⟨hused, hlen, hrows⟩ := h.rows st hst
    refine ⟨hused, fun hl => (hlen hl).trans (hlog _), ?_⟩
    intro row hrow lp hlp p hp
    rcases (hpages _ p).1 hp with ⟨hseq, hlogical, -⟩ | hp
    · have hlog' : lp = w.numLogical s := hlogical
      have hseq' : st.seq = s := hseq
      have := hlen (hseq' ▸ hs)
      rw [hseq'] at this
      omega
    · exact hrows row hrow lp hlp p hp

theorem setStepBt {len : ℕ} (hs : s ∈ w.live) (hlen : len ≤ w.numLogical s) :
    Tiered o (w.setStepBt o s l len) := by
  refine { h with rows := ?_ }
  intro st hst
  obtain rfl := Option.mem_some_iff.1 hst
  refine ⟨h.live_used s hs, fun _ => hlen, ?_⟩
  intro row hrow lp _ p hp
  obtain ⟨-, rfl⟩ := mem_replicate.1 hrow
  exact hp

theorem write {v : V} (hpage : w.kvPages ⟨s, l, w.len s l / o.pageTokens⟩ = some page)
    (hothers : ∀ k ∈ w.held page, k.seq ≠ s → w.len k.seq k.layer ≤ w.len s l) :
    Tiered o (w.write o s l page v) := by
  have hpos : ∀ lp off, off < o.pageTokens → lp * o.pageTokens + off = w.len s l →
      lp = w.len s l / o.pageTokens ∧ off = w.len s l % o.pageTokens := by
    intro lp off hoff heq
    rw [← heq, mul_comm lp]
    constructor
    · rw [mul_add_div o.page_pos, div_eq_of_lt hoff, add_zero]
    · rw [mul_add_mod, mod_eq_of_lt hoff]
  have hlen : ∀ s' l', (w.write o s l page v).len s' l' =
      if s' = s ∧ l' = l then w.len s l + 1 else w.len s' l' := by
    intro s' l'
    by_cases hs : s' = s
    · subst hs
      by_cases hl : l' = l
      · subst hl
        simp [Tiering.write]
      · simp [Tiering.write, hl]
    · simp [Tiering.write, hs]
  have hlen_le : ∀ s' l', w.len s' l' ≤ (w.write o s l page v).len s' l' := by
    intro s' l'
    rw [hlen]
    split
    next heq => rw [heq.1, heq.2]; omega
    next => exact le_rfl
  have hview : ∀ s' l' pos, ¬ (s' = s ∧ l' = l ∧ pos = w.len s l) →
      (w.write o s l page v).view s' l' pos = w.view s' l' pos := by
    intro s' l' pos hne
    by_cases hs : s' = s
    · subst hs
      by_cases hl : l' = l
      · subst hl
        have hp : pos ≠ w.len s' l' := fun hp => hne ⟨rfl, rfl, hp⟩
        simp [Tiering.write, hp]
      · simp [Tiering.write, hl]
    · simp [Tiering.write, hs]
  -- what has been written before is not touched
  have hold : ∀ s' l' pos, pos < w.len s' l' →
      (w.write o s l page v).view s' l' pos = w.view s' l' pos := by
    intro s' l' pos hlt
    refine hview s' l' pos ?_
    rintro ⟨rfl, rfl, rfl⟩
    omega
  refine { h with
    len_le := ?len_le, hot_content := ?hot_content, cold_content := ?cold_content
    demoted_content := ?demoted_content }
  case len_le =>
    intro s' hs' l'
    rw [hlen]
    split
    next heq =>
      obtain ⟨rfl, rfl⟩ := heq
      have hlt := (h.hot_range _ _ hpage).2
      exact (div_lt_iff_lt_mul o.page_pos).1 hlt
    next => exact h.len_le s' hs' l'
  case hot_content =>
    intro k p hk r hr off hoff hlt
    by_cases hp : p = page
    · subst hp
      obtain ⟨hlayer, hlogical⟩ := h.kin _ _ _ hpage hk
      have hlayer' : k.layer = l := hlayer
      have hlogical' : k.logical = w.len s l / o.pageTokens := hlogical
      have hmem : ∀ off', (w.write o s l p v).mem r p off' =
          if off' = w.len s l % o.pageTokens then v else w.mem r p off' := by
        intro off'
        simp [Tiering.write, hr, update_apply]
      rw [hmem]
      by_cases hcur : k.seq = s ∧ off = w.len s l % o.pageTokens
      · obtain ⟨hseq, rfl⟩ := hcur
        have hplace : k.logical * o.pageTokens + w.len s l % o.pageTokens = w.len s l := by
          rw [hlogical', mul_comm]
          exact div_add_mod _ _
        rw [hseq, hlayer', hplace]
        simp [Tiering.write]
      have hseqoff : off = w.len s l % o.pageTokens → k.seq ≠ s := fun hoff' hseq =>
        hcur ⟨hseq, hoff'⟩
      have hplace : off = w.len s l % o.pageTokens →
          k.logical * o.pageTokens + off = w.len s l := by
        rintro rfl
        rw [hlogical', mul_comm]
        exact div_add_mod _ _
      -- a sharer of the page is no longer than the writer: the slot is past its end
      have hne : off ≠ w.len s l % o.pageTokens := by
        intro hoff'
        have hseq := hseqoff hoff'
        have hle := hothers k ((h.refs k p).2 hk) hseq
        rw [hlen, if_neg fun heq => hseq heq.1] at hlt
        omega
      have hpos' : k.logical * o.pageTokens + off ≠ w.len s l := fun heq =>
        hne (hpos _ _ hoff heq).2
      have hlt' : k.logical * o.pageTokens + off < w.len k.seq k.layer := by
        rw [hlen] at hlt
        split at hlt
        next heq => rw [heq.1, heq.2]; omega
        next => exact hlt
      rw [if_neg hne, hold _ _ _ hlt']
      exact h.hot_content k p hk r hr off hoff hlt'
    · -- another page keeps its bytes
      have hkey : k ≠ ⟨s, l, w.len s l / o.pageTokens⟩ := by
        rintro rfl
        exact hp (Option.some.inj (hk.symm.trans hpage))
      have hlt' : k.logical * o.pageTokens + off < w.len k.seq k.layer := by
        rw [hlen] at hlt
        split at hlt
        next heq =>
          have hpos' : k.logical * o.pageTokens + off ≠ w.len s l := by
            intro hplace
            apply hkey
            obtain ⟨ks, kl, klog⟩ := k
            obtain ⟨rfl, rfl⟩ : ks = s ∧ kl = l := heq
            rw [← (hpos _ _ hoff hplace).1]
          rw [heq.1, heq.2]
          omega
        next => exact hlt
      have hmem : (w.write o s l page v).mem r p off = w.mem r p off := by
        simp [Tiering.write, hp]
      rw [hmem, hold _ _ _ hlt']
      exact h.hot_content k p hk r hr off hoff hlt'
  case cold_content =>
    intro s' l' lp b hb
    obtain ⟨hret, hbytes⟩ := h.cold_content s' l' lp b hb
    refine ⟨hret.trans (hlen_le s' l'), ?_⟩
    intro off hoff
    rw [hold]
    · exact hbytes off hoff
    · have hmul : (lp + 1) * o.pageTokens = lp * o.pageTokens + o.pageTokens := by ring
      omega
  case demoted_content =>
    intro k b hb
    obtain ⟨hret, hbytes⟩ := h.demoted_content k b hb
    refine ⟨hret.trans (hlen_le _ _), ?_⟩
    intro off hoff
    rw [hold]
    · exact hbytes off hoff
    · have hmul : (k.logical + 1) * o.pageTokens = k.logical * o.pageTokens + o.pageTokens := by
        ring
      omega

theorem fork {src dst : ℕ} (hsrc : src ∈ w.live) (hdst : dst ∉ w.used) :
    Tiered o (w.fork src dst) := by
  have hdead : w.numLogical dst = 0 := h.dead dst fun hl => hdst (h.live_used dst hl)
  have hnodst : ∀ k p, w.kvPages k = some p → k.seq ≠ dst := by
    rintro k p hk rfl
    have := (h.hot_range k p hk).2
    omega
  -- every field of the child is that of the parent
  have hpages : ∀ k, (w.fork src dst).kvPages k = w.kvPages (k.redirect dst src) := fun _ => rfl
  have hself : ∀ k : PageKey, k.seq ≠ dst → k.redirect dst src = k := by
    intro k hk
    simp [PageKey.redirect, hk]
  have hchild : ∀ l lp, (⟨dst, l, lp⟩ : PageKey).redirect dst src = ⟨src, l, lp⟩ := by
    intro l lp
    simp [PageKey.redirect, PageKey.ofSeq]
  have hredirect : ∀ k : PageKey, (k.redirect dst src).layer = k.layer ∧
      (k.redirect dst src).logical = k.logical := by
    intro k
    unfold PageKey.redirect
    split
    next => exact ⟨rfl, rfl⟩
    next => exact ⟨rfl, rfl⟩
  have hfields : ∀ s, ∃ s', (s = dst ∧ s' = src ∨ s ≠ dst ∧ s' = s) ∧
      (w.fork src dst).numLogical s = w.numLogical s' ∧
      (w.fork src dst).len s = w.len s' ∧ (w.fork src dst).view s = w.view s' ∧
      (w.fork src dst).cold s = w.cold s' ∧
      ∀ k : PageKey, k.seq = s → k.redirect dst src = k.ofSeq s' := by
    intro s
    by_cases hs : s = dst
    · subst hs
      refine ⟨src, .inl ⟨rfl, rfl⟩, ?_, ?_, ?_, ?_, ?_⟩
      · simp [Tiering.fork, Tiering.onSeqFork]
      · simp [Tiering.fork, Tiering.onSeqFork]
      · simp [Tiering.fork, Tiering.onSeqFork]
      · simp [Tiering.fork, Tiering.onSeqFork]
      · intro k hk
        simp [PageKey.redirect, hk]
    · refine ⟨s, .inr ⟨hs, rfl⟩, ?_, ?_, ?_, ?_, ?_⟩
      · simp [Tiering.fork, Tiering.onSeqFork, hs]
      · simp [Tiering.fork, Tiering.onSeqFork, hs]
      · simp [Tiering.fork, Tiering.onSeqFork, hs]
      · simp [Tiering.fork, Tiering.onSeqFork, hs]
      · rintro k rfl
        rw [hself k hs]
        rfl
  refine ⟨?live_used, ?dead, ?len_le, ?hot_range, ?cold_range, ?hot_or_cold,
    fun _ hf => absurd hf id, ?refs, ?refs_nodup, ?kin, ?hot_content, ?cold_content,
    ?demoted_content, ?rows⟩
  case live_used =>
    intro s hs
    rcases mem_cons.1 hs with rfl | hs
    · exact mem_cons_self
    · exact mem_cons_of_mem _ (h.live_used s hs)
  case dead =>
    intro s hs
    have hs' : s ≠ dst ∧ s ∉ w.live := by simpa [Tiering.fork, Tiering.onSeqFork] using hs
    simp only [Tiering.fork, Tiering.onSeqFork, update_of_ne hs'.1]
    exact h.dead s hs'.2
  case len_le =>
    intro s hs l
    obtain ⟨s', hcase, hnum, hlen, -⟩ := hfields s
    rw [hnum, hlen]
    rcases hcase with ⟨-, rfl⟩ | ⟨hsd, rfl⟩
    · exact h.len_le _ hsrc l
    · exact h.len_le _ ((mem_cons.1 hs).resolve_left hsd) l
  case hot_range =>
    intro k p hp
    obtain ⟨s', -, hnum, -, -, -, hred⟩ := hfields k.seq
    rw [hpages, hred k rfl] at hp
    rw [hnum]
    exact h.hot_range _ _ hp
  case cold_range =>
    intro s l lp hmem
    obtain ⟨s', -, hnum, -, -, hcold, -⟩ := hfields s
    rw [hcold] at hmem
    rw [hnum]
    exact h.cold_range s' l lp hmem
  case hot_or_cold =>
    intro s l lp hl hlp hno
    obtain ⟨s', -, hnum, -, -, hcold, hred⟩ := hfields s
    rw [hpages, hred _ rfl, hcold]
    exact h.hot_or_cold s' l lp hl (hnum ▸ hlp) hno
  case refs =>
    intro k p
    have hheld : k ∈ (w.fork src dst).held p ↔
        k ∈ w.held p ∨ ∃ k₀ ∈ w.held p, k₀.seq = src ∧ k₀.ofSeq dst = k := by
      simp only [Tiering.fork, Tiering.onSeqFork, mem_append, mem_map, mem_filter,
        decide_eq_true_eq]
      refine or_congr_right ⟨?_, ?_⟩
      · rintro ⟨k₀, ⟨hk₀, hseq, -⟩, rfl⟩
        exact ⟨k₀, hk₀, hseq, rfl⟩
      · rintro ⟨k₀, hk₀, hseq, rfl⟩
        exact ⟨k₀, ⟨hk₀, hseq, (h.refs _ _).1 hk₀⟩, rfl⟩
    rw [hheld, hpages]
    by_cases hk : k.seq = dst
    · -- the parent's holders are doubled, under the child's name
      obtain ⟨ks, kl, klog⟩ := k
      obtain rfl : ks = dst := hk
      rw [hchild, ← h.refs]
      constructor
      · rintro (hmem | ⟨⟨k₀s, k₀l, k₀log⟩, hk₀, hseq, heq⟩)
        · exact absurd rfl (hnodst _ _ ((h.refs _ _).1 hmem))
        · obtain ⟨-, rfl, rfl⟩ := PageKey.mk.inj heq
          obtain rfl : k₀s = src := hseq
          exact hk₀
      · exact fun hmem => .inr ⟨⟨src, kl, klog⟩, hmem, rfl, rfl⟩
    · rw [hself k hk, ← h.refs]
      constructor
      · rintro (hmem | ⟨k₀, -, -, rfl⟩)
        · exact hmem
        · exact absurd rfl hk
      · exact .inl
  case refs_nodup =>
    intro p
    simp only [Tiering.fork, Tiering.onSeqFork]
    rw [nodup_append]
    refine ⟨h.refs_nodup p, ?_, ?_⟩
    · refine List.Nodup.map_on ?_ ((h.refs_nodup p).filter _)
      intro k₁ h₁ k₂ h₂ heq
      have hs₁ : k₁.seq = src := (by simpa using h₁ : _ ∧ _ ∧ _).2.1
      have hs₂ : k₂.seq = src := (by simpa using h₂ : _ ∧ _ ∧ _).2.1
      obtain ⟨s₁, l₁, lp₁⟩ := k₁
      obtain ⟨s₂, l₂, lp₂⟩ := k₂
      obtain ⟨-, rfl, rfl⟩ := PageKey.mk.inj heq
      obtain rfl : s₁ = s₂ := hs₁.trans hs₂.symm
      rfl
    · intro k hk k' hk' heq
      obtain ⟨k₀, -, rfl⟩ := mem_map.1 hk'
      exact hnodst k p ((h.refs _ _).1 hk) (by rw [heq]; rfl)
  case kin =>
    intro k k' p hk hk'
    obtain ⟨h₁, h₂⟩ := h.kin _ _ p hk hk'
    rw [(hredirect k).1, (hredirect k').1] at h₁
    rw [(hredirect k).2, (hredirect k').2] at h₂
    exact ⟨h₁, h₂⟩
  case hot_content =>
    intro k p hp r hr off hoff hlt
    obtain ⟨s', -, -, hlen, hview, -, hred⟩ := hfields k.seq
    rw [hpages, hred k rfl] at hp
    rw [hlen] at hlt
    rw [hview]
    exact h.hot_content _ p hp r hr off hoff hlt
  case cold_content =>
    intro s l lp b hb
    obtain ⟨s', -, -, hlen, hview, hcold, -⟩ := hfields s
    rw [hcold] at hb
    rw [hlen, hview]
    exact h.cold_content s' l lp b hb
  case demoted_content =>
    intro k b hb
    obtain ⟨s', -, -, hlen, hview, -, hred⟩ := hfields k.seq
    have hb' : w.demoted (k.redirect dst src) = some b := hb
    rw [hred k rfl] at hb'
    rw [hlen, hview]
    exact h.demoted_content _ b hb'
  case rows =>
    intro st hst
    obtain ⟨hused, hlen, hrows⟩ := h.rows st hst
    -- the step in flight is another sequence's
    have hseq : st.seq ≠ dst := fun heq => hdst (heq ▸ hused)
    refine ⟨mem_cons_of_mem _ hused, ?_, ?_⟩
    · intro hl
      have hl' : st.seq ∈ w.live := (mem_cons.1 hl).resolve_left hseq
      simpa [Tiering.fork, Tiering.onSeqFork, hseq] using hlen hl'
    · intro row hrow lp hlp p hp
      rw [hpages, hself _ hseq] at hp
      exact hrows row hrow lp hlp p hp

theorem cowCopy {fresh : ℕ} (hk : w.kvPages k = some page) (hfresh : w.held fresh = [])
    (hstep : ∀ st ∈ w.stepBt, st.seq ≠ k.seq) :
    Tiered o (w.cowCopy o k page fresh) := by
  have hunheld := h.unheld hfresh
  have hpages : ∀ k' p, (w.cowCopy o k page fresh).kvPages k' = some p ↔
      (k' = k ∧ p = fresh) ∨ (k' ≠ k ∧ w.kvPages k' = some p) := by
    intro k' p
    by_cases hkey : k' = k
    · subst hkey
      simp [Tiering.cowCopy, eq_comm]
    · simp [Tiering.cowCopy, hkey]
  refine ⟨h.live_used, h.dead, h.len_le, ?hot_range, h.cold_range, ?hot_or_cold,
    fun _ hf => absurd hf id, ?refs, ?refs_nodup, ?kin, ?hot_content, h.cold_content,
    h.demoted_content, ?rows⟩
  case hot_range =>
    intro k' p hp
    rcases (hpages k' p).1 hp with ⟨rfl, -⟩ | ⟨-, hp⟩
    · exact h.hot_range _ _ hk
    · exact h.hot_range k' p hp
  case hot_or_cold =>
    intro s l lp hl hlp hno
    by_cases hkey : (⟨s, l, lp⟩ : PageKey) = k
    · have hhot : (w.cowCopy o k page fresh).kvPages ⟨s, l, lp⟩ ≠ none := by
        rw [(hpages _ fresh).2 (.inl ⟨hkey, rfl⟩)]
        exact Option.some_ne_none _
      have hncold : (l, lp) ∉ w.cold s := by
        rw [← h.hot_or_cold s l lp hl hlp hno, hkey, hk]
        exact Option.some_ne_none _
      exact ⟨fun hnone => absurd hnone hhot, fun hmem => absurd hmem hncold⟩
    · simp only [Tiering.cowCopy, update_of_ne hkey]
      exact h.hot_or_cold s l lp hl hlp hno
  case refs =>
    intro k' p
    rw [hpages]
    by_cases hp : p = fresh
    · subst hp
      have hnone : ¬ (k' ≠ k ∧ w.kvPages k' = some p) := fun hk' => hunheld k' hk'.2
      simp [Tiering.cowCopy, hnone]
    have hnf : ¬ (k' = k ∧ p = fresh) := fun hk' => hp hk'.2
    rw [or_iff_right hnf, ← h.refs]
    by_cases hpp : p = page
    · subst hpp
      simp [Tiering.cowCopy, update_of_ne hp, (h.refs_nodup p).mem_erase_iff]
    have hkn : k' ∈ w.held p → k' ≠ k := by
      rintro hmem rfl
      exact hpp (Option.some.inj (((h.refs _ _).1 hmem).symm.trans hk))
    simp only [Tiering.cowCopy, update_of_ne hp, update_of_ne hpp]
    exact ⟨fun hmem => ⟨hkn hmem, hmem⟩, And.right⟩
  case refs_nodup =>
    intro p
    by_cases hp : p = fresh
    · subst hp
      simp [Tiering.cowCopy]
    by_cases hpp : p = page
    · subst hpp
      simpa [Tiering.cowCopy, update_of_ne hp] using (h.refs_nodup p).erase _
    · simpa [Tiering.cowCopy, update_of_ne hp, update_of_ne hpp] using h.refs_nodup p
  case kin =>
    exact h.kin_moved hfresh hpages
  case hot_content =>
    intro k' p hp r hr off hoff hlt
    rcases (hpages k' p).1 hp with ⟨rfl, rfl⟩ | ⟨-, hp'⟩
    · have hbytes := h.hot_content _ _ hk r hr off hoff hlt
      simpa [Tiering.cowCopy, hr] using hbytes
    have hpf : p ≠ fresh := by
      rintro rfl
      exact hunheld k' hp'
    simpa [Tiering.cowCopy, hpf] using h.hot_content k' p hp' r hr off hoff hlt
  case rows =>
    intro st hst
    obtain ⟨hused, hlen, hrows⟩ := h.rows st hst
    refine ⟨hused, hlen, ?_⟩
    intro row hrow lp hlp p hp
    rcases (hpages _ _).1 hp with ⟨hkey, -⟩ | ⟨-, hp⟩
    · exact absurd (by rw [← hkey]) (hstep st hst)
    · exact hrows row hrow lp hlp p hp

theorem release (s : ℕ) : Tiered o (w.release s) := by
  have hpages : ∀ k p, (w.release s).kvPages k = some p ↔ k.seq ≠ s ∧ w.kvPages k = some p := by
    intro k p
    by_cases hk : k.seq = s
    · simp [Tiering.release, Tiering.freeSequence, hk]
    · simp [Tiering.release, Tiering.freeSequence, hk]
  have hnum : ∀ s', s' ≠ s → (w.release s).numLogical s' = w.numLogical s' := by
    intro s' hs'
    simp [Tiering.release, Tiering.freeSequence, hs']
  have hcold : ∀ s', s' ≠ s → (w.release s).cold s' = w.cold s' := by
    intro s' hs'
    simp [Tiering.release, Tiering.freeSequence, hs']
  have hgone : (w.release s).cold s = ∅ := by
    simp [Tiering.release, Tiering.freeSequence]
  refine ⟨?live_used, ?dead, ?len_le, ?hot_range, ?cold_range, ?hot_or_cold,
    fun _ hf => absurd hf id, ?refs, ?refs_nodup, ?kin, ?hot_content, ?cold_content,
    h.demoted_content, ?rows⟩
  case live_used =>
    intro s' hs'
    exact h.live_used s' (mem_of_mem_filter hs')
  case dead =>
    intro s' hs'
    by_cases heq : s' = s
    · subst heq
      simp [Tiering.release, Tiering.freeSequence]
    · rw [hnum s' heq]
      refine h.dead s' fun hl => hs' (mem_filter.2 ⟨hl, by simpa using heq⟩)
  case len_le =>
    intro s' hs' l
    obtain ⟨hl, hne⟩ := mem_filter.1 hs'
    rw [hnum s' (by simpa using hne)]
    exact h.len_le s' hl l
  case hot_range =>
    intro k p hp
    obtain ⟨hne, hp⟩ := (hpages k p).1 hp
    rw [hnum _ hne]
    exact h.hot_range k p hp
  case cold_range =>
    intro s' l lp hmem
    by_cases heq : s' = s
    · rw [heq, hgone] at hmem
      exact absurd hmem (AList.notMem_empty _)
    · rw [hcold s' heq] at hmem
      rw [hnum s' heq]
      exact h.cold_range s' l lp hmem
  case hot_or_cold =>
    intro s' l lp hl hlp hno
    by_cases heq : s' = s
    · subst heq
      simp [Tiering.release, Tiering.freeSequence] at hlp
    · rw [hnum s' heq] at hlp
      rw [hcold s' heq, ← h.hot_or_cold s' l lp hl hlp hno]
      simp [Tiering.release, Tiering.freeSequence, heq]
  case refs =>
    intro k p
    rw [hpages, ← h.refs]
    simp only [Tiering.release, Tiering.freeSequence, mem_filter, decide_eq_true_eq]
    constructor
    · rintro ⟨hmem, hno⟩
      exact ⟨fun hseq => hno ⟨hseq, (h.refs _ _).1 hmem⟩, hmem⟩
    · rintro ⟨hne, hmem⟩
      exact ⟨hmem, fun hno => hne hno.1⟩
  case refs_nodup =>
    intro p
    exact (h.refs_nodup p).filter _
  case kin =>
    intro k k' p hk hk'
    exact h.kin k k' p ((hpages k p).1 hk).2 ((hpages k' p).1 hk').2
  case hot_content =>
    intro k p hp
    exact h.hot_content k p ((hpages k p).1 hp).2
  case cold_content =>
    intro s' l lp b hb
    by_cases heq : s' = s
    · rw [heq, hgone] at hb
      simp at hb
    · rw [hcold s' heq] at hb
      exact h.cold_content s' l lp b hb
  case rows =>
    intro st hst
    obtain ⟨hused, hlen, hrows⟩ := h.rows st hst
    refine ⟨hused, ?_, ?_⟩
    · intro hl
      obtain ⟨hl, hne⟩ := mem_filter.1 hl
      rw [hnum _ (by simpa using hne)]
      exact hlen hl
    · intro row hrow lp hlp p hp
      exact hrows row hrow lp hlp p ((hpages _ _).1 hp).2

end TierInv

end V4
end LayerStorm.Daemon
