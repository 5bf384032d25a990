import LayerStorm.Server.ReasoningText

/-!
# The split of a stream and the split of a whole response

A stream takes the start marker out of what it shows, piece by piece or drain by drain; a whole
response is split at the markers that stand in it.  The two agree only where a piece shows one start
marker, and shows it at the beginning.

## Main results

* `reasoning_split_iff` — the three, together.
-/

namespace LayerStorm.Server

open Lib List

variable {τ : Type*} [DecidableEq τ]

namespace ReasoningParser

variable (m : ReasoningParser τ)

/-- The deltas of a response, one after the other, and the end of the stream. -/
def streamParts (ps : List (CompletionText × List τ)) : CompletionText × CompletionText :=
  Routed.flush (some m) (ps.foldl (Routed.route (some m)) ⟨⟨true, []⟩, [], []⟩)

def textOnly : ReasoningParser τ := { m with startId := none, endId := none }

def textStream (ps : List CompletionText) : CompletionText × CompletionText :=
  m.textOnly.streamParts (ps.map fun p => (p, []))

def tokenStream (text : τ → CompletionText) (ps : List (List τ)) :
    CompletionText × CompletionText :=
  m.streamParts (ps.map fun p => (p.flatMap text, p))

/-! ### The text fallback -/

/-- The start markers are where a cut text is searched for them: none is shown behind the beginning,
and what stands at the beginning is not cut. -/
structure TextCut (ps : List CompletionText) : Prop where
  once : ∀ qs p rs, ps = qs ++ p :: rs → find qs.flatten m.endStr = none →
    m.MarkerOnce qs.flatten (qs.flatten ++ p)
  first : m.MarkerFirst ps.flatten

variable {m}

theorem route_pieces (hm : m.endId = none) (hend : m.endStr ≠ []) (ps : List CompletionText) :
    ∀ t : CompletionText, find t m.endStr = none →
    (∀ qs p rs, ps = qs ++ p :: rs → find (t ++ qs.flatten) m.endStr = none →
      m.MarkerOnce (t ++ qs.flatten) (t ++ qs.flatten ++ p)) →
    Routed.flush (some m) ((ps.map fun p => (p, [])).foldl (Routed.route (some m))
      ⟨⟨true, t.drop (m.shown t).length⟩, dropMarker m.startStr (m.shown t), []⟩) =
        m.parts (t ++ ps.flatten) := by
  induction ps with
  | nil =>
    intro t hnone _
    rw [flatten_nil, append_nil]
    unfold parts
    rw [partition_eq_none.2 hnone]
    simp [Routed.flush, finish]
  | cons p ps ih =>
    intro t hnone honce
    have hp := honce [] p ps rfl
    rw [flatten_nil, append_nil] at hp
    rw [map_cons, foldl_cons, flatten_cons, ← append_assoc, route_delta hm hend hnone (hp hnone) []]
    cases hpart : partition (t ++ p) m.endStr with
    | none =>
      refine ih (t ++ p) (partition_eq_none.1 hpart) fun qs p' rs hps hnot => ?_
      have honce' := honce (p :: qs) p' rs (by rw [hps, cons_append])
        (by rw [flatten_cons, ← append_assoc]; exact hnot)
      rw [flatten_cons, ← append_assoc] at honce'
      exact honce'
    | some rc =>
      obtain ⟨r, c⟩ := rc
      obtain ⟨hwhole, hfirst⟩ := partition_eq_some hend hpart
      have hparts : m.parts (t ++ p ++ ps.flatten) =
          (dropMarker m.startStr r, c ++ ps.flatten) := by
        rw [hwhole, append_assoc _ c]
        unfold parts
        rw [partition_of_first hend hfirst]
      rw [route_content (some m) (.inr rfl), hparts]
      simp [Routed.flush, finish, Function.comp_def]

omit [DecidableEq τ] in
theorem find_nil (hend : m.endStr ≠ []) : find [] m.endStr = none := by
  rw [find_eq_none hend]
  exact fun n hocc => absurd (hocc.lt hend) (Nat.not_lt_zero n)

variable {ps : List CompletionText}

theorem textStream_eq_parts (hend : m.endStr ≠ [])
    (honce : ∀ qs p rs, ps = qs ++ p :: rs → find qs.flatten m.endStr = none →
      m.MarkerOnce qs.flatten (qs.flatten ++ p)) :
    m.textStream ps = m.parts ps.flatten := by
  have hrun := @route_pieces _ _ m.textOnly rfl hend ps [] (find_nil hend) honce
  have hshown : m.textOnly.shown [] = [] :=
    prefix_nil.1 (m.textOnly.shown_prefix hend [])
  have hdrop : dropMarker m.textOnly.startStr [] = [] := by
    unfold dropMarker
    rw [drop_nil, ite_self]
  rw [hshown, hdrop] at hrun
  exact hrun

/-- **A cut text is split as the whole text**, if the start markers are where it is searched for
them. -/
theorem textStream_eq (hend : m.endStr ≠ []) (h : m.TextCut ps) :
    m.textStream ps = m.extractReasoning ps.flatten := by
  rw [textStream_eq_parts hend h.once, extractReasoning_eq hend h.first]

/-- **All texts and all cuts** are split alike just if there is no start marker. -/
theorem forall_textStream_iff (hend : m.endStr ≠ []) :
    (∀ ps, m.textStream ps = m.extractReasoning ps.flatten) ↔ m.startStr = [] := by
  constructor
  · intro h
    by_contra hne
    obtain ⟨a, s, hs⟩ := exists_cons_of_ne_nil hne
    obtain ⟨b, e, he⟩ := exists_cons_of_ne_nil hend
    -- a character in front of the start marker that begins no marker
    obtain ⟨c, hca, hcb⟩ : ∃ c : Char, c ≠ a ∧ c ≠ b := by
      have hcard : ({a, b} : Finset Char).card < ({'x', 'y', 'z'} : Finset Char).card :=
        lt_of_le_of_lt Finset.card_le_two (by decide)
      obtain ⟨c, -, hc⟩ := Finset.exists_mem_notMem_of_card_lt_card hcard
      rw [Finset.mem_insert, Finset.mem_singleton, not_or] at hc
      exact ⟨c, hc.1, hc.2⟩
    set t := [c] ++ m.startStr
    have hstart : ∀ x, x <+: t → ¬m.startStr <+: x := by
      intro x hx hin
      have hpre := hin.trans hx
      rw [hs] at hpre
      exact hca (cons_prefix_cons.1 hpre).1.symm
    have hextract : m.extractReasoning t = ([], []) := by
      have hfirst : First m.startStr [c] := by
        intro n hn hocc
        obtain rfl : n = 0 := Nat.lt_one_iff.1 hn
        exact hstart t prefix_rfl hocc
      have hpart := partition_of_first hne hfirst []
      rw [append_nil] at hpart
      unfold extractReasoning
      rw [if_neg hne, hpart]
      dsimp only
      rw [partition_eq_none.2 (find_nil hend)]
      rfl
    have hstream : m.textStream [t] = m.parts t := by
      have hparts := textStream_eq_parts hend fun qs p rs (hps : [t] = qs ++ p :: rs) _ => by
        obtain ⟨rfl, -⟩ : qs = [] ∧ p :: rs = [t] := by
          cases qs with
          | nil => exact ⟨rfl, hps.symm⟩
          | cons q qs =>
            rw [cons_append, cons.injEq] at hps
            exact absurd hps.2 (by simp)
        exact .inr (.inl (prefix_nil.1 (m.shown_prefix hend [])))
      rw [flatten_singleton] at hparts
      exact hparts
    have hsame := h [t]
    rw [flatten_singleton, hextract, hstream] at hsame
    unfold parts at hsame
    cases hpart : partition t m.endStr with
    | some rc =>
      obtain ⟨r, d⟩ := rc
      obtain ⟨hwhole, -⟩ := partition_eq_some hend hpart
      have hr : r <+: t := by
        rw [hwhole, append_assoc]
        exact prefix_append _ _
      rw [hpart] at hsame
      dsimp only at hsame
      unfold dropMarker at hsame
      rw [if_neg (hstart r hr), Prod.mk.injEq] at hsame
      rw [hsame.1, he] at hwhole
      exact hcb (cons.inj hwhole).1
    | none =>
      rw [hpart] at hsame
      unfold dropMarker at hsame
      rw [if_neg (hstart _ (m.shown_prefix hend t)),
        (shown_split (partition_eq_none.1 hpart)).1, Prod.mk.injEq] at hsame
      exact absurd hsame.1 (cons_ne_nil _ _)
  · exact fun hnil ps => textStream_eq hend ⟨fun _ _ _ _ _ => .inl hnil, .inl hnil⟩

/-! ### The token mode -/

/-- A token stands for a word: the word stands in a text of tokens only where the token does. -/
structure StandsFor (text : τ → CompletionText) (t : τ) (w : CompletionText) : Prop where
  eq : text t = w
  ne_nil : w ≠ []
  only : ∀ ids n, OccursAt w (ids.flatMap text) n →
    ∃ x y, ids = x ++ t :: y ∧ (x.flatMap text).length = n

omit [DecidableEq τ] in
theorem StandsFor.partition {text : τ → CompletionText} {t : τ} {w : CompletionText}
    (h : StandsFor text t w) {x : List τ} (hx : t ∉ x) (y : List τ) :
    Server.partition ((x ++ t :: y).flatMap text) w = some (x.flatMap text, y.flatMap text) := by
  have hfirst : First w (x.flatMap text) := by
    intro n hn hocc
    have htext : x.flatMap text ++ w = (x ++ [t]).flatMap text := by
      rw [flatMap_append, flatMap_singleton, h.eq]
    rw [htext] at hocc
    obtain ⟨x', y', hxy, rfl⟩ := h.only _ _ hocc
    -- the only place of the token is behind `x`
    rcases append_eq_append_iff.1 hxy with ⟨z, hz, hz'⟩ | ⟨z, hz, hz'⟩
    · have hlen := congrArg length hz'
      rw [length_singleton, length_append, length_cons] at hlen
      have hnil : z = [] := eq_nil_of_length_eq_zero (by omega)
      rw [hz, hnil, append_nil] at hn
      exact absurd hn (lt_irrefl _)
    · cases z with
      | nil =>
        rw [append_nil] at hz
        rw [hz] at hn
        exact absurd hn (lt_irrefl _)
      | cons u z =>
        rw [cons_append, cons.injEq] at hz'
        rw [hz, hz'.1] at hx
        exact absurd (mem_append_right _ mem_cons_self) hx
  rw [flatMap_append, flatMap_cons, h.eq, ← append_assoc]
  exact partition_of_first h.ne_nil hfirst _

/-- The two markers are tokens that stand for them; a start marker may be empty. -/
structure MarkerTokens (text : τ → CompletionText) (m : ReasoningParser τ) (e : τ) : Prop where
  endId : m.endId = some e
  ends : StandsFor text e m.endStr
  starts : ∀ s, m.startId = some s → s ≠ e ∧ text s = m.startStr ∧
    (m.startStr ≠ [] → StandsFor text s m.startStr)

/-- The tokens of a drain without its first start marker. -/
def strip (m : ReasoningParser τ) (p : List τ) : List τ :=
  match m.startId with
  | some s => p.erase s
  | none => p

/-- The tokens without start markers. -/
def keep (m : ReasoningParser τ) (p : List τ) : List τ :=
  match m.startId with
  | some s => p.filter (· ≠ s)
  | none => p

/-! ### Texts of tokens -/

section Texts

variable {text : τ → CompletionText} {s : τ}

theorem length_erase_text {q : List τ} (h : s ∈ q) :
    ((q.erase s).flatMap text).length + (text s).length = (q.flatMap text).length := by
  obtain ⟨q₁, q₂, -, hq, herase⟩ := exists_erase_eq h
  rw [herase, hq]
  simp only [flatMap_append, flatMap_cons, length_append]
  omega

theorem length_filter_text (q : List τ) :
    ((q.filter (· ≠ s)).flatMap text).length + q.count s * (text s).length =
      (q.flatMap text).length := by
  induction q with
  | nil => simp
  | cons t q ih =>
    by_cases ht : t = s
    · subst ht
      rw [filter_cons_of_neg (by simp), count_cons_self, flatMap_cons,
        length_append, ← ih, Nat.succ_mul]
      omega
    · rw [filter_cons_of_pos (by simpa using ht), count_cons_of_ne ht,
        flatMap_cons, flatMap_cons, length_append, length_append, ← ih]
      omega

theorem filter_eq_erase {q : List τ} (h : q.count s ≤ 1) : q.filter (· ≠ s) = q.erase s := by
  induction q with
  | nil => rfl
  | cons t q ih =>
    by_cases ht : t = s
    · subst ht
      rw [count_cons_self] at h
      have hnot : t ∉ q := count_eq_zero.1 (by omega)
      rw [filter_cons_of_neg (by simp), erase_cons_head, filter_eq_self]
      intro u hu
      simp only [decide_not, Bool.not_eq_eq_eq_not, Bool.not_true, decide_eq_false_iff_not]
      rintro rfl
      exact hnot hu
    · rw [count_cons_of_ne ht] at h
      rw [filter_cons_of_pos (by simpa using ht), ih h, erase_cons_tail (by simpa using ht)]

theorem erase_text (hs : text s = []) (q : List τ) : (q.erase s).flatMap text = q.flatMap text := by
  by_cases h : s ∈ q
  · obtain ⟨q₁, q₂, -, hq, herase⟩ := exists_erase_eq h
    rw [herase, hq]
    simp [hs]
  · rw [erase_of_not_mem h]

theorem filter_text (hs : text s = []) (q : List τ) :
    (q.filter (· ≠ s)).flatMap text = q.flatMap text := by
  induction q with
  | nil => rfl
  | cons t q ih =>
    by_cases ht : t = s
    · subst ht
      rw [filter_cons_of_neg (by simp), ih, flatMap_cons, hs, nil_append]
    · rw [filter_cons_of_pos (by simpa using ht), flatMap_cons, flatMap_cons, ih]

omit [DecidableEq τ] in
theorem flatMap_flatten_text (ps : List (List τ)) :
    (ps.map fun p => p.flatMap text).flatten = ps.flatten.flatMap text := by
  induction ps with
  | nil => rfl
  | cons p ps ih => rw [map_cons, flatten_cons, ih, flatten_cons, flatMap_append]

theorem text_erase_eq_iff (q : List τ) :
    ((q.filter (· ≠ s)).flatMap text).length ≤ ((q.erase s).flatMap text).length ∧
      ((q.erase s).flatMap text = (q.filter (· ≠ s)).flatMap text ↔
        text s = [] ∨ q.count s ≤ 1) := by
  by_cases hs : text s = []
  · rw [erase_text hs, filter_text hs]
    exact ⟨le_rfl, iff_of_true rfl (.inl hs)⟩
  by_cases hcount : q.count s ≤ 1
  · rw [filter_eq_erase hcount]
    exact ⟨le_rfl, iff_of_true rfl (.inr hcount)⟩
  have hpos := length_pos_of_ne_nil hs
  have hmem : s ∈ q := count_pos_iff.1 (by omega)
  have herase : ((q.erase s).flatMap text).length + _ = _ := length_erase_text hmem
  have hfilter : ((q.filter (· ≠ s)).flatMap text).length + _ = _ := length_filter_text q
  have hmul : 2 * (text s).length ≤ q.count s * (text s).length :=
    Nat.mul_le_mul_right _ (by omega)
  refine ⟨by omega, iff_of_false (fun heq => ?_) (by tauto)⟩
  have hlen := congrArg length heq
  omega

end Texts

/-- Before the end marker of a drain, there is one start marker if there is one in the drain. -/
def Once (m : ReasoningParser τ) (e : τ) (p : List τ) : Prop :=
  ∀ s ∈ m.startId, m.startStr = [] ∨ s ∉ p ∨ (p.takeWhile (· ≠ e)).count s = 1

instance (e : τ) (p : List τ) : Decidable (m.Once e p) :=
  inferInstanceAs (Decidable (∀ s ∈ m.startId, _))

/-- The start markers are where the stream looks for them, up to the end marker. -/
def TokenCut (m : ReasoningParser τ) (e : τ) : List (List τ) → Prop
  | [] => True
  | p :: ps => m.Once e p ∧ (e ∉ p → TokenCut m e ps)

/-! ### The drains -/

section Drains

variable {text : τ → CompletionText} {e : τ}

section

variable (h : MarkerTokens text m e)
include h

theorem stripStart_tokens (p : List τ) :
    m.stripStart (p.flatMap text) p = (m.strip p).flatMap text := by
  unfold stripStart strip
  cases hs : m.startId with
  | none => rfl
  | some s =>
    obtain ⟨-, htext, hstands⟩ := h.starts s hs
    dsimp only
    by_cases hmem : s ∈ p
    · rw [if_pos hmem]
      by_cases hnil : m.startStr = []
      · rw [hnil, removeOne_nil, erase_text (htext.trans hnil)]
      obtain ⟨q₁, q₂, hq₁, hq, herase⟩ := exists_erase_eq hmem
      have hparted := (hstands hnil).partition hq₁ q₂
      unfold removeOne
      rw [herase, hq, hparted]
      exact flatMap_append.symm
    · rw [if_neg hmem, erase_of_not_mem hmem]

theorem route_ending {p q z : List τ} (hp : m.strip p = q ++ e :: z) (hq : e ∉ q) (hmem : e ∈ p)
    (R : CompletionText) :
    (reasoningSoFar R).route (some m) (p.flatMap text, p) =
      ⟨⟨false, []⟩, R ++ q.flatMap text, z.flatMap text⟩ := by
  have hempty : ¬(p.flatMap text = [] ∧ p = []) := fun hnil => by
    rw [hnil.2] at hmem
    exact absurd hmem not_mem_nil
  unfold reasoningSoFar Routed.route process
  dsimp only
  rw [if_neg hempty, h.endId]
  dsimp only
  rw [if_pos hmem, stripStart_tokens h, hp, h.ends.partition hq]
  simp

theorem ending_iff {q z : List τ} (hq : e ∉ q) :
    ∃ q' z', m.strip (q ++ e :: z) = q' ++ e :: z' ∧ e ∉ q' ∧
      ((m.keep q).flatMap text).length ≤ (q'.flatMap text).length ∧
      ∀ w : CompletionText, (q'.flatMap text = (m.keep q).flatMap text ∧
          z'.flatMap text ++ w = z.flatMap text ++ w ↔ m.Once e (q ++ e :: z)) := by
  unfold strip keep Once
  rw [(splitAt_end hq z).1]
  cases hs : m.startId with
  | none => exact ⟨q, z, rfl, hq, le_rfl, fun w => iff_of_true ⟨rfl, rfl⟩ (by simp)⟩
  | some s =>
    obtain ⟨hne, htext, -⟩ := h.starts s hs
    simp only [Option.mem_some_iff, forall_eq']
    by_cases hmem : s ∈ q
    · obtain ⟨hle, hiff⟩ := @text_erase_eq_iff _ _ text s q
      have hpos := count_pos_iff.2 hmem
      refine ⟨q.erase s, z, erase_append_left _ hmem, fun hin => hq (mem_of_mem_erase hin),
        hle, fun w => ?_⟩
      rw [hiff, htext]
      constructor
      · rintro ⟨hnil | hcount, -⟩
        · exact .inl hnil
        · exact .inr (.inr (by omega))
      · rintro (hnil | hnot | hcount)
        · exact ⟨.inl hnil, rfl⟩
        · exact absurd (mem_append_left _ hmem) hnot
        · exact ⟨.inr hcount.le, rfl⟩
    · have hcount : q.count s = 0 := count_eq_zero.2 hmem
      have hkeep : q.filter (· ≠ s) = q := by
        rw [filter_eq_erase (by omega), erase_of_not_mem hmem]
      have herase : (q ++ e :: z).erase s = q ++ e :: z.erase s := by
        rw [erase_append_right _ hmem, erase_cons_tail (by simpa using Ne.symm hne)]
      refine ⟨q, z.erase s, herase, hq, by rw [hkeep], fun w => ?_⟩
      rw [hkeep, and_iff_right rfl, hcount, append_left_inj]
      -- a start marker behind the end marker is taken out of the content
      by_cases hz : s ∈ z
      · have hlen : ((z.erase s).flatMap text).length + _ = _ := length_erase_text hz
        constructor
        · intro heq
          left
          rw [heq, htext] at hlen
          exact eq_nil_of_length_eq_zero (by omega)
        · rintro (hnil | hnot | hone)
          · exact erase_text (htext.trans hnil) z
          · exact absurd (mem_append_right _ (mem_cons_of_mem _ hz)) hnot
          · cases hone
      · rw [erase_of_not_mem hz]
        refine iff_of_true rfl (.inr (.inl ?_))
        rw [mem_append, mem_cons]
        tauto

theorem before_iff {p : List τ} (hp : e ∉ p) :
    ((m.keep p).flatMap text).length ≤ ((m.strip p).flatMap text).length ∧
      ((m.strip p).flatMap text = (m.keep p).flatMap text ↔ m.Once e p) := by
  unfold strip keep Once
  rw [(splitAt_none hp).1]
  cases hs : m.startId with
  | none => exact ⟨le_rfl, iff_of_true rfl (by simp)⟩
  | some s =>
    obtain ⟨-, htext, -⟩ := h.starts s hs
    obtain ⟨hle, hiff⟩ := @text_erase_eq_iff _ _ text s p
    refine ⟨hle, hiff.trans ?_⟩
    rw [htext]
    simp only [Option.mem_some_iff, forall_eq']
    by_cases hmem : s ∈ p
    · have hpos := count_pos_iff.2 hmem
      refine or_congr_right ⟨fun hc => .inr (by omega), ?_⟩
      rintro (hnot | hone)
      · exact absurd hmem hnot
      · exact hone.le
    · have hcount : p.count s = 0 := count_eq_zero.2 hmem
      exact iff_of_true (.inr (by omega)) (.inr (.inl hmem))

end

theorem keep_append (p q : List τ) : m.keep (p ++ q) = m.keep p ++ m.keep q := by
  unfold keep
  cases m.startId with
  | none => rfl
  | some s => exact filter_append _ _

theorem splitTokenIds_eq (ids : List τ) : m.splitTokenIds e ids =
    (m.keep (ids.takeWhile (· ≠ e)), (ids.dropWhile (· ≠ e)).tail) := by
  cases m.startId <;> rfl

theorem route_drains (h : MarkerTokens text m e) (ps : List (List τ)) : ∀ R, ∃ X C,
    Routed.flush (some m) ((ps.map fun p => (p.flatMap text, p)).foldl (Routed.route (some m))
      (reasoningSoFar R)) = (R ++ X, C) ∧
    ((m.splitTokenIds e ps.flatten).1.flatMap text).length ≤ X.length ∧
    (X = (m.splitTokenIds e ps.flatten).1.flatMap text ∧
      C = (m.splitTokenIds e ps.flatten).2.flatMap text ↔ m.TokenCut e ps) := by
  induction ps with
  | nil =>
    intro R
    refine ⟨[], [], ?_, ?_, ?_⟩
    · simp [Routed.flush, finish, reasoningSoFar]
    · simp [splitTokenIds_eq, keep]
      cases m.startId <;> simp
    · simp [splitTokenIds_eq, keep, TokenCut]
      cases m.startId <;> simp
  | cons p ps ih =>
    intro R
    rw [map_cons, foldl_cons, flatten_cons, TokenCut]
    simp only [splitTokenIds_eq] at ih ⊢
    by_cases hmem : e ∈ p
    · obtain ⟨z, hp, hq⟩ := exists_splitAt hmem
      set q := p.takeWhile (· ≠ e)
      obtain ⟨q', z', hstrip, hq', hle, hiff⟩ := ending_iff h hq (z := z)
      rw [← hp] at hstrip hiff
      have hall : p ++ ps.flatten = q ++ e :: (z ++ ps.flatten) := by
        nth_rewrite 1 [hp]
        rw [append_assoc, cons_append]
      refine ⟨q'.flatMap text, z'.flatMap text ++ ps.flatten.flatMap text, ?_, ?_, ?_⟩
      · rw [route_ending h hstrip hq' hmem, route_content (some m) (.inr rfl)]
        rw [← flatMap_flatten_text]
        simp [Routed.flush, finish, Function.comp_def]
      · rw [hall, (splitAt_end hq _).1]
        exact hle
      · rw [hall, (splitAt_end hq _).1, (splitAt_end hq _).2, tail_cons, flatMap_append, hiff]
        exact ⟨fun ho => ⟨ho, fun hnot => absurd hmem hnot⟩, fun ho => ho.1⟩
    · obtain ⟨hle, hiff⟩ := before_iff h hmem
      obtain ⟨X, C, hrun, hle', hiff'⟩ := ih (R ++ (m.strip p).flatMap text)
      have hall : ∀ t ∈ p, decide (t ≠ e) = true := fun t ht =>
        decide_eq_true fun heq => hmem (heq ▸ ht)
      rw [takeWhile_append_of_pos hall, dropWhile_append_of_pos hall, keep_append, flatMap_append]
      refine ⟨(m.strip p).flatMap text ++ X, C, ?_, ?_, ?_⟩
      · rw [route_before h.endId hmem, stripStart_tokens h, hrun, append_assoc]
      · rw [length_append, length_append]
        omega
      · rw [← hiff, ← hiff', imp_iff_right hmem]
        constructor
        · rintro ⟨hX, hC⟩
          -- no part shows too little, so none shows too much
          have hlen := congrArg length hX
          rw [length_append, length_append] at hlen
          obtain ⟨h₁, h₂⟩ := append_inj hX (by omega)
          exact ⟨h₁, h₂, hC⟩
        · rintro ⟨h₁, h₂, hC⟩
          rw [h₁, h₂]
          exact ⟨rfl, hC⟩

/-- **Cut tokens** are split as all of them just if no drain shows two start markers. -/
theorem tokenStream_iff (h : MarkerTokens text m e) (ps : List (List τ)) : m.tokenStream text ps =
        ((m.splitTokenIds e ps.flatten).1.flatMap text,
          (m.splitTokenIds e ps.flatten).2.flatMap text) ↔
      m.TokenCut e ps := by
  obtain ⟨X, C, hrun, -, hiff⟩ := route_drains h ps []
  have hstream : m.tokenStream text ps = (X, C) := hrun
  rw [hstream, Prod.mk.injEq]
  exact hiff

end Drains

/-! ### Both modes -/

/-- **The split of a stream.**  Without a start marker every cut text is split as the whole text,
and with one not every cut text is: those are whose start markers stand where the stream searches
for them.  Cut tokens are split as all of them just if no drain shows two start markers. -/
theorem reasoning_split_iff (m : ReasoningParser τ) (hend : m.endStr ≠ []) :
    ((∀ ps, m.textStream ps = m.extractReasoning ps.flatten) ↔ m.startStr = []) ∧
    (∀ ps, m.TextCut ps → m.textStream ps = m.extractReasoning ps.flatten) ∧
    ∀ (text : τ → CompletionText) (e : τ), MarkerTokens text m e → ∀ ps, (m.tokenStream text ps =
          ((m.splitTokenIds e ps.flatten).1.flatMap text,
            (m.splitTokenIds e ps.flatten).2.flatMap text) ↔
        m.TokenCut e ps) :=
  ⟨forall_textStream_iff hend, fun _ h => textStream_eq hend h,
    fun _ _ h ps => tokenStream_iff h ps⟩

/-- Token `0` is a start marker and token `1` an end marker. -/
def letterTokens : ReasoningParser ℕ := ⟨['S'], ['E'], some 0, some 1⟩

def letterText : ℕ → CompletionText
  | 0 => ['S']
  | 1 => ['E']
  | _ => ['a']

theorem standsFor_letter {t : ℕ} {c : Char} (ht : letterText t = [c])
    (honly : ∀ u, letterText u = [c] → u = t) : StandsFor letterText t [c] := by
  refine ⟨ht, cons_ne_nil _ _, fun ids => ?_⟩
  have hone : ∀ u, ∃ d, letterText u = [d] := by
    rintro (_ | _ | u)
    · exact ⟨_, rfl⟩
    · exact ⟨_, rfl⟩
    · exact ⟨_, rfl⟩
  induction ids with
  | nil =>
    intro n hocc
    exact absurd (hocc.lt (cons_ne_nil _ _)) (Nat.not_lt_zero n)
  | cons u ids ih =>
    intro n hocc
    obtain ⟨d, hd⟩ := hone u
    rw [flatMap_cons, hd] at hocc
    cases n with
    | zero =>
      have hcd : c = d := (cons_prefix_cons.1 hocc).1
      exact ⟨[], ids, by rw [honly u (by rw [hd, hcd]), nil_append], rfl⟩
    | succ n =>
      obtain ⟨x, y, hids, hlen⟩ := ih n hocc
      exact ⟨u :: x, y, by rw [hids, cons_append], by
        rw [flatMap_cons, hd, singleton_append, length_cons, hlen]⟩

theorem markerTokens_letters : MarkerTokens letterText letterTokens 1 where
  endId := rfl
  ends := standsFor_letter rfl (by
    rintro (_ | _ | u) hu
    · exact absurd hu (by decide)
    · rfl
    · exact absurd hu (by simp [letterText]))
  starts := by
    rintro s hs
    obtain rfl : s = 0 := (Option.some.inj hs).symm
    refine ⟨by decide, rfl, fun _ => standsFor_letter rfl ?_⟩
    rintro (_ | _ | u) hu
    · rfl
    · exact absurd hu (by decide)
    · exact absurd hu (by simp [letterText])

/-- A start marker in the first drain, and an end marker in the second. -/
theorem reasoning_split_iff_letters : letterTokens.tokenStream letterText [[0, 2], [2, 1, 2]] =
      ((letterTokens.splitTokenIds 1 [0, 2, 2, 1, 2]).1.flatMap letterText,
        (letterTokens.splitTokenIds 1 [0, 2, 2, 1, 2]).2.flatMap letterText) :=
  ((reasoning_split_iff letterTokens (by decide)).2.2 letterText 1 markerTokens_letters
    [[0, 2], [2, 1, 2]]).2 ⟨by decide, fun _ => ⟨by decide, fun _ => trivial⟩⟩

/-- The markers of the text fallback. -/
def thinkText : ReasoningParser ℕ := ⟨"<think>".toList, "</think>".toList, none, none⟩

/-- A start marker cut by a delta stays in what is shown, and so does the second one of a drain. -/
theorem cut_start_marker : thinkText.textStream ["<t".toList, "hink>a</think>b".toList] ≠
      thinkText.extractReasoning "<think>a</think>b".toList ∧
    letterTokens.tokenStream letterText [[0, 0, 2, 1]] ≠
      ((letterTokens.splitTokenIds 1 [0, 0, 2, 1]).1.flatMap letterText,
        (letterTokens.splitTokenIds 1 [0, 0, 2, 1]).2.flatMap letterText) := by
  decide

end ReasoningParser

end LayerStorm.Server
