import LayerStorm.Server.ReasoningTokens

/-!
# Reasoning that ends with a text

Where the markers are not tokens, the end marker is searched in the text, and a beginning of it at
the end of the text is held back.  The stream takes a start marker out of every piece that begins
with one; without streaming everything up to the first start marker is dropped.

## Main results

* `char_stream_faithful` — the streams, all together.
-/

namespace LayerStorm.Server

open Lib List Option

variable {τ : Type*} [DecidableEq τ]

/-! ### The part that is held back -/

theorem find_held {w e h : CompletionText} (hw : w ≠ []) (hnone : find (e ++ h) w = none)
    (hlen : h.length = partialTagLen (e ++ h) w) (u : CompletionText) :
    find (e ++ h ++ u) w = (find (h ++ u) w).map (e.length + ·) := by
  have hnot := (find_eq_none hw).1 hnone
  have hshift : ∀ n, OccursAt w (e ++ h ++ u) (e.length + n) ↔ OccursAt w (h ++ u) n := by
    intro n
    unfold OccursAt
    rw [append_assoc, drop_length_add_append]
  have hle : ∀ {n}, OccursAt w (e ++ h ++ u) n → e.length ≤ n := by
    intro n hocc
    have hlt : (e ++ h).length < n + w.length := by
      by_contra hin
      refine hnot n (prefix_of_prefix_length_le ?_ (prefix_append _ u) ?_)
      · have hpos := length_pos_of_ne_nil hw
        rw [← drop_append_of_le_length (by omega)]
        exact hocc
      · rw [length_drop]
        omega
    have hkeep := le_of_ends_behind hlt hocc
    rw [← hlen, length_append] at hkeep
    omega
  cases hfind : find (h ++ u) w with
  | none =>
    rw [map_none, find_eq_none hw]
    intro n hocc
    obtain ⟨k, rfl⟩ := Nat.exists_eq_add_of_le (hle hocc)
    exact (find_eq_none hw).1 hfind k ((hshift k).1 hocc)
  | some i =>
    obtain ⟨hocc, hfirst⟩ := (find_eq_some hw).1 hfind
    rw [map_some, find_eq_some hw]
    refine ⟨(hshift i).2 hocc, fun n hn hocc' => ?_⟩
    obtain ⟨k, rfl⟩ := Nat.exists_eq_add_of_le (hle hocc')
    exact hfirst k (by omega) ((hshift k).1 hocc')

theorem partition_eq_none {text sep : CompletionText} :
    partition text sep = none ↔ find text sep = none := map_eq_none_iff

theorem partition_eq_some {text sep x y : CompletionText} (hsep : sep ≠ [])
    (h : partition text sep = some (x, y)) : text = x ++ sep ++ y ∧ First sep x := by
  unfold partition at h
  obtain ⟨n, hn, hxy⟩ := map_eq_some_iff.1 h
  cases hxy
  obtain ⟨hocc, hfirst⟩ := (find_eq_some hsep).1 hn
  have hlen : (text.take n).length = n := by
    rw [length_take]
    exact min_eq_left (hocc.lt hsep).le
  have htext : text = text.take n ++ sep ++ text.drop (n + sep.length) := by
    obtain ⟨z, hz⟩ := hocc
    have hdrop : text.drop (n + sep.length) = z := by
      rw [← drop_drop, ← hz, drop_left]
    rw [hdrop, append_assoc, hz, take_append_drop]
  refine ⟨htext, fun k hk hocc' => ?_⟩
  rw [hlen] at hk
  refine hfirst k hk ?_
  rw [htext]
  exact hocc'.append hsep _

/-! ### The reasoning of a text -/

namespace ReasoningParser

variable (m : ReasoningParser τ)

/-- The reasoning of a text: what stands before the end marker, or else what is not held back. -/
def shown (t : CompletionText) : CompletionText :=
  match partition t m.endStr with
  | some (reasoning, _) => reasoning
  | none => t.take (t.length - partialTagLen t m.endStr)

omit [DecidableEq τ] in
theorem shown_prefix (hend : m.endStr ≠ []) (t : CompletionText) : m.shown t <+: t := by
  unfold shown
  cases h : partition t m.endStr with
  | none => exact take_prefix _ _
  | some p =>
    obtain ⟨x, y⟩ := p
    obtain ⟨rfl, -⟩ := partition_eq_some hend h
    rw [append_assoc]
    exact prefix_append _ _

variable {m}

variable {t : CompletionText}

omit [DecidableEq τ] in
theorem shown_split (hnone : find t m.endStr = none) : m.shown t ++ t.drop (m.shown t).length = t ∧
      (t.drop (m.shown t).length).length = partialTagLen t m.endStr := by
  have hle := partialTagLen_le t m.endStr
  have hshown : m.shown t = t.take (t.length - partialTagLen t m.endStr) := by
    unfold shown
    rw [partition_eq_none.2 hnone]
  have hlen : (m.shown t).length = t.length - partialTagLen t m.endStr := by
    rw [hshown, length_take]
    omega
  rw [hlen, hshown, take_append_drop, length_drop]
  exact ⟨rfl, by omega⟩

omit [DecidableEq τ] in
theorem shown_append_of_none {e h d : CompletionText} (hend : m.endStr ≠ [])
    (hlen : h.length = partialTagLen (e ++ h) m.endStr)
    (hnone : find (e ++ h ++ d) m.endStr = none) :
    m.shown (e ++ h ++ d) =
      e ++ (h ++ d).take ((h ++ d).length - partialTagLen (h ++ d) m.endStr) := by
  have hle := partialTagLen_le (h ++ d) m.endStr
  have hsub : (e ++ (h ++ d)).length - partialTagLen (h ++ d) m.endStr =
      e.length + ((h ++ d).length - partialTagLen (h ++ d) m.endStr) := by
    rw [@List.length_append _ e]
    omega
  unfold shown
  rw [partition_eq_none.2 hnone]
  dsimp only
  rw [partialTagLen_held hend hlen, append_assoc, hsub, take_length_add_append]

/-- **A piece** is what the reasoning of the text goes on with. -/
theorem process_text (hm : m.endId = none) (hend : m.endStr ≠ []) (hnone : find t m.endStr = none)
    (d : CompletionText) (ids : List τ) :
    m.process ⟨true, t.drop (m.shown t).length⟩ d ids =
      match partition (t ++ d) m.endStr with
      | some (r, c) => (⟨false, []⟩, dropMarker m.startStr (r.drop (m.shown t).length), c)
      | none => (⟨true, (t ++ d).drop (m.shown (t ++ d)).length⟩,
          dropMarker m.startStr ((m.shown (t ++ d)).drop (m.shown t).length), []) := by
  by_cases hempty : d = [] ∧ ids = []
  · rw [hempty.1, append_nil, partition_eq_none.2 hnone]
    have hprocess : m.process ⟨true, t.drop (m.shown t).length⟩ [] ids =
        (⟨true, t.drop (m.shown t).length⟩, [], []) := by
      unfold process
      rw [if_neg (fun h => (by cases h)), if_pos ⟨rfl, hempty.2⟩]
    have hdrop : dropMarker m.startStr [] = [] := by
      unfold dropMarker
      rw [drop_nil, ite_self]
    dsimp only
    rw [hprocess, drop_length, hdrop]
  · obtain ⟨hsplit, hlen⟩ := shown_split hnone
    set e := m.shown t
    set h := t.drop e.length
    rw [← hsplit] at hnone hlen ⊢
    have hfind := find_held hend hnone hlen d
    have hprocess : m.process ⟨true, h⟩ d ids =
        match partition (h ++ d) m.endStr with
        | some (r, c) => (⟨false, []⟩, dropMarker m.startStr r, c)
        | none => (⟨true, (h ++ d).drop ((h ++ d).length - partialTagLen (h ++ d) m.endStr)⟩,
            dropMarker m.startStr
              ((h ++ d).take ((h ++ d).length - partialTagLen (h ++ d) m.endStr)), []) := by
      unfold process
      rw [if_neg (fun h => (by cases h)), if_neg hempty]
      exact hm ▸ rfl
    rw [hprocess]
    cases hi : find (h ++ d) m.endStr with
    | some i =>
      rw [hi, map_some] at hfind
      unfold partition
      rw [hi, hfind]
      dsimp only [map_some]
      rw [append_assoc, take_length_add_append, drop_left, Nat.add_assoc, drop_length_add_append]
    | none =>
      rw [hi, map_none] at hfind
      rw [partition_eq_none.2 hi, partition_eq_none.2 hfind]
      dsimp only
      rw [shown_append_of_none hend hlen hfind, drop_left, append_assoc,
        @List.length_append _ e, drop_length_add_append, length_take_of_le (Nat.sub_le _ _)]

omit [DecidableEq τ] in
theorem shown_mono (hend : m.endStr ≠ []) (hnone : find t m.endStr = none) (d : CompletionText) :
    m.shown t <+: m.shown (t ++ d) := by
  obtain ⟨hsplit, hlen⟩ := shown_split hnone
  set e := m.shown t
  set h := t.drop e.length
  rw [← hsplit] at hnone hlen ⊢
  have hfind := find_held hend hnone hlen d
  cases hi : find (h ++ d) m.endStr with
  | none =>
    rw [hi, map_none] at hfind
    rw [shown_append_of_none hend hlen hfind]
    exact prefix_append _ _
  | some i =>
    rw [hi, map_some] at hfind
    have hshown : m.shown (e ++ h ++ d) = e ++ (h ++ d).take i := by
      unfold shown partition
      rw [hfind]
      dsimp only [map_some]
      rw [append_assoc, take_length_add_append]
    rw [hshown]
    exact prefix_append _ _

/-- A start marker is taken out once: behind what is shown no piece begins with one, and a start
marker at the beginning is not completed by a later piece. -/
def MarkerOnce (m : ReasoningParser τ) (t t' : CompletionText) : Prop :=
  m.startStr = [] ∨ m.shown t = [] ∨ (¬m.startStr <+: (m.shown t').drop (m.shown t).length ∧
      (m.startStr <+: m.shown t' → m.startStr <+: m.shown t))

instance (t t' : CompletionText) : Decidable (MarkerOnce m t t') :=
  inferInstanceAs (Decidable (_ ∨ _ ∨ (_ ∧ _)))

omit [DecidableEq τ] in
theorem dropMarker_append {x y : CompletionText} (hxy : x <+: y) (h : m.startStr = [] ∨ x = [] ∨
      (¬m.startStr <+: y.drop x.length ∧ (m.startStr <+: y → m.startStr <+: x))) :
    dropMarker m.startStr x ++ dropMarker m.startStr (y.drop x.length) =
      dropMarker m.startStr y := by
  obtain ⟨z, rfl⟩ := hxy
  rw [drop_left] at h ⊢
  unfold dropMarker
  rcases h with hnil | rfl | ⟨hz, hx⟩
  · rw [hnil]
    simp
  · simp
  rw [if_neg hz]
  by_cases hpre : m.startStr <+: x ++ z
  · rw [if_pos (hx hpre), if_pos hpre, drop_append_of_le_length (hx hpre).length_le]
  · rw [if_neg (fun hin => hpre (hin.trans (prefix_append _ _))), if_neg hpre]

/-! ### The drains -/

/-- The parts of a text, without a start marker at its beginning. -/
def parts (m : ReasoningParser τ) (t : CompletionText) : CompletionText × CompletionText :=
  match partition t m.endStr with
  | some (reasoning, content) => (dropMarker m.startStr reasoning, content)
  | none => (dropMarker m.startStr (m.shown t) ++ t.drop (m.shown t).length, [])

theorem route_delta (hm : m.endId = none) (hend : m.endStr ≠ []) {d : CompletionText}
    (hnone : find t m.endStr = none) (honce : MarkerOnce m t (t ++ d)) (ids : List τ)
    (C : CompletionText) :
    Routed.route (some m) ⟨⟨true, t.drop (m.shown t).length⟩,
        dropMarker m.startStr (m.shown t), C⟩ (d, ids) =
      match partition (t ++ d) m.endStr with
      | some (r, c) => ⟨⟨false, []⟩, dropMarker m.startStr r, C ++ c⟩
      | none => ⟨⟨true, (t ++ d).drop (m.shown (t ++ d)).length⟩,
          dropMarker m.startStr (m.shown (t ++ d)), C⟩ := by
  have hdrop := dropMarker_append (shown_mono hend hnone d) honce
  unfold Routed.route
  dsimp only
  rw [process_text hm hend hnone]
  cases hpart : partition (t ++ d) m.endStr with
  | none =>
    dsimp only
    rw [hdrop, append_nil]
  | some rc =>
    obtain ⟨r, c⟩ := rc
    have hshown : m.shown (t ++ d) = r := by
      unfold shown
      rw [hpart]
    rw [hshown] at hdrop
    dsimp only
    rw [hdrop]

theorem route_text (hm : m.endId = none) (hend : m.endStr ≠ []) (bytes : τ → List ℕ)
    (ps : List (List τ)) : ∀ ids : List τ, find (decodeIds bytes ids) m.endStr = none →
    NoneSplit bytes ids ps →
    (∀ qs p rs, ps = qs ++ p :: rs → find (decodeIds bytes (ids ++ qs.flatten)) m.endStr = none →
      MarkerOnce m (decodeIds bytes (ids ++ qs.flatten)) (decodeIds bytes (ids ++ qs.flatten ++ p))) →
    let t := decodeIds bytes ids
    Routed.flush (some m) ((deltas bytes ids ps).foldl (Routed.route (some m))
      ⟨⟨true, t.drop (m.shown t).length⟩, dropMarker m.startStr (m.shown t), []⟩) =
        m.parts (decodeIds bytes (ids ++ ps.flatten)) := by
  induction ps with
  | nil =>
    intro ids hnone _ _
    dsimp only
    rw [flatten_nil, append_nil]
    unfold parts
    rw [partition_eq_none.2 hnone]
    simp [deltas, Routed.flush, finish]
  | cons p ps ih =>
    intro ids hnone hsplit honce
    have hp := honce [] p ps rfl
    rw [flatten_nil, append_nil] at hp
    have htext := append_newText hsplit.prefix
    have hroute := route_delta hm hend hnone (htext ▸ hp hnone) p []
    rw [htext] at hroute
    dsimp only
    rw [deltas, foldl_cons, flatten_cons, ← append_assoc, hroute]
    cases hpart : partition (decodeIds bytes (ids ++ p)) m.endStr with
    | none =>
      refine ih (ids ++ p) (partition_eq_none.1 hpart) hsplit.tail fun qs p' rs hps hnot => ?_
      have honce' := honce (p :: qs) p' rs (by rw [hps, cons_append])
        (by rw [flatten_cons, ← append_assoc]; exact hnot)
      rw [flatten_cons, ← append_assoc] at honce'
      exact honce'
    | some rc =>
      obtain ⟨r, c⟩ := rc
      obtain ⟨hwhole, hfirst⟩ := partition_eq_some hend hpart
      -- the content goes on with the deltas behind the marker
      have hrest := decodeIds_append_deltas hsplit.tail
      rw [hwhole, append_assoc _ c] at hrest
      dsimp only
      rw [route_content (some m) (.inr rfl), ← hrest]
      unfold parts
      rw [partition_of_first hend hfirst]
      simp [Routed.flush, finish]

/-! ### Without streaming -/

/-- The start marker, if it stands anywhere, is at the beginning of what is shown. -/
def MarkerFirst (m : ReasoningParser τ) (t : CompletionText) : Prop :=
  m.startStr = [] ∨ find t m.startStr = none ∨ m.startStr <+: m.shown t

instance (t : CompletionText) : Decidable (MarkerFirst m t) :=
  inferInstanceAs (Decidable (_ ∨ _ ∨ _))

omit [DecidableEq τ] in
theorem dropMarker_of_not_occurs {x : CompletionText}
    (h : m.startStr = [] ∨ find t m.startStr = none) (hx : x <+: t) :
    dropMarker m.startStr x = x := by
  unfold dropMarker
  by_cases hnil : m.startStr = []
  · rw [hnil]
    simp
  · refine if_neg fun hpre => ?_
    exact (find_eq_none hnil).1 (h.resolve_left hnil) 0 (hpre.trans hx)

omit [DecidableEq τ] in
/-- **What is returned without streaming.** -/
theorem extractReasoning_eq (hend : m.endStr ≠ []) (h : MarkerFirst m t) :
    m.extractReasoning t = m.parts t := by
  have hsplit : partition t m.endStr = none →
      m.shown t ++ t.drop (m.shown t).length = t := fun hnone =>
    (shown_split (partition_eq_none.1 hnone)).1
  by_cases hnot : m.startStr = [] ∨ find t m.startStr = none
  · have htext : m.extractReasoning t = (partition t m.endStr).getD (t, []) := by
      unfold extractReasoning
      by_cases hnil : m.startStr = []
      · rw [if_pos hnil]
      · rw [if_neg hnil, partition_eq_none.2 (hnot.resolve_left hnil)]
    rw [htext]
    unfold parts
    cases hpart : partition t m.endStr with
    | none =>
      dsimp only [getD_none]
      rw [dropMarker_of_not_occurs hnot (m.shown_prefix hend t), hsplit hpart]
    | some rc =>
      obtain ⟨r, c⟩ := rc
      obtain ⟨hwhole, -⟩ := partition_eq_some hend hpart
      dsimp only [getD_some]
      rw [dropMarker_of_not_occurs hnot]
      rw [hwhole, append_assoc]
      exact prefix_append _ _
  · push Not at hnot
    have hpre : m.startStr <+: m.shown t := (h.resolve_left hnot.1).resolve_left hnot.2
    obtain ⟨x, hx⟩ := hpre
    obtain ⟨y, hy⟩ := m.shown_prefix hend t
    rw [← hx] at hy
    -- the text begins with the start marker
    have hstart : partition t m.startStr = some ([], x ++ y) := by
      have hfirst : First m.startStr [] := fun n hn => absurd hn (Nat.not_lt_zero n)
      rw [← hy, append_assoc]
      exact partition_of_first hnot.1 hfirst (x ++ y)
    have htext : m.extractReasoning t = (partition (x ++ y) m.endStr).getD (x ++ y, []) := by
      unfold extractReasoning
      rw [if_neg hnot.1, hstart]
    have hdrop : ∀ z, dropMarker m.startStr (m.startStr ++ z) = z := by
      intro z
      unfold dropMarker
      rw [if_pos (prefix_append _ _), drop_left]
    -- where the end marker stands behind the start marker
    have hshift : ∀ n, OccursAt m.endStr (x ++ y) n →
        OccursAt m.endStr t (m.startStr.length + n) := by
      intro n hocc
      unfold OccursAt
      rw [← hy, append_assoc, drop_length_add_append]
      exact hocc
    rw [htext]
    unfold parts
    cases hpart : partition t m.endStr with
    | none =>
      have hnone : partition (x ++ y) m.endStr = none := by
        rw [partition_eq_none, find_eq_none hend]
        intro n hocc
        exact (find_eq_none hend).1 (partition_eq_none.1 hpart) _ (hshift n hocc)
      rw [hnone]
      dsimp only [getD_none]
      rw [← hx, hdrop, ← hy, drop_left]
    | some rc =>
      obtain ⟨r, c⟩ := rc
      obtain ⟨hwhole, hfirst⟩ := partition_eq_some hend hpart
      have hr : m.startStr ++ x = r := by
        rw [hx]
        unfold shown
        rw [hpart]
      have hxy : x ++ y = x ++ m.endStr ++ c := by
        rw [← hy, ← hr, append_assoc, append_assoc, append_assoc, append_right_inj] at hwhole
        rw [hwhole, append_assoc]
      have hfirst' : First m.endStr x := by
        intro n hn hocc
        refine hfirst (m.startStr.length + n) ?_ ?_
        · rw [← hr, length_append]
          omega
        · unfold OccursAt at hocc ⊢
          rw [← hr, append_assoc, drop_length_add_append]
          exact hocc
      rw [hxy, partition_of_first hend hfirst']
      dsimp only [getD_some]
      rw [← hr, hdrop]

end ReasoningParser

/-- The drains of a chat whose reasoning ends with a text: a start marker is taken out once, and it
is at the beginning of the text. -/
structure TextDrains (bytes : τ → List ℕ) (m : ReasoningParser τ) (ps : List (List τ)) : Prop where
  endId : m.endId = none
  endStr_ne : m.endStr ≠ []
  once : ∀ qs p rs, ps = qs ++ p :: rs → find (decodeIds bytes qs.flatten) m.endStr = none →
    m.MarkerOnce (decodeIds bytes qs.flatten) (decodeIds bytes (qs.flatten ++ p))
  first : m.MarkerFirst (decodeIds bytes ps.flatten)

/-- **A chat whose reasoning ends with a text** streams what is returned without streaming, if no
character is split and the start markers are taken out as without streaming. -/
theorem streamChat_text {bytes : τ → List ℕ} {m : ReasoningParser τ} {eosTokenIds : List τ}
    {drains : List (List τ)} {remaining : List τ}
    (hsplit : NoneSplit bytes [] (pieces eosTokenIds drains remaining))
    (h : TextDrains bytes m (pieces eosTokenIds drains remaining)) :
    streamChat bytes eosTokenIds (some m) true drains remaining =
      splitReasoning bytes (some m) true (pieces eosTokenIds drains remaining).flatten := by
  have hnone : find (decodeIds bytes []) m.endStr = none := by
    rw [find_eq_none h.endStr_ne]
    exact fun n hocc => absurd (hocc.lt h.endStr_ne) (Nat.not_lt_zero n)
  have hrun := ReasoningParser.route_text h.endId h.endStr_ne bytes
    (pieces eosTokenIds drains remaining) [] hnone hsplit h.once
  rw [nil_append, ← ReasoningParser.extractReasoning_eq h.endStr_ne h.first] at hrun
  have hstart : dropMarker m.startStr (m.shown (decodeIds bytes [])) = [] := by
    have hshown : m.shown (decodeIds bytes []) = [] :=
      prefix_nil.1 (m.shown_prefix h.endStr_ne _)
    unfold dropMarker
    rw [hshown, drop_nil, ite_self]
  have hheld : (decodeIds bytes []).drop (m.shown (decodeIds bytes [])).length = [] :=
    drop_nil
  dsimp only at hrun
  rw [hstart, hheld] at hrun
  rw [streamChat_eq, hrun]
  unfold splitReasoning
  dsimp only
  rw [if_neg (by decide), h.endId]

/-! ### All streams -/

/-- **The streams of characters.**  Without reasoning the streamed text is the text that is not
streamed just if no drain ends inside of a character; with reasoning it is, if besides the markers
are found where they are found without streaming. -/
theorem char_stream_faithful (bytes : τ → List ℕ) (eosTokenIds : List τ) (drains : List (List τ))
    (remaining : List τ) (hlast : ∀ t ∈ (drains.flatten ++ remaining).dropLast, t ∉ eosTokenIds) :
    let ids := stripEos eosTokenIds (drains.flatten ++ remaining)
    let ps := pieces eosTokenIds drains remaining
    (streamCompletionText bytes eosTokenIds drains remaining = decodeIds bytes ids ↔
      NoneSplit bytes [] ps) ∧
    (∀ (parser : Option (ReasoningParser τ)) (thinking : Bool), parser = none ∨ thinking = false →
      (streamChat bytes eosTokenIds parser thinking drains remaining =
        splitReasoning bytes parser thinking ids ↔ NoneSplit bytes [] ps)) ∧
    (∀ (m : ReasoningParser τ) (e : τ), TokenDrains bytes m e ps → NoneSplit bytes [] ps →
      streamChat bytes eosTokenIds (some m) true drains remaining =
        splitReasoning bytes (some m) true ids) ∧
    ∀ m : ReasoningParser τ, TextDrains bytes m ps → NoneSplit bytes [] ps →
      streamChat bytes eosTokenIds (some m) true drains remaining =
        splitReasoning bytes (some m) true ids := by
  have hids : (pieces eosTokenIds drains remaining).flatten =
      stripEos eosTokenIds (drains.flatten ++ remaining) := by
    rw [pieces_flatten, stripEos_eq hlast]
  dsimp only
  rw [← hids]
  refine ⟨?_, fun parser thinking hplain => ?_, fun m e h hsplit => streamChat_tokens h hsplit,
    fun m h hsplit => streamChat_text hsplit h⟩
  · rw [streamCompletionText_eq]
    exact deltas_flatten_eq_iff bytes _
  · have hwhole : splitReasoning bytes parser thinking
        (pieces eosTokenIds drains remaining).flatten =
          ([], decodeIds bytes (pieces eosTokenIds drains remaining).flatten) := by
      unfold splitReasoning
      cases parser with
      | none => rfl
      | some m => exact if_pos (hplain.resolve_left (fun h => (by cases h)))
    rw [streamChat_plain bytes eosTokenIds parser hplain, hwhole, Prod.mk.injEq,
      deltas_flatten_eq_iff]
    exact and_iff_right rfl

theorem character_in_three_drains :
    streamCompletionText (fun t : ℕ => [t]) [] [[0xE2], [0x82]] [0xAC] ≠
      decodeIds (fun t : ℕ => [t]) (stripEos [] [0xE2, 0x82, 0xAC]) := by
  decide

theorem forall_drain {τ : Type*} {P : List (List τ) → List τ → Prop} {ps : List (List τ)}
    (h : ∀ k : Fin ps.length, P (ps.take k) (ps.get k)) (qs : List (List τ)) (p : List τ)
    (rs : List (List τ)) (hps : ps = qs ++ p :: rs) : P qs p := by
  subst hps
  simpa using h ⟨qs.length, by simp⟩

/-- `<` begins the reasoning and `>` ends it, each a token. -/
def angleTokens : ReasoningParser ℕ := ⟨['<'], ['>'], some 60, some 62⟩

/-- The same markers without their tokens. -/
def angleTexts : ReasoningParser ℕ := ⟨['<'], ['>'], none, none⟩

/-- A completion of the euro sign, and chats of `<a`, `>`, `b` in three drains. -/
theorem char_stream_faithful_one :
    streamCompletionText (fun t : ℕ => [t]) [0] [[0xE2, 0x82, 0xAC]] [0] =
        decodeIds (fun t : ℕ => [t]) (stripEos [0] [0xE2, 0x82, 0xAC, 0]) ∧
      ∀ m ∈ [angleTokens, angleTexts],
        streamChat (fun t : ℕ => [t]) [0] (some m) true [[60, 97], [62], [98]] [0] =
          splitReasoning (fun t : ℕ => [t]) (some m) true (stripEos [0] [60, 97, 62, 98, 0]) := by
  have hchat := char_stream_faithful (fun t : ℕ => [t]) [0] [[60, 97], [62], [98]] [0] (by decide)
  have hascii : ∀ c : Char, c.toNat < 0x80 → Utf8.Ascii [c] := fun c hc => forall_mem_singleton.2 hc
  refine ⟨(char_stream_faithful (fun t : ℕ => [t]) [0] [[0xE2, 0x82, 0xAC]] [0] (by decide)).1.2
    (by decide), forall_mem_cons.2 ⟨?_, forall_mem_singleton.2 ?_⟩⟩
  · refine hchat.2.2.1 angleTokens 62 ⟨⟨rfl, rfl, hascii '>' (by decide), by decide, ?_⟩, ?_,
      by decide⟩ (by decide)
    · intro s hs
      cases hs
      exact ⟨by decide, ['<'], by decide, hascii '<' (by decide), rfl, .inl rfl⟩
    · refine forall_drain fun k hnot => ⟨fun s hs hmem => ?_, ?_⟩
      · cases hs
        fin_cases k
        · exact .inr (by decide)
        all_goals exact absurd hmem (by decide)
      · fin_cases k <;> decide
  · exact hchat.2.2.2 angleTexts ⟨rfl, by decide, forall_drain (by decide), by decide⟩ (by decide)
end LayerStorm.Server
