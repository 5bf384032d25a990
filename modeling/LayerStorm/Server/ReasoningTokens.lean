import LayerStorm.Server.CharStream

/-!
# Reasoning that ends with a token

Where the markers are tokens, a response is parted at the first end token, and the start tokens
before it are taken out; then both parts are decoded.  The stream sees a marker among the tokens of a
drain, and looks for its text in the delta of the drain.  So the text must not stand in the delta
before the marker, and a second start marker in the same drain is not taken out.
-/

namespace LayerStorm.Server

open Lib
open ReasoningParser List

variable {τ : Type*} [DecidableEq τ]

/-! ### The first place of a word -/

/-- A word that is put behind a text stands nowhere before. -/
def First (w x : CompletionText) : Prop := ∀ n < x.length, ¬OccursAt w (x ++ w) n

instance (w x : CompletionText) : Decidable (First w x) :=
  inferInstanceAs (Decidable (∀ n < x.length, ¬OccursAt w (x ++ w) n))

variable {w : CompletionText}

theorem partition_of_first {x : CompletionText} (hw : w ≠ []) (h : First w x) (y : CompletionText) :
    partition (x ++ w ++ y) w = some (x, y) := by
  have hocc : OccursAt w (x ++ w ++ y) x.length := by
    unfold OccursAt
    rw [append_assoc, drop_left]
    exact prefix_append _ _
  have hfind : find (x ++ w ++ y) w = some x.length := by
    refine (find_eq_some hw).2 ⟨hocc, fun m hm hbefore => h m hm ?_⟩
    -- an earlier place would end before the text does that is behind the word
    unfold OccursAt at hbefore ⊢
    rw [drop_append_of_le_length (by rw [length_append]; omega)] at hbefore
    refine prefix_of_prefix_length_le hbefore (prefix_append _ _) ?_
    rw [length_drop, length_append]
    omega
  have hdrop : (x ++ w ++ y).drop (x.length + w.length) = y := by
    rw [← length_append, drop_left]
  have htake : (x ++ w ++ y).take x.length = x := by
    rw [append_assoc, take_left]
  unfold partition
  rw [hfind, Option.map_some, htake, hdrop]

theorem removeOne_of_first {x : CompletionText} (hw : w ≠ []) (h : First w x) (y : CompletionText) :
    removeOne (x ++ w ++ y) w = x ++ y := by
  unfold removeOne
  rw [partition_of_first hw h]

@[simp] theorem removeOne_nil (x : CompletionText) : removeOne x [] = x := by
  have hfind : find x [] = some 0 := by
    unfold find
    rw [List.find?_range_eq_some]
    simp [OccursAt]
  unfold removeOne partition
  rw [hfind]
  rfl

/-! ### Tokens that stand for a text -/

variable {bytes : τ → List ℕ} {m : ReasoningParser τ} {e : τ}

/-- The tokens of the markers stand for their texts.  A parser whose output begins inside the
reasoning has no text for the start marker. -/
structure TokenMarkers (bytes : τ → List ℕ) (m : ReasoningParser τ) (e : τ) : Prop where
  endId : m.endId = some e
  endBytes : bytes e = Utf8.asciiBytes m.endStr
  endAscii : Utf8.Ascii m.endStr
  endStr_ne : m.endStr ≠ []
  start : ∀ s, m.startId = some s → s ≠ e ∧ ∃ w, w ≠ [] ∧ Utf8.Ascii w ∧
    bytes s = Utf8.asciiBytes w ∧ (m.startStr = w ∨ m.startStr = [])

variable {t : τ}

omit [DecidableEq τ] in
theorem decodeIds_around (hbytes : bytes t = Utf8.asciiBytes w) (hw : Utf8.Ascii w) (hne : w ≠ [])
    (x y : List τ) :
    decodeIds bytes (x ++ t :: y) = decodeIds bytes x ++ w ++ decodeIds bytes y := by
  unfold decodeIds
  rw [flatMap_append, flatMap_cons, hbytes, ← append_assoc, Utf8.decode_around_ascii hw hne]

omit [DecidableEq τ] in
theorem newText_around (hbytes : bytes t = Utf8.asciiBytes w) (hw : Utf8.Ascii w) (hne : w ≠ [])
    (ids x y : List τ) :
    newText bytes ids (x ++ t :: y) = newText bytes ids x ++ w ++ decodeIds bytes y := by
  have hle : (decodeIds bytes ids).length ≤ (decodeIds bytes (ids ++ x)).length := by
    unfold decodeIds
    rw [flatMap_append]
    exact Utf8.length_decode_le _ _
  unfold newText
  rw [← append_assoc, decodeIds_around hbytes hw hne, append_assoc,
    drop_append_of_le_length hle, append_assoc]

variable {x : List τ} {ids : List τ}

omit [DecidableEq τ] in
theorem prefix_part (hbytes : bytes t = Utf8.asciiBytes w) (hw : Utf8.Ascii w) (hne : w ≠ [])
    {y : List τ} (h : decodeIds bytes ids <+: decodeIds bytes (ids ++ (x ++ t :: y))) :
    decodeIds bytes ids <+: decodeIds bytes (ids ++ x) := by
  rw [← append_assoc, decodeIds_around hbytes hw hne, append_assoc] at h
  refine prefix_of_prefix_length_le h (prefix_append _ _) ?_
  unfold decodeIds
  rw [flatMap_append]
  exact Utf8.length_decode_le _ _

/-! ### The start markers -/

/-- The texts of the parts between start markers, for some tokens behind others. -/
def apart (bytes : τ → List ℕ) (start : Option τ) : List τ → List τ → CompletionText
  | acc, [] => decodeIds bytes acc
  | acc, t :: ts =>
    if some t = start then decodeIds bytes acc ++ apart bytes start [] ts
    else apart bytes start (acc ++ [t]) ts

theorem apart_of_notMem {start : Option τ} (q : List τ) : ∀ acc : List τ,
    (∀ s, start = some s → s ∉ q) → apart bytes start acc q = decodeIds bytes (acc ++ q) := by
  induction q with
  | nil =>
    intro acc _
    rw [append_nil]
    rfl
  | cons t q ih =>
    intro acc h
    have ht : some t ≠ start := fun heq => h t heq.symm mem_cons_self
    rw [apart, if_neg ht, ih _ fun s hs hmem => h s hs (mem_cons_of_mem _ hmem),
      append_assoc, singleton_append]

variable {s : τ}

theorem apart_start (ids q : List τ) : ∀ acc : List τ, apart bytes (some s) acc (ids ++ s :: q) =
      apart bytes (some s) acc ids ++ apart bytes (some s) [] q := by
  induction ids with
  | nil =>
    intro acc
    rw [nil_append]
    exact if_pos rfl
  | cons t ids ih =>
    intro acc
    rw [cons_append, apart, apart]
    by_cases ht : some t = some s
    · rw [if_pos ht, if_pos ht, ih, append_assoc]
    · rw [if_neg ht, if_neg ht, ih]

theorem apart_append (hm : TokenMarkers bytes m e) {q : List τ}
    (hq : ∀ s, m.startId = some s → s ∉ q) (ids : List τ) : ∀ acc : List τ,
    decodeIds bytes (acc ++ ids) <+: decodeIds bytes (acc ++ ids ++ q) →
    apart bytes m.startId acc (ids ++ q) =
      apart bytes m.startId acc ids ++ newText bytes (acc ++ ids) q := by
  induction ids with
  | nil =>
    intro acc hpre
    rw [append_nil] at hpre ⊢
    rw [nil_append, apart_of_notMem q acc hq]
    exact (append_newText hpre).symm
  | cons t ids ih =>
    intro acc hpre
    rw [cons_append, apart, apart]
    by_cases ht : some t = m.startId
    · -- what is before the marker has no part in what is new
      obtain ⟨-, w, hw, hascii, hbytes, -⟩ := hm.start t ht.symm
      have hnew : newText bytes (acc ++ t :: ids) q = newText bytes ids q := by
        unfold newText
        rw [append_assoc, cons_append, decodeIds_around hbytes hascii hw,
          decodeIds_around hbytes hascii hw, length_append, drop_length_add_append]
      rw [append_assoc, cons_append, decodeIds_around hbytes hascii hw,
        decodeIds_around hbytes hascii hw, prefix_append_right_inj] at hpre
      rw [if_pos ht, if_pos ht, hnew, ih [] hpre, append_assoc]
      rfl
    · have hacc : acc ++ t :: ids = acc ++ [t] ++ ids := by
        rw [append_assoc, singleton_append]
      rw [hacc] at hpre ⊢
      rw [if_neg ht, if_neg ht, ih _ hpre]

/-- In a drain, at most one start marker is before the end marker, and its text stands nowhere
before; otherwise there is no start marker in the drain, or none is looked for. -/
def StartFound (bytes : τ → List ℕ) (m : ReasoningParser τ) (e : τ) (ids p : List τ) : Prop :=
  ∀ s, m.startId = some s → s ∈ p →
    let q := p.takeWhile (· ≠ e)
    (m.startStr = [] ∧ s ∉ q) ∨
      (m.startStr ≠ [] ∧ q.count s = 1 ∧ First m.startStr (newText bytes ids (q.takeWhile (· ≠ s))))

/-- The texts of the markers of a drain are found where the tokens are. -/
structure MarkersFound (bytes : τ → List ℕ) (m : ReasoningParser τ) (e : τ) (ids p : List τ) :
    Prop where
  start : StartFound bytes m e ids p
  ending : e ∈ p → First m.endStr
    (m.stripStart (newText bytes ids (p.takeWhile (· ≠ e))) (p.takeWhile (· ≠ e)))

theorem split_of_count {q : List τ} (h : q.count s = 1) :
    ∃ q₂, q = q.takeWhile (· ≠ s) ++ s :: q₂ ∧ s ∉ q.takeWhile (· ≠ s) ∧ s ∉ q₂ := by
  have hbefore : s ∉ q.takeWhile (· ≠ s) := fun hmem => by
    have hne := mem_takeWhile_imp hmem
    simp at hne
  have hmem : s ∈ q := count_pos_iff.1 (by omega)
  have hq : q = q.takeWhile (· ≠ s) ++ q.dropWhile (· ≠ s) := takeWhile_append_dropWhile.symm
  cases hdrop : q.dropWhile (· ≠ s) with
  | nil =>
    rw [hdrop, append_nil] at hq
    rw [hq] at hmem
    exact absurd hmem hbefore
  | cons t q₂ =>
    have ht : t = s := by
      have hhead := head?_dropWhile_not (fun x => decide (x ≠ s)) q
      rw [hdrop] at hhead
      simpa using hhead
    subst ht
    rw [hdrop] at hq
    refine ⟨q₂, hq, hbefore, fun hmem₂ => ?_⟩
    have hcount := h
    rw [hq, count_append, count_cons_self, count_eq_zero.2 hbefore] at hcount
    have hpos := count_pos_iff.2 hmem₂
    omega

variable {p : List τ}

theorem StartFound.split (hm : TokenMarkers bytes m e) (h : StartFound bytes m e ids p)
    (hs : m.startId = some s) (hmem : s ∈ p.takeWhile (· ≠ e)) :
    ∃ q₁ q₂, p.takeWhile (· ≠ e) = q₁ ++ s :: q₂ ∧ s ∉ q₁ ∧ s ∉ q₂ ∧ m.startStr ≠ [] ∧
      Utf8.Ascii m.startStr ∧ bytes s = Utf8.asciiBytes m.startStr ∧
      First m.startStr (newText bytes ids q₁) := by
  have hp : s ∈ p := (takeWhile_sublist _).subset hmem
  obtain ⟨-, w, hw, hascii, hbytes, htext⟩ := hm.start s hs
  rcases h s hs hp with ⟨-, hnot⟩ | ⟨hne, hcount, hfirst⟩
  · exact absurd hmem hnot
  obtain rfl := htext.resolve_right hne
  obtain ⟨q₂, hq, hq₁, hq₂⟩ := split_of_count hcount
  exact ⟨_, q₂, hq, hq₁, hq₂, hne, hascii, hbytes, hfirst⟩

theorem stripStart_append (hm : TokenMarkers bytes m e) (h : StartFound bytes m e ids p)
    (y : CompletionText) :
    m.stripStart (newText bytes ids (p.takeWhile (· ≠ e)) ++ y) p =
      m.stripStart (newText bytes ids (p.takeWhile (· ≠ e))) (p.takeWhile (· ≠ e)) ++ y := by
  unfold stripStart
  cases hs : m.startId with
  | none => rfl
  | some s =>
    dsimp only
    by_cases hmem : s ∈ p.takeWhile (· ≠ e)
    · have hp : s ∈ p := (takeWhile_sublist _).subset hmem
      rw [if_pos hmem, if_pos hp]
      obtain ⟨q₁, q₂, hq, -, -, hne, hascii, hbytes, hfirst⟩ := h.split hm hs hmem
      rw [hq, newText_around hbytes hascii hne, removeOne_of_first hne hfirst, append_assoc,
        removeOne_of_first hne hfirst, append_assoc]
    · rw [if_neg hmem]
      by_cases hp : s ∈ p
      · -- the marker behind the end marker is not looked for
        rcases h s hs hp with ⟨hnil, -⟩ | ⟨-, hcount, -⟩
        · rw [if_pos hp, hnil, removeOne_nil]
        · exact absurd (count_pos_iff.1 (by omega)) hmem
      · rw [if_neg hp]

theorem apart_stripStart (hm : TokenMarkers bytes m e) (h : StartFound bytes m e ids p)
    (hpre : decodeIds bytes ids <+: decodeIds bytes (ids ++ p.takeWhile (· ≠ e))) :
    apart bytes m.startId [] (ids ++ p.takeWhile (· ≠ e)) = apart bytes m.startId [] ids ++
      m.stripStart (newText bytes ids (p.takeWhile (· ≠ e))) (p.takeWhile (· ≠ e)) := by
  by_cases hnone : ∀ s, m.startId = some s → s ∉ p.takeWhile (· ≠ e)
  · have hstrip : m.stripStart (newText bytes ids (p.takeWhile (· ≠ e))) (p.takeWhile (· ≠ e)) =
        newText bytes ids (p.takeWhile (· ≠ e)) := by
      unfold stripStart
      cases hs : m.startId with
      | none => rfl
      | some s => exact if_neg (hnone s hs)
    rw [hstrip]
    exact apart_append hm hnone ids [] hpre
  push Not at hnone
  obtain ⟨s, hs, hmem⟩ := hnone
  obtain ⟨q₁, q₂, hq, hq₁, hq₂, hne, hascii, hbytes, hfirst⟩ := h.split hm hs hmem
  rw [hq] at hpre
  have hbefore := apart_append hm (q := q₁) (fun s' hs' => by
      rw [hs] at hs'
      cases hs'
      exact hq₁) ids [] (prefix_part hbytes hascii hne hpre)
  have hstrip : m.stripStart (newText bytes ids (q₁ ++ s :: q₂)) (q₁ ++ s :: q₂) =
      newText bytes ids q₁ ++ decodeIds bytes q₂ := by
    unfold stripStart
    rw [hs]
    dsimp only
    rw [if_pos (by simp), newText_around hbytes hascii hne, removeOne_of_first hne hfirst]
  have hlast : apart bytes (some s) [] q₂ = decodeIds bytes q₂ :=
    apart_of_notMem q₂ [] fun s' hs' => by
      cases hs'
      exact hq₂
  rw [hs] at hbefore
  rw [hq, hstrip, hs, ← append_assoc, apart_start, hbefore, hlast, append_assoc]
  rfl

/-! ### The drains -/

theorem splitAt_end (hx : e ∉ x) (y : List τ) :
    (x ++ e :: y).takeWhile (· ≠ e) = x ∧ (x ++ e :: y).dropWhile (· ≠ e) = e :: y := by
  have hall : ∀ t ∈ x, decide (t ≠ e) = true := fun t ht =>
    decide_eq_true fun heq => hx (heq ▸ ht)
  rw [takeWhile_append_of_pos hall, dropWhile_append_of_pos hall]
  simp

theorem splitAt_none (hx : e ∉ x) : x.takeWhile (· ≠ e) = x ∧ x.dropWhile (· ≠ e) = [] := by
  have hall : ∀ t ∈ x, decide (t ≠ e) = true := fun t ht =>
    decide_eq_true fun heq => hx (heq ▸ ht)
  exact ⟨takeWhile_eq_self_iff.2 hall, dropWhile_eq_nil_iff.2 hall⟩

theorem exists_splitAt (hp : e ∈ p) :
    ∃ y, p = p.takeWhile (· ≠ e) ++ e :: y ∧ e ∉ p.takeWhile (· ≠ e) := by
  obtain ⟨x, y, rfl, hx⟩ := eq_append_cons_of_mem hp
  rw [(splitAt_end hx y).1]
  exact ⟨y, rfl, hx⟩

/-- The state of a stream inside the reasoning. -/
def reasoningSoFar (text : CompletionText) : Routed := ⟨⟨true, []⟩, text, []⟩

/-- **A drain before the end marker.** -/
theorem route_before (hm : m.endId = some e) (hp : e ∉ p) (text delta : CompletionText) :
    (reasoningSoFar text).route (some m) (delta, p) =
      reasoningSoFar (text ++ m.stripStart delta p) := by
  unfold reasoningSoFar Routed.route process
  dsimp only
  rw [if_neg (by decide), hm]
  by_cases hempty : delta = [] ∧ p = []
  · have hstrip : m.stripStart delta p = [] := by
      unfold stripStart
      rw [hempty.1, hempty.2]
      cases m.startId <;> simp
    rw [if_pos hempty, hstrip]
    rfl
  · rw [if_neg hempty]
    dsimp only
    rw [if_neg hp]
    simp

/-- **The drain with the end marker.** -/
theorem route_marker (hm : TokenMarkers bytes m e) {y : List τ}
    (hp : p = p.takeWhile (· ≠ e) ++ e :: y) (h : MarkersFound bytes m e ids p)
    (text : CompletionText) : (reasoningSoFar text).route (some m) (newText bytes ids p, p) =
      ⟨⟨false, []⟩, text ++ m.stripStart (newText bytes ids (p.takeWhile (· ≠ e)))
        (p.takeWhile (· ≠ e)), decodeIds bytes y⟩ := by
  have hmem : e ∈ p := by
    rw [hp]
    exact mem_append_right _ mem_cons_self
  have hdelta : m.stripStart (newText bytes ids p) p =
      m.stripStart (newText bytes ids (p.takeWhile (· ≠ e))) (p.takeWhile (· ≠ e)) ++ m.endStr ++
        decodeIds bytes y := by
    have hnew : newText bytes ids p = newText bytes ids (p.takeWhile (· ≠ e)) ++
        (m.endStr ++ decodeIds bytes y) := by
      rw [← append_assoc, ← newText_around hm.endBytes hm.endAscii hm.endStr_ne, ← hp]
    rw [hnew, stripStart_append hm h.start, append_assoc]
  have hempty : ¬(newText bytes ids p = [] ∧ p = []) := fun hnil => by
    rw [hnil.2] at hmem
    exact absurd hmem not_mem_nil
  unfold reasoningSoFar Routed.route process
  dsimp only
  rw [if_neg (by decide), if_neg hempty, hm.endId]
  dsimp only
  rw [if_pos hmem, hdelta, partition_of_first hm.endStr_ne (h.ending hmem)]
  simp

theorem route_tokens (hm : TokenMarkers bytes m e) (ps : List (List τ)) : ∀ ids : List τ,
    e ∉ ids → NoneSplit bytes ids ps →
    (∀ qs p rs, ps = qs ++ p :: rs → e ∉ qs.flatten →
      MarkersFound bytes m e (ids ++ qs.flatten) p) →
    let all := ids ++ ps.flatten
    let s := (deltas bytes ids ps).foldl (Routed.route (some m))
      (reasoningSoFar (apart bytes m.startId [] ids))
    s.rs.buf = [] ∧ s.reasoning = apart bytes m.startId [] (all.takeWhile (· ≠ e)) ∧
      s.content = decodeIds bytes (all.dropWhile (· ≠ e)).tail := by
  induction ps with
  | nil =>
    intro ids hids _ _
    dsimp only
    rw [flatten_nil, append_nil, (splitAt_none hids).1, (splitAt_none hids).2]
    exact ⟨rfl, rfl, rfl⟩
  | cons p ps ih =>
    intro ids hids hsplit hfound
    have hp := hfound [] p ps rfl not_mem_nil
    rw [flatten_nil, append_nil] at hp
    dsimp only
    rw [deltas, foldl_cons, flatten_cons, ← append_assoc]
    by_cases hmem : e ∈ p
    · obtain ⟨y, hpq, hq⟩ := exists_splitAt hmem
      have hids' : e ∉ ids ++ p.takeWhile (· ≠ e) := by
        rw [mem_append]
        exact not_or_intro hids hq
      have hall : ids ++ p ++ ps.flatten =
          ids ++ p.takeWhile (· ≠ e) ++ e :: (y ++ ps.flatten) := by
        nth_rewrite 1 [hpq]
        simp only [append_assoc, cons_append]
      have hpre := hsplit.prefix
      rw [hpq] at hpre
      have hreasoning := apart_stripStart hm hp.start
        (prefix_part hm.endBytes hm.endAscii hm.endStr_ne hpre)
      -- the content goes on with the deltas behind the marker
      have hcontent := decodeIds_append_deltas hsplit.tail
      have hidsp : ids ++ p = ids ++ p.takeWhile (· ≠ e) ++ e :: y := by
        nth_rewrite 1 [hpq]
        rw [append_assoc]
      nth_rewrite 1 [hidsp] at hcontent
      rw [hall, decodeIds_around hm.endBytes hm.endAscii hm.endStr_ne,
        decodeIds_around hm.endBytes hm.endAscii hm.endStr_ne, append_assoc _ _
        (decodeIds bytes y), append_assoc, append_assoc, append_assoc,
        append_right_inj, append_right_inj] at hcontent
      rw [route_marker hm hpq hp, route_content (some m) (.inr rfl), hall,
        (splitAt_end hids' _).1, (splitAt_end hids' _).2, hreasoning]
      exact ⟨rfl, rfl, hcontent⟩
    · have hq := (splitAt_none hmem).1
      have hstep := apart_stripStart hm hp.start (by rw [hq]; exact hsplit.prefix)
      rw [hq] at hstep
      rw [route_before hm.endId hmem, ← hstep]
      refine ih (ids ++ p) ?_ hsplit.tail fun qs p' rs hps hnot => ?_
      · rw [mem_append]
        exact not_or_intro hids hmem
      · have hfound' := hfound (p :: qs) p' rs (by rw [hps, cons_append])
          (by rw [flatten_cons, mem_append]; exact not_or_intro hmem hnot)
        rw [flatten_cons, ← append_assoc] at hfound'
        exact hfound'

/-- The drains of a chat whose reasoning ends with a token: the markers of each drain are found, and
the reasoning decodes apart at the start markers. -/
structure TokenDrains (bytes : τ → List ℕ) (m : ReasoningParser τ) (e : τ) (ps : List (List τ)) :
    Prop where
  markers : TokenMarkers bytes m e
  found : ∀ qs p rs, ps = qs ++ p :: rs → e ∉ qs.flatten → MarkersFound bytes m e qs.flatten p
  apart : apart bytes m.startId [] (ps.flatten.takeWhile (· ≠ e)) =
    decodeIds bytes (m.splitTokenIds e ps.flatten).1

/-- **A chat whose reasoning ends with a token** streams what is returned without streaming, if no
character is split and the markers are found. -/
theorem streamChat_tokens {eosTokenIds : List τ} {drains : List (List τ)} {remaining : List τ}
    (h : TokenDrains bytes m e (pieces eosTokenIds drains remaining))
    (hsplit : NoneSplit bytes [] (pieces eosTokenIds drains remaining)) :
    streamChat bytes eosTokenIds (some m) true drains remaining =
      splitReasoning bytes (some m) true (pieces eosTokenIds drains remaining).flatten := by
  have hrun := route_tokens h.markers (pieces eosTokenIds drains remaining) [] not_mem_nil
    hsplit h.found
  rw [nil_append] at hrun
  obtain ⟨hbuf, hreasoning, hcontent⟩ := hrun
  have hstart : reasoningSoFar (Server.apart bytes m.startId [] []) = ⟨⟨true, []⟩, [], []⟩ := rfl
  rw [hstart] at hbuf hreasoning hcontent
  rw [streamChat_eq]
  unfold splitReasoning Routed.flush
  dsimp only
  rw [finish_of_nil hbuf, h.markers.endId, hreasoning, hcontent, h.apart]
  simp [splitTokenIds]

end LayerStorm.Server
