import LayerStorm.Lib.Occurrence
import Mathlib.Data.List.DropRight

/-!
# Stop sequences in the completion stream

The stream of a completion drains a queue of tokens; after every drain it decodes all tokens so far
and sends what is new, until a stop sequence occurs in the text.  The handler that does not stream
decodes all tokens at once and cuts the text before the first stop sequence.

The end tokens of a model come last, since the generation stops with one.

## Main results

* `stream_stop_iff` — when the two are equal.
-/

namespace LayerStorm.Server

open Lib List

abbrev CompletionText := List Char

/-! ### Stop sequences -/

def find (text seq : CompletionText) : Option ℕ :=
  (List.range (text.length + 1)).find? fun n => decide (OccursAt seq text n)

/-- The loop of `_apply_stop_sequences`. -/
def earliestStop (text : CompletionText) (stop : List CompletionText) : ℕ :=
  stop.foldl (fun earliest seq =>
    match find text seq with
    | some idx => if idx < earliest then idx else earliest
    | none => earliest) text.length

def applyStopSequences (text : CompletionText) (stop : List CompletionText) :
    CompletionText × Bool :=
  let earliest := earliestStop text stop
  if earliest < text.length then (text.take earliest, true) else (text, false)

/-! ### The handlers -/

variable {τ : Type*} [DecidableEq τ]

/-- What the stream of a completion keeps between two drains. -/
structure CompletionStream (τ : Type*) where
  allTokens : List τ
  prevText : CompletionText
  sent : List CompletionText
  stopped : Bool

namespace CompletionStream

variable (piece : τ → CompletionText) (eosTokenIds : List τ) (stop : List CompletionText)

/-- Nothing is sent yet. -/
def init : CompletionStream τ := ⟨[], [], [], false⟩

/-- `tokenizer.decode`: the texts of the tokens one after the other. -/
def decode (ids : List τ) : CompletionText := ids.flatMap piece

/-- A delta is sent unless it is empty. -/
def send (delta : CompletionText) (s : CompletionStream τ) : CompletionStream τ :=
  if delta = [] then s else { s with sent := s.sent ++ [delta] }

/-- The tokens of a drain that are not end tokens. -/
def take (items : List τ) (s : CompletionStream τ) : CompletionStream τ :=
  { s with allTokens := s.allTokens ++ items.filter (· ∉ eosTokenIds) }

/-- The main loop, after a drain. -/
def process (items : List τ) (s : CompletionStream τ) : CompletionStream τ :=
  if items = [] then s
  else
    let s := s.take eosTokenIds items
    let fullText := decode piece s.allTokens
    let deltaText := fullText.drop s.prevText.length
    if stop ≠ [] ∧ deltaText ≠ [] then
      let (truncated, wasStopped) := applyStopSequences fullText stop
      if wasStopped then
        { s with prevText := truncated, stopped := true }.send (truncated.drop s.prevText.length)
      else { s with prevText := fullText }.send deltaText
    else { s with prevText := fullText }.send deltaText

/-- The last drain, when the queue is done. -/
def finish (remaining : List τ) (s : CompletionStream τ) : CompletionStream τ :=
  if remaining = [] then s
  else
    let s := s.take eosTokenIds remaining
    let fullText := decode piece s.allTokens
    let deltaText := fullText.drop s.prevText.length
    if stop ≠ [] ∧ deltaText ≠ [] then
      let (truncated, wasStopped) := applyStopSequences fullText stop
      if wasStopped then s.send (truncated.drop s.prevText.length) else s.send deltaText
    else s.send deltaText

end CompletionStream

open CompletionStream

/-- `_stream_completion_inner`: the deltas, for the drains before the queue is done and the last
one. -/
def streamCompletion (piece : τ → CompletionText) (eosTokenIds : List τ)
    (stop : List CompletionText) (drains : List (List τ)) (remaining : List τ) :
    List CompletionText :=
  let s := drains.foldl (fun s items =>
    if s.stopped then s else s.process piece eosTokenIds stop items) init
  if s.stopped then s.sent else (s.finish piece eosTokenIds stop remaining).sent

def stripEos (eosTokenIds : List τ) (tokenIds : List τ) : List τ :=
  tokenIds.rdropWhile (· ∈ eosTokenIds)

/-- The text of `_handle_completions`. -/
def handleCompletions (piece : τ → CompletionText) (eosTokenIds : List τ)
    (stop : List CompletionText) (tokenIds : List τ) : CompletionText :=
  let text := decode piece (stripEos eosTokenIds tokenIds)
  if stop ≠ [] then (applyStopSequences text stop).1 else text

/-! ### Cutting a text -/

variable {text : CompletionText} {stop : List CompletionText} {seq : CompletionText}

theorem find_eq_some {n : ℕ} (hseq : seq ≠ []) :
    find text seq = some n ↔ OccursAt seq text n ∧ ∀ m < n, ¬OccursAt seq text m := by
  unfold find
  rw [List.find?_range_eq_some]
  simp only [decide_eq_true_eq, mem_range, Bool.not_eq_true', decide_eq_false_iff_not]
  refine ⟨fun h => ⟨h.1, h.2.2⟩, fun h => ⟨h.1, ?_, h.2⟩⟩
  exact (h.1.lt hseq).trans (Nat.lt_succ_self _)

theorem find_eq_none (hseq : seq ≠ []) : find text seq = none ↔ ∀ n, ¬OccursAt seq text n := by
  unfold find
  rw [List.find?_eq_none]
  simp only [mem_range, decide_eq_true_eq]
  exact ⟨fun h n hocc => h n ((hocc.lt hseq).trans (Nat.lt_succ_self _)) hocc, fun h n _ => h n⟩

theorem earliest_turn (text : CompletionText) (hseq : seq ≠ []) (earliest : ℕ) :
    let next := match find text seq with
      | some idx => if idx < earliest then idx else earliest
      | none => earliest
    next ≤ earliest ∧ (next = earliest ∨ OccursAt seq text next) ∧
      ∀ n, OccursAt seq text n → next ≤ n := by
  cases hfind : find text seq with
  | none =>
    have hnone := (find_eq_none hseq).1 hfind
    exact ⟨le_rfl, .inl rfl, fun n hocc => absurd hocc (hnone n)⟩
  | some idx =>
    obtain ⟨hocc, hmin⟩ := (find_eq_some hseq).1 hfind
    have hfirst : ∀ n, OccursAt seq text n → idx ≤ n := fun n hn => by
      by_contra hlt
      exact hmin n (not_le.1 hlt) hn
    dsimp only
    split
    · next hlt => exact ⟨hlt.le, .inr hocc, hfirst⟩
    · next hge => exact ⟨le_rfl, .inl rfl, fun n hn => (not_lt.1 hge).trans (hfirst n hn)⟩

theorem earliest_loop (text : CompletionText) : ∀ (stop : List CompletionText),
    (∀ seq ∈ stop, seq ≠ []) → ∀ earliest : ℕ,
    let last := stop.foldl (fun earliest seq =>
      match find text seq with
      | some idx => if idx < earliest then idx else earliest
      | none => earliest) earliest
    last ≤ earliest ∧ (last = earliest ∨ ∃ seq ∈ stop, OccursAt seq text last) ∧
      ∀ seq ∈ stop, ∀ n, OccursAt seq text n → last ≤ n := by
  intro stop
  induction stop with
  | nil => exact fun _ earliest => ⟨le_rfl, .inl rfl, fun seq hseq => absurd hseq not_mem_nil⟩
  | cons seq stop ih =>
    intro hstop earliest
    obtain ⟨hle, hcase, hmin⟩ := earliest_turn text (hstop seq mem_cons_self) earliest
    obtain ⟨hle', hcase', hmin'⟩ := ih (fun w hw => hstop w (mem_cons_of_mem _ hw))
      (match find text seq with
        | some idx => if idx < earliest then idx else earliest
        | none => earliest)
    refine ⟨hle'.trans hle, ?_, ?_⟩
    · rcases hcase' with heq | ⟨w, hw, hocc⟩
      · rcases hcase with heq' | hocc
        · exact .inl (heq.trans heq')
        refine .inr ⟨seq, mem_cons_self, ?_⟩
        rw [foldl_cons, heq]
        exact hocc
      · exact .inr ⟨w, mem_cons_of_mem _ hw, hocc⟩
    · intro w hw n hocc
      rcases mem_cons.1 hw with rfl | hw
      · exact hle'.trans (hmin n hocc)
      · exact hmin' w hw n hocc

section

variable (hstop : ∀ seq ∈ stop, seq ≠ [])
include hstop

theorem earliestStop_eq : earliestStop text stop = cutAt stop text := by
  obtain ⟨hle, hcase, hmin⟩ := earliest_loop text stop hstop text.length
  unfold cutAt
  cases hfirst : firstOf stop text with
  | none =>
    rcases hcase with heq | ⟨seq, hseq, hocc⟩
    · exact heq
    · exact absurd hocc ((firstOf_eq_none hstop).1 hfirst _ seq hseq)
  | some c =>
    obtain ⟨⟨seq, hseq, hocc⟩, hbefore⟩ := (firstOf_eq_some hstop).1 hfirst
    refine le_antisymm (hmin seq hseq c hocc) ?_
    rcases hcase with heq | ⟨w, hw, hoccw⟩
    · exact (hocc.lt (hstop seq hseq)).le.trans_eq heq.symm
    · by_contra hlt
      exact hbefore _ (not_le.1 hlt) w hw hoccw

theorem applyStopSequences_eq : applyStopSequences text stop = match firstOf stop text with
      | some c => (text.take c, true)
      | none => (text, false) := by
  unfold applyStopSequences
  rw [earliestStop_eq hstop]
  unfold cutAt
  cases hfirst : firstOf stop text with
  | none => exact if_neg (lt_irrefl _)
  | some c =>
    obtain ⟨⟨seq, hseq, hocc⟩, -⟩ := (firstOf_eq_some hstop).1 hfirst
    exact if_pos (hocc.lt (hstop seq hseq))

theorem applyStopSequences_fst :
    (applyStopSequences text stop).1 = text.take (cutAt stop text) := by
  rw [applyStopSequences_eq hstop]
  unfold cutAt
  cases firstOf stop text with
  | none => exact (take_length).symm
  | some c => rfl

end

/-! ### The stream -/

namespace CompletionStream

variable {piece : τ → CompletionText} {eosTokenIds : List τ} {s : CompletionStream τ}

/-- What was sent is the text so far, in which no stop sequence stands. -/
structure Running (piece : τ → CompletionText) (stop : List CompletionText)
    (s : CompletionStream τ) : Prop where
  prevText : s.prevText = decode piece s.allTokens
  sent : s.sent.flatten = s.prevText
  clear : firstOf stop s.prevText = none
  running : s.stopped = false

def drainText (piece : τ → CompletionText) (eosTokenIds : List τ) (items : List τ) :
    CompletionText :=
  decode piece (items.filter (· ∉ eosTokenIds))

variable (delta : CompletionText)

omit [DecidableEq τ] in
theorem send_flatten (s : CompletionStream τ) :
    (s.send delta).sent.flatten = s.sent.flatten ++ delta := by
  unfold send
  split
  · next h => rw [h, append_nil]
  · simp only [flatten_append, flatten_cons, flatten_nil, append_nil]

omit [DecidableEq τ] in
@[simp] theorem send_prevText (s : CompletionStream τ) : (s.send delta).prevText = s.prevText := by
  unfold send
  split <;> rfl

omit [DecidableEq τ] in
@[simp] theorem send_allTokens (s : CompletionStream τ) :
    (s.send delta).allTokens = s.allTokens := by
  unfold send
  split <;> rfl

omit [DecidableEq τ] in
@[simp] theorem send_stopped (s : CompletionStream τ) : (s.send delta).stopped = s.stopped := by
  unfold send
  split <;> rfl

theorem decode_take (eosTokenIds : List τ) (h : Running piece stop s) (items : List τ) :
    decode piece (s.take eosTokenIds items).allTokens =
      s.prevText ++ drainText piece eosTokenIds items := by
  unfold take decode drainText
  rw [flatMap_append, h.prevText]
  rfl

theorem process_spec (eosTokenIds : List τ) (hstop : ∀ seq ∈ stop, seq ≠ []) (hne : stop ≠ [])
    (h : Running piece stop s) (items : List τ) :
    match firstOf stop (s.prevText ++ drainText piece eosTokenIds items) with
    | some c => (s.process piece eosTokenIds stop items).stopped = true ∧
        (s.process piece eosTokenIds stop items).sent.flatten = s.prevText ++
          ((s.prevText ++ drainText piece eosTokenIds items).take c).drop s.prevText.length
    | none => Running piece stop (s.process piece eosTokenIds stop items) ∧
        (s.process piece eosTokenIds stop items).prevText =
          s.prevText ++ drainText piece eosTokenIds items := by
  have hdrop : (s.prevText ++ drainText piece eosTokenIds items).drop s.prevText.length =
      drainText piece eosTokenIds items := drop_left
  unfold process
  by_cases hitems : items = []
  · have hempty : drainText piece eosTokenIds items = [] := by
      rw [hitems]
      rfl
    rw [hempty, append_nil, h.clear, if_pos hitems]
    exact ⟨h, rfl⟩
  rw [if_neg hitems]
  dsimp only
  have hprev : (s.take eosTokenIds items).prevText = s.prevText := rfl
  rw [decode_take eosTokenIds h, hprev, hdrop]
  by_cases hdelta : drainText piece eosTokenIds items = []
  · rw [hdelta, append_nil, h.clear, if_neg (fun hin => hin.2 rfl)]
    refine ⟨⟨?_, ?_, ?_, ?_⟩, send_prevText _ _⟩
    · have htake := decode_take eosTokenIds h items
      rw [hdelta, append_nil] at htake
      exact htake.symm
    · exact h.sent
    · exact h.clear
    · exact h.running
  rw [if_pos ⟨hne, hdelta⟩, applyStopSequences_eq hstop]
  cases hfirst : firstOf stop (s.prevText ++ drainText piece eosTokenIds items) with
  | some c =>
    refine ⟨send_stopped _ _, ?_⟩
    rw [if_pos rfl, send_flatten]
    exact congrArg (· ++ _) h.sent
  | none =>
    refine ⟨⟨?_, ?_, ?_, ?_⟩, ?_⟩
    all_goals simp only [Bool.false_eq_true, if_false, send_prevText, send_allTokens,
      send_stopped, send_flatten]
    · exact (decode_take eosTokenIds h items).symm
    · exact congrArg (· ++ _) h.sent
    · exact hfirst
    · exact h.running

theorem finish_spec (eosTokenIds : List τ) (hstop : ∀ seq ∈ stop, seq ≠ []) (hne : stop ≠ [])
    (h : Running piece stop s) (remaining : List τ) :
    (s.finish piece eosTokenIds stop remaining).sent.flatten =
      giveOut stop s.prevText [drainText piece eosTokenIds remaining] := by
  have hdrop : (s.prevText ++ drainText piece eosTokenIds remaining).drop s.prevText.length =
      drainText piece eosTokenIds remaining := drop_left
  unfold finish giveOut
  by_cases hitems : remaining = []
  · have hempty : drainText piece eosTokenIds remaining = [] := by
      rw [hitems]
      rfl
    rw [hempty, append_nil, h.clear, if_pos hitems]
    exact h.sent
  rw [if_neg hitems]
  dsimp only
  have hprev : (s.take eosTokenIds remaining).prevText = s.prevText := rfl
  have hsent : (s.take eosTokenIds remaining).sent = s.sent := rfl
  rw [decode_take eosTokenIds h, hprev, hdrop]
  by_cases hdelta : drainText piece eosTokenIds remaining = []
  · rw [hdelta, append_nil, h.clear, if_neg (fun hin => hin.2 rfl), send_flatten, hsent, h.sent]
    exact append_nil _
  rw [if_pos ⟨hne, hdelta⟩, applyStopSequences_eq hstop]
  cases hfirst : firstOf stop (s.prevText ++ drainText piece eosTokenIds remaining) with
  | some c =>
    rw [if_pos rfl, send_flatten, hsent, h.sent]
  | none =>
    rw [if_neg Bool.false_ne_true, send_flatten, hsent, h.sent]
    rfl

theorem foldl_stopped : ∀ (drains : List (List τ)) (s : CompletionStream τ), s.stopped = true →
    drains.foldl (fun s items =>
      if s.stopped then s else s.process piece eosTokenIds stop items) s = s := by
  intro drains
  induction drains with
  | nil => exact fun s _ => rfl
  | cons items drains ih =>
    intro s hs
    rw [foldl_cons, if_pos hs]
    exact ih s hs

theorem stream_spec (eosTokenIds : List τ) (hstop : ∀ seq ∈ stop, seq ≠ []) (hne : stop ≠ [])
    (remaining : List τ) :
    ∀ (drains : List (List τ)) (s : CompletionStream τ), Running piece stop s →
      (let last := drains.foldl (fun s items =>
          if s.stopped then s else s.process piece eosTokenIds stop items) s
        if last.stopped then last.sent
        else (last.finish piece eosTokenIds stop remaining).sent).flatten =
          giveOut stop s.prevText ((drains ++ [remaining]).map (drainText piece eosTokenIds)) := by
  intro drains
  induction drains with
  | nil =>
    intro s h
    dsimp only [foldl_nil]
    rw [if_neg (by rw [h.running]; exact Bool.false_ne_true)]
    exact finish_spec eosTokenIds hstop hne h remaining
  | cons items drains ih =>
    intro s h
    have hrun : ¬s.stopped = true := by
      rw [h.running]
      exact Bool.false_ne_true
    have hspec := process_spec eosTokenIds hstop hne h items
    rw [foldl_cons, if_neg hrun, cons_append, map_cons, giveOut]
    cases hfirst : firstOf stop (s.prevText ++ drainText piece eosTokenIds items) with
    | some c =>
      rw [hfirst] at hspec
      rw [foldl_stopped drains _ hspec.1, if_pos hspec.1]
      exact hspec.2
    | none =>
      rw [hfirst] at hspec
      have hrest := ih _ hspec.1
      rw [hspec.2] at hrest
      exact hrest

end CompletionStream

/-! ### Streamed or not -/

theorem stripEos_eq {eosTokenIds tokenIds : List τ}
    (hlast : ∀ t ∈ tokenIds.dropLast, t ∉ eosTokenIds) :
    stripEos eosTokenIds tokenIds = tokenIds.filter (· ∉ eosTokenIds) := by
  have hkeep : ∀ ids : List τ, (∀ t ∈ ids, t ∉ eosTokenIds) →
      ids.filter (· ∉ eosTokenIds) = ids ∧ stripEos eosTokenIds ids = ids := by
    intro ids hids
    refine ⟨filter_eq_self.2 fun t ht => decide_eq_true (hids t ht), ?_⟩
    refine rdropWhile_eq_self_iff.2 fun hne => ?_
    rw [decide_eq_true_eq]
    exact hids _ (getLast_mem hne)
  rcases eq_nil_or_concat tokenIds with rfl | ⟨ids, t, rfl⟩
  · rfl
  rw [concat_eq_append, dropLast_concat] at hlast
  obtain ⟨hfilter, hstrip⟩ := hkeep ids hlast
  rw [concat_eq_append, filter_append, hfilter]
  unfold stripEos at hstrip ⊢
  rw [rdropWhile_concat, hstrip]
  by_cases ht : t ∈ eosTokenIds
  · simp [ht]
  · simp [ht]

theorem flatten_drainText (piece : τ → CompletionText) (eosTokenIds : List τ)
    (drains : List (List τ)) : (drains.map (drainText piece eosTokenIds)).flatten =
      decode piece (drains.flatten.filter (· ∉ eosTokenIds)) := by
  induction drains with
  | nil => rfl
  | cons items drains ih =>
    rw [map_cons, flatten_cons, ih, flatten_cons, filter_append]
    unfold drainText decode
    rw [flatMap_append]

/-- **The streamed text is the text that is not streamed** just if no drain before the last one ends
inside of the first stop sequence. -/
theorem stream_stop_iff (piece : τ → CompletionText) (eosTokenIds : List τ)
    (stop : List CompletionText) (drains : List (List τ)) (remaining : List τ) (hne : stop ≠ [])
    (hstop : ∀ seq ∈ stop, seq ≠ [])
    (hlast : ∀ t ∈ (drains.flatten ++ remaining).dropLast, t ∉ eosTokenIds) :
    (streamCompletion piece eosTokenIds stop drains remaining).flatten =
        handleCompletions piece eosTokenIds stop (drains.flatten ++ remaining) ↔
      ∀ k ≤ drains.length, Clear stop
        (decode piece (stripEos eosTokenIds (drains.flatten ++ remaining)))
        (decode piece (stripEos eosTokenIds (drains.take k).flatten)) := by
  have hinit : Running piece stop (init : CompletionStream τ) :=
    ⟨rfl, rfl, (firstOf_eq_none hstop).2 fun n seq hseq hocc =>
      absurd (hocc.lt (hstop seq hseq)) (Nat.not_lt_zero n), rfl⟩
  have hstream := stream_spec eosTokenIds hstop hne remaining drains init hinit
  have hwhole : ((drains ++ [remaining]).map (drainText piece eosTokenIds)).flatten =
      decode piece (stripEos eosTokenIds (drains.flatten ++ remaining)) := by
    rw [flatten_drainText, flatten_append, flatten_singleton, stripEos_eq hlast]
  have hpart : ∀ k ≤ drains.length,
      (((drains ++ [remaining]).map (drainText piece eosTokenIds)).take k).flatten =
        decode piece (stripEos eosTokenIds (drains.take k).flatten) := by
    intro k hk
    rw [← map_take, take_append_of_le_length hk, flatten_drainText, stripEos_eq]
    intro t ht
    apply hlast t
    have hsplit : drains.flatten ++ remaining =
        (drains.take k).flatten ++ ((drains.drop k).flatten ++ remaining) := by
      rw [← append_assoc, ← flatten_append, take_append_drop]
    rw [hsplit, dropLast_append]
    split
    · exact ht
    · exact mem_append_left _ (mem_of_mem_dropLast ht)
  have hhandle : handleCompletions piece eosTokenIds stop (drains.flatten ++ remaining) =
      (decode piece (stripEos eosTokenIds (drains.flatten ++ remaining))).take
        (cutAt stop (decode piece (stripEos eosTokenIds (drains.flatten ++ remaining)))) := by
    unfold handleCompletions
    rw [if_pos hne, applyStopSequences_fst hstop]
  have hgive := giveOut_eq_iff hstop
    ((drains ++ [remaining]).map (drainText piece eosTokenIds)) [] hinit.clear
  rw [nil_append, hwhole] at hgive
  unfold streamCompletion
  rw [hstream, hhandle]
  refine hgive.trans ⟨fun h k hk => ?_, fun h k hk => ?_⟩
  · have hk' := h k (by rw [length_map, length_append]; omega)
    rwa [nil_append, hpart k hk] at hk'
  · rw [nil_append]
    rw [length_map, length_append] at hk
    rcases Nat.lt_succ_iff_lt_or_eq.1 (Nat.lt_succ_of_le hk) with hlt | heq
    · rw [hpart k (Nat.le_of_lt_succ hlt)]
      exact h k (Nat.le_of_lt_succ hlt)
    · rw [heq, take_of_length_le (by simp), hwhole]
      exact clear_self hstop

theorem stop_sequence_in_two_drains :
    (streamCompletion (fun t : Char => [t]) [] [['a', 'b']] [['a']] ['b']).flatten ≠
      handleCompletions (fun t : Char => [t]) [] [['a', 'b']] ['a', 'b'] := by
  decide

theorem stream_stop_iff_one :
    (streamCompletion (fun t : Char => [t]) ['$'] [['b', 'c']] [['a', 'b', 'c'], []]
      ['$']).flatten =
      handleCompletions (fun t : Char => [t]) ['$'] [['b', 'c']] ['a', 'b', 'c', '$'] :=
  (stream_stop_iff (fun t : Char => [t]) ['$'] [['b', 'c']] [['a', 'b', 'c'], []] ['$'] (by decide)
    (by decide) (by simp)).2 (by decide)

end LayerStorm.Server
