import LayerStorm.Lib.Utf8
import LayerStorm.Lib.TagSearch
import LayerStorm.Server.StreamStop

/-!
# Streams of characters

The streams decode all tokens after every drain of the queue and send what is new according to the
lengths of the texts.  A chat with a reasoning parser parts the deltas at a marker, by the token of
the marker where there is one, else by its text, of which a beginning at the end of the text is held
back.
-/

namespace LayerStorm.Server

open Lib List

variable {τ : Type*} [DecidableEq τ]

/-! ### The model -/

/-- `tokenizer.decode`, where each token stands for some bytes. -/
def decodeIds (bytes : τ → List ℕ) (ids : List τ) : CompletionText :=
  Utf8.decode (ids.flatMap bytes)

/-- `str.partition`: what stands before and behind the first occurrence. -/
def partition (text sep : CompletionText) : Option (CompletionText × CompletionText) :=
  (find text sep).map fun n => (text.take n, text.drop (n + sep.length))

/-- `str.replace(old, "", 1)`. -/
def removeOne (text old : CompletionText) : CompletionText :=
  match partition text old with
  | some (before, behind) => before ++ behind
  | none => text

def dropMarker (marker text : CompletionText) : CompletionText :=
  if marker <+: text then text.drop marker.length else text

/-- A reasoning parser: its markers, and their tokens where they are known. -/
structure ReasoningParser (τ : Type*) where
  startStr : CompletionText
  endStr : CompletionText
  startId : Option τ
  endId : Option τ

structure ReasoningStream where
  inReasoning : Bool
  buf : CompletionText

namespace ReasoningParser

variable (m : ReasoningParser τ)

/-- A start marker among the tokens of a delta is taken out of its text. -/
def stripStart (delta : CompletionText) (ids : List τ) : CompletionText :=
  match m.startId with
  | some s => if s ∈ ids then removeOne delta m.startStr else delta
  | none => delta

/-- `ReasoningStream.process`: the reasoning and the content of a delta. -/
def process (rs : ReasoningStream) (delta : CompletionText) (ids : List τ) :
    ReasoningStream × CompletionText × CompletionText :=
  if rs.inReasoning = false then (rs, [], delta)
  else if delta = [] ∧ ids = [] then (rs, [], [])
  else
    match m.endId with
    | some e =>
      let delta := m.stripStart delta ids
      if e ∈ ids then
        match partition delta m.endStr with
        | some (reasoning, content) => ({ rs with inReasoning := false }, reasoning, content)
        | none => ({ rs with inReasoning := false }, delta, [])
      else (rs, delta, [])
    | none =>
      let buf := rs.buf ++ delta
      match partition buf m.endStr with
      | some (reasoning, content) => (⟨false, []⟩, dropMarker m.startStr reasoning, content)
      | none =>
        let keep := buf.length - partialTagLen buf m.endStr
        (⟨true, buf.drop keep⟩, dropMarker m.startStr (buf.take keep), [])

def finish (rs : ReasoningStream) : CompletionText × CompletionText :=
  if rs.inReasoning then (rs.buf, []) else ([], rs.buf)

/-- `split_token_ids`, where the end marker is a token. -/
def splitTokenIds (e : τ) (ids : List τ) : List τ × List τ :=
  let reasoningIds := ids.takeWhile (· ≠ e)
  (match m.startId with
    | some s => reasoningIds.filter (· ≠ s)
    | none => reasoningIds, (ids.dropWhile (· ≠ e)).tail)

def extractReasoning (text : CompletionText) : CompletionText × CompletionText :=
  let text := if m.startStr = [] then text
    else match partition text m.startStr with
      | some (_, behind) => behind
      | none => text
  (partition text m.endStr).getD (text, [])

end ReasoningParser

/-- What has been routed so far: the state of the parser, and the deltas of the reasoning and of the
content, one after the other. -/
structure Routed where
  rs : ReasoningStream
  reasoning : CompletionText
  content : CompletionText

def Routed.route (parser : Option (ReasoningParser τ)) (s : Routed) (x : CompletionText × List τ) :
    Routed :=
  match parser with
  | none => { s with content := s.content ++ x.1 }
  | some m =>
    let r := m.process s.rs x.1 x.2
    ⟨r.1, s.reasoning ++ r.2.1, s.content ++ r.2.2⟩

def Routed.flush (parser : Option (ReasoningParser τ)) (s : Routed) :
    CompletionText × CompletionText :=
  match parser with
  | none => (s.reasoning, s.content)
  | some _ =>
    (s.reasoning ++ (ReasoningParser.finish s.rs).1, s.content ++ (ReasoningParser.finish s.rs).2)

/-- What the stream of a chat keeps between two drains. -/
structure ChatStream (τ : Type*) where
  allTokens : List τ
  prevText : CompletionText
  routed : Routed

namespace ChatStream

variable (bytes : τ → List ℕ) (eosTokenIds : List τ) (parser : Option (ReasoningParser τ))

/-- The tokens of a drain are decoded with those before, and what is new is routed. -/
def take (s : ChatStream τ) (items : List τ) : ChatStream τ :=
  let deltaIds := items.filter (· ∉ eosTokenIds)
  let allTokens := s.allTokens ++ deltaIds
  let fullText := decodeIds bytes allTokens
  ⟨allTokens, fullText, s.routed.route parser (fullText.drop s.prevText.length, deltaIds)⟩

/-- A drain of the main loop. -/
def process (s : ChatStream τ) (items : List τ) : ChatStream τ :=
  if items = [] then s else s.take bytes eosTokenIds parser items

end ChatStream

/-- `_stream_chat_completion_inner` without stop sequences: the deltas of the reasoning and of the
content, for the drains before the queue is done and the last one. -/
def streamChat (bytes : τ → List ℕ) (eosTokenIds : List τ) (parser : Option (ReasoningParser τ))
    (thinking : Bool) (drains : List (List τ)) (remaining : List τ) :
    CompletionText × CompletionText :=
  let s := drains.foldl (ChatStream.process bytes eosTokenIds parser)
    ⟨[], [], ⟨⟨thinking, []⟩, [], []⟩⟩
  (s.take bytes eosTokenIds parser remaining).routed.flush parser

/-- A drain of the stream of a completion: the tokens, the last text and what is sent. -/
def completionTurn (bytes : τ → List ℕ) (eosTokenIds : List τ)
    (s : List τ × CompletionText × CompletionText) (items : List τ) :
    List τ × CompletionText × CompletionText :=
  if items = [] then s
  else
    let allTokens := s.1 ++ items.filter (· ∉ eosTokenIds)
    let fullText := decodeIds bytes allTokens
    (allTokens, fullText, s.2.2 ++ fullText.drop s.2.1.length)

/-- `_stream_completion_inner` without stop sequences: the deltas, one after the other. -/
def streamCompletionText (bytes : τ → List ℕ) (eosTokenIds : List τ) (drains : List (List τ))
    (remaining : List τ) : CompletionText :=
  ((drains ++ [remaining]).foldl (completionTurn bytes eosTokenIds) ([], [], [])).2.2

/-- `_split_reasoning`: the reasoning and the content of a response that is not streamed. -/
def splitReasoning (bytes : τ → List ℕ) (parser : Option (ReasoningParser τ)) (thinking : Bool)
    (ids : List τ) : CompletionText × CompletionText :=
  match parser with
  | none => ([], decodeIds bytes ids)
  | some m =>
    if thinking = false then ([], decodeIds bytes ids)
    else
      match m.endId with
      | some e =>
        (decodeIds bytes (m.splitTokenIds e ids).1, decodeIds bytes (m.splitTokenIds e ids).2)
      | none => m.extractReasoning (decodeIds bytes ids)

/-! ### The deltas -/

/-- What is new when some tokens have come behind others. -/
def newText (bytes : τ → List ℕ) (ids p : List τ) : CompletionText :=
  (decodeIds bytes (ids ++ p)).drop (decodeIds bytes ids).length

/-- What is new after each drain, and its tokens. -/
def deltas (bytes : τ → List ℕ) : List τ → List (List τ) → List (CompletionText × List τ)
  | _, [] => []
  | ids, p :: ps =>
    (newText bytes ids p, p) :: deltas bytes (ids ++ p) ps

def pieces (eosTokenIds : List τ) (drains : List (List τ)) (remaining : List τ) : List (List τ) :=
  (drains ++ [remaining]).map fun items => items.filter (· ∉ eosTokenIds)

theorem pieces_flatten (eosTokenIds : List τ) (drains : List (List τ)) (remaining : List τ) :
    (pieces eosTokenIds drains remaining).flatten =
      (drains.flatten ++ remaining).filter (· ∉ eosTokenIds) := by
  unfold pieces
  simp

section

omit [DecidableEq τ]

theorem deltas_flatten (bytes : τ → List ℕ) (ps : List (List τ)) : ∀ ids : List τ,
    ((deltas bytes ids ps).map Prod.fst).flatten =
      Utf8.news (ids.flatMap bytes) (ps.map fun p => p.flatMap bytes) := by
  induction ps with
  | nil =>
    intro ids
    rfl
  | cons p ps ih =>
    intro ids
    rw [deltas, map_cons, flatten_cons, ih, map_cons, Utf8.news, ← flatMap_append]
    rfl

/-- No piece behind some tokens ends inside of a character that the later ones complete. -/
def NoneSplit (bytes : τ → List ℕ) (ids : List τ) (ps : List (List τ)) : Prop :=
  ∀ qs rs, ps = qs ++ rs →
    ¬Utf8.Splits ((ids ++ qs.flatten).flatMap bytes) (rs.flatten.flatMap bytes)

theorem noneSplit_iff_take (bytes : τ → List ℕ) (ids : List τ) (ps : List (List τ)) :
    NoneSplit bytes ids ps ↔ ∀ k ≤ ps.length,
      ¬Utf8.Splits ((ids ++ (ps.take k).flatten).flatMap bytes)
        ((ps.drop k).flatten.flatMap bytes) := by
  constructor
  · intro h k _
    exact h _ _ (take_append_drop k ps).symm
  · intro h qs rs hps
    have hk := h qs.length (by rw [hps, length_append]; omega)
    rw [hps, take_left, drop_left] at hk
    exact hk

instance (bytes : τ → List ℕ) (ids : List τ) (ps : List (List τ)) :
    Decidable (NoneSplit bytes ids ps) :=
  decidable_of_iff _ (noneSplit_iff_take bytes ids ps).symm

theorem flatten_map_bytes (bytes : τ → List ℕ) (l : List (List τ)) :
    (l.map fun p => p.flatMap bytes).flatten = l.flatten.flatMap bytes := by
  induction l with
  | nil => rfl
  | cons p l ih => rw [map_cons, flatten_cons, ih, flatten_cons, flatMap_append]

theorem noneSplit_iff (bytes : τ → List ℕ) (ids : List τ) (ps : List (List τ)) :
    NoneSplit bytes ids ps ↔ ∀ qs rs, (ps.map fun p => p.flatMap bytes) = qs ++ rs →
      ¬Utf8.Splits (ids.flatMap bytes ++ qs.flatten) rs.flatten := by
  unfold NoneSplit
  constructor
  · intro h qs rs hps
    obtain ⟨qs', rs', rfl, rfl, rfl⟩ := map_eq_append_iff.1 hps
    rw [flatten_map_bytes, flatten_map_bytes, ← flatMap_append]
    exact h qs' rs' rfl
  · intro h qs rs hps
    rw [flatMap_append, ← flatten_map_bytes, ← flatten_map_bytes]
    exact h _ _ (by rw [hps, map_append])

/-- **The deltas are the whole text** just if no drain ends inside of a character. -/
theorem deltas_flatten_eq_iff (bytes : τ → List ℕ) (ps : List (List τ)) :
    ((deltas bytes [] ps).map Prod.fst).flatten = decodeIds bytes ps.flatten ↔
      NoneSplit bytes [] ps := by
  rw [deltas_flatten, noneSplit_iff]
  unfold decodeIds
  rw [← flatten_map_bytes, flatMap_nil, Utf8.news_eq_iff]
  rfl

variable {bytes : τ → List ℕ} {ps : List (List τ)}

theorem decodeIds_append_deltas {ids : List τ} (h : NoneSplit bytes ids ps) :
    decodeIds bytes ids ++ ((deltas bytes ids ps).map Prod.fst).flatten =
      decodeIds bytes (ids ++ ps.flatten) := by
  unfold decodeIds
  rw [deltas_flatten, Utf8.news_of_not_splits _ _ ((noneSplit_iff _ _ _).1 h), flatten_map_bytes,
    flatMap_append]

theorem NoneSplit.tail {ids p : List τ} (h : NoneSplit bytes ids (p :: ps)) :
    NoneSplit bytes (ids ++ p) ps := by
  intro qs rs hps
  have hsplit := h (p :: qs) rs (by rw [hps, cons_append])
  rw [flatten_cons, ← append_assoc] at hsplit
  exact hsplit

theorem NoneSplit.prefix {ids p : List τ} (h : NoneSplit bytes ids (p :: ps)) :
    decodeIds bytes ids <+: decodeIds bytes (ids ++ p) := by
  have hids := (Utf8.prefix_iff _ _).2 (h [] (p :: ps) rfl)
  have hp := (Utf8.prefix_iff _ _).2 (h [p] ps rfl)
  simp only [flatten_nil, append_nil, flatten_cons] at hids hp
  rw [flatMap_append, ← append_assoc, ← flatMap_append] at hids
  unfold decodeIds
  refine prefix_of_prefix_length_le hids hp ?_
  rw [flatMap_append]
  exact Utf8.length_decode_le _ _

@[simp] theorem newText_nil (bytes : τ → List ℕ) (ids : List τ) : newText bytes ids [] = [] := by
  unfold newText
  rw [append_nil, drop_length]

theorem append_newText {ids p : List τ} (h : decodeIds bytes ids <+: decodeIds bytes (ids ++ p)) :
    decodeIds bytes ids ++ newText bytes ids p = decodeIds bytes (ids ++ p) := by
  obtain ⟨t, ht⟩ := h
  unfold newText
  rw [← ht, drop_left]

end

/-! ### The streams -/

section Streams

variable (bytes : τ → List ℕ) (eosTokenIds : List τ)

theorem completionTurn_eq (ids : List τ) (sent : CompletionText) (items : List τ) :
    completionTurn bytes eosTokenIds (ids, decodeIds bytes ids, sent) items =
      let p := items.filter (· ∉ eosTokenIds)
      (ids ++ p, decodeIds bytes (ids ++ p), sent ++ newText bytes ids p) := by
  unfold completionTurn
  by_cases hitems : items = []
  · rw [hitems]
    simp
  · rw [if_neg hitems]
    rfl

/-- **A stream of a completion** sends the deltas of its drains. -/
theorem streamCompletionText_eq (drains : List (List τ)) (remaining : List τ) :
    streamCompletionText bytes eosTokenIds drains remaining =
      ((deltas bytes [] (pieces eosTokenIds drains remaining)).map Prod.fst).flatten := by
  have hfold : ∀ (l : List (List τ)) (ids : List τ) (sent : CompletionText),
      (l.foldl (completionTurn bytes eosTokenIds) (ids, decodeIds bytes ids, sent)).2.2 =
        sent ++ ((deltas bytes ids (l.map fun items =>
          items.filter (· ∉ eosTokenIds))).map Prod.fst).flatten := by
    intro l
    induction l with
    | nil =>
      intro ids sent
      rw [map_nil, deltas, map_nil, flatten_nil, append_nil]
      rfl
    | cons items l ih =>
      intro ids sent
      rw [foldl_cons, completionTurn_eq]
      rw [ih, map_cons, deltas, map_cons, flatten_cons, append_assoc]
  have hrun := hfold (drains ++ [remaining]) [] []
  exact hrun

theorem ReasoningParser.finish_of_nil {rs : ReasoningStream} (h : rs.buf = []) :
    ReasoningParser.finish rs = ([], []) := by
  unfold ReasoningParser.finish
  rw [h, ite_self]

variable (parser : Option (ReasoningParser τ))

omit [DecidableEq τ] in
theorem Routed.route_nil [DecidableEq τ] (s : Routed) : s.route parser ([], []) = s := by
  unfold Routed.route
  cases parser with
  | none => simp
  | some m =>
    have hprocess : m.process s.rs [] [] = (s.rs, [], []) := by
      unfold ReasoningParser.process
      by_cases hin : s.rs.inReasoning = false
      · rw [if_pos hin]
      · rw [if_neg hin, if_pos ⟨rfl, rfl⟩]
    dsimp only
    rw [hprocess]
    simp

theorem ChatStream.process_eq (ids : List τ) (s : Routed) (items : List τ) :
    ChatStream.process bytes eosTokenIds parser ⟨ids, decodeIds bytes ids, s⟩ items =
      let p := items.filter (· ∉ eosTokenIds)
      ⟨ids ++ p, decodeIds bytes (ids ++ p), s.route parser (newText bytes ids p, p)⟩ := by
  unfold ChatStream.process
  by_cases hitems : items = []
  · rw [hitems]
    simp [Routed.route_nil]
  · rw [if_neg hitems]
    rfl

/-- **A stream of a chat** routes the deltas of its drains. -/
theorem streamChat_eq (thinking : Bool) (drains : List (List τ)) (remaining : List τ) :
    streamChat bytes eosTokenIds parser thinking drains remaining =
      Routed.flush parser ((deltas bytes [] (pieces eosTokenIds drains remaining)).foldl
        (Routed.route parser) ⟨⟨thinking, []⟩, [], []⟩) := by
  have hfold : ∀ (l : List (List τ)) (ids : List τ) (s : Routed),
      ((l.foldl (ChatStream.process bytes eosTokenIds parser)
        ⟨ids, decodeIds bytes ids, s⟩).take bytes eosTokenIds parser remaining).routed =
      (deltas bytes ids ((l ++ [remaining]).map fun items =>
        items.filter (· ∉ eosTokenIds))).foldl (Routed.route parser) s := by
    intro l
    induction l with
    | nil =>
      intro ids s
      rfl
    | cons items l ih =>
      intro ids s
      rw [foldl_cons, ChatStream.process_eq]
      rw [ih]
      rfl
  exact congrArg (Routed.flush parser) (hfold drains [] _)

theorem route_content {s : Routed} (hs : parser = none ∨ s.rs.inReasoning = false)
    (l : List (CompletionText × List τ)) : l.foldl (Routed.route parser) s =
      { s with content := s.content ++ (l.map Prod.fst).flatten } := by
  induction l generalizing s with
  | nil => simp
  | cons x l ih =>
    have hroute : s.route parser x = { s with content := s.content ++ x.1 } := by
      unfold Routed.route
      cases parser with
      | none => rfl
      | some m =>
        have hin : s.rs.inReasoning = false := hs.resolve_left (fun h => (by cases h))
        have hprocess : m.process s.rs x.1 x.2 = (s.rs, [], x.1) := by
          unfold ReasoningParser.process
          rw [if_pos hin]
        dsimp only
        rw [hprocess]
        simp
    have hrest := @ih { s with content := s.content ++ x.1 } hs
    rw [foldl_cons, hroute, hrest, map_cons, flatten_cons, ← append_assoc]

theorem streamChat_plain {thinking : Bool} (h : parser = none ∨ thinking = false)
    (drains : List (List τ)) (remaining : List τ) :
    streamChat bytes eosTokenIds parser thinking drains remaining =
      ([], ((deltas bytes [] (pieces eosTokenIds drains remaining)).map Prod.fst).flatten) := by
  rw [streamChat_eq, route_content parser h]
  cases parser with
  | none => rfl
  | some m =>
    simp [Routed.flush, ReasoningParser.finish]

end Streams

end LayerStorm.Server
