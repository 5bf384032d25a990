import LayerStorm.Server.ToolSchema
import LayerStorm.Server.ToolDeltas

/-!
# The GLM-4.7 tool-call stream

The incremental parser of the GLM wire format.
-/

namespace LayerStorm.Server
namespace Glm47

open Lib Lib.Scanner

/-! ### The wire format -/

def toolCallStart : Tag Char := ⟨'<', "tool_call>".toList, by decide⟩

def toolCallEnd : Tag Char := ⟨'<', "/tool_call>".toList, by decide⟩

def argKeyStart : Tag Char := ⟨'<', "arg_key>".toList, by decide⟩

def argKeyEnd : Tag Char := ⟨'<', "/arg_key>".toList, by decide⟩

def argValueStart : Tag Char := ⟨'<', "arg_value>".toList, by decide⟩

def argValueEnd : Tag Char := ⟨'<', "/arg_value>".toList, by decide⟩

/-- The tags that end a name or stand behind a value. -/
def callTags : List (Tag Char) := [argKeyStart, toolCallEnd]

theorem distinct_callTags : Distinct callTags where
  mark := by decide
  eq_of_prefix := by decide

/-! ### The stream -/

/-- `_state`. -/
inductive Place
  | content
  | name
  | key
  | preValue
  | value
  | args
  deriving DecidableEq

/-- The stream without its buffer. -/
structure State where
  place : Place
  index : ℤ
  name : Text
  curKey : Text
  curTypes : List Text
  valStreaming : Bool
  argsOpen : Bool
  called : Bool

/-- A new stream. -/
def start : State where
  place := .content
  index := -1
  name := []
  curKey := []
  curTypes := []
  valStreaming := false
  argsOpen := false
  called := false

def valueTypes (tools : List Value) (name key : Text) : List Text :=
  match toolProperties tools name with
  | none => ["string".toList]
  | some props => extractTypes ((dictGet props key).getD .null)

/-- Only values whose one type is `string` stream. -/
def streams (types : List Text) : Bool :=
  types ≠ [] ∧ ∀ t ∈ types, t = "string".toList

variable (py : PyLib) (tools : List Value)

def step (s : State) (buf : Text) : Outcome State Char Emit :=
  match s.place with
  | .content =>
    match toolCallStart.reach buf with
    | (true, before, rest) =>
      .more { s with place := .name, index := s.index + 1, name := [], argsOpen := false } rest
        (emitContent before)
    | (false, emit, rest) => .wait rest (emitContent emit)
  | .name =>
    match cutFirst callTags buf with
    | none => .wait buf []
    | some (before, tag, rest) =>
      let name := strip before
      if tag = argKeyStart then
        .more { s with place := .key, name := name, called := true } rest
          [.opened s.index (callId s.index) name]
      else
        .more { s with place := .content, name := name, called := true } rest
          [.opened s.index (callId s.index) name, .args s.index ['{', '}']]
  | .key =>
    match argKeyEnd.cut buf with
    | none => .wait buf []
    | some (before, rest) => .more { s with place := .preValue, curKey := strip before } rest []
  | .preValue =>
    match argValueStart.cut buf with
    | none => .wait buf []
    | some (_, rest) =>
      let types := valueTypes tools s.name s.curKey
      if streams types then
        .more { s with place := .value, curTypes := types, valStreaming := true, argsOpen := true }
          rest [.args s.index (argPrefix s.argsOpen s.curKey ++ ['"'])]
      else .more { s with place := .value, curTypes := types, valStreaming := false } rest []
  | .value =>
    if s.valStreaming then
      match argValueEnd.reach buf with
      | (true, chunk, rest) =>
        .more { s with place := .args } rest [.args s.index (jsonEscape chunk ++ ['"'])]
      | (false, emit, rest) => .wait rest (emitChunk s.index emit)
    else
      match argValueEnd.cut buf with
      | none => .wait buf []
      | some (raw, rest) =>
        .more { s with place := .args, argsOpen := true } rest
          [.args s.index (argPrefix s.argsOpen s.curKey ++ dumps (coerce py raw s.curTypes))]
  | .args =>
    match cutFirst callTags buf with
    | none => .wait buf []
    | some (_, tag, rest) =>
      if tag = argKeyStart then .more { s with place := .key } rest []
      else
        .more { s with place := .content, argsOpen := false } rest
          [.args s.index (argsEnd s.argsOpen)]

def finish (s : State) (buf : Text) : List Emit :=
  match s.place with
  | .content => emitContent buf
  | .name => []
  | .value =>
    if s.valStreaming then [.args s.index (jsonEscape buf ++ ['"', '}'])]
    else
      let value := match toolProperties tools s.name with
        | some _ => coerce py buf s.curTypes
        | none => .str buf
      [.args s.index (argPrefix s.argsOpen s.curKey ++ dumps value ++ ['}'])]
  | _ => [.args s.index (argsEnd s.argsOpen)]

/-- What the stream gives out for a list of deltas, with the end of the stream. -/
def stream (ds : List Text) : List Emit :=
  let r := feed (step py tools) (start, []) ds
  r.2 ++ finish py tools r.1.1 r.1.2

/-! ### The steps -/

variable {py tools} {s : State} {buf before rest : Text}

theorem step_content_found (hp : s.place = .content)
    (h : toolCallStart.reach buf = (true, before, rest)) : step py tools s buf =
      .more { s with place := .name, index := s.index + 1, name := [], argsOpen := false } rest
        (emitContent before) := by
  simp only [step, hp, h]

theorem step_content_wait (hp : s.place = .content)
    (h : toolCallStart.reach buf = (false, before, rest)) :
    step py tools s buf = .wait rest (emitContent before) := by
  simp only [step, hp, h]

theorem step_name_key (hp : s.place = .name)
    (h : cutFirst callTags buf = some (before, argKeyStart, rest)) : step py tools s buf =
      .more { s with place := .key, name := strip before, called := true } rest
        [.opened s.index (callId s.index) (strip before)] := by
  simp only [step, hp, h, if_pos]

theorem step_name_end (hp : s.place = .name)
    (h : cutFirst callTags buf = some (before, toolCallEnd, rest)) : step py tools s buf =
      .more { s with place := .content, name := strip before, called := true } rest
        [.opened s.index (callId s.index) (strip before), .args s.index ['{', '}']] := by
  have hne : toolCallEnd ≠ argKeyStart := by decide
  simp only [step, hp, h, if_neg hne]

theorem step_name_wait (hp : s.place = .name) (h : cutFirst callTags buf = none) :
    step py tools s buf = .wait buf [] := by
  simp only [step, hp, h]

theorem step_key_found (hp : s.place = .key) (h : argKeyEnd.cut buf = some (before, rest)) :
    step py tools s buf = .more { s with place := .preValue, curKey := strip before } rest [] := by
  simp only [step, hp, h]

theorem step_key_wait (hp : s.place = .key) (h : argKeyEnd.cut buf = none) :
    step py tools s buf = .wait buf [] := by
  simp only [step, hp, h]

theorem step_preValue_text (hp : s.place = .preValue)
    (hs : streams (valueTypes tools s.name s.curKey) = true)
    (h : argValueStart.cut buf = some (before, rest)) : step py tools s buf = .more { s with
          place := .value, curTypes := valueTypes tools s.name s.curKey, valStreaming := true,
          argsOpen := true } rest
        [.args s.index (argPrefix s.argsOpen s.curKey ++ ['"'])] := by
  simp only [step, hp, h, if_pos hs]

theorem step_preValue_other (hp : s.place = .preValue)
    (hs : ¬ streams (valueTypes tools s.name s.curKey) = true)
    (h : argValueStart.cut buf = some (before, rest)) : step py tools s buf = .more { s with
          place := .value, curTypes := valueTypes tools s.name s.curKey, valStreaming := false }
        rest [] := by
  simp only [step, hp, h, if_neg hs]

theorem step_preValue_wait (hp : s.place = .preValue) (h : argValueStart.cut buf = none) :
    step py tools s buf = .wait buf [] := by
  simp only [step, hp, h]

section

variable (hp : s.place = .value)
include hp

theorem step_text_found (hs : s.valStreaming = true)
    (h : argValueEnd.reach buf = (true, before, rest)) : step py tools s buf =
      .more { s with place := .args } rest [.args s.index (jsonEscape before ++ ['"'])] := by
  simp only [step, hp, h, if_pos hs]

theorem step_text_wait (hs : s.valStreaming = true)
    (h : argValueEnd.reach buf = (false, before, rest)) :
    step py tools s buf = .wait rest (emitChunk s.index before) := by
  simp only [step, hp, h, if_pos hs]

theorem step_value_found (hs : ¬ s.valStreaming = true)
    (h : argValueEnd.cut buf = some (before, rest)) : step py tools s buf =
      .more { s with place := .args, argsOpen := true } rest
        [.args s.index (argPrefix s.argsOpen s.curKey ++ dumps (coerce py before s.curTypes))] := by
  simp only [step, hp, h, if_neg hs]

theorem step_value_wait (hs : ¬ s.valStreaming = true) (h : argValueEnd.cut buf = none) :
    step py tools s buf = .wait buf [] := by
  simp only [step, hp, h, if_neg hs]

end

theorem step_args_key (hp : s.place = .args)
    (h : cutFirst callTags buf = some (before, argKeyStart, rest)) :
    step py tools s buf = .more { s with place := .key } rest [] := by
  simp only [step, hp, h, if_pos]

theorem step_args_end (hp : s.place = .args)
    (h : cutFirst callTags buf = some (before, toolCallEnd, rest)) : step py tools s buf =
      .more { s with place := .content, argsOpen := false } rest
        [.args s.index (argsEnd s.argsOpen)] := by
  have hne : toolCallEnd ≠ argKeyStart := by decide
  simp only [step, hp, h, if_neg hne]

theorem step_args_wait (hp : s.place = .args) (h : cutFirst callTags buf = none) :
    step py tools s buf = .wait buf [] := by
  simp only [step, hp, h]

/-! ### Where the text is cut -/

theorem mem_callTags {g : Tag Char} (hg : g ∈ callTags) : g = argKeyStart ∨ g = toolCallEnd := by
  simpa only [callTags, List.mem_cons, List.not_mem_nil, or_false] using hg

theorem steady_step (s : State) : Steady view (fun _ => True) (step py tools s) := by
  cases hp : s.place with
  | content =>
    exact Steady.of_reach (step_content_found hp) (step_content_wait hp) view_emitContent_append
      view_emitContent_append
  | name =>
    refine Steady.of_cutFirst distinct_callTags (step_name_wait hp) fun _ g hg => ?_
    rcases mem_callTags hg with rfl | rfl
    · exact ⟨_, _, step_name_key hp⟩
    · exact ⟨_, _, step_name_end hp⟩
  | key => exact Steady.of_cut (step_key_wait hp) fun _ => ⟨_, _, step_key_found hp⟩
  | preValue =>
    by_cases hs : streams (valueTypes tools s.name s.curKey) = true
    · exact Steady.of_cut (step_preValue_wait hp) fun _ => ⟨_, _, step_preValue_text hp hs⟩
    · exact Steady.of_cut (step_preValue_wait hp) fun _ => ⟨_, _, step_preValue_other hp hs⟩
  | value =>
    by_cases hs : s.valStreaming = true
    · exact Steady.of_reach (step_text_found hp hs) (step_text_wait hp hs)
        (view_chunk_close s.index) (view_emitChunk_append s.index)
    · exact Steady.of_cut (step_value_wait hp hs) fun _ => ⟨_, _, step_value_found hp hs⟩
  | args =>
    refine Steady.of_cutFirst distinct_callTags (step_args_wait hp) fun _ g hg => ?_
    rcases mem_callTags hg with rfl | rfl
    · exact ⟨_, _, step_args_key hp⟩
    · exact ⟨_, _, step_args_end hp⟩

variable (py tools) in
theorem resumable : Resumable (step py tools) view (fun _ _ => True) where
  steady := steady_step
  ok_more _ _ := trivial
  ok_wait _ _ := trivial
  view_append := view_append

theorem view_stream_congr {ds ds' : List Text} (h : ds.flatten = ds'.flatten) :
    view (stream py tools ds) = view (stream py tools ds') := by
  have hidle : process (step py tools) start [] = (start, [], []) := rfl
  obtain ⟨hstate, hview⟩ := (resumable py tools).feed_congr h trivial hidle
  unfold stream
  dsimp only
  rw [hstate]
  exact view_append hview rfl

/-! ### The arguments -/

/-- How far the current call is written. -/
def shapeOf (s : State) : CallShape :=
  match s.place with
  | .content => .closed
  | .name => .pending
  | .value => if s.valStreaming then .text else openShape s.argsOpen
  | _ => openShape s.argsOpen

/-- The calls are written in order. -/
structure Ordered (s : State) (es : List Emit) : Prop where
  tidy : Tidy es s.index (shapeOf s)
  name_fresh : s.place = .name → s.argsOpen = false
  text_open : s.place = .value → s.valStreaming = true → s.argsOpen = true

theorem ordered_start : Ordered start [] :=
  ⟨Tidy.start, fun h => (by cases h), fun h => (by cases h)⟩

namespace Ordered

variable {es : List Emit} {p : Place}

theorem at_place (h : Ordered s es) (hp : s.place = p) :
    Tidy es s.index (shapeOf { s with place := p }) := by
  subst hp
  exact h.tidy

theorem of_tidy {s : State} (hp : s.place = p) (h : Tidy es s.index (shapeOf s))
    (hne : p ≠ .name ∧ p ≠ .value) : Ordered s es := by
  subst hp
  exact ⟨h, fun hp => absurd hp hne.1, fun hp => absurd hp hne.2⟩

theorem value (h : Ordered s es) (hp : s.place = .value) (hs : ¬ s.valStreaming = true) :
    Tidy es s.index (openShape s.argsOpen) := by
  have htidy := h.at_place hp
  simpa only [shapeOf, if_neg hs] using htidy

theorem text (h : Ordered s es) (hp : s.place = .value) (hs : s.valStreaming = true) :
    Tidy es s.index .text := by
  have htidy := h.at_place hp
  simpa only [shapeOf, if_pos hs] using htidy

variable {out : List Emit}

theorem more {s' : State} {b b' : Text} (hI : Ordered s es)
    (h : step py tools s b = .more s' b' out) : Ordered s' (es ++ out) := by
  cases hp : s.place with
  | content =>
    rcases hr : toolCallStart.reach b with ⟨_ | _, x, y⟩
    · rw [step_content_wait hp hr] at h
      cases h
    · rw [step_content_found hp hr] at h
      cases h
      exact ⟨((hI.at_place hp).content x).next, fun _ => rfl, fun h => (by cases h)⟩
  | name =>
    rcases hc : cutFirst callTags b with _ | ⟨x, g, y⟩
    · rw [step_name_wait hp hc] at h
      cases h
    have hopen := (hI.at_place hp).opened (callId s.index) (strip x)
    have hfresh := hI.name_fresh hp
    rcases mem_callTags (mem_of_cutFirst hc) with rfl | rfl
    · rw [step_name_key hp hc] at h
      cases h
      refine of_tidy rfl ?_ (by simp)
      rw [hfresh]
      exact hopen
    · rw [step_name_end hp hc] at h
      cases h
      have hclose := Tidy.close false hopen
      rw [List.append_assoc] at hclose
      exact of_tidy rfl hclose (by simp)
  | key =>
    rcases hc : argKeyEnd.cut b with _ | ⟨x, y⟩
    · rw [step_key_wait hp hc] at h
      cases h
    · rw [step_key_found hp hc] at h
      cases h
      exact of_tidy rfl (hI.at_place hp).nil (by simp)
  | preValue =>
    rcases hc : argValueStart.cut b with _ | ⟨x, y⟩
    · rw [step_preValue_wait hp hc] at h
      cases h
    by_cases hs : streams (valueTypes tools s.name s.curKey) = true
    · rw [step_preValue_text hp hs hc] at h
      cases h
      exact ⟨(hI.at_place hp).prefix_text s.curKey, fun h => (by cases h), fun _ _ => rfl⟩
    · rw [step_preValue_other hp hs hc] at h
      cases h
      exact ⟨(hI.at_place hp).nil, fun h => (by cases h), fun _ h => (by cases h)⟩
  | value =>
    by_cases hs : s.valStreaming = true
    · rcases hr : argValueEnd.reach b with ⟨_ | _, x, y⟩
      · rw [step_text_wait hp hs hr] at h
        cases h
      rw [step_text_found hp hs hr] at h
      cases h
      refine of_tidy rfl ?_ (by simp)
      rw [hI.text_open hp hs]
      exact (hI.text hp hs).text_end x
    · rcases hc : argValueEnd.cut b with _ | ⟨x, y⟩
      · rw [step_value_wait hp hs hc] at h
        cases h
      rw [step_value_found hp hs hc] at h
      cases h
      have hv := isValue_dumps _ (jsonFinite_coerce py x s.curTypes)
      exact of_tidy rfl ((hI.value hp hs).prefix_value s.curKey hv) (by simp)
  | args =>
    rcases hc : cutFirst callTags b with _ | ⟨x, g, y⟩
    · rw [step_args_wait hp hc] at h
      cases h
    rcases mem_callTags (mem_of_cutFirst hc) with rfl | rfl
    · rw [step_args_key hp hc] at h
      cases h
      exact of_tidy rfl (hI.at_place hp).nil (by simp)
    · rw [step_args_end hp hc] at h
      cases h
      exact of_tidy rfl (Tidy.close s.argsOpen (hI.at_place hp)) (by simp)

theorem wait {b b' : Text} (hI : Ordered s es) (h : step py tools s b = .wait b' out) :
    Ordered s (es ++ out) := by
  have hquiet : step py tools s b = .wait b [] → Ordered s (es ++ out) := by
    intro hw
    rw [hw] at h
    cases h
    rwa [List.append_nil]
  cases hp : s.place with
  | content =>
    rcases hr : toolCallStart.reach b with ⟨_ | _, x, y⟩
    · rw [step_content_wait hp hr] at h
      cases h
      refine of_tidy hp ?_ (by decide)
      rw [shapeOf, hp]
      exact (hI.at_place hp).content x
    · rw [step_content_found hp hr] at h
      cases h
  | name =>
    rcases hc : cutFirst callTags b with _ | ⟨x, g, y⟩
    · exact hquiet (step_name_wait hp hc)
    rcases mem_callTags (mem_of_cutFirst hc) with rfl | rfl
    · rw [step_name_key hp hc] at h
      cases h
    · rw [step_name_end hp hc] at h
      cases h
  | key =>
    rcases hc : argKeyEnd.cut b with _ | ⟨x, y⟩
    · exact hquiet (step_key_wait hp hc)
    · rw [step_key_found hp hc] at h
      cases h
  | preValue =>
    rcases hc : argValueStart.cut b with _ | ⟨x, y⟩
    · exact hquiet (step_preValue_wait hp hc)
    by_cases hs : streams (valueTypes tools s.name s.curKey) = true
    · rw [step_preValue_text hp hs hc] at h
      cases h
    · rw [step_preValue_other hp hs hc] at h
      cases h
  | value =>
    by_cases hs : s.valStreaming = true
    · rcases hr : argValueEnd.reach b with ⟨_ | _, x, y⟩
      · rw [step_text_wait hp hs hr] at h
        cases h
        refine ⟨?_, fun hn => ?_, hI.text_open⟩
        · simp only [shapeOf, hp, if_pos hs]
          exact (hI.text hp hs).text x
        · rw [hp] at hn
          cases hn
      · rw [step_text_found hp hs hr] at h
        cases h
    · rcases hc : argValueEnd.cut b with _ | ⟨x, y⟩
      · exact hquiet (step_value_wait hp hs hc)
      · rw [step_value_found hp hs hc] at h
        cases h
  | args =>
    rcases hc : cutFirst callTags b with _ | ⟨x, g, y⟩
    · exact hquiet (step_args_wait hp hc)
    rcases mem_callTags (mem_of_cutFirst hc) with rfl | rfl
    · rw [step_args_key hp hc] at h
      cases h
    · rw [step_args_end hp hc] at h
      cases h

end Ordered

variable (py tools) in
theorem preserves_ordered : Preserves (step py tools) Ordered := ⟨Ordered.more, Ordered.wait⟩

theorem Ordered.finish {es : List Emit} (h : Ordered s es) (buf : Text) :
    ∀ c ∈ openedOf (es ++ Glm47.finish py tools s buf),
      IsObject (argsOf c.1 (es ++ Glm47.finish py tools s buf)) := by
  cases hp : s.place with
  | content =>
    simp only [Glm47.finish, hp]
    exact ((h.at_place hp).content buf).isObject (.inr rfl)
  | name =>
    simp only [Glm47.finish, hp]
    exact (h.at_place hp).nil.isObject (.inl rfl)
  | value =>
    by_cases hs : s.valStreaming = true
    · simp only [Glm47.finish, hp, if_pos hs]
      have hend := Tidy.close true ((h.text hp hs).text_end buf)
      have hmerge := hend.merge
      rw [List.append_assoc] at hmerge
      exact hmerge.isObject (.inr rfl)
    · simp only [Glm47.finish, hp, if_neg hs]
      have hclose : ∀ v, jsonFinite v = true → ∀ c ∈ openedOf (es ++
          [.args s.index (argPrefix s.argsOpen s.curKey ++ dumps v ++ ['}'])]),
            IsObject (argsOf c.1 (es ++
              [.args s.index (argPrefix s.argsOpen s.curKey ++ dumps v ++ ['}'])])) := by
        intro v hv
        have hmem := (h.value hp hs).prefix_value s.curKey (isValue_dumps v hv)
        exact (Tidy.close true hmem).merge.isObject (.inr rfl)
      rcases toolProperties tools s.name with _ | props
      · exact hclose _ rfl
      · exact hclose _ (jsonFinite_coerce _ _ _)
  | key | preValue | args =>
    simp only [Glm47.finish, hp]
    exact (Tidy.close s.argsOpen (h.at_place hp)).isObject (.inr rfl)

theorem isObject_stream (ds : List Text) : ∀ c ∈ openedOf (stream py tools ds),
    IsObject (argsOf c.1 (stream py tools ds)) := by
  have hfeed := (preserves_ordered py tools).feed ds (p := (start, [])) ordered_start
  exact hfeed.finish _

end Glm47
end LayerStorm.Server
