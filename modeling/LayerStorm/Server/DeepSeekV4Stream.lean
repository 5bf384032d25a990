import LayerStorm.Server.ToolSchema
import LayerStorm.Server.ToolDeltas

/-!
# The DeepSeek-V4 tool-call stream

The incremental parser of the DSML wire format.  Each parameter tag declares the type of its value.
-/

namespace LayerStorm.Server

open List Option
namespace Dsml

open Lib Lib.Scanner

/-! ### The wire format -/

/-- `_DSML_TOOL_START`. -/
def toolStart : Tag Char := ⟨'<', "｜DSML｜tool_calls>".toList, by decide⟩

/-- `_DSML_TOOL_END`. -/
def toolEnd : Tag Char := ⟨'<', "/｜DSML｜tool_calls>".toList, by decide⟩

/-- `_DSML_INVOKE_PREFIX`. -/
def invokePrefix : Tag Char := ⟨'<', "｜DSML｜invoke name=\"".toList, by decide⟩

/-- `_DSML_INVOKE_NAME_END`. -/
def invokeNameEnd : Tag Char := ⟨'"', ['>'], by decide⟩

/-- `_DSML_INVOKE_END`. -/
def invokeEnd : Tag Char := ⟨'<', "/｜DSML｜invoke>".toList, by decide⟩

/-- `_DSML_PARAM_PREFIX`. -/
def paramPrefix : Tag Char := ⟨'<', "｜DSML｜parameter name=\"".toList, by decide⟩

/-- `_DSML_PARAM_CLOSE`. -/
def paramClose : Tag Char := ⟨'<', "/｜DSML｜parameter>".toList, by decide⟩

/-- The end of a malformed head. -/
def headNoise : Tag Char := ⟨'>', [], by decide⟩

def blockTags : List (Tag Char) := [invokePrefix, toolEnd]

def callTags : List (Tag Char) := [paramPrefix, invokeEnd, toolEnd]

theorem distinct_blockTags : Distinct blockTags where
  mark := by decide
  eq_of_prefix := by decide

theorem distinct_callTags : Distinct callTags where
  mark := by decide
  eq_of_prefix := by decide

theorem mem_blockTags {g : Tag Char} (hg : g ∈ blockTags) : g = invokePrefix ∨ g = toolEnd := by
  simpa only [blockTags, mem_cons, not_mem_nil, or_false] using hg

theorem mem_callTags {g : Tag Char} (hg : g ∈ callTags) :
    g = paramPrefix ∨ g = invokeEnd ∨ g = toolEnd := by
  simpa only [callTags, mem_cons, not_mem_nil, or_false] using hg

/-! ### The head of a parameter tag -/

def stringAttr (isString : Bool) : Text :=
  if isString then "string=\"true\">".toList else "string=\"false\">".toList

/-- `_DSML_PARAM_HEAD_RE.match`: the key, whether the value is a string, and the text behind. -/
def headMatch (buf : Text) : Option (Text × Bool × Text) :=
  let key := buf.takeWhile (· ≠ '"')
  let attrs := (buf.dropWhile (· ≠ '"')).tail
  if key = [] ∨ attrs.takeWhile isSpace = [] then none
  else
    let attr := attrs.dropWhile isSpace
    match attr.dropPrefix? (stringAttr true), attr.dropPrefix? (stringAttr false) with
    | some rest, _ => some (key, true, rest)
    | none, some rest => some (key, false, rest)
    | none, none => none

theorem dropPrefix_eq_some {p t r : Text} : t.dropPrefix? p = some r ↔ t = p ++ r := by
  simp only [dropPrefix?_eq_some_iff, beq_iff_eq, exists_eq_right]

theorem takeWhile_append_cons {p : Char → Bool} {x : Text} {c : Char} (hx : ∀ d ∈ x, p d = true)
    (hc : p c = false) (y : Text) :
    (x ++ c :: y).takeWhile p = x ∧ (x ++ c :: y).dropWhile p = c :: y := by
  rw [takeWhile_append_of_pos hx, dropWhile_append_of_pos hx]
  simp [hc]

theorem dropWhile_ne {c : Char} : ∀ {t : Text}, t.dropWhile (· ≠ c) ≠ [] →
    t.dropWhile (· ≠ c) = c :: (t.dropWhile (· ≠ c)).tail := by
  intro t
  induction t with
  | nil => exact fun h => absurd rfl h
  | cons d t ih =>
    by_cases hd : d = c
    · simp [hd]
    · simpa [hd] using ih

theorem stringAttr_ne : ∀ {b b' : Bool} {r r' : Text}, stringAttr b ++ r = stringAttr b' ++ r' →
    b = b' ∧ r = r' := by
  intro b b' r r' h
  have hsame : b = b' := by
    cases b <;> cases b' <;> first | rfl | (simp [stringAttr] at h)
  subst hsame
  exact ⟨rfl, append_cancel_left h⟩

theorem headMatch_eq_some {buf key rest : Text} {isString : Bool} :
    headMatch buf = some (key, isString, rest) ↔
      ∃ sp, buf = key ++ '"' :: (sp ++ (stringAttr isString ++ rest)) ∧ key ≠ [] ∧ '"' ∉ key ∧
        sp ≠ [] ∧ ∀ c ∈ sp, isSpace c = true := by
  unfold headMatch
  dsimp only
  constructor
  · intro h
    split at h
    · cases h
    next hne =>
    push Not at hne
    set attrs := (buf.dropWhile (· ≠ '"')).tail with hattrs
    have hdrop : buf.dropWhile (· ≠ '"') = '"' :: attrs := by
      refine dropWhile_ne fun hnil => hne.2 ?_
      rw [hattrs, hnil]
      rfl
    have hbuf : buf = buf.takeWhile (· ≠ '"') ++ '"' :: attrs := by
      rw [← hdrop, takeWhile_append_dropWhile]
    have hattr : ∀ b r, (attrs.dropWhile isSpace).dropPrefix? (stringAttr b) = some r →
        ∃ sp, buf = buf.takeWhile (· ≠ '"') ++ '"' :: (sp ++ (stringAttr b ++ r)) ∧
          buf.takeWhile (· ≠ '"') ≠ [] ∧ '"' ∉ buf.takeWhile (· ≠ '"') ∧
            sp ≠ [] ∧ ∀ c ∈ sp, isSpace c = true := by
      intro b r hr
      rw [dropPrefix_eq_some] at hr
      refine ⟨attrs.takeWhile isSpace, ?_, hne.1, ?_, hne.2, fun c hc => ?_⟩
      · rw [← hr, takeWhile_append_dropWhile]
        exact hbuf
      · intro hmem
        have hall := mem_takeWhile_imp hmem
        simp at hall
      · exact mem_takeWhile_imp hc
    split at h
    · next hr =>
      cases h
      exact hattr true _ hr
    · next hr =>
      cases h
      exact hattr false _ hr
    · cases h
  · rintro ⟨sp, rfl, hkey, hquote, hsp, hspace⟩
    obtain ⟨htake, hdrop⟩ := takeWhile_append_cons (p := (· ≠ '"')) (x := key) (c := '"')
      (fun d hd => decide_eq_true fun h : d = '"' => hquote (h ▸ hd)) (by simp)
      (sp ++ (stringAttr isString ++ rest))
    have hs : ∃ t, stringAttr isString ++ rest = 's' :: t := by
      cases isString <;> exact ⟨_, rfl⟩
    obtain ⟨t, ht⟩ := hs
    obtain ⟨htake', hdrop'⟩ := takeWhile_append_cons (c := 's') hspace (by decide) t
    rw [← ht] at htake' hdrop'
    rw [htake, hdrop, tail_cons, htake', hdrop', if_neg (by simp [hkey, hsp])]
    cases isString with
    | true =>
      rw [dropPrefix_eq_some.2 rfl]
    | false =>
      have hnone : (stringAttr false ++ rest).dropPrefix? (stringAttr true) = none := by
        cases h : (stringAttr false ++ rest).dropPrefix? (stringAttr true) with
        | none => rfl
        | some r => exact absurd (stringAttr_ne (dropPrefix_eq_some.1 h)).1 (by decide)
      rw [hnone, dropPrefix_eq_some.2 rfl]

/-! ### The stream -/

/-- `_state`. -/
inductive Place
  | content
  | preamble
  | name
  | params
  | paramHead
  | value
  deriving DecidableEq

/-- The stream without its buffer. -/
structure State where
  place : Place
  index : ℤ
  name : Text
  curKey : Text
  valString : Bool
  argsOpen : Bool
  called : Bool

/-- A new stream. -/
def start : State where
  place := .content
  index := -1
  name := []
  curKey := []
  valString := false
  argsOpen := false
  called := false

variable (py : PyLib)

def dsmlValue (raw : Text) (isString : Bool) : Value :=
  if isString then .str raw else (py.loadsFinite raw).getD (.str raw)

def step (s : State) (buf : Text) : Outcome State Char Emit :=
  match s.place with
  | .content =>
    match toolStart.reach buf with
    | (true, before, rest) => .more { s with place := .preamble } rest (emitContent before)
    | (false, emit, rest) => .wait rest (emitContent emit)
  | .preamble =>
    match cutFirst blockTags buf with
    | none => .wait buf []
    | some (_, tag, rest) =>
      if tag = invokePrefix then
        .more { s with place := .name, index := s.index + 1, name := [], argsOpen := false } rest []
      else .more { s with place := .content } rest []
  | .name =>
    match invokeNameEnd.cut buf with
    | none => .wait buf []
    | some (before, rest) =>
      .more { s with place := .params, name := before, called := true } rest
        [.opened s.index (callId s.index) before]
  | .params =>
    match cutFirst callTags buf with
    | none => .wait buf []
    | some (_, tag, rest) =>
      if tag = paramPrefix then .more { s with place := .paramHead } rest []
      else
        -- a bare end of the block closes the call too
        .more { s with
            place := if tag = invokeEnd then .preamble else .content, argsOpen := false } rest
          [.args s.index (argsEnd s.argsOpen)]
  | .paramHead =>
    match headMatch buf with
    | none =>
      match headNoise.cut buf with
      -- a malformed head: dropped up to the angle
      | some (_, rest) => .more s rest []
      | none => .wait buf []
    | some (key, isString, rest) =>
      if isString then
        .more { s with place := .value, curKey := key, valString := true, argsOpen := true } rest
          [.args s.index (argPrefix s.argsOpen key ++ ['"'])]
      else .more { s with place := .value, curKey := key, valString := false } rest []
  | .value =>
    if s.valString then
      match paramClose.reach buf with
      | (true, chunk, rest) =>
        .more { s with place := .params } rest [.args s.index (jsonEscape chunk ++ ['"'])]
      | (false, emit, rest) => .wait rest (emitChunk s.index emit)
    else
      match paramClose.cut buf with
      | none => .wait buf []
      | some (raw, rest) =>
        .more { s with place := .params, argsOpen := true } rest
          [.args s.index (argPrefix s.argsOpen s.curKey ++ dumps (dsmlValue py raw false))]

def finish (s : State) (buf : Text) : List Emit :=
  match s.place with
  | .content => emitContent buf
  | .preamble => []
  | .name => []
  | .value =>
    if s.valString then [.args s.index (jsonEscape buf ++ ['"', '}'])]
    else
      [.args s.index (argPrefix s.argsOpen s.curKey ++ dumps (dsmlValue py buf false) ++ ['}'])]
  | .params => [.args s.index (argsEnd s.argsOpen)]
  | .paramHead => [.args s.index (argsEnd s.argsOpen)]

/-- What the stream gives out for a list of deltas, with the end of the stream. -/
def stream (ds : List Text) : List Emit :=
  let r := feed (step py) (start, []) ds
  r.2 ++ finish py r.1.1 r.1.2

/-! ### The reading of a text -/

def advance (p : Place) (t : Text) : Option (Place × Text) :=
  match p with
  | .content => (toolStart.cut t).map fun r => (.preamble, r.2)
  | .preamble => (cutFirst blockTags t).map fun r =>
    (if r.2.1 = invokePrefix then .name else .content, r.2.2)
  | .name => (invokeNameEnd.cut t).map fun r => (.params, r.2)
  | .params => (cutFirst callTags t).map fun r =>
    (if r.2.1 = paramPrefix then .paramHead
      else if r.2.1 = invokeEnd then .preamble else .content, r.2.2)
  | .paramHead =>
    match headMatch t with
    | some r => some (.value, r.2.2)
    | none => (headNoise.cut t).map fun r => (.paramHead, r.2)
  | .value => (paramClose.cut t).map fun r => (.params, r.2)

def Reads : Place × Text → Place × Text → Prop :=
  Relation.ReflTransGen fun p q => advance p.1 p.2 = some q

/-! ### The steps -/

/-- What a step that goes on does. -/
inductive Goes (s : State) (b : Text) : State → Text → List Emit → Prop
  | content {x y : Text} : s.place = .content → toolStart.reach b = (true, x, y) →
      Goes s b { s with place := .preamble } y (emitContent x)
  | invoke {x y : Text} : s.place = .preamble → cutFirst blockTags b = some (x, invokePrefix, y) →
      Goes s b { s with place := .name, index := s.index + 1, name := [], argsOpen := false } y []
  | blockEnd {x y : Text} : s.place = .preamble → cutFirst blockTags b = some (x, toolEnd, y) →
      Goes s b { s with place := .content } y []
  | name {x y : Text} : s.place = .name → invokeNameEnd.cut b = some (x, y) →
      Goes s b { s with place := .params, name := x, called := true } y
        [.opened s.index (callId s.index) x]
  | param {x y : Text} : s.place = .params → cutFirst callTags b = some (x, paramPrefix, y) →
      Goes s b { s with place := .paramHead } y []
  | close {x y : Text} {g : Tag Char} {p : Place} : s.place = .params →
      cutFirst callTags b = some (x, g, y) →
      (g = invokeEnd ∧ p = .preamble ∨ g = toolEnd ∧ p = .content) →
      Goes s b { s with place := p, argsOpen := false } y [.args s.index (argsEnd s.argsOpen)]
  | noise {x y : Text} : s.place = .paramHead → headMatch b = none →
      headNoise.cut b = some (x, y) → Goes s b s y []
  | stringHead {key y : Text} : s.place = .paramHead → headMatch b = some (key, true, y) →
      Goes s b { s with place := .value, curKey := key, valString := true, argsOpen := true } y
        [.args s.index (argPrefix s.argsOpen key ++ ['"'])]
  | otherHead {key y : Text} : s.place = .paramHead → headMatch b = some (key, false, y) →
      Goes s b { s with place := .value, curKey := key, valString := false } y []
  | string {x y : Text} : s.place = .value → s.valString = true →
      paramClose.reach b = (true, x, y) →
      Goes s b { s with place := .params } y [.args s.index (jsonEscape x ++ ['"'])]
  | other {x y : Text} : s.place = .value → s.valString = false → paramClose.cut b = some (x, y) →
      Goes s b { s with place := .params, argsOpen := true } y
        [.args s.index (argPrefix s.argsOpen s.curKey ++ dumps (dsmlValue py x false))]

/-- What a step that waits does. -/
inductive Waits (s : State) (b : Text) : Text → List Emit → Prop
  | content {x y : Text} : s.place = .content → toolStart.reach b = (false, x, y) →
      Waits s b y (emitContent x)
  | string {x y : Text} : s.place = .value → s.valString = true →
      paramClose.reach b = (false, x, y) → Waits s b y (emitChunk s.index x)
  | quiet : advance s.place b = none → (s.place = .value → s.valString = false) →
      s.place ≠ .content → Waits s b b []

variable {py} {s s' : State} {b b' : Text} {out : List Emit}

theorem Goes.step (h : Goes py s b s' b' out) : step py s b = .more s' b' out := by
  have hne : toolEnd ≠ invokePrefix := by decide
  have hne₁ : invokeEnd ≠ paramPrefix := by decide
  have hne₂ : toolEnd ≠ paramPrefix := by decide
  have hne₃ : toolEnd ≠ invokeEnd := by decide
  cases h with
  | content hp hr => simp only [Dsml.step, hp, hr]
  | invoke hp hc | param hp hc => simp only [Dsml.step, hp, hc, if_pos]
  | blockEnd hp hc => simp only [Dsml.step, hp, hc, if_neg hne]
  | name hp hc => simp only [Dsml.step, hp, hc]
  | close hp hc hg =>
    rcases hg with ⟨rfl, rfl⟩ | ⟨rfl, rfl⟩
    · simp only [Dsml.step, hp, hc, if_neg hne₁, if_pos]
    · simp only [Dsml.step, hp, hc, if_neg hne₂, if_neg hne₃]
  | noise hp hm hc => simp only [Dsml.step, hp, hm, hc]
  | stringHead hp hm => simp only [Dsml.step, hp, hm, if_pos]
  | otherHead hp hm => simp only [Dsml.step, hp, hm, Bool.false_eq_true, if_false]
  | string hp hs hr => simp only [Dsml.step, hp, hs, hr, if_pos]
  | other hp hs hc => simp only [Dsml.step, hp, hs, hc, Bool.false_eq_true, if_false]

theorem Waits.step (h : Waits s b b' out) : step py s b = .wait b' out := by
  cases h with
  | content hp hr => simp only [Dsml.step, hp, hr]
  | string hp hs hr => simp only [Dsml.step, hp, hs, hr, if_pos]
  | quiet hadv hv hc =>
    cases hp : s.place with
    | content => exact absurd hp hc
    | preamble | name | params =>
      simp only [advance, hp, map_eq_none_iff] at hadv
      simp only [Dsml.step, hp, hadv]
    | paramHead =>
      simp only [advance, hp] at hadv
      cases hm : headMatch b with
      | some r =>
        rw [hm] at hadv
        cases hadv
      | none =>
        simp only [hm, map_eq_none_iff] at hadv
        simp only [Dsml.step, hp, hm, hadv]
    | value =>
      simp only [advance, hp, map_eq_none_iff] at hadv
      simp only [Dsml.step, hp, hv hp, hadv, Bool.false_eq_true, if_false]

variable (py s b) in
theorem goes_or_waits : (∃ s' b' out, Goes py s b s' b' out) ∨ ∃ b' out, Waits s b b' out := by
  cases hp : s.place with
  | content =>
    rcases hr : toolStart.reach b with ⟨_ | _, x, y⟩
    · exact .inr ⟨_, _, Waits.content hp hr⟩
    · exact .inl ⟨_, _, _, Goes.content hp hr⟩
  | preamble =>
    rcases hc : cutFirst blockTags b with _ | ⟨x, g, y⟩
    · refine .inr ⟨_, _, Waits.quiet ?_ (fun h => ?_) (by rw [hp]; decide)⟩
      · simp only [advance, hp, hc, map_none]
      · rw [hp] at h
        cases h
    · rcases mem_blockTags (mem_of_cutFirst hc) with rfl | rfl
      · exact .inl ⟨_, _, _, Goes.invoke hp hc⟩
      · exact .inl ⟨_, _, _, Goes.blockEnd hp hc⟩
  | name =>
    rcases hc : invokeNameEnd.cut b with _ | ⟨x, y⟩
    · refine .inr ⟨_, _, Waits.quiet ?_ (fun h => ?_) (by rw [hp]; decide)⟩
      · simp only [advance, hp, hc, map_none]
      · rw [hp] at h
        cases h
    · exact .inl ⟨_, _, _, Goes.name hp hc⟩
  | params =>
    rcases hc : cutFirst callTags b with _ | ⟨x, g, y⟩
    · refine .inr ⟨_, _, Waits.quiet ?_ (fun h => ?_) (by rw [hp]; decide)⟩
      · simp only [advance, hp, hc, map_none]
      · rw [hp] at h
        cases h
    · rcases mem_callTags (mem_of_cutFirst hc) with rfl | rfl | rfl
      · exact .inl ⟨_, _, _, Goes.param hp hc⟩
      · exact .inl ⟨_, _, _, Goes.close hp hc (.inl ⟨rfl, rfl⟩)⟩
      · exact .inl ⟨_, _, _, Goes.close hp hc (.inr ⟨rfl, rfl⟩)⟩
  | paramHead =>
    rcases hm : headMatch b with _ | ⟨key, _ | _, y⟩
    · rcases hc : headNoise.cut b with _ | ⟨x, y⟩
      · refine .inr ⟨_, _, Waits.quiet ?_ (fun h => ?_) (by rw [hp]; decide)⟩
        · simp only [advance, hp, hm, hc, map_none]
        · rw [hp] at h
          cases h
      · exact .inl ⟨_, _, _, Goes.noise hp hm hc⟩
    · exact .inl ⟨_, _, _, Goes.otherHead hp hm⟩
    · exact .inl ⟨_, _, _, Goes.stringHead hp hm⟩
  | value =>
    cases hs : s.valString with
    | true =>
      rcases hr : paramClose.reach b with ⟨_ | _, x, y⟩
      · exact .inr ⟨_, _, Waits.string hp hs hr⟩
      · exact .inl ⟨_, _, _, Goes.string hp hs hr⟩
    | false =>
      rcases hc : paramClose.cut b with _ | ⟨x, y⟩
      · refine .inr ⟨_, _, Waits.quiet ?_ (fun _ => hs) (by rw [hp]; decide)⟩
        simp only [advance, hp, hc, map_none]
      · exact .inl ⟨_, _, _, Goes.other hp hs hc⟩

theorem goes_iff : step py s b = .more s' b' out ↔ Goes py s b s' b' out := by
  refine ⟨fun h => ?_, Goes.step⟩
  rcases goes_or_waits py s b with ⟨_, _, _, hg⟩ | ⟨_, _, hw⟩
  · have heq := hg.step
    rw [h] at heq
    cases heq
    exact hg
  · have heq : step py s b = _ := hw.step
    rw [h] at heq
    cases heq

theorem waits_iff : step py s b = .wait b' out ↔ Waits s b b' out := by
  refine ⟨fun h => ?_, Waits.step⟩
  rcases goes_or_waits py s b with ⟨_, _, _, hg⟩ | ⟨_, _, hw⟩
  · have heq := hg.step
    rw [h] at heq
    cases heq
  · have heq : step py s b = _ := hw.step
    rw [h] at heq
    cases heq
    exact hw

theorem Goes.advance (h : Goes py s b s' b' out) : advance s.place b = some (s'.place, b') := by
  have hne : toolEnd ≠ invokePrefix := by decide
  have hne₁ : invokeEnd ≠ paramPrefix := by decide
  have hne₂ : toolEnd ≠ paramPrefix := by decide
  have hne₃ : toolEnd ≠ invokeEnd := by decide
  cases h with
  | content hp hr | string hp hs hr =>
    simp only [Dsml.advance, hp, Tag.reach_true.1 hr, map_some]
  | invoke hp hc | param hp hc => simp only [Dsml.advance, hp, hc, map_some, if_pos]
  | blockEnd hp hc => simp only [Dsml.advance, hp, hc, map_some, if_neg hne]
  | name hp hc | other hp hs hc => simp only [Dsml.advance, hp, hc, map_some]
  | close hp hc hg =>
    rcases hg with ⟨rfl, rfl⟩ | ⟨rfl, rfl⟩
    · simp only [Dsml.advance, hp, hc, map_some, if_neg hne₁, if_pos]
    · simp only [Dsml.advance, hp, hc, map_some, if_neg hne₂, if_neg hne₃]
  | noise hp hm hc => simp only [Dsml.advance, hp, hm, hc, map_some]
  | stringHead hp hm | otherHead hp hm => simp only [Dsml.advance, hp, hm]

theorem Waits.advance (h : Waits s b b' out) : advance s.place b = none := by
  cases h with
  | content hp hr | string hp hs hr =>
    simp only [Dsml.advance, hp, Tag.cut_eq_none.2 (Tag.reach_false hr).1, map_none]
  | quiet hadv _ _ => exact hadv

/-! ### The arguments -/

variable (py) in
theorem jsonFinite_dsmlValue (raw : Text) (isString : Bool) :
    jsonFinite (dsmlValue py raw isString) = true := by
  unfold dsmlValue
  split
  · rfl
  cases h : py.loadsFinite raw with
  | none => rfl
  | some v => exact jsonFinite_loadsFinite h

/-- How far the current call is written. -/
def shapeOf (s : State) : CallShape :=
  match s.place with
  | .content => .closed
  | .preamble => .closed
  | .name => .pending
  | .value => if s.valString then .text else openShape s.argsOpen
  | _ => openShape s.argsOpen

/-- The calls are written in order. -/
structure Ordered (s : State) (es : List Emit) : Prop where
  tidy : Tidy es s.index (shapeOf s)
  name_fresh : s.place = .name → s.argsOpen = false
  text_open : s.place = .value → s.valString = true → s.argsOpen = true

theorem ordered_start : Ordered start [] :=
  ⟨Tidy.start, fun h => (by cases h), fun h => (by cases h)⟩

namespace Ordered

variable {es : List Emit} {p : Place}

theorem at_place (h : Ordered s es) (hp : s.place = p) :
    Tidy es s.index (shapeOf { s with place := p }) := by
  subst hp
  exact h.tidy

theorem of_tidy {s : State} (h : Tidy es s.index (shapeOf s))
    (hne : s.place ≠ .name ∧ s.place ≠ .value) : Ordered s es :=
  ⟨h, fun hp => absurd hp hne.1, fun hp => absurd hp hne.2⟩

theorem value (h : Ordered s es) (hp : s.place = .value) (hs : s.valString = false) :
    Tidy es s.index (openShape s.argsOpen) := by
  have htidy := h.at_place hp
  simpa only [shapeOf, hs, Bool.false_eq_true, if_false] using htidy

theorem text (h : Ordered s es) (hp : s.place = .value) (hs : s.valString = true) :
    Tidy es s.index .text := by
  have htidy := h.at_place hp
  simpa only [shapeOf, if_pos hs] using htidy

theorem more (hI : Ordered s es) (h : Goes py s b s' b' out) : Ordered s' (es ++ out) := by
  cases h with
  | content hp hr => exact of_tidy ((hI.at_place hp).content _) (by simp)
  | invoke hp hc => exact ⟨(hI.at_place hp).next.nil, fun _ => rfl, fun h => (by cases h)⟩
  | blockEnd hp hc | param hp hc => exact of_tidy (hI.at_place hp).nil (by simp)
  | name hp hc =>
    refine of_tidy ?_ (by simp)
    rw [hI.name_fresh hp]
    exact (hI.at_place hp).opened _ _
  | close hp hc hg =>
    have hclose := Tidy.close s.argsOpen (hI.at_place hp)
    rcases hg with ⟨-, rfl⟩ | ⟨-, rfl⟩
    · exact of_tidy hclose (by simp)
    · exact of_tidy hclose (by simp)
  | noise hp hm hc => exact of_tidy hI.tidy.nil (by simp [hp])
  | stringHead hp hm =>
    exact ⟨(hI.at_place hp).prefix_text _, fun h => (by cases h), fun _ _ => rfl⟩
  | otherHead hp hm =>
    exact ⟨(hI.at_place hp).nil, fun h => (by cases h), fun _ h => (by cases h)⟩
  | string hp hs hr =>
    refine of_tidy ?_ (by simp)
    rw [hI.text_open hp hs]
    exact (hI.text hp hs).text_end _
  | other hp hs hc =>
    exact of_tidy ((hI.value hp hs).prefix_value _ (isValue_dumps _ (jsonFinite_dsmlValue _ _ _)))
      (by simp)

theorem wait (hI : Ordered s es) (h : Waits s b b' out) : Ordered s (es ++ out) := by
  cases h with
  | content hp hr =>
    refine of_tidy ?_ (by simp [hp])
    rw [shapeOf, hp]
    exact (hI.at_place hp).content _
  | string hp hs hr =>
    refine ⟨?_, fun hn => ?_, hI.text_open⟩
    · simp only [shapeOf, hp, if_pos hs]
      exact (hI.text hp hs).text _
    · rw [hp] at hn
      cases hn
  | quiet _ _ _ => rwa [append_nil]

end Ordered

variable (py) in
theorem preserves_ordered : Preserves (step py) Ordered where
  more hI h := hI.more (goes_iff.1 h)
  wait hI h := hI.wait (waits_iff.1 h)

theorem Ordered.finish {es : List Emit} (h : Ordered s es) (buf : Text) :
    ∀ c ∈ openedOf (es ++ Dsml.finish py s buf),
      IsObject (argsOf c.1 (es ++ Dsml.finish py s buf)) := by
  cases hp : s.place with
  | content =>
    simp only [Dsml.finish, hp]
    exact ((h.at_place hp).content buf).isObject (.inr rfl)
  | preamble =>
    simp only [Dsml.finish, hp]
    exact (h.at_place hp).nil.isObject (.inr rfl)
  | name =>
    simp only [Dsml.finish, hp]
    exact (h.at_place hp).nil.isObject (.inl rfl)
  | value =>
    cases hs : s.valString with
    | true =>
      simp only [Dsml.finish, hp, hs]
      have hend := Tidy.close true ((h.text hp hs).text_end buf)
      have hmerge := hend.merge
      rw [append_assoc] at hmerge
      exact hmerge.isObject (.inr rfl)
    | false =>
      simp only [Dsml.finish, hp, hs]
      have hv := isValue_dumps _ (jsonFinite_dsmlValue py buf false)
      have hmem := (h.value hp hs).prefix_value s.curKey hv
      exact (Tidy.close true hmem).merge.isObject (.inr rfl)
  | params | paramHead =>
    simp only [Dsml.finish, hp]
    exact (Tidy.close s.argsOpen (h.at_place hp)).isObject (.inr rfl)

theorem isObject_stream (ds : List Text) : ∀ c ∈ openedOf (stream py ds),
    IsObject (argsOf c.1 (stream py ds)) := by
  have hfeed := (preserves_ordered py).feed ds (p := (start, [])) ordered_start
  exact hfeed.finish _

end Dsml
end LayerStorm.Server
