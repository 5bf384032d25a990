import LayerStorm.Server.DeepSeekV4Stream

/-!
# Chunking of the DeepSeek-V4 tool-call stream

The head of a parameter tag that is not complete yet is taken for malformed as soon as an angle is
seen.  A key may hold an angle, so what the stream makes of such a key depends on where the text
is cut.  All other texts are read alike however they are cut.
-/

namespace LayerStorm.Server

open List Option
namespace Dsml

open Lib Lib.Scanner

variable {py : PyLib} {s s' : State} {b b' u r rest key : Text} {out es : List Emit} {p p' : Place}
variable {isString : Bool} {a : Bool} {i : ℤ}

/-! ### Heads of parameter tags -/

theorem headMatch_append (h : headMatch b = some (key, isString, r)) (u : Text) :
    headMatch (b ++ u) = some (key, isString, r ++ u) := by
  obtain ⟨sp, rfl, hkey⟩ := headMatch_eq_some.1 h
  exact headMatch_eq_some.2 ⟨sp, by simp, hkey⟩

theorem headMatch_of_append (h : headMatch (b ++ u) = some (key, isString, r ++ u)) :
    headMatch b = some (key, isString, r) := by
  obtain ⟨sp, hb, hkey⟩ := headMatch_eq_some.1 h
  refine headMatch_eq_some.2 ⟨sp, ?_, hkey⟩
  simpa only [← append_assoc, ← cons_append, append_left_inj] using hb

theorem stringAttr_angle (isString : Bool) : ∃ t, stringAttr isString = t ++ ['>'] ∧ '>' ∉ t := by
  cases isString
  · exact ⟨"string=\"false\"".toList, rfl, by decide⟩
  · exact ⟨"string=\"true\"".toList, rfl, by decide⟩

theorem headMatch_of_angle (h : headMatch (b ++ u) = some (key, isString, r)) (hkey : '>' ∉ key)
    (hb : '>' ∈ b) : headMatch b ≠ none := by
  obtain ⟨sp, hbu, hne, hquote, hsp, hspace⟩ := headMatch_eq_some.1 h
  obtain ⟨t, ht, hangle⟩ := stringAttr_angle isString
  have hhead : '>' ∉ key ++ '"' :: (sp ++ t) := by
    simp only [mem_append, mem_cons, not_or]
    refine ⟨hkey, by decide, fun hmem => ?_, hangle⟩
    exact absurd (hspace _ hmem) (by decide)
  have hsplit : b ++ u = (key ++ '"' :: (sp ++ t)) ++ '>' :: r := by
    rw [hbu, ht]
    simp
  rcases append_eq_append_iff.1 hsplit with ⟨c, hc, -⟩ | ⟨c, hc, hr⟩
  · exact absurd (by rw [hc]; exact mem_append_left c hb) hhead
  cases c with
  | nil =>
    rw [append_nil] at hc
    exact absurd (hc ▸ hb) hhead
  | cons d c =>
    obtain ⟨rfl, -⟩ := hr
    have hmatch : headMatch b = some (key, isString, c) :=
      headMatch_eq_some.2 ⟨sp, by rw [hc, ht]; simp, hne, hquote, hsp, hspace⟩
    rw [hmatch]
    exact some_ne_none _

/-! ### The reading -/

/-- The reading of a text meets no key with an angle. -/
def PlainKeys (p : Place) (t : Text) : Prop :=
  ∀ r key isString rest, Reads (p, t) (.paramHead, r) →
    headMatch r = some (key, isString, rest) → '>' ∉ key

theorem advance_suffix (h : advance p b = some (p', b')) : ∃ x, b = x ++ b' := by
  cases p with
  | content | name | value =>
    simp only [advance, map_eq_some_iff] at h
    obtain ⟨⟨x, y⟩, hc, heq⟩ := h
    cases heq
    exact ⟨_, Tag.split_of_cut hc⟩
  | preamble | params =>
    simp only [advance, map_eq_some_iff] at h
    obtain ⟨⟨x, g, y⟩, hc, heq⟩ := h
    cases heq
    exact ⟨_, (cutFirst_eq_some.1 hc).2⟩
  | paramHead =>
    simp only [advance] at h
    rcases hm : headMatch b with _ | ⟨key, isString, y⟩
    · simp only [hm, map_eq_some_iff] at h
      obtain ⟨⟨x, y⟩, hc, heq⟩ := h
      cases heq
      exact ⟨_, Tag.split_of_cut hc⟩
    · rw [hm] at h
      cases h
      obtain ⟨sp, hb, -⟩ := headMatch_eq_some.1 hm
      refine ⟨key ++ '"' :: (sp ++ stringAttr isString), ?_⟩
      rw [hb]
      simp

theorem advance_of_append (h : advance p (b ++ u) = some (p', b' ++ u)) :
    advance p b = some (p', b') := by
  cases p with
  | content | name | value =>
    simp only [advance, map_eq_some_iff] at h
    obtain ⟨⟨x, y⟩, hc, rfl, rfl⟩ := h
    simp only [advance, Tag.cut_of_append hc, map_some]
  | preamble =>
    simp only [advance, map_eq_some_iff] at h
    obtain ⟨⟨x, g, y⟩, hc, rfl, rfl⟩ := h
    simp only [advance, cutFirst_of_append distinct_blockTags hc, map_some]
  | params =>
    simp only [advance, map_eq_some_iff] at h
    obtain ⟨⟨x, g, y⟩, hc, rfl, rfl⟩ := h
    simp only [advance, cutFirst_of_append distinct_callTags hc, map_some]
  | paramHead =>
    simp only [advance] at h
    rcases hm : headMatch (b ++ u) with _ | ⟨key, isString, y⟩
    · have hnone : headMatch b = none := by
        rcases hb : headMatch b with _ | ⟨key, isString, y⟩
        · rfl
        · rw [headMatch_append hb u] at hm
          cases hm
      simp only [hm, map_eq_some_iff] at h
      obtain ⟨⟨x, y⟩, hc, rfl, rfl⟩ := h
      simp only [advance, hnone, Tag.cut_of_append hc, map_some]
    · simp only [hm] at h
      obtain ⟨rfl, rfl⟩ := h
      simp only [advance, headMatch_of_append hm]

theorem advance_nil (p : Place) : advance p [] = none := by
  cases p <;> rfl

theorem advance_snoc {c : Char} (h : advance p b = none)
    (hc : advance p (b ++ [c]) = some (p', b')) : b' = [] := by
  obtain ⟨x, hx⟩ := advance_suffix hc
  rcases eq_nil_or_concat b' with rfl | ⟨y, d, rfl⟩
  · rfl
  rw [concat_eq_append] at hx hc
  rw [← append_assoc] at hx
  obtain ⟨-, hd⟩ := append_inj' hx rfl
  rw [singleton_inj] at hd
  subst hd
  rw [advance_of_append hc] at h
  cases h

theorem reads_suffix {q q' : Place × Text} (h : Reads q q') : ∃ x, q.2 = x ++ q'.2 := by
  induction h using Relation.ReflTransGen.head_induction_on with
  | refl => exact ⟨[], rfl⟩
  | head hstep _ ih =>
    obtain ⟨x, hx⟩ := advance_suffix hstep
    obtain ⟨y, hy⟩ := ih
    exact ⟨x ++ y, by rw [hx, hy, append_assoc]⟩

theorem reads_before {q q' : Place × Text} (h : Reads q q') :
    ∀ x, q.2 = x ++ q'.2 → Reads (q.1, x) (q'.1, []) := by
  induction h using Relation.ReflTransGen.head_induction_on with
  | refl =>
    intro x hx
    rw [self_eq_append_left.1 hx]
    exact Relation.ReflTransGen.refl
  | @head q q₁ hstep hrest ih =>
    intro x hx
    obtain ⟨y, hy⟩ := reads_suffix hrest
    have hfirst : advance q.1 x = some (q₁.1, y) := by
      refine advance_of_append (u := q'.2) ?_
      rw [← hx, ← hy]
      exact hstep
    exact Relation.ReflTransGen.head hfirst (ih y hy)

/-! ### Texts with plain keys -/

theorem PlainKeys.of_reads {t t' : Text} (h : PlainKeys p t) (hr : Reads (p, t) (p', t')) :
    PlainKeys p' t' :=
  fun r key isString rest hr' => h r key isString rest (hr.trans hr')

theorem PlainKeys.congr {t t' : Text} (h : PlainKeys p t) (hp : p ≠ .paramHead)
    (heq : advance p t = advance p t') : PlainKeys p t' := by
  intro r key isString rest hr
  rcases hr.cases_head with hrefl | ⟨q, hstep, hrest⟩
  · exact absurd (congrArg Prod.fst hrefl) hp
  · exact h r key isString rest (Relation.ReflTransGen.head (heq.trans hstep) hrest)

theorem Goes.length (h : Goes py s b s' b' out) : b'.length < b.length := by
  cases h with
  | content hp hr | string hp hs hr => exact Tag.length_of_cut (Tag.reach_true.1 hr)
  | invoke hp hc | blockEnd hp hc | param hp hc | close hp hc hg => exact length_of_cutFirst hc
  | name hp hc | noise hp hm hc | other hp hs hc => exact Tag.length_of_cut hc
  | stringHead hp hm | otherHead hp hm =>
    obtain ⟨sp, hb, -⟩ := headMatch_eq_some.1 hm
    rw [hb]
    simp only [length_append, length_cons]
    omega

theorem Goes.append (h : Goes py s b s' b' out) (hok : PlainKeys s.place (b ++ u)) :
    Goes py s (b ++ u) s' (b' ++ u) out := by
  have hreach : ∀ {g : Tag Char} {x y}, g.reach b = (true, x, y) →
      g.reach (b ++ u) = (true, x, y ++ u) :=
    fun hr => Tag.reach_true.2 (Tag.cut_append (Tag.reach_true.1 hr) u)
  cases h with
  | content hp hr => exact Goes.content hp (hreach hr)
  | invoke hp hc => exact Goes.invoke hp (cutFirst_append distinct_blockTags hc u)
  | blockEnd hp hc => exact Goes.blockEnd hp (cutFirst_append distinct_blockTags hc u)
  | name hp hc => exact Goes.name hp (Tag.cut_append hc u)
  | param hp hc => exact Goes.param hp (cutFirst_append distinct_callTags hc u)
  | close hp hc hg => exact Goes.close hp (cutFirst_append distinct_callTags hc u) hg
  | noise hp hm hc =>
    refine Goes.noise hp ?_ (Tag.cut_append hc u)
    -- a head that the new text completes would have a key with an angle
    rcases hmu : headMatch (b ++ u) with _ | ⟨key, isString, r⟩
    · rfl
    rw [hp] at hok
    have hkey := hok _ _ _ _ Relation.ReflTransGen.refl hmu
    exact absurd hm (headMatch_of_angle hmu hkey (Tag.mark_mem_of_cut hc))
  | stringHead hp hm => exact Goes.stringHead hp (headMatch_append hm u)
  | otherHead hp hm => exact Goes.otherHead hp (headMatch_append hm u)
  | string hp hs hr => exact Goes.string hp hs (hreach hr)
  | other hp hs hc => exact Goes.other hp hs (Tag.cut_append hc u)

variable (py s b) in
theorem advance_eq : (∃ s' b' out, step py s b = .more s' b' out ∧
      advance s.place b = some (s'.place, b')) ∨
    ∃ b' out, step py s b = .wait b' out ∧ advance s.place b = none := by
  rcases goes_or_waits py s b with ⟨_, _, _, hg⟩ | ⟨_, _, hw⟩
  · exact .inl ⟨_, _, _, hg.step, hg.advance⟩
  · exact .inr ⟨_, _, hw.step, hw.advance⟩

variable (py) in
theorem advance_congr (h : Outcome.Same view out (step py s b) (step py s b')) :
    advance s.place b = advance s.place b' := by
  rcases advance_eq py s b with ⟨s₁, b₁, o₁, hs, ha⟩ | ⟨b₁, o₁, hs, ha⟩
  · rcases advance_eq py s b' with ⟨s₂, b₂, o₂, hs', ha'⟩ | ⟨b₂, o₂, hs', ha'⟩
    · rw [hs, hs'] at h
      obtain ⟨rfl, rfl, -⟩ := h
      rw [ha, ha']
    · rw [hs, hs'] at h
      exact absurd h id
  · rcases advance_eq py s b' with ⟨s₂, b₂, o₂, hs', ha'⟩ | ⟨b₂, o₂, hs', ha'⟩
    · rw [hs, hs'] at h
      exact absurd h id
    · rw [ha, ha']

theorem Waits.append (h : Waits s b b' out) :
    Outcome.Same view out (Dsml.step py s (b ++ u)) (Dsml.step py s (b' ++ u)) := by
  cases h with
  | content hp hr =>
    have hsteady : Steady view (fun _ => True) (Dsml.step py s) :=
      Steady.of_reach (fun h => (Goes.content hp h).step) (fun h => (Waits.content hp h).step)
        view_emitContent_append view_emitContent_append
    exact hsteady.wait trivial (Waits.content hp hr).step
  | string hp hs hr =>
    have hsteady : Steady view (fun _ => True) (Dsml.step py s) :=
      Steady.of_reach (fun h => (Goes.string hp hs h).step) (fun h => (Waits.string hp hs h).step)
        (view_chunk_close s.index) (view_emitChunk_append s.index)
    exact hsteady.wait trivial (Waits.string hp hs hr).step
  | quiet _ _ _ => exact Outcome.Same.refl _ _

variable (py) in
theorem resumable : Resumable (step py) view (fun s t => PlainKeys s.place t) where
  steady s := {
    shortens := fun h => (goes_iff.1 h).length
    more := fun hok h => ((goes_iff.1 h).append hok).step
    wait := fun _ h => (waits_iff.1 h).append }
  ok_more hok h := hok.of_reads (Relation.ReflTransGen.single (goes_iff.1 h).advance)
  ok_wait {s b u b' out} hok h := by
    have hw := waits_iff.1 h
    have heq := advance_congr py (hw.append (u := u))
    cases hw with
    | content hp _ | string hp _ _ => exact hok.congr (by rw [hp]; decide) heq
    | quiet _ _ _ => exact hok
  view_append := view_append

theorem view_stream_congr {ds ds' : List Text} (h : ds.flatten = ds'.flatten)
    (hok : PlainKeys .content ds.flatten) : view (stream py ds) = view (stream py ds') := by
  have hidle : process (step py) start [] = (start, [], []) := rfl
  obtain ⟨hstate, hview⟩ := (resumable py).feed_congr h hok hidle
  unfold stream
  dsimp only
  rw [hstate]
  exact view_append hview rfl

/-! ### A key with an angle -/

variable (py) in
theorem process_of_reads {q q' : Place × Text} (h : Reads q q') (hq' : q' = (.paramHead, [])) :
    ∀ s : State, s.place = q.1 → ∃ s' es, process (step py) s q.2 = (s', [], es) ∧
      s'.place = .paramHead := by
  induction h using Relation.ReflTransGen.head_induction_on with
  | refl =>
    intro s hs
    subst hq'
    have hw : Waits s [] [] [] :=
      Waits.quiet (advance_nil _) (fun hv => by rw [hs] at hv; cases hv) (by rw [hs]; decide)
    exact ⟨s, [], process_wait hw.step, hs⟩
  | @head q _ hstep _ ih =>
    intro s hs
    rcases goes_or_waits py s q.2 with ⟨s₁, b₁, o₁, hg⟩ | ⟨_, _, hw⟩
    · have hadv := hg.advance
      rw [hs, hstep, some.injEq] at hadv
      obtain ⟨s', es, hproc, hplace⟩ := ih s₁ (by rw [hadv])
      refine ⟨s', o₁ ++ es, ?_, hplace⟩
      rw [hadv] at hproc
      rw [process_more (resumable py).shortens hg.step, hproc]
    · have hadv := hw.advance
      rw [hs, hstep] at hadv
      cases hadv

theorem argsOf_args (i : ℤ) (f : Text) (es : List Emit) :
    argsOf i (.args i f :: es) = f ++ argsOf i es := by
  rw [argsOf, if_pos rfl]

variable (py) in
theorem argsOf_process_head (hp : s.place = .paramHead)
    (hm : headMatch b = some (key, isString, r)) : ∃ z,
      argsOf s.index ((process (step py) s b).2.2 ++
        finish py (process (step py) s b).1 (process (step py) s b).2.1) =
          argPrefix s.argsOpen key ++ z := by
  cases isString with
  | true =>
    have hg : Goes py s b _ _ _ := Goes.stringHead hp hm
    rw [process_more (resumable py).shortens hg.step]
    rw [append_assoc, singleton_append, argsOf_args, append_assoc]
    exact ⟨_, rfl⟩
  | false =>
    have hg : Goes py s b _ _ _ := Goes.otherHead hp hm
    rw [process_more (resumable py).shortens hg.step]
    -- the value is written at its end, or at the end of the stream
    rcases hc : paramClose.cut r with _ | ⟨x, y⟩
    · have hw : Waits { s with place := .value, curKey := key, valString := false } r r [] :=
        Waits.quiet (by simp only [advance, hc, map_none]) (fun _ => rfl) (by simp)
      rw [process_wait hw.step]
      refine ⟨dumps (dsmlValue py r false) ++ ['}'], ?_⟩
      simp [finish, argsOf]
    · have hv : Goes py { s with place := .value, curKey := key, valString := false } r _ _ _ :=
        Goes.other rfl rfl hc
      rw [process_more (resumable py).shortens hv.step]
      rw [nil_append, append_assoc, singleton_append, argsOf_args, append_assoc]
      exact ⟨_, rfl⟩

/-- Arguments that were closed, or continued with a plain key. -/
def Continued (a : Bool) (t : Text) : Prop :=
  (∃ z, t = argsEnd a ++ z) ∨ ∃ key z, '>' ∉ key ∧ '"' ∉ key ∧ t = argPrefix a key ++ z

theorem Continued.append {t : Text} (h : Continued a t) (z : Text) : Continued a (t ++ z) := by
  rcases h with ⟨z', rfl⟩ | ⟨key, z', h₁, h₂, rfl⟩
  · exact .inl ⟨z' ++ z, append_assoc _ _ _⟩
  · exact .inr ⟨key, z' ++ z, h₁, h₂, append_assoc _ _ _⟩

theorem Continued.of_key {key z : Text} (h₁ : '>' ∉ key) (h₂ : '"' ∉ key) :
    Continued a (argPrefix a key ++ z) :=
  .inr ⟨key, z, h₁, h₂, rfl⟩

/-- No key with an angle is about to be written. -/
structure Clean (s : State) (b : Text) (a : Bool) (i : ℤ) : Prop where
  index : s.index = i
  argsOpen : s.argsOpen = a
  idle : advance s.place b = none
  place : s.place = .params ∨ s.place = .paramHead ∧ '>' ∉ b ∨
    s.place = .value ∧ s.valString = false ∧ '>' ∉ s.curKey ∧ '"' ∉ s.curKey

theorem Clean.waits (h : Clean s b a i) (hadv : advance s.place u = none) : Waits s u u [] := by
  refine Waits.quiet hadv (fun hv => ?_) (fun hc => ?_)
  · rcases h.place with hp | ⟨hp, -⟩ | ⟨-, hs, -⟩
    · rw [hv] at hp
      cases hp
    · rw [hv] at hp
      cases hp
    · exact hs
  · rcases h.place with hp | ⟨hp, -⟩ | ⟨hp, -⟩ <;> rw [hc] at hp <;> cases hp

theorem headMatch_snoc {c : Char} (hb : '>' ∉ b)
    (hm : headMatch (b ++ [c]) = some (key, isString, [])) : '>' ∉ key ∧ '"' ∉ key := by
  obtain ⟨sp, hbc, -, hquote, -⟩ := headMatch_eq_some.1 hm
  obtain ⟨t, ht, -⟩ := stringAttr_angle isString
  refine ⟨fun hmem => hb ?_, hquote⟩
  have hsplit : b ++ [c] = (key ++ '"' :: (sp ++ t)) ++ ['>'] := by
    rw [hbc, ht]
    simp
  rw [(append_inj' hsplit rfl).1]
  exact mem_append_left _ hmem

variable (py) in
theorem Clean.step (h : Clean s b a i) (c : Char) {r : State × Text × List Emit}
    (hr : process (step py) s (b ++ [c]) = r) :
    Clean r.1 r.2.1 a i ∧ argsOf i r.2.2 = [] ∨ Continued a (argsOf i r.2.2) := by
  obtain rfl := h.index
  obtain rfl := h.argsOpen
  rcases goes_or_waits py s (b ++ [c]) with ⟨s₁, b₁, o₁, hg⟩ | ⟨b₁, o₁, hw⟩
  · have hnil : b₁ = [] := advance_snoc h.idle hg.advance
    rw [process_more (resumable py).shortens hg.step] at hr
    subst hnil hr
    have hquiet : Clean s₁ [] s.argsOpen s.index → o₁ = [] →
        Clean (process (Dsml.step py) s₁ []).1 (process (Dsml.step py) s₁ []).2.1 s.argsOpen
            s.index ∧ argsOf s.index (o₁ ++ (process (Dsml.step py) s₁ []).2.2) = [] := by
      rintro hclean rfl
      rw [process_wait (hclean.waits (advance_nil _)).step]
      exact ⟨hclean, rfl⟩
    have hplace := h.place
    cases hg with
    | content hp _ | invoke hp _ | blockEnd hp _ | name hp _ => simp [hp] at hplace
    | param hp _ => exact .inl (hquiet ⟨rfl, rfl, rfl, .inr (.inl ⟨rfl, by simp⟩)⟩ rfl)
    | close _ _ _ =>
      rw [singleton_append, argsOf_args]
      exact .inr (.inl ⟨_, rfl⟩)
    | noise hp _ _ =>
      exact .inl (hquiet ⟨rfl, rfl, advance_nil _, .inr (.inl ⟨hp, by simp⟩)⟩ rfl)
    | stringHead hp hm =>
      have hb : '>' ∉ b := by simpa [hp] using hplace
      obtain ⟨h₁, h₂⟩ := headMatch_snoc hb hm
      rw [singleton_append, argsOf_args, append_assoc]
      exact .inr (Continued.of_key h₁ h₂)
    | otherHead hp hm =>
      have hb : '>' ∉ b := by simpa [hp] using hplace
      exact .inl (hquiet ⟨rfl, rfl, rfl, .inr (.inr ⟨rfl, rfl, headMatch_snoc hb hm⟩)⟩ rfl)
    | string hp hs _ => simp [hp, hs] at hplace
    | other hp hs _ =>
      have hkey : '>' ∉ s.curKey ∧ '"' ∉ s.curKey := by simpa [hp, hs] using hplace
      rw [singleton_append, argsOf_args, append_assoc]
      exact .inr (Continued.of_key hkey.1 hkey.2)
  · have hw' := h.waits hw.advance
    rw [process_wait hw'.step] at hr
    subst hr
    refine .inl ⟨⟨rfl, rfl, hw.advance, ?_⟩, rfl⟩
    rcases h.place with hp | ⟨hp, -⟩ | hp
    · exact .inl hp
    · refine .inr (.inl ⟨hp, ?_⟩)
      have hadv := hw.advance
      simp only [hp, advance] at hadv
      rcases hm : headMatch (b ++ [c]) with _ | m
      · simp only [hm, map_eq_none_iff] at hadv
        exact Tag.mark_not_mem_of_cut rfl hadv
      · rw [hm] at hadv
        cases hadv
    · exact .inr (.inr hp)

variable (py) in
theorem Clean.feed : ∀ (t : Text) {s : State} {b : Text}, Clean s b a i →
    let r := feed (Dsml.step py) (s, b) (t.map fun c => [c])
    Clean r.1.1 r.1.2 a i ∧ argsOf i r.2 = [] ∨ Continued a (argsOf i r.2) := by
  intro t
  induction t with
  | nil => exact fun h => .inl ⟨h, rfl⟩
  | cons c t ih =>
    intro s b h
    simp only [map_cons, Scanner.feed, argsOf_append]
    rcases h.step py c rfl with ⟨hclean, hnil⟩ | hcont
    · rw [hnil, nil_append]
      exact ih hclean
    · exact .inr (hcont.append _)

theorem Clean.finish (h : Clean s b a i) : Continued a (argsOf i (Dsml.finish py s b)) := by
  obtain rfl := h.index
  obtain rfl := h.argsOpen
  rcases h.place with hp | ⟨hp, -⟩ | ⟨hp, hs, hkey⟩
  · simp only [Dsml.finish, hp, argsOf_args]
    exact .inl ⟨_, rfl⟩
  · simp only [Dsml.finish, hp, argsOf_args]
    exact .inl ⟨_, rfl⟩
  · simp only [Dsml.finish, hp, hs, Bool.false_eq_true, if_false, argsOf_args, append_assoc]
    exact Continued.of_key hkey.1 hkey.2

theorem not_continued {z : Text} (hkey : '>' ∈ key) (hquote : '"' ∉ key) :
    ¬ Continued a (argPrefix a key ++ z) := by
  rintro (⟨z', hz⟩ | ⟨key', z', hkey', hquote', hz⟩)
  · cases a <;> simp [argPrefix, argsEnd, quote] at hz
  · have hends : jsonEscape key ++ '"' :: ([':', ' '] ++ z) =
        jsonEscape key' ++ '"' :: ([':', ' '] ++ z') := by
      simpa [argPrefix, quote] using hz
    have htake : ∀ {k w : Text}, '"' ∉ k → (jsonEscape k ++ '"' :: w).takeWhile (· ≠ '"') =
        jsonEscape k := by
      intro k w hk
      refine (takeWhile_append_cons (fun d hd => ?_) (by simp) w).1
      exact decide_eq_true fun h : d = '"' => hk (quote_mem_jsonEscape (h ▸ hd))
    have hsame : jsonEscape key = jsonEscape key' := by
      rw [← htake hquote, ← htake hquote', hends]
    exact hkey' (angle_mem_jsonEscape.1 (hsame ▸ angle_mem_jsonEscape.2 hkey))

variable (py) in
theorem exists_view_stream_ne {t : Text} (h : ¬ PlainKeys .content t) :
    ∃ ds ds', ds.flatten = t ∧ ds'.flatten = t ∧ view (stream py ds) ≠ view (stream py ds') := by
  unfold PlainKeys at h
  push Not at h
  obtain ⟨r, key, isString, rest, hreads, hm, hkey⟩ := h
  obtain ⟨x, hx⟩ := reads_suffix hreads
  obtain ⟨s, es, hproc, hp⟩ :=
    process_of_reads py (reads_before hreads x hx) rfl start rfl
  refine ⟨[x, r], [x] ++ r.map (fun c => [c]), by simpa using hx.symm, ?_, fun hview => ?_⟩
  · rw [flatten_append, ← flatMap_def, flatMap_singleton']
    simpa using hx.symm
  have hargs := congrFun (congrArg (fun v => v.2.2) hview) s.index
  -- the whole rest at once: the key is written
  obtain ⟨z, hz⟩ := argsOf_process_head py hp hm
  have hwhole : argsOf s.index (stream py [x, r]) =
      argsOf s.index es ++ (argPrefix s.argsOpen key ++ z) := by
    simp only [stream, Scanner.feed, hproc, nil_append, append_nil, append_assoc]
    rw [argsOf_append, hz]
  -- character by character: it is not
  have hclean : Clean s [] s.argsOpen s.index :=
    ⟨rfl, rfl, advance_nil _, .inr (.inl ⟨hp, by simp⟩)⟩
  have hpieces : argsOf s.index (stream py ([x] ++ r.map fun c => [c])) = argsOf s.index es ++
        argsOf s.index ((feed (Dsml.step py) (s, []) (r.map fun c => [c])).2 ++
          Dsml.finish py (feed (Dsml.step py) (s, []) (r.map fun c => [c])).1.1
            (feed (Dsml.step py) (s, []) (r.map fun c => [c])).1.2) := by
    simp only [stream, Scanner.feed, singleton_append, hproc, nil_append, append_assoc]
    rw [argsOf_append]
  have hcont : Continued s.argsOpen
      (argsOf s.index ((feed (Dsml.step py) (s, []) (r.map fun c => [c])).2 ++
        Dsml.finish py (feed (Dsml.step py) (s, []) (r.map fun c => [c])).1.1
          (feed (Dsml.step py) (s, []) (r.map fun c => [c])).1.2)) := by
    rw [argsOf_append]
    rcases Clean.feed py r hclean with ⟨hend, hnil⟩ | hcont
    · rw [hnil, nil_append]
      exact hend.finish
    · exact hcont.append _
  dsimp only [view] at hargs
  rw [hwhole, hpieces, append_right_inj] at hargs
  rw [← hargs] at hcont
  obtain ⟨sp, -, -, hquote, -⟩ := headMatch_eq_some.1 hm
  exact not_continued hkey hquote hcont

end Dsml
end LayerStorm.Server
