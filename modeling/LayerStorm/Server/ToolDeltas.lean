import LayerStorm.Server.JsonText
import LayerStorm.Lib.Scanner

/-!
# Tool-call deltas

The streaming parsers give out plain content and tool-call deltas: the first delta of a call opens
it, and later ones carry fragments of its arguments.
-/

namespace LayerStorm.Server

open List

/-- A delta. -/
inductive Emit
  | content (t : Text)
  | opened (index : ℤ) (id name : Text)
  | args (index : ℤ) (fragment : Text)
  deriving DecidableEq

def contentOf : List Emit → Text
  | [] => []
  | .content t :: es => t ++ contentOf es
  | _ :: es => contentOf es

/-- The opened calls: index, id and name. -/
def openedOf : List Emit → List (ℤ × Text × Text)
  | [] => []
  | .opened i id name :: es => (i, id, name) :: openedOf es
  | _ :: es => openedOf es

/-- The concatenated arguments of a call. -/
def argsOf (i : ℤ) : List Emit → Text
  | [] => []
  | .args j t :: es => if j = i then t ++ argsOf i es else argsOf i es
  | _ :: es => argsOf i es

/-- What the reader of a stream puts together. -/
def view (es : List Emit) : Text × List (ℤ × Text × Text) × (ℤ → Text) :=
  (contentOf es, openedOf es, fun i => argsOf i es)

theorem contentOf_append (es es' : List Emit) :
    contentOf (es ++ es') = contentOf es ++ contentOf es' := by
  induction es with
  | nil => rfl
  | cons e es ih => cases e <;> simp [contentOf, ih]

theorem openedOf_append (es es' : List Emit) :
    openedOf (es ++ es') = openedOf es ++ openedOf es' := by
  induction es with
  | nil => rfl
  | cons e es ih => cases e <;> simp [openedOf, ih]

theorem argsOf_append (i : ℤ) (es es' : List Emit) :
    argsOf i (es ++ es') = argsOf i es ++ argsOf i es' := by
  induction es with
  | nil => rfl
  | cons e es ih =>
    cases e with
    | args j t =>
      simp only [cons_append, argsOf, ih]
      split <;> simp
    | _ => simp [argsOf, ih]

theorem view_append {o₁ o₁' o₂ o₂' : List Emit} (h₁ : view o₁ = view o₁')
    (h₂ : view o₂ = view o₂') : view (o₁ ++ o₂) = view (o₁' ++ o₂') := by
  simp only [view, Prod.mk.injEq, funext_iff] at h₁ h₂ ⊢
  simp only [contentOf_append, openedOf_append, argsOf_append, h₁, h₂, implies_true, and_self]

/-! ### Writing deltas -/

/-- Content, unless there is none. -/
def emitContent (t : Text) : List Emit := if t = [] then [] else [.content t]

/-- A part of a string value, unless there is none. -/
def emitChunk (i : ℤ) (t : Text) : List Emit := if t = [] then [] else [.args i (jsonEscape t)]

def argPrefix (argsOpen : Bool) (key : Text) : Text :=
  (if argsOpen then [',', ' '] else ['{']) ++ quote key ++ [':', ' ']

def argsEnd (argsOpen : Bool) : Text := if argsOpen then ['}'] else ['{', '}']

def callId (i : ℤ) : Text := "call_".toList ++ intText i

theorem contentOf_emitContent (t : Text) : contentOf (emitContent t) = t := by
  unfold emitContent
  split
  · next h => rw [h]; rfl
  · simp [contentOf]

theorem openedOf_emitContent (t : Text) : openedOf (emitContent t) = [] := by
  unfold emitContent
  split <;> rfl

theorem argsOf_emitContent (i : ℤ) (t : Text) : argsOf i (emitContent t) = [] := by
  unfold emitContent
  split <;> rfl

theorem view_emitContent_append (t u : Text) :
    view (emitContent (t ++ u)) = view (emitContent t ++ emitContent u) := by
  simp only [view, contentOf_append, openedOf_append, argsOf_append, contentOf_emitContent,
    openedOf_emitContent, argsOf_emitContent, append_nil]

theorem view_args_append (i : ℤ) (t u : Text) :
    view [.args i (t ++ u)] = view [.args i t, .args i u] := by
  simp only [view, contentOf, openedOf, argsOf, Prod.mk.injEq, true_and]
  funext j
  split <;> simp

theorem view_emitChunk (i : ℤ) (t : Text) : view (emitChunk i t) = view [.args i (jsonEscape t)] := by
  unfold emitChunk
  split
  · next h =>
    subst h
    simp only [view, contentOf, openedOf, argsOf, jsonEscape_nil, append_nil, ite_self]
  · rfl

theorem view_emitChunk_append (i : ℤ) (t u : Text) :
    view (emitChunk i (t ++ u)) = view (emitChunk i t ++ emitChunk i u) := by
  rw [view_append (view_emitChunk i t) (view_emitChunk i u), view_emitChunk, jsonEscape_append,
    view_args_append]
  rfl

theorem view_chunk_close (i : ℤ) (t u : Text) : view [.args i (jsonEscape (t ++ u) ++ ['"'])] =
      view (emitChunk i t ++ [.args i (jsonEscape u ++ ['"'])]) := by
  rw [view_append (view_emitChunk i t) rfl, jsonEscape_append, append_assoc, view_args_append]
  rfl

/-! ### How far a call is written -/

/-- How far the arguments of a call are written. -/
inductive CallShape
  /-- The call is not yet opened. -/
  | pending
  /-- Nothing is written. -/
  | fresh
  /-- Some members are written. -/
  | members
  /-- A string value is being written. -/
  | text
  /-- The arguments are complete. -/
  | closed

/-- What is written of the call's arguments. -/
def HasShape (es : List Emit) (i : ℤ) : CallShape → Prop
  | .pending => argsOf i es = [] ∧ ∀ c ∈ openedOf es, c.1 ≠ i
  | .fresh => argsOf i es = []
  | .members => ∃ m, IsMembers m ∧ argsOf i es = '{' :: m
  | .text => ∃ t, argsOf i es = '{' :: t ∧ ∀ s, IsChars s → IsMembers (t ++ s ++ ['"'])
  | .closed => ∀ c ∈ openedOf es, c.1 = i → IsObject (argsOf i es)

/-- The shape between two arguments. -/
def openShape (argsOpen : Bool) : CallShape := if argsOpen then .members else .fresh

/-- The calls up to the current one are written in order. -/
structure Tidy (es : List Emit) (cur : ℤ) (shape : CallShape) : Prop where
  done : ∀ c ∈ openedOf es, c.1 < cur → IsObject (argsOf c.1 es)
  opened_le : ∀ c ∈ openedOf es, c.1 ≤ cur
  silent : ∀ i, cur < i → argsOf i es = []
  shape : HasShape es cur shape

namespace Tidy

variable {es out : List Emit} {cur : ℤ} {sh : CallShape} {argsOpen : Bool} {f : Text}

theorem isObject (h : Tidy es cur sh) (hsh : sh = .pending ∨ sh = .closed) :
    ∀ c ∈ openedOf es, IsObject (argsOf c.1 es) := by
  intro c hc
  rcases lt_or_eq_of_le (h.opened_le c hc) with hlt | heq
  · exact h.done c hc hlt
  rcases hsh with rfl | rfl
  · exact absurd heq (h.shape.2 c hc)
  · rw [heq]
    exact h.shape c hc heq

theorem start : Tidy [] (-1) .closed where
  done _ hc := absurd hc not_mem_nil
  opened_le _ hc := absurd hc not_mem_nil
  silent _ _ := rfl
  shape _ hc := absurd hc not_mem_nil

theorem nil (h : Tidy es cur sh) : Tidy (es ++ []) cur sh := by
  rwa [append_nil]

theorem content (h : Tidy es cur sh) (t : Text) : Tidy (es ++ emitContent t) cur sh := by
  have hargs : ∀ i, argsOf i (es ++ emitContent t) = argsOf i es := by
    intro i
    rw [argsOf_append, argsOf_emitContent, append_nil]
  have hopened : openedOf (es ++ emitContent t) = openedOf es := by
    rw [openedOf_append, openedOf_emitContent, append_nil]
  refine ⟨?_, ?_, ?_, ?_⟩
  · simpa only [hargs, hopened] using h.done
  · simpa only [hopened] using h.opened_le
  · simpa only [hargs] using h.silent
  · have hshape := h.shape
    cases sh <;> simpa only [HasShape, hargs, hopened] using hshape

theorem next (h : Tidy es cur .closed) : Tidy es (cur + 1) .pending where
  done c hc _ := h.isObject (.inr rfl) c hc
  opened_le c hc := (h.opened_le c hc).trans (by omega)
  silent i hi := h.silent i (by omega)
  shape := ⟨h.silent _ (by omega), fun c hc heq => absurd (h.opened_le c hc) (by omega)⟩

theorem opened (h : Tidy es cur .pending) (id name : Text) :
    Tidy (es ++ [.opened cur id name]) cur .fresh := by
  have hargs : ∀ i, argsOf i (es ++ [.opened cur id name]) = argsOf i es := by
    intro i
    rw [argsOf_append]
    exact append_nil _
  have hopened : ∀ c ∈ openedOf (es ++ [.opened cur id name]), c ∈ openedOf es ∨ c.1 = cur := by
    intro c hc
    rw [openedOf_append, mem_append] at hc
    rcases hc with hc | hc
    · exact .inl hc
    · right
      rw [mem_singleton.1 hc]
  refine ⟨fun c hc hlt => ?_, fun c hc => ?_, fun i hi => ?_, ?_⟩
  · rw [hargs]
    rcases hopened c hc with hc' | rfl
    · exact h.done c hc' hlt
    · exact absurd hlt (lt_irrefl _)
  · rcases hopened c hc with hc' | heq
    · exact h.opened_le c hc'
    · exact heq.le
  · rw [hargs]
    exact h.silent i hi
  · exact (hargs cur).trans h.shape.1

theorem args {sh' : CallShape} (h : Tidy es cur sh)
    (hshape : HasShape (es ++ [.args cur f]) cur sh') : Tidy (es ++ [.args cur f]) cur sh' := by
  have hargs : ∀ i, i ≠ cur → argsOf i (es ++ [.args cur f]) = argsOf i es := by
    intro i hi
    rw [argsOf_append, argsOf, if_neg (Ne.symm hi)]
    exact append_nil _
  have hopened : openedOf (es ++ [.args cur f]) = openedOf es := by
    rw [openedOf_append]
    exact append_nil _
  refine ⟨fun c hc hlt => ?_, fun c hc => ?_, fun i hi => ?_, hshape⟩
  · rw [hargs c.1 (by omega)]
    exact h.done c (hopened ▸ hc) hlt
  · exact h.opened_le c (hopened ▸ hc)
  · rw [hargs i (by omega)]
    exact h.silent i hi

theorem argsOf_fragment (i : ℤ) (f : Text) : argsOf i (es ++ [.args i f]) = argsOf i es ++ f := by
  rw [argsOf_append, argsOf, if_pos rfl]
  exact congrArg _ (append_nil f)

theorem members_prefix (h : HasShape es cur (openShape argsOpen)) (key : Text) {v : Text}
    (hv : IsValue v) : ∃ m, IsMembers m ∧
      argsOf cur es ++ (argPrefix argsOpen key ++ v) = '{' :: m := by
  cases argsOpen with
  | true =>
    obtain ⟨m, hm, hargs⟩ := h
    refine ⟨_, (isMembers_member (k := key) hv).2 m hm, ?_⟩
    rw [hargs, argPrefix]
    simp
  | false =>
    have hargs : argsOf cur es = [] := h
    refine ⟨_, (isMembers_member (k := key) hv).1, ?_⟩
    rw [hargs, argPrefix]
    simp

theorem prefix_value (h : Tidy es cur (openShape argsOpen)) (key : Text) {v : Text}
    (hv : IsValue v) : Tidy (es ++ [.args cur (argPrefix argsOpen key ++ v)]) cur .members := by
  refine h.args ?_
  obtain ⟨m, hm, hargs⟩ := members_prefix h.shape key hv
  exact ⟨m, hm, (argsOf_fragment _ _).trans hargs⟩

theorem prefix_text (h : Tidy es cur (openShape argsOpen)) (key : Text) :
    Tidy (es ++ [.args cur (argPrefix argsOpen key ++ ['"'])]) cur .text := by
  refine h.args ?_
  have hend : ∀ s, IsChars s → ∃ m, IsMembers m ∧
      argsOf cur es ++ (argPrefix argsOpen key ++ ['"']) ++ s ++ ['"'] = '{' :: m := by
    intro s hs
    obtain ⟨m, hm, hargs⟩ := members_prefix h.shape key (IsValue.string ⟨s, hs, rfl⟩)
    exact ⟨m, hm, by rw [← hargs]; simp⟩
  -- the brace is there already
  obtain ⟨t, ht⟩ : ∃ t, argsOf cur es ++ (argPrefix argsOpen key ++ ['"']) = '{' :: t := by
    cases argsOpen with
    | true =>
      obtain ⟨m, -, hargs⟩ := h.shape
      exact ⟨_, by rw [hargs, cons_append]⟩
    | false =>
      have hargs : argsOf cur es = [] := h.shape
      exact ⟨_, by rw [hargs, argPrefix]; rfl⟩
  refine ⟨t, (argsOf_fragment _ _).trans ht, fun s hs => ?_⟩
  obtain ⟨m, hm, heq⟩ := hend s hs
  rw [ht, cons_append, cons_append, cons.injEq] at heq
  rw [heq.2]
  exact hm

theorem text (h : Tidy es cur .text) (t : Text) : Tidy (es ++ emitChunk cur t) cur .text := by
  unfold emitChunk
  split
  · exact h.nil
  refine h.args ?_
  obtain ⟨t₀, hargs, hend⟩ := h.shape
  refine ⟨t₀ ++ jsonEscape t, ?_, fun s hs => ?_⟩
  · rw [argsOf_fragment, hargs, cons_append]
  · rw [append_assoc t₀]
    exact hend _ (isChars_append (isChars_jsonEscape t) hs)

theorem text_end (h : Tidy es cur .text) (t : Text) :
    Tidy (es ++ [.args cur (jsonEscape t ++ ['"'])]) cur .members := by
  refine h.args ?_
  obtain ⟨t₀, hargs, hend⟩ := h.shape
  refine ⟨_, hend _ (isChars_jsonEscape t), ?_⟩
  rw [argsOf_fragment, hargs]
  simp

variable (argsOpen) in
theorem close (h : Tidy es cur (openShape argsOpen)) :
    Tidy (es ++ [.args cur (argsEnd argsOpen)]) cur .closed := by
  refine h.args ?_
  intro c _ _
  rw [argsOf_fragment]
  cases argsOpen with
  | true =>
    obtain ⟨m, hm, hargs⟩ := h.shape
    rw [hargs]
    exact IsObject.members hm
  | false =>
    have hargs : argsOf cur es = [] := h.shape
    rw [hargs]
    exact IsObject.empty isWs_nil

theorem merge {f' : Text} (h : Tidy (es ++ [.args cur f] ++ [.args cur f']) cur sh) :
    Tidy (es ++ [.args cur (f ++ f')]) cur sh := by
  have hargs : ∀ i, argsOf i (es ++ [.args cur (f ++ f')]) =
      argsOf i (es ++ [.args cur f] ++ [.args cur f']) := by
    intro i
    simp only [argsOf_append, argsOf]
    split <;> simp
  have hopened : openedOf (es ++ [.args cur (f ++ f')]) =
      openedOf (es ++ [.args cur f] ++ [.args cur f']) := by
    simp [openedOf_append, openedOf]
  refine ⟨?_, ?_, ?_, ?_⟩
  · simpa only [hargs, hopened] using h.done
  · simpa only [hopened] using h.opened_le
  · simpa only [hargs] using h.silent
  · have hshape := h.shape
    cases sh <;> simpa only [HasShape, hargs, hopened] using hshape

end Tidy

end LayerStorm.Server
