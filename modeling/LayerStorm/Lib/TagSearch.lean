import Mathlib.Tactic

/-!
# Searching a growing text for tags

A tag begins with a mark that does not occur in the rest of it, so two occurrences of tags with
one mark do not overlap.  A tag that is found in a text stays where it is when the text grows, and
if none is found, only a suffix that is the beginning of the tag has to be kept.
-/

namespace LayerStorm.Lib

open List Nat

variable {α : Type*}

/-- A tag: a mark, and characters other than the mark behind it. -/
structure Tag (α : Type*) where
  mark : α
  rest : List α
  mark_not_mem : mark ∉ rest
  deriving DecidableEq

namespace Tag

def text (g : Tag α) : List α := g.mark :: g.rest

theorem length_text_pos (g : Tag α) : 0 < g.text.length := succ_pos _

theorem text_ne_nil (g : Tag α) : g.text ≠ [] := cons_ne_nil _ _

def At (g : Tag α) (t : List α) (n : ℕ) : Prop := g.text <+: t.drop n

variable {g g' : Tag α} {t u : List α} {n m : ℕ}

theorem At.le (h : g.At t n) : n + g.text.length ≤ t.length := by
  have hlen := h.length_le
  have hpos := g.length_text_pos
  rw [length_drop] at hlen
  omega

theorem At.append (h : g.At t n) (u : List α) : g.At (t ++ u) n := by
  have hle := h.le
  unfold At
  rw [drop_append_of_le_length (by omega)]
  exact h.trans (prefix_append _ _)

theorem At.of_append (h : g.At (t ++ u) n) (hle : n + g.text.length ≤ t.length) : g.At t n := by
  unfold At at h ⊢
  rw [drop_append_of_le_length (by omega)] at h
  exact prefix_of_prefix_length_le h (prefix_append _ _) (by rw [length_drop]; omega)

theorem at_append_right (e : List α) : g.At (e ++ t) (e.length + n) ↔ g.At t n := by
  unfold At
  rw [drop_length_add_append]

theorem At.split (h : g.At t n) : t.take n ++ g.text ++ t.drop (n + g.text.length) = t := by
  obtain ⟨z, hz⟩ := h
  have hdrop : t.drop (n + g.text.length) = z := by
    rw [← drop_drop, ← hz, drop_left]
  rw [hdrop, append_assoc, hz, take_append_drop]

theorem At.mark (h : g.At t n) : t[n]? = some g.mark := by
  obtain ⟨z, hz⟩ := h
  have hhead : (t.drop n)[0]? = some g.mark := by
    rw [← hz]
    rfl
  rwa [getElem?_drop, add_zero] at hhead

theorem At.disjoint (h : g.At t n) (h' : g'.At t m) (hmark : g.mark = g'.mark) (hnm : n < m) :
    n + g.text.length ≤ m := by
  by_contra hlt
  obtain ⟨z, hz⟩ := h
  obtain ⟨k, rfl⟩ : ∃ k, m = n + (k + 1) := ⟨m - n - 1, by omega⟩
  have hk : k < g.rest.length := by
    simp only [text, length_cons] at hlt
    omega
  have hget : (t.drop n)[k + 1]? = g.rest[k]? := by
    rw [← hz, text, cons_append, getElem?_cons_succ, getElem?_append_left hk]
  rw [getElem?_drop, h'.mark, getElem?_eq_getElem hk, Option.some.injEq] at hget
  exact g.mark_not_mem (by rw [hmark, hget]; exact getElem_mem hk)

theorem At.prefix_or (h : g.At t n) (h' : g'.At t n) : g.text <+: g'.text ∨ g'.text <+: g.text :=
  prefix_or_prefix_of_prefix h h'

variable [DecidableEq α]

/-- The position of the first occurrence. -/
def indexOf (g : Tag α) : List α → Option ℕ
  | [] => none
  | c :: t => if g.text.isPrefixOf (c :: t) then some 0 else (g.indexOf t).map (· + 1)

theorem indexOf_eq_some : ∀ {t : List α} {n : ℕ},
    g.indexOf t = some n ↔ g.At t n ∧ ∀ m < n, ¬ g.At t m := by
  intro t
  induction t with
  | nil =>
    intro n
    constructor
    · intro h
      cases h
    · rintro ⟨h, -⟩
      have hle := h.le
      have hpos := g.length_text_pos
      rw [length_nil] at hle
      omega
  | cons c t ih =>
    intro n
    have hsucc : ∀ k, g.At (c :: t) (k + 1) ↔ g.At t k := fun k => Iff.rfl
    unfold indexOf
    split
    · next h =>
      have hat : g.At (c :: t) 0 := isPrefixOf_iff_prefix.1 h
      constructor
      · intro hn
        cases hn
        exact ⟨hat, fun m hm => absurd hm (not_lt_zero m)⟩
      · rintro ⟨-, hfirst⟩
        rcases Nat.eq_zero_or_pos n with rfl | hpos
        · rfl
        · exact absurd hat (hfirst 0 hpos)
    · next h =>
      have hnot : ¬ g.At (c :: t) 0 := fun hat => h (List.isPrefixOf_iff_prefix.2 hat)
      cases n with
      | zero =>
        constructor
        · intro hn
          cases hi : g.indexOf t with
          | none | some i =>
            rw [hi] at hn
            cases hn
        · rintro ⟨hat, -⟩
          exact absurd hat hnot
      | succ n =>
        simp only [Option.map_eq_some_iff, add_right_cancel_iff, exists_eq_right, ih]
        refine and_congr_right fun _ => ⟨fun hfirst m hm => ?_, fun hfirst m hm => ?_⟩
        · cases m with
          | zero => exact hnot
          | succ m => exact fun hat => hfirst m (by omega) ((hsucc m).1 hat)
        · exact fun hat => hfirst (m + 1) (by omega) ((hsucc m).2 hat)

theorem at_of_indexOf (h : g.indexOf t = some n) : g.At t n := (indexOf_eq_some.1 h).1

theorem not_at_of_lt (h : g.indexOf t = some n) (hm : m < n) : ¬ g.At t m :=
  (indexOf_eq_some.1 h).2 m hm

theorem indexOf_of_first (hat : g.At t n) (hfirst : ∀ m < n, ¬ g.At t m) : g.indexOf t = some n :=
  indexOf_eq_some.2 ⟨hat, hfirst⟩

theorem indexOf_eq_none : g.indexOf t = none ↔ ∀ n, ¬ g.At t n := by
  constructor
  · intro h n hat
    -- the first occurrence would have been found
    classical
    have hex : ∃ n, g.At t n := ⟨n, hat⟩
    have hfind : g.indexOf t = some (Nat.find hex) :=
      indexOf_of_first (Nat.find_spec hex) fun m hm => Nat.find_min hex hm
    rw [h] at hfind
    cases hfind
  · intro h
    cases hi : g.indexOf t with
    | none => rfl
    | some n => exact absurd (at_of_indexOf hi) (h n)

theorem indexOf_le (h : g.indexOf t = some n) : n + g.text.length ≤ t.length :=
  (at_of_indexOf h).le

theorem indexOf_append (h : g.indexOf t = some n) (u : List α) : g.indexOf (t ++ u) = some n := by
  have hat := at_of_indexOf h
  refine indexOf_of_first (hat.append u) fun m hm hat' => not_at_of_lt h hm (hat'.of_append ?_)
  have hle := hat.le
  omega

theorem indexOf_of_append (h : g.indexOf (t ++ u) = some n) (hle : n + g.text.length ≤ t.length) :
    g.indexOf t = some n := by
  exact indexOf_of_first ((at_of_indexOf h).of_append hle)
    fun m hm hat' => not_at_of_lt h hm (hat'.append u)

theorem not_at_of_indexOf_none (h : g.indexOf t = none) (n : ℕ) : ¬ g.At t n :=
  indexOf_eq_none.1 h n

theorem lt_of_indexOf_none (h : g.indexOf t = none) (hu : g.At (t ++ u) n) :
    t.length < n + g.text.length := by
  by_contra hle
  exact not_at_of_indexOf_none h n (hu.of_append (by omega))

/-! ### Cutting a text at a tag -/

/-- What stands before the first occurrence, and what behind it. -/
def cut (g : Tag α) (t : List α) : Option (List α × List α) :=
  (g.indexOf t).map fun n => (t.take n, t.drop (n + g.text.length))

variable {x y : List α}

theorem cut_eq_some : g.cut t = some (x, y) ↔
    g.indexOf t = some x.length ∧ t = x ++ g.text ++ y := by
  unfold cut
  rw [Option.map_eq_some_iff]
  constructor
  · rintro ⟨n, hn, hxy⟩
    cases hxy
    have hle := indexOf_le hn
    have hlen : (t.take n).length = n := by
      rw [length_take]
      omega
    rw [hlen]
    exact ⟨hn, (at_of_indexOf hn).split.symm⟩
  · rintro ⟨hn, rfl⟩
    refine ⟨x.length, hn, ?_⟩
    rw [append_assoc, take_left, ← append_assoc, ← length_append, drop_left]

theorem cut_eq_none : g.cut t = none ↔ g.indexOf t = none := Option.map_eq_none_iff

theorem indexOf_of_cut (h : g.cut t = some (x, y)) : g.indexOf t = some x.length :=
  (cut_eq_some.1 h).1

theorem split_of_cut (h : g.cut t = some (x, y)) : t = x ++ g.text ++ y := (cut_eq_some.1 h).2

theorem cut_of_indexOf (h : g.indexOf t = some x.length) (ht : t = x ++ g.text ++ y) :
    g.cut t = some (x, y) :=
  cut_eq_some.2 ⟨h, ht⟩

theorem length_of_cut (h : g.cut t = some (x, y)) : y.length < t.length := by
  obtain rfl := split_of_cut h
  have hpos := g.length_text_pos
  rw [length_append, length_append]
  omega

theorem mark_mem_of_cut (h : g.cut t = some (x, y)) : g.mark ∈ t := by
  rw [split_of_cut h]
  simp [text]

theorem mark_not_mem_of_cut (hrest : g.rest = []) (h : g.cut t = none) : g.mark ∉ t := by
  intro hmem
  obtain ⟨x, y, rfl⟩ := append_of_mem hmem
  refine not_at_of_indexOf_none (cut_eq_none.1 h) x.length ?_
  unfold At
  rw [drop_left, text, hrest]
  exact ⟨y, rfl⟩

theorem cut_append (h : g.cut t = some (x, y)) (u : List α) : g.cut (t ++ u) = some (x, y ++ u) := by
  refine cut_of_indexOf (indexOf_append (indexOf_of_cut h) u) ?_
  rw [split_of_cut h, append_assoc]

theorem cut_of_append {u : List α} (h : g.cut (t ++ u) = some (x, y ++ u)) :
    g.cut t = some (x, y) := by
  have ht := split_of_cut h
  rw [← append_assoc, append_left_inj] at ht
  refine cut_of_indexOf (indexOf_of_append (indexOf_of_cut h) ?_) ht
  rw [ht, length_append, length_append]
  omega

end Tag

/-! ### The suffix that has to be kept -/

section Partial

variable [DecidableEq α]

/-- The search of `partialTagLen`, from a length downwards. -/
def partialTagLenFrom (t tag : List α) : ℕ → ℕ
  | 0 => 0
  | k + 1 =>
    if (t.drop (t.length - (k + 1))).isPrefixOf tag then k + 1 else partialTagLenFrom t tag k

/-- The length of the longest suffix of a text that is a proper prefix of a tag. -/
def partialTagLen (t tag : List α) : ℕ :=
  partialTagLenFrom t tag (min t.length (tag.length - 1))

theorem partialTagLenFrom_spec (t tag : List α) : ∀ k, partialTagLenFrom t tag k ≤ k ∧
      t.drop (t.length - partialTagLenFrom t tag k) <+: tag ∧
        ∀ j ≤ k, t.drop (t.length - j) <+: tag → j ≤ partialTagLenFrom t tag k := by
  intro k
  induction k with
  | zero =>
    refine ⟨le_refl 0, ?_, fun j hj _ => hj⟩
    simp [partialTagLenFrom]
  | succ k ih =>
    unfold partialTagLenFrom
    split
    · next h => exact ⟨le_refl _, isPrefixOf_iff_prefix.1 h, fun j hj _ => hj⟩
    next h =>
    refine ⟨ih.1.trans (le_succ k), ih.2.1, fun j hj hpre => ?_⟩
    rcases lt_or_ge k j with hlt | hle
    · have hjk : j = k + 1 := by omega
      subst hjk
      exact absurd (List.isPrefixOf_iff_prefix.2 hpre) h
    · exact ih.2.2 j hle hpre

theorem partialTagLen_le (t tag : List α) : partialTagLen t tag ≤ t.length :=
  ((partialTagLenFrom_spec t tag _).1).trans (min_le_left _ _)

theorem partialTagLen_lt (t : List α) {tag : List α} (htag : tag ≠ []) :
    partialTagLen t tag < tag.length := by
  have h := (partialTagLenFrom_spec t tag (min t.length (tag.length - 1))).1
  have hpos := length_pos_of_ne_nil htag
  unfold partialTagLen
  omega

theorem le_partialTagLen {t tag : List α} {j : ℕ} (ht : j ≤ t.length) (htag : j < tag.length)
    (h : t.drop (t.length - j) <+: tag) : j ≤ partialTagLen t tag :=
  (partialTagLenFrom_spec t tag _).2.2 j (by omega) h

theorem drop_partialTagLen (t tag : List α) : t.drop (t.length - partialTagLen t tag) <+: tag :=
  (partialTagLenFrom_spec t tag _).2.1

theorem le_of_ends_behind {tag t u : List α} {n : ℕ} (hlt : t.length < n + tag.length)
    (hu : tag <+: (t ++ u).drop n) : t.length - partialTagLen t tag ≤ n := by
  rcases lt_or_ge n t.length with hn | hn
  · -- what is left of the text behind `n` is the beginning of the tag
    have hpre : t.drop n <+: tag := by
      obtain ⟨z, hz⟩ := hu
      rw [drop_append_of_le_length hn.le] at hz
      refine prefix_of_prefix_length_le (prefix_append (t.drop n) u) ?_ ?_
      · exact hz ▸ prefix_append _ _
      · rw [length_drop]
        omega
    have hj : t.length - n ≤ partialTagLen t tag :=
      le_partialTagLen (by omega) (by omega) (by rwa [Nat.sub_sub_self hn.le])
    omega
  · omega

theorem Tag.le_of_indexOf_none {g : Tag α} {t u : List α} {n : ℕ} (h : g.indexOf t = none)
    (hu : g.At (t ++ u) n) : t.length - partialTagLen t g.text ≤ n :=
  le_of_ends_behind (lt_of_indexOf_none h hu) hu

/-- **Searching the kept suffix** is as good as searching the whole text. -/
theorem Tag.indexOf_held {g : Tag α} {e h : List α} (hnone : g.indexOf (e ++ h) = none)
    (hlen : h.length = partialTagLen (e ++ h) g.text) (u : List α) :
    g.indexOf (e ++ h ++ u) = (g.indexOf (h ++ u)).map (e.length + ·) := by
  have hle : ∀ {n}, g.At (e ++ h ++ u) n → e.length ≤ n := by
    intro n hat
    have hkeep := le_of_indexOf_none hnone hat
    rw [length_append] at hkeep
    omega
  have hshift : ∀ n, g.At (e ++ h ++ u) (e.length + n) ↔ g.At (h ++ u) n := by
    intro n
    rw [append_assoc]
    exact at_append_right e
  cases hi : g.indexOf (h ++ u) with
  | none =>
    rw [Option.map_none, indexOf_eq_none]
    intro n hat
    obtain ⟨k, rfl⟩ := Nat.exists_eq_add_of_le (hle hat)
    exact not_at_of_indexOf_none hi k ((hshift k).1 hat)
  | some i =>
    obtain ⟨hat, hfirst⟩ := indexOf_eq_some.1 hi
    rw [Option.map_some, indexOf_eq_some]
    refine ⟨(hshift i).2 hat, fun m hm hat' => ?_⟩
    obtain ⟨k, rfl⟩ := Nat.exists_eq_add_of_le (hle hat')
    exact hfirst k (by omega) ((hshift k).1 hat')

theorem partialTagLen_held {tag e h : List α} (htag : tag ≠ [])
    (hlen : h.length = partialTagLen (e ++ h) tag) (u : List α) :
    partialTagLen (e ++ h ++ u) tag = partialTagLen (h ++ u) tag := by
  have hdrop : ∀ j ≤ (h ++ u).length,
      (e ++ h ++ u).drop ((e ++ h ++ u).length - j) = (h ++ u).drop ((h ++ u).length - j) := by
    intro j hj
    rw [List.append_assoc, List.length_append, Nat.add_sub_assoc hj, List.drop_length_add_append]
  refine le_antisymm ?_ ?_
  · -- a longer suffix would have been kept before
    have hlt := partialTagLen_lt (e ++ h ++ u) htag
    have hpre := drop_partialTagLen (e ++ h ++ u) tag
    set j := partialTagLen (e ++ h ++ u) tag
    have hj : j ≤ (h ++ u).length := by
      by_contra hgt
      have hjle : j ≤ (e ++ h ++ u).length := partialTagLen_le _ _
      have hkeep : j - u.length ≤ partialTagLen (e ++ h) tag := by
        simp only [length_append] at hgt hjle
        refine le_partialTagLen (by simp only [length_append]; omega) (by omega) ?_
        refine List.IsPrefix.trans ?_ hpre
        have hsame : (e ++ h ++ u).length - j = (e ++ h).length - (j - u.length) := by
          simp only [length_append]
          omega
        have hsplit : (e ++ h ++ u).drop ((e ++ h).length - (j - u.length)) =
            (e ++ h).drop ((e ++ h).length - (j - u.length)) ++ u :=
          drop_append_of_le_length (sub_le _ _)
        rw [hsame, hsplit]
        exact prefix_append _ _
      simp only [length_append] at hgt
      omega
    rw [hdrop j hj] at hpre
    exact le_partialTagLen hj hlt hpre
  · have hlt := partialTagLen_lt (h ++ u) htag
    have hle := partialTagLen_le (h ++ u) tag
    have hpre := drop_partialTagLen (h ++ u) tag
    rw [← hdrop _ hle] at hpre
    refine le_partialTagLen ?_ hlt hpre
    rw [append_assoc, length_append]
    omega

/-- Give out a text up to a tag: whether the tag was found, what is given out, and what is left.
Where the tag may have begun, its beginning is kept. -/
def Tag.reach (g : Tag α) (t : List α) : Bool × List α × List α :=
  match g.cut t with
  | some (x, y) => (true, x, y)
  | none =>
    let hold := partialTagLen t g.text
    (false, t.take (t.length - hold), t.drop (t.length - hold))

namespace Tag

variable {g : Tag α} {t x y : List α}

theorem reach_true : g.reach t = (true, x, y) ↔ g.cut t = some (x, y) := by
  unfold reach
  cases h : g.cut t with
  | none => simp
  | some p => simp [Prod.ext_iff]

theorem reach_false (h : g.reach t = (false, x, y)) :
    g.indexOf t = none ∧ t = x ++ y ∧ y.length = partialTagLen t g.text := by
  unfold reach at h
  cases hc : g.cut t with
  | some p =>
    rw [hc] at h
    cases h
  | none =>
    rw [hc] at h
    obtain ⟨-, hxy⟩ := Prod.mk.inj h
    cases hxy
    have hle := partialTagLen_le t g.text
    refine ⟨cut_eq_none.1 hc, (take_append_drop _ t).symm, ?_⟩
    rw [length_drop]
    omega

theorem reach_held (h : g.reach t = (false, x, y)) (u : List α) :
    g.reach (t ++ u) = ((g.reach (y ++ u)).1, x ++ (g.reach (y ++ u)).2.1,
      (g.reach (y ++ u)).2.2) := by
  obtain ⟨hnone, rfl, hlen⟩ := reach_false h
  have hidx := indexOf_held hnone hlen u
  unfold reach cut
  rw [hidx]
  cases hi : g.indexOf (y ++ u) with
  | some i =>
    simp only [Option.map_some]
    rw [append_assoc, take_length_add_append, add_assoc, drop_length_add_append]
  | none =>
    simp only [Option.map_none]
    have hle := partialTagLen_le (y ++ u) g.text
    have hsub : (x ++ y ++ u).length - partialTagLen (y ++ u) g.text =
        x.length + ((y ++ u).length - partialTagLen (y ++ u) g.text) := by
      simp only [length_append] at hle ⊢
      omega
    rw [partialTagLen_held g.text_ne_nil hlen u, hsub, append_assoc, take_length_add_append,
      drop_length_add_append]

end Tag

end Partial

/-! ### The earliest of several tags -/

section First

variable [DecidableEq α]

/-- The position of the earliest of several tags, and the tag. -/
def firstTag : List (Tag α) → List α → Option (ℕ × Tag α)
  | [], _ => none
  | g :: gs, t =>
    match g.indexOf t, firstTag gs t with
    | none, r => r
    | some i, none => some (i, g)
    | some i, some (j, g') => if j < i then some (j, g') else some (i, g)

theorem firstTag_eq_none {t : List α} : ∀ {gs : List (Tag α)},
    firstTag gs t = none ↔ ∀ g ∈ gs, g.indexOf t = none := by
  intro gs
  induction gs with
  | nil => simp [firstTag]
  | cons g gs ih =>
    rw [forall_mem_cons, ← ih, firstTag]
    cases g.indexOf t with
    | none => simp
    | some i =>
      cases firstTag gs t with
      | none => simp
      | some r =>
        simp only
        split <;> simp

theorem firstTag_spec {t : List α} : ∀ {gs : List (Tag α)} {i : ℕ} {g : Tag α},
    firstTag gs t = some (i, g) →
      g ∈ gs ∧ g.indexOf t = some i ∧ ∀ g' ∈ gs, ∀ j, g'.indexOf t = some j → i ≤ j := by
  intro gs
  induction gs with
  | nil =>
    intro i g h
    cases h
  | cons g₀ gs ih =>
    intro i g h
    rw [firstTag] at h
    cases h₀ : g₀.indexOf t with
    | none =>
      rw [h₀] at h
      obtain ⟨hmem, hi, hmin⟩ := ih h
      refine ⟨mem_cons_of_mem _ hmem, hi, forall_mem_cons.2 ⟨fun j hj => ?_, hmin⟩⟩
      rw [h₀] at hj
      cases hj
    | some i₀ =>
      rw [h₀] at h
      cases hr : firstTag gs t with
      | none =>
        rw [hr] at h
        cases h
        refine ⟨mem_cons_self, h₀, forall_mem_cons.2 ⟨fun j hj => ?_, ?_⟩⟩
        · rw [h₀] at hj
          cases hj
          exact le_refl i
        · intro g' hg' j hj
          rw [firstTag_eq_none.1 hr g' hg'] at hj
          cases hj
      | some r =>
        obtain ⟨hmem, hi, hmin⟩ := ih hr
        rw [hr] at h
        dsimp only at h
        split at h
        · next hlt =>
          cases h
          refine ⟨mem_cons_of_mem _ hmem, hi, forall_mem_cons.2 ⟨fun j hj => ?_, hmin⟩⟩
          rw [h₀] at hj
          cases hj
          exact hlt.le
        · next hge =>
          cases h
          refine ⟨mem_cons_self, h₀, forall_mem_cons.2 ⟨fun j hj => ?_, ?_⟩⟩
          · rw [h₀] at hj
            cases hj
            exact le_refl i
          · intro g' hg' j hj
            exact (Nat.le_of_not_lt hge).trans (hmin g' hg' j hj)

/-- Tags that can be told apart at the place where they stand. -/
structure Distinct (gs : List (Tag α)) : Prop where
  mark : ∀ g ∈ gs, ∀ g' ∈ gs, g.mark = g'.mark
  eq_of_prefix : ∀ g ∈ gs, ∀ g' ∈ gs, g.text <+: g'.text → g = g'

theorem firstTag_eq_some {t : List α} {gs : List (Tag α)} (hgs : Distinct gs) {i : ℕ}
    {g : Tag α} : firstTag gs t = some (i, g) ↔
      g ∈ gs ∧ g.indexOf t = some i ∧ ∀ g' ∈ gs, ∀ j, g'.indexOf t = some j → i ≤ j := by
  refine ⟨firstTag_spec, fun h => ?_⟩
  obtain ⟨hmem, hi, hmin⟩ := h
  cases hr : firstTag gs t with
  | none =>
    rw [firstTag_eq_none.1 hr g hmem] at hi
    cases hi
  | some r =>
    obtain ⟨j, g'⟩ := r
    obtain ⟨hmem', hj, hmin'⟩ := firstTag_spec hr
    have hij : i = j := le_antisymm (hmin g' hmem' j hj) (hmin' g hmem i hi)
    subst hij
    have hat := Tag.at_of_indexOf hi
    have hat' := Tag.at_of_indexOf hj
    rcases hat.prefix_or hat' with hpre | hpre
    · rw [hgs.eq_of_prefix g hmem g' hmem' hpre]
    · rw [hgs.eq_of_prefix g' hmem' g hmem hpre]

/-- **The earliest tag stays the earliest** when the text grows. -/
theorem firstTag_append {t : List α} {gs : List (Tag α)} (hgs : Distinct gs) {i : ℕ} {g : Tag α}
    (h : firstTag gs t = some (i, g)) (u : List α) : firstTag gs (t ++ u) = some (i, g) := by
  obtain ⟨hmem, hi, hmin⟩ := firstTag_spec h
  refine (firstTag_eq_some hgs).2 ⟨hmem, Tag.indexOf_append hi u, fun g' hg' j hj => ?_⟩
  cases ht : g'.indexOf t with
  | some k =>
    have hk := Tag.indexOf_append ht u
    rw [hj] at hk
    cases hk
    exact hmin g' hg' j ht
  | none =>
    -- a new tag ends behind the old text, and does not overlap the earliest one
    by_contra hlt
    have hat := Tag.at_of_indexOf (Tag.indexOf_append hi u)
    have hat' := Tag.at_of_indexOf hj
    have hnew := Tag.lt_of_indexOf_none ht hat'
    have hold := Tag.indexOf_le hi
    have hdis := hat'.disjoint hat (hgs.mark g' hg' g hmem) (by omega)
    omega

/-- The earliest tag of a text is the earliest of a prefix that it ends in. -/
theorem firstTag_of_append {t u : List α} {gs : List (Tag α)} (hgs : Distinct gs) {i : ℕ}
    {g : Tag α} (h : firstTag gs (t ++ u) = some (i, g)) (hle : i + g.text.length ≤ t.length) :
    firstTag gs t = some (i, g) := by
  obtain ⟨hmem, hi, hmin⟩ := firstTag_spec h
  exact (firstTag_eq_some hgs).2 ⟨hmem, Tag.indexOf_of_append hi hle,
    fun g' hg' j hj => hmin g' hg' j (Tag.indexOf_append hj u)⟩

/-- What stands before the earliest of several tags, the tag, and what stands behind it. -/
def cutFirst (gs : List (Tag α)) (t : List α) : Option (List α × Tag α × List α) :=
  (firstTag gs t).map fun r => (t.take r.1, r.2, t.drop (r.1 + r.2.text.length))

variable {gs : List (Tag α)} {g : Tag α} {t x y : List α}

theorem cutFirst_eq_some : cutFirst gs t = some (x, g, y) ↔
    firstTag gs t = some (x.length, g) ∧ t = x ++ g.text ++ y := by
  unfold cutFirst
  rw [Option.map_eq_some_iff]
  constructor
  · rintro ⟨⟨n, g'⟩, hn, hxy⟩
    obtain ⟨rfl, rfl, rfl⟩ := hxy
    have hi := (firstTag_spec hn).2.1
    have hle := Tag.indexOf_le hi
    have hlen : (t.take n).length = n := by
      rw [length_take]
      omega
    rw [hlen]
    exact ⟨hn, (Tag.at_of_indexOf hi).split.symm⟩
  · rintro ⟨hn, rfl⟩
    refine ⟨(x.length, g), hn, ?_⟩
    rw [append_assoc, take_left, ← append_assoc, ← length_append, drop_left]

theorem mem_of_cutFirst (h : cutFirst gs t = some (x, g, y)) : g ∈ gs :=
  (firstTag_spec (cutFirst_eq_some.1 h).1).1

theorem length_of_cutFirst (h : cutFirst gs t = some (x, g, y)) : y.length < t.length := by
  obtain ⟨-, rfl⟩ := cutFirst_eq_some.1 h
  have hpos := g.length_text_pos
  rw [length_append, length_append]
  omega

theorem cutFirst_append (hgs : Distinct gs) (h : cutFirst gs t = some (x, g, y)) (u : List α) :
    cutFirst gs (t ++ u) = some (x, g, y ++ u) := by
  obtain ⟨hn, ht⟩ := cutFirst_eq_some.1 h
  refine cutFirst_eq_some.2 ⟨firstTag_append hgs hn u, ?_⟩
  rw [ht, append_assoc]

theorem cutFirst_of_append (hgs : Distinct gs) {u : List α}
    (h : cutFirst gs (t ++ u) = some (x, g, y ++ u)) : cutFirst gs t = some (x, g, y) := by
  obtain ⟨hn, ht⟩ := cutFirst_eq_some.1 h
  rw [← append_assoc, append_left_inj] at ht
  refine cutFirst_eq_some.2 ⟨firstTag_of_append hgs hn ?_, ht⟩
  rw [ht, length_append, length_append]
  omega

end First

end LayerStorm.Lib
