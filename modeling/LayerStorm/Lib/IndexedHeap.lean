import Mathlib

/-!
# Indexed binary heaps

A binary heap over items `ι` in an array, together with the inverse of the array:
the position of every item that is in the heap.  The order is given to each
operation as a comparison `less`, because the keys it reads may change between two
calls; `update` restores the heap after the key of one item has changed.

A sift is a loop that moves along one path of the tree.  Upwards the position
decreases, downwards the remaining height does, so the loops carry the position and
the size as their fuel.
-/

namespace LayerStorm.Lib

open Function List

variable {ι : Type*}

structure StrictWeak (less : ι → ι → Bool) : Prop where
  asymm : ∀ a b, less a b = true → less b a = false
  negTrans : ∀ a b c, less b a = false → less c b = false → less c a = false

variable {less : ι → ι → Bool}

theorem StrictWeak.irrefl (w : StrictWeak less) (a : ι) : less a a = false := by
  cases h : less a a with
  | false => rfl
  | true => exact h ▸ w.asymm a a h

theorem StrictWeak.lex {β γ : Type*} [LinearOrder β] [LinearOrder γ] (f : ι → β) (g : ι → γ)
    (hless : ∀ a b, less a b = true ↔ f a < f b ∨ (f a = f b ∧ g a < g b)) :
    StrictWeak less := by
  have hfalse : ∀ a b, less a b = false ↔ f b < f a ∨ (f a = f b ∧ g b ≤ g a) := by
    intro a b
    rw [← Bool.not_eq_true, hless]
    rcases lt_trichotomy (f a) (f b) with h | h | h
    · simp [h, h.not_gt, h.ne]
    · simp [h]
    · simp [h, h.not_gt, h.ne']
  refine ⟨?_, ?_⟩
  · intro a b hab
    rw [hless] at hab
    rw [hfalse]
    exact hab.imp id fun h => ⟨h.1.symm, h.2.le⟩
  · intro a b c hba hcb
    rw [hfalse] at hba hcb ⊢
    rcases hba with hba | ⟨hba, hg⟩
    · rcases hcb with hcb | ⟨hcb, _⟩
      · exact .inl (hba.trans hcb)
      · exact .inl (hcb ▸ hba)
    · rcases hcb with hcb | ⟨hcb, hg'⟩
      · exact .inl (hba ▸ hcb)
      · exact .inr ⟨hcb.trans hba, hg.trans hg'⟩

theorem StrictWeak.countP_sorted (w : StrictWeak less) {x : ι} :
    ∀ {l : List ι} {i : ℕ}, l.Pairwise (fun a b => less a b = true) → l[i]? = some x →
      l.countP (fun a => less a x) = i := by
  intro l
  induction l with
  | nil =>
    intro i _ hi
    simp at hi
  | cons a l ih =>
    intro i hl hi
    rw [pairwise_cons] at hl
    cases i with
    | zero =>
      simp only [getElem?_cons_zero, Option.some.injEq] at hi
      subst hi
      rw [countP_eq_zero]
      intro b hb
      rcases mem_cons.1 hb with rfl | hb
      · simp [w.irrefl]
      · simp [w.asymm _ _ (hl.1 b hb)]
    | succ i =>
      rw [getElem?_cons_succ] at hi
      have hax : less a x = true := hl.1 x (mem_of_getElem? hi)
      simp only [countP_cons, hax, if_true, ih hl.2 hi]

/-- The array of a heap, and the position of each item in it. -/
structure IndexedHeap (ι : Type*) where
  size : ℕ
  node : ℕ → ι
  pos : ι → Option ℕ

namespace IndexedHeap

def parent (i : ℕ) : ℕ := (i - 1) / 2

theorem parent_lt {i : ℕ} (h : 0 < i) : parent i < i := by
  unfold parent
  omega

theorem parent_eq_iff {i j : ℕ} (h : 0 < j) : parent j = i ↔ j = 2 * i + 1 ∨ j = 2 * i + 2 := by
  unfold parent
  omega

/-- The heap without items; `d` fills the array. -/
def empty (d : ι) : IndexedHeap ι := ⟨0, fun _ => d, fun _ => none⟩

variable [DecidableEq ι] {less less' : ι → ι → Bool} {h : IndexedHeap ι} {i j : ℕ} {x : ι}

/-! ### The operations -/

/-- Exchanging the items of two positions. -/
def swap (h : IndexedHeap ι) (i j : ℕ) : IndexedHeap ι where
  size := h.size
  node := Function.update (Function.update h.node i (h.node j)) j (h.node i)
  pos := Function.update (Function.update h.pos (h.node j) (some i)) (h.node i) (some j)

/-- Moving an item up while it is less than its parent. -/
def siftUp (less : ι → ι → Bool) : ℕ → IndexedHeap ι → ℕ → IndexedHeap ι
  | 0, h, _ => h
  | fuel + 1, h, i =>
    if 0 < i ∧ less (h.node i) (h.node (parent i)) then
      siftUp less fuel (h.swap i (parent i)) (parent i)
    else h

/-- The least of a position and its children. -/
def smallest (less : ι → ι → Bool) (h : IndexedHeap ι) (i : ℕ) : ℕ :=
  let s := if 2 * i + 1 < h.size ∧ less (h.node (2 * i + 1)) (h.node i) then 2 * i + 1 else i
  if 2 * i + 2 < h.size ∧ less (h.node (2 * i + 2)) (h.node s) then 2 * i + 2 else s

/-- Moving an item down while a child is less. -/
def siftDown (less : ι → ι → Bool) : ℕ → IndexedHeap ι → ℕ → IndexedHeap ι
  | 0, h, _ => h
  | fuel + 1, h, i =>
    if smallest less h i = i then h
    else siftDown less fuel (h.swap i (smallest less h i)) (smallest less h i)

/-- Restoring the order around one position. -/
def sift (less : ι → ι → Bool) (h : IndexedHeap ι) (i : ℕ) : IndexedHeap ι :=
  siftDown less h.size (siftUp less i h i) i

/-- An item at the end of the array. -/
def append (h : IndexedHeap ι) (x : ι) : IndexedHeap ι where
  size := h.size + 1
  node := Function.update h.node h.size x
  pos := Function.update h.pos x (some h.size)

/-- Adding an item. -/
def push (less : ι → ι → Bool) (h : IndexedHeap ι) (x : ι) : IndexedHeap ι :=
  siftUp less h.size (h.append x) h.size

/-- The last item takes the place of item `x`, which is at position `i`. -/
def fill (h : IndexedHeap ι) (x : ι) (i : ℕ) : IndexedHeap ι :=
  let last := h.size - 1
  let moved : IndexedHeap ι :=
    if i ≠ last then
      { h with
        node := Function.update h.node i (h.node last)
        pos := Function.update h.pos (h.node last) (some i) }
    else h
  { moved with size := last, pos := Function.update moved.pos x none }

def remove (less : ι → ι → Bool) (h : IndexedHeap ι) (x : ι) : IndexedHeap ι :=
  match h.pos x with
  | none => h
  | some i => if i < h.size - 1 then sift less (h.fill x i) i else h.fill x i

/-- Adding an item, or restoring the order after its key has changed. -/
def update (less : ι → ι → Bool) (h : IndexedHeap ι) (x : ι) : IndexedHeap ι :=
  match h.pos x with
  | none => push less h x
  | some i => sift less h i

/-! ### The inverse -/

/-- The positions are those of the array. -/
def Indexed (h : IndexedHeap ι) : Prop :=
  ∀ x i, h.pos x = some i ↔ i < h.size ∧ h.node i = x

omit [DecidableEq ι] in
theorem indexed_empty (d : ι) : (empty d).Indexed := by
  intro x i
  simp [empty]

omit [DecidableEq ι] in
theorem Indexed.inj (hi : h.Indexed) (hil : i < h.size) (hjl : j < h.size)
    (heq : h.node i = h.node j) : i = j := by
  have hpi : h.pos (h.node i) = some i := (hi _ i).2 ⟨hil, rfl⟩
  have hpj : h.pos (h.node i) = some j := (hi _ j).2 ⟨hjl, heq.symm⟩
  exact Option.some.inj (hpi.symm.trans hpj)

@[simp] theorem swap_size : (h.swap i j).size = h.size := rfl

theorem swap_node_left (hne : i ≠ j) : (h.swap i j).node i = h.node j := by
  simp [swap, hne]

@[simp] theorem swap_node_right : (h.swap i j).node j = h.node i := by
  simp [swap]

theorem swap_node_other {k : ℕ} (hi : k ≠ i) (hj : k ≠ j) : (h.swap i j).node k = h.node k := by
  simp [swap, hi, hj]

theorem swap_node (k : ℕ) :
    (h.swap i j).node k = if k = j then h.node i else if k = i then h.node j else h.node k := by
  simp only [swap, update_apply]

theorem Indexed.swap (hi : h.Indexed) (hil : i < h.size) (hjl : j < h.size) :
    (h.swap i j).Indexed := by
  intro x k
  -- the items at the two positions differ unless the positions are the same
  have hki : k < h.size → h.node k = h.node i → k = i := fun hk => hi.inj hk hil
  have hkj : k < h.size → h.node k = h.node j → k = j := fun hk => hi.inj hk hjl
  have hx := hi x k
  rw [swap_size, swap_node]
  simp only [IndexedHeap.swap, update_apply]
  grind

theorem swap_isSome (hi : h.Indexed) (hil : i < h.size) (hjl : j < h.size) (y : ι) :
    ((h.swap i j).pos y).isSome = (h.pos y).isSome := by
  have hpi : h.pos (h.node i) = some i := (hi _ i).2 ⟨hil, rfl⟩
  have hpj : h.pos (h.node j) = some j := (hi _ j).2 ⟨hjl, rfl⟩
  simp only [IndexedHeap.swap, update_apply]
  by_cases hyi : y = h.node i
  · simp [hyi, hpi]
  by_cases hyj : y = h.node j
  · rw [if_neg hyi, if_pos hyj, hyj, hpj]
    rfl
  · rw [if_neg hyi, if_neg hyj]

/-- One heap rearranges another: the same size and the same items, still indexed. -/
structure Rearranges (h h' : IndexedHeap ι) : Prop where
  size : h'.size = h.size
  indexed : h'.Indexed
  isSome : ∀ y, (h'.pos y).isSome = (h.pos y).isSome

omit [DecidableEq ι] in
theorem Rearranges.refl (hi : h.Indexed) : Rearranges h h := ⟨rfl, hi, fun _ => rfl⟩

omit [DecidableEq ι] in
theorem Rearranges.trans {h' h'' : IndexedHeap ι} (h₁ : Rearranges h h') (h₂ : Rearranges h' h'') :
    Rearranges h h'' :=
  ⟨h₂.size.trans h₁.size, h₂.indexed, fun y => (h₂.isSome y).trans (h₁.isSome y)⟩

theorem Rearranges.swap (hi : h.Indexed) (hil : i < h.size) (hjl : j < h.size) :
    Rearranges h (h.swap i j) :=
  ⟨rfl, hi.swap hil hjl, swap_isSome hi hil hjl⟩

theorem siftUp_rearranges (less : ι → ι → Bool) (fuel : ℕ) :
    ∀ {h : IndexedHeap ι} {i : ℕ}, h.Indexed → i < h.size →
      Rearranges h (siftUp less fuel h i) := by
  induction fuel with
  | zero =>
    intro h i hi _
    exact Rearranges.refl hi
  | succ fuel ih =>
    intro h i hi hil
    unfold siftUp
    split
    · rename_i hc
      have hp : parent i < h.size := (parent_lt hc.1).trans hil
      have hswap : Rearranges h (h.swap i (parent i)) := Rearranges.swap hi hil hp
      exact hswap.trans (ih hswap.indexed hp)
    · exact Rearranges.refl hi

/-- The least of a position and its children. -/
structure Smallest (less : ι → ι → Bool) (h : IndexedHeap ι) (i s : ℕ) : Prop where
  /-- It is the position itself, or a child that is less. -/
  choice : s = i ∨ (0 < s ∧ s < h.size ∧ parent s = i ∧ less (h.node s) (h.node i) = true)
  least : ∀ j, 0 < j → j < h.size → parent j = i → less (h.node j) (h.node s) = false

omit [DecidableEq ι] in
theorem smallest_spec (w : StrictWeak less) (h : IndexedHeap ι) (i : ℕ) :
    Smallest less h i (smallest less h i) := by
  have hl : parent (2 * i + 1) = i := (parent_eq_iff (by omega)).2 (.inl rfl)
  have hr : parent (2 * i + 2) = i := (parent_eq_iff (by omega)).2 (.inr rfl)
  -- the first comparison leaves the left child or the position, and the other is not less
  obtain ⟨s, hs, hchoice, hleft⟩ : ∃ s,
      s = (if 2 * i + 1 < h.size ∧ less (h.node (2 * i + 1)) (h.node i) then 2 * i + 1 else i) ∧
      (s = i ∨ (0 < s ∧ s < h.size ∧ parent s = i ∧ less (h.node s) (h.node i) = true)) ∧
      (2 * i + 1 < h.size → less (h.node (2 * i + 1)) (h.node s) = false) := by
    refine ⟨_, rfl, ?_, ?_⟩
    · split
      · rename_i hc
        exact .inr ⟨by omega, hc.1, hl, hc.2⟩
      · exact .inl rfl
    · intro hsize
      split
      · exact w.irrefl _
      · rename_i hc
        simpa [hsize] using hc
  have hsi : less (h.node i) (h.node s) = false := by
    rcases hchoice with rfl | ⟨_, _, _, hless⟩
    · exact w.irrefl _
    · exact w.asymm _ _ hless
  unfold smallest
  rw [← hs]
  simp only
  split
  · rename_i hc
    have hless : less (h.node (2 * i + 2)) (h.node i) = true := by
      by_contra hno
      have := w.negTrans _ _ _ hsi (Bool.eq_false_of_not_eq_true hno)
      rw [this] at hc
      exact Bool.false_ne_true hc.2
    refine ⟨.inr ⟨by omega, hc.1, hr, hless⟩, ?_⟩
    intro j hj hjs hp
    rcases (parent_eq_iff hj).1 hp with rfl | rfl
    · exact w.negTrans _ _ _ (w.asymm _ _ hc.2) (hleft hjs)
    · exact w.irrefl _
  · rename_i hc
    refine ⟨hchoice, ?_⟩
    intro j hj hjs hp
    rcases (parent_eq_iff hj).1 hp with rfl | rfl
    · exact hleft hjs
    · simpa [hjs] using hc

theorem siftDown_rearranges (w : StrictWeak less) (fuel : ℕ) :
    ∀ {h : IndexedHeap ι} {i : ℕ}, h.Indexed → i < h.size →
      Rearranges h (siftDown less fuel h i) := by
  induction fuel with
  | zero =>
    intro h i hi _
    exact Rearranges.refl hi
  | succ fuel ih =>
    intro h i hi hil
    unfold siftDown
    split
    · exact Rearranges.refl hi
    rename_i hne
    obtain ⟨_, hs, _, _⟩ := (smallest_spec w h i).choice.resolve_left hne
    have hswap : Rearranges h (h.swap i (smallest less h i)) := Rearranges.swap hi hil hs
    exact hswap.trans (ih hswap.indexed hs)

/-! ### The order -/

def Ordered (less : ι → ι → Bool) (h : IndexedHeap ι) : Prop :=
  ∀ j, 0 < j → j < h.size → less (h.node j) (h.node (parent j)) = false

/-- Heap order except around one position, whose children are in order with its
parent. -/
structure Hole (less : ι → ι → Bool) (h : IndexedHeap ι) (i : ℕ) : Prop where
  off : ∀ j, 0 < j → j < h.size → j ≠ i → parent j ≠ i → less (h.node j) (h.node (parent j)) = false
  bypass : 0 < i → ∀ j, 0 < j → j < h.size → parent j = i →
    less (h.node j) (h.node (parent i)) = false

/-- Only the item at `i` may be less than its parent. -/
structure Up (less : ι → ι → Bool) (h : IndexedHeap ι) (i : ℕ) : Prop where
  hole : Hole less h i
  below : ∀ j, 0 < j → j < h.size → parent j = i → less (h.node j) (h.node i) = false

/-- Only the children of the item at `i` may be less than it. -/
structure Down (less : ι → ι → Bool) (h : IndexedHeap ι) (i : ℕ) : Prop where
  hole : Hole less h i
  above : 0 < i → i < h.size → less (h.node i) (h.node (parent i)) = false

omit [DecidableEq ι] in
theorem Ordered.down (w : StrictWeak less) (ho : Ordered less h) (i : ℕ) : Down less h i := by
  refine ⟨⟨fun j hj hjs _ _ => ho j hj hjs, ?_⟩, ho i⟩
  intro hi j hj hjs hp
  have hij : i < j := hp ▸ parent_lt hj
  have hji : less (h.node j) (h.node i) = false := hp ▸ ho j hj hjs
  exact w.negTrans _ _ _ (ho i hi (hij.trans hjs)) hji

omit [DecidableEq ι] in
theorem Up.ordered (hu : Up less h i)
    (hi : 0 < i → i < h.size → less (h.node i) (h.node (parent i)) = false) :
    Ordered less h := by
  intro j hj hjs
  by_cases hji : j = i
  · subst hji
    exact hi hj hjs
  by_cases hp : parent j = i
  · rw [hp]
    exact hu.below j hj hjs hp
  · exact hu.hole.off j hj hjs hji hp

theorem Hole.swapUp (w : StrictWeak less) (hh : Hole less h i) (hi : 0 < i) (hil : i < h.size)
    (hless : less (h.node i) (h.node (parent i)) = true) :
    Up less (h.swap i (parent i)) (parent i) := by
  have hpi : parent i < i := parent_lt hi
  have hne : i ≠ parent i := by omega
  -- the old parent is in order with its own parent and with its other child
  have hgrand : 0 < parent i → less (h.node (parent i)) (h.node (parent (parent i))) = false := by
    intro hp
    have := parent_lt hp
    exact hh.off (parent i) hp (by omega) (by omega) (by omega)
  have hsib : ∀ j, 0 < j → j < h.size → j ≠ i → parent j = parent i →
      less (h.node j) (h.node (parent i)) = false := by
    intro j hj hjs hji hp
    exact hp ▸ hh.off j hj hjs hji (by omega)
  refine ⟨⟨?_, ?_⟩, ?_⟩
  · intro j hj hjs hjp hpp
    rw [swap_size] at hjs
    have hji : j ≠ i := fun he => hpp (by rw [he])
    rw [swap_node_other hji hjp]
    by_cases hpj : parent j = i
    · rw [hpj, swap_node_left hne]
      exact hh.bypass hi j hj hjs hpj
    · rw [swap_node_other hpj hpp]
      exact hh.off j hj hjs hji hpj
  · intro hp0 j hj hjs hp
    rw [swap_size] at hjs
    have hpp := parent_lt hp0
    have hgp : (h.swap i (parent i)).node (parent (parent i)) = h.node (parent (parent i)) :=
      swap_node_other (by omega) (by omega)
    rw [hgp]
    by_cases hji : j = i
    · rw [hji, swap_node_left hne]
      exact hgrand hp0
    have hjp : j ≠ parent i := by
      have := parent_lt hj
      omega
    rw [swap_node_other hji hjp]
    exact w.negTrans _ _ _ (hgrand hp0) (hsib j hj hjs hji hp)
  · intro j hj hjs hp
    rw [swap_size] at hjs
    rw [swap_node_right]
    by_cases hji : j = i
    · rw [hji, swap_node_left hne]
      exact w.asymm _ _ hless
    have hjp : j ≠ parent i := by
      have := parent_lt hj
      omega
    rw [swap_node_other hji hjp]
    exact w.negTrans _ _ _ (w.asymm _ _ hless) (hsib j hj hjs hji hp)

theorem Up.siftUp (w : StrictWeak less) (fuel : ℕ) :
    ∀ {h : IndexedHeap ι} {i : ℕ}, Up less h i → i < h.size → i ≤ fuel →
      Ordered less (siftUp less fuel h i) := by
  induction fuel with
  | zero =>
    intro h i hu _ hf
    exact hu.ordered fun hi => absurd hi (by omega)
  | succ fuel ih =>
    intro h i hu hil hf
    unfold IndexedHeap.siftUp
    split
    · rename_i hc
      have hp : parent i < i := parent_lt hc.1
      have hlt : parent i < (h.swap i (parent i)).size := hp.trans hil
      exact ih (hu.hole.swapUp w hc.1 hil hc.2) hlt (by omega)
    · rename_i hc
      exact hu.ordered fun hi _ => by simpa [hi] using hc

theorem Hole.siftUp (w : StrictWeak less) {fuel : ℕ} (hh : Hole less h i) (hil : i < h.size)
    (hf : i ≤ fuel) : Down less (siftUp less fuel h i) i := by
  cases fuel with
  | zero => exact ⟨hh, fun hi => absurd hi (by omega)⟩
  | succ fuel =>
    unfold IndexedHeap.siftUp
    split
    · rename_i hc
      have hp : parent i < i := parent_lt hc.1
      have hlt : parent i < (h.swap i (parent i)).size := hp.trans hil
      exact ((hh.swapUp w hc.1 hil hc.2).siftUp w fuel hlt (by omega)).down w i
    · rename_i hc
      exact ⟨hh, fun hi _ => by simpa [hi] using hc⟩

theorem Down.swapDown (w : StrictWeak less) (hd : Down less h i) {s : ℕ} (hs : Smallest less h i s)
    (hne : s ≠ i) : Down less (h.swap i s) s := by
  obtain ⟨hs0, hsl, hps, hless⟩ := hs.choice.resolve_left hne
  have his : i < s := hps ▸ parent_lt hs0
  refine ⟨⟨?_, ?_⟩, ?_⟩
  · intro j hj hjs hjne hpj
    rw [swap_size] at hjs
    have hjp := parent_lt hj
    by_cases hji : j = i
    · -- the least child has moved below the grandparent
      subst hji
      rw [swap_node_left hne.symm, swap_node_other (by omega) hpj]
      exact hd.hole.bypass hj s hs0 hsl hps
    · rw [swap_node_other hji hjne]
      by_cases hpi : parent j = i
      · rw [hpi, swap_node_left hne.symm]
        exact hs.least j hj hjs hpi
      · rw [swap_node_other hpi hpj]
        exact hd.hole.off j hj hjs hji hpi
  · intro _ j hj hjs hpj
    rw [swap_size] at hjs
    have hjs' : s < j := hpj ▸ parent_lt hj
    rw [hps, swap_node_left hne.symm, swap_node_other (by omega) (by omega)]
    exact hpj ▸ hd.hole.off j hj hjs (by omega) (by omega)
  · intro _ _
    rw [hps, swap_node_right, swap_node_left hne.symm]
    exact w.asymm _ _ hless

theorem Down.siftDown (w : StrictWeak less) (fuel : ℕ) :
    ∀ {h : IndexedHeap ι} {i : ℕ}, Down less h i → i < h.size → h.size ≤ i + fuel →
      Ordered less (siftDown less fuel h i) := by
  induction fuel with
  | zero =>
    intro h i _ hil hf
    omega
  | succ fuel ih =>
    intro h i hd hil hf
    have hs := smallest_spec w h i
    unfold IndexedHeap.siftDown
    split
    · rename_i heq
      rw [heq] at hs
      exact Up.ordered ⟨hd.hole, hs.least⟩ hd.above
    rename_i hne
    obtain ⟨hs0, hsl, hps, _⟩ := hs.choice.resolve_left hne
    have his : i < smallest less h i := by
      have := parent_lt hs0
      omega
    refine ih (hd.swapDown w hs hne) hsl ?_
    rw [swap_size]
    omega

/-! ### Valid heaps -/

/-- The inverse is exact and the array is heap-ordered. -/
structure Valid (less : ι → ι → Bool) (h : IndexedHeap ι) : Prop where
  indexed : h.Indexed
  ordered : Ordered less h

omit [DecidableEq ι] in
theorem valid_empty (less : ι → ι → Bool) (d : ι) : Valid less (empty d) :=
  ⟨indexed_empty d, fun _ _ hj => absurd hj (Nat.not_lt_zero _)⟩

theorem sift_rearranges (w : StrictWeak less) (hi : h.Indexed) (hil : i < h.size) :
    Rearranges h (sift less h i) := by
  have hup : Rearranges h (siftUp less i h i) := siftUp_rearranges less i hi hil
  exact hup.trans (siftDown_rearranges w h.size hup.indexed (hup.size ▸ hil))

theorem Hole.sift (w : StrictWeak less) (hi : h.Indexed) (hh : Hole less h i) (hil : i < h.size) :
    Valid less (sift less h i) := by
  have hup : Rearranges h (IndexedHeap.siftUp less i h i) := siftUp_rearranges less i hi hil
  have hdown : Down less (IndexedHeap.siftUp less i h i) i := hh.siftUp w hil le_rfl
  refine ⟨(sift_rearranges w hi hil).indexed, ?_⟩
  refine hdown.siftDown w h.size (hup.size ▸ hil) ?_
  rw [hup.size]
  exact Nat.le_add_left _ _

/-! ### Adding an item -/

theorem append_indexed (hi : h.Indexed) (hx : h.pos x = none) : (h.append x).Indexed := by
  intro y k
  have hy := hi y k
  simp only [append, update_apply]
  grind

theorem append_isSome (y : ι) :
    ((h.append x).pos y).isSome = true ↔ y = x ∨ (h.pos y).isSome = true := by
  simp only [append, update_apply]
  by_cases hy : y = x <;> simp [hy]

theorem append_up (ho : Ordered less h) : Up less (h.append x) h.size := by
  have hnode : ∀ k, k ≠ h.size → (h.append x).node k = h.node k := by
    intro k hk
    simp [append, hk]
  have hchild : ∀ j, 0 < j → j < (h.append x).size → parent j ≠ h.size := by
    intro j hj hjs
    have := parent_lt hj
    simp only [append] at hjs
    omega
  refine ⟨⟨?_, ?_⟩, ?_⟩
  · intro j hj hjs hne hp
    simp only [append] at hjs
    rw [hnode j hne, hnode _ hp]
    exact ho j hj (by omega)
  · intro _ j hj hjs hp
    exact absurd hp (hchild j hj hjs)
  · intro j hj hjs hp
    exact absurd hp (hchild j hj hjs)

theorem push_rearranges (hi : h.Indexed) (hx : h.pos x = none) :
    Rearranges (h.append x) (push less h x) :=
  siftUp_rearranges less h.size (append_indexed hi hx) (Nat.lt_succ_self h.size)

theorem Valid.push (w : StrictWeak less) (hv : Valid less h) (hx : h.pos x = none) :
    Valid less (push less h x) :=
  ⟨(push_rearranges hv.indexed hx).indexed,
    (append_up hv.ordered).siftUp w h.size (Nat.lt_succ_self h.size) le_rfl⟩

theorem push_isSome (hi : h.Indexed) (hx : h.pos x = none) (y : ι) :
    ((push less h x).pos y).isSome = true ↔ y = x ∨ (h.pos y).isSome = true := by
  rw [(push_rearranges hi hx).isSome y, append_isSome]

/-! ### Removing an item -/

theorem fill_size : (h.fill x i).size = h.size - 1 := rfl

theorem fill_node {k : ℕ} (hk : k < h.size - 1) :
    (h.fill x i).node k = if k = i then h.node (h.size - 1) else h.node k := by
  unfold fill
  by_cases hi : i = h.size - 1
  · simp [hi, hk.ne]
  · simp [hi, update_apply]

theorem fill_indexed (hi : h.Indexed) (hx : h.pos x = some i) : (h.fill x i).Indexed := by
  obtain ⟨hil, rfl⟩ := (hi x i).1 hx
  intro y k
  have hy := hi y k
  have hlast := hi y (h.size - 1)
  have hself := hi y i
  have hinj : ∀ a b, a < h.size → b < h.size → h.node a = h.node b → a = b :=
    fun a b => hi.inj
  simp only [fill]
  split
  · rename_i hne
    have hne' : i ≠ h.size - 1 := hne
    have hli := hinj (h.size - 1) i (by omega) hil
    simp only [update_apply]
    grind
  · have hki := hinj k i
    simp only [update_apply]
    grind

theorem fill_isSome (hi : h.Indexed) (hx : h.pos x = some i) (y : ι) :
    ((h.fill x i).pos y).isSome = true ↔ y ≠ x ∧ (h.pos y).isSome = true := by
  obtain ⟨hil, rfl⟩ := (hi x i).1 hx
  have hlast : h.pos (h.node (h.size - 1)) = some (h.size - 1) :=
    (hi _ _).2 ⟨by omega, rfl⟩
  simp only [fill]
  split
  · simp only [update_apply]
    grind
  · simp only [update_apply]
    grind

omit [DecidableEq ι] in
theorem Ordered.bypass (w : StrictWeak less) (ho : Ordered less h) (hi : 0 < i) (hj : 0 < j)
    (hjs : j < h.size) (hp : parent j = i) : less (h.node j) (h.node (parent i)) = false :=
  (ho.down w i).hole.bypass hi j hj hjs hp

theorem fill_hole (w : StrictWeak less) (ho : Ordered less h) : Hole less (h.fill x i) i := by
  refine ⟨?_, ?_⟩
  · intro j hj hjs hne hp
    rw [fill_size] at hjs
    have := parent_lt hj
    rw [fill_node hjs, fill_node (by omega), if_neg hne, if_neg hp]
    exact ho j hj (by omega)
  · intro hi j hj hjs hp
    rw [fill_size] at hjs
    have hji : i < j := hp ▸ parent_lt hj
    have hpi := parent_lt hi
    rw [fill_node hjs, fill_node (by omega), if_neg (by omega), if_neg (by omega)]
    exact ho.bypass w hi hj (by omega) hp

theorem Valid.remove (w : StrictWeak less) (hv : Valid less h) (x : ι) :
    Valid less (remove less h x) := by
  unfold IndexedHeap.remove
  split
  · exact hv
  rename_i i hx
  have hi := fill_indexed hv.indexed hx
  have hhole : Hole less (h.fill x i) i := fill_hole w hv.ordered
  split
  · rename_i hlt
    exact hhole.sift w hi hlt
  -- the last item itself was removed, so nothing lies at its position or below
  rename_i hlt
  refine ⟨hi, fun j hj hjs => ?_⟩
  have := parent_lt hj
  rw [fill_size] at hjs
  exact hhole.off j hj hjs (by omega) (by omega)

theorem remove_isSome (w : StrictWeak less) (hi : h.Indexed) (y : ι) :
    ((remove less h x).pos y).isSome = true ↔ y ≠ x ∧ (h.pos y).isSome = true := by
  unfold remove
  split
  · rename_i hx
    constructor
    · intro hy
      refine ⟨?_, hy⟩
      rintro rfl
      simp [hx] at hy
    · exact fun hy => hy.2
  · rename_i i hx
    split
    · rename_i hlt
      rw [(sift_rearranges w (fill_indexed hi hx) hlt).isSome y, fill_isSome hi hx]
    · exact fill_isSome hi hx y

/-! ### Changing a key -/

omit [DecidableEq ι] in
theorem Valid.congr_less (hv : Valid less h) (hx : h.pos x = none)
    (hsame : ∀ a b, a ≠ x → b ≠ x → less' a b = less a b) : Valid less' h := by
  have hoff : ∀ k, k < h.size → h.node k ≠ x := by
    intro k hk heq
    rw [(hv.indexed x k).2 ⟨hk, heq⟩] at hx
    exact Option.some_ne_none k hx
  refine ⟨hv.indexed, fun j hj hjs => ?_⟩
  have := parent_lt hj
  rw [hsame _ _ (hoff j hjs) (hoff _ (by omega))]
  exact hv.ordered j hj hjs

/-- **Restoring the order keeps a heap**, if the comparison has changed only at the
item. -/
theorem Valid.update (w : StrictWeak less) (w' : StrictWeak less') (hv : Valid less h)
    (hsame : ∀ a b, a ≠ x → b ≠ x → less' a b = less a b) :
    Valid less' (update less' h x) := by
  unfold IndexedHeap.update
  split
  · rename_i hx
    exact (hv.congr_less hx hsame).push w' hx
  rename_i i hx
  obtain ⟨hil, hnode⟩ := (hv.indexed x i).1 hx
  have hoff : ∀ k, k < h.size → k ≠ i → h.node k ≠ x := by
    intro k hk hne heq
    exact hne (hv.indexed.inj hk hil (heq.trans hnode.symm))
  refine Hole.sift w' hv.indexed ⟨?_, ?_⟩ hil
  · intro j hj hjs hne hp
    have := parent_lt hj
    rw [hsame _ _ (hoff j hjs hne) (hoff _ (by omega) hp)]
    exact hv.ordered j hj hjs
  · intro hi j hj hjs hp
    have hij : i < j := hp ▸ parent_lt hj
    have := parent_lt hi
    rw [hsame _ _ (hoff j hjs (by omega)) (hoff _ (by omega) (by omega))]
    exact hv.ordered.bypass w hi hj hjs hp

theorem update_isSome (w : StrictWeak less) (hi : h.Indexed) (y : ι) :
    ((update less h x).pos y).isSome = true ↔ y = x ∨ (h.pos y).isSome = true := by
  unfold update
  split
  · rename_i hx
    exact push_isSome hi hx y
  rename_i i hx
  rw [(sift_rearranges w hi ((hi x i).1 hx).1).isSome y]
  constructor
  · exact .inr
  · rintro (rfl | hy)
    · simp [hx]
    · exact hy

/-! ### Counting -/

omit [DecidableEq ι] in
theorem Indexed.size_eq_length (hi : h.Indexed) {l : List ι} (hnd : l.Nodup)
    (hmem : ∀ y, y ∈ l ↔ (h.pos y).isSome = true) : h.size = l.length := by
  have hnodes : ((range h.size).map h.node).Nodup := by
    refine List.Nodup.map_on ?_ nodup_range
    intro a ha b hb heq
    exact hi.inj (mem_range.1 ha) (mem_range.1 hb) heq
  have hperm : ((range h.size).map h.node).Perm l := by
    rw [perm_ext_iff_of_nodup hnodes hnd]
    intro y
    rw [hmem y, Option.isSome_iff_exists]
    simp only [mem_map, mem_range, hi y]
  have hlen := hperm.length_eq
  simpa using hlen

end IndexedHeap

end LayerStorm.Lib
