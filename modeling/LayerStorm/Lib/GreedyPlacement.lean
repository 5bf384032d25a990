import LayerStorm.Lib.IndexedHeap

/-!
# Greedy placement into bins

A scan keeps the first candidate that no later one beats.  A greedy placement takes items in
order and puts each into the bin such a scan prefers among the bins that have room; an item that
finds no room is left out.
-/

namespace LayerStorm.Lib

open List

variable {ι β γ : Type*}

/-! ### Scanning for the first best -/

/-- One candidate of the scan. -/
def keepBetter (better : β → β → Bool) : Option β → β → Option β
  | none, b => some b
  | some a, b => if better b a then some b else some a

/-- The first candidate that no later one beats. -/
def firstBest (better : β → β → Bool) (l : List β) : Option β :=
  l.foldl (keepBetter better) none

variable {better : β → β → Bool}

@[simp] theorem firstBest_nil : firstBest better ([] : List β) = none := rfl

theorem foldl_keepBetter (w : StrictWeak better) (a : β) (l : List β) :
    ∃ r, l.foldl (keepBetter better) (some a) = some r ∧ r ∈ a :: l ∧
      ∀ b ∈ a :: l, better b r = false := by
  induction l generalizing a with
  | nil => exact ⟨a, rfl, by simp, by simp [w.irrefl a]⟩
  | cons b l ih =>
    rw [foldl_cons, keepBetter]
    cases hba : better b a with
    | true =>
      obtain ⟨r, hr, hmem, hbest⟩ := ih b
      refine ⟨r, by simpa using hr, mem_cons_of_mem _ hmem, fun c hc => ?_⟩
      rcases mem_cons.1 hc with rfl | hc
      · exact w.negTrans r b c (hbest b mem_cons_self) (w.asymm b c hba)
      · exact hbest c hc
    | false =>
      obtain ⟨r, hr, hmem, hbest⟩ := ih a
      refine ⟨r, by simpa using hr, ?_, fun c hc => ?_⟩
      · rcases mem_cons.1 hmem with h | h
        · exact h ▸ mem_cons_self
        · exact mem_cons_of_mem _ (mem_cons_of_mem _ h)
      · rcases mem_cons.1 hc with rfl | hc
        · exact hbest c mem_cons_self
        rcases mem_cons.1 hc with rfl | hc
        · exact w.negTrans r a c (hbest a mem_cons_self) hba
        · exact hbest c (mem_cons_of_mem _ hc)

theorem firstBest_spec (w : StrictWeak better) {l : List β} {r : β}
    (h : firstBest better l = some r) : r ∈ l ∧ ∀ b ∈ l, better b r = false := by
  cases l with
  | nil => cases h
  | cons a l =>
    obtain ⟨r', hr', hmem, hbest⟩ := foldl_keepBetter w a l
    have : r' = r := Option.some.inj (hr'.symm.trans h)
    exact this ▸ ⟨hmem, hbest⟩

theorem firstBest_isSome (w : StrictWeak better) {l : List β} (h : l ≠ []) :
    ∃ r, firstBest better l = some r := by
  cases l with
  | nil => exact absurd rfl h
  | cons a l =>
    obtain ⟨r, hr, -⟩ := foldl_keepBetter w a l
    exact ⟨r, hr⟩

/-! ### Placing items -/

variable [DecidableEq β]

/-- How many items a bin has. -/
def load (placed : List (ι × β)) (b : β) : ℕ := placed.countP fun p => p.2 = b

variable (bins : List β) (cap : β → ℕ) (prefer : List (ι × β) → ι → β → β → Bool)

def roomy (placed : List (ι × β)) : List β :=
  bins.filter fun b => load placed b < cap b

def place (placed : List (ι × β)) (item : ι) : List (ι × β) :=
  match firstBest (prefer placed item) (roomy bins cap placed) with
  | some b => placed ++ [(item, b)]
  | none => placed

def placeAll (items : List ι) : List (ι × β) :=
  items.foldl (place bins cap prefer) []

variable {bins cap prefer} {placed : List (ι × β)}

theorem mem_roomy {b : β} : b ∈ roomy bins cap placed ↔ b ∈ bins ∧ load placed b < cap b := by
  simp [roomy]

theorem load_append (placed placed' : List (ι × β)) (b : β) :
    load (placed ++ placed') b = load placed b + load placed' b :=
  countP_append

theorem load_singleton (p : ι × β) (b : β) : load [p] b = if p.2 = b then 1 else 0 := by
  simp [load, countP_cons]

theorem place_cases (w : ∀ placed item, StrictWeak (prefer placed item)) (placed : List (ι × β))
    (item : ι) :
    (roomy bins cap placed = [] ∧ place bins cap prefer placed item = placed) ∨
    (∃ b, b ∈ bins ∧ load placed b < cap b ∧
      (∀ b' ∈ bins, load placed b' < cap b' → prefer placed item b' b = false) ∧
      place bins cap prefer placed item = placed ++ [(item, b)]) := by
  by_cases hroom : roomy bins cap placed = []
  · exact .inl ⟨hroom, by simp [place, hroom]⟩
  obtain ⟨b, hb⟩ := firstBest_isSome (w placed item) hroom
  obtain ⟨hmem, hbest⟩ := firstBest_spec (w placed item) hb
  obtain ⟨hin, hlt⟩ := mem_roomy.1 hmem
  exact .inr ⟨b, hin, hlt, fun b' hb' hlt' => hbest b' (mem_roomy.2 ⟨hb', hlt'⟩),
    by rw [place, hb]⟩

theorem placeAll_append_singleton (items : List ι) (item : ι) :
    placeAll bins cap prefer (items ++ [item]) =
      place bins cap prefer (placeAll bins cap prefer items) item := by
  simp [placeAll]

section

variable (w : ∀ placed item, StrictWeak (prefer placed item))
include w

/-- Items are placed in order, and not more often than they come. -/
theorem placeAll_sublist (items : List ι) :
    ((placeAll bins cap prefer items).map Prod.fst).Sublist items := by
  induction items using reverseRecOn with
  | nil => simp [placeAll]
  | append_singleton items item ih =>
    rw [placeAll_append_singleton]
    rcases place_cases w (placeAll bins cap prefer items) item with ⟨-, heq⟩ | ⟨b, -, -, -, heq⟩
    · rw [heq]
      exact ih.trans (sublist_append_left _ _)
    · rw [heq, map_append]
      exact ih.append (List.Sublist.refl _)

theorem mem_bins_of_placeAll (items : List ι) :
    ∀ p ∈ placeAll bins cap prefer items, p.2 ∈ bins := by
  induction items using reverseRecOn with
  | nil => simp [placeAll]
  | append_singleton items item ih =>
    rw [placeAll_append_singleton]
    rcases place_cases w (placeAll bins cap prefer items) item with ⟨-, heq⟩ | ⟨b, hb, -, -, heq⟩
    · rw [heq]
      exact ih
    rw [heq]
    intro p hp
    rcases mem_append.1 hp with hp | hp
    · exact ih p hp
    · rw [mem_singleton.1 hp]
      exact hb

theorem load_placeAll_le (items : List ι) (b : β) :
    load (placeAll bins cap prefer items) b ≤ cap b := by
  induction items using reverseRecOn with
  | nil => simp [placeAll, load]
  | append_singleton items item ih =>
    rw [placeAll_append_singleton]
    rcases place_cases w (placeAll bins cap prefer items) item with ⟨-, heq⟩ | ⟨b', -, hlt, -, heq⟩
    · rw [heq]
      exact ih
    rw [heq, load_append, load_singleton]
    split
    · next h => exact h ▸ hlt
    · exact ih

end

theorem sum_load_singleton (p : ι × β) (bins : List β) :
    (bins.map (load [p])).sum = bins.count p.2 := by
  induction bins with
  | nil => rfl
  | cons b bins ih =>
    rw [map_cons, sum_cons, ih, load_singleton, count_cons, add_comm]
    rcases eq_or_ne b p.2 with h | h
    · simp [h]
    · simp [h, h.symm]

theorem length_eq_sum_load (hbins : bins.Nodup) (h : ∀ p ∈ placed, p.2 ∈ bins) :
    placed.length = (bins.map (load placed)).sum := by
  induction placed with
  | nil =>
    have hzero : load ([] : List (ι × β)) = fun _ => 0 := rfl
    simp [hzero]
  | cons p placed ih =>
    have hsum : (bins.map (load (p :: placed))).sum =
        (bins.map (load placed)).sum + (bins.map (load [p])).sum := by
      rw [← sum_map_add]
      exact congrArg sum (map_congr_left fun b _ => by
        rw [← singleton_append, load_append, add_comm])
    rw [hsum, sum_load_singleton, count_eq_one_of_mem hbins (h p mem_cons_self),
      ← ih fun q hq => h q (mem_cons_of_mem _ hq), length_cons]

/-- **The items that come first are placed**, as many as fit. -/
theorem fst_placeAll (w : ∀ placed item, StrictWeak (prefer placed item)) (hbins : bins.Nodup)
    (items : List ι) : (placeAll bins cap prefer items).map Prod.fst =
      items.take (bins.map cap).sum := by
  have hlen : ∀ items, (placeAll bins cap prefer items).length =
      (bins.map (load (placeAll bins cap prefer items))).sum := fun items =>
    length_eq_sum_load hbins (mem_bins_of_placeAll w items)
  have hle : ∀ items, (placeAll bins cap prefer items).length ≤ (bins.map cap).sum := fun items =>
    (hlen items).trans_le (sum_le_sum fun b _ => load_placeAll_le w items b)
  induction items using reverseRecOn with
  | nil => simp [placeAll]
  | append_singleton items item ih =>
    have hih := congrArg length ih
    have hnext := hle (items ++ [item])
    rw [placeAll_append_singleton] at hnext ⊢
    rw [length_map, length_take] at hih
    rcases place_cases w (placeAll bins cap prefer items) item with ⟨hfull, heq⟩ | ⟨b, -, -, -, heq⟩
    · -- every bin is full, so the items placed are as many as fit
      have hall : (placeAll bins cap prefer items).length = (bins.map cap).sum := by
        rw [hlen]
        refine congrArg sum (map_congr_left fun b hb => ?_)
        refine le_antisymm (load_placeAll_le w items b) (not_lt.1 fun hlt => ?_)
        exact not_mem_nil (hfull ▸ mem_roomy.2 ⟨hb, hlt⟩)
      rw [heq, ih, take_append_of_le_length (by omega)]
    · rw [heq, length_append, length_singleton] at hnext
      rw [heq, map_append, ih, take_of_length_le (by omega),
        take_of_length_le (by rw [length_append, length_singleton]; omega)]
      rfl

theorem length_placeAll (w : ∀ placed item, StrictWeak (prefer placed item)) (hbins : bins.Nodup)
    (items : List ι) : (placeAll bins cap prefer items).length =
      min items.length (bins.map cap).sum := by
  rw [← length_map Prod.fst, fst_placeAll w hbins, length_take, min_comm]

/-- **No bin that had room beats the one an item is in.** -/
theorem placeAll_best (w : ∀ placed item, StrictWeak (prefer placed item)) (items : List ι)
    {before after : List (ι × β)} {item : ι} {b : β}
    (h : placeAll bins cap prefer items = before ++ (item, b) :: after) :
    load before b < cap b ∧
      ∀ b' ∈ bins, load before b' < cap b' → prefer before item b' b = false := by
  induction items using reverseRecOn generalizing after with
  | nil => simp [placeAll] at h
  | append_singleton items item' ih =>
    rw [placeAll_append_singleton] at h
    rcases place_cases w (placeAll bins cap prefer items) item' with
      ⟨-, heq⟩ | ⟨b', -, hlt, hbest, heq⟩
    · exact ih (heq ▸ h)
    rw [heq] at h
    cases after using reverseRecOn with
    | nil =>
      obtain ⟨hpre, hlast⟩ := append_inj' h rfl
      obtain ⟨rfl, rfl⟩ := Prod.mk.inj (singleton_inj.1 hlast)
      exact hpre ▸ ⟨hlt, hbest⟩
    | append_singleton after p =>
      rw [← cons_append, ← append_assoc] at h
      exact ih (append_inj' h rfl).1

end LayerStorm.Lib
