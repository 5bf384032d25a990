import Mathlib.Tactic

/-!
# UTF-8 with replacement characters

A sequence of bytes is decoded from left to right: a byte that cannot go on with the character
before it ends this one with a replacement character, and is looked at again as the first byte of
another; so is a character that is incomplete at the end.

When the bytes come in pieces, the text so far may end with the replacement character of a
character that the next piece completes.
-/

namespace LayerStorm.Lib

open List
namespace Utf8

/-- What the decoder waits for: nothing, or some more bytes of a character, the next of which has to
be in a range, given by its distance from `0x80`. -/
inductive Pending
  | idle
  | wait (need lo hi acc : ℕ)
  deriving DecidableEq

def repl : Char := Char.ofNat 0xFFFD

/-- The first byte of a character. -/
def start (b : ℕ) : List Char × Pending :=
  if b < 0x80 then ([Char.ofNat b], .idle)
  else if 0xC2 ≤ b ∧ b ≤ 0xDF then ([], .wait 1 0 0x3F (b - 0xC0))
  else if b = 0xE0 then ([], .wait 2 0x20 0x3F 0)
  else if b = 0xED then ([], .wait 2 0 0x1F 0xD)
  else if 0xE1 ≤ b ∧ b ≤ 0xEF then ([], .wait 2 0 0x3F (b - 0xE0))
  else if b = 0xF0 then ([], .wait 3 0x10 0x3F 0)
  else if 0xF1 ≤ b ∧ b ≤ 0xF3 then ([], .wait 3 0 0x3F (b - 0xF0))
  else if b = 0xF4 then ([], .wait 3 0 0xF 4)
  else ([repl], .idle)

/-- One byte: the characters that it completes, and what is waited for then. -/
def step : Pending → ℕ → List Char × Pending
  | .idle, b => start b
  | .wait need lo hi acc, b =>
    if 0x80 + lo ≤ b ∧ b ≤ 0x80 + hi then
      if need ≤ 1 then ([Char.ofNat (acc * 64 + b % 64)], .idle)
      else ([], .wait (need - 1) 0 0x3F (acc * 64 + b % 64))
    else (repl :: (start b).1, (start b).2)

/-- Some bytes, one after the other. -/
def feed : Pending → List ℕ → List Char × Pending
  | p, [] => ([], p)
  | p, b :: bs => ((step p b).1 ++ (feed (step p b).2 bs).1, (feed (step p b).2 bs).2)

/-- At the end, an incomplete character is replaced. -/
def flush : Pending → List Char
  | .idle => []
  | .wait _ _ _ _ => [repl]

def decodeFrom (p : Pending) (bs : List ℕ) : List Char := (feed p bs).1 ++ flush (feed p bs).2

/-- The text of a sequence of bytes. -/
def decode (bs : List ℕ) : List Char := decodeFrom .idle bs

/-- The characters that are complete, and what is waited for, after some bytes. -/
def done (bs : List ℕ) : List Char := (feed .idle bs).1

/-- What is waited for after some bytes. -/
def pending (bs : List ℕ) : Pending := (feed .idle bs).2

@[simp] theorem decode_nil : decode [] = [] := rfl

theorem decode_eq (x : List ℕ) : decode x = done x ++ flush (pending x) := rfl

theorem feed_append (x y : List ℕ) : ∀ p, feed p (x ++ y) =
    ((feed p x).1 ++ (feed (feed p x).2 y).1, (feed (feed p x).2 y).2) := by
  induction x with
  | nil =>
    intro p
    rfl
  | cons b x ih =>
    intro p
    rw [cons_append, feed, ih, feed, append_assoc]

theorem decode_append (x y : List ℕ) : decode (x ++ y) = done x ++ decodeFrom (pending x) y := by
  unfold decode decodeFrom done pending
  rw [feed_append, append_assoc]

theorem done_append (x y : List ℕ) : done (x ++ y) = done x ++ (feed (pending x) y).1 := by
  unfold done pending
  rw [feed_append]

theorem length_step (p : Pending) (b : ℕ) :
    (flush p).length ≤ (step p b).1.length + (flush (step p b).2).length := by
  cases p with
  | idle => exact Nat.zero_le _
  | wait need lo hi acc =>
    simp only [step]
    by_cases hin : 0x80 + lo ≤ b ∧ b ≤ 0x80 + hi
    · rw [if_pos hin]
      by_cases hlast : need ≤ 1
      · rw [if_pos hlast]
        exact le_rfl
      · rw [if_neg hlast]
        exact le_rfl
    · rw [if_neg hin]
      have hone : (flush (.wait need lo hi acc)).length = 1 := rfl
      rw [hone, length_cons]
      omega

theorem length_decodeFrom (bs : List ℕ) : ∀ p, (flush p).length ≤ (decodeFrom p bs).length := by
  induction bs with
  | nil =>
    intro p
    exact le_rfl
  | cons b bs ih =>
    intro p
    have hstep := length_step p b
    have hrest := ih (step p b).2
    unfold decodeFrom at hrest ⊢
    rw [feed]
    simp only [length_append] at hrest ⊢
    omega

theorem length_decode_le (x y : List ℕ) : (decode x).length ≤ (decode (x ++ y)).length := by
  have hle := length_decodeFrom y (pending x)
  rw [decode_append, decode_eq, length_append, length_append]
  omega

/-! ### Pieces -/

/-- **A character is split** between two sequences of bytes: the first one ends inside of it, and it
is completed in the second one, to another character than the one that stands for it so far. -/
def Splits (x y : List ℕ) : Prop :=
  pending x ≠ .idle ∧ (decodeFrom (pending x) y).head? ≠ some repl

instance (x y : List ℕ) : Decidable (Splits x y) := inferInstanceAs (Decidable (_ ∧ _))

theorem prefix_iff (x y : List ℕ) : decode x <+: decode (x ++ y) ↔ ¬Splits x y := by
  rw [decode_append, decode_eq, prefix_append_right_inj]
  unfold Splits
  cases hp : pending x with
  | idle => exact ⟨fun _ h => h.1 rfl, fun _ => nil_prefix⟩
  | wait need lo hi acc =>
    have hne : Pending.wait need lo hi acc ≠ .idle := fun h => (by cases h)
    cases hd : decodeFrom (.wait need lo hi acc) y with
    | nil =>
      have hle := length_decodeFrom y (.wait need lo hi acc)
      rw [hd] at hle
      exact absurd hle (Nat.not_succ_le_zero _)
    | cons c rest =>
      simp only [flush, cons_prefix_cons, nil_prefix, and_true, head?_cons,
        Option.some.injEq, not_and, not_not, hne, ne_eq, not_false_eq_true, true_imp_iff]
      exact eq_comm

/-- What is new in the texts of growing sequences of bytes, according to their lengths. -/
def news : List ℕ → List (List ℕ) → List Char
  | _, [] => []
  | x, p :: ps => (decode (x ++ p)).drop (decode x).length ++ news (x ++ p) ps

/-- What was given out is as long as the text, and ends with a replacement character if the text ends
inside of a character. -/
def Sent (s : List Char) (x : List ℕ) : Prop :=
  ∃ s', s = s' ++ flush (pending x) ∧ s'.length = (done x).length

theorem Sent.length {s : List Char} {x : List ℕ} (h : Sent s x) : s.length = (decode x).length := by
  obtain ⟨s', rfl, hlen⟩ := h
  rw [decode_eq, length_append, length_append, hlen]

theorem Sent.next {s : List Char} {x : List ℕ} (h : Sent s x) (p : List ℕ) :
    Sent (s ++ (decode (x ++ p)).drop (decode x).length) (x ++ p) := by
  have hlen := h.length
  have hle := length_decode_le x p
  obtain ⟨s', hs', hlen'⟩ := h
  have hdone : (done x).length ≤ (done (x ++ p)).length := by
    rw [done_append, length_append]
    omega
  rw [decode_eq (x ++ p)] at hle ⊢
  rw [length_append] at hle
  by_cases hin : (decode x).length ≤ (done (x ++ p)).length
  · rw [drop_append_of_le_length hin, ← append_assoc]
    refine ⟨_, rfl, ?_⟩
    rw [length_append, length_drop, hlen]
    omega
  -- the piece adds nothing to a character that is incomplete
  rw [decode_eq x, length_append] at hin hle
  cases hx : pending x with
  | idle =>
    rw [hx] at hin
    simp only [flush, length_nil] at hin
    omega
  | wait need lo hi acc =>
    rw [hx] at hin hle hs'
    simp only [flush, length_cons, length_nil] at hin hle
    cases hxp : pending (x ++ p) with
    | idle =>
      rw [hxp] at hle
      simp only [length_nil] at hle
      omega
    | wait need' lo' hi' acc' =>
      refine ⟨s', ?_, by omega⟩
      rw [hs', drop_eq_nil_of_le, append_nil, hxp]
      · rfl
      · rw [length_append, decode_eq x, length_append, hx]
        simp only [flush, length_cons, length_nil]
        omega

theorem Sent.news (ps : List (List ℕ)) : ∀ {s : List Char} {x : List ℕ}, Sent s x →
    Sent (s ++ news x ps) (x ++ ps.flatten) := by
  induction ps with
  | nil =>
    intro s x h
    simpa [Utf8.news] using h
  | cons p ps ih =>
    intro s x h
    have hrest := ih (h.next p)
    rw [append_assoc, append_assoc] at hrest
    exact hrest

theorem news_append (ps qs : List (List ℕ)) : ∀ x : List ℕ,
    news x (ps ++ qs) = news x ps ++ news (x ++ ps.flatten) qs := by
  induction ps with
  | nil =>
    intro x
    simp [news]
  | cons p ps ih =>
    intro x
    rw [cons_append, news, news, ih, flatten_cons, append_assoc, append_assoc]

theorem news_of_not_splits (ps : List (List ℕ)) : ∀ x : List ℕ,
    (∀ qs rs, ps = qs ++ rs → ¬Splits (x ++ qs.flatten) rs.flatten) →
    decode x ++ news x ps = decode (x ++ ps.flatten) := by
  induction ps with
  | nil =>
    intro x _
    simp [news]
  | cons p ps ih =>
    intro x h
    have hrest := ih (x ++ p) fun qs rs hps => by
      have hp := h (p :: qs) rs (by rw [hps, cons_append])
      rw [flatten_cons, ← append_assoc] at hp
      exact hp
    -- both texts are the beginning of the whole one
    have hx := (prefix_iff x _).2 (h [] (p :: ps) rfl |> fun h => by simpa using h)
    have hxp := (prefix_iff (x ++ p) _).2 (h [p] ps rfl |> fun h => by simpa using h)
    rw [← append_assoc] at hx
    have hpre := prefix_of_prefix_length_le hx hxp (length_decode_le x p)
    rw [news, flatten_cons, ← append_assoc x, ← hrest, ← append_assoc]
    congr 1
    obtain ⟨t, ht⟩ := hpre
    rw [← ht, drop_left]

theorem news_eq_iff (ps : List (List ℕ)) : news [] ps = decode ps.flatten ↔
    ∀ qs rs, ps = qs ++ rs → ¬Splits qs.flatten rs.flatten := by
  constructor
  · intro h qs rs hps
    have hstart : Sent [] [] := ⟨[], rfl, rfl⟩
    obtain ⟨s', hs', hlen⟩ := hstart.news qs
    rw [nil_append, nil_append] at hs'
    rw [← prefix_iff, ← flatten_append, ← hps, ← h, hps, news_append, hs', decode_eq]
    -- what was given out is the beginning of the whole text, and so is what is complete
    have hwhole : s' ++ (flush (pending qs.flatten) ++ news ([] ++ qs.flatten) rs) =
        done qs.flatten ++ decodeFrom (pending qs.flatten) rs.flatten := by
      rw [← decode_append, ← flatten_append, ← hps, ← h, hps, news_append, hs', append_assoc]
    rw [(append_inj hwhole hlen).1, append_assoc]
    exact (prefix_append_right_inj _).2 (prefix_append _ _)
  · intro h
    have hnews := news_of_not_splits ps [] (fun qs rs hps => by simpa using h qs rs hps)
    simpa using hnews

/-! ### ASCII -/

theorem decodeFrom_ascii {b : ℕ} (hb : b < 0x80) (p : Pending) (y : List ℕ) :
    decodeFrom p (b :: y) = flush p ++ decode (b :: y) := by
  have hstart : start b = ([Char.ofNat b], .idle) := if_pos hb
  cases p with
  | idle => rfl
  | wait need lo hi acc =>
    have hout : ¬(0x80 + lo ≤ b ∧ b ≤ 0x80 + hi) := by omega
    unfold decode decodeFrom
    rw [feed, feed]
    simp only [step, if_neg hout, hstart]
    rfl

def Ascii (w : List Char) : Prop := ∀ c ∈ w, c.toNat < 0x80

def asciiBytes (w : List Char) : List ℕ := w.map Char.toNat

theorem decodeFrom_asciiBytes {w : List Char} (hw : Ascii w) (y : List ℕ) :
    decode (asciiBytes w ++ y) = w ++ decode y := by
  induction w with
  | nil => rfl
  | cons c w ih =>
    obtain ⟨hc, hw⟩ := forall_mem_cons.1 hw
    have hstart : start c.toNat = ([c], .idle) := by
      rw [start, if_pos hc, Char.ofNat_toNat]
    have hrest := ih hw
    unfold decode decodeFrom asciiBytes at hrest ⊢
    rw [map_cons, cons_append, feed]
    simp only [step, hstart, cons_append, nil_append]
    rw [hrest]

theorem decode_append_ascii {b : ℕ} (hb : b < 0x80) (x y : List ℕ) :
    decode (x ++ b :: y) = decode x ++ decode (b :: y) := by
  rw [decode_append, decodeFrom_ascii hb, decode_eq x, append_assoc]

theorem decode_around_ascii {w : List Char} (hw : Ascii w) (hne : w ≠ []) (x y : List ℕ) :
    decode (x ++ asciiBytes w ++ y) = decode x ++ w ++ decode y := by
  obtain ⟨c, w', rfl⟩ := exists_cons_of_ne_nil hne
  have hc : c.toNat < 0x80 := hw c mem_cons_self
  have hhead : asciiBytes (c :: w') ++ y = c.toNat :: (asciiBytes w' ++ y) := rfl
  rw [append_assoc, hhead, decode_append_ascii hc, ← hhead, decodeFrom_asciiBytes hw, append_assoc]

end Utf8
end LayerStorm.Lib
