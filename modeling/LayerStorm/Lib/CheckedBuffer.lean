import Mathlib.Data.List.Basic

/-!
# Buffers with checked accesses

A buffer is a list, and an access outside of it fails.  A loop that writes values to different
places succeeds if the places are in the buffer, and leaves each value at its place and the rest as
it was.
-/

namespace LayerStorm.Lib.CheckedBuffer

open List

variable {α β : Type*}

/-- A write. -/
def store (buf : List β) (i : ℕ) (v : β) : Option (List β) :=
  if i < buf.length then some (buf.set i v) else none

/-- `memset`. -/
def fill (dst : List β) (v : β) (len : ℕ) : Option (List β) :=
  if len ≤ dst.length then some (replicate len v ++ dst.drop len) else none

/-- `memcpy`. -/
def copy (dst src : List β) (len : ℕ) : Option (List β) :=
  if len ≤ dst.length ∧ len ≤ src.length then some (src.take len ++ dst.drop len) else none

variable {place : α → ℕ} {value : α → Option β}

/-- **Writes to different places.** -/
theorem foldlM_store : ∀ {l : List α} {buf : List β},
    (∀ a ∈ l, place a < buf.length ∧ (value a).isSome) →
    l.Pairwise (fun a b => place a ≠ place b) →
    ∃ out, l.foldlM (fun buf a => (value a).bind (store buf (place a))) buf = some out ∧
      out.length = buf.length ∧ (∀ a ∈ l, out[place a]? = value a) ∧
      ∀ i, (∀ a ∈ l, place a ≠ i) → out[i]? = buf[i]? := by
  intro l
  induction l with
  | nil => exact fun {buf} _ _ => ⟨buf, rfl, rfl, fun _ ha => absurd ha not_mem_nil, fun _ _ => rfl⟩
  | cons a l ih =>
    intro buf hl hpair
    obtain ⟨⟨hplace, hvalue⟩, hl⟩ := forall_mem_cons.1 hl
    obtain ⟨hne, hpair⟩ := pairwise_cons.1 hpair
    obtain ⟨v, hv⟩ := Option.isSome_iff_exists.1 hvalue
    obtain ⟨out, hout, hlen, hscale, hrest⟩ := @ih (buf.set (place a) v)
      (fun b hb => by rw [length_set]; exact hl b hb) hpair
    rw [length_set] at hlen
    refine ⟨out, ?_, hlen, forall_mem_cons.2 ⟨?_, hscale⟩, fun i hi => ?_⟩
    · rw [foldlM_cons, hv, Option.bind_some, store, if_pos hplace]
      exact hout
    · rw [hrest _ fun b hb => (hne b hb).symm, getElem?_set_self hplace, hv]
    · obtain ⟨hi₀, hi⟩ := forall_mem_cons.1 hi
      rw [hrest i hi, getElem?_set_ne hi₀]

end LayerStorm.Lib.CheckedBuffer
