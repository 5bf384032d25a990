import LayerStorm.Compute.PackedProjection
import LayerStorm.Lib.Blocks
import LayerStorm.Lib.CheckedBuffer

/-!
# Interleaved group scales

The grouped GEMM takes the group scales of an NVFP4 projection in atoms of 128 rows and 4 groups.
`reformat_nvfp4_sfb` writes a row-major matrix of scales in this order, with zeros up to whole
atoms; the packer does it in place, for matrices that are made of whole atoms.

The buffers are lists of bytes; an access outside of one fails.

## Main results

* `sfb_interleaving` — **no access is outside and no scale is lost**.
-/

namespace LayerStorm.Weights.Sfb

open List Lib CheckedBuffer

abbrev Buffer := List UInt8

/-! ### Reformatting -/

def nPad (nRows : ℕ) : ℕ := (nRows + 127) / 128 * 128

def gPad (groups : ℕ) : ℕ := (groups + 3) / 4 * 4

/-- The place of the scale of a row and a group. -/
def sfbOffset (groups n g : ℕ) : ℕ :=
  let tile := n / 128 * (gPad groups / 4) + g / 4
  tile * 512 + n % 32 * 16 + n % 128 / 32 * 4 + g % 4

/-- `reformat_nvfp4_sfb`: the destination afterwards.  The two loops are one over the pairs. -/
def reformatNvfp4Sfb (dst src : Buffer) (nRows groups : ℕ) : Option Buffer := do
  let dst ← fill dst 0 (nPad nRows * gPad groups)
  (range nRows ×ˢ range groups).foldlM (fun dst p =>
    src[p.1 * groups + p.2]?.bind (store dst (sfbOffset groups p.1 p.2))) dst

/-- `reformat_nvfp4_sfb_inplace`: the buffer and the scratch afterwards. -/
def reformatNvfp4SfbInplace (buf : Buffer) (nRows groups : ℕ) (scratch : Buffer) :
    Option (Buffer × Buffer) := do
  let bytes := nRows * groups
  let scratch := scratch ++ replicate (bytes - scratch.length) 0
  let scratch ← reformatNvfp4Sfb scratch buf nRows groups
  let buf ← copy buf scratch bytes
  return (buf, scratch)

/-- The matrices that `pack_proj` interleaves in a region of `sb` bytes. -/
def Alignable (scaleRows scaleGroups sb : ℕ) : Prop :=
  scaleRows % 128 = 0 ∧ scaleGroups % 4 = 0 ∧ scaleRows * scaleGroups = sb

instance (scaleRows scaleGroups sb : ℕ) : Decidable (Alignable scaleRows scaleGroups sb) :=
  inferInstanceAs (Decidable (_ ∧ _))

/-- The scales that `pack_proj` writes to their region, in the order of the checkpoint. -/
def rawScales (region : Buffer) (ws : Option Buffer) : Option Buffer :=
  match ws with
  | some data =>
    if region.length ≤ data.length then copy region data region.length
    else fill region 0x7E region.length
  | none => fill region 0x7E region.length

/-- The group scales of `pack_proj`: the region and the scratch afterwards. -/
def packScales (region : Buffer) (ws : Option Buffer) (scaleRows scaleGroups : ℕ)
    (scratch : Buffer) : Option (Buffer × Buffer) := do
  let raw ← rawScales region ws
  if Alignable scaleRows scaleGroups region.length then
    reformatNvfp4SfbInplace raw scaleRows scaleGroups scratch
  else
    return (raw, scratch)

variable {dst src : Buffer} {nRows groups n n' g g' : ℕ}

theorem gPad_div (groups : ℕ) : gPad groups / 4 = (groups + 3) / 4 :=
  Nat.mul_div_cancel _ (by omega)

/-- The kernels look for a scale at its place. -/
theorem sfbOffset_eq_scaleByteIndex (groups n g : ℕ) :
    sfbOffset groups n g = Compute.scaleByteIndex n g groups := by
  simp only [sfbOffset, Compute.scaleByteIndex, gPad_div]

theorem sfbOffset_inj (hg : g < groups) (hg' : g' < groups)
    (h : sfbOffset groups n g = sfbOffset groups n' g') : n = n' ∧ g = g' := by
  simp only [sfbOffset, gPad_div] at h
  have hcol : g / 4 < (groups + 3) / 4 := by omega
  have hcol' : g' / 4 < (groups + 3) / 4 := by omega
  -- the tile, and the three digits of the place in it
  rw [Nat.add_assoc, Nat.add_assoc, Nat.add_assoc _ _ (g' % 4), Nat.add_assoc _ _ (_ + _)] at h
  obtain ⟨htile, hwithin⟩ := block_index (by omega) (by omega) h
  obtain ⟨hrow, hcolumn⟩ := block_index hcol hcol' htile
  obtain ⟨hlow, hrest⟩ := block_index (by omega) (by omega) hwithin
  obtain ⟨hhigh, hgroup⟩ := block_index (by omega) (by omega) hrest
  clear h htile hwithin hrest
  omega

/-- The places lie in the padded matrix. -/
theorem sfbOffset_lt (hn : n < nRows) (hg : g < groups) :
    sfbOffset groups n g < nPad nRows * gPad groups := by
  have hrow : n / 128 < (nRows + 127) / 128 := by omega
  have hcol : g / 4 < (groups + 3) / 4 := by omega
  have htile := block_lt hrow hcol
  calc
    sfbOffset groups n g < (n / 128 * ((groups + 3) / 4) + g / 4 + 1) * 512 := by
      simp only [sfbOffset, gPad_div]
      omega
    _ ≤ (nRows + 127) / 128 * ((groups + 3) / 4) * 512 := Nat.mul_le_mul_right _ htile
    _ = nPad nRows * gPad groups := by
      unfold nPad gPad
      ring

/-- The buffer holds every scale at its place, zeros at the other places of the padded matrix, and
behind it what it held. -/
structure Interleaved (dst src : Buffer) (nRows groups : ℕ) (out : Buffer) : Prop where
  length : out.length = dst.length
  scale : ∀ n < nRows, ∀ g < groups, out[sfbOffset groups n g]? = src[n * groups + g]?
  zero : ∀ i < nPad nRows * gPad groups,
    (∀ n < nRows, ∀ g < groups, sfbOffset groups n g ≠ i) → out[i]? = some 0
  rest : ∀ i, nPad nRows * gPad groups ≤ i → out[i]? = dst[i]?

/-- **What `reformat_nvfp4_sfb` leaves**, in buffers that are large enough. -/
theorem reformatNvfp4Sfb_ok (hdst : nPad nRows * gPad groups ≤ dst.length)
    (hsrc : nRows * groups ≤ src.length) :
    ∃ out, reformatNvfp4Sfb dst src nRows groups = some out ∧
      Interleaved dst src nRows groups out := by
  set len := nPad nRows * gPad groups with hlen
  have hlength : (replicate len 0 ++ dst.drop len).length = dst.length := by
    rw [length_append, length_replicate, length_drop]
    omega
  have hpairs : ∀ p ∈ range nRows ×ˢ range groups, p.1 < nRows ∧ p.2 < groups := by
    intro p hp
    exact (pair_mem_product.1 hp).imp mem_range.1 mem_range.1
  have hfit : ∀ p ∈ range nRows ×ˢ range groups,
      sfbOffset groups p.1 p.2 < (replicate len 0 ++ dst.drop len).length ∧
        (src[p.1 * groups + p.2]?).isSome := by
    intro p hp
    obtain ⟨hn, hg⟩ := hpairs p hp
    rw [hlength, isSome_getElem?]
    exact ⟨(sfbOffset_lt hn hg).trans_le hdst, (block_lt hn hg).trans_le hsrc⟩
  have happart : (range nRows ×ˢ range groups).Pairwise
      fun p q => sfbOffset groups p.1 p.2 ≠ sfbOffset groups q.1 q.2 := by
    refine (nodup_range.product nodup_range).imp_of_mem fun {p q} hp hq hne heq => hne ?_
    obtain ⟨h₁, h₂⟩ := sfbOffset_inj (hpairs p hp).2 (hpairs q hq).2 heq
    exact Prod.ext h₁ h₂
  obtain ⟨out, hout, houtlen, hscale, hrest⟩ := foldlM_store hfit happart
  have hother : ∀ i, (∀ n < nRows, ∀ g < groups, sfbOffset groups n g ≠ i) →
      out[i]? = (replicate len 0 ++ dst.drop len)[i]? :=
    fun i hi => hrest i fun p hp => hi _ (hpairs p hp).1 _ (hpairs p hp).2
  refine ⟨out, ?_, houtlen.trans hlength, fun n hn g hg => ?_, fun i hi hnone => ?_, fun i hi => ?_⟩
  · rw [reformatNvfp4Sfb, fill, if_pos hdst]
    exact hout
  · exact hscale (n, g) (pair_mem_product.2 ⟨mem_range.2 hn, mem_range.2 hg⟩)
  · rw [hother i hnone, getElem?_append_left (by rwa [length_replicate]),
      getElem?_replicate_of_lt hi]
  · -- no place lies behind the padded matrix
    rw [hother i fun n hn g hg heq => absurd (sfbOffset_lt hn hg) (by omega),
      getElem?_append_right (by rwa [length_replicate]), length_replicate, getElem?_drop,
      Nat.add_sub_cancel' hi]

/-- A matrix of whole atoms is not padded. -/
theorem Alignable.pad {sb : ℕ} (h : Alignable nRows groups sb) :
    nPad nRows * gPad groups = nRows * groups := by
  obtain ⟨hrows, hgroups, -⟩ := h
  have hn : nPad nRows = nRows := by
    unfold nPad
    omega
  have hg : gPad groups = groups := by
    unfold gPad
    omega
  rw [hn, hg]

theorem reformatNvfp4SfbInplace_ok {buf : Buffer} (h : Alignable nRows groups buf.length)
    (scratch : Buffer) :
    ∃ out scratch', reformatNvfp4SfbInplace buf nRows groups scratch = some (out, scratch') ∧
      out.length = buf.length ∧ ∀ n < nRows, ∀ g < groups,
        sfbOffset groups n g < buf.length ∧ out[sfbOffset groups n g]? = buf[n * groups + g]? := by
  have hsize := h.2.2
  have hroom : nRows * groups ≤
      (scratch ++ replicate (nRows * groups - scratch.length) 0).length := by
    rw [length_append, length_replicate]
    omega
  obtain ⟨out, hout, hinter⟩ := @reformatNvfp4Sfb_ok _ buf _ _ (h.pad.trans_le hroom) hsize.le
  have hlen : nRows * groups ≤ out.length := hinter.length ▸ hroom
  have hcopy : copy buf out (nRows * groups) = some (out.take (nRows * groups)) := by
    rw [copy, if_pos ⟨hsize.le, hlen⟩, hsize, drop_length, append_nil]
  refine ⟨out.take (nRows * groups), out, ?_, ?_, fun n hn g hg => ?_⟩
  · rw [reformatNvfp4SfbInplace, hout, Option.bind_eq_bind, Option.bind_some, hcopy]
    rfl
  · rw [length_take, min_eq_left hlen, hsize]
  · have hlt : sfbOffset groups n g < nRows * groups := h.pad ▸ sfbOffset_lt hn hg
    exact ⟨hsize ▸ hlt, (getElem?_take_of_lt hlt).trans (hinter.scale n hn g hg)⟩

theorem rawScales_ok (region : Buffer) (ws : Option Buffer) :
    ∃ raw, rawScales region ws = some raw ∧ raw.length = region.length := by
  have hfill : ∃ raw, fill region 0x7E region.length = some raw ∧ raw.length = region.length :=
    ⟨_, if_pos le_rfl, by simp⟩
  unfold rawScales
  cases ws with
  | none => exact hfill
  | some data =>
    dsimp only
    split_ifs with hle
    · exact ⟨_, if_pos ⟨le_rfl, hle⟩, by simp [hle]⟩
    · exact hfill

/-- **The interleaving**: the places are different and lie in the padded matrix; in buffers that are
large enough every scale gets to its place, with zeros elsewhere; and the packer, whatever the
shape, never leaves its buffers and keeps every scale. -/
theorem sfb_interleaving (nRows groups : ℕ) :
    (∀ n < nRows, ∀ g < groups, sfbOffset groups n g < nPad nRows * gPad groups) ∧
    (∀ n < nRows, ∀ g < groups, ∀ n' < nRows, ∀ g' < groups,
      sfbOffset groups n g = sfbOffset groups n' g' → n = n' ∧ g = g') ∧
    (∀ dst src : Buffer, nPad nRows * gPad groups ≤ dst.length → nRows * groups ≤ src.length →
      ∃ out, reformatNvfp4Sfb dst src nRows groups = some out ∧
        Interleaved dst src nRows groups out) ∧
    (∀ buf scratch : Buffer, Alignable nRows groups buf.length →
      ∃ out scratch', reformatNvfp4SfbInplace buf nRows groups scratch = some (out, scratch') ∧
        out.length = buf.length ∧ ∀ n < nRows, ∀ g < groups, sfbOffset groups n g < buf.length ∧
            out[sfbOffset groups n g]? = buf[n * groups + g]?) ∧
    ∀ region ws scratch, ∃ out, packScales region ws nRows groups scratch = some out := by
  refine ⟨fun n hn g hg => sfbOffset_lt hn hg, fun n _ g hg n' _ g' hg' => sfbOffset_inj hg hg',
    fun dst src => reformatNvfp4Sfb_ok,
    fun buf scratch h => reformatNvfp4SfbInplace_ok h scratch, fun region ws scratch => ?_⟩
  obtain ⟨raw, hraw, hlen⟩ := rawScales_ok region ws
  rw [packScales, hraw]
  by_cases h : Alignable nRows groups region.length
  · obtain ⟨out, scratch', hout, -⟩ := reformatNvfp4SfbInplace_ok (hlen.symm ▸ h) scratch
    exact ⟨_, (if_pos h).trans hout⟩
  · exact ⟨_, if_neg h⟩

end LayerStorm.Weights.Sfb
