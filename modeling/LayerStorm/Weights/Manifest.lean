import LayerStorm.Weights.ManifestJson

/-!
# The manifest of a prepacked directory

The manifest names the source of the expert files, their format and the layout of their slots.  It
is written after the files and then verified against the format it was built from.
-/

namespace LayerStorm.Weights

def kFormatVersion : String := "9.69.0"

def kGgufPackedQuantFormat : String := "gguf"

def kNvfp4PackedQuantFormat : String := "nvfp4-sm1xx"

def orThrow (size : Option ℕ) : Except String ℕ := size.elim (.error "exception") .ok

def projNames : List (Projection × String) :=
  [(.gate, "gate"), (.up, "up"), (.down, "down")]

/-- The description of a projection in `build_slot_from_quant`. -/
def slotDescription (quant : QuantInterface) : String :=
  if quant.name = "nvfp4" then
    "[FP4_weight | UE8M0_group_scale | PAD | weight_scale_2_F32 | input_scale_F32]"
  else if quant.isGguf then "[GGUF_kquant_blocks (scales/mins packed in-block)]"
  else "[FP8_weight | F32_blockwise_scale]"

/-- The projections of a slot from an offset on. -/
def buildProjections (quant : QuantInterface) (shape : ExpertShape) :
    List (Projection × String) → ℕ → Except String (List Prepacked.ManifestProjection)
  | [], _ => .ok []
  | (proj, name) :: rest, offset => do
    let total ← orThrow (quant.bytesPerProjection shape proj)
    let weight ← orThrow (quant.weightBytesPerProjection shape proj)
    let scalar := quant.replicatedBytesPerProjection
    let tail ← buildProjections quant shape rest (offset + total)
    .ok (⟨name, offset, total, weight, total - weight - scalar, scalar, slotDescription quant⟩ ::
      tail)

/-- The largest power of two that divides all sizes. -/
def slotAlignment (projections : List Prepacked.ManifestProjection) : ℕ :=
  let g := projections.foldr (fun p g => Nat.gcd p.totalBytes.toNat g) 0
  g &&& (2 ^ 64 - g)

def buildSlotFromQuant (quant : QuantInterface) (shape : ExpertShape) :
    Except String Prepacked.ManifestSlot := do
  let slotSize ← orThrow (quant.bytesPerExpert shape)
  let projections ← buildProjections quant shape projNames 0
  .ok ⟨slotSize, alignedSlotStride slotSize, slotAlignment projections, projections⟩

/-! ### Checks -/

def check (p : Prop) [Decidable p] (error : String) : Except String Unit :=
  if p then .ok () else .error error

theorem check_eq_ok {p : Prop} [Decidable p] {error : String} {u : Unit} :
    check p error = .ok u ↔ p := by
  unfold check
  split
  · next h => exact ⟨fun _ => h, fun _ => rfl⟩
  · next h => exact ⟨fun hc => (by cases hc), fun hp => absurd hp h⟩

theorem orThrow_eq_ok {size : Option ℕ} {n : ℕ} : orThrow size = .ok n ↔ size = some n := by
  cases size <;> simp [orThrow]

theorem bind_eq_ok {α β : Type} {x : Except String α} {f : α → Except String β} {b : β} :
    (x >>= f) = .ok b ↔ ∃ a, x = .ok a ∧ f a = .ok b := by
  cases x with
  | error e =>
    constructor
    · intro h
      cases h
    · rintro ⟨a, h, -⟩
      cases h
  | ok a =>
    constructor
    · exact fun h => ⟨a, rfl, h⟩
    · rintro ⟨a', h, hf⟩
      cases h
      exact hf

end LayerStorm.Weights
