import Mathlib

/-!
# Offloading routed misses to the host

`choose_cpu_offload` decides which routed misses of a layer are computed on the host.  It takes the
misses one by one off the device that is the bottleneck, the one with the largest net relief first,
and keeps the number of misses at which the modelled wall of the layer is least; to offload nothing
is always among the choices.

The numbers are those of an ordered field, and the exponential function is a parameter.
-/

namespace LayerStorm.GpuLoader

open Function List

variable {F : Type} [Field F] [LinearOrder F]

/-! ### Calibrated constants -/

structure ComputeCurve (F : Type) where
  aUs : F
  bUs : F
  P : ℤ
  deriving DecidableEq

structure DeviceConstants (F : Type) where
  position : ℤ
  compute : ComputeCurve F
  deriving DecidableEq

structure TransferCell (F : Type) where
  rateUs : F
  latUs : F
  deriving DecidableEq

/-- `LoaderConstants`; `bankNodes` are the nodes of the banks, and `placeWNuma` is the trained
weight of the placement sum, if the file has one. -/
structure LoaderConstants (F : Type) where
  numDevices : ℕ
  numBanks : ℕ
  placeWNuma : Option F
  devices : List (DeviceConstants F)
  bankNodes : List ℤ
  matrix : List (List (TransferCell F))
  deriving DecidableEq

def kMaxDevices : ℕ := 16

def kMaxExperts : ℕ := 64

namespace LoaderConstants

variable (K : LoaderConstants F)

def position (j : ℕ) : ℤ := (K.devices[j]?.map DeviceConstants.position).getD (-1)

def compute (j : ℕ) : ComputeCurve F :=
  (K.devices[j]?.map DeviceConstants.compute).getD ⟨0, 0, 1⟩

/-- `bank_of_node`: an unknown node counts as bank 0. -/
def bankOfNode (node : ℤ) : ℕ :=
  ((List.range K.numBanks).find? fun b => K.bankNodes[b]? = some node).getD 0

def jOfPos (pos : ℤ) : Option ℕ := (List.range K.numDevices).find? fun j => K.position j = pos

/-- The time to fetch an expert from a bank to a device. -/
def fetchUs (b j : ℕ) : F :=
  (((K.matrix[b]?).bind fun row => row[j]?).map fun cell => cell.rateUs + cell.latUs).getD 0

end LoaderConstants

def computeUs (cc : ComputeCurve F) (c : ℤ) : F :=
  if c ≤ 0 then 0
  else
    let P := if 0 < cc.P then cc.P else 1
    let batches := if P = 1 then c else 1 + (c - 1) / P
    cc.aUs * c + cc.bUs * batches

/-! ### The loop -/

/-- `CpuMiss`, with the entry of the command and the device that the record was made for. -/
structure CpuMiss (F : Type) where
  fetch : F
  placeCost : F
  i : ℕ
  eidx : ℕ
  entry : ℕ
  device : ℕ
  deriving DecidableEq

structure CpuCurve (F : Type) where
  aFixed : F
  aPertok : F
  fold : F
  mult : F
  etaFloor : F
  etaTau : F
  deriving DecidableEq

/-- What the decision starts from: the misses of each device, the sum of their fetch times and the
number of experts on the device. -/
structure OffloadInput (F : Type) where
  K : LoaderConstants F
  chunkWidth : ℕ
  curve : CpuCurve F
  stack : ℕ → List (CpuMiss F)
  sub : ℕ → F
  cnt : ℕ → ℤ

namespace OffloadInput

variable (exp : F → F) (inp : OffloadInput F)

def bd : F := (max 1 inp.chunkWidth : ℕ)

def gpuComp (j : ℕ) (c : ℤ) : F :=
  if c ≤ 0 then 0 else computeUs (inp.K.compute j) c + (inp.K.compute j).aUs * c * (inp.bd - 1)

def makespan (sub : ℕ → F) (cnt : ℕ → ℤ) : F :=
  (List.range inp.K.numDevices).foldl (fun g j => max g (sub j + inp.gpuComp j (cnt j))) 0

def hostExp : F := (inp.curve.aFixed + inp.curve.aPertok * inp.bd) * inp.curve.mult

def eta : F := 1 - (1 - inp.curve.etaFloor) * exp (-(inp.bd - 1) / inp.curve.etaTau)

/-- The wall when `k` misses are offloaded: the makespan, what of the work of the host is exposed,
and the placement costs. -/
def wall (g : F) (k : ℕ) (cumPlace : F) : F :=
  let cpuWall := inp.curve.fold * inp.curve.mult + k * inp.hostExp
  g + max 0 (cpuWall - inp.eta exp * g) + cumPlace

/-- The state of the loop; `stack` holds what is left on each device, the next record first. -/
structure Greedy (F : Type) where
  stack : ℕ → List (CpuMiss F)
  sub : ℕ → F
  cnt : ℕ → ℤ
  order : List (CpuMiss F)
  cumPlace : F
  bestWall : F
  bestK : ℕ

/-- The device from which the next miss is taken. -/
def bottleneck (s : Greedy F) : Option ℕ :=
  ((List.range inp.K.numDevices).foldl (fun (best : Option ℕ × F) j =>
    if s.stack j = [] then best
    else
      let gj := s.sub j + inp.gpuComp j (s.cnt j)
      if best.2 < gj then (some j, gj) else best) (none, -1)).1

/-- `1e-9`. -/
def kWallEps : F := 1 / 10 ^ 9

/-- Taking one record off its stack. -/
def take (s : Greedy F) (jb : ℕ) (mm : CpuMiss F) (rest : List (CpuMiss F)) : Greedy F :=
  let sub := Function.update s.sub jb (s.sub jb - mm.fetch)
  let cnt := Function.update s.cnt jb (s.cnt jb - 1)
  let order := s.order ++ [mm]
  let cumPlace := s.cumPlace + mm.placeCost
  let wall := inp.wall exp (inp.makespan sub cnt) order.length cumPlace
  { stack := Function.update s.stack jb rest
    sub := sub
    cnt := cnt
    order := order
    cumPlace := cumPlace
    bestWall := if wall < s.bestWall - kWallEps then wall else s.bestWall
    bestK := if wall < s.bestWall - kWallEps then order.length else s.bestK }

/-- One round; `none` when the loop is left. -/
def round (s : Greedy F) : Option (Greedy F) :=
  match inp.bottleneck s with
  | none => none
  | some jb =>
    match s.stack jb with
    | [] => none
    | mm :: rest => some (inp.take exp s jb mm rest)

def loop : ℕ → Greedy F → Greedy F
  | 0, s => s
  | n + 1, s =>
    match inp.round exp s with
    | none => s
    | some s' => loop n s'

@[simp] theorem take_stack (s : Greedy F) (jb : ℕ) (mm : CpuMiss F) (rest : List (CpuMiss F)) :
    (inp.take exp s jb mm rest).stack = update s.stack jb rest := rfl

/-- Sorting a stack: the largest net relief comes first. -/
def sortStack (l : List (CpuMiss F)) : List (CpuMiss F) :=
  (l.insertionSort fun a b => a.fetch - a.placeCost ≤ b.fetch - b.placeCost).reverse

/-- The state before the loop. -/
def start : Greedy F where
  stack j := sortStack (inp.stack j)
  sub := inp.sub
  cnt := inp.cnt
  order := []
  cumPlace := 0
  bestWall := inp.makespan inp.sub inp.cnt
  bestK := 0

def mTotal : ℕ := ((List.range inp.K.numDevices).map fun j => (inp.stack j).length).sum

/-- `choose_cpu_offload`: the records that are picked. -/
def chooseCpuOffload : List (CpuMiss F) :=
  let s := inp.loop exp inp.mTotal (inp.start)
  s.order.take s.bestK

/-! ### The modelled wall of a set -/

/-- The fetch times of a device without those of the offloaded misses. -/
def subWithout (off : List (CpuMiss F)) (j : ℕ) : F :=
  inp.sub j - ((off.filter fun m => m.device = j).map CpuMiss.fetch).sum

/-- The number of experts of a device without the offloaded misses. -/
def cntWithout (off : List (CpuMiss F)) (j : ℕ) : ℤ :=
  inp.cnt j - (off.filter fun m => m.device = j).length

/-- **The modelled wall of the layer** when a list of misses is offloaded. -/
def layerWall (off : List (CpuMiss F)) : F :=
  let g := inp.makespan (inp.subWithout off) (inp.cntWithout off)
  if off = [] then g else inp.wall exp g off.length (off.map CpuMiss.placeCost).sum

/-- The records stand on the stack of their device, each of them once. -/
structure Stacked : Prop where
  device : ∀ j, ∀ m ∈ inp.stack j, m.device = j
  nodup : ∀ j, (inp.stack j).Nodup

variable {exp inp}

omit [LinearOrder F] in
theorem subWithout_nil : inp.subWithout [] = inp.sub := by
  funext j
  simp [subWithout]

omit [Field F] [LinearOrder F] in
theorem cntWithout_nil : inp.cntWithout [] = inp.cnt := by
  funext j
  simp [cntWithout]

omit [LinearOrder F] in
theorem subWithout_snoc (off : List (CpuMiss F)) (m : CpuMiss F) : inp.subWithout (off ++ [m]) =
      update (inp.subWithout off) m.device (inp.subWithout off m.device - m.fetch) := by
  funext j
  by_cases h : m.device = j
  · subst h
    simp [subWithout, sub_sub]
  · rw [update_of_ne (Ne.symm h)]
    simp [subWithout, h]

omit [Field F] [LinearOrder F] in
theorem cntWithout_snoc (off : List (CpuMiss F)) (m : CpuMiss F) : inp.cntWithout (off ++ [m]) =
      update (inp.cntWithout off) m.device (inp.cntWithout off m.device - 1) := by
  funext j
  by_cases h : m.device = j
  · subst h
    simp [cntWithout, sub_sub]
  · rw [update_of_ne (Ne.symm h)]
    simp [cntWithout, h]

variable {m : CpuMiss F}

theorem sortStack_perm (l : List (CpuMiss F)) : (sortStack l).Perm l :=
  (reverse_perm _).trans (perm_insertionSort _ l)

/-! ### The loop invariant -/

/-- **The loop invariant**: the sums and counts are those without the records taken so far, and the
best wall is that of the prefix it was found for; no record is taken twice. -/
structure GreedyInv (exp : F → F) (inp : OffloadInput F) (s : Greedy F) : Prop where
  left : ∀ j, ∀ m ∈ s.stack j, m ∈ inp.stack j
  taken : ∀ m ∈ s.order, m ∈ inp.stack m.device
  nodup : s.order.Nodup
  fresh : ∀ j, (s.stack j).Nodup ∧ ∀ m ∈ s.stack j, m ∉ s.order
  sub : s.sub = inp.subWithout s.order
  cnt : s.cnt = inp.cntWithout s.order
  place : s.cumPlace = (s.order.map CpuMiss.placeCost).sum
  bestK_le : s.bestK ≤ s.order.length
  best : s.bestWall = inp.layerWall exp (s.order.take s.bestK)
  gain : s.bestK = 0 ∨ s.bestWall < inp.layerWall exp [] - kWallEps

theorem greedyInv_start (hst : inp.Stacked) : GreedyInv exp inp (inp.start) where
  left _ _ hm := (sortStack_perm _).mem_iff.1 hm
  taken _ hm := absurd hm not_mem_nil
  nodup := nodup_nil
  fresh j := ⟨(sortStack_perm _).nodup_iff.2 (hst.nodup j), fun _ _ => not_mem_nil⟩
  sub := subWithout_nil.symm
  cnt := cntWithout_nil.symm
  place := rfl
  bestK_le := le_rfl
  best := by
    rw [start, take_nil, layerWall, if_pos rfl, subWithout_nil, cntWithout_nil]
  gain := .inl rfl

variable [IsStrictOrderedRing F]

theorem kWallEps_nonneg : (0 : F) ≤ kWallEps := by
  unfold kWallEps
  positivity

theorem GreedyInv.take {s : Greedy F} {jb : ℕ} {mm : CpuMiss F} {rest : List (CpuMiss F)}
    (h : GreedyInv exp inp s) (hst : inp.Stacked) (hstack : s.stack jb = mm :: rest) :
    GreedyInv exp inp (inp.take exp s jb mm rest) := by
  have hmem : mm ∈ inp.stack jb := h.left jb mm (hstack ▸ mem_cons_self)
  have hdev : mm.device = jb := hst.device jb mm hmem
  obtain ⟨hrest, hnew⟩ := hstack ▸ h.fresh jb
  have hsub : update s.sub jb (s.sub jb - mm.fetch) = inp.subWithout (s.order ++ [mm]) := by
    rw [subWithout_snoc, hdev, h.sub]
  have hcnt : update s.cnt jb (s.cnt jb - 1) = inp.cntWithout (s.order ++ [mm]) := by
    rw [cntWithout_snoc, hdev, h.cnt]
  have hplace : s.cumPlace + mm.placeCost = ((s.order ++ [mm]).map CpuMiss.placeCost).sum := by
    simp [h.place]
  -- the wall of the round is the modelled wall of all records taken so far
  have hwall : inp.wall exp (inp.makespan (update s.sub jb (s.sub jb - mm.fetch))
      (update s.cnt jb (s.cnt jb - 1))) (s.order ++ [mm]).length
        (s.cumPlace + mm.placeCost) = inp.layerWall exp (s.order ++ [mm]) := by
    rw [hsub, hcnt, hplace, layerWall, if_neg (append_ne_nil_of_right_ne_nil _ (cons_ne_nil _ _))]
  have heps : (0 : F) ≤ kWallEps := kWallEps_nonneg
  refine ⟨fun j m hm => ?_, fun m hm => ?_, ?_, fun j => ?_, hsub, hcnt, hplace, ?_, ?_, ?_⟩
  · by_cases hj : j = jb
    · subst hj
      rw [take_stack, update_self] at hm
      exact h.left j m (hstack ▸ mem_cons_of_mem _ hm)
    · rw [take_stack, update_of_ne hj] at hm
      exact h.left j m hm
  · rcases mem_append.1 hm with hm | hm
    · exact h.taken m hm
    · obtain rfl := mem_singleton.1 hm
      exact hdev ▸ hmem
  · exact nodup_append_comm.1 (nodup_cons.2 ⟨hnew mm mem_cons_self, h.nodup⟩)
  · simp only [OffloadInput.take, mem_append, mem_singleton, not_or]
    by_cases hj : j = jb
    · subst hj
      rw [update_self]
      obtain ⟨hmm, hrest⟩ := nodup_cons.1 hrest
      exact ⟨hrest, fun m hm => ⟨hnew m (mem_cons_of_mem _ hm), fun he => hmm (he ▸ hm)⟩⟩
    · -- a record of another stack is of another device
      rw [update_of_ne hj]
      refine ⟨(h.fresh j).1, fun m hm => ⟨(h.fresh j).2 m hm, fun he => hj ?_⟩⟩
      rw [← hst.device j m (h.left j m hm), he, hdev]
  · have hle := h.bestK_le
    simp only [OffloadInput.take, length_append]
    split
    · exact le_rfl
    · exact hle.trans (Nat.le_succ _)
  · simp only [OffloadInput.take, hwall]
    split
    · rw [take_length]
    · rw [take_append_of_le_length h.bestK_le]
      exact h.best
  · simp only [OffloadInput.take]
    split
    · next hlt =>
      -- the first gain is over the wall of offloading nothing
      rcases h.gain with hzero | hgain
      · rw [h.best, hzero] at hlt
        exact .inr hlt
      · exact .inr (hlt.trans_le ((sub_le_self _ heps).trans hgain.le))
    · exact h.gain

theorem GreedyInv.round {s s' : Greedy F} (h : GreedyInv exp inp s) (hst : inp.Stacked)
    (hr : inp.round exp s = some s') : GreedyInv exp inp s' := by
  unfold OffloadInput.round at hr
  split at hr
  · cases hr
  split at hr
  · cases hr
  next hstack =>
  cases hr
  exact h.take hst hstack

variable (hst : inp.Stacked)
include hst

theorem GreedyInv.loop : ∀ (n : ℕ) {s : Greedy F}, GreedyInv exp inp s →
    GreedyInv exp inp (inp.loop exp n s) := by
  intro n
  induction n with
  | zero => exact fun h => h
  | succ n ih =>
    intro s h
    unfold OffloadInput.loop
    split
    · exact h
    · next hr => exact ih (h.round hst hr)

/-- **What is picked is a candidate** of its device. -/
theorem mem_of_chosen (hm : m ∈ inp.chooseCpuOffload exp) : m ∈ inp.stack m.device :=
  ((greedyInv_start hst).loop hst _).taken m (mem_of_mem_take hm)

theorem nodup_chosen : (inp.chooseCpuOffload exp).Nodup :=
  ((greedyInv_start hst).loop hst _).nodup.sublist (take_sublist _ _)

/-- **Offloading pays**: the wall of the picked set is below that of offloading nothing. -/
theorem chosen_gain : inp.chooseCpuOffload exp = [] ∨
    inp.layerWall exp (inp.chooseCpuOffload exp) < inp.layerWall exp [] - kWallEps := by
  have h : GreedyInv exp inp (inp.loop exp inp.mTotal (inp.start)) := (greedyInv_start hst).loop hst _
  simp only [chooseCpuOffload]
  rcases h.gain with hzero | hgain
  · rw [hzero]
    exact .inl take_zero
  · exact .inr (h.best ▸ hgain)

/-- **The wall of the picked set is at most that of offloading nothing.** -/
theorem layerWall_chosen_le :
    inp.layerWall exp (inp.chooseCpuOffload exp) ≤ inp.layerWall exp [] := by
  have heps : (0 : F) ≤ kWallEps := kWallEps_nonneg
  have h : inp.chooseCpuOffload exp = [] ∨
      inp.layerWall exp (inp.chooseCpuOffload exp) < inp.layerWall exp [] - kWallEps :=
    chosen_gain hst
  rcases h with hnil | hgain
  · rw [hnil]
  · exact hgain.le.trans (sub_le_self _ heps)

theorem choose_eq_nil (h : ∀ l ≠ [], l.Nodup → (∀ m ∈ l, m ∈ inp.stack m.device) →
    inp.layerWall exp [] - kWallEps ≤ inp.layerWall exp l) : inp.chooseCpuOffload exp = [] := by
  by_contra hne
  apply (h _ hne (nodup_chosen hst) fun m hm => mem_of_chosen hst hm).not_gt
  exact (chosen_gain hst).resolve_left hne

end OffloadInput
end LayerStorm.GpuLoader
