import Mathlib

/-!
# Expert slot targets

`expert_targets` deals the slots that the lever `vram_expert_ratio` asks for.  Every GPU of the
tensor-parallel group gets the floor of the engine; the rest goes to the other GPUs in two rounds
of equal shares, up to their capacity, and what is left then to the group, again in equal shares.
A share is the quotient of an integer division, and what the last division leaves over is reported
as a lack of VRAM.

Floats are rational numbers, and an entry that is missing from the targets counts as zero.

## Main results

* `expert_targets_iff` — **the targets are exact if and only if the slots that the hosts leave over
  can be shared equally among the group, or there is no room for them at all**.
-/

namespace LayerStorm.Autoconfig

open List
namespace ExpertTargets

structure GpuInfo where
  ordinal : ℕ
  vramMib : ℕ

/-- Why there are no targets. -/
inductive Infeasible
  /-- `expert-ratio-below-engine-floor`, with the slots asked for and the least possible. -/
  | belowEngineFloor (slots least : ℤ)
  /-- `expert-ratio-exceeds-vram`, with the slots asked for and those placed. -/
  | exceedsVram (slots achievable : ℤ)
  | zeroDivision

/-- What the function reads of the shape, the knobs, the levers and the GPUs; the slot size and the
quantum, by which the source divides, are not zero. -/
structure Input where
  nRoutedExperts : ℕ
  numMoeLayers : ℕ
  numExpertsPerTok : ℕ
  slotBytes : ℕ
  vramUsableFraction : ℚ
  vramSafetyMarginGb : ℚ
  nonTpOverheadGib : ℚ
  expertGibQuantum : ℚ
  vramExpertRatio : Option ℚ
  ordered : List GpuInfo
  tp : ℕ
  residualTpBytes : ℤ
  nodup : (ordered.map GpuInfo.ordinal).Nodup

/-! ### The function -/

def gib : ℕ := 2 ^ 30

/-- `int`, which cuts towards zero. -/
def truncate (q : ℚ) : ℤ := if 0 ≤ q then ⌊q⌋ else ⌈q⌉

/-- `round`, which takes halves to the even neighbour. -/
def roundHalfEven (q : ℚ) : ℤ :=
  if q - ⌊q⌋ < 1 / 2 ∨ (q - ⌊q⌋ = 1 / 2 ∧ ⌊q⌋ % 2 = 0) then ⌊q⌋ else ⌊q⌋ + 1

def floorGib (bytes : ℤ) (quantum : ℚ) : ℚ := ⌊bytes / gib / quantum⌋ * quantum

/-- Slots by ordinal, and how many are still to be dealt. -/
structure Slots where
  targets : ℕ → ℤ
  remaining : ℤ

def deal (take : ℕ → ℤ → ℤ) (s : Slots) (o : ℕ) : Slots :=
  ⟨Function.update s.targets o (s.targets o + take o (s.targets o)),
    s.remaining - take o (s.targets o)⟩

def hostRound (cap : ℕ → ℤ) (hosts : List ℕ) (s : Slots) : Slots :=
  let live := hosts.filter fun o => s.targets o < cap o
  if live = [] ∨ s.remaining ≤ 0 then s
  else live.foldl (deal fun o t => min (s.remaining / live.length) (cap o - t)) s

namespace Input

variable (inp : Input)

def usableBytes (g : GpuInfo) : ℤ := truncate (g.vramMib * 2 ^ 20 * inp.vramUsableFraction)

/-- The slots a host has room for. -/
def hostCap (g : GpuInfo) : ℤ :=
  truncate (floorGib (inp.usableBytes g - truncate (inp.vramSafetyMarginGb * gib) -
    truncate (inp.nonTpOverheadGib * gib)) inp.expertGibQuantum * gib) / inp.slotBytes

def tpGpus : List ℕ := (inp.ordered.take inp.tp).map GpuInfo.ordinal

def hosts : List ℕ := (inp.ordered.drop inp.tp).map GpuInfo.ordinal

def cap (o : ℕ) : ℤ := ((inp.ordered.find? fun g => g.ordinal = o).map inp.hostCap).getD 0

def floorSlots : ℤ := inp.numExpertsPerTok

def tpCapEach : ℤ := max 0 (inp.residualTpBytes / inp.slotBytes)

def dealTargets (targetSlots : ℤ) : Except Infeasible (ℕ → ℤ) :=
  let least := inp.floorSlots * inp.tpGpus.length
  if targetSlots - least < 0 then .error (.belowEngineFloor targetSlots least)
  else
    let s := hostRound inp.cap inp.hosts (hostRound inp.cap inp.hosts
      ⟨fun o => if o ∈ inp.tpGpus then inp.floorSlots else 0, targetSlots - least⟩)
    if s.remaining ≤ 0 then .ok s.targets
    else if inp.tpGpus = [] then .error .zeroDivision
    else
      let s := inp.tpGpus.foldl (deal fun _ t =>
        min (s.remaining / inp.tpGpus.length) (inp.tpCapEach - (t - inp.floorSlots))) s
      if 0 < s.remaining then .error (.exceedsVram targetSlots (targetSlots - s.remaining))
      else .ok s.targets

def targetSlots (ratio : ℚ) : ℤ := roundHalfEven (ratio * (inp.nRoutedExperts * inp.numMoeLayers))

def expertTargets : Except Infeasible (ℕ → ℤ) :=
  match inp.vramExpertRatio with
  | none => .ok fun o =>
    if o ∈ inp.tpGpus then max inp.floorSlots (inp.residualTpBytes / inp.slotBytes) else inp.cap o
  | some ratio => inp.dealTargets (inp.targetSlots ratio)

end Input

/-! ### Dealing -/

theorem foldl_deal {take : ℕ → ℤ → ℤ} {l : List ℕ} (hl : l.Nodup) : ∀ s : Slots,
    l.foldl (deal take) s =
      ⟨fun o => if o ∈ l then s.targets o + take o (s.targets o) else s.targets o,
        s.remaining - (l.map fun o => take o (s.targets o)).sum⟩ := by
  induction l with
  | nil =>
    intro s
    simp
  | cons o l ih =>
    intro s
    obtain ⟨ho, hl⟩ := nodup_cons.1 hl
    have hsame : ∀ o' ∈ l, (deal take s o).targets o' = s.targets o' :=
      fun o' ho' => Function.update_of_ne (fun heq : o' = o => ho (heq ▸ ho')) _ _
    rw [foldl_cons, ih hl, map_congr_left fun o' ho' => by rw [hsame o' ho']]
    congr 1
    · funext o'
      by_cases heq : o' = o
      · subst heq
        simp [ho, deal]
      · simp [deal, heq]
    · rw [map_cons, sum_cons, deal, sub_sub]

/-- The slots of hosts that are filled up to a level. -/
def room (cap : ℕ → ℤ) (hosts : List ℕ) (level : ℤ) : ℤ :=
  (hosts.map fun o => min level (max 0 (cap o))).sum

/-- The level after `total` slots have been shared by the hosts that are not full. -/
def raise (cap : ℕ → ℤ) (hosts : List ℕ) (total level : ℤ) : ℤ :=
  level + (total - room cap hosts level) / (hosts.countP fun o => level < cap o)

structure Filled (cap : ℕ → ℤ) (hosts : List ℕ) (total level : ℤ) (s : Slots) : Prop where
  targets : ∀ o ∈ hosts, s.targets o = min level (max 0 (cap o))
  remaining : s.remaining = total - room cap hosts level
  nonneg : 0 ≤ s.remaining
  level : 0 ≤ level

variable {cap : ℕ → ℤ} {hosts : List ℕ} {total level share : ℤ} {s : Slots}

theorem room_add (hlevel : 0 ≤ level) (hshare : 0 ≤ share) :
    room cap hosts (level + share) = room cap hosts level +
      ((hosts.filter fun o => level < cap o).map fun o => min share (cap o - level)).sum := by
  induction hosts with
  | nil => rfl
  | cons o hosts ih =>
    unfold room at ih ⊢
    rw [map_cons, sum_cons, map_cons, sum_cons, filter_cons]
    split
    · rename_i hlive
      have hlt : level < cap o := of_decide_eq_true hlive
      rw [map_cons, sum_cons]
      omega
    · rename_i hfull
      have hle : cap o ≤ level := not_lt.1 fun hlt => hfull (decide_eq_true hlt)
      omega

/-- **A round raises the level of the hosts.** -/
theorem hostRound_spec (hhosts : hosts.Nodup) (h : Filled cap hosts total level s) :
    Filled cap hosts total (raise cap hosts total level) (hostRound cap hosts s) ∧
      ∀ o ∉ hosts, (hostRound cap hosts s).targets o = s.targets o := by
  have hlive : (hosts.filter fun o => s.targets o < cap o) =
      hosts.filter fun o => level < cap o := by
    refine filter_congr fun o ho => ?_
    rw [h.targets o ho, decide_eq_decide]
    omega
  unfold hostRound raise
  simp only [hlive]
  rw [← h.remaining, countP_eq_length_filter]
  set live := hosts.filter fun o => level < cap o with hdef
  by_cases hstop : live = [] ∨ s.remaining ≤ 0
  · rw [if_pos hstop]
    have hzero : s.remaining / (live.length : ℤ) = 0 := by
      rcases hstop with hnil | hdone
      · rw [hnil, length_nil, Nat.cast_zero, Int.ediv_zero]
      · rw [le_antisymm hdone h.nonneg, Int.zero_ediv]
    rw [hzero, add_zero]
    exact ⟨h, fun _ _ => rfl⟩
  rw [if_neg hstop]
  set share := s.remaining / (live.length : ℤ) with hsharedef
  have hshare : 0 ≤ share := Int.ediv_nonneg h.nonneg (Int.natCast_nonneg _)
  have hmem : ∀ o, o ∈ live ↔ o ∈ hosts ∧ level < cap o := by
    intro o
    rw [mem_filter, decide_eq_true_iff]
  rw [foldl_deal (l := live) (hhosts.filter _)]
  have hat : ∀ o ∈ live, s.targets o = level := by
    intro o ho
    obtain ⟨hh, hlt⟩ := (hmem o).1 ho
    rw [h.targets o hh]
    omega
  have hsum : (live.map fun o => min share (cap o - s.targets o)) =
      live.map fun o => min share (cap o - level) :=
    map_congr_left fun o ho => by rw [hat o ho]
  refine ⟨⟨?_, ?_, ?_, add_nonneg h.level hshare⟩, fun o ho => ?_⟩
  · intro o ho
    simp only
    split
    · rename_i hin
      rw [hat o hin]
      have := ((hmem o).1 hin).2
      have := h.level
      omega
    · rename_i hout
      have hle : cap o ≤ level := not_lt.1 fun hlt => hout ((hmem o).2 ⟨ho, hlt⟩)
      have := h.level
      rw [h.targets o ho]
      omega
  · rw [room_add h.level hshare, hsum, h.remaining]
    ring
  · -- nobody takes more than the share
    have hle : (live.map fun o => min share (cap o - s.targets o)).sum ≤ live.length • share := by
      have := sum_le_card_nsmul (live.map fun o => min share (cap o - s.targets o)) share
      rw [length_map] at this
      refine this fun x hx => ?_
      obtain ⟨o, _, rfl⟩ := mem_map.1 hx
      exact min_le_left _ _
    have hmul : live.length • share ≤ s.remaining := by
      exact Int.mul_ediv_self_le fun h0 => hstop (.inl (length_eq_zero_iff.1 (by omega)))
    simp only
    omega
  · exact if_neg fun hin => ho ((hmem o).1 hin).1

/-! ### The targets -/

namespace Input

variable (inp : Input)

/-- The slots that two rounds over the hosts leave over. -/
def leftover (targetSlots : ℤ) : ℤ :=
  let total := targetSlots - inp.floorSlots * inp.tpGpus.length
  total - room inp.cap inp.hosts (raise inp.cap inp.hosts total (raise inp.cap inp.hosts total 0))

/-- The slots that all GPUs hold at most. -/
def capacity : ℤ := (inp.hosts.map fun o => max 0 (inp.cap o)).sum +
  inp.tpGpus.length * (inp.floorSlots + inp.tpCapEach)

/-- Every GPU could hold its part. -/
def InRange (targetSlots : ℤ) : Prop :=
  inp.floorSlots * inp.tpGpus.length ≤ targetSlots ∧ targetSlots ≤ inp.capacity

/-- Targets that are what was asked for, and fit. -/
structure Exact (targetSlots : ℤ) (targets : ℕ → ℤ) : Prop where
  sum : ((inp.ordered.map GpuInfo.ordinal).map targets).sum = targetSlots
  hosts : ∀ o ∈ inp.hosts, 0 ≤ targets o ∧ targets o ≤ max 0 (inp.cap o)
  group : ∀ o ∈ inp.tpGpus, inp.floorSlots ≤ targets o ∧ targets o ≤ inp.floorSlots + inp.tpCapEach

variable {inp} {targetSlots : ℤ} {targets : ℕ → ℤ}

theorem ordinals_eq : inp.ordered.map GpuInfo.ordinal = inp.tpGpus ++ inp.hosts := by
  unfold tpGpus hosts
  rw [← map_append, take_append_drop]

theorem Exact.inRange (h : inp.Exact targetSlots targets) : inp.InRange targetSlots := by
  have hsum := h.sum
  rw [ordinals_eq, map_append, sum_append] at hsum
  have hleast := card_nsmul_le_sum (inp.tpGpus.map targets) inp.floorSlots fun x hx => by
    obtain ⟨o, ho, rfl⟩ := mem_map.1 hx
    exact (h.group o ho).1
  have hmost := sum_le_card_nsmul (inp.tpGpus.map targets)
    (inp.floorSlots + inp.tpCapEach) fun x hx => by
      obtain ⟨o, ho, rfl⟩ := mem_map.1 hx
      exact (h.group o ho).2
  have hnonneg : 0 ≤ (inp.hosts.map targets).sum := sum_nonneg fun x hx => by
    obtain ⟨o, ho, rfl⟩ := mem_map.1 hx
    exact (h.hosts o ho).1
  have hhosts : (inp.hosts.map targets).sum ≤ (inp.hosts.map fun o => max 0 (inp.cap o)).sum :=
    sum_le_sum fun o ho => (h.hosts o ho).2
  rw [length_map, nsmul_eq_mul] at hleast hmost
  unfold InRange capacity
  constructor <;> linarith

/-- What the two rounds leave, where the floors can be paid. -/
theorem hostRounds_spec (hleast : 0 ≤ targetSlots - inp.floorSlots * inp.tpGpus.length) :
    ∃ s level, s = hostRound inp.cap inp.hosts (hostRound inp.cap inp.hosts
        ⟨fun o => if o ∈ inp.tpGpus then inp.floorSlots else 0,
          targetSlots - inp.floorSlots * inp.tpGpus.length⟩) ∧
      Filled inp.cap inp.hosts (targetSlots - inp.floorSlots * inp.tpGpus.length) level s ∧
      s.remaining = inp.leftover targetSlots ∧ ∀ o ∈ inp.tpGpus, s.targets o = inp.floorSlots := by
  have hnodup := inp.nodup
  rw [ordinals_eq, nodup_append] at hnodup
  obtain ⟨-, hhosts, hapart⟩ := hnodup
  have hzero : room inp.cap inp.hosts 0 = 0 := by
    refine sum_eq_zero fun x hx => ?_
    obtain ⟨o, -, rfl⟩ := mem_map.1 hx
    exact min_eq_left (le_max_left _ _)
  have hstart : Filled inp.cap inp.hosts (targetSlots - inp.floorSlots * inp.tpGpus.length) 0
      ⟨fun o => if o ∈ inp.tpGpus then inp.floorSlots else 0,
        targetSlots - inp.floorSlots * inp.tpGpus.length⟩ := by
    refine ⟨fun o ho => ?_, by rw [hzero, sub_zero], hleast, le_refl 0⟩
    rw [min_eq_left (le_max_left _ _)]
    exact if_neg fun hin => hapart o hin o ho rfl
  obtain ⟨hfirst, hframe₁⟩ := hostRound_spec hhosts hstart
  obtain ⟨hsecond, hframe₂⟩ := hostRound_spec hhosts hfirst
  refine ⟨_, _, rfl, hsecond, hsecond.remaining, fun o ho => ?_⟩
  have hout : o ∉ inp.hosts := fun hin => hapart o ho o hin rfl
  rw [hframe₂ o hout, hframe₁ o hout]
  exact if_pos ho

theorem exact_of_filled {level extra : ℤ} {s : Slots}
    (h : Filled inp.cap inp.hosts (targetSlots - inp.floorSlots * inp.tpGpus.length) level s)
    (hpaid : s.remaining = inp.tpGpus.length * extra) (hextra : 0 ≤ extra)
    (hroom : extra ≤ inp.tpCapEach)
    (hhosts : ∀ o ∈ inp.hosts, targets o = s.targets o)
    (hgroup : ∀ o ∈ inp.tpGpus, targets o = inp.floorSlots + extra) :
    inp.Exact targetSlots targets where
  sum := by
    have hfull := h.remaining
    unfold room at hfull
    rw [ordinals_eq, map_append, sum_append, map_congr_left hgroup,
      map_const', sum_replicate, nsmul_eq_mul,
      map_congr_left fun o ho => (hhosts o ho).trans (h.targets o ho)]
    linarith
  hosts := by
    intro o ho
    rw [hhosts o ho, h.targets o ho]
    exact ⟨le_min h.level (le_max_left _ _), min_le_right _ _⟩
  group := by
    intro o ho
    rw [hgroup o ho]
    constructor <;> linarith

/-- Equal shares of at most `c` use up `n` slots. -/
theorem shares_iff {m : ℕ} (hm : 0 < m) {n c : ℤ} :
    (m : ℤ) ∣ n ∧ n ≤ m * c ↔ n = m * min (n / m) c := by
  have hpos : (0 : ℤ) < m := Int.natCast_pos.2 hm
  constructor
  · rintro ⟨hdvd, hle⟩
    rw [min_eq_left (Int.ediv_le_of_le_mul hpos (by rwa [mul_comm] at hle)),
      Int.mul_ediv_cancel' hdvd]
  · intro heq
    refine ⟨⟨_, heq⟩, ?_⟩
    rw [heq]
    exact mul_le_mul_of_nonneg_left (min_le_right _ _) hpos.le

/-- **When there are targets**, and that they are then what was asked for. -/
theorem dealTargets_spec (inp : Input) (targetSlots : ℤ) :
    ((∃ targets, inp.dealTargets targetSlots = .ok targets) ↔
      0 ≤ targetSlots - inp.floorSlots * inp.tpGpus.length ∧
        (inp.tpGpus.length : ℤ) ∣ inp.leftover targetSlots ∧
        inp.leftover targetSlots ≤ inp.tpGpus.length * inp.tpCapEach) ∧
    ∀ targets, inp.dealTargets targetSlots = .ok targets → inp.Exact targetSlots targets := by
  have hcap : 0 ≤ inp.tpCapEach := le_max_left _ _
  unfold dealTargets
  by_cases hleast : targetSlots - inp.floorSlots * inp.tpGpus.length < 0
  · rw [if_pos hleast]
    exact ⟨iff_of_false (fun h => nomatch h.choose_spec) fun h => absurd h.1 (not_le.2 hleast),
      fun _ h => nomatch h⟩
  rw [if_neg hleast]
  obtain ⟨s, level, hs, hfilled, hleft, hfloor⟩ := hostRounds_spec (not_lt.1 hleast)
  rw [← hs, ← hleft]
  by_cases hdone : s.remaining ≤ 0
  · have hzero : s.remaining = 0 := le_antisymm hdone hfilled.nonneg
    rw [if_pos hdone]
    refine ⟨iff_of_true ⟨_, rfl⟩ ⟨not_lt.1 hleast, ?_, ?_⟩, fun targets heq => ?_⟩
    · rw [hzero]
      exact dvd_zero _
    · rw [hzero]
      exact mul_nonneg (Int.natCast_nonneg _) hcap
    · cases heq
      exact exact_of_filled hfilled (by rw [hzero, mul_zero]) (le_refl 0) hcap
        (fun _ _ => rfl) fun o ho => by rw [hfloor o ho, add_zero]
  rw [if_neg hdone]
  by_cases hnil : inp.tpGpus = []
  · rw [hnil]
    refine ⟨iff_of_false (fun h => nomatch h.choose_spec) fun h => ?_, fun _ h => nomatch h⟩
    exact hdone (le_of_eq (zero_dvd_iff.1 h.2.1))
  rw [if_neg hnil]
  have hnodup := inp.nodup
  rw [ordinals_eq, nodup_append] at hnodup
  obtain ⟨hgroup, -, hapart⟩ := hnodup
  set share := s.remaining / (inp.tpGpus.length : ℤ) with hshare
  rw [foldl_deal hgroup]
  have hsum : (inp.tpGpus.map fun o =>
      min share (inp.tpCapEach - (s.targets o - inp.floorSlots))).sum =
        inp.tpGpus.length * min share inp.tpCapEach := by
    rw [map_congr_left fun o ho => by rw [hfloor o ho, sub_self, sub_zero], map_const',
      sum_replicate, nsmul_eq_mul]
  have hpos : 0 < inp.tpGpus.length := length_pos_iff.2 hnil
  have hiff := shares_iff (n := s.remaining) (c := inp.tpCapEach) hpos
  rw [← hshare] at hiff
  have hle : (inp.tpGpus.length : ℤ) * min share inp.tpCapEach ≤ s.remaining :=
    le_trans (mul_le_mul_of_nonneg_left (min_le_left _ _) (Int.natCast_nonneg _))
      (Int.mul_ediv_self_le (by omega))
  simp only [hsum]
  by_cases hover : 0 < s.remaining - inp.tpGpus.length * min share inp.tpCapEach
  · rw [if_pos hover]
    refine ⟨iff_of_false (fun h => nomatch h.choose_spec) fun h => ?_, fun _ h => nomatch h⟩
    omega
  rw [if_neg hover]
  have hpaid : s.remaining = inp.tpGpus.length * min share inp.tpCapEach := by omega
  refine ⟨iff_of_true ⟨_, rfl⟩ ⟨not_lt.1 hleast, hiff.2 hpaid⟩, fun targets heq => ?_⟩
  cases heq
  refine exact_of_filled hfilled hpaid (le_min (Int.ediv_nonneg hfilled.nonneg (Int.natCast_nonneg _)) hcap)
    (min_le_right _ _) (fun o ho => ?_) fun o ho => ?_
  · exact if_neg fun hin => hapart o hin o ho rfl
  · rw [if_pos ho, hfloor o ho, sub_self, sub_zero]

/-- Every GPU of the group is given its floor. -/
theorem floor_le_expertTargets (h : inp.expertTargets = .ok targets) {o : ℕ}
    (ho : o ∈ inp.tpGpus) : inp.floorSlots ≤ targets o := by
  unfold expertTargets at h
  split at h
  · cases h
    simp only [if_pos ho]
    exact le_max_left _ _
  · exact (((inp.dealTargets_spec _).2 _ h).group _ ho).1

/-- **Expert slot targets are exact** if and only if the slots that the hosts leave over can be
shared equally by the group, or cannot be held at all. -/
theorem expert_targets_iff {ratio : ℚ} (hratio : inp.vramExpertRatio = some ratio) :
    (((∃ targets, inp.expertTargets = .ok targets) ↔ inp.InRange (inp.targetSlots ratio)) ∧
      ∀ targets, inp.expertTargets = .ok targets → inp.Exact (inp.targetSlots ratio) targets) ↔
    (inp.InRange (inp.targetSlots ratio) →
      (inp.tpGpus.length : ℤ) ∣ inp.leftover (inp.targetSlots ratio) ∧
        inp.leftover (inp.targetSlots ratio) ≤ inp.tpGpus.length * inp.tpCapEach) := by
  unfold expertTargets
  rw [hratio]
  obtain ⟨hok, hexact⟩ := inp.dealTargets_spec (inp.targetSlots ratio)
  constructor
  · intro h hrange
    exact (hok.1 (h.1.2 hrange)).2
  · intro h
    refine ⟨⟨fun hsome => (hexact _ hsome.choose_spec).inRange, fun hrange => ?_⟩, hexact⟩
    exact hok.2 ⟨sub_nonneg.2 hrange.1, h hrange⟩

/-- Two GPUs of a group with room for more than their floor of one slot each. -/
def twoGpus (slots : ℕ) : Input where
  nRoutedExperts := slots
  numMoeLayers := 1
  numExpertsPerTok := 1
  slotBytes := 1
  vramUsableFraction := 1
  vramSafetyMarginGb := 0
  nonTpOverheadGib := 0
  expertGibQuantum := 1
  vramExpertRatio := some 1
  ordered := [⟨0, 1⟩, ⟨1, 1⟩]
  tp := 2
  residualTpBytes := 5
  nodup := by decide

/-- Slots of one GiB, and an expert host with room for two. -/
def withHost : Input :=
  { twoGpus 8 with
    slotBytes := gib
    ordered := [⟨0, 1⟩, ⟨1, 1⟩, ⟨2, 2048⟩]
    residualTpBytes := 5 * gib
    nodup := by decide }

/-- The host is filled, and the group takes its floors and the rest in equal parts. -/
theorem expert_targets_iff_eight : ∃ targets, withHost.expertTargets = .ok targets ∧
    withHost.Exact 8 targets ∧ [0, 1, 2].map targets = [3, 3, 2] := by
  have hslots : withHost.targetSlots 1 = 8 := by decide +kernel
  have h := (expert_targets_iff (show withHost.vramExpertRatio = some 1 from rfl)).2
  rw [hslots] at h
  obtain ⟨hok, hexact⟩ := h fun _ => by decide +kernel
  obtain ⟨targets, htargets⟩ := hok.2 (by unfold InRange; decide +kernel)
  have hdealt : (withHost.expertTargets.toOption.any fun t =>
      decide ([0, 1, 2].map t = [3, 3, 2])) = true := by
    decide +kernel
  rw [htargets] at hdealt
  exact ⟨targets, htargets, hexact targets htargets, of_decide_eq_true hdealt⟩
/-- **One slot that is left over** is reported as a lack of VRAM. -/
theorem odd_slot_refused : ¬ ∀ (inp : Input) (ratio : ℚ), inp.vramExpertRatio = some ratio →
    1 ≤ inp.tp → inp.InRange (inp.targetSlots ratio) →
      ∃ targets, inp.expertTargets = .ok targets := by
  intro h
  obtain ⟨targets, htargets⟩ := h (twoGpus 3) 1 rfl (by decide) (by unfold InRange; decide +kernel)
  have herror : (twoGpus 3).expertTargets.toOption.isNone = true := by decide +kernel
  rw [htargets] at herror
  cases herror

end Input

end ExpertTargets
end LayerStorm.Autoconfig
