import LayerStorm.Lib.RoundRobin

/-!
# Sharding by position

Under context parallelism the positions of a sequence are dealt to the ranks in chunks.
`kv_shard_math.h` tells the rank of a position or of a page, how many of the first positions a rank
has, and how the pages of a rank are numbered among themselves.

The numbers of tokens are unsigned of 32 bits, so that the length of a turn wraps; a product of page
numbers that is too large for an `int` is undefined in the source and not modelled.

## Main results

* `shard_maps_consistent` — the maps agree, if the length of a turn does not wrap.
-/

namespace LayerStorm.Daemon.KvShard

open Lib Nat

/-- `owner_rank`, and `dcp_rank_for_token` of the allocator. -/
def ownerRank (pos chunkTokens dcpSize : ℕ) : ℕ :=
  if dcpSize ≤ 1 then 0 else pos / chunkTokens % dcpSize

/-- `owned_len`, as an `int`. -/
def ownedLen (rank nTokens chunkTokens dcpSize : ℕ) : ℤ :=
  let len :=
    if dcpSize ≤ 1 then nTokens
    else
      let cycle := chunkTokens * dcpSize % 2 ^ 32
      let rem := nTokens % cycle
      let rStart := rank * chunkTokens % 2 ^ 32
      let remOwned :=
        if rStart < rem then (if rem - rStart < chunkTokens then rem - rStart else chunkTokens)
        else 0
      nTokens / cycle * chunkTokens + remOwned
  Int.bmod len (2 ^ 32)

def pageOwnerRank (globalPage pagesPerChunk dcpSize : ℕ) : ℕ :=
  if dcpSize ≤ 1 then 0 else globalPage / pagesPerChunk % dcpSize

def localPageIndex (globalPage pagesPerChunk dcpSize : ℕ) : ℕ :=
  if dcpSize ≤ 1 then globalPage
  else globalPage / (pagesPerChunk * dcpSize) * pagesPerChunk + globalPage % pagesPerChunk

def globalPageOfLocal (rank localPage pagesPerChunk dcpSize : ℕ) : ℕ :=
  if dcpSize ≤ 1 then localPage
  else (localPage / pagesPerChunk * dcpSize + rank) * pagesPerChunk + localPage % pagesPerChunk

variable {chunk ppc dcp rank n : ℕ}

theorem tile_div {k i m : ℕ} (hi : i < m) : (k * m + i) / m = k := by
  rw [mul_comm, mul_add_div (by omega), div_eq_of_lt hi, add_zero]

/-! ### Tokens -/

/-- The ranks of a group; a size below two means one rank. -/
theorem ownerRank_eq (pos : ℕ) : ownerRank pos chunk dcp = dealt chunk (max 1 dcp) pos := by
  unfold ownerRank dealt
  split
  · next hone => rw [max_eq_left hone, mod_one]
  · next hmany => rw [max_eq_right (by omega)]

theorem ownedLen_eq_count (hchunk : 0 < chunk) (hturn : chunk * dcp < 2 ^ 32) (hn : n < 2 ^ 31)
    (hrank : rank < max 1 dcp) :
    ownedLen rank n chunk dcp = count (fun p => ownerRank p chunk dcp = rank) n := by
  have hcount := dealtCount_eq hchunk hrank n
  have hle : dealtCount chunk (max 1 dcp) rank n ≤ n := count_le _
  simp only [ownerRank_eq]
  show _ = ((dealtCount chunk (max 1 dcp) rank n : ℕ) : ℤ)
  unfold ownedLen
  by_cases hone : dcp ≤ 1
  · have hzero : rank = 0 := by omega
    have hall : dealtCount chunk (max 1 dcp) rank n = n := by
      subst hzero
      simp [dealtCount, dealt, max_eq_left hone, mod_one, count_true]
    rw [if_pos hone, hall]
    exact Int.bmod_eq_of_le (by omega) (by omega)
  rw [max_eq_right (by omega)] at hcount hrank hle ⊢
  have hstart : rank * chunk < chunk * dcp := by
    rw [mul_comm]
    exact mul_lt_mul_of_pos_left hrank hchunk
  rw [if_neg hone, mod_eq_of_lt hturn, mod_eq_of_lt (hstart.trans hturn)]
  have hlen : n / (chunk * dcp) * chunk + (if rank * chunk < n % (chunk * dcp) then
      (if n % (chunk * dcp) - rank * chunk < chunk then n % (chunk * dcp) - rank * chunk
        else chunk) else 0) = dealtCount chunk dcp rank n := by
    rw [hcount]
    split_ifs <;> omega
  simp only [hlen]
  exact Int.bmod_eq_of_le (by omega) (by omega)

/-! ### Pages -/

theorem pageOwnerRank_eq (g : ℕ) : pageOwnerRank g ppc dcp = ownerRank g ppc dcp := rfl

/-- **A page is numbered by the pages of its rank before it.** -/
theorem localPageIndex_eq_count (hppc : 0 < ppc) (g : ℕ) : localPageIndex g ppc dcp =
      count (fun p => pageOwnerRank p ppc dcp = pageOwnerRank g ppc dcp) g := by
  have hrank : dealt ppc (max 1 dcp) g < max 1 dcp := mod_lt _ (by omega)
  have hcount := dealtCount_eq hppc hrank g
  simp only [pageOwnerRank_eq, ownerRank_eq]
  show _ = dealtCount ppc (max 1 dcp) (dealt ppc (max 1 dcp) g) g
  rw [hcount]
  unfold localPageIndex dealt
  split
  · next hone =>
    have hmod := mod_lt g hppc
    have hdiv := div_add_mod' g ppc
    rw [max_eq_left hone, Nat.mod_one, Nat.mul_one, Nat.zero_mul, Nat.sub_zero]
    omega
  · next hmany =>
    have hmod := mod_lt g hppc
    rw [max_eq_right (by omega), mod_mul, mul_comm (g / ppc % dcp),
      Nat.add_sub_cancel, min_eq_left hmod.le]

theorem globalPageOfLocal_spec (hppc : 0 < ppc) (hrank : rank < max 1 dcp) (l : ℕ) :
    pageOwnerRank (globalPageOfLocal rank l ppc dcp) ppc dcp = rank ∧
      localPageIndex (globalPageOfLocal rank l ppc dcp) ppc dcp = l := by
  unfold pageOwnerRank globalPageOfLocal localPageIndex
  split
  · omega
  rw [max_eq_right (by omega)] at hrank
  rw [← Nat.div_div_eq_div_mul, tile_div (Nat.mod_lt l hppc), tile_div hrank,
    mul_add_mod_self_right, mod_eq_of_lt hrank, mul_add_mod_self_right, mod_mod]
  exact ⟨rfl, div_add_mod' l ppc⟩

theorem globalPageOfLocal_local (hppc : 0 < ppc) (g : ℕ) :
    globalPageOfLocal (pageOwnerRank g ppc dcp) (localPageIndex g ppc dcp) ppc dcp = g := by
  unfold pageOwnerRank globalPageOfLocal localPageIndex
  split
  · rfl
  · rw [← Nat.div_div_eq_div_mul, tile_div (Nat.mod_lt g hppc), Nat.mul_add_mod_self_right,
      mod_mod, div_add_mod', div_add_mod']

theorem localPageIndex_lt (hppc : 0 < ppc) {g g' : ℕ}
    (howner : pageOwnerRank g ppc dcp = pageOwnerRank g' ppc dcp) (hlt : g < g') :
    localPageIndex g ppc dcp < localPageIndex g' ppc dcp := by
  rw [localPageIndex_eq_count hppc, localPageIndex_eq_count hppc, howner]
  exact count_strict_mono howner hlt

theorem globalPageOfLocal_strictMono (hppc : 0 < ppc) (hrank : rank < max 1 dcp) :
    StrictMono fun l => globalPageOfLocal rank l ppc dcp := by
  intro l l' hlt
  obtain ⟨howner, hlocal⟩ := globalPageOfLocal_spec hppc hrank l
  obtain ⟨howner', hlocal'⟩ := globalPageOfLocal_spec hppc hrank l'
  by_contra hge
  rcases lt_or_eq_of_le (not_lt.1 hge) with hgt | heq
  · have := localPageIndex_lt hppc (howner'.trans howner.symm) hgt
    omega
  · have heq : globalPageOfLocal rank l' ppc dcp = globalPageOfLocal rank l ppc dcp := heq
    rw [heq, hlocal] at hlocal'
    omega

/-- **The maps agree**, if the length of a turn does not wrap and the number of tokens is an
`int`. -/
theorem shard_maps_consistent (hchunk : 0 < chunk) (hppc : 0 < ppc) :
    (chunk * dcp < 2 ^ 32 → ∀ n < 2 ^ 31, (∀ rank < max 1 dcp,
        ownedLen rank n chunk dcp = Nat.count (fun p => ownerRank p chunk dcp = rank) n) ∧
      ∑ rank ∈ Finset.range (max 1 dcp), ownedLen rank n chunk dcp = n) ∧
    (∀ rank < max 1 dcp, StrictMono (fun l => globalPageOfLocal rank l ppc dcp) ∧
      ∀ l, pageOwnerRank (globalPageOfLocal rank l ppc dcp) ppc dcp = rank ∧
        localPageIndex (globalPageOfLocal rank l ppc dcp) ppc dcp = l) ∧
    (∀ g, globalPageOfLocal (pageOwnerRank g ppc dcp) (localPageIndex g ppc dcp) ppc dcp = g ∧
      localPageIndex g ppc dcp =
        Nat.count (fun p => pageOwnerRank p ppc dcp = pageOwnerRank g ppc dcp) g) ∧
    (∀ g g', pageOwnerRank g ppc dcp = pageOwnerRank g' ppc dcp → g < g' →
      localPageIndex g ppc dcp < localPageIndex g' ppc dcp) ∧
    ∀ pageSize pos, chunk = ppc * pageSize →
      pageOwnerRank (pos / pageSize) ppc dcp = ownerRank pos chunk dcp := by
  refine ⟨fun hturn n hn => ?_, fun rank hrank => ⟨globalPageOfLocal_strictMono hppc hrank,
    globalPageOfLocal_spec hppc hrank⟩, fun g => ⟨globalPageOfLocal_local hppc g,
    localPageIndex_eq_count hppc g⟩, fun g g' => localPageIndex_lt hppc, ?_⟩
  · have hlen : ∀ rank < max 1 dcp, ownedLen rank n chunk dcp = _ := fun _ hrank =>
      ownedLen_eq_count hchunk hturn hn hrank
    refine ⟨hlen, ?_⟩
    rw [Finset.sum_congr rfl fun rank hrank => hlen rank (Finset.mem_range.1 hrank)]
    simp only [ownerRank_eq]
    exact_mod_cast sum_dealtCount (lt_max_iff.2 (.inl one_pos)) n
  · rintro pageSize pos rfl
    unfold pageOwnerRank ownerRank
    rw [Nat.div_div_eq_div_mul, Nat.mul_comm pageSize]

theorem shard_maps_consistent_sixteen : ∑ rank ∈ Finset.range 2, ownedLen rank 40 16 2 = 40 :=
  ((@shard_maps_consistent 16 1 2 (by decide) (by decide)).1 (by decide) 40 (by decide)).2

/-- **A turn that wraps**: four ranks with chunks of more than `2 ^ 30` tokens. -/
theorem turn_wraps : ¬ ∀ chunk dcp n rank : ℕ, 0 < chunk → rank < max 1 dcp → n < 2 ^ 31 →
    ownedLen rank n chunk dcp = Nat.count (fun p => ownerRank p chunk dcp = rank) n := by
  intro h
  have := h (2 ^ 30 + 1) 4 5 0 (by decide) (by decide) (by decide)
  revert this
  decide

end LayerStorm.Daemon.KvShard
