import LayerStorm.Weights.LiveScan

/-!
# Reading the slices of an expert

Whatever the reads return, a slice that counts as read has been put in its place, no read leaves its
part of a buffer, and what is handed on to the slot comes from the slices only.
-/

namespace LayerStorm.Weights

open List
namespace LiveSource

variable {S : LiveSource}

/-! ### Windows -/

theorem alignDown_le (x : ℕ) : alignDown x ≤ x := Nat.div_mul_le_self x kAlign

theorem le_alignUp (x : ℕ) : x ≤ alignUp x := le_alignedSlotStride x

theorem mem_directReads {dr : DirectRead} : ∀ {rgs : List Range} {cursor : ℕ},
    dr ∈ directReads rgs cursor → dr.range ∈ rgs ∧ dr.range.direct = true ∧ cursor ≤ dr.buf ∧
      dr.aOff = alignDown dr.range.off ∧
        dr.aLen = alignUp (dr.range.off + dr.range.len) - alignDown dr.range.off := by
  intro rgs
  induction rgs with
  | nil =>
    intro cursor h
    cases h
  | cons rg rgs ih =>
    intro cursor h
    simp only [directReads] at h
    split at h
    · next hdirect =>
      rcases mem_cons.1 h with rfl | h
      · exact ⟨mem_cons_self, hdirect, le_rfl, rfl, rfl⟩
      · obtain ⟨hmem, hd, hbuf, hrest⟩ := ih h
        exact ⟨mem_cons_of_mem _ hmem, hd, (Nat.le_add_right _ _).trans hbuf, hrest⟩
    · obtain ⟨hmem, hrest⟩ := ih h
      exact ⟨mem_cons_of_mem _ hmem, hrest⟩

theorem exists_directRead {rg : Range} (hd : rg.direct = true) : ∀ {rgs : List Range} {cursor : ℕ},
    rg ∈ rgs → ∃ dr ∈ directReads rgs cursor, dr.range = rg := by
  intro rgs
  induction rgs with
  | nil =>
    intro cursor h
    cases h
  | cons rg' rgs ih =>
    intro cursor h
    simp only [directReads]
    rcases mem_cons.1 h with rfl | h
    · rw [if_pos hd]
      exact ⟨_, mem_cons_self, rfl⟩
    split
    · obtain ⟨dr, hdr, hrg⟩ := ih h
      exact ⟨dr, mem_cons_of_mem _ hdr, hrg⟩
    · exact ih h

/-- **The parts of the bounce buffer do not overlap**, and they end within the room that was asked
for. -/
theorem directReads_pairwise : ∀ (rgs : List Range) (cursor : ℕ),
    (directReads rgs cursor).Pairwise (fun dr dr' => dr.buf + dr.aLen ≤ dr'.buf) ∧
      ∀ dr ∈ directReads rgs cursor,
        dr.buf + dr.aLen ≤ cursor + ((directReads rgs cursor).map DirectRead.aLen).sum := by
  intro rgs
  induction rgs with
  | nil =>
    intro cursor
    exact ⟨List.Pairwise.nil, fun dr hdr => absurd hdr not_mem_nil⟩
  | cons rg rgs ih =>
    intro cursor
    simp only [directReads]
    split
    · obtain ⟨hpair, hsum⟩ := ih (cursor + (alignUp (rg.off + rg.len) - alignDown rg.off))
      refine ⟨pairwise_cons.2 ⟨fun dr hdr => (mem_directReads hdr).2.2.1, hpair⟩, ?_⟩
      intro dr hdr
      rw [map_cons, sum_cons]
      rcases mem_cons.1 hdr with rfl | hdr
      · dsimp only
        omega
      · have hle := hsum dr hdr
        dsimp only
        omega
    · exact ih cursor

/-! ### Places -/

/-- The slices lie in their files, and apart from each other in the assembly. -/
structure Layout (S : LiveSource) (rgs : List Range) : Prop where
  fits : ∀ rg ∈ rgs, rg.off + rg.len ≤ S.fileSize rg.shardIdx
  apart : ∀ rg ∈ rgs, ∀ rg' ∈ rgs,
    rg = rg' ∨ rg.asmOff + rg.len ≤ rg'.asmOff ∨ rg'.asmOff + rg'.len ≤ rg.asmOff

/-- A slice is in its place. -/
def Assembled (S : LiveSource) (asm : ℕ → UInt8) (rg : Range) : Prop :=
  ∀ i < rg.len, asm (rg.asmOff + i) = S.byte rg.shardIdx (rg.off + i)

variable {rgs : List Range} {rg rg' : Range} {asm : ℕ → UInt8} {n : ℕ}

variable {k : ℕ}

theorem Assembled.storeAt (h : Assembled S asm rg) (hL : Layout S rgs) (hrg : rg ∈ rgs)
    (hrg' : rg' ∈ rgs) (hk : k + n ≤ rg'.len) {src : ℕ → UInt8}
    (hsrc : ∀ i < n, src i = S.byte rg'.shardIdx (rg'.off + k + i)) :
    Assembled S (storeAt asm (rg'.asmOff + k) n src) rg := by
  intro i hi
  unfold Weights.storeAt
  split
  · next hin =>
    rcases hL.apart rg hrg rg' hrg' with rfl | hle | hle
    · rw [hsrc _ (by omega)]
      congr 1
      omega
    · omega
    · omega
  · exact h i hi

/-! ### What may be read and handed on -/

/-- A read stays in its part of the buffer, and reads a window or a slice. -/
def ReadOk (rgs : List Range) (rd : Read) : Prop :=
  match rd.target with
  | .bounce => ∃ dr ∈ directReads rgs 0, ∃ k, rd.shardIdx = dr.range.shardIdx ∧
      rd.off = dr.aOff + k ∧ rd.pos = dr.buf + k ∧ k + rd.len ≤ dr.aLen
  | .assembly => ∃ rg ∈ rgs, ∃ k, rd.shardIdx = rg.shardIdx ∧ rd.off = rg.off + k ∧
      rd.pos = rg.asmOff + k ∧ k + rd.len ≤ rg.len

/-- What is handed on comes from a slice and goes to its place. -/
def HandedOk (rgs : List Range) (h : Handed) : Prop :=
  ∃ rg ∈ rgs, ∃ k, h.shardIdx = rg.shardIdx ∧ h.off = rg.off + k ∧ h.asmOff = rg.asmOff + k ∧
    k + h.len ≤ rg.len

/-- The trace of a slot. -/
structure Tidy (rgs : List Range) (sc : Scratch) : Prop where
  reads : ∀ rd ∈ sc.reads, ReadOk rgs rd
  handed : ∀ h ∈ sc.handed, HandedOk rgs h

variable {sc : Scratch} {dr : DirectRead}

theorem transfer_le (si off count : ℕ) (r : ℤ) : S.transfer si off count r ≤ count := by
  unfold transfer
  omega

theorem Tidy.bounceRead (h : Tidy rgs sc) (hdr : dr ∈ directReads rgs 0) (hk : k + n ≤ dr.aLen) :
    Tidy rgs (S.doRead sc ⟨dr.range.shardIdx, dr.aOff + k, n, .bounce, dr.buf + k, dr.buf,
      dr.aLen⟩) where
  reads rd hrd := by
    rcases mem_cons.1 hrd with rfl | hrd
    · exact ⟨dr, hdr, k, rfl, rfl, rfl, hk⟩
    · exact h.reads rd hrd
  handed := h.handed

theorem Tidy.assemblyRead (h : Tidy rgs sc) (hrg : rg ∈ rgs) {start room : ℕ}
    (hk : k + n ≤ rg.len) :
    Tidy rgs (S.doRead sc ⟨rg.shardIdx, rg.off + k, n, .assembly, rg.asmOff + k, start, room⟩) where
  reads rd hrd := by
    rcases mem_cons.1 hrd with rfl | hrd
    · exact ⟨rg, hrg, k, rfl, rfl, rfl, hk⟩
    · exact h.reads rd hrd
  handed x hx := by
    rcases mem_cons.1 hx with rfl | hx
    · exact ⟨rg, hrg, k, rfl, rfl, rfl, hk⟩
    · exact h.handed x hx

theorem Tidy.copyOut (h : Tidy rgs sc) (hdr : dr.range ∈ rgs) : Tidy rgs (copyOut sc dr) where
  reads := h.reads
  handed x hx := by
    rcases mem_cons.1 hx with rfl | hx
    · exact ⟨dr.range, hdr, 0, rfl, rfl, rfl, by rw [Nat.zero_add]⟩
    · exact h.handed x hx

/-! ### Single reads -/

/-- The bytes of the bounce buffer up to a position are those of the window. -/
def Filled (S : LiveSource) (sc : Scratch) (dr : DirectRead) (n : ℕ) : Prop :=
  ∀ j < n, sc.bounce (dr.buf + j) = S.byte dr.range.shardIdx (dr.aOff + j)

theorem Filled.doRead (h : Filled S sc dr k) (n start room : ℕ) :
    Filled S (S.doRead sc ⟨dr.range.shardIdx, dr.aOff + k, n, .bounce, dr.buf + k, start, room⟩) dr
      (k + n) := by
  intro j hj
  simp only [LiveSource.doRead, storeAt]
  split
  · next hin =>
    congr 1
    omega
  · exact h j (by omega)

theorem assembled_copyOut (h : Filled S sc dr n) (hL : Layout S rgs) (hdr : dr.range ∈ rgs)
    (hoff : dr.aOff ≤ dr.range.off) (hn : dr.range.off + dr.range.len - dr.aOff ≤ n) :
    Assembled S (copyOut sc dr).assembly dr.range ∧ ∀ rg ∈ rgs, Assembled S sc.assembly rg →
      Assembled S (copyOut sc dr).assembly rg := by
  have hsrc : ∀ i < dr.range.len, sc.bounce (dr.buf + (dr.range.off - dr.aOff) + i) =
      S.byte dr.range.shardIdx (dr.range.off + 0 + i) := by
    intro i hi
    have hfill := h (dr.range.off - dr.aOff + i) (by omega)
    rw [← Nat.add_assoc] at hfill
    rw [hfill]
    congr 1
    omega
  constructor
  · intro i hi
    simp only [LiveSource.copyOut, storeAt]
    rw [if_pos ⟨by omega, by omega⟩, Nat.add_sub_cancel_left, hsrc i hi, Nat.add_zero]
  · intro rg hrg hasm
    exact hasm.storeAt hL hrg hdr (k := 0) (Nat.zero_add _).le hsrc

/-- **The loop of a direct read** fills the window. -/
theorem preadLoop_bounce (hdr : dr ∈ directReads rgs 0) (want : ℕ) :
    ∀ (answers : List ℤ) {got : ℕ} {sc : Scratch}, Filled S sc dr got → Tidy rgs sc →
      (S.preadLoop dr.range.shardIdx dr.aOff dr.aLen want .bounce dr.buf answers got sc).1.assembly =
          sc.assembly ∧
        Tidy rgs
          (S.preadLoop dr.range.shardIdx dr.aOff dr.aLen want .bounce dr.buf answers got sc).1 ∧
        ((S.preadLoop dr.range.shardIdx dr.aOff dr.aLen want .bounce dr.buf answers got sc).2 = true →
          ∃ n, want ≤ n ∧ Filled S
            (S.preadLoop dr.range.shardIdx dr.aOff dr.aLen want .bounce dr.buf answers got sc).1
              dr n) := by
  intro answers
  induction answers with
  | nil =>
    intro got sc hfill htidy
    unfold preadLoop
    split
    · next hle => exact ⟨rfl, htidy, fun _ => ⟨got, hle, hfill⟩⟩
    · exact ⟨rfl, htidy, fun h => absurd h Bool.false_ne_true⟩
  | cons r answers ih =>
    intro got sc hfill htidy
    unfold preadLoop
    split
    · next hle => exact ⟨rfl, htidy, fun _ => ⟨got, hle, hfill⟩⟩
    dsimp only
    split
    · exact ⟨rfl, htidy, fun h => absurd h Bool.false_ne_true⟩
    next hpos =>
    have hn := transfer_le (S := S) dr.range.shardIdx (dr.aOff + got) (dr.aLen - got) r
    exact ih (hfill.doRead _ _ _) (htidy.bounceRead hdr (by omega))

/-- **The loop of a buffered read** puts the slice in its place. -/
theorem preadLoop_assembly (hL : Layout S rgs) (hrg : rg ∈ rgs) :
    ∀ (answers : List ℤ) {got : ℕ} {sc : Scratch},
      (∀ i < got, sc.assembly (rg.asmOff + i) = S.byte rg.shardIdx (rg.off + i)) → Tidy rgs sc →
      (∀ rg' ∈ rgs, Assembled S sc.assembly rg' → Assembled S
        (S.preadLoop rg.shardIdx rg.off rg.len rg.len .assembly rg.asmOff answers got sc).1.assembly
          rg') ∧
        Tidy rgs
          (S.preadLoop rg.shardIdx rg.off rg.len rg.len .assembly rg.asmOff answers got sc).1 ∧
        ((S.preadLoop rg.shardIdx rg.off rg.len rg.len .assembly rg.asmOff answers got sc).2 = true →
          Assembled S (S.preadLoop rg.shardIdx rg.off rg.len rg.len .assembly rg.asmOff answers got
              sc).1.assembly rg) := by
  intro answers
  induction answers with
  | nil =>
    intro got sc hfill htidy
    unfold preadLoop
    split
    · next hle => exact ⟨fun _ _ h => h, htidy, fun _ i hi => hfill i (hi.trans_le hle)⟩
    · exact ⟨fun _ _ h => h, htidy, fun h => absurd h Bool.false_ne_true⟩
  | cons r answers ih =>
    intro got sc hfill htidy
    unfold preadLoop
    split
    · next hle => exact ⟨fun _ _ h => h, htidy, fun _ i hi => hfill i (hi.trans_le hle)⟩
    dsimp only
    split
    · exact ⟨fun _ _ h => h, htidy, fun h => absurd h Bool.false_ne_true⟩
    next hpos =>
    have hn := transfer_le (S := S) rg.shardIdx (rg.off + got) (rg.len - got) r
    generalize hnn : S.transfer rg.shardIdx (rg.off + got) (rg.len - got) r = n at hn hpos ⊢
    have hk : got + n ≤ rg.len := by omega
    have hfill' : ∀ i < got + n, (S.doRead sc ⟨rg.shardIdx, rg.off + got, n, .assembly,
        rg.asmOff + got, rg.asmOff, rg.len⟩).assembly (rg.asmOff + i) =
          S.byte rg.shardIdx (rg.off + i) := by
      intro i hi
      simp only [doRead, storeAt]
      split
      · next hin =>
        congr 1
        omega
      · exact hfill i (by omega)
    obtain ⟨hkeep, hrest⟩ := ih hfill' (htidy.assemblyRead hrg hk)
    exact ⟨fun rg' hrg' hasm =>
      hkeep rg' hrg' (hasm.storeAt hL hrg' hrg hk fun i hi => rfl), hrest⟩

/-! ### The ring and the loops -/

theorem mem_range_of_directRead (hdr : dr ∈ directReads rgs 0) : dr.range ∈ rgs :=
  (mem_directReads hdr).1

/-- What the ring has completed is in its place. -/
structure RingOk (S : LiveSource) (rgs : List Range) (x : Scratch × List ℕ) : Prop where
  tidy : Tidy rgs x.1
  done : ∀ i ∈ x.2, ∀ dr, (directReads rgs 0)[i]? = some dr → Assembled S x.1.assembly dr.range

variable {a : Answers}

theorem RingOk.complete {x : Scratch × List ℕ} (h : RingOk S rgs x) (hL : Layout S rgs) (k : ℕ)
    (cqe : ℕ × ℤ) : RingOk S rgs (S.complete ((directReads rgs 0).take k) x cqe) := by
  unfold LiveSource.complete
  split
  · exact h
  next dr hget =>
  have hget' : (directReads rgs 0)[cqe.1]? = some dr := by
    rw [getElem?_take] at hget
    split at hget
    · exact hget
    · cases hget
  have hdr : dr ∈ directReads rgs 0 := mem_of_getElem? hget'
  obtain ⟨hrg, -, -, hoff, -⟩ := mem_directReads hdr
  have hle : dr.aOff ≤ dr.range.off := hoff ▸ alignDown_le _
  have hn := transfer_le (S := S) dr.range.shardIdx dr.aOff dr.aLen cqe.2
  dsimp only
  generalize S.transfer dr.range.shardIdx dr.aOff dr.aLen cqe.2 = n at hn ⊢
  have htidy : Tidy rgs (S.doRead x.1 ⟨dr.range.shardIdx, dr.aOff, n, .bounce, dr.buf, dr.buf,
      dr.aLen⟩) := h.tidy.bounceRead (k := 0) hdr (by omega)
  have hfill : Filled S (S.doRead x.1 ⟨dr.range.shardIdx, dr.aOff, n, .bounce, dr.buf, dr.buf,
      dr.aLen⟩) dr (0 + n) :=
    Filled.doRead (k := 0) (fun j hj => absurd hj (Nat.not_lt_zero j)) n _ _
  split
  · next hcover =>
    obtain ⟨hin, hkeep⟩ := assembled_copyOut hfill hL hrg hle (by omega)
    refine ⟨htidy.copyOut hrg, fun i hi dr' hdr' => ?_⟩
    rcases mem_cons.1 hi with rfl | hi
    · rw [hget'] at hdr'
      cases hdr'
      exact hin
    · exact hkeep _ (mem_range_of_directRead (mem_of_getElem? hdr')) (h.done i hi dr' hdr')
  · exact ⟨htidy, h.done⟩

theorem ringReads_ok (hL : Layout S rgs) (htidy : Tidy rgs sc) :
    RingOk S rgs (S.ringReads a (directReads rgs 0) sc) := by
  have hstart : RingOk S rgs (sc, []) := ⟨htidy, fun i hi => absurd hi not_mem_nil⟩
  unfold ringReads
  dsimp only
  split
  · exact foldlRecOn (motive := RingOk S rgs) _ _ hstart fun x hx cqe _ => hx.complete hL _ cqe
  · exact hstart

variable {done : List ℕ}

/-- **The direct reads that the ring has not completed.** -/
theorem directLoop_spec (hL : Layout S rgs) : ∀ {l : List (DirectRead × ℕ)}
    {sc : Scratch}, (∀ x ∈ l, x.1 ∈ directReads rgs 0) →
      (∀ x ∈ l, x.2 ∈ done → Assembled S sc.assembly x.1.range) → Tidy rgs sc →
      (∀ rg ∈ rgs, Assembled S sc.assembly rg →
        Assembled S (S.directLoop a done l sc).1.assembly rg) ∧
      Tidy rgs (S.directLoop a done l sc).1 ∧
      ((S.directLoop a done l sc).2 = true →
        ∀ x ∈ l, Assembled S (S.directLoop a done l sc).1.assembly x.1.range) := by
  intro l
  induction l with
  | nil =>
    intro sc hmem hdone htidy
    exact ⟨fun _ _ h => h, htidy, fun _ x hx => absurd hx not_mem_nil⟩
  | cons x l ih =>
    intro sc hmem hdone htidy
    obtain ⟨dr, i⟩ := x
    have hdr : dr ∈ directReads rgs 0 := hmem _ mem_cons_self
    obtain ⟨hrg, -, -, hoff, -⟩ := mem_directReads hdr
    simp only [directLoop]
    split
    · next hi =>
      obtain ⟨hkeep, htidy', hall⟩ := ih (fun y hy => hmem y (mem_cons_of_mem _ hy))
        (fun y hy => hdone y (mem_cons_of_mem _ hy)) htidy
      refine ⟨hkeep, htidy', fun hok y hy => ?_⟩
      rcases mem_cons.1 hy with rfl | hy
      · exact hkeep _ hrg (hdone _ mem_cons_self hi)
      · exact hall hok y hy
    have hnone : Filled S sc dr 0 := fun j hj => absurd hj (Nat.not_lt_zero j)
    obtain ⟨hasm, htidy₁, hfilled⟩ := preadLoop_bounce hdr
      (dr.range.off + dr.range.len - dr.aOff) (a.direct i) hnone htidy
    generalize S.preadLoop dr.range.shardIdx dr.aOff dr.aLen
      (dr.range.off + dr.range.len - dr.aOff) .bounce dr.buf (a.direct i) 0 sc = y
      at hasm htidy₁ hfilled ⊢
    obtain ⟨sc₁, ok⟩ := y
    split
    · next hok =>
      obtain ⟨n, hn, hfill⟩ := hfilled hok
      obtain ⟨hin, hkeep₁⟩ := assembled_copyOut hfill hL hrg (hoff ▸ alignDown_le _) hn
      have hstay : ∀ rg ∈ rgs, Assembled S sc.assembly rg →
          Assembled S (copyOut sc₁ dr).assembly rg := by
        intro rg hrg' hrgasm
        exact hkeep₁ rg hrg' (hasm ▸ hrgasm)
      obtain ⟨hkeep, htidy', hall⟩ := ih (fun y hy => hmem y (mem_cons_of_mem _ hy))
        (fun y hy hyd => hstay _ (mem_range_of_directRead (hmem y (mem_cons_of_mem _ hy)))
          (hdone y (mem_cons_of_mem _ hy) hyd)) (htidy₁.copyOut hrg)
      refine ⟨fun rg hrg' h => hkeep rg hrg' (hstay rg hrg' h), htidy', fun hok' y hy => ?_⟩
      rcases mem_cons.1 hy with rfl | hy
      · exact hkeep _ hrg hin
      · exact hall hok' y hy
    · exact ⟨fun rg _ h => hasm ▸ h, htidy₁, fun h => absurd h Bool.false_ne_true⟩

theorem bufferedLoop_spec (hL : Layout S rgs) : ∀ {l : List (Range × ℕ)} {sc : Scratch},
    (∀ x ∈ l, x.1 ∈ rgs) → Tidy rgs sc → (∀ rg ∈ rgs, Assembled S sc.assembly rg →
        Assembled S (S.bufferedLoop a l sc).1.assembly rg) ∧
      Tidy rgs (S.bufferedLoop a l sc).1 ∧
      ((S.bufferedLoop a l sc).2 = true → ∀ x ∈ l, x.1.direct = false →
        Assembled S (S.bufferedLoop a l sc).1.assembly x.1) := by
  intro l
  induction l with
  | nil =>
    intro sc hmem htidy
    exact ⟨fun _ _ h => h, htidy, fun _ x hx => absurd hx not_mem_nil⟩
  | cons x l ih =>
    intro sc hmem htidy
    obtain ⟨rg, p⟩ := x
    have hrg : rg ∈ rgs := hmem _ mem_cons_self
    simp only [bufferedLoop]
    split
    · next hdirect =>
      obtain ⟨hkeep, htidy', hall⟩ := ih (fun y hy => hmem y (mem_cons_of_mem _ hy)) htidy
      refine ⟨hkeep, htidy', fun hok y hy hyd => ?_⟩
      rcases mem_cons.1 hy with rfl | hy
      · rw [hdirect] at hyd
        cases hyd
      · exact hall hok y hy hyd
    have hnone : ∀ i < 0, sc.assembly (rg.asmOff + i) = S.byte rg.shardIdx (rg.off + i) :=
      fun i hi => absurd hi (Nat.not_lt_zero i)
    obtain ⟨hkeep₁, htidy₁, hin⟩ := preadLoop_assembly hL hrg (a.buffered p) hnone htidy
    generalize S.preadLoop rg.shardIdx rg.off rg.len rg.len .assembly rg.asmOff (a.buffered p) 0
      sc = y at hkeep₁ htidy₁ hin ⊢
    split
    · next hok =>
      obtain ⟨hkeep, htidy', hall⟩ := ih (fun y hy => hmem y (mem_cons_of_mem _ hy)) htidy₁
      refine ⟨fun rg' hrg' h => hkeep rg' hrg' (hkeep₁ rg' hrg' h), htidy', fun hok' y hy hyd => ?_⟩
      rcases mem_cons.1 hy with rfl | hy
      · exact hkeep _ hrg (hin hok)
      · exact hall hok' y hy hyd
    · exact ⟨hkeep₁, htidy₁, fun h => absurd h Bool.false_ne_true⟩

/-! ### Answers that deliver -/

/-- Answers that transfer something each time, and are enough for a number of bytes. -/
def Enough (answers : List ℤ) (n : ℕ) : Prop := (∀ r ∈ answers, 0 < r) ∧ n ≤ answers.length

/-- Answers that deliver up to a number of bytes for each read. -/
def Delivers (a : Answers) (n : ℕ) : Prop :=
  a.bounceOk = true ∧ ∀ i, Enough (a.direct i) n ∧ Enough (a.buffered i) n

theorem preadLoop_ok {si off count want start : ℕ} {target : Target} (hcount : want ≤ count)
    (hfile : off + want ≤ S.fileSize si) : ∀ {answers : List ℤ} {got : ℕ} {sc : Scratch},
      Enough answers (want - got) →
        (S.preadLoop si off count want target start answers got sc).2 = true := by
  intro answers
  induction answers with
  | nil =>
    intro got sc h
    unfold preadLoop
    have hle : want ≤ got := by
      have := h.2
      rw [length_nil] at this
      omega
    rw [if_pos hle]
  | cons r answers ih =>
    intro got sc h
    unfold preadLoop
    split
    · rfl
    next hlt =>
    have hr : 0 < r := h.1 r mem_cons_self
    have hpos : 0 < S.transfer si (off + got) (count - got) r := by
      unfold transfer
      omega
    dsimp only
    rw [if_neg hpos.ne']
    refine ih ⟨fun r' hr' => h.1 r' (mem_cons_of_mem _ hr'), ?_⟩
    have hlen := h.2
    rw [length_cons] at hlen
    omega

theorem Enough.mono {answers : List ℤ} {m : ℕ} (h : Enough answers n) (hle : m ≤ n) :
    Enough answers m :=
  ⟨h.1, hle.trans h.2⟩

theorem want_le (hdr : dr ∈ directReads rgs 0) :
    dr.range.off + dr.range.len - dr.aOff ≤ dr.range.len + kAlign := by
  obtain ⟨-, -, -, hoff, -⟩ := mem_directReads hdr
  have hmod := Nat.mod_lt dr.range.off (show 0 < kAlign by decide)
  have hdiv := Nat.div_add_mod' dr.range.off kAlign
  rw [hoff]
  unfold alignDown
  omega

theorem directLoop_ok (hL : Layout S rgs) (ha : Delivers a n) :
    ∀ {l : List (DirectRead × ℕ)} {sc : Scratch}, (∀ x ∈ l, x.1 ∈ directReads rgs 0 ∧
      x.1.range.len + kAlign ≤ n) → (S.directLoop a done l sc).2 = true := by
  intro l
  induction l with
  | nil => exact fun _ => rfl
  | cons x l ih =>
    intro sc hmem
    obtain ⟨dr, i⟩ := x
    have hx : dr ∈ directReads rgs 0 ∧ dr.range.len + kAlign ≤ n := hmem _ mem_cons_self
    obtain ⟨hdr, hlen⟩ := hx
    obtain ⟨hrg, -, -, hoff, haLen⟩ := mem_directReads hdr
    have htail := fun y hy => hmem y (mem_cons_of_mem _ hy)
    simp only [directLoop]
    split
    · exact ih htail
    have hdown : dr.aOff ≤ dr.range.off := hoff ▸ alignDown_le _
    have hup := le_alignUp (dr.range.off + dr.range.len)
    have hfit := hL.fits _ hrg
    have hok : (S.preadLoop dr.range.shardIdx dr.aOff dr.aLen
        (dr.range.off + dr.range.len - dr.aOff) .bounce dr.buf (a.direct i) 0 sc).2 = true :=
      preadLoop_ok (by omega) (by omega) ((ha.2 i).1.mono ((want_le hdr).trans hlen))
    rw [if_pos hok]
    exact ih htail

theorem bufferedLoop_ok (hL : Layout S rgs) (ha : Delivers a n) :
    ∀ {l : List (Range × ℕ)} {sc : Scratch}, (∀ x ∈ l, x.1 ∈ rgs ∧ x.1.len ≤ n) →
      (S.bufferedLoop a l sc).2 = true := by
  intro l
  induction l with
  | nil => exact fun _ => rfl
  | cons x l ih =>
    intro sc hmem
    obtain ⟨rg, p⟩ := x
    obtain ⟨hrg, hlen⟩ := hmem _ mem_cons_self
    have htail := fun y hy => hmem y (mem_cons_of_mem _ hy)
    simp only [bufferedLoop]
    split
    · exact ih htail
    have hok : (S.preadLoop rg.shardIdx rg.off rg.len rg.len .assembly rg.asmOff (a.buffered p) 0
        sc).2 = true :=
      preadLoop_ok le_rfl (hL.fits _ hrg) ((ha.2 p).2.mono hlen)
    rw [if_pos hok]
    exact ih htail

end LiveSource
end LayerStorm.Weights
