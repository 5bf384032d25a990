import LayerStorm.Compute.MultiNuma
import LayerStorm.Lib.Run

/-!
# Several nodes compute what one node computes

The slices of the nodes tile the output rows, and each node computes its rows from the slabs in its
staging memory.  What is computed is what one node would compute from the memory behind the pointers
as long as every slab whose staging is skipped is still a copy of that memory.  The record of a node
cannot tell: it survives a write to the weights, the staging of slabs of another size over a part of
the slab, and the output that an NVFP4 call collects behind its own slabs.

## Main results

* `multi_numa_faithful` — every call writes what the device of one node writes.
* `second_expert_of_stale_slab` — a run in which a skipped slab holds another expert.
-/

namespace LayerStorm.Compute

open Lib
open Function List Nat

variable {Act : Type*} {mem : ℕ → UInt8} {st : NodeStage}

/-! ### The staging memory -/

/-- What the ghost says is staged is a copy of the memory of the host. -/
def Holds (mem : ℕ → UInt8) (st : NodeStage) : Prop :=
  ∀ off s, st.staged off = some s → Copied st.cells mem (st.stageBase + off) s.key.src s.copies

theorem holds_empty : Holds mem NodeStage.empty := fun _ _ h => by cases h

theorem meets_of_mem {a m b n x : ℕ} (h₁ : a ≤ x) (h₂ : x < a + m) (h₃ : b ≤ x) (h₄ : x < b + n) :
    meets a m b n = true := by
  simp only [meets, Bool.and_eq_true, decide_eq_true_eq]
  omega

theorem not_meets_of_le {a m b n : ℕ} (h : a + m ≤ b ∨ b + n ≤ a) : meets a m b n = false := by
  simp only [meets, Bool.and_eq_false_iff, decide_eq_false_iff_not]
  omega

variable {f : ℕ → UInt8}

theorem staged_write {a len off : ℕ} {s : Staged} :
    (st.write a len f).staged off = some s ↔ st.staged off = some s ∧
      ∀ c ∈ s.copies, meets (st.stageBase + off + c.dst) c.len a len = false := by
  simp only [NodeStage.write, Option.filter_eq_some_iff, Bool.not_eq_true', any_eq_false,
    Bool.not_eq_true]

theorem cells_write {a len x : ℕ} (h : ¬(a ≤ x ∧ x < a + len)) :
    (st.write a len f).cells x = st.cells x := if_neg h

theorem Holds.write (h : Holds mem st) (a len : ℕ) (f : ℕ → UInt8) :
    Holds mem (st.write a len f) := by
  intro off s hs c hc i hi
  obtain ⟨hold, hapart⟩ := staged_write.1 hs
  have hne := hapart c hc
  refine (cells_write fun hin => ?_).trans (h off s hold c hc i hi)
  change a ≤ st.stageBase + off + c.dst + i ∧ st.stageBase + off + c.dst + i < a + len at hin
  rw [meets_of_mem (le_add_right _ i) (by omega) hin.1 hin.2] at hne
  cases hne

theorem Holds.sourceWritten (h : Holds mem st) (a : ℕ) (bytes : List UInt8) :
    Holds (fun x => if a ≤ x ∧ x < a + bytes.length then bytes.getD (x - a) 0 else mem x)
      (st.sourceWritten a bytes.length) := by
  intro off s hs c hc i hi
  simp only [NodeStage.sourceWritten, Option.filter_eq_some_iff, Bool.not_eq_true',
    any_eq_false, Bool.not_eq_true] at hs
  obtain ⟨hold, hapart⟩ := hs
  have hne := hapart c hc
  refine (h off s hold c hc i hi).trans (if_neg fun hin => ?_).symm
  rw [meets_of_mem (le_add_right _ i) (by omega) hin.1 hin.2] at hne
  cases hne

@[simp] theorem occupy_staged (off : ℕ) (s : Staged) :
    (st.occupy off s).staged = update st.staged off (some s) := rfl

@[simp] theorem occupy_occupant (off : ℕ) (s : Staged) :
    (st.occupy off s).occupant = update st.occupant off (some s.key) := rfl

theorem Holds.occupy (h : Holds mem st) {off : ℕ} {s : Staged}
    (hc : Copied st.cells mem (st.stageBase + off) s.key.src s.copies) :
    Holds mem (st.occupy off s) := by
  intro o t ht
  rw [occupy_staged, update_apply] at ht
  split at ht
  · next ho =>
    cases ht
    exact ho ▸ hc
  · exact h o t ht

/-! ### Acquiring the staging memory -/

/-- Whether the node has to allocate. -/
def grows (scratch : Option (ℕ × ℕ)) (bytes : ℕ) (st : NodeStage) : Bool :=
  (scratch.filter fun sc => bytes ≤ sc.2).isNone && st.stageCap < bytes

def nextBase (scratch : Option (ℕ × ℕ)) (alloc : Alloc) (bytes : ℕ) (st : NodeStage) : ℕ :=
  match scratch.filter fun sc => bytes ≤ sc.2 with
  | some sc => sc.1
  | none => if st.stageCap < bytes then alloc.addr else st.stageBuf

theorem Holds.rebase (h : Holds mem st) (base : ℕ) : Holds mem (st.rebase base) := by
  unfold NodeStage.rebase
  split
  · exact fun _ _ hs => by cases hs
  · exact h

theorem Holds.grow (addr cap : ℕ) (fresh : ℕ → UInt8) : Holds mem (st.grow addr cap fresh) :=
  fun _ _ hs => by cases hs

theorem Holds.acquireStage (h : Holds mem st) (scratch : Option (ℕ × ℕ)) (alloc : Alloc)
    (bytes : ℕ) : Holds mem (acquireStage scratch alloc bytes st) := by
  unfold Compute.acquireStage
  split
  · exact h.rebase _
  dsimp only
  split
  · exact (Holds.grow _ _ _).rebase _
  · exact h.rebase _

variable {scratch : Option (ℕ × ℕ)}

theorem acquireStage_occupant {alloc : Alloc} {bytes off : ℕ} {key : SliceKey}
    (h : (acquireStage scratch alloc bytes st).occupant off = some key) :
    nextBase scratch alloc bytes st = st.stageBase ∧ st.occupant off = some key ∧
      (grows scratch bytes st = false →
        (acquireStage scratch alloc bytes st).staged off = st.staged off) := by
  have hrebase : ∀ (st' : NodeStage) (base : ℕ), (st'.rebase base).occupant off = some key →
      base = st'.stageBase ∧ st'.occupant off = some key ∧
        (st'.rebase base).staged off = st'.staged off := by
    intro st' base hocc
    unfold NodeStage.rebase at hocc ⊢
    split at hocc
    · cases hocc
    next hbase =>
    rw [if_neg hbase]
    exact ⟨not_not.1 hbase, hocc, rfl⟩
  unfold acquireStage nextBase grows at *
  cases hsc : scratch.filter fun sc => bytes ≤ sc.2 with
  | some sc =>
    rw [hsc] at h
    obtain ⟨h₁, h₂, h₃⟩ := hrebase _ _ h
    exact ⟨h₁, h₂, fun _ => h₃⟩
  | none =>
    rw [hsc] at h
    dsimp only at h ⊢
    by_cases hcap : st.stageCap < bytes
    · simp only [if_pos hcap] at h ⊢
      obtain ⟨h₁, h₂, -⟩ := hrebase _ _ h
      refine ⟨h₁, h₂, fun hg => ?_⟩
      simp [hcap] at hg
    · simp only [if_neg hcap] at h ⊢
      obtain ⟨h₁, h₂, h₃⟩ := hrebase _ _ h
      exact ⟨h₁, h₂, fun _ => h₃⟩

/-! ### Staging one slab -/

/-- The copies of a slab, one after the other. -/
abbrev copySlab (mem : ℕ → UInt8) (off src : ℕ) (l : List Copy) (st : NodeStage) : NodeStage :=
  l.foldl (fun st c => st.copy mem (st.stageBase + off + c.dst) (src + c.src) c.len) st

variable {off src : ℕ} {l : List Copy}

theorem copySlab_frame (off src : ℕ) (hold : Holds mem st) : ∀ l : List Copy,
    let st' := copySlab mem off src l st
    st'.stageBase = st.stageBase ∧ st'.occupant = st.occupant ∧ Holds mem st' ∧
      (∀ x, (∀ c ∈ l, ¬(st.stageBase + off + c.dst ≤ x ∧ x < st.stageBase + off + c.dst + c.len)) →
        st'.cells x = st.cells x) ∧
      ∀ o s, st.staged o = some s →
        (∀ c ∈ s.copies, ∀ c' ∈ l, meets (st.stageBase + o + c.dst) c.len
          (st.stageBase + off + c'.dst) c'.len = false) → st'.staged o = some s := by
  intro l
  induction l generalizing st with
  | nil => exact ⟨rfl, rfl, hold, fun _ _ => rfl, fun _ _ hs _ => hs⟩
  | cons c l ih =>
    obtain ⟨hbase, hocc, hhold, hcells, hstaged⟩ :=
      ih (hold.write (st.stageBase + off + c.dst) c.len fun i => mem (src + c.src + i))
    refine ⟨hbase, hocc, hhold, fun x hx => ?_, fun o s hs hapart => ?_⟩
    · rw [forall_mem_cons] at hx
      exact (hcells x hx.2).trans (cells_write hx.1)
    · refine hstaged o s (staged_write.2 ⟨hs, fun c' hc' => ?_⟩) fun c' hc' d hd => ?_
      · exact hapart c' hc' c mem_cons_self
      · exact hapart c' hc' d (mem_cons_of_mem _ hd)

theorem copySlab_copied (hold : Holds mem st) : ∀ {l : List Copy},
    l.Pairwise (fun c c' => c.dst + c.len ≤ c'.dst) →
      Copied (copySlab mem off src l st).cells mem (st.stageBase + off) src l := by
  intro l
  induction l generalizing st with
  | nil => exact fun _ c hc => absurd hc not_mem_nil
  | cons c l ih =>
    intro hapart d hd i hi
    obtain ⟨hhead, hrest⟩ := pairwise_cons.1 hapart
    have hold' := hold.write (st.stageBase + off + c.dst) c.len fun i => mem (src + c.src + i)
    rcases mem_cons.1 hd with rfl | hd
    · -- the later copies go behind this one
      obtain ⟨-, -, -, hcells, -⟩ := copySlab_frame off src hold' l
      refine (hcells _ fun c' hc' hin => ?_).trans ?_
      · have hle := hhead c' hc'
        have hin₁ := hin.1
        change st.stageBase + off + c'.dst ≤ _ at hin₁
        omega
      · exact (if_pos ⟨le_add_right _ _, by omega⟩).trans (by rw [Nat.add_sub_cancel_left])
    · exact ih hold' hrest d hd i hi

/-! ### The staging loop -/

variable {p : GemmParams Act} {src : ℕ → ℕ} {nb ne : ℕ}

/-- The slab of an expert is a copy. -/
def SlabCopied (p : GemmParams Act) (mem : ℕ → UInt8) (src : ℕ → ℕ) (nb ne : ℕ) (st : NodeStage)
    (e : ℕ) : Prop :=
  Copied st.cells mem (st.stageBase + e * slabBytes p nb ne) (src e) (slabOf p src nb ne e).copies

/-- Where the record has the slice of the call, that slice is staged. -/
def RecordRight (p : GemmParams Act) (src : ℕ → ℕ) (nb ne : ℕ) (st : NodeStage) (e : ℕ) : Prop :=
  st.occupant (e * slabBytes p nb ne) = some (slabOf p src nb ne e).key →
    st.staged (e * slabBytes p nb ne) = some (slabOf p src nb ne e)

theorem slabs_apart (base : ℕ) (h : Aligned p.format p.K nb ne) {e e' : ℕ} (hne : e ≠ e')
    {c c' : Copy} (hc : c ∈ (slabOf p src nb ne e).copies)
    (hc' : c' ∈ (slabOf p src nb ne e').copies) :
    meets (base + e * slabBytes p nb ne + c.dst) c.len (base + e' * slabBytes p nb ne + c'.dst)
      c'.len = false := by
  have hle : c.dst + c.len ≤ slabBytes p nb ne := (stageCopies_apart h).2 c hc
  have hle' : c'.dst + c'.len ≤ slabBytes p nb ne := (stageCopies_apart h).2 c' hc'
  apply not_meets_of_le
  rcases lt_or_gt_of_ne hne with hlt | hlt
  · have hmul := mul_le_mul_right (slabBytes p nb ne) hlt
    rw [succ_mul] at hmul
    omega
  · have hmul := mul_le_mul_right (slabBytes p nb ne) hlt
    rw [succ_mul] at hmul
    omega

theorem stageSlab_spec (ha : Aligned p.format p.K nb ne) (hold : Holds mem st) {e : ℕ}
    (hright : p.active e = true → RecordRight p src nb ne st e) :
    let st' := stageSlab p mem src nb ne st e
    st'.stageBase = st.stageBase ∧ Holds mem st' ∧
      (p.active e = true → SlabCopied p mem src nb ne st' e) ∧
      ∀ e', e' ≠ e → (SlabCopied p mem src nb ne st e' → SlabCopied p mem src nb ne st' e') ∧
        (RecordRight p src nb ne st e' → RecordRight p src nb ne st' e') := by
  intro st'
  by_cases hact : p.active e = true
  · by_cases hocc : st.occupant (e * slabBytes p nb ne) = some (slabOf p src nb ne e).key
    · -- staging is skipped
      have heq : st' = st := if_neg fun h => h.2 hocc
      rw [heq]
      exact ⟨rfl, hold, fun _ => hold _ _ (hright hact hocc), fun e' _ => ⟨id, id⟩⟩
    have heq : st' = (copySlab mem (e * slabBytes p nb ne) (src e)
        (slabOf p src nb ne e).copies st).occupy (e * slabBytes p nb ne)
          (slabOf p src nb ne e) := if_pos ⟨hact, hocc⟩
    obtain ⟨hbase, hocc', hhold, hcells, hstaged⟩ := copySlab_frame
      (e * slabBytes p nb ne) (src e) hold (slabOf p src nb ne e).copies
    have hcopied : Copied (copySlab mem (e * slabBytes p nb ne) (src e)
        (slabOf p src nb ne e).copies st).cells mem ((copySlab mem (e * slabBytes p nb ne) (src e)
          (slabOf p src nb ne e).copies st).stageBase + e * slabBytes p nb ne) (src e)
            (slabOf p src nb ne e).copies := by
      rw [hbase]
      exact copySlab_copied hold (stageCopies_apart ha).1
    rw [heq]
    refine ⟨hbase, hhold.occupy hcopied, fun _ => hcopied,
      fun e' hne => ⟨fun hc c hmem i hi => ?_, ?_⟩⟩
    · change (copySlab mem _ _ _ st).cells ((copySlab mem _ _ _ st).stageBase + _ + _ + _) = _
      rw [hbase]
      refine (hcells _ fun c' hc' hin => ?_).trans (hc c hmem i hi)
      have hapart := slabs_apart st.stageBase ha hne hmem hc'
      rw [meets_of_mem (le_add_right _ i) (by omega) hin.1 hin.2] at hapart
      cases hapart
    · intro hr hrec
      by_cases hoff : e' * slabBytes p nb ne = e * slabBytes p nb ne
      · -- slabs without room: the record is of the slice just staged
        simp only [occupy_occupant, occupy_staged, hoff, update_self, Option.some.injEq] at hrec ⊢
        exact congrArg (fun key => Staged.mk p.format p.N p.K key) hrec
      · simp only [occupy_occupant, occupy_staged, update_of_ne hoff] at hrec ⊢
        rw [hocc'] at hrec
        exact hstaged _ _ (hr hrec) fun c hc c' hc' => slabs_apart _ ha hne hc hc'
  · have heq : st' = st := if_neg fun h => hact h.1
    rw [heq]
    exact ⟨rfl, hold, fun h => absurd h hact, fun e' _ => ⟨id, id⟩⟩

/-- **After the loop** the slab of every expert of the call is a copy. -/
theorem stageSlabs_spec (ha : Aligned p.format p.K nb ne) (hold : Holds mem st)
    (hright : ∀ e < p.numExperts, p.active e = true → RecordRight p src nb ne st e) :
    (stageSlabs p mem src nb ne st).stageBase = st.stageBase ∧
      Holds mem (stageSlabs p mem src nb ne st) ∧
      ∀ e < p.numExperts, p.active e = true →
        SlabCopied p mem src nb ne (stageSlabs p mem src nb ne st) e := by
  -- the experts below `n` are staged, the record is right for the others
  have hloop : ∀ n ≤ p.numExperts,
      let st' := (range n).foldl (stageSlab p mem src nb ne) st
      st'.stageBase = st.stageBase ∧ Holds mem st' ∧
        (∀ e < n, p.active e = true → SlabCopied p mem src nb ne st' e) ∧
        ∀ e, n ≤ e → e < p.numExperts → p.active e = true → RecordRight p src nb ne st' e := by
    intro n
    induction n with
    | zero =>
      intro _
      exact ⟨rfl, hold, fun e he => absurd he (not_lt_zero e), fun e _ he => hright e he⟩
    | succ n ih =>
      intro hn
      obtain ⟨hbase, hhold, hcopied, hrec⟩ := ih (le_of_succ_le hn)
      rw [range_succ, foldl_append]
      obtain ⟨hbase', hhold', hself, hothers⟩ := stageSlab_spec ha hhold (e := n) (hrec n le_rfl hn)
      refine ⟨hbase'.trans hbase, hhold', fun e he hact => ?_, fun e he hlt hact => ?_⟩
      · rcases Nat.lt_succ_iff_lt_or_eq.1 he with hlt | rfl
        · exact (hothers e hlt.ne).1 (hcopied e hlt hact)
        · exact hself hact
      · exact (hothers e (lt_of_succ_le he).ne').2 (hrec e (le_of_succ_le he) hlt hact)
  obtain ⟨hbase, hhold, hcopied, -⟩ := hloop p.numExperts le_rfl
  exact ⟨hbase, hhold, hcopied⟩

/-! ### The part of a node -/

variable {k : Kernels Act} {cfg : Config} {D : Output}

/-- The room a node needs in a call. -/
def stageNeed (p : GemmParams Act) (nb ne : ℕ) : ℕ :=
  match p.format with
  | .nvfp4 => p.numExperts * slabBytes p nb ne + p.totalTokens * (ne - nb) * 2
  | .gguf _ => p.numExperts * slabBytes p nb ne

/-- The condition on one node: where it stays at its base and the record has the slice of the call,
the slab is staged, and the buffer is not exchanged for another at the same address. -/
def Undisturbed (p : GemmParams Act) (src : ℕ → ℕ) (scratch : Option (ℕ × ℕ)) (alloc : Alloc)
    (nb ne : ℕ) (st : NodeStage) : Prop :=
  nextBase scratch alloc (stageNeed p nb ne) st = st.stageBase →
    ∀ e < p.numExperts, p.active e = true →
      st.occupant (e * slabBytes p nb ne) = some (slabOf p src nb ne e).key →
        st.staged (e * slabBytes p nb ne) = some (slabOf p src nb ne e) ∧
          grows scratch (stageNeed p nb ne) st = false

instance (p : GemmParams Act) (src : ℕ → ℕ) (scratch : Option (ℕ × ℕ)) (alloc : Alloc) (nb ne : ℕ)
    (st : NodeStage) : Decidable (Undisturbed p src scratch alloc nb ne st) :=
  inferInstanceAs (Decidable (_ → ∀ e < p.numExperts, p.active e = true → _ → _ ∧ _))

theorem Undisturbed.recordRight {alloc : Alloc} (h : Undisturbed p src scratch alloc nb ne st)
    {e : ℕ} (he : e < p.numExperts) (hact : p.active e = true) :
    RecordRight p src nb ne (acquireStage scratch alloc (stageNeed p nb ne) st) e := by
  intro hocc
  obtain ⟨hbase, hrec, hstaged⟩ := acquireStage_occupant hocc
  obtain ⟨hst, hgrows⟩ := h hbase e he hact hrec
  exact (hstaged hgrows).trans hst

/-- The rows that one node would use. -/
abbrev target (k : Kernels Act) (p : GemmParams Act) (mem : ℕ → UInt8) (src : ℕ → ℕ) (e m : ℕ) :
    ℕ → UInt16 :=
  fun n => k.dot p.format p.K (sourceRow p mem src e n) (p.A m)

theorem rowExpert_eq_some {m e : ℕ} (h : p.rowExpert m = some e) :
    e < p.numExperts ∧ p.active e = true ∧ m < p.expertOffsets (e + 1) := by
  have hmem := mem_of_find?_eq_some h
  have hp := find?_some h
  simp only [Bool.and_eq_true, decide_eq_true_eq] at hp
  exact ⟨mem_range.1 hmem, decide_eq_true (hp.1.trans_lt hp.2), hp.2⟩

variable {kernel : PackedRow → Act → UInt16} {row : ℕ → ℕ → PackedRow}

theorem gemmRows_congr {row' : ℕ → ℕ → PackedRow} {lo hi : ℕ} (lo' : ℕ)
    (h : ∀ e < p.numExperts, p.active e = true → ∀ n, lo ≤ n → n < hi →
      row e (n - lo) = row' e (n - lo')) (m : ℕ) :
    gemmRows kernel p row lo hi D m =
      match p.rowExpert m with
      | none => D m
      | some e => fillSlice (fun n => kernel (row' e (n - lo')) (p.A m)) (D m) (lo, hi) := by
  unfold gemmRows
  cases hm : p.rowExpert m with
  | none => rfl
  | some e =>
    obtain ⟨he, hact, -⟩ := rowExpert_eq_some hm
    funext n
    unfold fillSlice
    dsimp only
    split
    · next hin => rw [h e he hact n hin.1 hin.2]
    · rfl

theorem runSlice_spec (ha : Aligned p.format p.K nb ne) (hold : Holds mem st) {alloc : Alloc}
    (hun : Undisturbed p src scratch alloc nb ne st) :
    let r := runSlice p mem src k scratch alloc nb ne st D
    Holds mem r.stage ∧ (∀ e < p.numExperts, p.active e = true → ∀ i < ne - nb,
        r.rows e i = sourceRow p mem src e (nb + i)) ∧
      ∀ m, r.D m = match p.rowExpert m with
        | none => D m
        | some e => fillSlice (target k p mem src e m) (D m) (nb, ne) := by
  obtain ⟨-, hhold, hcopied⟩ := stageSlabs_spec ha
    (hold.acquireStage scratch alloc (stageNeed p nb ne)) fun e he hact => hun.recordRight he hact
  have hrows : ∀ e < p.numExperts, p.active e = true → ∀ i < ne - nb,
      stagedRow p (stageSlabs p mem src nb ne
        (acquireStage scratch alloc (stageNeed p nb ne) st)) nb ne e i =
          sourceRow p mem src e (nb + i) :=
    fun e he hact i hi => packedRow_of_copied ha (hcopied e he hact) hi
  have hD : ∀ m, gemmRows (k.dot p.format p.K) p (stagedRow p (stageSlabs p mem src nb ne
      (acquireStage scratch alloc (stageNeed p nb ne) st)) nb ne) nb ne D m =
        match p.rowExpert m with
        | none => D m
        | some e => fillSlice (target k p mem src e m) (D m) (nb, ne) := by
    intro m
    refine gemmRows_congr 0 (fun e he hact n h₁ h₂ => ?_) m
    rw [hrows e he hact (n - nb) (by omega), Nat.add_sub_cancel' h₁, Nat.sub_zero]
  intro r
  cases hf : p.format with
  | nvfp4 =>
    have hneed : stageNeed p nb ne = p.numExperts * slabBytes p nb ne +
        p.totalTokens * (ne - nb) * 2 := by
      unfold stageNeed
      rw [hf]
    have hr : r = computeSlice p mem src k scratch alloc nb ne st D := by
      change runSlice p mem src k scratch alloc nb ne st D = _
      unfold runSlice
      rw [hf]
    rw [hr]
    unfold computeSlice
    dsimp only
    rw [← hneed]
    exact ⟨hhold.write _ _ _, hrows, hD⟩
  | gguf t =>
    have hneed : stageNeed p nb ne = p.numExperts * slabBytes p nb ne := by
      unfold stageNeed
      rw [hf]
    have hr : r = computeGgufSlice p mem src k scratch alloc nb ne st D := by
      change runSlice p mem src k scratch alloc nb ne st D = _
      unfold runSlice
      rw [hf]
    rw [hr]
    unfold computeGgufSlice
    rw [← hneed]
    exact ⟨hhold, hrows, hD⟩

/-! ### All nodes -/

/-- The condition on a slice of a call: whole atoms, and an undisturbed node. -/
def SliceOk (p : GemmParams Act) (src : ℕ → ℕ) (cfg : Config) (alloc : ℕ → Alloc)
    (nodes : ℕ → NodeStage) (j : ℕ) (s : ℕ × ℕ) : Prop :=
  Aligned p.format p.K s.1 s.2 ∧
    (s.1 < s.2 → Undisturbed p src (cfg.scratch j) (alloc j) s.1 s.2 (nodes j))

variable {s : ℕ × ℕ}

theorem fillSlice_empty {f g : ℕ → UInt16} (h : ¬s.1 < s.2) : fillSlice f g s = g := by
  funext n
  exact if_neg fun hn => h (hn.1.trans_lt hn.2)

variable {nodes : ℕ → NodeStage} {alloc : ℕ → Alloc}

theorem runNode_spec {w : Work} {i : ℕ} (hold : ∀ j, Holds mem (w.nodes j))
    (hnode : w.nodes i = nodes i) (hok : SliceOk p src cfg alloc nodes i s) :
    let w' := runNode p mem src k cfg alloc w (s, i)
    (∀ j, Holds mem (w'.nodes j)) ∧ (∀ j, j ≠ i → w'.nodes j = w.nodes j ∧ w'.rows j = w.rows j) ∧
      (∀ e < p.numExperts, p.active e = true → ∀ n < s.2 - s.1,
        w'.rows i e n = sourceRow p mem src e (s.1 + n)) ∧
      ∀ m, w'.D m = match p.rowExpert m with
        | none => w.D m
        | some e => fillSlice (target k p mem src e m) (w.D m) s := by
  obtain ⟨halign, hun⟩ := hok
  rw [← hnode] at hun
  by_cases hlt : s.1 < s.2
  · obtain ⟨hhold, hrows, hD⟩ := runSlice_spec (k := k) (D := w.D) halign (hold i) (hun hlt)
    unfold runNode
    rw [if_pos hlt]
    refine ⟨fun j => ?_, fun j hj => ⟨?_, ?_⟩, fun e he hact n hn => ?_, hD⟩
    · dsimp only
      rw [update_apply]
      split
      · exact hhold
      · exact hold j
    · exact update_of_ne hj _ _
    · exact update_of_ne hj _ _
    · dsimp only
      rw [update_self]
      exact hrows e he hact n hn
  · unfold runNode
    rw [if_neg hlt]
    refine ⟨hold, fun j _ => ⟨rfl, rfl⟩, fun e _ _ n hn => absurd hn (by omega), fun m => ?_⟩
    split
    · rfl
    · rw [fillSlice_empty hlt]

/-- **The loop over the nodes**: the staging memory of every node stays what the ghost says, the
kernels read the rows of the source, and the slices are filled one after the other. -/
theorem runNodes_spec : ∀ (slices : List (ℕ × ℕ)) (i : ℕ) (w : Work), (∀ j, Holds mem (w.nodes j)) →
      (∀ j, i ≤ j → w.nodes j = nodes j) →
      (∀ j s, slices[j]? = some s → SliceOk p src cfg alloc nodes (i + j) s) →
      let w' := (slices.zipIdx i).foldl (runNode p mem src k cfg alloc) w
      (∀ j, Holds mem (w'.nodes j)) ∧ (∀ j < i, w'.rows j = w.rows j) ∧
        (∀ j s, slices[j]? = some s → ∀ e < p.numExperts, p.active e = true → ∀ n < s.2 - s.1,
          w'.rows (i + j) e n = sourceRow p mem src e (s.1 + n)) ∧
        ∀ m, w'.D m = match p.rowExpert m with
          | none => w.D m
          | some e => slices.foldl (fillSlice (target k p mem src e m)) (w.D m) := by
  intro slices
  induction slices with
  | nil =>
    intro i w hold _ _
    refine ⟨hold, fun _ _ => rfl, fun j s hs => ?_, fun m => ?_⟩
    · rw [getElem?_nil] at hs
      cases hs
    · split
      · rfl
      · rfl
  | cons s rest ih =>
    intro i w hold hnodes hok
    have hadd : ∀ j, i + (j + 1) = i + 1 + j := by omega
    obtain ⟨hhold, hothers, hrows, hD⟩ :=
      runNode_spec (k := k) hold (hnodes i le_rfl) (hok 0 s rfl)
    rw [zipIdx_cons, foldl_cons]
    obtain ⟨h₁, h₂, h₃, h₄⟩ := ih (i + 1) (runNode p mem src k cfg alloc w (s, i)) hhold
      (fun j hj => (hothers j (lt_of_succ_le hj).ne').1.trans (hnodes j (le_of_succ_le hj)))
      (fun j t ht => hadd j ▸ hok (j + 1) t ht)
    refine ⟨h₁, fun j hj => ?_, fun j t ht => ?_, fun m => ?_⟩
    · exact (h₂ j (lt_succ_of_lt hj)).trans (hothers j hj.ne).2
    · cases j with
      | zero =>
        cases ht
        intro e he hact n hn
        exact (congrFun₂ (h₂ i (lt_succ_self i)) e n).trans (hrows e he hact n hn)
      | succ j =>
        rw [hadd j]
        exact h₃ j t ht
    · rw [h₄ m]
      have hm := hD m
      cases he : p.rowExpert m with
      | none =>
        rw [he] at hm
        exact hm
      | some e =>
        rw [he] at hm
        exact congrArg (fun g => rest.foldl (fillSlice (target k p mem src e m)) g) hm

/-! ### Calls -/

/-- The condition on a call: whole atoms of an NVFP4 projection, no lossless kernels, and every
node undisturbed. -/
def CallOk (cfg : Config) (nodes : ℕ → NodeStage) (p : GemmParams Act) (alloc : ℕ → Alloc) : Prop :=
  (p.format = .nvfp4 → 128 ∣ p.N ∧ 64 ∣ p.K) ∧
    (cfg.lossless = true → losslessFormat p.format = false) ∧
    ∀ src, p.bPtrs = some src → ∀ j s, (rowSlices p cfg.M)[j]? = some s → s.1 < s.2 →
      Undisturbed p src (cfg.scratch j) (alloc j) s.1 s.2 (nodes j)

instance (cfg : Config) (nodes : ℕ → NodeStage) (p : GemmParams Act) (alloc : ℕ → Alloc) :
    Decidable (CallOk cfg nodes p alloc) :=
  decidable_of_iff ((p.format = .nvfp4 → 128 ∣ p.N ∧ 64 ∣ p.K) ∧
      (cfg.lossless = true → losslessFormat p.format = false) ∧
      ∀ src ∈ p.bPtrs, ∀ x ∈ (rowSlices p cfg.M).zipIdx, x.1.1 < x.1.2 →
        Undisturbed p src (cfg.scratch x.2) (alloc x.2) x.1.1 x.1.2 (nodes x.2)) <| by
    refine and_congr_right fun _ => and_congr_right fun _ => forall₂_congr fun src _ => ?_
    simp only [Prod.forall, List.mk_mem_zipIdx_iff_getElem?]
    exact ⟨fun h j a b => h a b j, fun h a b j => h j a b⟩

/-- What is said of a call: the output is that of the device of one node, the slices tile the rows
and have each row once, and the slabs that the kernels of a node read hold the rows of its slice as
they are behind the pointers. -/
structure Faithful (k : Kernels Act) (cfg : Config) (r : CallRecord Act) : Prop where
  output : r.outcome.D = (numaGroupedGemm k cfg.lossless r.mem r.p r.before).1
  tiles : Tiles 0 (rowSlices r.p cfg.M) r.p.N
  once : ∀ n < r.p.N, ∃! j : ℕ, ∃ s : ℕ × ℕ, (rowSlices r.p cfg.M)[j]? = some s ∧ s.1 ≤ n ∧ n < s.2
  slabs : ∀ w src, r.outcome.work = some w → r.p.bPtrs = some src →
    ∀ j s, (rowSlices r.p cfg.M)[j]? = some s → ∀ e < r.p.numExperts, r.p.active e = true →
      ∀ n < s.2 - s.1, w.rows j e n = sourceRow r.p r.mem src e (s.1 + n)

theorem tiles_rowSlices (h : p.format = .nvfp4 → 128 ∣ p.N) : Tiles 0 (rowSlices p cfg.M) p.N := by
  unfold rowSlices
  split
  · next hf => exact (tiles_partitionRows128 cfg.hM (h hf)).1
  · exact tiles_partitionRowsBalanced _ cfg.hM

theorem aligned_rowSlices (h : p.format = .nvfp4 → 128 ∣ p.N ∧ 64 ∣ p.K)
    (hs : s ∈ rowSlices p cfg.M) : Aligned p.format p.K s.1 s.2 := by
  intro hf
  obtain ⟨hN, hK⟩ := h hf
  unfold rowSlices at hs
  rw [hf] at hs
  exact ⟨hK, (tiles_partitionRows128 cfg.hM hN).2 s hs⟩

theorem gemmRows_none {lo hi : ℕ} (h : ∀ m, p.rowExpert m = none) :
    gemmRows kernel p row lo hi D = D := by
  funext m
  unfold gemmRows
  rw [h m]

theorem rowExpert_none_of_total (h : p.totalTokens = 0) (m : ℕ) : p.rowExpert m = none := by
  by_contra hne
  obtain ⟨e, he⟩ := Option.ne_none_iff_exists'.1 hne
  obtain ⟨-, -, hlt⟩ := rowExpert_eq_some he
  have hle : p.expertOffsets (e + 1) ≤ p.totalTokens := by
    unfold GemmParams.totalTokens GemmParams.numExperts GemmParams.expertOffsets
    rw [take_length]
    exact (take_sublist _ _).sum_le_sum fun _ _ => zero_le _
  omega

theorem totalTokens_of_numExperts (h : p.numExperts = 0) : p.totalTokens = 0 := by
  unfold GemmParams.totalTokens GemmParams.expertOffsets
  rw [h]
  rfl

theorem gemmRows_zero : gemmRows kernel p row 0 0 D = D := by
  funext m
  unfold gemmRows
  split
  · rfl
  · exact fillSlice_empty (lt_irrefl 0)

theorem runNodes_call {src : ℕ → ℕ} (hold : ∀ j, Holds mem (nodes j))
    (hok : CallOk cfg nodes p alloc) (hsrc : p.bPtrs = some src) :
    let w := runNodes p mem src k cfg alloc nodes D
    (∀ j, Holds mem (w.nodes j)) ∧
      (∀ j s, (rowSlices p cfg.M)[j]? = some s → ∀ e < p.numExperts, p.active e = true →
        ∀ n < s.2 - s.1, w.rows j e n = sourceRow p mem src e (s.1 + n)) ∧
      w.D = gemmRows (k.dot p.format p.K) p (sourceRow p mem src) 0 p.N D := by
  obtain ⟨hshape, -, hun⟩ := hok
  have hslices : ∀ j s, (rowSlices p cfg.M)[j]? = some s →
      SliceOk p src cfg alloc nodes (0 + j) s := by
    intro j s hs
    rw [zero_add]
    exact ⟨aligned_rowSlices hshape (mem_of_getElem? hs), hun src hsrc j s hs⟩
  obtain ⟨h₁, -, h₃, h₄⟩ := runNodes_spec (k := k) (rowSlices p cfg.M) 0
    ⟨nodes, fun _ _ _ => .gguf [], D⟩ hold (fun _ _ => rfl) hslices
  refine ⟨h₁, fun j s hs => ?_, funext fun m => ?_⟩
  · have h := h₃ j s hs
    rwa [zero_add] at h
  · refine (h₄ m).trans ?_
    unfold gemmRows
    cases p.rowExpert m with
    | none => rfl
    | some e =>
      dsimp only
      rw [foldl_fillSlice _ (tiles_rowSlices fun hf => (hshape hf).1)]
      rfl

theorem faithful_call (hold : ∀ j, Holds mem (nodes j)) (hok : CallOk cfg nodes p alloc) :
    Faithful k cfg ⟨p, mem, D, multiGroupedGemm p mem k cfg alloc nodes D⟩ ∧ ∀ j, Holds mem
        ((((multiGroupedGemm p mem k cfg alloc nodes D).work.map Work.nodes).getD nodes) j) := by
  have htiles : Tiles 0 (rowSlices p cfg.M) p.N := tiles_rowSlices fun hf => (hok.1 hf).1
  have hlossless := hok.2.1
  -- a call that runs no slice, and one that runs them all
  have hidle : ∀ err, (numaGroupedGemm k cfg.lossless mem p D).1 = D →
      multiGroupedGemm p mem k cfg alloc nodes D = ⟨D, err, none⟩ →
      Faithful k cfg ⟨p, mem, D, multiGroupedGemm p mem k cfg alloc nodes D⟩ ∧ ∀ j, Holds mem
          ((((multiGroupedGemm p mem k cfg alloc nodes D).work.map Work.nodes).getD nodes) j) := by
    intro err hD heq
    rw [heq]
    refine ⟨⟨hD.symm, htiles, fun n hn => htiles.existsUnique n (Nat.zero_le n) hn, ?_⟩, hold⟩
    intro w src hw
    cases hw
  have hwork : ∀ src, p.bPtrs = some src → (numaGroupedGemm k cfg.lossless mem p D).1 =
        gemmRows (k.dot p.format p.K) p (sourceRow p mem src) 0 p.N D →
      multiGroupedGemm p mem k cfg alloc nodes D =
        ⟨(runNodes p mem src k cfg alloc nodes D).D, none,
          some (runNodes p mem src k cfg alloc nodes D)⟩ →
      Faithful k cfg ⟨p, mem, D, multiGroupedGemm p mem k cfg alloc nodes D⟩ ∧ ∀ j, Holds mem
          ((((multiGroupedGemm p mem k cfg alloc nodes D).work.map Work.nodes).getD nodes) j) := by
    intro src hsrc hD heq
    obtain ⟨hholds, hrows, hout⟩ := runNodes_call (k := k) (D := D) hold hok hsrc
    rw [heq]
    refine ⟨⟨hout.trans hD.symm, htiles, fun n hn => htiles.existsUnique n (Nat.zero_le n) hn, ?_⟩,
      hholds⟩
    intro w src' hw hsrc'
    cases hw
    obtain rfl : src = src' := Option.some.inj (hsrc.symm.trans hsrc')
    exact hrows
  cases hf : p.format with
  | nvfp4 =>
    have hplain : cfg.lossless = false := by
      cases hl : cfg.lossless with
      | false => rfl
      | true =>
        have h := hlossless hl
        rw [hf] at h
        cases h
    by_cases hzero : p.numExperts = 0 ∨ p.N = 0
    · refine hidle none ?_ ?_
      · unfold numaGroupedGemm
        rw [hf]
        dsimp only
        split
        · rfl
        rcases hzero with he | hN
        · exact gemmRows_none (rowExpert_none_of_total (totalTokens_of_numExperts he))
        · rw [hN]
          exact gemmRows_zero
      · unfold multiGroupedGemm
        rw [hf]
        exact if_pos hzero
    · cases hptr : p.bPtrs with
      | none =>
        refine hidle (some .noBPtrs) ?_ ?_
        · simp only [numaGroupedGemm, hf, hptr]
        · simp only [multiGroupedGemm, hf, hptr, if_neg hzero]
      | some src =>
        refine hwork src hptr ?_ ?_
        · simp only [numaGroupedGemm, hf, hptr, hplain, Bool.false_eq_true, if_false]
        · simp only [multiGroupedGemm, hf, hptr, if_neg hzero]
  | gguf t =>
    have hplain : (cfg.lossless && losslessFormat (.gguf t)) = false := by
      cases hl : cfg.lossless with
      | false => rfl
      | true =>
        have h := hlossless hl
        rwa [hf] at h
    by_cases hfp : p.dFp32 = true
    · refine hidle (some .noFp32Out) ?_ ?_
      · simp only [numaGroupedGemm, hf, hfp, if_true]
      · simp only [multiGroupedGemm, hf, hfp, if_true]
    by_cases he : p.numExperts = 0
    · refine hidle none ?_ ?_
      · simp only [numaGroupedGemm, hf, if_neg hfp, if_pos he]
      · simp only [multiGroupedGemm, hf, if_neg hfp, he, true_or, if_true]
    by_cases hN : p.N = 0
    · refine hidle none ?_ ?_
      · simp only [numaGroupedGemm, hf, if_neg hfp, if_neg he, hplain, hN, if_true,
          Bool.false_eq_true, if_false]
        split
        · rfl
        split
        · rfl
        · rfl
      · simp only [multiGroupedGemm, hf, if_neg hfp, hN, or_true, if_true]
    have hsome : ¬(p.numExperts = 0 ∨ p.N = 0) := not_or.2 ⟨he, hN⟩
    cases hptr : p.bPtrs with
    | none =>
      refine hidle (some .noBPtrs) ?_ ?_
      · simp only [numaGroupedGemm, hf, if_neg hfp, if_neg he, hptr]
      · simp only [multiGroupedGemm, hf, if_neg hfp, if_neg hsome, hptr]
    | some src =>
      cases hik : toIkGguf t with
      | none =>
        refine hidle (some .unsupportedType) ?_ ?_
        · simp only [numaGroupedGemm, hf, if_neg hfp, if_neg he, hptr, hplain, hik,
            Bool.false_eq_true, if_false]
        · simp only [multiGroupedGemm, hf, if_neg hfp, if_neg hsome, hptr, hik]
      | some ik =>
        by_cases hsup : k.ggufSupported ik = true
        · have hnuma : (numaGroupedGemm k cfg.lossless mem p D).1 =
              gemmRows (k.dot p.format p.K) p (sourceRow p mem src) 0 p.N D := by
            simp only [numaGroupedGemm, hf, if_neg hfp, if_neg he, hptr, hplain, hik, if_neg hN,
              if_pos hsup, Bool.false_eq_true, if_false]
          by_cases htotal : p.totalTokens = 0
          · refine hidle none (hnuma.trans (gemmRows_none (rowExpert_none_of_total htotal))) ?_
            simp only [multiGroupedGemm, hf, if_neg hfp, if_neg hsome, hptr, hik, hsup,
              Bool.true_eq_false, if_false, if_pos htotal]
          · refine hwork src hptr hnuma ?_
            simp only [multiGroupedGemm, hf, if_neg hfp, if_neg hsome, hptr, hik, hsup,
              Bool.true_eq_false, if_false, if_neg htotal]
        · have hsup' : k.ggufSupported ik = false := Bool.eq_false_iff.2 hsup
          refine hidle (some .unsupportedHost) ?_ ?_
          · simp only [numaGroupedGemm, hf, if_neg hfp, if_neg he, hptr, hplain, hik, if_neg hN,
              if_neg hsup, Bool.false_eq_true, if_false]
          · simp only [multiGroupedGemm, hf, if_neg hfp, if_neg hsome, hptr, hik, if_pos hsup']

/-! ### Runs -/

/-- The condition on a step: on a call, that it meets the condition; none on a write. -/
def StepOk (cfg : Config) (d : Device Act) : DeviceAction Act → Prop
  | .gemm p _ alloc => CallOk cfg d.nodes p alloc
  | .write _ _ => True

instance (cfg : Config) (d : Device Act) : ∀ a, Decidable (StepOk cfg d a)
  | .gemm _ _ _ => inferInstanceAs (Decidable (CallOk ..))
  | .write _ _ => .isTrue trivial

def DeviceOk (k : Kernels Act) (cfg : Config) (d : Device Act) : Prop :=
  (∀ j, Holds d.mem (d.nodes j)) ∧ ∀ r, d.last = some r → Faithful k cfg r

theorem DeviceOk.step {d d' : Device Act} {a : DeviceAction Act} (h : DeviceOk k cfg d)
    (hok : StepOk cfg d a) (hstep : d.step k cfg a = some d') : DeviceOk k cfg d' := by
  cases a with
  | gemm p D alloc =>
    cases hstep
    obtain ⟨hfaithful, hhold⟩ := faithful_call (k := k) (D := D) h.1 hok
    refine ⟨hhold, fun r hr => ?_⟩
    cases hr
    exact hfaithful
  | write a bytes =>
    cases hstep
    exact ⟨fun j => (h.1 j).sourceWritten a bytes, h.2⟩

/-- **Every call writes what the device of one node writes**, in every run whose steps meet the
condition. -/
theorem multi_numa_faithful (k : Kernels Act) (cfg : Config) (mem : ℕ → UInt8)
    {actions : List (DeviceAction Act)} {d : Device Act}
    (hrun : GuardedRun (Device.step k cfg) (StepOk cfg) (Device.boot mem) actions d) :
    ∀ r, d.last = some r → Faithful k cfg r := by
  have h : DeviceOk k cfg d :=
    hrun.invariant (I := DeviceOk k cfg) (fun _ _ _ h hok hstep => h.step hok hstep)
      ⟨fun _ => holds_empty, fun _ hr => by cases hr⟩
  exact h.2

/-! ### Two runs -/

def firstQuant : Kernels Unit where
  ggufSupported _ := true
  dot _ _ row _ := match row with
    | .gguf bytes => (bytes.getD 2 0).toUInt16
    | .nvfp4 _ _ _ _ => 0
  dotLossless _ _ _ _ := 0

/-- A memory whose bytes tell their address. -/
def countingMem (x : ℕ) : UInt8 := UInt8.ofNat x

/-- A Q8_0 call with rows of 32 values: one token for each of the experts at the addresses. -/
def q8Call (addrs : List ℕ) (N : ℕ) : GemmParams Unit where
  format := .gguf .q80
  bPtrs := some fun e => addrs.getD e 0
  counts := addrs.map fun _ => 1
  N := N
  K := 32
  dFp32 := false
  A _ := ()

/-- A device of `M` nodes without scratch. -/
def plainConfig (M : ℕ) (hM : 0 < M) : Config := ⟨M, hM, fun _ => none, false⟩

/-- The system hands out a buffer at address 4096. -/
def allocAt (_ : ℕ) : Alloc := ⟨4096, fun _ => 0⟩

/-- The second call finds the slabs of the first one. -/
theorem multi_numa_faithful_two : ∃ (d : Device Unit) (r : CallRecord Unit),
    GuardedRun (Device.step firstQuant (plainConfig 2 Nat.two_pos))
      (StepOk (plainConfig 2 Nat.two_pos)) (Device.boot countingMem)
        [.gemm (q8Call [98, 300] 3) (fun _ _ => 0) allocAt, .write 40 [7],
          .gemm (q8Call [98, 300] 3) (fun _ _ => 0) allocAt] d ∧
      d.last = some r ∧ Faithful firstQuant (plainConfig 2 Nat.two_pos) r ∧
        r.outcome.D 0 0 = 100 := by
  obtain ⟨d, hd, hlast⟩ : ∃ d, [.gemm (q8Call [98, 300] 3) (fun _ _ => 0) allocAt, .write 40 [7],
      .gemm (q8Call [98, 300] 3) (fun _ _ => 0) allocAt].foldlM
        (fun d a => if StepOk (plainConfig 2 Nat.two_pos) d a then
          Device.step firstQuant (plainConfig 2 Nat.two_pos) d a else none)
        (Device.boot countingMem) = some d ∧
      (d.last.any fun r => decide (r.outcome.D 0 0 = 100)) = true :=
    (Option.any_eq_true _ _).1 (by decide)
  obtain ⟨r, hr, hD⟩ := (Option.any_eq_true _ _).1 hlast
  have hrun := GuardedRun.of_checked hd
  exact ⟨d, r, hrun, hr,
    multi_numa_faithful firstQuant (plainConfig 2 Nat.two_pos) countingMem hrun r hr,
    of_decide_eq_true hD⟩
/-- **A slab that is skipped holds another expert**: the slabs of the call in between are twice as
large, so its first one covers the second slab of the first call, whose record stays. -/
theorem second_expert_of_stale_slab : ∃ (d : Device Unit) (r : CallRecord Unit),
    Run (Device.step firstQuant (plainConfig 1 Nat.one_pos)) (Device.boot countingMem)
      [.gemm (q8Call [100, 1000] 1) (fun _ _ => 0) allocAt,
        .gemm (q8Call [5000] 2) (fun _ _ => 0) allocAt,
        .gemm (q8Call [100, 1000] 1) (fun _ _ => 0) allocAt] d ∧
      d.last = some r ∧
      r.outcome.D 1 0 ≠ (numaGroupedGemm firstQuant false r.mem r.p r.before).1 1 0 := by
  obtain ⟨d, hd, hlast⟩ : ∃ d, [.gemm (q8Call [100, 1000] 1) (fun _ _ => 0) allocAt,
        .gemm (q8Call [5000] 2) (fun _ _ => 0) allocAt,
        .gemm (q8Call [100, 1000] 1) (fun _ _ => 0) allocAt].foldlM
        (Device.step firstQuant (plainConfig 1 one_pos)) (Device.boot countingMem) = some d ∧
      (d.last.any fun r => decide (r.outcome.D 1 0 ≠
        (numaGroupedGemm firstQuant false r.mem r.p r.before).1 1 0)) = true :=
    (Option.any_eq_true _ _).1 (by decide)
  obtain ⟨r, hr, hD⟩ := (Option.any_eq_true _ _).1 hlast
  exact ⟨d, r, Run.of_foldlM hd, hr, of_decide_eq_true hD⟩

end LayerStorm.Compute
