import LayerStorm.Memory.NvmeAccounting

/-!
# Expert files across restarts

A start takes every expert file of the right size for fully populated.  But a file gets its size
when it is first used, and its slots are filled one by one, so a stop in between leaves a file whose
missing slots are served as zeros by the next run.  The same happens within a run when a written
slot is written again, and when a drain takes a short write for a complete one.

## Main results

* `served_across_restarts` — every run of careful actions serves complete slots.
* `presized_file_served` — a file that was only sized is served after a restart.
-/

namespace LayerStorm.Memory

open List Option Function
namespace Nvme

open Lib

variable {s s' : World} {key key' : ExpertKey} {lpos : ℕ}

/-! ### The property -/

/-- The contents are those of a completed full-size write of the key, or prepacked. -/
def SourceOk (full : List (ℕ × ExpertKey)) (key : ExpertKey) : Source → Prop
  | .write w => (w, key) ∈ full
  | .prepacked => True

def SlotComplete (o : Options) (disk : ℕ → Option File) (full : List (ℕ × ExpertKey))
    (key : ExpertKey) : Prop :=
  ∃ f src lpos, o.layerPos key = some lpos ∧ disk key.expertIdx = some f ∧ SourceOk full key src ∧
      ∀ k < o.slotSizeBytes, f.cell (o.slotOffset lpos + k) = some (src, key, k)

/-- **What is handed out is complete.** -/
def Served (s : World) : Prop :=
  ∀ key, ((s.hostPtr key).isSome ∨ (s.readExpert key).isSome) →
    SlotComplete s.opts s.disk s.full key

def Marked (s : World) (key : ExpertKey) : Prop :=
  ∃ lpos, s.opts.layerPos key = some lpos ∧ s.slotWritten key.expertIdx lpos = true

/-- No write of the key is outstanding. -/
def Landed (s : World) (key : ExpertKey) : Prop := ∀ f ∈ s.flights, f.key ≠ key

/-- The condition on a synchronous write: no write of the key is outstanding, and a slot that is
marked written is written in full. -/
def SyncOk (s : World) (key : ExpertKey) (written : ℤ) : Prop :=
  Landed s key ∧ (Marked s key → written = s.opts.slotSizeBytes)

/-- The files of two runs have the same slots. -/
def SameSlots (o o' : Options) : Prop :=
  o.slotSizeBytes = o'.slotSizeBytes ∧ o.numMoeLayers = o'.numMoeLayers ∧
    o.firstMoeLayer = o'.firstMoeLayer

/-- **The condition on an action.**  A write is submitted only for a slot that is not marked
written and has no write outstanding, a drain consumes no short write, and the engine stops only
when it has marked every slot of the files that the next scan takes and that are not replaced. -/
def Careful (s : World) : World.Action → Prop
  | .writeExpert key r sqe => (∃ s' t, s.writeExpert key r sqe = some (s', some t)) →
    Landed s key ∧ ¬ Marked s key
  | .writeExpertOwned key r sqe r' written => ∀ s' t,
    s.writeExpertOwned key r sqe r' written = some (s', some t) →
      if t = 0 then SyncOk s key written else Landed s key ∧ ¬ Marked s key
  | .writeExpertSync key _ written => SyncOk s key written
  | .drainPass next => ∀ d token, next d = some (.write token) → token ∈ s.pending →
    ∀ f ∈ s.flights, f.token = token → ∀ r, f.result = some r →
      r < 0 ∨ (s.opts.slotSizeBytes : ℤ) ≤ r
  | .restart o placed openable => ∀ e, World.rightSized o s.disk e = true → openable e = true →
    placed e = false → SameSlots s.opts o ∧ ∀ lpos < o.numMoeLayers, s.slotWritten e lpos = true
  | _ => True

/-! ### Slots -/

variable {o : Options}

theorem layerPos_inj (h : o.layerPos key = some lpos) (h' : o.layerPos key' = some lpos)
    (he : key.expertIdx = key'.expertIdx) : key = key' := by
  unfold Options.layerPos at h h'
  split at h <;> split at h' <;> simp only [some.injEq, reduceCtorEq] at h h'
  cases key
  cases key'
  simp only [ExpertKey.mk.injEq] at *
  exact ⟨by omega, he⟩

theorem SourceOk.mono {full full' : List (ℕ × ExpertKey)} {src : Source} (h : SourceOk full key src)
    (hsub : full ⊆ full') : SourceOk full' key src := by
  cases src with
  | write w => exact hsub h
  | prepacked => trivial

variable {disk : ℕ → Option File}

theorem SlotComplete.mono {full full' : List (ℕ × ExpertKey)} (h : SlotComplete o disk full key)
    (hsub : full ⊆ full') : SlotComplete o disk full' key := by
  obtain ⟨f, src, lpos, hl, hf, hsrc, hcell⟩ := h
  exact ⟨f, src, lpos, hl, hf, hsrc.mono hsub, hcell⟩

theorem SlotComplete.update {full : List (ℕ × ExpertKey)} (h : SlotComplete o disk full key) {e : ℕ}
    (he : e ≠ key.expertIdx) (x : Option File) :
    SlotComplete o (update disk e x) full key := by
  obtain ⟨f, src, lpos, hl, hf, hrest⟩ := h
  exact ⟨f, src, lpos, hl, by rw [update_of_ne he.symm]; exact hf, hrest⟩

theorem SlotComplete.sameSlots {o' : Options} {disk' : ℕ → Option File}
    {full : List (ℕ × ExpertKey)} (h : SlotComplete o disk full key) (ho : SameSlots o o')
    (hdisk : disk' key.expertIdx = disk key.expertIdx) : SlotComplete o' disk' full key := by
  obtain ⟨f, src, lpos, hl, hf, hsrc, hcell⟩ := h
  obtain ⟨hsize, hnum, hfirst⟩ := ho
  refine ⟨f, src, lpos, ?_, hdisk.trans hf, hsrc, ?_⟩
  · rwa [Options.layerPos, ← hnum, ← hfirst]
  · rwa [Options.slotOffset, ← hsize]

theorem Options.layerPos_some (h : o.layerPos key = some lpos) :
    lpos < o.numMoeLayers ∧ key.layerIdx = o.firstMoeLayer + lpos := by
  unfold Options.layerPos at h
  split at h
  · next hin =>
    cases h
    exact ⟨hin.2, (Nat.add_sub_of_le hin.1).symm⟩
  · cases h

/-- The slots of a prepacked file are complete. -/
theorem slotComplete_prepacked (full : List (ℕ × ExpertKey)) (hl : o.layerPos key = some lpos)
    (hf : disk key.expertIdx = some (prepackedFile o key.expertIdx)) :
    SlotComplete o disk full key := by
  refine ⟨_, .prepacked, lpos, hl, hf, trivial, fun k hk => ?_⟩
  have hdiv : (lpos * o.slotSizeBytes + k) / o.slotSizeBytes = lpos := by
    rw [Nat.mul_comm, Nat.mul_add_div o.slotSizeBytes_pos, Nat.div_eq_of_lt hk, Nat.add_zero]
  have hmod : (lpos * o.slotSizeBytes + k) % o.slotSizeBytes = k :=
    Nat.mul_add_mod_of_lt hk
  simp only [prepackedFile, Options.slotOffset, hdiv, hmod, ← (Options.layerPos_some hl).2]

theorem SlotComplete.storeBytes (h : SlotComplete s.opts s.disk s.full key)
    (hl' : s.opts.layerPos key' = some lpos) (hne : key ≠ key') (w : ℕ) (p : ℕ → Bool) :
    SlotComplete s.opts (s.storeBytes key' lpos w p).disk s.full key := by
  by_cases he : key'.expertIdx = key.expertIdx
  · obtain ⟨f, src, l, hl, hf, hsrc, hcell⟩ := h
    have hll : l ≠ lpos := fun heq => hne (layerPos_inj (heq ▸ hl) hl' he.symm)
    refine ⟨f.store (s.opts.slotOffset lpos) s.opts.slotSizeBytes (.write w) key' p, src, l, hl,
      ?_, hsrc, fun k hk => ?_⟩
    · simp only [World.storeBytes, he, update_self, hf, map_some]
    · -- different slots of a file do not overlap
      have hout : ¬ (s.opts.slotOffset lpos ≤ s.opts.slotOffset l + k ∧
          s.opts.slotOffset l + k < s.opts.slotOffset lpos + s.opts.slotSizeBytes ∧
            p (s.opts.slotOffset l + k - s.opts.slotOffset lpos) = true) := by
        rintro ⟨h₁, h₂, -⟩
        unfold Options.slotOffset at h₁ h₂
        rcases Nat.lt_or_gt_of_ne hll with hlt | hlt
        · have hmul := Nat.mul_le_mul_right s.opts.slotSizeBytes (Nat.succ_le_of_lt hlt)
          rw [Nat.succ_mul] at hmul
          omega
        · have hmul := Nat.mul_le_mul_right s.opts.slotSizeBytes (Nat.succ_le_of_lt hlt)
          rw [Nat.succ_mul] at hmul
          omega
      simp only [File.store, if_neg hout]
      exact hcell k hk
  · exact h.update he _

theorem slotComplete_storeBytes {f : File} (hl : s.opts.layerPos key = some lpos)
    (hf : s.disk key.expertIdx = some f) {w : ℕ} (full : List (ℕ × ExpertKey))
    (hfull : (w, key) ∈ full) {p : ℕ → Bool} (hp : ∀ k < s.opts.slotSizeBytes, p k = true) :
    SlotComplete s.opts (s.storeBytes key lpos w p).disk full key := by
  refine ⟨f.store (s.opts.slotOffset lpos) s.opts.slotSizeBytes (.write w) key p, .write w, lpos,
    hl, ?_, hfull, fun k hk => ?_⟩
  · simp only [World.storeBytes, update_self, hf, map_some]
  · have hin : s.opts.slotOffset lpos ≤ s.opts.slotOffset lpos + k ∧
        s.opts.slotOffset lpos + k < s.opts.slotOffset lpos + s.opts.slotSizeBytes ∧
          p (s.opts.slotOffset lpos + k - s.opts.slotOffset lpos) = true := by
      refine ⟨by omega, by omega, ?_⟩
      rw [Nat.add_sub_cancel_left]
      exact hp k hk
    simp only [File.store]
    rw [if_pos hin, Nat.add_sub_cancel_left]

/-! ### The invariant -/

/-- What is marked written is complete, and so is what a full-size write has filled. -/
structure Kept (s : World) : Prop where
  file : ∀ e, s.mapped e = true → ∃ f, s.disk e = some f
  mapped : ∀ e l, s.slotWritten e l = true → s.mapped e = true
  complete : ∀ key, Marked s key → SlotComplete s.opts s.disk s.full key
  token_pos : 0 < s.nextToken
  token_lt : ∀ f ∈ s.flights, f.token < s.nextToken
  token_nodup : (s.flights.map Flight.token).Nodup
  key_nodup : (s.flights.map Flight.key).Nodup
  pending : ∀ f ∈ s.flights, ∀ op, s.pending.lookup f.token = some op → op.key = f.key
  layer : ∀ f ∈ s.flights, ∃ l, s.opts.layerPos f.key = some l
  flight_mapped : ∀ f ∈ s.flights, s.mapped f.key.expertIdx = true
  unmarked : ∀ f ∈ s.flights, ¬ Marked s f.key
  ended : ∀ f ∈ s.flights, ∀ r, f.result = some r → (s.opts.slotSizeBytes : ℤ) ≤ r →
    SlotComplete s.opts s.disk s.full f.key

namespace Kept

theorem served (h : Kept s) : Served s := by
  intro key hex
  have hhost : (s.hostPtr key).isSome := by
    rcases hex with hex | hex
    · exact hex
    · rwa [World.readExpert, isSome_map] at hex
  unfold World.hostPtr at hhost
  split at hhost
  · cases hhost
  next lpos hl =>
  split at hhost
  · next hw => exact h.complete key ⟨lpos, hl, hw.2.2⟩
  · cases hhost

theorem of_flight_eq (h : Kept s) {f g : Flight} (hf : f ∈ s.flights) (hg : g ∈ s.flights)
    (heq : f.token = g.token) : f = g :=
  inj_on_of_nodup_map h.token_nodup hf hg heq

variable {e : ℕ}

theorem of_unmapped (h : Kept s) (he : s.mapped e ≠ true) (file : Option File) :
    Kept { s with disk := update s.disk e file } := by
  have hne : ∀ {e'}, s.mapped e' = true → e ≠ e' := fun hm heq => he (heq ▸ hm)
  exact { h with
    file := fun e' hm => by
      obtain ⟨f, hf⟩ := h.file e' hm
      exact ⟨f, by rw [← hf]; exact update_of_ne (hne hm).symm _ _⟩
    complete := fun key hk => by
      obtain ⟨l, hl, hw⟩ := hk
      exact (h.complete key ⟨l, hl, hw⟩).update (hne (h.mapped _ l hw)) _
    ended := fun f hf r hr hle =>
      (h.ended f hf r hr hle).update (hne (h.flight_mapped f hf)) _ }

theorem ensureMmap (h : Kept s) (e : ℕ) (r : World.MapResult) : Kept (s.ensureMmap e r) := by
  unfold World.ensureMmap
  split
  · exact h
  next hne =>
  have he : s.mapped e ≠ true := fun hm => hne (.inr hm)
  cases r with
  | openFails => exact h
  | sizeFails | mapFails => exact h.of_unmapped he _
  | ok =>
    set sized := ((s.disk e).getD ⟨0, fun _ => none⟩).presize s.opts.expectedFileSize
    have hdisk := h.of_unmapped he (some sized)
    have hkeep : ∀ {e'}, s.mapped e' = true → update s.mapped e true e' = true := by
      intro e' hm
      by_cases heq : e' = e
      · rw [heq, update_self]
      · rwa [update_of_ne heq]
    exact { hdisk with
      file := fun e' hm => by
        by_cases heq : e' = e
        · exact ⟨sized, by rw [heq]; exact update_self _ _ _⟩
        rw [show ({ s with
            disk := update s.disk e (some sized)
            mapped := update s.mapped e true } : World).mapped e' = s.mapped e'
          from update_of_ne heq _ _] at hm
        exact hdisk.file e' hm
      mapped := fun e' l hw => hkeep (h.mapped e' l hw)
      flight_mapped := fun f hf => hkeep (h.flight_mapped f hf) }

theorem store (h : Kept s) (hl : s.opts.layerPos key = some lpos) (hno : ¬ Marked s key)
    (hrun : ∀ f ∈ s.flights, f.key = key → ∀ r, f.result = some r →
      ¬ (s.opts.slotSizeBytes : ℤ) ≤ r) (w : ℕ) (p : ℕ → Bool) :
    Kept (s.storeBytes key lpos w p) :=
  { h with
    file := fun e hm => by
      obtain ⟨f, hf⟩ := h.file e hm
      by_cases he : e = key.expertIdx
      · subst he
        exact ⟨_, by simp only [World.storeBytes, update_self, hf, map_some]; rfl⟩
      · exact ⟨f, by rw [← hf]; exact update_of_ne he _ _⟩
    complete := fun key' hk => by
      have hne : key' ≠ key := fun heq => hno (heq ▸ hk)
      exact (h.complete key' hk).storeBytes hl hne w p
    ended := fun f hf r hr hle => by
      have hne : f.key ≠ key := fun heq => hrun f hf heq r hr hle
      exact (h.ended f hf r hr hle).storeBytes hl hne w p }

variable {full : List (ℕ × ExpertKey)}

theorem number (h : Kept s) (hfull : s.full ⊆ full) :
    Kept { s with nextWrite := s.nextWrite + 1, full := full } :=
  { h with
    complete := fun key hk => (h.complete key hk).mono hfull
    ended := fun f hf r hr hle => (h.ended f hf r hr hle).mono hfull }

theorem marked_markWritten (hl : s.opts.layerPos key = some lpos) :
    Marked (s.markWritten key lpos) key' → key' = key ∨ Marked s key' := by
  rintro ⟨l, hl', hw⟩
  change update s.slotWritten key.expertIdx
    (update (s.slotWritten key.expertIdx) lpos true) key'.expertIdx l = true at hw
  by_cases he : key'.expertIdx = key.expertIdx
  · by_cases hll : l = lpos
    · subst hll
      exact .inl (layerPos_inj hl' hl he)
    · rw [he, update_self, update_of_ne hll] at hw
      exact .inr ⟨l, hl', he ▸ hw⟩
  · rw [update_of_ne he] at hw
    exact .inr ⟨l, hl', hw⟩

theorem mark (h : Kept s) (hl : s.opts.layerPos key = some lpos)
    (hm : s.mapped key.expertIdx = true) (hland : Landed s key)
    (hc : SlotComplete s.opts s.disk s.full key) : Kept (s.markWritten key lpos) :=
  { h with
    mapped := fun e l hw => by
      by_cases he : e = key.expertIdx
      · exact he ▸ hm
      refine h.mapped e l ?_
      rw [← hw]
      exact (congrFun (update_of_ne he _ _) l).symm
    complete := fun key' hk => by
      rcases marked_markWritten hl hk with rfl | hk
      · exact hc
      · exact h.complete key' hk
    unmarked := fun f hf hk => by
      rcases marked_markWritten hl hk with heq | hk
      · exact hland f hf heq
      · exact h.unmarked f hf hk }

theorem writeFull (h : Kept s) (hl : s.opts.layerPos key = some lpos)
    (hm : s.mapped key.expertIdx = true) (hland : Landed s key) {p : ℕ → Bool}
    (hp : ∀ k < s.opts.slotSizeBytes, p k = true) :
    Kept ({ s.storeBytes key lpos s.nextWrite p with
      nextWrite := s.nextWrite + 1
      full := (s.nextWrite, key) :: s.full }.markWritten key lpos) := by
  obtain ⟨f, hf⟩ := h.file _ hm
  have hc := slotComplete_storeBytes hl hf ((s.nextWrite, key) :: s.full) mem_cons_self hp
  have hsub : s.full ⊆ (s.nextWrite, key) :: s.full := subset_cons_self _ _
  have hother : ∀ {key'}, key' ≠ key → SlotComplete s.opts s.disk s.full key' →
      SlotComplete s.opts (s.storeBytes key lpos s.nextWrite p).disk
        ((s.nextWrite, key) :: s.full) key' :=
    fun hne hk => (hk.storeBytes hl hne _ p).mono hsub
  exact { h with
    file := fun e hme => by
      obtain ⟨f, hf⟩ := h.file e hme
      by_cases he : e = key.expertIdx
      · subst he
        exact ⟨f.store (s.opts.slotOffset lpos) s.opts.slotSizeBytes (.write s.nextWrite) key p, by
          change update s.disk _ _ _ = _
          rw [update_self, hf, map_some]⟩
      · exact ⟨f, by rw [← hf]; exact update_of_ne he _ _⟩
    mapped := fun e l hw => by
      by_cases he : e = key.expertIdx
      · exact he ▸ hm
      refine h.mapped e l ?_
      rw [← hw]
      exact (congrFun (update_of_ne he _ _) l).symm
    complete := fun key' hk => by
      by_cases hne : key' = key
      · exact hne ▸ hc
      rcases marked_markWritten (s := s) hl hk with heq | hk
      · exact absurd heq hne
      · exact hother hne (h.complete key' hk)
    unmarked := fun f hf hk => by
      rcases marked_markWritten (s := s) hl hk with heq | hk
      · exact hland f hf heq
      · exact h.unmarked f hf hk
    ended := fun f hf r hr hle => hother (hland f hf) (h.ended f hf r hr hle) }

theorem ensureMmap_same (s : World) (e : ℕ) (r : World.MapResult) :
    (s.ensureMmap e r).opts = s.opts ∧ (s.ensureMmap e r).flights = s.flights ∧
      (s.ensureMmap e r).slotWritten = s.slotWritten := by
  unfold World.ensureMmap
  split
  · exact ⟨rfl, rfl, rfl⟩
  · cases r <;> exact ⟨rfl, rfl, rfl⟩

variable {r : World.MapResult}

theorem landed_ensureMmap : Landed (s.ensureMmap e r) key ↔ Landed s key := by
  unfold Landed
  rw [(ensureMmap_same s e r).2.1]

theorem marked_ensureMmap : Marked (s.ensureMmap e r) key ↔ Marked s key := by
  unfold Marked
  rw [(ensureMmap_same s e r).1, (ensureMmap_same s e r).2.2]

variable {written : ℤ}

theorem writeExpertSync (h : Kept s) (hok : SyncOk s key written)
    (hs : s.writeExpertSync key r written = some s') : Kept s' := by
  unfold World.writeExpertSync at hs
  split at hs
  · cases hs
    exact h
  next lpos hl =>
  split at hs
  · cases hs
  have hmap := h.ensureMmap key.expertIdx r
  have hland := landed_ensureMmap (e := key.expertIdx) (r := r) |>.2 hok.1
  have hopts := (ensureMmap_same s key.expertIdx r).1
  rw [← hopts] at hl
  dsimp only at hs
  split at hs
  · next hm =>
    split at hs
    · next hw =>
      cases hs
      refine hmap.writeFull hl hm hland fun k hk => ?_
      rw [hw]
      exact decide_eq_true (by exact_mod_cast hk)
    · next hw =>
      cases hs
      have hno : ¬ Marked (s.ensureMmap key.expertIdx r) key := fun hk =>
        hw (hopts ▸ hok.2 (marked_ensureMmap.1 hk))
      exact (hmap.store hl hno (fun f hf heq => absurd heq (hland f hf)) _ _).number
        (List.Subset.refl _)
  · cases hs
    exact hmap

theorem submit (h : Kept s) (hl : s.opts.layerPos key = some lpos)
    (hm : s.mapped key.expertIdx = true) (hland : Landed s key) (hno : ¬ Marked s key)
    (buf : Option ℕ) : Kept (s.submit key buf) := by
  have htoken : ∀ f ∈ s.flights, f.token ≠ s.nextToken := fun f hf => (h.token_lt f hf).ne
  exact { h with
    token_pos := Nat.succ_pos _
    token_lt := fun f hf => by
      rcases mem_cons.1 hf with rfl | hf
      · exact Nat.lt_succ_self _
      · exact (h.token_lt f hf).trans (Nat.lt_succ_self _)
    token_nodup := nodup_cons.2 ⟨fun hmem => by
      obtain ⟨f, hf, heq⟩ := mem_map.1 hmem
      exact htoken f hf heq, h.token_nodup⟩
    key_nodup := nodup_cons.2 ⟨fun hmem => by
      obtain ⟨f, hf, heq⟩ := mem_map.1 hmem
      exact hland f hf heq, h.key_nodup⟩
    pending := fun f hf op hop => by
      change (s.pending.insert _ _).lookup f.token = some op at hop
      rcases mem_cons.1 hf with rfl | hf
      · rw [AList.lookup_insert, some.injEq] at hop
        rw [← hop]
      · rw [AList.lookup_insert_ne (htoken f hf)] at hop
        exact h.pending f hf op hop
    layer := fun f hf => by
      rcases mem_cons.1 hf with rfl | hf
      · exact ⟨lpos, hl⟩
      · exact h.layer f hf
    flight_mapped := fun f hf => by
      rcases mem_cons.1 hf with rfl | hf
      · exact hm
      · exact h.flight_mapped f hf
    unmarked := fun f hf => by
      rcases mem_cons.1 hf with rfl | hf
      · exact hno
      · exact h.unmarked f hf
    ended := fun f hf r hr => by
      rcases mem_cons.1 hf with rfl | hf
      · cases hr
      · exact h.ended f hf r hr }

variable {x : World × Option ℕ}

section

variable (h : Kept s)
include h

theorem writeExpert {sqe : Bool} (hok : (∃ s' t, s.writeExpert key r sqe = some (s', some t)) →
      Landed s key ∧ ¬ Marked s key) (hs : s.writeExpert key r sqe = some x) : Kept x.1 := by
  have hmap := h.ensureMmap key.expertIdx r
  rcases x with ⟨s', _ | t⟩
  · unfold World.writeExpert at hs
    split at hs
    · cases hs
      exact h
    split at hs
    · cases hs
      exact h
    dsimp only at hs
    split at hs
    · cases hs
      exact hmap
    split at hs
    · cases hs
    split at hs
    · cases hs
    · cases hs
      exact hmap
  · obtain ⟨hland, hno⟩ := hok ⟨s', t, hs⟩
    unfold World.writeExpert at hs
    split at hs
    · cases hs
    split at hs
    · cases hs
    next lpos hl =>
    rw [← (ensureMmap_same s key.expertIdx r).1] at hl
    dsimp only at hs
    split at hs
    · cases hs
    split at hs
    · cases hs
    split at hs
    · next hm =>
      cases hs
      exact hmap.submit hl hm.1 (landed_ensureMmap.2 hland)
        (fun hk => hno (marked_ensureMmap.1 hk)) none
    · cases hs

theorem of_buffers (nextBuf : ℕ) (freed : List ℕ) :
    Kept { s with nextBuf := nextBuf, freed := freed } :=
  { h with }

theorem writeExpertOwned {r' : World.MapResult} {sqe : Bool}
    (hok : ∀ s' t, s.writeExpertOwned key r sqe r' written = some (s', some t) →
      if t = 0 then SyncOk s key written else Landed s key ∧ ¬ Marked s key)
    (hs : s.writeExpertOwned key r sqe r' written = some x) :
    Kept x.1 := by
  have htake : Kept { s with nextBuf := s.nextBuf + 1 } := h.of_buffers _ s.freed
  have hmap := htake.ensureMmap key.expertIdx r
  have htoken : ({ s with nextBuf := s.nextBuf + 1 }.ensureMmap key.expertIdx r).nextToken =
      s.nextToken := by
    unfold World.ensureMmap
    split
    · rfl
    · cases r <;> rfl
  have hs₀ := hs
  unfold World.writeExpertOwned at hs
  dsimp only at hs
  split at hs
  · cases hs
    exact htake.of_buffers _ _
  split at hs
  · cases hs
    exact htake.of_buffers _ _
  next lpos hl =>
  split at hs
  · cases hs
  split at hs
  · next hm =>
    cases hs
    have hcond := hok _ _ hs₀
    have hpos := h.token_pos
    rw [if_neg (by omega)] at hcond
    have hl' : ({ s with nextBuf := s.nextBuf + 1 }.ensureMmap key.expertIdx r).opts.layerPos
        key = some lpos := by
      rw [(ensureMmap_same _ key.expertIdx r).1]
      exact hl
    refine hmap.submit hl' hm.2.1 (landed_ensureMmap.2 hcond.1) (fun hk => ?_) _
    · have hk' : Marked { s with nextBuf := s.nextBuf + 1 } key := marked_ensureMmap.1 hk
      exact hcond.2 hk'
  · rw [map_eq_some_iff] at hs
    obtain ⟨s₁, hs₁, rfl⟩ := hs
    have hcond := hok _ _ hs₀
    have hsync : SyncOk ({ s with nextBuf := s.nextBuf + 1 }.ensureMmap key.expertIdx r)
        key written := by
      refine ⟨landed_ensureMmap.2 hcond.1, fun hk => ?_⟩
      rw [(ensureMmap_same _ key.expertIdx r).1]
      have hk' : Marked { s with nextBuf := s.nextBuf + 1 } key := marked_ensureMmap.1 hk
      exact hcond.2 hk'
    exact (hmap.writeExpertSync hsync hs₁).of_buffers _ _

theorem cancel (token : ℕ) (sqe : Bool) : Kept (s.cancel token sqe) := by
  unfold World.cancel
  split
  · exact h
  exact { h with
    pending := fun f hf op hop => by
      refine h.pending f hf op ?_
      have hne := (Map.lookup_erase_iff.1 hop).2
      exact hne }

/-! ### Completions -/

theorem of_sub {flights : List Flight} (pending : Map ℕ PendingOp)
    (hsub : flights.Sublist s.flights)
    (hp : ∀ t op, pending.lookup t = some op → s.pending.lookup t = some op)
    (keys : Map ExpertKey ℕ) (cancelled : Map ℕ CancelledWrite) (num : ℕ → ℤ) (cancels : List ℕ)
    (freed : List ℕ) :
    Kept { s with
      flights := flights
      pending := pending
      inflightKeys := keys
      cancelledWrites := cancelled
      numInflight := num
      cancels := cancels
      freed := freed } :=
  { h with
    token_lt := fun f hf => h.token_lt f (hsub.subset hf)
    token_nodup := h.token_nodup.sublist (hsub.map _)
    key_nodup := h.key_nodup.sublist (hsub.map _)
    pending := fun f hf op hop => h.pending f (hsub.subset hf) op (hp _ _ hop)
    layer := fun f hf => h.layer f (hsub.subset hf)
    flight_mapped := fun f hf => h.flight_mapped f (hsub.subset hf)
    unmarked := fun f hf => h.unmarked f (hsub.subset hf)
    ended := fun f hf => h.ended f (hsub.subset hf) }

theorem consume {c : World.Consumer} {d : ℕ} {e : World.Cqe} {x : World × Option IoCompletion}
    (hshort : c = .drain → ∀ token, e = .write token → s.NoShort token)
    (hs : s.consume c d e = some x) : Kept x.1 := by
  have herase : ∀ {t t' : ℕ} {op : PendingOp}, (s.pending.erase t').lookup t = some op →
      s.pending.lookup t = some op := fun hop => (Map.lookup_erase_iff.1 hop).2
  cases e with
  | cancel =>
    simp only [World.consume] at hs
    split at hs
    · cases hs
      exact h.of_sub _ (List.Sublist.refl _) (fun _ _ hop => hop) _ _ _ _ _
    · cases hs
  | write token =>
    obtain ⟨f, hf, rfl, rfl, res, hres, ⟨op, hp, heq⟩ | ⟨hp, heq⟩⟩ := World.consume_write hs
    · rw [heq]
      have hsub : (s.flights.erase f).Sublist s.flights := erase_sublist
      have hkey := h.pending f hf op hp
      unfold World.settle
      split
      · next lpos hsucc hl =>
        have hle := World.full_of_succeeds hf hp hres (fun hc => hshort hc _ rfl) hsucc
        have hrest := h.of_sub (s.pending.erase f.token) hsub (fun _ _ hop => herase hop)
          (s.inflightKeys.erase op.key) s.cancelledWrites
          (update s.numInflight f.drive (s.numInflight f.drive - 1)) s.cancels
          (op.writeBuf.toList ++ s.freed)
        have hland : ∀ g ∈ s.flights.erase f, g.key ≠ op.key := by
          intro g hg heq
          have hnodup : s.flights.Nodup := h.key_nodup.of_map
          obtain ⟨hne, hg⟩ := hnodup.mem_erase_iff.1 hg
          exact hne (inj_on_of_nodup_map h.key_nodup hg hf (heq.trans hkey))
        exact hrest.mark hl (hkey ▸ h.flight_mapped f hf) hland (hkey ▸ h.ended f hf res hres hle)
      · exact h.of_sub _ hsub (fun _ _ hop => herase hop) _ _ _ _ _
    · rw [heq]
      unfold World.settleCancelled
      split
      · exact h.of_sub _ erase_sublist (fun _ _ hop => hop) _ _ _ _ _
      · exact h.of_sub _ erase_sublist (fun _ _ hop => hop) _ _ _ _ _

theorem pollCompletions {ready : ℕ → List World.Cqe} {x : World × List IoCompletion}
    (hs : s.pollCompletions ready = some x) : Kept x.1 :=
  World.pollCompletions_rule (P := Kept)
    (fun _ _ _ _ _ h hy => h.consume (fun hc => by cases hc) hy) h hs

theorem drainPass {next : ℕ → Option World.Cqe}
    (hok : ∀ d token, next d = some (.write token) → s.NoShort token)
    (hs : s.drainPass next = some s') : Kept s' := by
  refine World.drainPass_rule (P := Kept) ?_ h hs
  intro s₁ d e y hnext hw h₁ hy
  refine h₁.consume ?_ hy
  rintro - token rfl
  exact hw.noShort (hok d token hnext)

end

/-! ### The device -/

theorem deviceStore (h : Kept s) {token k : ℕ} (hs : s.deviceStore token k = some s') :
    Kept s' := by
  unfold World.deviceStore at hs
  rcases hfind : s.flights.find? fun f => f.token = token with _ | f
  · simp only [hfind] at hs
    cases hs
  have hf : f ∈ s.flights := mem_of_find?_eq_some hfind
  simp only [hfind] at hs
  split at hs
  · next lpos hres hl =>
    cases hs
    refine h.store hl (h.unmarked f hf) (fun g hg heq r hr => ?_) _ _
    obtain rfl : g = f := inj_on_of_nodup_map h.key_nodup hg hf heq
    rw [hres] at hr
    cases hr
  · cases hs

theorem deviceFinish (h : Kept s) {token : ℕ} {res : ℤ} (hs : s.deviceFinish token res = some s') :
    Kept s' := by
  obtain ⟨f₀, hf₀, ht₀, hres, lpos, hl, rfl⟩ := World.deviceFinish_some hs
  have hmain : ∀ (s₁ : World), Kept s₁ → s₁.flights = s.flights →
      ((s₁.opts.slotSizeBytes : ℤ) ≤ res → SlotComplete s₁.opts s₁.disk s₁.full f₀.key) →
      Kept { s₁ with flights := s.flights.map (World.ended token res) } := by
    intro s₁ h₁ hfl hfull
    rw [← hfl] at hf₀ ⊢
    exact { h₁ with
      token_lt := forall_mem_map.2 fun g hg => by simpa using h₁.token_lt g hg
      token_nodup := by simpa [comp_def] using h₁.token_nodup
      key_nodup := by simpa [comp_def] using h₁.key_nodup
      pending := forall_mem_map.2 fun g hg => by
        rw [World.ended_token, World.ended_key]
        exact h₁.pending g hg
      layer := forall_mem_map.2 fun g hg => by simpa using h₁.layer g hg
      flight_mapped := forall_mem_map.2 fun g hg => by simpa using h₁.flight_mapped g hg
      unmarked := forall_mem_map.2 fun g hg => by
        rw [World.ended_key]
        exact h₁.unmarked g hg
      ended := forall_mem_map.2 fun g hg r hr hle => by
        rw [World.ended_key]
        unfold World.ended at hr
        split at hr
        · next hgt =>
          obtain rfl := h₁.of_flight_eq hg hf₀ (hgt.trans ht₀.symm)
          obtain rfl : res = r := some.inj hr
          exact hfull hle
        · exact h₁.ended g hg r hr hle }
  split
  · have hrun : ∀ f ∈ s.flights, f.key = f₀.key → ∀ r, f.result = some r →
        ¬ (s.opts.slotSizeBytes : ℤ) ≤ r := by
      intro g hg heq r hr
      obtain rfl : g = f₀ := inj_on_of_nodup_map h.key_nodup hg hf₀ heq
      rw [hres] at hr
      cases hr
    have hstore := h.store hl (h.unmarked f₀ hf₀) hrun f₀.write fun _ => true
    obtain ⟨file, hfile⟩ := h.file _ (h.flight_mapped f₀ hf₀)
    have hsub : s.full ⊆ (f₀.write, f₀.key) :: s.full := subset_cons_self _ _
    have hlog : Kept { s.storeBytes f₀.key lpos f₀.write fun _ => true with
        full := (f₀.write, f₀.key) :: s.full } :=
      { hstore with
        complete := fun key hk => (hstore.complete key hk).mono hsub
        ended := fun f hf r hr hle => (hstore.ended f hf r hr hle).mono hsub }
    exact hmain _ hlog rfl fun _ => slotComplete_storeBytes hl hfile _ mem_cons_self fun _ _ => rfl
  · next hlt => exact hmain s h rfl fun hle => absurd hle hlt

/-! ### Runs -/

theorem construct {o : Options} {disk : ℕ → Option File} {openable : ℕ → Bool} (nextWrite : ℕ)
    (hok : ∀ key lpos, o.layerPos key = some lpos →
      World.rightSized o disk key.expertIdx = true → openable key.expertIdx = true →
        SlotComplete o disk full key) :
    Kept (World.construct o disk openable full nextWrite) where
  file e hm := by
    have hsize : World.rightSized o disk e = true := (Bool.and_eq_true _ _ ▸ hm).1
    have hany : (disk e).any (fun f => f.size = o.expectedFileSize) = true :=
      (of_decide_eq_true hsize).2
    rcases hd : disk e with _ | f
    · rw [hd] at hany
      cases hany
    · exact ⟨f, hd⟩
  mapped _ _ hw := hw
  complete key hk := by
    obtain ⟨l, hl, hw⟩ := hk
    have hboth : World.rightSized o disk key.expertIdx = true ∧
        openable key.expertIdx = true := Bool.and_eq_true _ _ ▸ hw
    exact hok key l hl hboth.1 hboth.2
  token_pos := Nat.one_pos
  token_lt _ hf := absurd hf not_mem_nil
  token_nodup := nodup_nil
  key_nodup := nodup_nil
  pending _ hf := absurd hf not_mem_nil
  layer _ hf := absurd hf not_mem_nil
  flight_mapped _ hf := absurd hf not_mem_nil
  unmarked _ hf := absurd hf not_mem_nil
  ended _ hf := absurd hf not_mem_nil

theorem step (h : Kept s) {a : World.Action} (hok : Careful s a) (hs : s.step a = some s') :
    Kept s' := by
  cases a with
  | ensureMmap e r =>
    cases hs
    exact h.ensureMmap e r
  | writeExpert key r sqe =>
    simp only [World.step, map_eq_some_iff] at hs
    obtain ⟨x, hx, rfl⟩ := hs
    exact h.writeExpert hok hx
  | writeExpertOwned key r sqe r' written =>
    simp only [World.step, map_eq_some_iff] at hs
    obtain ⟨x, hx, rfl⟩ := hs
    exact h.writeExpertOwned hok hx
  | writeExpertSync key r written => exact h.writeExpertSync hok hs
  | cancel token sqe =>
    cases hs
    exact h.cancel token sqe
  | poll ready =>
    simp only [World.step, map_eq_some_iff] at hs
    obtain ⟨x, hx, rfl⟩ := hs
    exact h.pollCompletions hx
  | drainPass next => exact h.drainPass hok hs
  | deviceStore token k => exact h.deviceStore hs
  | deviceFinish token res => exact h.deviceFinish hs
  | restart o placed openable =>
    cases hs
    refine construct _ fun key lpos hl hsize hopen => ?_
    cases hp : placed key.expertIdx with
    | true => exact slotComplete_prepacked s.full hl (if_pos hp)
    | false =>
      have hdisk : World.placeFiles o placed s.disk key.expertIdx = s.disk key.expertIdx :=
        if_neg (Bool.eq_false_iff.1 hp)
      rw [World.rightSized, hdisk] at hsize
      obtain ⟨hsame, hw⟩ := hok key.expertIdx hsize hopen hp
      -- the slot was marked by the run before, which has kept it complete
      have hmarked : Marked s key := by
        refine ⟨lpos, ?_, hw lpos (Options.layerPos_some hl).1⟩
        rwa [Options.layerPos, hsame.2.1, hsame.2.2]
      exact (h.complete key hmarked).sameSlots hsame hdisk

end Kept

/-- **Served slots are complete across restarts.**  Every run of careful actions from a first start
over empty drives, restarts included, serves complete slots only. -/
theorem served_across_restarts {o : Options} {openable : ℕ → Bool} {as : List World.Action}
    {s : World}
    (hrun : GuardedRun World.step Careful (World.construct o (fun _ => none) openable [] 0) as s) :
    Served s := by
  have hstart : Kept (World.construct o (fun _ => none) openable [] 0) := by
    refine Kept.construct 0 fun key lpos _ hsize => ?_
    simp [World.rightSized] at hsize
  exact (hrun.invariant (I := Kept) (fun _ _ _ h hok hs => h.step hok hs) hstart).served

def oneSlot : Options :=
  { oneDrive with numExpertsPerLayer := 1, numExpertsPerLayer_pos := Nat.one_pos }

/-- The engine stops and starts again over the same files. -/
def restartOneSlot : World.Action := .restart oneSlot (fun _ => false) fun _ => true

/-- The first start, over an empty drive. -/
def emptySlot : World := World.construct oneSlot (fun _ => none) (fun _ => true) [] 0

theorem served_across_restarts_filled :
    ∃ s, GuardedRun World.step Careful emptySlot [.writeExpertSync ⟨0, 0⟩ .ok 2, restartOneSlot] s ∧
      (s.hostPtr ⟨0, 0⟩).isSome ∧ Served s := by
  obtain ⟨t, ht, hopts, hw, s, hs, hptr⟩ :
      ∃ t, emptySlot.step (.writeExpertSync ⟨0, 0⟩ .ok 2) = some t ∧ t.opts = oneSlot ∧
        t.slotWritten 0 0 = true ∧ ∃ s, t.step restartOneSlot = some s ∧ (s.hostPtr ⟨0, 0⟩).isSome :=
    ⟨_, rfl, rfl, rfl, _, rfl, by decide⟩
  have hsync : Careful emptySlot (.writeExpertSync ⟨0, 0⟩ .ok 2) :=
    ⟨fun _ hg => absurd hg not_mem_nil, fun _ => rfl⟩
  -- the one slot of the one file is marked before the stop
  have hok : Careful t restartOneSlot := by
    intro e hsize _ _
    obtain rfl : e = 0 := Nat.lt_one_iff.1 (of_decide_eq_true hsize).1
    rw [hopts]
    refine ⟨⟨rfl, rfl, rfl⟩, fun lpos hl => ?_⟩
    obtain rfl : lpos = 0 := Nat.lt_one_iff.1 hl
    exact hw
  have hrun := ((GuardedRun.nil emptySlot).snoc hsync ht).snoc hok hs
  exact ⟨s, hrun, hptr, served_across_restarts hrun⟩

/-- **A file that was only sized is served.**  The first run uses the file once, which sizes it,
and stops; the second run takes it for populated and hands out bytes that nothing has written. -/
theorem presized_file_served : ∃ s, Run World.step freshTier
      [.ensureMmap 0 .ok, .restart oneDrive (fun _ => false) fun _ => true] s ∧
        (s.hostPtr ⟨0, 0⟩).isSome ∧ ¬ Served s := by
  obtain ⟨s, hs, hptr, hopts, f, hf, hcell⟩ : ∃ s, [World.Action.ensureMmap 0 .ok,
      .restart oneDrive (fun _ => false) fun _ => true].foldlM World.step freshTier = some s ∧
        (s.hostPtr ⟨0, 0⟩).isSome ∧ s.opts = oneDrive ∧ ∃ f, s.disk 0 = some f ∧ f.cell 0 = none :=
    ⟨_, rfl, by decide, rfl, _, rfl, rfl⟩
  refine ⟨s, Run.of_foldlM hs, hptr, fun h => ?_⟩
  obtain ⟨f', src, lpos, hl, hf', -, hfull⟩ := h ⟨0, 0⟩ (.inl hptr)
  rw [hopts] at hl hfull
  obtain rfl : 0 = lpos := some.inj hl
  obtain rfl : f = f' := some.inj (hf.symm.trans hf')
  have hfirst := hfull 0 (by decide)
  rw [show oneDrive.slotOffset 0 + 0 = 0 from rfl, hcell] at hfirst
  cases hfirst

end Nvme
end LayerStorm.Memory
