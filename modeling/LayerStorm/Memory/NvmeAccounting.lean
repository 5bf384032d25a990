import LayerStorm.Memory.NvmeTier

/-!
# Write accounting of the NVMe tier

Every submitted write is counted for its drive until its completion is consumed, every owned buffer
is freed then, and a slot is marked written by a write of its full size.  This fails in two ways:
a cancel request has a completion of its own, which is counted down though the request was not
counted up, and a drain takes a short write for a complete one.

## Main results

* `writes_accounted` — every run of plain actions is accounted.
* `cancel_miscounts` — a cancelled write is counted down twice.
-/

namespace LayerStorm.Memory

open Function List Option Nat AList
namespace Nvme

open Lib

variable {s s' : World} {hand : Option ℕ} {key : ExpertKey} {lpos : ℕ}

/-! ### The property -/

/-- A full-size write of a key was completed in this run. -/
def World.WrittenNow (s : World) (key : ExpertKey) : Prop :=
  ∃ w, s.runStart ≤ w ∧ (w, key) ∈ s.full

/-- **Write accounting.** -/
structure Accounted (s : World) : Prop where
  /-- A drive's counter is the number of its writes whose completion has not been consumed. -/
  inflight : ∀ d, s.numInflight d = s.flights.countP fun f => f.drive = d
  /-- While something is left to be drained, a drain waits for a write that will complete. -/
  noSpin : s.undrained → ∃ d < s.opts.numDrives, 0 < s.numInflight d ∧ ∃ f ∈ s.flights, f.drive = d
  /-- Each pass of a drain in which no wait fails consumes the completion of a write. -/
  drains : ∀ next s', (∀ d, 0 < s.numInflight d → ∃ token, next d = some (.write token)) →
    s.drainPass next = some s' → s'.flights.length < s.flights.length
  /-- An owned buffer is freed once, when the completion of its write was consumed. -/
  buffers : ∀ b < s.nextBuf, s.freed.count b = if ∃ f ∈ s.flights, f.buf = some b then 0 else 1
  /-- A slot is marked by a full-size write, unless the scan found its file. -/
  written : ∀ e l, s.slotWritten e l = true → s.scanned e = true ∨
    ∃ key, key.expertIdx = e ∧ s.opts.layerPos key = some l ∧ s.WrittenNow key
  /-- What is handed out was fully written, unless the scan found its file. -/
  exposed : ∀ key, ((s.hostPtr key).isSome ∨ (s.readExpert key).isSome) →
    s.scanned key.expertIdx = true ∨ s.WrittenNow key

/-- The action consumes no completion of a cancel request, and no short write in a drain. -/
def Plain (s : World) : World.Action → Prop
  | .poll ready => ∀ d, World.Cqe.cancel ∉ ready d
  | .drainPass next => ∀ d, next d ≠ some .cancel ∧
    ∀ token, next d = some (.write token) → token ∈ s.pending →
      ∀ f ∈ s.flights, f.token = token → ∀ r, f.result = some r →
        r < 0 ∨ (s.opts.slotSizeBytes : ℤ) ≤ r
  | .restart _ _ _ => False
  | _ => True

/-! ### What the steps do -/

namespace World

variable {x : World × Option IoCompletion} {c : Consumer} {d token : ℕ} {e : Cqe}

/-- If the completion of the token is there, it does not report a short write. -/
def NoShort (s : World) (token : ℕ) : Prop :=
  token ∈ s.pending → ∀ f ∈ s.flights, f.token = token → ∀ r, f.result = some r →
    r < 0 ∨ (s.opts.slotSizeBytes : ℤ) ≤ r

theorem consume_write (hs : s.consume c d (.write token) = some x) :
    ∃ f ∈ s.flights, f.token = token ∧ f.drive = d ∧ ∃ res, f.result = some res ∧
      ((∃ op, s.pending.lookup token = some op ∧ x.1 =
          (World.settle { s with flights := s.flights.erase f } c token op res).decInflight d) ∨
        s.pending.lookup token = none ∧ x.1 =
          (World.settleCancelled { s with flights := s.flights.erase f } token).decInflight d) := by
  simp only [consume] at hs
  rcases hfind : s.flights.find? fun f => f.token = token ∧ f.drive = d with _ | f
  · simp only [hfind] at hs
    cases hs
  have hfd : f.token = token ∧ f.drive = d := by simpa using find?_some hfind
  refine ⟨f, mem_of_find?_eq_some hfind, hfd.1, hfd.2, ?_⟩
  rcases hres : f.result with _ | res
  · simp only [hfind, hres] at hs
    cases hs
  refine ⟨res, rfl, ?_⟩
  rcases hp : s.pending.lookup token with _ | op
  · simp only [hfind, hres, hp] at hs
    cases hs
    exact .inr ⟨rfl, rfl⟩
  · simp only [hfind, hres, hp] at hs
    cases hs
    exact .inl ⟨op, rfl, rfl⟩

theorem full_of_succeeds {f : Flight} {op : PendingOp} {res : ℤ} (hf : f ∈ s.flights)
    (hp : s.pending.lookup f.token = some op) (hres : f.result = some res)
    (hshort : c = .drain → s.NoShort f.token) (hsucc : s.succeeds c res = true) :
    (s.opts.slotSizeBytes : ℤ) ≤ res := by
  cases c with
  | poll =>
    have hok : 0 ≤ res ∧ (s.opts.slotSizeBytes : ℤ) ≤ res := of_decide_eq_true hsucc
    exact hok.2
  | drain =>
    have hok : 0 ≤ res := of_decide_eq_true hsucc
    rcases hshort rfl (Map.mem_of_lookup hp) f hf rfl res hres with hlt | hle
    · omega
    · exact hle

/-- Nothing has been submitted since `s`. -/
structure Within (s s' : World) : Prop where
  flights : s'.flights ⊆ s.flights
  pending : ∀ t ∈ s'.pending, t ∈ s.pending
  opts : s'.opts = s.opts

theorem Within.refl (s : World) : Within s s := ⟨List.Subset.refl _, fun _ ht => ht, rfl⟩

theorem Within.trans {s'' : World} (h : Within s s') (h' : Within s' s'') : Within s s'' :=
  ⟨List.Subset.trans h'.flights h.flights, fun t ht => h.pending t (h'.pending t ht),
    h'.opts.trans h.opts⟩

theorem Within.noShort (h : Within s s') (hshort : s.NoShort token) : s'.NoShort token := by
  intro ht f hf hft r hr
  rw [h.opts]
  exact hshort (h.pending _ ht) f (h.flights hf) hft r hr

theorem consume_within (hs : s.consume c d e = some x) : Within s x.1 := by
  cases e with
  | cancel =>
    simp only [World.consume] at hs
    split at hs
    · cases hs
      exact ⟨List.Subset.refl _, fun _ ht => ht, rfl⟩
    · cases hs
  | write token =>
    obtain ⟨f, -, -, -, res, -, ⟨op, -, heq⟩ | ⟨-, heq⟩⟩ := consume_write hs
    · rw [heq]
      refine ⟨?_, fun t ht => (mem_erase.1 ht).2, ?_⟩
      · unfold World.settle
        split <;> exact erase_subset
      · unfold World.settle
        split <;> rfl
    · rw [heq]
      unfold World.settleCancelled
      split <;> exact ⟨erase_subset, fun _ ht => ht, rfl⟩

/-- What every completion keeps, a poll keeps. -/
theorem pollCompletions_rule {P : World → Prop} {ready : ℕ → List Cqe}
    {x : World × List IoCompletion}
    (hstep : ∀ s d e y, e ∈ ready d → P s → s.consume .poll d e = some y → P y.1)
    (h : P s) (hs : s.pollCompletions ready = some x) : P x.1 := by
  refine foldlM_invariant (P := fun x => P x.1) _ ?_ hs h
  intro x b y hb hx hy
  obtain ⟨d, -, rfl⟩ := mem_map.1 hb
  unfold World.pollDrive at hy
  split at hy
  · cases hy
    exact hx
  refine foldlM_invariant (P := fun x => P x.1) _ ?_ hy hx
  intro x e y he hx hy
  rw [map_eq_some_iff] at hy
  obtain ⟨r, hr, rfl⟩ := hy
  exact hstep _ d e r he hx hr

/-- What every completion keeps, a pass over the drives keeps. -/
theorem drainDrives_rule {P : World → Prop} : ∀ (l : List (ℕ × Option Cqe)),
    (∀ s d e y, (d, some e) ∈ l → P s → s.consume .drain d e = some y → P y.1) →
    ∀ {s s'}, P s → drainDrives l s = some s' → P s' := by
  intro l
  induction l with
  | nil =>
    intro _ s s' h hs
    cases hs
    exact h
  | cons b l ih =>
    intro hstep s s' h hs
    obtain ⟨d, e⟩ := b
    have hrest : ∀ {s s'}, P s → drainDrives l s = some s' → P s' :=
      ih fun s d e y hmem => hstep s d e y (mem_cons_of_mem _ hmem)
    unfold World.drainDrives at hs
    split at hs
    · exact hrest h hs
    cases e with
    | none =>
      cases hs
      exact h
    | some e =>
      simp only [bind_eq_some_iff] at hs
      obtain ⟨x, hx, hs⟩ := hs
      exact hrest (hstep s d e x mem_cons_self h hx) hs

/-- So does a pass of the drain, in which nothing is submitted. -/
theorem drainPass_rule {P : World → Prop} {next : ℕ → Option Cqe}
    (hstep : ∀ s₁ d e y, next d = some e → Within s s₁ → P s₁ → s₁.consume .drain d e = some y →
      P y.1) (h : P s) (hs : s.drainPass next = some s') : P s' := by
  unfold World.drainPass at hs
  split at hs
  · refine (drainDrives_rule (P := fun s₁ => Within s s₁ ∧ P s₁) _ ?_ ⟨Within.refl s, h⟩ hs).2
    rintro s₁ d e y hmem ⟨hw, h₁⟩ hy
    obtain ⟨d', -, heq⟩ := mem_map.1 hmem
    obtain ⟨rfl, hnext⟩ := Prod.mk.inj heq
    exact ⟨hw.trans (consume_within hy), hstep s₁ d' e y hnext hw h₁ hy⟩
  · cases hs

/-- The flight of the token gets its result. -/
def ended (token : ℕ) (res : ℤ) (f : Flight) : Flight :=
  if f.token = token then { f with result := some res } else f

section

variable {res : ℤ} (f : Flight)

@[simp] theorem ended_token : (ended token res f).token = f.token := by
  unfold ended
  split <;> rfl

@[simp] theorem ended_drive : (ended token res f).drive = f.drive := by
  unfold ended
  split <;> rfl

@[simp] theorem ended_key : (ended token res f).key = f.key := by
  unfold ended
  split <;> rfl

@[simp] theorem ended_write : (ended token res f).write = f.write := by
  unfold ended
  split <;> rfl

@[simp] theorem ended_buf : (ended token res f).buf = f.buf := by
  unfold ended
  split <;> rfl

end

theorem deviceFinish_some {res : ℤ} (hs : s.deviceFinish token res = some s') :
    ∃ f ∈ s.flights, f.token = token ∧ f.result = none ∧ ∃ lpos, s.opts.layerPos f.key = some lpos ∧
      s' = if (s.opts.slotSizeBytes : ℤ) ≤ res then
        { World.storeBytes { s with flights := s.flights.map (ended token res) } f.key lpos f.write
            fun _ => true with full := (f.write, f.key) :: s.full }
        else { s with flights := s.flights.map (ended token res) } := by
  unfold World.deviceFinish at hs
  rcases hfind : s.flights.find? fun f => f.token = token with _ | f
  · simp only [hfind] at hs
    cases hs
  refine ⟨f, mem_of_find?_eq_some hfind, by simpa using find?_some hfind, ?_⟩
  simp only [hfind] at hs
  split at hs
  · next lpos hres hl =>
    refine ⟨hres, lpos, hl, ?_⟩
    split at hs
    · next hle =>
      rw [if_pos hle]
      exact (some.inj hs).symm
    · next hlt =>
      rw [if_neg hlt]
      exact (some.inj hs).symm
  · cases hs

end World

/-! ### The invariant -/

/-- The books of the tier agree with the device; the buffer in `hand` is neither freed nor read. -/
structure Books (s : World) (hand : Option ℕ) : Prop where
  inflight : ∀ d, s.numInflight d = s.flights.countP fun f => f.drive = d
  token_lt : ∀ f ∈ s.flights, f.token < s.nextToken
  nodup : (s.flights.map Flight.token).Nodup
  drive : ∀ f ∈ s.flights, f.drive = s.opts.driveForExpert f.key
  layer : ∀ f ∈ s.flights, ∃ l, s.opts.layerPos f.key = some l
  booked : ∀ f ∈ s.flights,
    s.pending.lookup f.token = some ⟨f.key, f.drive, f.buf⟩ ∧ f.token ∉ s.cancelledWrites ∨
      f.token ∉ s.pending ∧ s.cancelledWrites.lookup f.token = some ⟨f.buf, f.drive⟩
  pending : ∀ t ∈ s.pending, ∃ f ∈ s.flights, f.token = t
  cancelled : ∀ t ∈ s.cancelledWrites, ∃ f ∈ s.flights, f.token = t
  buf_lt : ∀ f ∈ s.flights, ∀ b, f.buf = some b → b < s.nextBuf
  buf_inj : ∀ f ∈ s.flights, ∀ g ∈ s.flights, ∀ b, f.buf = some b → g.buf = some b → f = g
  freed_lt : ∀ b ∈ s.freed, b < s.nextBuf
  held : ∀ b, hand = some b → b < s.nextBuf ∧ b ∉ s.freed ∧ ∀ f ∈ s.flights, f.buf ≠ some b
  buffers : ∀ b < s.nextBuf, hand ≠ some b →
    s.freed.count b = if ∃ f ∈ s.flights, f.buf = some b then 0 else 1
  start_le : s.runStart ≤ s.nextWrite
  write : ∀ f ∈ s.flights, s.runStart ≤ f.write ∧ f.write < s.nextWrite
  result : ∀ f ∈ s.flights, ∀ r, f.result = some r → (s.opts.slotSizeBytes : ℤ) ≤ r →
    (f.write, f.key) ∈ s.full
  written : ∀ e l, s.slotWritten e l = true → s.scanned e = true ∨
    ∃ key, key.expertIdx = e ∧ s.opts.layerPos key = some l ∧ s.WrittenNow key

namespace Books

section

variable (h : Books s hand)
include h

theorem flights_nodup : s.flights.Nodup := h.nodup.of_map

theorem token_inj {f g : Flight} (hf : f ∈ s.flights) (hg : g ∈ s.flights)
    (heq : f.token = g.token) : f = g :=
  inj_on_of_nodup_map h.nodup hf hg heq

theorem of_disk (disk : ℕ → Option File) (mapped : ℕ → Bool) :
    Books { s with disk := disk, mapped := mapped } hand :=
  { h with }

theorem ensureMmap (e : ℕ) (r : World.MapResult) : Books (s.ensureMmap e r) hand := by
  unfold World.ensureMmap
  split
  · exact h
  cases r with
  | openFails => exact h
  | sizeFails | mapFails => exact h.of_disk _ s.mapped
  | ok => exact h.of_disk _ _

theorem number (full : List (ℕ × ExpertKey)) (hfull : s.full ⊆ full) :
    Books { s with nextWrite := s.nextWrite + 1, full := full } hand :=
  { h with
    start_le := h.start_le.trans (le_succ _)
    write := fun f hf => ⟨(h.write f hf).1, (h.write f hf).2.trans (lt_succ_self _)⟩
    result := fun f hf r hr hle => hfull (h.result f hf r hr hle)
    written := fun e l hw => by
      rcases h.written e l hw with hs | ⟨key, he, hl, w, hw, hmem⟩
      · exact .inl hs
      · exact .inr ⟨key, he, hl, w, hw, hfull hmem⟩ }

theorem mark (hl : s.opts.layerPos key = some lpos) (hw : s.WrittenNow key) :
    Books (s.markWritten key lpos) hand :=
  { h with
    written := fun e l hmark => by
      by_cases he : e = key.expertIdx
      · subst he
        by_cases hlp : l = lpos
        · subst hlp
          exact .inr ⟨key, rfl, hl, hw⟩
        · simp only [World.markWritten, update_self, update_of_ne hlp] at hmark
          exact h.written _ l hmark
      · simp only [World.markWritten, update_of_ne he] at hmark
        exact h.written e l hmark }

end

theorem take (h : Books s none) : Books { s with nextBuf := s.nextBuf + 1 } (some s.nextBuf) :=
  { h with
    buf_lt := fun f hf b hb => (h.buf_lt f hf b hb).trans (lt_succ_self _)
    freed_lt := fun b hb => (h.freed_lt b hb).trans (lt_succ_self _)
    held := fun b hb => by
      cases hb
      exact ⟨lt_succ_self _, fun hmem => lt_irrefl _ (h.freed_lt _ hmem),
        fun f hf hbuf => lt_irrefl _ (h.buf_lt f hf _ hbuf)⟩
    buffers := fun b hb hne => by
      have hlt : b < s.nextBuf := by
        have hnb : s.nextBuf ≠ b := fun heq => hne (congrArg some heq)
        have hb' : b < s.nextBuf + 1 := hb
        omega
      exact h.buffers b hlt (by simp) }

theorem free (h : Books s hand) : Books (s.free hand) none := by
  cases hand with
  | none => exact h
  | some b₀ =>
    obtain ⟨hlt, hfreed, hread⟩ := h.held b₀ rfl
    exact { h with
      freed_lt := fun b hb => by
        rcases mem_cons.1 hb with rfl | hb
        · exact hlt
        · exact h.freed_lt b hb
      held := fun b hb => by cases hb
      buffers := fun b hb _ => by
        change (b₀ :: s.freed).count b = _
        by_cases heq : b₀ = b
        · subst heq
          have hnone : ¬ ∃ f ∈ s.flights, f.buf = some b₀ := fun ⟨f, hf, hbuf⟩ => hread f hf hbuf
          rw [count_cons_self, count_eq_zero_of_not_mem hfreed]
          exact (if_neg hnone).symm
        · rw [count_cons_of_ne heq]
          exact h.buffers b hb fun hs => heq (some.inj hs) }

theorem storeBytes (h : Books s hand) (key : ExpertKey) (lpos w : ℕ) (p : ℕ → Bool) :
    Books (s.storeBytes key lpos w p) hand :=
  h.of_disk _ s.mapped

variable {r : World.MapResult} {written : ℤ}

theorem writeExpertSync (h : Books s hand) (hs : s.writeExpertSync key r written = some s') :
    Books s' hand := by
  unfold World.writeExpertSync at hs
  split at hs
  · cases hs
    exact h
  next lpos hl =>
  split at hs
  · cases hs
  have hmap := h.ensureMmap key.expertIdx r
  have hopts : (s.ensureMmap key.expertIdx r).opts = s.opts := by
    unfold World.ensureMmap
    split
    · rfl
    · cases r <;> rfl
  dsimp only at hs
  split at hs
  · split at hs
    · cases hs
      have hfull := (hmap.storeBytes key lpos (s.ensureMmap key.expertIdx r).nextWrite
        fun k => (k : ℤ) < written).number (((s.ensureMmap key.expertIdx r).nextWrite, key) ::
            (s.ensureMmap key.expertIdx r).full) (subset_cons_self _ _)
      exact hfull.mark (by rw [← hopts] at hl; exact hl) ⟨_, hmap.start_le, mem_cons_self⟩
    · cases hs
      exact (hmap.storeBytes key lpos _ _).number _ (List.Subset.refl _)
  · cases hs
    exact hmap

theorem submit (h : Books s hand) (hl : s.opts.layerPos key = some lpos) :
    Books (s.submit key hand) none := by
  have htoken : s.nextToken ∉ s.flights.map Flight.token := by
    intro hmem
    obtain ⟨f, hf, ht⟩ := mem_map.1 hmem
    exact lt_irrefl _ (ht ▸ h.token_lt f hf)
  have hcancelled : s.nextToken ∉ s.cancelledWrites := by
    intro hmem
    obtain ⟨f, hf, ht⟩ := h.cancelled _ hmem
    exact htoken (mem_map.2 ⟨f, hf, ht⟩)
  refine {
    inflight := fun d => ?_
    token_lt := fun f hf => ?_
    nodup := nodup_cons.2 ⟨htoken, h.nodup⟩
    drive := fun f hf => ?_
    layer := fun f hf => ?_
    booked := fun f hf => ?_
    pending := fun t ht => ?_
    cancelled := fun t ht => ?_
    buf_lt := fun f hf b hb => ?_
    buf_inj := fun f hf g hg b hfb hgb => ?_
    freed_lt := h.freed_lt
    held := fun b hb => by cases hb
    buffers := fun b hb _ => ?_
    start_le := h.start_le.trans (le_succ _)
    write := fun f hf => ?_
    result := fun f hf r hr hle => ?_
    written := h.written }
  · simp only [World.submit, update_apply, h.inflight]
    by_cases hd : d = s.opts.driveForExpert key
    · simp [hd]
    · simp [hd, Ne.symm hd]
  · rcases mem_cons.1 hf with rfl | hf
    · exact lt_succ_self _
    · exact (h.token_lt f hf).trans (lt_succ_self _)
  · rcases mem_cons.1 hf with rfl | hf
    · rfl
    · exact h.drive f hf
  · rcases mem_cons.1 hf with rfl | hf
    · exact ⟨lpos, hl⟩
    · exact h.layer f hf
  · rcases mem_cons.1 hf with rfl | hf
    · exact .inl ⟨lookup_insert _, hcancelled⟩
    have hne : f.token ≠ s.nextToken := (h.token_lt f hf).ne
    rcases h.booked f hf with ⟨hp, hc⟩ | ⟨hp, hc⟩
    · exact .inl ⟨by rw [World.submit, lookup_insert_ne hne]; exact hp, hc⟩
    refine .inr ⟨?_, hc⟩
    simp only [World.submit, mem_insert, not_or]
    exact ⟨hne, hp⟩
  · rcases mem_insert _ |>.1 ht with rfl | ht
    · exact ⟨_, mem_cons_self, rfl⟩
    · obtain ⟨f, hf, heq⟩ := h.pending t ht
      exact ⟨f, mem_cons_of_mem _ hf, heq⟩
  · obtain ⟨f, hf, heq⟩ := h.cancelled t ht
    exact ⟨f, mem_cons_of_mem _ hf, heq⟩
  · rcases mem_cons.1 hf with rfl | hf
    · exact (h.held b hb).1
    · exact h.buf_lt f hf b hb
  · rcases mem_cons.1 hf with rfl | hf
    · rcases mem_cons.1 hg with rfl | hg
      · rfl
      · exact absurd hgb ((h.held b hfb).2.2 g hg)
    · rcases mem_cons.1 hg with rfl | hg
      · exact absurd hfb ((h.held b hgb).2.2 f hf)
      · exact h.buf_inj f hf g hg b hfb hgb
  · by_cases hhand : hand = some b
    · have hex : ∃ f ∈ (s.submit key hand).flights, f.buf = some b :=
        ⟨_, mem_cons_self, hhand⟩
      rw [if_pos hex]
      exact count_eq_zero_of_not_mem (h.held b hhand).2.1
    · rw [show (s.submit key hand).freed = s.freed from rfl, h.buffers b hb hhand]
      simp only [World.submit, exists_mem_cons_iff, hhand, false_or]
  · rcases mem_cons.1 hf with rfl | hf
    · exact ⟨h.start_le, lt_succ_self _⟩
    · exact ⟨(h.write f hf).1, (h.write f hf).2.trans (lt_succ_self _)⟩
  · rcases mem_cons.1 hf with rfl | hf
    · cases hr
    · exact h.result f hf r hr hle

theorem ensureMmap_opts (s : World) (e : ℕ) (r : World.MapResult) :
    (s.ensureMmap e r).opts = s.opts ∧ (s.ensureMmap e r).nextBuf = s.nextBuf := by
  unfold World.ensureMmap
  split
  · exact ⟨rfl, rfl⟩
  · cases r <;> exact ⟨rfl, rfl⟩

theorem writeExpert (h : Books s none) {sqe : Bool} {x : World × Option ℕ}
    (hs : s.writeExpert key r sqe = some x) : Books x.1 none := by
  unfold World.writeExpert at hs
  split at hs
  · cases hs
    exact h
  split at hs
  · cases hs
    exact h
  next lpos hl =>
  have hmap := h.ensureMmap key.expertIdx r
  rw [← (ensureMmap_opts s key.expertIdx r).1] at hl
  dsimp only at hs
  split at hs
  · cases hs
    exact hmap
  split at hs
  · cases hs
  split at hs
  · cases hs
    exact hmap.submit hl
  · cases hs
    exact hmap

theorem writeExpertOwned (h : Books s none) {r' : World.MapResult} {sqe : Bool}
    {x : World × Option ℕ} (hs : s.writeExpertOwned key r sqe r' written = some x) :
    Books x.1 none := by
  have htake := h.take
  unfold World.writeExpertOwned at hs
  dsimp only at hs
  split at hs
  · cases hs
    exact htake.free
  split at hs
  · cases hs
    exact htake.free
  next lpos hl =>
  have hmap := htake.ensureMmap key.expertIdx r
  split at hs
  · cases hs
  split at hs
  · cases hs
    refine hmap.submit (?_ : _ = some lpos)
    rw [(ensureMmap_opts _ key.expertIdx r).1]
    exact hl
  · rw [map_eq_some_iff] at hs
    obtain ⟨s₁, hs₁, rfl⟩ := hs
    exact (hmap.writeExpertSync hs₁).free

theorem cancel (h : Books s none) (token : ℕ) (sqe : Bool) : Books (s.cancel token sqe) none := by
  unfold World.cancel
  rcases hp : s.pending.lookup token with _ | op
  · exact h
  have hmem : token ∈ s.pending := Map.mem_of_lookup hp
  obtain ⟨f₀, hf₀, ht₀⟩ := h.pending token hmem
  have hop : op = ⟨f₀.key, f₀.drive, f₀.buf⟩ := by
    rcases h.booked f₀ hf₀ with ⟨hb, -⟩ | ⟨hb, -⟩
    · rw [ht₀, hp] at hb
      exact some.inj hb
    · exact absurd (ht₀ ▸ hmem) hb
  exact { h with
    booked := fun f hf => by
      by_cases hft : f.token = token
      · obtain rfl := h.token_inj hf hf₀ (hft.trans ht₀.symm)
        right
        rw [hft, hop]
        exact ⟨fun hm => (mem_erase.1 hm).1 rfl, lookup_insert _⟩
      · rcases h.booked f hf with ⟨hb, hc⟩ | ⟨hb, hc⟩
        · left
          rw [lookup_erase_ne hft, mem_insert, not_or]
          exact ⟨hb, hft, hc⟩
        · right
          rw [lookup_insert_ne hft]
          exact ⟨fun hm => hb (mem_erase.1 hm).2, hc⟩
    pending := fun t ht => h.pending t (mem_erase.1 ht).2
    cancelled := fun t ht => by
      rcases mem_insert _ |>.1 ht with rfl | ht
      · exact ⟨f₀, hf₀, ht₀⟩
      · exact h.cancelled t ht }

/-! ### Completions -/

theorem of_keys (h : Books s hand) (keys : Map ExpertKey ℕ) :
    Books { s with inflightKeys := keys } hand :=
  { h with }

theorem remove (h : Books s none) {f : Flight} (hf : f ∈ s.flights) (pending : Map ℕ PendingOp)
    (cancelled : Map ℕ CancelledWrite)
    (hp : ∀ t, pending.lookup t = if t = f.token then none else s.pending.lookup t)
    (hc : ∀ t, cancelled.lookup t = if t = f.token then none else s.cancelledWrites.lookup t) :
    Books { s with
      flights := s.flights.erase f
      numInflight := update s.numInflight f.drive (s.numInflight f.drive - 1)
      pending := pending
      cancelledWrites := cancelled } f.buf := by
  have hmem : ∀ {g : Flight}, g ∈ s.flights.erase f ↔ g ≠ f ∧ g ∈ s.flights :=
    h.flights_nodup.mem_erase_iff
  have htoken : ∀ {g : Flight}, g ∈ s.flights.erase f → g.token ≠ f.token := by
    intro g hg heq
    exact (hmem.1 hg).1 (h.token_inj (hmem.1 hg).2 hf heq)
  have hperm := perm_cons_erase hf
  have hpend : ∀ {t}, t ∈ pending ↔ t ≠ f.token ∧ t ∈ s.pending := by
    intro t
    rw [Map.mem_iff, hp, Map.mem_iff]
    by_cases ht : t = f.token <;> simp [ht]
  have hcanc : ∀ {t}, t ∈ cancelled ↔ t ≠ f.token ∧ t ∈ s.cancelledWrites := by
    intro t
    rw [Map.mem_iff, hc, Map.mem_iff]
    by_cases ht : t = f.token <;> simp [ht]
  exact { h with
    inflight := fun d => by
      have hcount := hperm.countP_eq (fun g => decide (g.drive = d))
      simp only [update_apply]
      have hd := h.inflight d
      split
      · next heq =>
        subst heq
        rw [hd, hcount]
        simp
      · next hne =>
        rw [hd, hcount]
        simp [Ne.symm hne]
    token_lt := fun g hg => h.token_lt g (hmem.1 hg).2
    nodup := (h.nodup.sublist (List.Sublist.map _ erase_sublist))
    drive := fun g hg => h.drive g (hmem.1 hg).2
    layer := fun g hg => h.layer g (hmem.1 hg).2
    booked := fun g hg => by
      rcases h.booked g (hmem.1 hg).2 with ⟨hb, hn⟩ | ⟨hn, hb⟩
      · left
        rw [hp, if_neg (htoken hg), hcanc]
        exact ⟨hb, fun hm => hn hm.2⟩
      · right
        rw [hc, if_neg (htoken hg), hpend]
        exact ⟨fun hm => hn hm.2, hb⟩
    pending := fun t ht => by
      obtain ⟨hne, ht⟩ := hpend.1 ht
      obtain ⟨g, hg, heq⟩ := h.pending t ht
      exact ⟨g, hmem.2 ⟨fun hgf => hne (hgf ▸ heq.symm), hg⟩, heq⟩
    cancelled := fun t ht => by
      obtain ⟨hne, ht⟩ := hcanc.1 ht
      obtain ⟨g, hg, heq⟩ := h.cancelled t ht
      exact ⟨g, hmem.2 ⟨fun hgf => hne (hgf ▸ heq.symm), hg⟩, heq⟩
    buf_lt := fun g hg => h.buf_lt g (hmem.1 hg).2
    buf_inj := fun g hg g' hg' => h.buf_inj g (hmem.1 hg).2 g' (hmem.1 hg').2
    held := fun b hb => by
      have hlt := h.buf_lt f hf b hb
      refine ⟨hlt, ?_, fun g hg hgb => (hmem.1 hg).1 (h.buf_inj g (hmem.1 hg).2 f hf b hgb hb)⟩
      have hcount := h.buffers b hlt (by simp)
      rw [if_pos ⟨f, hf, hb⟩] at hcount
      exact count_eq_zero.1 hcount
    buffers := fun b hlt hne => by
      rw [h.buffers b hlt (by simp)]
      have hiff : (∃ g ∈ s.flights.erase f, g.buf = some b) ↔ ∃ g ∈ s.flights, g.buf = some b := by
        constructor
        · rintro ⟨g, hg, hgb⟩
          exact ⟨g, (hmem.1 hg).2, hgb⟩
        · rintro ⟨g, hg, hgb⟩
          exact ⟨g, hmem.2 ⟨fun heq => hne (heq ▸ hgb), hg⟩, hgb⟩
      simp only [hiff]
    write := fun g hg => h.write g (hmem.1 hg).2
    result := fun g hg => h.result g (hmem.1 hg).2 }

variable {x : World × Option IoCompletion} {c : World.Consumer} {e : World.Cqe} {d : ℕ}

theorem consume (h : Books s none) (hne : e ≠ .cancel)
    (hshort : c = .drain → ∀ token, e = .write token → s.NoShort token)
    (hs : s.consume c d e = some x) : Books x.1 none := by
  cases e with
  | cancel => exact absurd rfl hne
  | write token =>
    obtain ⟨f, hf, rfl, rfl, res, hres, ⟨op, hp, heq⟩ | ⟨hp, heq⟩⟩ := World.consume_write hs
    · rw [heq]
      have hop : op = ⟨f.key, f.drive, f.buf⟩ ∧ f.token ∉ s.cancelledWrites := by
        rcases h.booked f hf with ⟨hb, hn⟩ | ⟨hn, -⟩
        · rw [hp] at hb
          exact ⟨some.inj hb, hn⟩
        · exact absurd (Map.mem_of_lookup hp) hn
      obtain ⟨rfl, hcm⟩ := hop
      have hrem := h.remove hf (s.pending.erase f.token) s.cancelledWrites (fun t => by
          split
          · next heq => rw [heq, lookup_erase]
          · next hne => rw [lookup_erase_ne hne]) (fun t => by
          split
          · next heq => rw [heq, lookup_eq_none.2 hcm]
          · rfl)
      unfold World.settle
      split
      · next lpos hsucc hl =>
        -- the write was full
        have hle := World.full_of_succeeds hf hp hres (fun hc => hshort hc _ rfl) hsucc
        have hw : s.WrittenNow f.key := ⟨f.write, (h.write f hf).1, h.result f hf res hres hle⟩
        exact ((hrem.mark hl hw).free).of_keys _
      · exact (hrem.free).of_keys _
    · -- a cancelled write
      rw [heq]
      have hc : s.cancelledWrites.lookup f.token = some ⟨f.buf, f.drive⟩ := by
        rcases h.booked f hf with ⟨hb, -⟩ | ⟨-, hb⟩
        · rw [hp] at hb
          cases hb
        · exact hb
      simp only [World.settleCancelled, hc]
      refine (h.remove hf s.pending (s.cancelledWrites.erase f.token) (fun t => ?_)
        (fun t => ?_)).free
      · split
        · next heq => rw [heq, hp]
        · rfl
      · split
        · next heq => rw [heq, lookup_erase]
        · next hne => rw [lookup_erase_ne hne]

theorem pollCompletions (h : Books s none) {ready : ℕ → List World.Cqe}
    (hok : ∀ d, World.Cqe.cancel ∉ ready d) {x : World × List IoCompletion}
    (hs : s.pollCompletions ready = some x) : Books x.1 none :=
  World.pollCompletions_rule (P := fun s => Books s none)
    (fun _ d _ _ he h hy => h.consume (fun heq => hok d (heq ▸ he)) (fun hc => by cases hc) hy) h hs

theorem drainPass (h : Books s none) {next : ℕ → Option World.Cqe}
    (hok : ∀ d, next d ≠ some .cancel ∧ ∀ token, next d = some (.write token) → s.NoShort token)
    (hs : s.drainPass next = some s') : Books s' none := by
  refine World.drainPass_rule (P := fun s => Books s none) ?_ h hs
  intro s₁ d e y hnext hw h₁ hy
  refine h₁.consume ?_ ?_ hy
  · rintro rfl
    exact (hok d).1 hnext
  · rintro - token rfl
    exact hw.noShort ((hok d).2 token hnext)

theorem consume_length (hs : s.consume c d e = some x) : x.1.flights.length ≤ s.flights.length ∧
      (e ≠ .cancel → x.1.flights.length < s.flights.length) := by
  cases e with
  | cancel =>
    refine ⟨?_, fun hne => absurd rfl hne⟩
    simp only [World.consume] at hs
    split at hs
    · cases hs
      exact le_refl _
    · cases hs
  | write token =>
    have hlt : x.1.flights.length < s.flights.length := by
      obtain ⟨f, hf, -, -, res, -, hx⟩ := World.consume_write hs
      have hlen := length_erase_of_mem hf
      have hpos := length_pos_of_mem hf
      have herase : x.1.flights = s.flights.erase f := by
        rcases hx with ⟨op, -, heq⟩ | ⟨-, heq⟩
        · rw [heq]
          unfold World.settle
          split <;> rfl
        · rw [heq]
          unfold World.settleCancelled
          split <;> rfl
      rw [herase]
      omega
    exact ⟨hlt.le, fun _ => hlt⟩

theorem drainDrives_length (l : List (ℕ × Option World.Cqe))
    (hs : World.drainDrives l s = some s') : s'.flights.length ≤ s.flights.length :=
  World.drainDrives_rule (P := fun s₁ => s₁.flights.length ≤ s.flights.length) l
    (fun _ _ _ _ _ h hy => (consume_length hy).1.trans h) (le_refl _) hs

theorem drainDrives_shortens : ∀ (l : List (ℕ × Option World.Cqe)) {s s' : World},
    (∃ b ∈ l, s.numInflight b.1 ≠ 0) →
    (∀ b ∈ l, s.numInflight b.1 ≠ 0 → ∃ token, b.2 = some (.write token)) →
    World.drainDrives l s = some s' → s'.flights.length < s.flights.length := by
  intro l
  induction l with
  | nil =>
    rintro s s' ⟨b, hb, -⟩ _ _
    exact absurd hb not_mem_nil
  | cons b l ih =>
    intro s s' hex hwait hs
    obtain ⟨d, e⟩ := b
    unfold World.drainDrives at hs
    split at hs
    · next hzero =>
      refine ih ?_ (fun b hb => hwait b (mem_cons_of_mem _ hb)) hs
      obtain ⟨b, hb, hne⟩ := hex
      rcases mem_cons.1 hb with rfl | hb
      · exact absurd hzero hne
      · exact ⟨b, hb, hne⟩
    · next hne =>
      obtain ⟨token, htoken⟩ := hwait _ mem_cons_self hne
      subst htoken
      simp only [bind_eq_some_iff] at hs
      obtain ⟨x, hx, hs⟩ := hs
      have hlt := (consume_length hx).2 (fun h => by cases h)
      exact (drainDrives_length l hs).trans_lt hlt

/-! ### The device -/

theorem deviceStore (h : Books s hand) {token k : ℕ} (hs : s.deviceStore token k = some s') :
    Books s' hand := by
  unfold World.deviceStore at hs
  split at hs
  · cases hs
  split at hs
  · cases hs
    exact h.storeBytes _ _ _ _
  · cases hs

theorem deviceFinish (h : Books s none) {token : ℕ} {res : ℤ}
    (hs : s.deviceFinish token res = some s') : Books s' none := by
  obtain ⟨f₀, hf₀, ht₀, -, lpos, hl, rfl⟩ := World.deviceFinish_some hs
  -- the books with the result, for any list of full writes that has the write if it is full
  have hmain : ∀ full, s.full ⊆ full →
      ((s.opts.slotSizeBytes : ℤ) ≤ res → (f₀.write, f₀.key) ∈ full) →
      Books { s with flights := s.flights.map (World.ended token res), full := full } none := by
    intro full hsub hfull
    exact { h with
      inflight := fun d => by
        rw [h.inflight d, countP_map]
        simp [comp_def]
      token_lt := forall_mem_map.2 fun g hg => by simpa using h.token_lt g hg
      nodup := by simpa [comp_def] using h.nodup
      drive := forall_mem_map.2 fun g hg => by simpa using h.drive g hg
      layer := forall_mem_map.2 fun g hg => by simpa using h.layer g hg
      booked := forall_mem_map.2 fun g hg => by
        rw [World.ended_token, World.ended_drive, World.ended_key, World.ended_buf]
        exact h.booked g hg
      pending := fun t ht => by
        obtain ⟨g, hg, rfl⟩ := h.pending t ht
        exact ⟨_, mem_map_of_mem hg, World.ended_token g⟩
      cancelled := fun t ht => by
        obtain ⟨g, hg, rfl⟩ := h.cancelled t ht
        exact ⟨_, mem_map_of_mem hg, World.ended_token g⟩
      buf_lt := forall_mem_map.2 fun g hg => by simpa using h.buf_lt g hg
      buf_inj := forall_mem_map.2 fun g hg => forall_mem_map.2 fun g' hg' b hb hb' => by
          rw [h.buf_inj g hg g' hg' b (by simpa using hb) (by simpa using hb')]
      held := fun b hb => by cases hb
      buffers := fun b hb hne => by
        rw [show s.freed.count b = _ from h.buffers b hb hne]
        simp
      write := forall_mem_map.2 fun g hg => by simpa using h.write g hg
      result := forall_mem_map.2 fun g hg r hr hle => by
        rw [World.ended_key, World.ended_write]
        unfold World.ended at hr
        split at hr
        · next hgt =>
          obtain rfl := h.token_inj hg hf₀ (hgt.trans ht₀.symm)
          obtain rfl : res = r := some.inj hr
          exact hfull hle
        · exact hsub (h.result g hg r hr hle)
      written := fun e l hw => by
        rcases h.written e l hw with hs | ⟨key, he, hl, w, hw, hmem⟩
        · exact .inl hs
        · exact .inr ⟨key, he, hl, w, hw, hsub hmem⟩ }
  split
  · exact (hmain ((f₀.write, f₀.key) :: s.full) (subset_cons_self _ _)
      fun _ => mem_cons_self).of_disk _ _
  · next hlt => exact hmain s.full (List.Subset.refl _) fun hle => absurd hle hlt

/-! ### Runs -/

theorem construct (o : Options) (disk : ℕ → Option File) (openable : ℕ → Bool)
    (full : List (ℕ × ExpertKey)) (nextWrite : ℕ) :
    Books (World.construct o disk openable full nextWrite) none where
  inflight _ := rfl
  token_lt _ hf := absurd hf not_mem_nil
  nodup := nodup_nil
  drive _ hf := absurd hf not_mem_nil
  layer _ hf := absurd hf not_mem_nil
  booked _ hf := absurd hf not_mem_nil
  pending _ ht := absurd ht (notMem_empty _)
  cancelled _ ht := absurd ht (notMem_empty _)
  buf_lt _ hf := absurd hf not_mem_nil
  buf_inj _ hf := absurd hf not_mem_nil
  freed_lt _ hb := absurd hb not_mem_nil
  held _ hb := by cases hb
  buffers _ hb := absurd hb (not_lt_zero _)
  start_le := le_refl _
  write _ hf := absurd hf not_mem_nil
  result _ hf := absurd hf not_mem_nil
  written _ _ hw := .inl hw

theorem step (h : Books s none) {a : World.Action} (hok : Plain s a) (hs : s.step a = some s') :
    Books s' none := by
  cases a with
  | ensureMmap e r =>
    cases hs
    exact h.ensureMmap e r
  | writeExpert key r sqe =>
    simp only [World.step, map_eq_some_iff] at hs
    obtain ⟨x, hx, rfl⟩ := hs
    exact h.writeExpert hx
  | writeExpertOwned key r sqe r' written =>
    simp only [World.step, map_eq_some_iff] at hs
    obtain ⟨x, hx, rfl⟩ := hs
    exact h.writeExpertOwned hx
  | writeExpertSync key r written => exact h.writeExpertSync hs
  | cancel token sqe =>
    cases hs
    exact h.cancel token sqe
  | poll ready =>
    simp only [World.step, map_eq_some_iff] at hs
    obtain ⟨x, hx, rfl⟩ := hs
    exact h.pollCompletions hok hx
  | drainPass next => exact h.drainPass hok hs
  | deviceStore token k => exact h.deviceStore hs
  | deviceFinish token res => exact h.deviceFinish hs
  | restart o placed openable => exact absurd hok id

theorem noSpin (h : Books s none) (hleft : s.undrained) :
    ∃ d < s.opts.numDrives, 0 < s.numInflight d ∧ ∃ f ∈ s.flights, f.drive = d := by
  have hex : ∃ f, f ∈ s.flights := by
    rcases hleft with hne | hne
    · obtain ⟨p, hp⟩ := exists_mem_of_ne_nil _ hne
      obtain ⟨f, hf, -⟩ := h.pending p.1 (mem_map_of_mem hp)
      exact ⟨f, hf⟩
    · obtain ⟨p, hp⟩ := exists_mem_of_ne_nil _ hne
      obtain ⟨f, hf, -⟩ := h.cancelled p.1 (mem_map_of_mem hp)
      exact ⟨f, hf⟩
  obtain ⟨f, hf⟩ := hex
  refine ⟨f.drive, ?_, ?_, f, hf, rfl⟩
  · rw [h.drive f hf]
    exact mod_lt _ s.opts.numDrives_pos
  · rw [h.inflight]
    have hpos : 0 < s.flights.countP fun g => decide (g.drive = f.drive) :=
      countP_pos_iff.2 ⟨f, hf, by simp⟩
    exact_mod_cast hpos

theorem accounted (h : Books s none) : Accounted s where
  inflight := h.inflight
  noSpin := h.noSpin
  drains := by
    intro next s' hwait hs
    unfold World.drainPass at hs
    split at hs
    · next hleft =>
      obtain ⟨d, hd, hpos, -⟩ := h.noSpin hleft
      refine drainDrives_shortens _ ⟨(d, next d), ?_, ?_⟩ ?_ hs
      · exact mem_map.2 ⟨d, mem_range.2 hd, rfl⟩
      · exact hpos.ne'
      · intro b hb hne
        obtain ⟨d', -, rfl⟩ := mem_map.1 hb
        refine hwait d' (lt_of_le_of_ne ?_ (Ne.symm hne))
        rw [h.inflight]
        exact Int.natCast_nonneg _
    · cases hs
  buffers := fun b hb => h.buffers b hb (by simp)
  written := h.written
  exposed := by
    intro key hex
    have hhost : (s.hostPtr key).isSome := by
      rcases hex with hex | hex
      · exact hex
      · rwa [World.readExpert, isSome_map] at hex
    unfold World.hostPtr at hhost
    split at hhost
    · cases hhost
    next lpos hl =>
    split at hhost
    · next hw =>
      rcases h.written _ _ hw.2.2 with hs | ⟨key', he, hl', hnow⟩
      · exact .inl hs
      have hkey : key' = key := by
        unfold Options.layerPos at hl hl'
        split at hl <;> split at hl' <;>
          simp only [some.injEq, reduceCtorEq] at hl hl'
        cases key
        cases key'
        simp only [ExpertKey.mk.injEq] at *
        exact ⟨by omega, he⟩
      exact .inr (hkey ▸ hnow)
    · cases hhost

end Books

/-- **Write accounting.**  Every run of plain actions from the construction of a tier, over any
files, is accounted. -/
theorem writes_accounted {o : Options} {disk : ℕ → Option File} {openable : ℕ → Bool}
    {full : List (ℕ × ExpertKey)} {nextWrite : ℕ} {as : List World.Action} {s : World}
    (hrun : GuardedRun World.step Plain (World.construct o disk openable full nextWrite) as s) :
    Accounted s :=
  (hrun.invariant (I := fun s => Books s none) (fun _ _ _ h hok hs => h.step hok hs)
    (Books.construct o disk openable full nextWrite)).accounted

/-- One drive, slots of two bytes, one layer and two experts. -/
def oneDrive : Options where
  numDrives := 1
  queueDepth := 4
  slotSizeBytes := 2
  numMoeLayers := 1
  numExpertsPerLayer := 2
  firstMoeLayer := 0
  numDrives_pos := Nat.one_pos
  slotSizeBytes_pos := Nat.two_pos
  numMoeLayers_pos := Nat.one_pos
  numExpertsPerLayer_pos := Nat.two_pos

/-- The first run over empty drives. -/
def freshTier : World := World.construct oneDrive (fun _ => none) (fun _ => true) [] 0

def ownedWrite : List World.Action :=
  [.writeExpertOwned ⟨0, 1⟩ .ok true .ok 0, .deviceStore 1 0, .deviceFinish 1 2,
    .poll fun _ => [.write 1]]

theorem writes_accounted_owned : ∃ s, GuardedRun World.step Plain freshTier ownedWrite s ∧
    s.slotWritten 1 0 = true ∧ s.freed = [0] ∧ Accounted s := by
  obtain ⟨s, hs, hw, hf⟩ : ∃ s, ownedWrite.foldlM World.step freshTier = some s ∧
      s.slotWritten 1 0 = true ∧ s.freed = [0] := ⟨_, rfl, by decide, by decide⟩
  have hrun : GuardedRun World.step Plain freshTier ownedWrite s := by
    refine GuardedRun.of_foldlM hs fun s a ha => ?_
    simp only [ownedWrite, mem_cons, not_mem_nil, or_false] at ha
    rcases ha with rfl | rfl | rfl | rfl
    · trivial
    · trivial
    · trivial
    · intro d hd
      simp at hd
  exact ⟨s, hrun, hw, hf, writes_accounted hrun⟩

/-- Two writes, the first of which is cancelled; its request and then itself complete. -/
def cancelledWrite : List World.Action :=
  [.writeExpert ⟨0, 0⟩ .ok true, .writeExpert ⟨0, 1⟩ .ok true, .cancel 1 true,
    .poll fun _ => [.cancel], .deviceFinish 1 2, .poll fun _ => [.write 1]]

/-- **A cancelled write is counted down twice**: the counter is 0 while the other write is
outstanding. -/
theorem cancel_miscounts : ∃ s, Run World.step freshTier cancelledWrite s ∧
    s.numInflight 0 = 0 ∧ s.flights.length = 1 ∧ s.undrained ∧ ¬ Accounted s := by
  obtain ⟨s, hs, hzero, hlen, hcount, hleft⟩ :
      ∃ s, cancelledWrite.foldlM World.step freshTier = some s ∧ s.numInflight 0 = 0 ∧
        s.flights.length = 1 ∧ (s.flights.countP fun f => f.drive = 0) = 1 ∧ s.undrained :=
    ⟨_, rfl, by decide, by decide, by decide, by decide⟩
  refine ⟨s, Run.of_foldlM hs, hzero, hlen, hleft, fun h => ?_⟩
  have hinflight := h.inflight 0
  rw [hzero, hcount] at hinflight
  cases hinflight

end Nvme
end LayerStorm.Memory
