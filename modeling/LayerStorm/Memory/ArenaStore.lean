import LayerStorm.Memory.ArenaHost

/-!
# Persistent writes that keep the record table truthful

A store is *vouched for* if every active record names contents that a completed fill
left in its slot.  A single write keeps that if it touches only a slot whose record is
not active, or sets the state of a record, to active only over final contents.  All
writes of a list being harmless, the store is vouched for after every prefix of them,
which is what a crash leaves behind.
-/

namespace LayerStorm.Memory

open CacheConfig

variable {β : Type} {size : ℕ}

/-! ### Single writes -/

/-- The slot that a write concerns. -/
def PWrite.place : PWrite β size → ℕ × ℕ
  | .byte n i _ _ | .state n i _ | .layerIdx n i _ | .expertIdx n i _ | .fileMtimeNs n i _
  | .fileSize n i _ | .keyHash n i _ => (n, i)

namespace Store

variable (st : Store β size)

@[simp] theorem records_modifyRecord (n i : ℕ) (f : SlotRecord → SlotRecord) (m j : ℕ) :
    (st.modifyRecord n i f).records m j =
      if (m, j) = (n, i) then f (st.records n i) else st.records m j := by
  simp only [modifyRecord]
  by_cases hm : m = n
  · subst hm
    by_cases hj : j = i <;> simp [hj]
  · simp [hm]

@[simp] theorem mem_modifyRecord (n i : ℕ) (f : SlotRecord → SlotRecord) :
    (st.modifyRecord n i f).mem = st.mem := rfl

@[simp] theorem mem_modifySlot (n i : ℕ) (f : (Fin size → β) → Fin size → β) (m j : ℕ) :
    (st.modifySlot n i f).mem m j = if (m, j) = (n, i) then f (st.mem n i) else st.mem m j := by
  simp only [modifySlot]
  by_cases hm : m = n
  · subst hm
    by_cases hj : j = i <;> simp [hj]
  · simp [hm]

@[simp] theorem records_modifySlot (n i : ℕ) (f : (Fin size → β) → Fin size → β) :
    (st.modifySlot n i f).records = st.records := rfl

theorem write_other {w : PWrite β size} {m j : ℕ} (h : (m, j) ≠ w.place) :
    (st.write w).records m j = st.records m j ∧ (st.write w).mem m j = st.mem m j := by
  cases w <;> simp only [PWrite.place] at h <;> simp [write, h]

theorem writes_append (ws vs : List (PWrite β size)) :
    st.writes (ws ++ vs) = (st.writes ws).writes vs := by
  simp [writes]

variable {ws : List (PWrite β size)}

theorem writes_other (st : Store β size) {m j : ℕ} (h : ∀ w ∈ ws, (m, j) ≠ w.place) :
    (st.writes ws).records m j = st.records m j ∧ (st.writes ws).mem m j = st.mem m j := by
  induction ws generalizing st with
  | nil => exact ⟨rfl, rfl⟩
  | cons w ws ih =>
    have hw := write_other st (h w List.mem_cons_self)
    have hrest := ih (st.write w) fun v hv => h v (List.mem_cons_of_mem _ hv)
    exact ⟨hrest.1.trans hw.1, hrest.2.trans hw.2⟩

theorem not_active_writes (st : Store β size) {n i : ℕ} (h : (st.records n i).state ≠ .active)
    (hws : PWrite.state n i .active ∉ ws) :
    ((st.writes ws).records n i).state ≠ .active := by
  induction ws generalizing st with
  | nil => exact h
  | cons w ws ih =>
    rw [List.mem_cons, not_or] at hws
    refine ih (st.write w) ?_ hws.2
    by_cases hp : (n, i) = w.place
    · cases w with
      | state m j v =>
        cases hp
        simp only [write, records_modifyRecord]
        rintro rfl
        exact hws.1 rfl
      | byte m j o v => exact h
      | layerIdx m j v | expertIdx m j v | fileMtimeNs m j v | fileSize m j v | keyHash m j v =>
        cases hp
        simpa only [write, records_modifyRecord, if_true] using h
    · rw [(write_other st hp).1]
      exact h

end Store

/-! ### Calls -/

section Calls

variable (cc : CacheConfig β size) (idents : List FileIdentity) (st : Store β size)

/-- The slot that a call concerns. -/
def Call.place : Call ExpertKey → ℕ × ℕ
  | .onReuse n i | .onLoadStart n i _ | .onLoadReady n i _ | .postFill _ n i => (n, i)

theorem place_callWrites {c : Call ExpertKey} {w : PWrite β size}
    (hw : w ∈ cc.callWrites idents st c) : w.place = c.place := by
  cases c with
  | onReuse n i =>
    simp only [callWrites] at hw
    split at hw
    · cases hw
    rw [List.mem_singleton] at hw
    rw [hw]
    rfl
  | onLoadStart n i key =>
    simp only [callWrites, identityWrites, List.mem_cons, List.not_mem_nil, or_false] at hw
    rcases hw with rfl | rfl | rfl | rfl | rfl | rfl <;> rfl
  | onLoadReady n i key =>
    simp only [callWrites, identityWrites, List.cons_append,
      List.nil_append, List.mem_cons, List.not_mem_nil, or_false] at hw
    rcases hw with rfl | rfl | rfl | rfl | rfl | rfl <;> rfl
  | postFill key n i =>
    simp only [callWrites, List.mem_map] at hw
    obtain ⟨v, _, rfl⟩ := hw
    rfl

variable {cs : List (Call ExpertKey)}

theorem callsWrites_other {m j : ℕ} (h : ∀ c ∈ cs, (m, j) ≠ c.place) :
    (st.writes (cc.callsWrites idents st cs)).records m j = st.records m j ∧
      (st.writes (cc.callsWrites idents st cs)).mem m j = st.mem m j := by
  induction cs generalizing st with
  | nil => exact ⟨rfl, rfl⟩
  | cons c cs ih =>
    have hc := Store.writes_other st (m := m) (j := j) fun w hw => by
      rw [place_callWrites cc idents st hw]
      exact h c List.mem_cons_self
    have hrest := ih (st.writes (cc.callWrites idents st c))
      fun d hd => h d (List.mem_cons_of_mem _ hd)
    unfold callsWrites
    rw [Store.writes_append]
    exact ⟨hrest.1.trans hc.1, hrest.2.trans hc.2⟩

/-- After `on_reuse` the record is empty. -/
theorem Store.records_reuse (n i : ℕ) :
    ((st.writes (cc.callWrites idents st (.onReuse n i))).records n i).state = .empty ∧
      (st.writes (cc.callWrites idents st (.onReuse n i))).mem = st.mem := by
  simp only [callWrites]
  split
  · rename_i h
    exact ⟨h, rfl⟩
  · simp [Store.writes, Store.write]

/-- After `on_load_start` the record is loading. -/
theorem Store.records_loadStart (n i : ℕ) (key : ExpertKey) :
    ((st.writes (cc.callWrites idents st (.onLoadStart n i key))).records n i).state = .loading ∧
      (st.writes (cc.callWrites idents st (.onLoadStart n i key))).mem = st.mem := by
  simp [callWrites, identityWrites, Store.writes, Store.write]

theorem Store.writes_bytes (n i : ℕ) (ws : List (Fin size × β)) :
    (st.writes (ws.map fun w => .byte n i w.1 w.2)).mem n i =
        ws.foldl (fun c w => Function.update c w.1 w.2) (st.mem n i) ∧
      (st.writes (ws.map fun w => .byte n i w.1 w.2)).records = st.records := by
  induction ws generalizing st with
  | nil => exact ⟨rfl, rfl⟩
  | cons w ws ih =>
    have h := ih (st.write (.byte n i w.1 w.2))
    have hmem : (st.write (.byte n i w.1 w.2)).mem n i = Function.update (st.mem n i) w.1 w.2 := by
      simp [Store.write]
    rw [hmem] at h
    exact h

/-- Calls that kill the record of a slot before its bytes are overwritten. -/
def Call.Kills (n i : ℕ) (c : Call ExpertKey) : Prop :=
  c = .onReuse n i ∨ ∃ key, c = .onLoadStart n i key

theorem Store.mem_postFill (key : ExpertKey) (n i : ℕ) :
    (st.writes (cc.callWrites idents st (.postFill key n i))).mem n i = cc.filled key (st.mem n i) ∧
      (st.writes (cc.callWrites idents st (.postFill key n i))).records = st.records :=
  Store.writes_bytes st n i (cc.postFill key (st.mem n i))

theorem Store.kills_writes {n i : ℕ} (hcs : ∀ c ∈ cs, c.Kills n i) :
    (st.writes (cc.callsWrites idents st cs)).mem = st.mem ∧
      (cs ≠ [] → ((st.writes (cc.callsWrites idents st cs)).records n i).state ≠ .active) ∧
      ∀ m j, PWrite.state m j .active ∉ cc.callsWrites idents st cs := by
  induction cs generalizing st with
  | nil => exact ⟨rfl, fun h => absurd rfl h, fun m j h => by cases h⟩
  | cons c cs ih =>
    obtain ⟨hmem, hrec, hquiet⟩ := ih (st.writes (cc.callWrites idents st c))
      fun d hd => hcs d (List.mem_cons_of_mem _ hd)
    have hc : (st.writes (cc.callWrites idents st c)).mem = st.mem ∧
        ((st.writes (cc.callWrites idents st c)).records n i).state ≠ .active ∧
        ∀ m j, PWrite.state m j .active ∉ cc.callWrites idents st c := by
      rcases hcs c List.mem_cons_self with rfl | ⟨key, rfl⟩
      · obtain ⟨hstate, hsame⟩ := Store.records_reuse cc idents st n i
        refine ⟨hsame, by rw [hstate]; decide, fun m j h => ?_⟩
        simp only [callWrites] at h
        split at h
        · cases h
        · simp at h
      · obtain ⟨hstate, hsame⟩ := Store.records_loadStart cc idents st n i key
        refine ⟨hsame, by rw [hstate]; decide, fun m j h => ?_⟩
        simp [callWrites, identityWrites] at h
    unfold callsWrites
    rw [Store.writes_append]
    refine ⟨hmem.trans hc.1, fun _ => ?_, fun m j h => ?_⟩
    · exact Store.not_active_writes _ hc.2.1 (hquiet n i)
    · rcases List.mem_append.1 h with h | h
      · exact hc.2.2 m j h
      · exact hquiet m j h

end Calls

/-! ### Truthful tables -/

namespace HostConfig

variable (cfg : HostConfig β size) (moved : Prop)

/-- Every active record names contents that a completed fill left in its slot. -/
def Vouched (st : Store β size) : Prop :=
  ∀ n i, (st.records n i).state = .active →
    cfg.Final moved (st.records n i).ident (st.records n i).key (st.mem n i)

/-- A write that does not make an active record lie. -/
def Harmless (st : Store β size) : PWrite β size → Prop
  | .byte n i _ _ | .layerIdx n i _ | .expertIdx n i _ | .fileMtimeNs n i _ | .fileSize n i _
  | .keyHash n i _ => (st.records n i).state ≠ .active
  | .state n i v =>
    v = .active → cfg.Final moved (st.records n i).ident (st.records n i).key (st.mem n i)

def AllHarmless : Store β size → List (PWrite β size) → Prop
  | _, [] => True
  | st, w :: ws => cfg.Harmless moved st w ∧ AllHarmless (st.write w) ws

variable {cfg moved} {st : Store β size}

theorem Vouched.write (h : cfg.Vouched moved st) {w : PWrite β size}
    (hw : cfg.Harmless moved st w) : cfg.Vouched moved (st.write w) := by
  intro m j hactive
  by_cases hp : (m, j) = w.place
  · -- the slot of the write: its record was not active, or it is made active now
    cases w with
    | state n i v =>
      cases hp
      simp only [Store.write, Store.records_modifyRecord] at hactive ⊢
      exact hw hactive
    | byte n i o v =>
      cases hp
      exact absurd hactive hw
    | layerIdx n i v | expertIdx n i v | fileMtimeNs n i v | fileSize n i v | keyHash n i v =>
      cases hp
      simp only [Store.write, Store.records_modifyRecord] at hactive
      exact absurd hactive hw
  · obtain ⟨hrec, hmem⟩ := Store.write_other st hp
    rw [hrec] at hactive ⊢
    rw [hmem]
    exact h m j hactive

variable {ws : List (PWrite β size)}

theorem Vouched.writes (h : cfg.Vouched moved st) (hws : cfg.AllHarmless moved st ws) :
    cfg.Vouched moved (st.writes ws) := by
  induction ws generalizing st with
  | nil => exact h
  | cons w ws ih => exact ih (h.write hws.1) hws.2

theorem AllHarmless.take (hws : cfg.AllHarmless moved st ws) (c : ℕ) :
    cfg.AllHarmless moved st (ws.take c) := by
  induction ws generalizing st c with
  | nil => simpa using hws
  | cons w ws ih =>
    cases c with
    | zero => trivial
    | succ c => exact ⟨hws.1, ih hws.2 c⟩

theorem AllHarmless.append {vs : List (PWrite β size)} (hws : cfg.AllHarmless moved st ws)
    (hvs : cfg.AllHarmless moved (st.writes ws) vs) : cfg.AllHarmless moved st (ws ++ vs) := by
  induction ws generalizing st with
  | nil => exact hvs
  | cons w ws ih => exact ⟨hws.1, ih hws.2 hvs⟩

/-- **A crash within harmless writes leaves a truthful table.** -/
theorem Vouched.take (h : cfg.Vouched moved st) (hws : cfg.AllHarmless moved st ws) (c : ℕ) :
    cfg.Vouched moved (st.writes (ws.take c)) :=
  h.writes (hws.take c)

/-! ### The calls are harmless -/

variable (cfg) (idents : List FileIdentity)

theorem harmless_reuse (st : Store β size) (n i : ℕ) :
    cfg.AllHarmless moved st (cfg.cache.callWrites idents st (.onReuse n i)) := by
  simp only [callWrites]
  split
  · trivial
  · exact ⟨fun h => (by cases h), trivial⟩

theorem harmless_identity (st : Store β size) {n i : ℕ} (key : ExpertKey)
    (h : (st.records n i).state ≠ .active) :
    cfg.AllHarmless moved st (cfg.cache.identityWrites idents n i key) := by
  refine ⟨h, ?_, ?_, ?_, ?_, trivial⟩ <;> simpa [Harmless, Store.write] using h

theorem harmless_loadStart (st : Store β size) (n i : ℕ) (key : ExpertKey) :
    cfg.AllHarmless moved st (cfg.cache.callWrites idents st (.onLoadStart n i key)) := by
  refine ⟨fun h => (by cases h), harmless_identity cfg idents _ key ?_⟩
  simp [Store.write]

variable {key : ExpertKey}

theorem harmless_loadReady (st : Store β size) {n i : ℕ} (h : (st.records n i).state ≠ .active)
    (hfinal : cfg.Final moved (identOf idents key) key (st.mem n i)) :
    cfg.AllHarmless moved st (cfg.cache.callWrites idents st (.onLoadReady n i key)) := by
  refine AllHarmless.append (harmless_identity cfg idents st key h) ⟨fun _ => ?_, trivial⟩
  simpa [identityWrites, Store.writes, Store.write, SlotRecord.key, SlotRecord.ident] using hfinal

theorem harmless_bytes (st : Store β size) {n i : ℕ} (h : (st.records n i).state ≠ .active)
    (ws : List (Fin size × β)) :
    cfg.AllHarmless moved st (ws.map fun w => PWrite.byte n i w.1 w.2) := by
  induction ws generalizing st with
  | nil => trivial
  | cons w ws ih =>
    refine ⟨h, ih _ ?_⟩
    simpa [Store.write] using h

theorem harmless_kills (st : Store β size) {n i : ℕ} {cs : List (Call ExpertKey)}
    (hcs : ∀ c ∈ cs, c.Kills n i) :
    cfg.AllHarmless moved st (cfg.cache.callsWrites idents st cs) := by
  induction cs generalizing st with
  | nil => trivial
  | cons c cs ih =>
    refine AllHarmless.append ?_ (ih _ fun d hd => hcs d (List.mem_cons_of_mem _ hd))
    rcases hcs c List.mem_cons_self with rfl | ⟨key, rfl⟩
    · exact harmless_reuse cfg idents st n i
    · exact harmless_loadStart cfg idents st n i key

variable {cfg idents}

/-! ### What is found in a truthful table -/

theorem ident_of_verifies {r : SlotRecord} (h : cfg.cache.verifies idents r = true) :
    r.state = .active ∧ r.ident = identOf idents r.key := by
  simp only [verifies, identityMatches, Bool.and_eq_true, beq_iff_eq] at h
  exact ⟨h.1.1, h.1.2.2.symm⟩

/-- **What `lookup` finds is final.** -/
theorem final_of_lookup (h : cfg.Vouched moved st) {index : ℕ → Option (ℕ × ℕ)} {n i : ℕ}
    (hl : cfg.cache.lookup idents st index key = some (n, i)) :
    cfg.Final moved (identOf idents key) key (st.mem n i) := by
  unfold lookup at hl
  rw [Option.filter_eq_some_iff, Bool.and_eq_true, beq_iff_eq] at hl
  obtain ⟨_, hv, hkey⟩ := hl
  obtain ⟨hactive, hident⟩ := ident_of_verifies hv
  have hfinal := h n i hactive
  rw [hident] at hfinal
  rw [hkey] at hfinal
  exact hfinal

variable {slots : List (ℕ × ℕ)} {p : ℕ × ℕ × ExpertKey}

theorem mem_adopted {numLayers numExperts : ℕ}
    (hp : p ∈ (cfg.cache.scanAdoptable idents numLayers numExperts st slots).adopted) :
    (p.1, p.2.1) ∈ slots ∧ cfg.cache.verifies idents (st.records p.1 p.2.1) = true ∧
      (st.records p.1 p.2.1).key = p.2.2 := by
  have hgen : ∀ (slots : List (ℕ × ℕ)) (s : CacheConfig.Scan),
      p ∈ (slots.foldl (cfg.cache.scanRecord idents numLayers numExperts st) s).adopted →
      p ∈ s.adopted ∨ ((p.1, p.2.1) ∈ slots ∧
        cfg.cache.verifies idents (st.records p.1 p.2.1) = true ∧
        (st.records p.1 p.2.1).key = p.2.2) := by
    intro slots
    induction slots with
    | nil => exact fun s hp => .inl hp
    | cons q slots ih =>
      intro s hp
      rcases ih _ hp with hp | ⟨hmem, hrest⟩
      · unfold scanRecord at hp
        simp only at hp
        split at hp
        · exact .inl hp
        split at hp
        · rename_i hv
          rw [List.mem_append, List.mem_singleton] at hp
          rcases hp with hp | rfl
          · exact .inl hp
          · exact .inr ⟨List.mem_cons_self, hv.1, rfl⟩
        · exact .inl hp
      · exact .inr ⟨List.mem_cons_of_mem _ hmem, hrest⟩
  rcases hgen slots _ hp with hp | h
  · cases hp
  · exact h

/-- **What the scan adopts is final.** -/
theorem final_of_adopted (h : cfg.Vouched moved st) {numLayers numExperts : ℕ} {n i : ℕ}
    (hp : (n, i, key) ∈ (cfg.cache.scanAdoptable idents numLayers numExperts st slots).adopted) :
    cfg.Final moved (identOf idents key) key (st.mem n i) := by
  obtain ⟨_, hv, hkey⟩ := mem_adopted hp
  obtain ⟨hactive, hident⟩ := ident_of_verifies hv
  have hfinal := h n i hactive
  rw [hident, hkey] at hfinal
  exact hfinal

end HostConfig

end LayerStorm.Memory
