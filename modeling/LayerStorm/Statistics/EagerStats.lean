import LayerStorm.Statistics.ExpertStats

/-!
# Lazy statistics against eager ones

Eagerly, every expert's frequency is multiplied by `1 - α` when a new token begins and raised by
`α` when the expert is activated.  What `raw_frequency` answers is the eager value for the results
fed so far, however they were divided into calls and whatever was asked in between.
`frequency_vector` answers from snapshots that are labelled with the token counter, and further
results of the same token do not change the counter: an expert activated since the snapshots were
taken is missing `α` for each of its activations until the next token begins.

## Main results

* `lazy_stats_exact` — **lazy statistics equal eager ones, except for stale snapshots.**
-/

namespace LayerStorm.Statistics

open List
namespace ExpertStats

variable (o : Options)

/-! ### The eager recurrence -/

/-- Frequencies that are kept up to date. -/
structure Eager where
  lastToken : Option UInt64 := none
  freq : ExpertKey → ℚ := fun _ => 0

def Eager.activate (e : Eager) (act : ExpertActivation) : Eager :=
  { e with freq := Function.update e.freq act.key (e.freq act.key + o.ewmaAlpha) }

/-- A new token decays every expert. -/
def Eager.begin (e : Eager) (tokenId : UInt64) : Eager :=
  if e.lastToken = some tokenId then e
  else { lastToken := some tokenId, freq := fun key => (1 - o.ewmaAlpha) * e.freq key }

def Eager.process (e : Eager) (result : GatingResult) : Eager :=
  result.activations.foldl (Eager.activate o) (e.begin o result.tokenId)

def eagerFrequency (results : List GatingResult) (key : ExpertKey) : ℚ :=
  (results.foldl (Eager.process o) {}).freq key

/-! ### Sequences of calls -/

/-- The calls that change the object; the other queries are functions of it. -/
inductive Call
  | update (completed : List GatingResult)
  | frequencyVector (layerIdx : UInt32)

def Call.results : Call → List GatingResult
  | .update completed => completed
  | .frequencyVector _ => []

def activatedKeys (result : GatingResult) : List ExpertKey :=
  (result.activations.map ExpertActivation.key).filter (validKey o)

/-- The statistics, with the experts activated since the snapshots were taken. -/
structure Recorded where
  stats : ExpertStats := {}
  pending : List ExpertKey := []

def takesSnapshots (st : ExpertStats) (layerIdx : UInt32) : Bool :=
  layerIdx - o.firstMoeLayer < o.numMoeLayers && st.freqSnapshotToken != some st.globalTokenCounter

def Recorded.perform (r : Recorded) : Call → Recorded
  | .update completed =>
    { stats := r.stats.update o completed
      pending := r.pending ++ completed.flatMap (activatedKeys o) }
  | .frequencyVector layerIdx =>
    { stats := (r.stats.frequencyVector o layerIdx).2
      pending := if takesSnapshots o r.stats layerIdx then [] else r.pending }

/-- A sequence of calls on a new object. -/
def record (calls : List Call) : Recorded :=
  calls.foldl (Recorded.perform o) {}

variable {o}

theorem update_eq (st : ExpertStats) (completed : List GatingResult) : st.update o completed =
    if recomputeDue (completed.foldl (process o) st) then
      recomputeMaxima o (completed.foldl (process o) st)
    else completed.foldl (process o) st := rfl

theorem frequencyVector_snd (st : ExpertStats) (layerIdx : UInt32) :
    (st.frequencyVector o layerIdx).2 =
      if takesSnapshots o st layerIdx then ensureFreqSnapshotsFresh o st else st := by
  simp only [frequencyVector, takesSnapshots]
  by_cases hoff : layerIdx - o.firstMoeLayer < o.numMoeLayers
  · by_cases hcur : st.freqSnapshotToken = some st.globalTokenCounter
    · simp [hcur, ensureFreqSnapshotsFresh, UInt32.not_le.2 hoff]
    · simp [hoff, hcur, UInt32.not_le.2 hoff]
  · simp [hoff, UInt32.not_lt.1 hoff]

variable {st : ExpertStats}

theorem ensureFreqSnapshotsFresh_of_ne (h : st.freqSnapshotToken ≠ some st.globalTokenCounter) :
    ensureFreqSnapshotsFresh o st = { st with
      freqSnapshots := fun layer e =>
        materializedFrequency o st (st.states (layer * o.numExperts.toNat + e))
      freqSnapshotToken := some st.globalTokenCounter } :=
  if_neg h

variable (o)

/-! ### The invariant -/

/-- What holds between calls: the object after the results `e` has seen. -/
structure Faithful (st : ExpertStats) (e : Eager) : Prop where
  token : e.lastToken = if st.hasSeenAnyToken then some st.lastSeenTokenId else none
  freq : ∀ key, validKey o key = true →
    materializedFrequency o st (st.states (stateIndex o key)) = e.freq key
  updated : ∀ i, (st.states i).lastFreqUpdateToken ≤ st.globalTokenCounter
  nonneg : ∀ i, 0 ≤ (st.states i).ewmaFrequency
  owned : ∀ i, st.states i ≠ {} → ∃ key, validKey o key = true ∧ stateIndex o key = i

/-- The snapshots of the current token lag behind by `α` for each activation since. -/
structure Lagging (st : ExpertStats) (pending : List ExpertKey) : Prop where
  taken : ∀ t, st.freqSnapshotToken = some t → t ≤ st.globalTokenCounter
  lag : st.freqSnapshotToken = some st.globalTokenCounter → ∀ key, validKey o key = true →
    st.freqSnapshots (key.layerIdx - o.firstMoeLayer).toNat key.expertIdx.toNat
        + o.ewmaAlpha * pending.count key =
      materializedFrequency o st (st.states (stateIndex o key))
  valid : ∀ key ∈ pending, validKey o key = true

variable {o}

theorem materializedFrequency_nonneg {s : PerExpertState} (h : 0 ≤ s.ewmaFrequency) :
    0 ≤ materializedFrequency o st s :=
  mul_nonneg h (decayFactor_nonneg _)

theorem faithful_init : Faithful o {} {} where
  token := rfl
  freq _ _ := by simp [materializedFrequency]
  updated _ := le_rfl
  nonneg _ := le_rfl
  owned _ h := absurd rfl h

variable {e : Eager}

section

variable (h : Faithful o st e)
include h

theorem newToken_eq (t : UInt64) : newToken st t = !decide (e.lastToken = some t) := by
  rw [h.token, newToken]
  cases st.hasSeenAnyToken with
  | false => simp
  | true =>
    rcases eq_or_ne t st.lastSeenTokenId with ht | ht
    · simp [ht]
    · simp [ht, ht.symm]

theorem Faithful.advance (t : UInt64) : Faithful o (advance st t) (e.begin o t) where
  token := by
    have hnew := newToken_eq h t
    unfold ExpertStats.advance Eager.begin
    unfold newToken at hnew
    rw [hnew]
    by_cases ht : e.lastToken = some t
    · simp [ht, ← h.token]
    · simp [ht]
  freq key hkey := by
    rw [advance_states, materializedFrequency_advance t (h.updated _), h.freq key hkey,
      newToken_eq h t, Eager.begin]
    by_cases ht : e.lastToken = some t <;> simp [ht]
  updated i := by
    rw [advance_states, advance_counter]
    have := h.updated i
    split <;> omega
  nonneg i := by rw [advance_states]; exact h.nonneg i
  owned i := by rw [advance_states]; exact h.owned i

theorem Faithful.activate (act : ExpertActivation) :
    Faithful o (activate o st act) (e.activate o act) where
  token := by
    have : (ExpertStats.activate o st act).hasSeenAnyToken = st.hasSeenAnyToken ∧
        (ExpertStats.activate o st act).lastSeenTokenId = st.lastSeenTokenId := by
      unfold ExpertStats.activate
      split <;> exact ⟨rfl, rfl⟩
    rw [this.1, this.2, ← h.token]
    rfl
  freq key hkey := by
    rcases eq_or_ne key act.key with rfl | hne
    · rw [materializedFrequency_activate_self hkey, h.freq _ hkey]
      simp [Eager.activate]
    · rw [materializedFrequency_activate_of_ne fun hact heq => hne (stateIndex_inj hkey hact heq),
        h.freq key hkey]
      simp [Eager.activate, hne]
  updated i := by
    rw [activate_counter]
    cases hact : validKey o act.key with
    | false => rw [activate_of_invalid hact]; exact h.updated i
    | true =>
      rw [activate_states hact, Function.update_apply]
      split
      · exact le_rfl
      · exact h.updated i
  nonneg i := by
    cases hact : validKey o act.key with
    | false => rw [activate_of_invalid hact]; exact h.nonneg i
    | true =>
      rw [activate_states hact, Function.update_apply]
      split
      · exact add_nonneg (mul_nonneg (h.nonneg _) (decayFactor_nonneg _)) o.alpha_nonneg
      · exact h.nonneg i
  owned i := by
    cases hact : validKey o act.key with
    | false => rw [activate_of_invalid hact]; exact h.owned i
    | true =>
      rw [activate_states hact, Function.update_apply]
      split
      · next hi => exact fun _ => ⟨act.key, hact, hi.symm⟩
      · exact h.owned i

theorem Faithful.foldl_activate (acts : List ExpertActivation) :
    Faithful o (acts.foldl (ExpertStats.activate o) st) (acts.foldl (Eager.activate o) e) := by
  induction acts generalizing st e with
  | nil => exact h
  | cons act acts ih => exact ih (h.activate act)

theorem Faithful.process (results : List GatingResult) :
    Faithful o (results.foldl (ExpertStats.process o) st) (results.foldl (Eager.process o) e) := by
  induction results generalizing st e with
  | nil => exact h
  | cons r results ih => exact ih ((h.advance r.tokenId).foldl_activate r.activations)

theorem Faithful.recomputeMaxima : Faithful o (recomputeMaxima o st) e :=
  { h with }

theorem Faithful.update (completed : List GatingResult) :
    Faithful o (st.update o completed) (completed.foldl (Eager.process o) e) := by
  rw [update_eq]
  split
  · exact (h.process completed).recomputeMaxima
  · exact h.process completed

theorem Faithful.frequencyVector (layerIdx : UInt32) :
    Faithful o (st.frequencyVector o layerIdx).2 e := by
  rw [frequencyVector_snd]
  split
  · unfold ensureFreqSnapshotsFresh
    split
    · exact h
    · exact { h with }
  · exact h

end

/-! ### The lag of the snapshots -/

variable {pending : List ExpertKey}

section

variable (h : Lagging o st pending)
include h

theorem Lagging.advance (t : UInt64) : Lagging o (advance st t) pending := by
  have hcases : (ExpertStats.advance st t).globalTokenCounter = st.globalTokenCounter + 1 ∧
      (ExpertStats.advance st t).freqSnapshotToken = st.freqSnapshotToken ∨
      ExpertStats.advance st t = st := by
    unfold ExpertStats.advance
    split
    · exact .inl ⟨rfl, rfl⟩
    · exact .inr rfl
  rcases hcases with ⟨hcount, hsnap⟩ | heq
  · -- the counter has moved on, so no snapshots are those of the current token
    refine ⟨fun u hu => ?_, fun hcur => ?_, h.valid⟩
    · rw [hsnap] at hu
      have := h.taken u hu
      omega
    · rw [hsnap] at hcur
      have := h.taken _ hcur
      omega
  · rw [heq]
    exact h

theorem Lagging.activate (act : ExpertActivation) : Lagging o (activate o st act)
      (pending ++ [act.key].filter (validKey o)) := by
  have hsnap : (ExpertStats.activate o st act).freqSnapshotToken = st.freqSnapshotToken ∧
      (ExpertStats.activate o st act).freqSnapshots = st.freqSnapshots := by
    unfold ExpertStats.activate
    split <;> exact ⟨rfl, rfl⟩
  refine ⟨fun t ht => ?_, fun hcur key hkey => ?_, fun key hmem => ?_⟩
  · rw [activate_counter]
    exact h.taken t (hsnap.1 ▸ ht)
  · rw [hsnap.1, activate_counter] at hcur
    have hlag := h.lag hcur key hkey
    rw [hsnap.2, count_append]
    rcases eq_or_ne key act.key with rfl | hne
    · rw [materializedFrequency_activate_self hkey, ← hlag]
      simp [hkey]
      ring
    · have hzero : ([act.key].filter (validKey o)).count key = 0 :=
        count_eq_zero.2 fun hmem => hne (by simpa using (mem_filter.1 hmem).1)
      rw [materializedFrequency_activate_of_ne fun hact heq => hne (stateIndex_inj hkey hact heq),
        ← hlag, hzero, Nat.add_zero]
  · rcases mem_append.1 hmem with hmem | hmem
    · exact h.valid key hmem
    · exact (mem_filter.1 hmem).2

theorem Lagging.foldl_activate (acts : List ExpertActivation) :
    Lagging o (acts.foldl (ExpertStats.activate o) st)
      (pending ++ (acts.map ExpertActivation.key).filter (validKey o)) := by
  induction acts generalizing st pending with
  | nil => simpa using h
  | cons act acts ih =>
    have := ih (h.activate act)
    rw [append_assoc, ← filter_append] at this
    simpa using this

theorem Lagging.process (results : List GatingResult) :
    Lagging o (results.foldl (ExpertStats.process o) st)
      (pending ++ results.flatMap (activatedKeys o)) := by
  induction results generalizing st pending with
  | nil => simpa using h
  | cons r results ih =>
    have := ih ((h.advance r.tokenId).foldl_activate r.activations)
    rw [append_assoc] at this
    exact this

theorem Lagging.update (completed : List GatingResult) :
    Lagging o (st.update o completed) (pending ++ completed.flatMap (activatedKeys o)) := by
  have hp := h.process completed
  rw [update_eq]
  split
  · exact { hp with }
  · exact hp

end

variable {r : Recorded}

theorem Lagging.frequencyVector (h : Lagging o r.stats r.pending) (layerIdx : UInt32) :
    Lagging o (r.perform o (.frequencyVector layerIdx)).stats
      (r.perform o (.frequencyVector layerIdx)).pending := by
  simp only [Recorded.perform, frequencyVector_snd]
  cases htake : takesSnapshots o r.stats layerIdx with
  | false => exact h
  | true =>
    simp only [takesSnapshots, Bool.and_eq_true, bne_iff_ne] at htake
    simp only [ensureFreqSnapshotsFresh_of_ne htake.2]
    exact ⟨fun t ht => (Option.some.inj ht) ▸ le_rfl,
      fun _ key _ => by simp [materializedFrequency, stateIndex], by simp⟩

theorem record_append_singleton (calls : List Call) (c : Call) :
    record o (calls ++ [c]) = (record o calls).perform o c := by
  simp [record]

theorem record_faithful (calls : List Call) :
    Faithful o (record o calls).stats ((calls.flatMap Call.results).foldl (Eager.process o) {}) ∧
      Lagging o (record o calls).stats (record o calls).pending := by
  induction calls using reverseRecOn with
  | nil => exact ⟨faithful_init, by simp [record], by simp [record], by simp [record]⟩
  | append_singleton calls c ih =>
    obtain ⟨hf, hl⟩ := ih
    rw [record_append_singleton]
    cases c with
    | update completed =>
      simpa [Call.results, Recorded.perform] using ⟨hf.update completed, hl.update completed⟩
    | frequencyVector layerIdx =>
      exact ⟨by simpa [Call.results, Recorded.perform] using hf.frequencyVector layerIdx,
        hl.frequencyVector layerIdx⟩

/-! ### The maxima -/

variable {f : ℕ → ℚ}

theorem foldl_raise (l : List ℕ) (m : ℚ) : m ≤ l.foldl (fun m i => if f i > m then f i else m) m ∧
      (∀ i ∈ l, f i ≤ l.foldl (fun m i => if f i > m then f i else m) m) ∧
      (l.foldl (fun m i => if f i > m then f i else m) m = m ∨
        ∃ i ∈ l, f i = l.foldl (fun m i => if f i > m then f i else m) m) := by
  induction l generalizing m with
  | nil => simp
  | cons j l ih =>
    obtain ⟨hle, hall, hor⟩ := ih (if f j > m then f j else m)
    rw [foldl_cons]
    have hj : f j ≤ (if f j > m then f j else m) ∧ m ≤ (if f j > m then f j else m) := by
      split
      · next hlt => exact ⟨le_rfl, le_of_lt hlt⟩
      · next hge => exact ⟨not_lt.1 hge, le_rfl⟩
    refine ⟨hj.2.trans hle, fun i hi => ?_, ?_⟩
    · rcases mem_cons.1 hi with rfl | hi
      · exact hj.1.trans hle
      · exact hall i hi
    · rcases hor with hor | ⟨i, hi, hor⟩
      · rw [hor]
        split
        · exact .inr ⟨j, mem_cons_self, rfl⟩
        · exact .inl rfl
      · exact .inr ⟨i, mem_cons_of_mem _ hi, hor⟩

theorem recomputeMaxima_fst (st : ExpertStats) : (recomputeMaxima o st).maxFrequency =
    (range o.total).foldl (fun m i => if materializedFrequency o st (st.states i) > m then
      materializedFrequency o st (st.states i) else m) 0 := by
  have : ∀ (l : List ℕ) (m : ℚ × ℚ), (l.foldl (raiseMaxima o st) m).1 =
      l.foldl (fun m i => if materializedFrequency o st (st.states i) > m then
        materializedFrequency o st (st.states i) else m) m.1 := by
    intro l
    induction l with
    | nil => exact fun m => rfl
    | cons i l ih => exact fun m => ih _
  exact this _ _

theorem recomputeMaxima_snd (st : ExpertStats) : (recomputeMaxima o st).maxRoutingWeight =
    (range o.total).foldl (fun m i => if (st.states i).ewmaRoutingWeight > m then
      (st.states i).ewmaRoutingWeight else m) 0 := by
  have : ∀ (l : List ℕ) (m : ℚ × ℚ), (l.foldl (raiseMaxima o st) m).2 =
      l.foldl (fun m i => if (st.states i).ewmaRoutingWeight > m then
        (st.states i).ewmaRoutingWeight else m) m.2 := by
    intro l
    induction l with
    | nil => exact fun m => rfl
    | cons i l ih => exact fun m => ih _
  exact this _ _

theorem peak_of_nonzero {n : ℕ} (hf : ∀ i, 0 ≤ f i) (hne : ∃ i < n, f i ≠ 0) : ∃ i < n, 0 < f i ∧
      f i = (range n).foldl (fun m i => if f i > m then f i else m) 0 := by
  obtain ⟨i, hi, hne⟩ := hne
  obtain ⟨-, hall, hor⟩ := foldl_raise (f := f) (range n) 0
  have hpos : 0 < f i := lt_of_le_of_ne (hf i) hne.symm
  have hmax := hall i (mem_range.2 hi)
  rcases hor with hor | ⟨j, hj, hor⟩
  · exact absurd (hor ▸ hmax) (not_le.2 hpos)
  · exact ⟨j, mem_range.1 hj, hor ▸ hpos.trans_le hmax, hor⟩

theorem frequency_mem (h : Faithful o st e) (key : ExpertKey) :
    frequency o st key ∈ Set.Icc 0 1 := by
  unfold frequency
  split
  · exact ⟨le_rfl, zero_le_one⟩
  next hcond =>
  simp only [Bool.or_eq_true, decide_eq_true_eq, not_or, not_le] at hcond
  exact ⟨le_min zero_le_one (div_nonneg (materializedFrequency_nonneg (h.nonneg _))
    hcond.2.le), min_le_left _ _⟩

def WeightsNonneg (st : ExpertStats) : Prop := ∀ i, 0 ≤ (st.states i).ewmaRoutingWeight

theorem routingWeight_mem (h : WeightsNonneg st) (key : ExpertKey) :
    routingWeight o st key ∈ Set.Icc 0 1 := by
  unfold routingWeight
  split
  · exact ⟨le_rfl, zero_le_one⟩
  next hcond =>
  simp only [Bool.or_eq_true, decide_eq_true_eq, not_or, not_le] at hcond
  exact ⟨le_min zero_le_one (div_nonneg (h _) hcond.2.le), min_le_left _ _⟩

/-- No routing weight that a call feeds is negative. -/
def Call.Nonneg (c : Call) : Prop :=
  ∀ r ∈ c.results, ∀ act ∈ r.activations, 0 ≤ act.routingWeight

theorem WeightsNonneg.activate (h : WeightsNonneg st) {act : ExpertActivation}
    (hact : 0 ≤ act.routingWeight) : WeightsNonneg (activate o st act) := by
  intro i
  cases hkey : validKey o act.key with
  | false => rw [activate_of_invalid hkey]; exact h i
  | true =>
    rw [activate_states hkey, Function.update_apply]
    split
    · exact add_nonneg (mul_nonneg (sub_nonneg.2 o.alpha_le_one) (h _))
        (mul_nonneg o.alpha_nonneg hact)
    · exact h i

theorem WeightsNonneg.process (h : WeightsNonneg st) {results : List GatingResult}
    (hr : ∀ r ∈ results, ∀ act ∈ r.activations,
      0 ≤ act.routingWeight) : WeightsNonneg (results.foldl (process o) st) := by
  have hacts : ∀ (acts : List ExpertActivation) (st : ExpertStats), WeightsNonneg st →
      (∀ act ∈ acts, 0 ≤ act.routingWeight) →
      WeightsNonneg (acts.foldl (ExpertStats.activate o) st) := by
    intro acts
    induction acts with
    | nil => exact fun st h _ => h
    | cons act acts ih =>
      exact fun st h ha => ih _ (h.activate (ha act mem_cons_self))
        fun a hm => ha a (mem_cons_of_mem _ hm)
  induction results generalizing st with
  | nil => exact h
  | cons r results ih =>
    refine ih (hacts _ _ (fun i => ?_) (hr r mem_cons_self))
      fun r' hm => hr r' (mem_cons_of_mem _ hm)
    rw [advance_states]
    exact h i

theorem record_weightsNonneg (calls : List Call) (hw : ∀ c ∈ calls, c.Nonneg) :
    WeightsNonneg (record o calls).stats := by
  induction calls using reverseRecOn with
  | nil => exact fun i => le_rfl
  | append_singleton calls c ih =>
    have hpre := ih fun c' hm => hw c' (mem_append_left _ hm)
    have hc := hw c (by simp)
    rw [record_append_singleton]
    cases c with
    | update completed =>
      have hp : WeightsNonneg (completed.foldl (process o) (record o calls).stats) :=
        hpre.process hc
      simp only [Recorded.perform, update_eq]
      split <;> exact hp
    | frequencyVector layerIdx =>
      simp only [Recorded.perform, frequencyVector_snd, ensureFreqSnapshotsFresh]
      split
      · split <;> exact hpre
      · exact hpre

/-! ### Lazy and eager -/

def JustRecomputed (o : Options) (calls : List Call) : Prop :=
  ∃ before completed, calls = before ++ [.update completed] ∧
    recomputeDue (completed.foldl (process o) (record o before).stats) = true

/-- What the queries answer after the calls, but for `frequency_vector`. -/
structure AnswersRight (o : Options) (calls : List Call) : Prop where
  raw : ∀ key, rawFrequency o (record o calls).stats key =
    if validKey o key then eagerFrequency o (calls.flatMap Call.results) key else 0
  batching : ∀ calls', calls'.flatMap Call.results = calls.flatMap Call.results → ∀ key,
    rawFrequency o (record o calls').stats key = rawFrequency o (record o calls).stats key
  frequency_mem : ∀ key, frequency o (record o calls).stats key ∈ Set.Icc 0 1
  weight_mem : ∀ key, routingWeight o (record o calls).stats key ∈ Set.Icc 0 1
  frequency_peak : JustRecomputed o calls →
    (∃ i < o.total, materializedFrequency o (record o calls).stats
      ((record o calls).stats.states i) ≠ 0) →
    ∃ key, validKey o key = true ∧ frequency o (record o calls).stats key = 1
  weight_peak : JustRecomputed o calls →
    (∃ i < o.total, ((record o calls).stats.states i).ewmaRoutingWeight ≠ 0) →
    ∃ key, validKey o key = true ∧ routingWeight o (record o calls).stats key = 1

/-- `frequency_vector` answers with `raw_frequency` for every expert of the layer. -/
def VectorCurrent (o : Options) (r : Recorded) (layerIdx : UInt32) : Prop :=
  ∀ key, validKey o key = true → key.layerIdx = layerIdx →
    (frequencyVector o r.stats layerIdx).1[key.expertIdx.toNat]? = some (rawFrequency o r.stats key)

/-- No expert of the layer has been activated since the snapshots of this token were taken. -/
def SnapshotsCurrent (o : Options) (r : Recorded) (layerIdx : UInt32) : Prop :=
  o.ewmaAlpha = 0 ∨ r.stats.freqSnapshotToken ≠ some r.stats.globalTokenCounter ∨
    ∀ key ∈ r.pending, key.layerIdx ≠ layerIdx

theorem rawFrequency_record (calls : List Call) (key : ExpertKey) :
    rawFrequency o (record o calls).stats key =
      if validKey o key then eagerFrequency o (calls.flatMap Call.results) key else 0 := by
  unfold rawFrequency
  cases hkey : validKey o key with
  | false => rfl
  | true => exact (record_faithful calls).1.freq key hkey

variable {key : ExpertKey}

theorem getElem?_frequencyVector (hkey : validKey o key = true) :
    (frequencyVector o st key.layerIdx).1[key.expertIdx.toNat]? =
      some ((ensureFreqSnapshotsFresh o st).freqSnapshots
        (key.layerIdx - o.firstMoeLayer).toNat key.expertIdx.toNat) := by
  obtain ⟨hoff, hlt⟩ := offset_of_valid hkey
  obtain ⟨-, -, he⟩ := validKey_iff.1 hkey
  have hin : ¬ key.layerIdx - o.firstMoeLayer ≥ o.numMoeLayers := by
    rw [UInt32.not_le, UInt32.lt_iff_toNat_lt]
    omega
  simp [frequencyVector, hin, he]

/-- **By how much the snapshots lag**: `α` for every activation since they were taken. -/
theorem snapshots_lag (h : Lagging o r.stats r.pending) (hkey : validKey o key = true) :
    (ensureFreqSnapshotsFresh o r.stats).freqSnapshots
        (key.layerIdx - o.firstMoeLayer).toNat key.expertIdx.toNat =
      rawFrequency o r.stats key -
        if r.stats.freqSnapshotToken = some r.stats.globalTokenCounter then
          o.ewmaAlpha * r.pending.count key else 0 := by
  simp only [rawFrequency, hkey, Bool.not_true, Bool.false_eq_true, if_false]
  by_cases hcur : r.stats.freqSnapshotToken = some r.stats.globalTokenCounter
  · rw [ensureFreqSnapshotsFresh, if_pos hcur, if_pos hcur, ← h.lag hcur key hkey]
    ring
  · rw [ensureFreqSnapshotsFresh_of_ne hcur, if_neg hcur, sub_zero]
    rfl

theorem vectorCurrent_iff (h : Lagging o r.stats r.pending) (layerIdx : UInt32) :
    VectorCurrent o r layerIdx ↔ SnapshotsCurrent o r layerIdx := by
  have hentry : ∀ key, validKey o key = true → key.layerIdx = layerIdx →
      ((frequencyVector o r.stats layerIdx).1[key.expertIdx.toNat]? =
          some (rawFrequency o r.stats key) ↔
        (r.stats.freqSnapshotToken = some r.stats.globalTokenCounter →
          o.ewmaAlpha = 0 ∨ key ∉ r.pending)) := by
    rintro key hkey rfl
    rw [getElem?_frequencyVector hkey, snapshots_lag h hkey]
    by_cases hcur : r.stats.freqSnapshotToken = some r.stats.globalTokenCounter
    · simp [hcur, count_eq_zero]
    · simp [hcur]
  constructor
  · intro hv
    by_contra hs
    simp only [SnapshotsCurrent, not_or, not_not, not_forall] at hs
    obtain ⟨hα, hcur, key, hmem, hl⟩ := hs
    have hkey := h.valid key hmem
    rcases (hentry key hkey hl).1 (hv key hkey hl) hcur with h0 | hnot
    · exact hα h0
    · exact hnot hmem
  · intro hs key hkey hl
    refine (hentry key hkey hl).2 fun hcur => ?_
    rcases hs with h0 | hne | hpend
    · exact .inl h0
    · exact absurd hcur hne
    · exact .inr fun hmem => hpend key hmem hl

variable {calls : List Call}

theorem justRecomputed_stats (h : JustRecomputed o calls) :
    ∃ st, (record o calls).stats = recomputeMaxima o st := by
  obtain ⟨before, completed, rfl, hdue⟩ := h
  refine ⟨completed.foldl (process o) (record o before).stats, ?_⟩
  rw [record_append_singleton]
  simp only [Recorded.perform, update_eq, hdue, if_true]

theorem frequency_peak (hrec : JustRecomputed o calls)
    (hne : ∃ i < o.total, materializedFrequency o (record o calls).stats
      ((record o calls).stats.states i) ≠ 0) :
    ∃ key, validKey o key = true ∧ frequency o (record o calls).stats key = 1 := by
  obtain ⟨hf, -⟩ := record_faithful (o := o) calls
  obtain ⟨st, hst⟩ := justRecomputed_stats hrec
  rw [hst] at hf hne ⊢
  obtain ⟨i, -, hpos, hmax⟩ := peak_of_nonzero
    (fun i => materializedFrequency_nonneg (o := o) (hf.nonneg i)) hne
  obtain ⟨key, hkey, rfl⟩ := hf.owned i fun h0 => hpos.ne' (by simp [h0, materializedFrequency])
  have hM : (recomputeMaxima o st).maxFrequency = materializedFrequency o (recomputeMaxima o st)
      ((recomputeMaxima o st).states (stateIndex o key)) := (recomputeMaxima_fst st).trans hmax.symm
  refine ⟨key, hkey, ?_⟩
  rw [frequency, hM, div_self hpos.ne', min_self, if_neg (by simp [hkey, hpos])]

theorem weight_peak (hw : ∀ c ∈ calls, c.Nonneg) (hrec : JustRecomputed o calls)
    (hne : ∃ i < o.total, ((record o calls).stats.states i).ewmaRoutingWeight ≠ 0) :
    ∃ key, validKey o key = true ∧ routingWeight o (record o calls).stats key = 1 := by
  obtain ⟨hf, -⟩ := record_faithful (o := o) calls
  have hnonneg := record_weightsNonneg (o := o) calls hw
  obtain ⟨st, hst⟩ := justRecomputed_stats hrec
  rw [hst] at hf hne hnonneg ⊢
  obtain ⟨i, -, hpos, hmax⟩ := peak_of_nonzero hnonneg hne
  obtain ⟨key, hkey, rfl⟩ := hf.owned i fun h0 => hpos.ne' (by simp [h0])
  have hM : (recomputeMaxima o st).maxRoutingWeight =
      ((recomputeMaxima o st).states (stateIndex o key)).ewmaRoutingWeight :=
    (recomputeMaxima_snd st).trans hmax.symm
  refine ⟨key, hkey, ?_⟩
  rw [routingWeight, hM, div_self hpos.ne', min_self, if_neg (by simp [hkey, hpos])]

/-- **Lazy statistics equal eager ones.**  After any calls whose routing weights are not
negative, every answer is the eager one, and `frequency_vector` agrees with `raw_frequency` on a
layer exactly if no expert of the layer was activated since the snapshots of this token were
taken. -/
theorem lazy_stats_exact (o : Options) (calls : List Call) (hw : ∀ c ∈ calls, c.Nonneg) :
    AnswersRight o calls ∧ ∀ layerIdx,
      VectorCurrent o (record o calls) layerIdx ↔ SnapshotsCurrent o (record o calls) layerIdx where
  left :=
    { raw := rawFrequency_record calls
      batching := fun calls' h key => by rw [rawFrequency_record, rawFrequency_record, h]
      frequency_mem := frequency_mem (record_faithful calls).1
      weight_mem := routingWeight_mem (record_weightsNonneg calls hw)
      frequency_peak := frequency_peak
      weight_peak := weight_peak hw }
  right := vectorCurrent_iff (record_faithful calls).2

/-- Two experts of one layer; the second is activated after the snapshots were taken. -/
def lateActivation : List Call :=
  [.update [⟨1, 3, [⟨⟨3, 0⟩, 1⟩]⟩], .frequencyVector 3, .update [⟨1, 3, [⟨⟨3, 1⟩, 1⟩]⟩]]

def twoExperts : Options where
  ewmaAlpha := 1 / 2
  numMoeLayers := 1
  numExperts := 2
  firstMoeLayer := 3
  maxRecencyTokens := 1024
  alpha_nonneg := one_half_pos.le
  alpha_le_one := by norm_num

theorem lazy_stats_exact_late : AnswersRight twoExperts lateActivation ∧ ∀ layerIdx,
    VectorCurrent twoExperts (record twoExperts lateActivation) layerIdx ↔
      SnapshotsCurrent twoExperts (record twoExperts lateActivation) layerIdx :=
  lazy_stats_exact twoExperts lateActivation (by simp [lateActivation, Call.Nonneg, Call.results])

/-- **Snapshots of the current token miss later activations.** -/
theorem late_activation_missed :
    ¬ VectorCurrent twoExperts (record twoExperts lateActivation) 3 := by
  intro h
  have h1 := h ⟨3, 1⟩ (by decide) rfl
  revert h1
  decide +kernel

end ExpertStats
end LayerStorm.Statistics
