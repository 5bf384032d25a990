import LayerStorm.Daemon.DispatchCompletion

/-!
# Compute completions: exactly once, and in which order

Every command should get its checkpoints in order and then one final completion, every event
it owns should be destroyed once, and the commands of one GPU should be answered in the order
in which they were pushed.  The last point fails as soon as two commands of a GPU finish
between two polls: the walk runs backwards.  A completion is lost when the ring is full, and
the start of a timing that has no end is never destroyed on the normal path.

## Main results

* `compute_completions_delivered` — every run whose polls meet the condition delivers.
* `finals_out_of_order` — two commands of a GPU that finish together are answered in the
  wrong order.
-/

namespace LayerStorm.Daemon

open List
namespace Compute

open Lib

/-! ### The property -/

def PendingCompute.ownedEvents (o : PendingCompute) : List ℕ :=
  o.pipelineCheckpoints.filterMap (·.cudaEvent) ++
    (o.cudaEvent.toList ++ (o.computeTStart.toList ++ o.computeTEnd.toList))

/-- What may follow the first `k` checkpoint completions of a command: after all of them the
data of the checkpoint and the answer; after any of them an error, which may be preceded by
the announcement that the GPU has failed. -/
inductive FinalPart (o : PendingCompute) : ℕ → List Completion → Prop
  | done (t en : ℕ) : FinalPart o o.pipelineCheckpoints.length
      (o.checkpointData.toList.map o.dataCompletion ++
        [PendingCompute.doneCompletion { o with top1Prob := t, entropy := en }])
  | error (k : ℕ) (code : ℤ) {fatal : List Completion}
      (hfatal : fatal = [] ∨ fatal = [o.fatalCompletion code]) :
      FinalPart o k (fatal ++ [o.errorCompletion code])

/-- The completions of an entry that the ring has taken, in order. -/
def writtenOf (id : ℕ) (t : List Effect) : List Completion :=
  (t.filter fun x => x.owner = id ∧ x.accepted = true).filterMap Effect.completion?

/-- Where the command of number `id` stands: it is pending, with a first part of its
checkpoints written and their events destroyed, or it is answered, once, after its
checkpoints, with every event destroyed once. -/
def EntryDelivered (d : Dispatcher) (id : ℕ) (o : PendingCompute) : Prop :=
  (id ∈ d.pending.map Entry.id ∧ ∃ k ≤ o.pipelineCheckpoints.length,
    writtenOf id d.reaper.trail = (o.pipelineCheckpoints.take k).map o.ckptCompletion ∧
    destroyedOf id d.reaper.trail = (o.pipelineCheckpoints.take k).filterMap (·.cudaEvent)) ∨
  (id ∉ d.pending.map Entry.id ∧ ∃ k last, FinalPart o k last ∧
    writtenOf id d.reaper.trail = (o.pipelineCheckpoints.take k).map o.ckptCompletion ++ last ∧
    (destroyedOf id d.reaper.trail).Perm o.ownedEvents)

/-- **Exactly once and in order.** -/
structure Delivered (d : Dispatcher) : Prop where
  /-- No entry is in the list twice. -/
  nodup : (d.pending.map Entry.id).Nodup
  /-- Every command pushed is pending or answered. -/
  entries : ∀ id o, d.pushed[id]? = some o → EntryDelivered d id o
  /-- The commands of one GPU are answered in the order of their pushes. -/
  inOrder : ∀ g, (finalsOn g (d.reaper.trail.filter (·.accepted))).Pairwise (· < ·)

/-! ### The condition -/

/-- `x` stands before `y` in the list: when the two belong to one GPU, the newer one must not
finish before the older one. -/
def InTurn (env : Env) (x y : Entry) : Prop :=
  x.pc.gpuIdx = y.pc.gpuIdx → (x.id < y.id → outcome env y.pc = .notReady) ∧
    (y.id < x.id → outcome env x.pc ≠ .notReady → outcome env y.pc ≠ .notReady)

instance (env : Env) (x y : Entry) : Decidable (InTurn env x y) :=
  inferInstanceAs (Decidable (_ → _))

/-- The condition on an action: a poll finds room in the ring, ready entries whose timing
events come in pairs, and the entries of each GPU in turn. -/
def PollInTurn (d : Dispatcher) : Action → Prop
  | .push _ => True
  | .poll env =>
    (∀ n, env.ringFull n = false) ∧
    (∀ e ∈ d.pending, outcome env e.pc = .ready → e.pc.computeTStart.isSome →
      e.pc.computeTEnd.isSome) ∧
    d.pending.Pairwise (InTurn env)

/-! ### The invariant -/

/-- The command of number `id` has its first `k` checkpoints behind it. -/
def Underway (t : List Effect) (id : ℕ) (o : PendingCompute) (k : ℕ) : Prop :=
  completionsOf id t = (o.pipelineCheckpoints.take k).map o.ckptCompletion ∧
    destroyedOf id t = (o.pipelineCheckpoints.take k).filterMap (·.cudaEvent)

/-- The command of number `id` has been answered. -/
def Answered (t : List Effect) (id : ℕ) (o : PendingCompute) : Prop :=
  ∃ k last, FinalPart o k last ∧
    completionsOf id t = (o.pipelineCheckpoints.take k).map o.ckptCompletion ++ last ∧
    (destroyedOf id t).Perm o.ownedEvents

/-- **The invariant** of the pending entries, in any order, and the trail. -/
structure ReapInv (pushed : List PendingCompute) (r : Reaper) (pending : List Entry) : Prop where
  nodup : (pending.map Entry.id).Nodup
  fresh : ∀ o ∈ pushed, o.Fresh r.numGpus
  live : ∀ e ∈ pending, ∃ o k, pushed[e.id]? = some o ∧ e.pc = o.emitFirst k ∧
    k ≤ o.pipelineCheckpoints.length ∧ Underway r.trail e.id o k
  answered : ∀ id o, pushed[id]? = some o → id ∉ pending.map Entry.id → Answered r.trail id o
  unborn : ∀ id, pushed.length ≤ id → completionsOf id r.trail = [] ∧ destroyedOf id r.trail = []
  accepted : AllAccepted r.trail
  behind : ∀ g, ∀ f ∈ finalsOn g r.trail, f < pushed.length ∧
    ∀ e ∈ pending, e.pc.gpuIdx = g → f < e.id
  sorted : ∀ g, (finalsOn g r.trail).Pairwise (· < ·)

/-! ### One round -/

@[simp] theorem completionsOf_log_examined (i id : ℕ) (r : Reaper) :
    completionsOf i (r.log (.examined id)).trail = completionsOf i r.trail := by
  simp only [completionsOf, Reaper.log]
  by_cases h : id = i <;> simp [h, Effect.owner, Effect.completion?]

@[simp] theorem destroyedOf_log_examined (i id : ℕ) (r : Reaper) :
    destroyedOf i (r.log (.examined id)).trail = destroyedOf i r.trail := by
  simp only [destroyedOf, Reaper.log]
  by_cases h : id = i <;> simp [h, Effect.owner, Effect.destroyed?]

@[simp] theorem finalsOn_log_examined (g id : ℕ) (r : Reaper) :
    finalsOn g (r.log (.examined id)).trail = finalsOn g r.trail := by
  simp [finalsOn, Reaper.log, Effect.finalOn]

theorem AllAccepted.log_examined {r : Reaper} (h : AllAccepted r.trail) (id : ℕ) :
    AllAccepted (r.log (.examined id)).trail := by
  intro x hx
  rcases mem_append.1 hx with hx | hx
  · exact h x hx
  · obtain rfl := mem_singleton.1 hx
    rfl

theorem FinalPart.finals {o : PendingCompute} {k : ℕ} {last : List Completion}
    (h : FinalPart o k last) (g id : ℕ) :
    ((last.filter fun c => c.isFinal ∧ c.gpuIdx = g).map fun _ => id) =
      if o.gpuIdx = g then [id] else [] := by
  cases h with
  | done t en =>
    have hdata : (o.checkpointData.toList.map o.dataCompletion).filter
        (fun c => c.isFinal ∧ c.gpuIdx = g) = [] := by
      cases o.checkpointData <;>
        simp [PendingCompute.dataCompletion, Completion.isFinal]
    rw [filter_append, hdata]
    by_cases hg : o.gpuIdx = g <;>
      simp [hg, PendingCompute.doneCompletion, Completion.isFinal, Completion.gpuIdx]
  | error k code hfatal =>
    by_cases hg : o.gpuIdx = g <;> rcases hfatal with rfl | rfl <;>
      simp [hg, PendingCompute.errorCompletion, PendingCompute.fatalCompletion,
        Completion.isFinal, Completion.gpuIdx]

theorem filter_ckptCompletion (o : PendingCompute) (ckpts : List PipelineCheckpoint) (g : ℕ) :
    (ckpts.map o.ckptCompletion).filter (fun c => c.isFinal ∧ c.gpuIdx = g) = [] := by
  rw [filter_eq_nil_iff]
  intro c hc
  obtain ⟨x, -, rfl⟩ := mem_map.1 hc
  simp [PendingCompute.ckptCompletion, Completion.isFinal]

section Round

variable {env : Env} {r : Reaper} {o : PendingCompute} {k : ℕ}

theorem examine_settled (id : ℕ) (ho : o.Fresh r.numGpus) (hk : k ≤ o.pipelineCheckpoints.length)
    (hout : outcome env (o.emitFirst k) ≠ .notReady)
    (hpair : outcome env (o.emitFirst k) = .ready → o.computeTStart.isSome → o.computeTEnd.isSome) :
    ∃ j last ds, FinalPart o (k + j) last ∧
      ((o.pipelineCheckpoints.take k).filterMap (·.cudaEvent) ++ ds).Perm o.ownedEvents ∧
      (examine env r ⟨id, o.emitFirst k⟩).2 = none ∧
      Adds env id (((o.pipelineCheckpoints.drop k).take j).map o.ckptCompletion ++ last) ds
        (r.log (.examined id)) (examine env r ⟨id, o.emitFirst k⟩).1 := by
  cases hcase : outcome env (o.emitFirst k) with
  | notReady => exact absurd hcase hout
  | ready =>
    obtain ⟨t, en, hnone, hadds⟩ := examine_ready id ho hcase (hpair hcase)
    have hsum : k + (o.pipelineCheckpoints.drop k).length = o.pipelineCheckpoints.length := by
      rw [length_drop]
      omega
    refine ⟨(o.pipelineCheckpoints.drop k).length, _,
      (o.pipelineCheckpoints.drop k).filterMap (·.cudaEvent) ++
        (o.cudaEvent.toList ++ (o.computeTStart.toList ++ o.computeTEnd.toList)),
      hsum ▸ FinalPart.done t en, ?_, hnone, ?_⟩
    · rw [← append_assoc, ← filterMap_append, take_append_drop]
      exact List.Perm.refl _
    · rw [take_length]
      exact hadds
  | error code =>
    obtain ⟨j, fatal, hfatal, hnone, hadds⟩ := examine_error id ho hcase
    refine ⟨j, _, _, FinalPart.error _ code hfatal, ?_, hnone, hadds⟩
    -- the open checkpoints come last here, and before the final event in the list of events
    have hckpts : o.pipelineCheckpoints = o.pipelineCheckpoints.take k ++
        ((o.pipelineCheckpoints.drop k).take j ++ o.pipelineCheckpoints.drop (k + j)) := by
      rw [← drop_drop, take_append_drop, take_append_drop]
    have howned : o.ownedEvents = (o.pipelineCheckpoints.take k).filterMap (·.cudaEvent) ++
          (((o.pipelineCheckpoints.drop k).take j).filterMap (·.cudaEvent) ++
            ((o.pipelineCheckpoints.drop (k + j)).filterMap (·.cudaEvent) ++
              (o.cudaEvent.toList ++ (o.computeTStart.toList ++ o.computeTEnd.toList)))) := by
      conv_lhs => rw [PendingCompute.ownedEvents, hckpts]
      simp only [filterMap_append, append_assoc]
    rw [howned]
    exact List.Perm.append_left _ (List.Perm.append_left _ perm_append_comm)

end Round

/-! ### The invariant is kept -/

section Invariant

variable {pushed : List PendingCompute} {r : Reaper} {pending : List Entry}

theorem ReapInv.perm (h : ReapInv pushed r pending) {pending' : List Entry}
    (hperm : pending.Perm pending') : ReapInv pushed r pending' where
  nodup := (hperm.map Entry.id).nodup_iff.1 h.nodup
  fresh := h.fresh
  live := fun e he => h.live e (hperm.mem_iff.2 he)
  answered := fun id o ho hid =>
    h.answered id o ho fun hmem => hid ((hperm.map Entry.id).mem_iff.1 hmem)
  unborn := h.unborn
  accepted := h.accepted
  behind := fun g f hf =>
    ⟨(h.behind g f hf).1, fun e he => (h.behind g f hf).2 e (hperm.mem_iff.2 he)⟩
  sorted := h.sorted

variable {env : Env} {cs : List Completion} {ds : List ℕ}

theorem Adds.others {id : ℕ} {r' : Reaper} (h : Adds env id cs ds (r.log (.examined id)) r') {i : ℕ}
    (hi : i ≠ id) :
    Compute.completionsOf i r'.trail = Compute.completionsOf i r.trail ∧
      Compute.destroyedOf i r'.trail = Compute.destroyedOf i r.trail := by
  rw [h.completionsOf, h.destroyedOf, if_neg hi, if_neg hi]
  simp

variable {rest : List Entry} {e : Entry}

section

variable (h : ReapInv pushed r (e :: rest))
include h

theorem ReapInv.frame {r' : Reaper} (hadds : Adds env e.id cs ds (r.log (.examined e.id)) r')
    (hfull : ∀ n, env.ringFull n = false) :
    (∀ o ∈ pushed, o.Fresh r'.numGpus) ∧
    (∀ x ∈ rest, ∃ o k, pushed[x.id]? = some o ∧ x.pc = o.emitFirst k ∧
      k ≤ o.pipelineCheckpoints.length ∧ Underway r'.trail x.id o k) ∧
    (∀ id o, pushed[id]? = some o → id ≠ e.id → id ∉ rest.map Entry.id → Answered r'.trail id o) ∧
    (∀ id, pushed.length ≤ id → completionsOf id r'.trail = [] ∧ destroyedOf id r'.trail = []) ∧
    AllAccepted r'.trail := by
  have hnum : r'.numGpus = r.numGpus := hadds.numGpus
  have hrest : ∀ x ∈ rest, x.id ≠ e.id := by
    intro x hx heq
    have hnodup := List.nodup_cons.1 (List.map_cons ▸ h.nodup)
    exact hnodup.1 (heq ▸ List.mem_map_of_mem hx)
  refine ⟨fun o ho => hnum ▸ h.fresh o ho, ?_, ?_, ?_,
    hadds.allAccepted hfull (h.accepted.log_examined e.id)⟩
  · intro x hx
    obtain ⟨o, k, hpush, hpc, hk, hunder⟩ := h.live x (List.mem_cons_of_mem _ hx)
    obtain ⟨hc, hd⟩ := hadds.others (hrest x hx)
    exact ⟨o, k, hpush, hpc, hk, hc.trans hunder.1, hd.trans hunder.2⟩
  · intro id o ho hid hmem
    obtain ⟨k, last, hlast, hcs, hds⟩ := h.answered id o ho (by simp [hid, hmem])
    obtain ⟨hc, hd⟩ := hadds.others hid
    exact ⟨k, last, hlast, hc.trans hcs, hd.symm ▸ hds⟩
  · intro id hid
    have hne : id ≠ e.id := by
      obtain ⟨o, k, hpush, -⟩ := h.live e List.mem_cons_self
      have := (List.getElem?_eq_some_iff.1 hpush).1
      omega
    obtain ⟨hc, hd⟩ := hadds.others hne
    exact ⟨hc.trans (h.unborn id hid).1, hd.trans (h.unborn id hid).2⟩

/-- **One round keeps the invariant**, if an entry that finishes is older than the other
pending entries of its GPU. -/
theorem ReapInv.examine (hfull : ∀ n, env.ringFull n = false)
    (hpair : outcome env e.pc = .ready → e.pc.computeTStart.isSome → e.pc.computeTEnd.isSome)
    (hturn : outcome env e.pc ≠ .notReady → ∀ x ∈ rest, x.pc.gpuIdx = e.pc.gpuIdx → e.id < x.id) :
    ReapInv pushed (examine env r e).1 ((examine env r e).2.toList ++ rest) := by
  obtain ⟨o, k, hpush, hpc, hk, hunder⟩ := h.live e mem_cons_self
  have ho : o.Fresh r.numGpus := h.fresh o (mem_of_getElem? hpush)
  obtain ⟨id, pc⟩ := e
  obtain rfl : pc = o.emitFirst k := hpc
  have hnodup := nodup_cons.1 (map_cons ▸ h.nodup)
  -- an entry that is not ready may have sent checkpoints; one that is leaves the list
  by_cases hout : outcome env (o.emitFirst k) = .notReady
  · obtain ⟨j, hj, hsome, hadds⟩ := examine_waiting id ho hout
    obtain ⟨hfresh, hlive, hans, hunborn, hacc⟩ := h.frame hadds hfull
    have hfinals : ∀ g, finalsOn g (Compute.examine env r ⟨id, o.emitFirst k⟩).1.trail =
        finalsOn g r.trail := by
      intro g
      rw [hadds.finalsOn, filter_ckptCompletion]
      simp
    rw [hsome]
    refine ⟨h.nodup, hfresh, ?live, ?answered, hunborn, hacc, ?behind, ?sorted⟩
    case live =>
      intro x hx
      rcases mem_cons.1 hx with rfl | hx
      · refine ⟨o, k + j, hpush, rfl, ?_, ?_, ?_⟩
        · rw [length_drop] at hj
          omega
        · rw [hadds.completionsOf, if_pos rfl, completionsOf_log_examined, hunder.1,
            take_add, map_append]
        · rw [hadds.destroyedOf, if_pos rfl, destroyedOf_log_examined, hunder.2,
            take_add, filterMap_append]
      · exact hlive x hx
    case answered =>
      intro i oi hi hmem
      have hmem' : i ≠ id ∧ i ∉ rest.map Entry.id := by simpa using hmem
      exact hans i oi hi hmem'.1 hmem'.2
    case behind =>
      intro g f hf
      rw [hfinals] at hf
      refine ⟨(h.behind g f hf).1, ?_⟩
      intro x hx hg
      rcases mem_cons.1 hx with rfl | hx
      · exact (h.behind g f hf).2 ⟨id, o.emitFirst k⟩ mem_cons_self hg
      · exact (h.behind g f hf).2 x (mem_cons_of_mem _ hx) hg
    case sorted =>
      intro g
      rw [hfinals]
      exact h.sorted g
  · obtain ⟨j, last, ds, hlast, hds, hnone, hadds⟩ := examine_settled id ho hk hout hpair
    obtain ⟨hfresh, hlive, hans, hunborn, hacc⟩ := h.frame hadds hfull
    have hfinals : ∀ g, finalsOn g (Compute.examine env r ⟨id, o.emitFirst k⟩).1.trail =
        finalsOn g r.trail ++ if o.gpuIdx = g then [id] else [] := by
      intro g
      rw [hadds.finalsOn, filter_append, filter_ckptCompletion, nil_append,
        hlast.finals, finalsOn_log_examined]
    have hid : id < pushed.length := (List.getElem?_eq_some_iff.1 hpush).1
    rw [hnone]
    refine ⟨hnodup.2, hfresh, hlive, ?answered, hunborn, hacc, ?behind, ?sorted⟩
    case answered =>
      intro i oi hi hmem
      by_cases hii : i = id
      · subst hii
        obtain rfl : o = oi := Option.some.inj (hpush.symm.trans hi)
        refine ⟨k + j, last, hlast, ?_, ?_⟩
        · rw [hadds.completionsOf, if_pos rfl, completionsOf_log_examined, hunder.1,
            take_add, map_append, append_assoc]
        · rw [hadds.destroyedOf, if_pos rfl, destroyedOf_log_examined, hunder.2]
          exact hds
      · exact hans i oi hi hii hmem
    case behind =>
      intro g f hf
      rw [hfinals] at hf
      rcases mem_append.1 hf with hf | hf
      · exact ⟨(h.behind g f hf).1, fun x hx => (h.behind g f hf).2 x (mem_cons_of_mem _ hx)⟩
      split at hf
      next hg =>
        obtain rfl := mem_singleton.1 hf
        exact ⟨hid, fun x hx hxg => hturn hout x hx (hxg.trans hg.symm)⟩
      next => exact absurd hf not_mem_nil
    case sorted =>
      intro g
      rw [hfinals]
      split
      next hg =>
        refine pairwise_append.2 ⟨h.sorted g, pairwise_singleton _ _, ?_⟩
        intro f hf x hx
        obtain rfl := mem_singleton.1 hx
        exact (h.behind g f hf).2 ⟨x, o.emitFirst k⟩ mem_cons_self hg
      next => simpa using h.sorted g

theorem ReapInv.examine_visit
    (hpair : outcome env e.pc = .ready → e.pc.computeTStart.isSome → e.pc.computeTEnd.isSome) :
    examinedIn (Compute.examine env r e).1.trail = examinedIn r.trail ++ [e.id] ∧
    ((outcome env e.pc ≠ .notReady ∧ (Compute.examine env r e).2 = none) ∨
      (outcome env e.pc = .notReady ∧ ∃ x, (Compute.examine env r e).2 = some x ∧
        x.id = e.id ∧ x.pc.gpuIdx = e.pc.gpuIdx)) := by
  obtain ⟨o, k, hpush, hpc, hk, -⟩ := h.live e mem_cons_self
  have ho : o.Fresh r.numGpus := h.fresh o (mem_of_getElem? hpush)
  obtain ⟨id, pc⟩ := e
  obtain rfl : pc = o.emitFirst k := hpc
  have hlog : examinedIn (r.log (.examined id)).trail = examinedIn r.trail ++ [id] := by
    simp [examinedIn, Reaper.log, Effect.examined?]
  by_cases hout : outcome env (o.emitFirst k) = .notReady
  · obtain ⟨j, -, hsome, hadds⟩ := examine_waiting id ho hout
    exact ⟨hadds.examinedIn.trans hlog, .inr ⟨hout, _, hsome, rfl, rfl⟩⟩
  · obtain ⟨j, last, ds, -, -, hnone, hadds⟩ := examine_settled id ho hk hout hpair
    exact ⟨hadds.examinedIn.trans hlog, .inl ⟨hout, hnone⟩⟩

end

/-! ### The walk -/

/-- **The invariant of the walk** over the list `all`: the entries `l` are still to be
visited, and the entries `kept` are the visited ones that wait. -/
structure WalkInv (pushed : List PendingCompute) (env : Env) (before : List ℕ) (all : List Entry)
    (r : Reaper) (l kept : List Entry) : Prop where
  inv : ReapInv pushed r (l ++ kept)
  paired : ∀ e ∈ l, outcome env e.pc = .ready → e.pc.computeTStart.isSome → e.pc.computeTEnd.isSome
  inTurn : l.Pairwise (InTurn env)
  newer : ∀ b ∈ l, outcome env b.pc ≠ .notReady → ∀ x ∈ kept, x.pc.gpuIdx = b.pc.gpuIdx →
    b.id < x.id
  visited : ∃ vis, all = l ++ vis ∧ examinedIn r.trail = before ++ (vis.map Entry.id).reverse ∧
    (kept.map Entry.id).Perm ((vis.filter (outcome env ·.pc = .notReady)).map Entry.id)

theorem WalkInv.round {before : List ℕ} {all l kept : List Entry} {a : Entry}
    (hfull : ∀ n, env.ringFull n = false) (h : WalkInv pushed env before all r (l ++ [a]) kept) :
    WalkInv pushed env before all (Compute.examine env r a).1 l
      ((Compute.examine env r a).2.toList ++ kept) := by
  have hperm : (l ++ [a] ++ kept).Perm (a :: (l ++ kept)) := by
    rw [append_assoc]
    exact perm_middle
  have hinv := h.inv.perm hperm
  have ha : a ∈ l ++ [a] := mem_append_right _ mem_cons_self
  have hids : ∀ x ∈ l ++ kept, x.id ≠ a.id := by
    intro x hx heq
    have hnodup := nodup_cons.1 (map_cons ▸ hinv.nodup)
    exact hnodup.1 (heq ▸ mem_map_of_mem hx)
  have hbefore : ∀ x ∈ l, InTurn env x a := by
    intro x hx
    exact (pairwise_append.1 h.inTurn).2.2 x hx a mem_cons_self
  obtain ⟨hexam, hfate⟩ := hinv.examine_visit (h.paired a ha)
  refine ⟨?_, ?_, ?_, ?_, ?_⟩
  · -- an entry that finishes is older than the others of its GPU
    have hnext := hinv.examine hfull (h.paired a ha) fun hout x hx hg => by
      rcases mem_append.1 hx with hl | hkept
      · have hnot : ¬ x.id < a.id := fun hlt => hout ((hbefore x hl hg).1 hlt)
        have hne := hids x hx
        omega
      · exact h.newer a ha hout x hkept hg
    refine hnext.perm ?_
    rw [← append_assoc, ← append_assoc]
    exact List.Perm.append_right _ perm_append_comm
  · exact fun e he => h.paired e (mem_append_left _ he)
  · exact (pairwise_append.1 h.inTurn).1
  · intro b hb hout x hx hg
    rcases mem_append.1 hx with hx | hx
    · rcases hfate with ⟨-, hnone⟩ | ⟨hwait, y, hsome, hyid, hyg⟩
      · rw [hnone] at hx
        exact absurd hx not_mem_nil
      rw [hsome] at hx
      obtain rfl := mem_singleton.1 hx
      have hnot : ¬ a.id < b.id := fun hlt =>
        (hbefore b hb (hg.symm.trans hyg)).2 hlt hout hwait
      have hne := hids b (mem_append_left _ hb)
      omega
    · exact h.newer b (mem_append_left _ hb) hout x hx hg
  · obtain ⟨vis, hall, hvis, hkept⟩ := h.visited
    refine ⟨a :: vis, by rw [hall]; simp, ?_, ?_⟩
    · rw [hexam, hvis]
      simp
    · rcases hfate with ⟨hout, hnone⟩ | ⟨hwait, y, hsome, hyid, -⟩
      · rw [hnone, filter_cons, if_neg (by simpa using hout)]
        exact hkept
      · rw [hsome, filter_cons, if_pos (by simpa using hwait)]
        simp only [Option.toList_some, singleton_append, map_cons, hyid]
        exact hkept.cons _

end Invariant

/-! ### Polls and runs -/

def Dispatcher.Inv (d : Dispatcher) : Prop := ReapInv d.pushed d.reaper d.pending

variable {d : Dispatcher}

theorem Dispatcher.Inv.walk (h : d.Inv) {env : Env} (hok : PollInTurn d (.poll env)) :
    WalkInv d.pushed env (examinedIn d.reaper.trail) d.pending
      (pollComputeCompletions env d).reaper [] (pollComputeCompletions env d).pending := by
  obtain ⟨hfull, hpair, hturn⟩ := hok
  have hstart : WalkInv d.pushed env (examinedIn d.reaper.trail) d.pending
      { d.reaper with written := 0 } d.pending [] := by
    refine ⟨?_, hpair, hturn, fun _ _ _ x hx => absurd hx not_mem_nil, [], ?_, ?_, ?_⟩
    · rw [append_nil]
      exact { h with }
    · simp
    · simp
    · simp
  have hwalk := walkBack_invariant (examine env)
    (P := fun r l kept => WalkInv d.pushed env (examinedIn d.reaper.trail) d.pending r l kept)
    (fun r l kept kept' hperm hP =>
      ⟨hP.inv.perm (List.Perm.append_left _ hperm), hP.paired, hP.inTurn,
        fun b hb hout x hx => hP.newer b hb hout x (hperm.mem_iff.2 hx),
        by
          obtain ⟨vis, hall, hvis, hkept⟩ := hP.visited
          exact ⟨vis, hall, hvis, (hperm.map Entry.id).symm.trans hkept⟩⟩)
    (fun r l a kept hP => hP.round hfull) d.pending.length _ d.pending [] rfl hstart
  rw [append_nil] at hwalk
  exact hwalk

theorem Dispatcher.Inv.init (n : ℕ) : (Dispatcher.init n).Inv where
  nodup := nodup_nil
  fresh := fun o ho => absurd ho not_mem_nil
  live := fun e he => absurd he not_mem_nil
  answered := fun id o ho => by simp [Dispatcher.init] at ho
  unborn := fun id _ => ⟨rfl, rfl⟩
  accepted := fun x hx => absurd hx not_mem_nil
  behind := fun g f hf => absurd hf not_mem_nil
  sorted := fun g => List.Pairwise.nil

theorem Dispatcher.Inv.push (h : d.Inv) {pc : PendingCompute} (hpc : pc.Fresh d.reaper.numGpus) :
    ReapInv (d.pushed ++ [pc]) d.reaper (d.pending ++ [⟨d.pushed.length, pc⟩]) := by
  have hlt : ∀ e ∈ d.pending, e.id < d.pushed.length := by
    intro e he
    obtain ⟨o, k, hpush, -⟩ := h.live e he
    exact (List.getElem?_eq_some_iff.1 hpush).1
  have hold : ∀ (id : ℕ) o, d.pushed[id]? = some o → (d.pushed ++ [pc])[id]? = some o := by
    intro id o ho
    rw [List.getElem?_append_left (List.getElem?_eq_some_iff.1 ho).1]
    exact ho
  refine ⟨?_, ?_, ?_, ?_, ?_, h.accepted, ?_, h.sorted⟩
  · rw [map_append, nodup_append]
    refine ⟨h.nodup, by simp, ?_⟩
    intro i hi j hj heq
    obtain ⟨e, he, rfl⟩ := mem_map.1 hi
    have hj' : j = d.pushed.length := by simpa using hj
    have := hlt e he
    omega
  · intro o ho
    rcases mem_append.1 ho with ho | ho
    · exact h.fresh o ho
    · obtain rfl := mem_singleton.1 ho
      exact hpc
  · intro e he
    rcases mem_append.1 he with he | he
    · obtain ⟨o, k, hpush, hrest⟩ := h.live e he
      exact ⟨o, k, hold _ _ hpush, hrest⟩
    obtain rfl := mem_singleton.1 he
    obtain ⟨hc, hd⟩ := h.unborn d.pushed.length le_rfl
    refine ⟨pc, 0, by simp, by simp [PendingCompute.emitFirst], Nat.zero_le _, ?_⟩
    exact ⟨by simpa using hc, by simpa using hd⟩
  · intro id o ho hid
    have hne : id ≠ d.pushed.length := by
      rintro rfl
      exact hid (by simp)
    have hlen : id < d.pushed.length := by
      have := (List.getElem?_eq_some_iff.1 ho).1
      simp only [length_append, length_singleton] at this
      omega
    rw [getElem?_append_left hlen] at ho
    refine h.answered id o ho fun hmem => hid ?_
    rw [map_append]
    exact mem_append_left _ hmem
  · intro id hid
    refine h.unborn id ?_
    simp only [length_append] at hid
    omega
  · intro g f hf
    obtain ⟨hlen, hless⟩ := h.behind g f hf
    refine ⟨by simp only [length_append, length_singleton]; omega, ?_⟩
    intro e he hg
    rcases mem_append.1 he with he | he
    · exact hless e he hg
    · obtain rfl := mem_singleton.1 he
      exact hlen

theorem Dispatcher.Inv.step {d' : Dispatcher} (h : d.Inv) {a : Action} (hok : PollInTurn d a)
    (hstep : step d a = some d') : d'.Inv := by
  cases a with
  | push pc =>
    simp only [Compute.step] at hstep
    split at hstep
    next hpc =>
      cases hstep
      exact h.push hpc
    next => cases hstep
  | poll env =>
    cases hstep
    exact (h.walk hok).inv

theorem Dispatcher.Inv.of_run {n : ℕ} {as : List Action}
    (hrun : GuardedRun Compute.step PollInTurn (Dispatcher.init n) as d) : d.Inv :=
  hrun.invariant (fun _ _ _ h hok hst => h.step hok hst) (Dispatcher.Inv.init n)

theorem writtenOf_eq {t : List Effect} (h : AllAccepted t) (id : ℕ) :
    writtenOf id t = completionsOf id t := by
  unfold writtenOf completionsOf
  congr 1
  refine filter_congr fun x hx => ?_
  simp [h x hx]

theorem Dispatcher.Inv.delivered (h : d.Inv) : Delivered d := by
  refine ⟨h.nodup, ?_, ?_⟩
  · intro id o ho
    by_cases hid : id ∈ d.pending.map Entry.id
    · obtain ⟨e, he, rfl⟩ := mem_map.1 hid
      obtain ⟨o', k, hpush, -, hk, hc, hd⟩ := h.live e he
      obtain rfl : o = o' := Option.some.inj (ho.symm.trans hpush)
      exact .inl ⟨hid, k, hk, (writtenOf_eq h.accepted _).trans hc, hd⟩
    · obtain ⟨k, last, hlast, hc, hd⟩ := h.answered id o ho hid
      exact .inr ⟨hid, k, last, hlast, (writtenOf_eq h.accepted _).trans hc, hd⟩
  · intro g
    rw [filter_eq_self.2 h.accepted]
    exact h.sorted g

/-- **Compute completions are delivered exactly once and in order** in every run whose polls
meet the condition; and each of its polls looks at every pending entry once, from the last one
to the first one, and leaves those in the list that wait. -/
theorem compute_completions_delivered {n : ℕ} {as : List Action} {d : Dispatcher}
    (hrun : GuardedRun step PollInTurn (Dispatcher.init n) as d) :
    Delivered d ∧ ∀ env d', PollInTurn d (.poll env) → step d (.poll env) = some d' →
      examinedIn d'.reaper.trail = examinedIn d.reaper.trail ++ (d.pending.map Entry.id).reverse ∧
      (d'.pending.map Entry.id).Perm
        ((d.pending.filter (outcome env ·.pc = .notReady)).map Entry.id) := by
  have hinv := Dispatcher.Inv.of_run hrun
  refine ⟨hinv.delivered, ?_⟩
  intro env d' hok hstep
  obtain rfl : pollComputeCompletions env d = d' := Option.some.inj hstep
  obtain ⟨vis, hall, hvis, hkept⟩ := (hinv.walk hok).visited
  subst hall
  exact ⟨hvis, hkept⟩

/-- A command without checkpoints. -/
def plainCompute (cmdSeq gpuIdx event : ℕ) : PendingCompute :=
  { cmdSeq := cmdSeq, gpuIdx := gpuIdx, cmdType := 1, layerIdx := 0, cudaEvent := some event }

/-- Every event below `n` is ready, and the ring has room. -/
def readyBelow (n : ℕ) : Env :=
  ⟨fun ev => if ev.getD 0 < n then .ready else .notReady, fun _ => false, []⟩

def checkpointedCompute (cmdSeq gpuIdx ckptEvent event : ℕ) : PendingCompute :=
  { plainCompute cmdSeq gpuIdx event with
    pipelineCheckpoints := [⟨some ckptEvent, 3, 1, 0, 8, false⟩] }

/-- Two commands of one GPU and one of another, the first with a checkpoint: one poll emits
the checkpoint, the next one answers the first two commands, and the last one the third. -/
theorem compute_completions_delivered_three :
    ∃ as d, GuardedRun step PollInTurn (Dispatcher.init 2) as d ∧ d.pending = [] ∧
      d.pushed.length = 3 ∧ Delivered d := by
  obtain ⟨d, hrun, hpending, hpushed⟩ : ∃ d, GuardedRun step PollInTurn (Dispatcher.init 2)
      [.push (checkpointedCompute 7 0 1 2), .push (plainCompute 8 1 3),
        .push (plainCompute 9 0 4), .poll (readyBelow 2), .poll (readyBelow 4),
        .poll (readyBelow 5)] d ∧ d.pending = [] ∧ d.pushed.length = 3 := by
    refine ⟨_, .cons trivial rfl (.cons trivial rfl (.cons trivial rfl
      (.cons ?_ rfl (.cons ?_ rfl (.cons ?_ rfl (.nil _)))))), rfl, rfl⟩
    · exact ⟨fun _ => rfl, by decide, by decide⟩
    · exact ⟨fun _ => rfl, by decide, by decide⟩
    · exact ⟨fun _ => rfl, by decide, by decide⟩
  exact ⟨_, d, hrun, hpending, hpushed, (compute_completions_delivered hrun).1⟩

/-- **Two commands of a GPU that finish between two polls are answered in the wrong order**:
the second one first. -/
theorem finals_out_of_order : ∃ d, Run step (Dispatcher.init 1)
        [.push (plainCompute 7 0 1), .push (plainCompute 8 0 2), .poll (readyBelow 3)] d ∧
      finalsOn 0 (d.reaper.trail.filter (·.accepted)) = [1, 0] ∧ ¬ Delivered d := by
  obtain ⟨d, hd, hfinals⟩ : ∃ d, [Action.push (plainCompute 7 0 1), .push (plainCompute 8 0 2),
      .poll (readyBelow 3)].foldlM step (Dispatcher.init 1) = some d ∧
      finalsOn 0 (d.reaper.trail.filter (·.accepted)) = [1, 0] :=
    ⟨_, rfl, by decide⟩
  refine ⟨d, Run.of_foldlM hd, hfinals, ?_⟩
  intro hdelivered
  have horder := hdelivered.inOrder 0
  rw [hfinals] at horder
  exact absurd horder (by decide)

end Compute
end LayerStorm.Daemon
