import Mathlib

/-!
# The ledger of a service that answers every request once

A service takes requests or declines them.  A request that was taken is worked on, which may write
to the destination of the request any number of times, until its work ends with a success or a
failure; then an answer waits until it is fetched.  Two requests with the same key are never worked
on at the same time.  Every call has a number of its own.
-/

namespace LayerStorm.Lib

open List Prod

variable {ρ ω κ δ : Type*}

/-- What has happened at a service, by the numbers of the calls. -/
structure History (ρ ω δ : Type*) where
  calls : ℕ
  accepted : List (ℕ × ρ)
  declined : List (ℕ × ρ)
  /-- The destinations that were written to. -/
  written : List (ℕ × δ)
  /-- The work that has ended, with a success or not. -/
  ended : List (ℕ × Bool)
  /-- The answers that were fetched. -/
  out : List (ℕ × ω)

namespace History

/-- No calls yet. -/
def empty : History ρ ω δ := ⟨0, [], [], [], [], []⟩

def accept (h : History ρ ω δ) (r : ρ) : History ρ ω δ :=
  { h with calls := h.calls + 1, accepted := h.accepted ++ [(h.calls, r)] }

def decline (h : History ρ ω δ) (r : ρ) : History ρ ω δ :=
  { h with calls := h.calls + 1, declined := h.declined ++ [(h.calls, r)] }

def write (h : History ρ ω δ) (id : ℕ) (d : δ) : History ρ ω δ :=
  { h with written := h.written ++ [(id, d)] }

def finish (h : History ρ ω δ) (id : ℕ) (full : Bool) : History ρ ω δ :=
  { h with ended := h.ended ++ [(id, full)] }

def reply (h : History ρ ω δ) (answers : List (ℕ × ω)) : History ρ ω δ :=
  { h with out := h.out ++ answers }

end History

/-- What the callers rely on.  An answer is that of a request that was taken and whose work has
ended, and no request has two; only requests that were taken write, and only to their destination;
and of two unfinished requests the keys differ. -/
structure Faithful (key : ρ → κ) (dst : ρ → δ) (answer : ρ → Bool → ω) (h : History ρ ω δ) :
    Prop where
  answered : ∀ x ∈ h.out, ∃ r full,
    (x.1, r) ∈ h.accepted ∧ (x.1, full) ∈ h.ended ∧ x.2 = answer r full
  answeredOnce : (h.out.map Prod.fst).Nodup
  endedOnce : (h.ended.map Prod.fst).Nodup
  written : ∀ x ∈ h.written,
    (∃ r, (x.1, r) ∈ h.accepted ∧ dst r = x.2) ∧ x.1 ∉ h.declined.map Prod.fst
  exclusive : ∀ x ∈ h.accepted, ∀ y ∈ h.accepted, key x.2 = key y.2 →
    x.1 ∉ h.ended.map Prod.fst → y.1 ∉ h.ended.map Prod.fst → x = y

/-- The requests that are worked on and the answers that wait account for the history. -/
structure Ledger (key : ρ → κ) (dst : ρ → δ) (answer : ρ → Bool → ω) (h : History ρ ω δ)
    (active : List (ℕ × ρ)) (waiting : List (ℕ × ω)) : Prop where
  fresh : ∀ id ∈ (h.accepted.map Prod.fst ++ h.declined.map Prod.fst), id < h.calls
  once : (h.accepted.map Prod.fst ++ h.declined.map Prod.fst).Nodup
  ended : ∀ id ∈ h.ended.map Prod.fst, id ∈ h.accepted.map Prod.fst
  unfinished : ∀ x ∈ active, x ∈ h.accepted ∧ x.1 ∉ h.ended.map Prod.fst
  activeOnce : (active.map Prod.fst).Nodup
  keys : (active.map fun x => key x.2).Nodup
  answered : ∀ x ∈ h.out ++ waiting, ∃ r full,
    (x.1, r) ∈ h.accepted ∧ (x.1, full) ∈ h.ended ∧ x.2 = answer r full
  answeredOnce : ((h.out ++ waiting).map Prod.fst).Nodup
  endedOnce : (h.ended.map Prod.fst).Nodup
  cover : ∀ x ∈ h.accepted, x ∈ active ∨ x.1 ∈ (h.out ++ waiting).map Prod.fst
  written : ∀ x ∈ h.written, ∃ r, (x.1, r) ∈ h.accepted ∧ dst r = x.2

namespace Ledger

variable {key : ρ → κ} {dst : ρ → δ} {answer : ρ → Bool → ω} {h : History ρ ω δ}
  {active : List (ℕ × ρ)} {waiting : List (ℕ × ω)}

theorem empty : Ledger key dst answer (History.empty : History ρ ω δ) [] [] := by
  constructor <;> simp [History.empty]

variable {x : ℕ × ρ}

section

variable (hl : Ledger key dst answer h active waiting)
include hl

theorem lt_calls (hx : x ∈ h.accepted) : x.1 < h.calls :=
  hl.fresh _ (mem_append_left _ (mem_map_of_mem hx))

theorem calls_new : h.calls ∉ h.accepted.map fst ++ h.declined.map fst :=
  fun hmem => absurd (hl.fresh _ hmem) (lt_irrefl _)

theorem calls_not_ended : h.calls ∉ h.ended.map fst :=
  fun hmem => hl.calls_new (mem_append_left _ (hl.ended _ hmem))

theorem accept {r : ρ} (hkey : ∀ x ∈ active, key x.2 ≠ key r) :
    Ledger key dst answer (h.accept r) (active ++ [(h.calls, r)]) waiting := by
  have hnew := hl.calls_new
  have hnot : h.calls ∉ active.map fst := by
    intro hmem
    obtain ⟨x, hx, heq⟩ := mem_map.1 hmem
    exact (hl.lt_calls (hl.unfinished x hx).1).ne heq
  have hperm : ((h.accept r).accepted.map fst ++ (h.accept r).declined.map fst).Perm
      (h.calls :: (h.accepted.map fst ++ h.declined.map fst)) := by
    simp only [History.accept, map_append, map_cons, map_nil, append_assoc, singleton_append]
    exact perm_middle
  have hmono : ∀ {x}, x ∈ h.accepted → x ∈ (h.accept r).accepted := mem_append_left _
  refine ⟨?_, ?_, ?_, ?_, ?_, ?_, ?_, hl.answeredOnce, hl.endedOnce, ?_, ?_⟩
  · intro id hid
    rcases mem_cons.1 (hperm.mem_iff.1 hid) with rfl | hid
    · exact Nat.lt_succ_self _
    · exact (hl.fresh id hid).trans (Nat.lt_succ_self _)
  · exact hperm.nodup_iff.2 (nodup_cons.2 ⟨hnew, hl.once⟩)
  · intro id hid
    have hin := hl.ended id hid
    rw [History.accept, map_append]
    exact mem_append_left _ hin
  · intro x hx
    rcases mem_append.1 hx with hx | hx
    · exact ⟨hmono (hl.unfinished x hx).1, (hl.unfinished x hx).2⟩
    · obtain rfl := mem_singleton.1 hx
      exact ⟨mem_append_right _ (mem_singleton_self _), hl.calls_not_ended⟩
  · rw [map_append, nodup_append]
    refine ⟨hl.activeOnce, nodup_singleton _, fun a ha b hb => ?_⟩
    obtain rfl := mem_singleton.1 hb
    rintro rfl
    exact hnot ha
  · rw [map_append, nodup_append]
    refine ⟨hl.keys, nodup_singleton _, fun a ha b hb => ?_⟩
    obtain rfl := mem_singleton.1 hb
    obtain ⟨x, hx, rfl⟩ := mem_map.1 ha
    exact hkey x hx
  · intro x hx
    obtain ⟨r', full, hacc, hend, hans⟩ := hl.answered x hx
    exact ⟨r', full, hmono hacc, hend, hans⟩
  · intro x hx
    rcases mem_append.1 hx with hx | hx
    · exact (hl.cover x hx).imp_left (mem_append_left _)
    · exact .inl (mem_append_right _ hx)
  · intro x hx
    obtain ⟨r', hacc, hdst⟩ := hl.written x hx
    exact ⟨r', hmono hacc, hdst⟩

theorem decline (r : ρ) : Ledger key dst answer (h.decline r) active waiting := by
  have hperm : ((h.decline r).accepted.map fst ++ (h.decline r).declined.map fst).Perm
      (h.calls :: (h.accepted.map fst ++ h.declined.map fst)) := by
    simp only [History.decline, map_append, map_cons, map_nil, ← append_assoc _ _ [h.calls]]
    exact perm_append_singleton _ _
  refine { hl with fresh := ?_, once := ?_ }
  · intro id hid
    rcases mem_cons.1 (hperm.mem_iff.1 hid) with rfl | hid
    · exact Nat.lt_succ_self _
    · exact (hl.fresh id hid).trans (Nat.lt_succ_self _)
  · exact hperm.nodup_iff.2 (nodup_cons.2 ⟨hl.calls_new, hl.once⟩)

theorem write (hx : x ∈ active) : Ledger key dst answer (h.write x.1 (dst x.2)) active waiting := by
  refine { hl with written := fun y hy => ?_ }
  rcases mem_append.1 hy with hy | hy
  · exact hl.written y hy
  · obtain rfl := mem_singleton.1 hy
    exact ⟨x.2, (hl.unfinished x hx).1, rfl⟩

end

theorem finish {l r : List (ℕ × ρ)} (hl : Ledger key dst answer h (l ++ x :: r) waiting)
    (full : Bool) :
    Ledger key dst answer (h.finish x.1 full) (l ++ r) (waiting ++ [(x.1, answer x.2 full)]) := by
  have hx : x ∈ l ++ x :: r := mem_append_right _ mem_cons_self
  obtain ⟨hacc, hnot⟩ := hl.unfinished x hx
  have hsub : (l ++ r).Sublist (l ++ x :: r) :=
    (List.Sublist.refl l).append (sublist_cons_self x r)
  have hothers : x.1 ∉ (l ++ r).map fst := by
    have honce := hl.activeOnce
    rw [map_append, map_cons, nodup_middle, nodup_cons] at honce
    rw [map_append]
    exact honce.1
  -- no answer of this request waits or was fetched
  have hunanswered : x.1 ∉ (h.out ++ waiting).map fst := by
    intro hmem
    obtain ⟨y, hy, heq⟩ := mem_map.1 hmem
    obtain ⟨_, full', _, hend, _⟩ := hl.answered y hy
    rw [← heq] at hnot
    exact hnot (mem_map.2 ⟨_, hend, rfl⟩)
  refine ⟨hl.fresh, hl.once, ?_, ?_, hl.activeOnce.sublist (hsub.map _),
    hl.keys.sublist (hsub.map _), ?_, ?_, ?_, ?_, hl.written⟩
  · intro id hid
    rw [History.finish, map_append] at hid
    rcases mem_append.1 hid with hid | hid
    · exact hl.ended id hid
    · obtain rfl := mem_singleton.1 hid
      exact mem_map_of_mem hacc
  · intro y hy
    refine ⟨(hl.unfinished y (hsub.subset hy)).1, ?_⟩
    rw [History.finish, map_append, mem_append, not_or]
    refine ⟨(hl.unfinished y (hsub.subset hy)).2, fun hmem => hothers ?_⟩
    rw [← mem_singleton.1 hmem]
    exact mem_map_of_mem hy
  · intro y hy
    rw [← append_assoc] at hy
    rcases mem_append.1 hy with hy | hy
    · obtain ⟨r', full', hacc', hend, hans⟩ := hl.answered y hy
      exact ⟨r', full', hacc', mem_append_left _ hend, hans⟩
    · obtain rfl := mem_singleton.1 hy
      exact ⟨x.2, full, hacc, mem_append_right _ (mem_singleton_self _), rfl⟩
  · rw [← append_assoc, map_append, nodup_append]
    refine ⟨hl.answeredOnce, nodup_singleton _, fun a ha b hb => ?_⟩
    obtain rfl := mem_singleton.1 hb
    exact fun heq => hunanswered (heq ▸ ha)
  · rw [History.finish, map_append, nodup_append]
    refine ⟨hl.endedOnce, nodup_singleton _, fun a ha b hb => ?_⟩
    obtain rfl := mem_singleton.1 hb
    exact fun heq => hnot (heq ▸ ha)
  · intro y hy
    have hout : y.1 ∈ (h.out ++ waiting).map fst ∨ y.1 = x.1 →
        y.1 ∈ (h.out ++ (waiting ++ [(x.1, answer x.2 full)])).map fst := by
      intro hor
      rw [← append_assoc, map_append, mem_append]
      exact hor.imp id mem_singleton.2
    rcases hl.cover y hy with hact | hans
    · rcases mem_append.1 hact with hleft | hright
      · exact .inl (mem_append_left _ hleft)
      rcases mem_cons.1 hright with rfl | hright
      · exact .inr (hout (.inr rfl))
      · exact .inl (mem_append_right _ hright)
    · exact .inr (hout (.inl hans))

theorem reply {fetched rest : List (ℕ × ω)}
    (hl : Ledger key dst answer h active (fetched ++ rest)) :
    Ledger key dst answer (h.reply fetched) active rest := by
  have hsame : (h.reply fetched).out ++ rest = h.out ++ (fetched ++ rest) :=
    append_assoc _ _ _
  refine { hl with answered := ?_, answeredOnce := ?_, cover := ?_ }
  · rw [hsame]
    exact hl.answered
  · rw [hsame]
    exact hl.answeredOnce
  · rw [hsame]
    exact hl.cover

theorem faithful (hl : Ledger key dst answer h active waiting) : Faithful key dst answer h := by
  have hdisjoint : ∀ {id}, id ∈ h.accepted.map fst → id ∉ h.declined.map fst :=
    fun hid hid' => (nodup_append.1 hl.once).2.2 _ hid _ hid' rfl
  refine ⟨fun x hx => hl.answered x (mem_append_left _ hx),
    hl.answeredOnce.sublist ((sublist_append_left _ _).map _), hl.endedOnce, ?_, ?_⟩
  · intro x hx
    obtain ⟨r, hacc, hdst⟩ := hl.written x hx
    exact ⟨⟨r, hacc, hdst⟩, hdisjoint (mem_map.2 ⟨_, hacc, rfl⟩)⟩
  · -- two unfinished requests are both worked on
    have hactive : ∀ x ∈ h.accepted, x.1 ∉ h.ended.map fst → x ∈ active := by
      intro x hx hnot
      refine (hl.cover x hx).resolve_right fun hmem => hnot ?_
      obtain ⟨y, hy, heq⟩ := mem_map.1 hmem
      obtain ⟨_, full, _, hend, _⟩ := hl.answered y hy
      exact mem_map.2 ⟨_, hend, heq⟩
    intro x hx y hy hkey hx' hy'
    exact inj_on_of_nodup_map hl.keys (hactive x hx hx') (hactive y hy hy') hkey

theorem settled (hl : Ledger key dst answer h [] []) : ∀ x ∈ h.accepted, x.1 ∈ h.out.map fst := by
  intro x hx
  have hcover := hl.cover x hx
  rw [append_nil] at hcover
  exact hcover.resolve_left not_mem_nil

end Ledger

end LayerStorm.Lib
