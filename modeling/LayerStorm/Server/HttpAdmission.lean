import Mathlib
import LayerStorm.Lib.Run

/-!
# Admission slots of the HTTP server

The server admits a bounded number of requests at a time and lets the others wait in arrival
order.  A slot is acquired before a handler does anything else.  The handler gives it back when
it leaves its `try` block, except when it has returned a streaming response: then the slot
belongs to the generator of the response body, whose `finally` block gives it back.  A
generator that is dropped before its body is entered has no `finally` block to run.

## Main results

* `slots_conserved_iff` — a run conserves its slots if and only if no generator is dropped
  before its body is entered.
* `dropped_generator_keeps_slot` — one that is.
-/

namespace LayerStorm.Server

open Lib List Option

/-! ### The queue -/

/-- `_AdmissionQueue`, with the numbers of the waiting requests as tickets. -/
structure AdmissionQueue where
  maxActive : ℕ
  maxQueued : ℕ
  active : ℕ
  waiters : List ℕ
deriving DecidableEq, Repr

/-- What the first part of `acquire` does with a request. -/
inductive Entrance
  | acquired
  | full
  | waiting
deriving DecidableEq, Repr

namespace AdmissionQueue

variable (q : AdmissionQueue)

/-- The first critical section of `acquire`. -/
def enter (ticket : ℕ) : AdmissionQueue × Entrance :=
  if q.active < q.maxActive ∧ q.waiters = [] then ({ q with active := q.active + 1 }, .acquired)
  else if q.maxQueued ≤ q.waiters.length then (q, .full)
  else ({ q with waiters := q.waiters ++ [ticket] }, .waiting)

/-- The critical section in the loop of `acquire`: the first waiter gets a free slot. -/
def check (ticket : ℕ) : AdmissionQueue × Bool :=
  if q.waiters.head? = some ticket ∧ q.active < q.maxActive then
    ({ q with waiters := q.waiters.tail, active := q.active + 1 }, true)
  else (q, false)

/-- `release`: an extra call is ignored. -/
def release : AdmissionQueue :=
  if 0 < q.active then { q with active := q.active - 1 } else q

def remove (ticket : ℕ) : AdmissionQueue :=
  { q with waiters := q.waiters.erase ticket }

end AdmissionQueue

/-! ### Requests -/

/-- The two endpoints that generate; they treat their slots in the same way. -/
inductive Endpoint
  | completions
  | chatCompletions
deriving DecidableEq, Repr

/-- Where a request stands. -/
inductive Phase
  /-- In the loop of `acquire`. -/
  | queued
  /-- In the `try` block of the handler. -/
  | serving
  /-- The handler has returned a streaming response whose body has not been entered. -/
  | responded
  /-- The body of the generator has been entered. -/
  | streaming
  /-- Nothing of the request is left. -/
  | ended
deriving DecidableEq, Repr

/-- A request, as it was made and where it stands. -/
structure Request where
  endpoint : Endpoint
  stream : Bool
  phase : Phase
deriving DecidableEq, Repr

/-- The server, with its requests in arrival order. -/
structure HttpServer where
  queue : AdmissionQueue
  requests : List Request
  admitted : List ℕ
  released : List ℕ
  dropped : List ℕ
deriving DecidableEq, Repr

namespace HttpServer

/-- The server before its first request. -/
def init (maxConcurrent maxQueued : ℤ) : HttpServer :=
  ⟨⟨maxConcurrent.toNat, maxQueued.toNat, 0, []⟩, [], [], [], []⟩

def phase (s : HttpServer) (r : ℕ) : Option Phase := s.requests[r]?.map Request.phase

def move (s : HttpServer) (r : ℕ) (p : Phase) : HttpServer :=
  { s with requests := s.requests.modify r fun q => { q with phase := p } }

/-- Give a slot back on behalf of a request. -/
def giveBack (s : HttpServer) (r : ℕ) : HttpServer :=
  { s with queue := s.queue.release, released := s.released ++ [r] }

/-- A request arrives: `acquire` lets it in, refuses it or makes it wait. -/
def arrive (s : HttpServer) (endpoint : Endpoint) (stream : Bool) : HttpServer :=
  let r := s.requests.length
  match s.queue.enter r with
  | (q, .acquired) =>
    { s with queue := q, requests := s.requests ++ [⟨endpoint, stream, .serving⟩],
             admitted := s.admitted ++ [r] }
  | (q, .full) => { s with queue := q, requests := s.requests ++ [⟨endpoint, stream, .ended⟩] }
  | (q, .waiting) => { s with queue := q, requests := s.requests ++ [⟨endpoint, stream, .queued⟩] }

/-- A waiter goes through its critical section. -/
def check (s : HttpServer) (r : ℕ) : HttpServer :=
  match s.queue.check r with
  | (q, true) => { s with queue := q, admitted := s.admitted ++ [r] }.move r .serving
  | (q, false) => { s with queue := q }

end HttpServer

/-- What can happen next. -/
inductive Action
  /-- A client sends a request. -/
  | arrive (endpoint : Endpoint) (stream : Bool)
  /-- A waiter looks whether it is its turn. -/
  | check (r : ℕ)
  /-- A waiter leaves the queue: its client is gone, or its task is cancelled. -/
  | leaveQueue (r : ℕ)
  /-- The handler leaves its `try` block with an answer, an error or a cancellation, without a
  streaming response. -/
  | finish (r : ℕ)
  /-- The handler returns a streaming response, which owns the slot from now on. -/
  | respond (r : ℕ)
  /-- The body of the generator is entered. -/
  | enterBody (r : ℕ)
  /-- The generator ends, is closed at a `yield` or is cancelled: its `finally` block runs
  `_stream_teardown`. -/
  | teardown (r : ℕ)
  /-- The response is dropped before the body of its generator is entered. -/
  | drop (r : ℕ)
deriving DecidableEq, Repr

def step (s : HttpServer) : Action → Option HttpServer
  | .arrive endpoint stream => some (s.arrive endpoint stream)
  | .check r => if s.phase r = some .queued then some (s.check r) else none
  | .leaveQueue r =>
    if s.phase r = some .queued then
      some ({ s with queue := s.queue.remove r }.move r .ended)
    else none
  | .finish r =>
    if s.phase r = some .serving then some ((s.giveBack r).move r .ended) else none
  | .respond r =>
    if s.phase r = some .serving ∧ s.requests[r]?.map Request.stream = some true then
      some (s.move r .responded)
    else none
  | .enterBody r => if s.phase r = some .responded then some (s.move r .streaming) else none
  | .teardown r =>
    if s.phase r = some .streaming then some ((s.giveBack r).move r .ended) else none
  | .drop r =>
    if s.phase r = some .responded then
      some ({ s with dropped := s.dropped ++ [r] }.move r .ended)
    else none

/-! ### The property -/

/-- A request holds a slot. -/
def Phase.holds : Phase → Bool
  | .serving => true
  | .responded => true
  | .streaming => true
  | _ => false

/-- **What holds of every run**: no more slots than allowed are in use, waiters are admitted in
arrival order, a slot is given back at most once, and not while it is in use. -/
structure Bounded (s : HttpServer) : Prop where
  active_le : s.queue.active ≤ s.queue.maxActive
  arrival_order : s.admitted.Pairwise (· < ·)
  once : s.released.Nodup
  acquired : ∀ r ∈ s.released, r ∈ s.admitted
  in_use : ∀ r p, s.phase r = some p → p.holds = true → r ∈ s.admitted ∧ r ∉ s.released

/-- **Slots are conserved**: a request that is over has given back the slot it got, and when all
requests are over no slot is in use. -/
structure Conserved (s : HttpServer) : Prop where
  given_back : ∀ r ∈ s.admitted, s.phase r = some .ended → r ∈ s.released
  empty : (∀ r p, s.phase r = some p → p = .ended) → s.queue.active = 0

/-! ### The accounts -/

/-- A request is in possession of a slot. -/
def HttpServer.Holds (s : HttpServer) (r : ℕ) : Prop :=
  ∃ p, s.phase r = some p ∧ p.holds = true

/-- The accounts of the server.  A dropped request is the only one that has a slot without
holding it. -/
structure AdmissionInv (s : HttpServer) : Prop where
  account : s.queue.active + s.released.length = s.admitted.length
  active_le : s.queue.active ≤ s.queue.maxActive
  admitted_sorted : s.admitted.Pairwise (· < ·)
  waiters_sorted : s.queue.waiters.Pairwise (· < ·)
  admitted_lt_waiter : ∀ a ∈ s.admitted, ∀ w ∈ s.queue.waiters, a < w
  admitted_lt : ∀ a ∈ s.admitted, a < s.requests.length
  waiter_iff : ∀ r, r ∈ s.queue.waiters ↔ s.phase r = some .queued
  holds_iff : ∀ r, s.Holds r ↔ r ∈ s.admitted ∧ r ∉ s.released ∧ r ∉ s.dropped
  released_nodup : s.released.Nodup
  released_sub : ∀ r ∈ s.released, r ∈ s.admitted
  dropped_sub : ∀ r ∈ s.dropped, r ∈ s.admitted ∧ r ∉ s.released

namespace HttpServer

variable {s : HttpServer} {r r' : ℕ} {p p' : Phase}

theorem phase_move (s : HttpServer) (r r' : ℕ) (p : Phase) :
    (s.move r p).phase r' = if r = r' then (s.phase r').map fun _ => p else s.phase r' := by
  unfold phase move
  rw [getElem?_modify]
  by_cases h : r = r' <;> cases s.requests[r']? <;> simp [h]

theorem phase_move_self (h : s.phase r = some p) (p' : Phase) :
    (s.move r p').phase r = some p' := by
  rw [phase_move, if_pos rfl, h]
  rfl

theorem phase_move_ne (h : r ≠ r') (p : Phase) : (s.move r p).phase r' = s.phase r' := by
  rw [phase_move, if_neg h]

@[simp] theorem length_move : (s.move r p).requests.length = s.requests.length := by
  simp [move]

theorem lt_of_phase (h : s.phase r = some p) : r < s.requests.length := by
  unfold phase at h
  by_contra hlt
  rw [getElem?_eq_none (by omega)] at h
  cases h

theorem holds_move_self (h : s.phase r = some p) (p' : Phase) :
    (s.move r p').Holds r ↔ p'.holds = true := by
  unfold Holds
  rw [phase_move_self h]
  simp

theorem holds_move_ne (h : r ≠ r') (p : Phase) : (s.move r p).Holds r' ↔ s.Holds r' := by
  unfold Holds
  rw [phase_move_ne h]

theorem holds_move_over (h : s.phase r = some p) :
    (s.move r .ended).Holds r' ↔ s.Holds r' ∧ r' ≠ r := by
  by_cases hr : r = r'
  · subst hr
    rw [holds_move_self h]
    simp [Phase.holds]
  · rw [holds_move_ne hr]
    simp [Ne.symm hr]

theorem holds_move_of_eq (h : s.phase r = some p) (hp : p'.holds = p.holds) :
    (s.move r p').Holds r' ↔ s.Holds r' := by
  by_cases hr : r = r'
  · subst hr
    rw [holds_move_self h, hp]
    unfold Holds
    simp [h]
  · exact holds_move_ne hr p'

theorem phase_append (s : HttpServer) (q : Request) (r : ℕ) :
    ({ s with requests := s.requests ++ [q] } : HttpServer).phase r =
      if r = s.requests.length then some q.phase else s.phase r := by
  unfold phase
  by_cases h : r = s.requests.length
  · simp [h]
  rw [if_neg h]
  by_cases hlt : r < s.requests.length
  · rw [getElem?_append_left hlt]
  · rw [getElem?_eq_none (by simp; omega), getElem?_eq_none (by omega)]

end HttpServer

namespace AdmissionInv

variable {s : HttpServer} {r : ℕ} {p p' : Phase}

theorem init (maxConcurrent maxQueued : ℤ) :
    AdmissionInv (HttpServer.init maxConcurrent maxQueued) := by
  constructor <;> simp [HttpServer.init, HttpServer.phase, HttpServer.Holds]

theorem active_pos (hs : AdmissionInv s) (hr : s.Holds r) : 0 < s.queue.active := by
  obtain ⟨hadm, hrel, -⟩ := (hs.holds_iff r).1 hr
  have hsub : (r :: s.released).Subperm s.admitted := by
    refine subperm_of_subset (nodup_cons.2 ⟨hrel, hs.released_nodup⟩) ?_
    intro q hq
    rcases mem_cons.1 hq with rfl | hq
    · exact hadm
    · exact hs.released_sub q hq
  have hlen := hsub.length_le
  have hacc := hs.account
  rw [length_cons] at hlen
  omega

theorem holds_of_phase (h : s.phase r = some p) (hp : p.holds = true) : s.Holds r := ⟨p, h, hp⟩

theorem waiter_iff_move (hs : AdmissionInv s) (h : s.phase r = some p) (hp : p ≠ .queued)
    (hp' : p' ≠ .queued) (r' : ℕ) :
    r' ∈ s.queue.waiters ↔ (s.move r p').phase r' = some .queued := by
  refine (hs.waiter_iff r').trans ?_
  by_cases hr : r = r'
  · subst hr
    rw [h, HttpServer.phase_move_self h]
    simp [hp, hp']
  · rw [HttpServer.phase_move_ne hr]

theorem ne_queued_of_holds (hp : p.holds = true) : p ≠ .queued := by
  rintro rfl
  cases hp

section

variable (hs : AdmissionInv s)
include hs

theorem keep (h : s.phase r = some p) (hp : p.holds = true) (hp' : p'.holds = true) :
    AdmissionInv (s.move r p') where
  account := hs.account
  active_le := hs.active_le
  admitted_sorted := hs.admitted_sorted
  waiters_sorted := hs.waiters_sorted
  admitted_lt_waiter := hs.admitted_lt_waiter
  admitted_lt := fun a ha => HttpServer.length_move.symm ▸ hs.admitted_lt a ha
  waiter_iff := hs.waiter_iff_move h (ne_queued_of_holds hp) (ne_queued_of_holds hp')
  holds_iff := by
    intro r'
    rw [HttpServer.holds_move_of_eq h (hp'.trans hp.symm)]
    exact hs.holds_iff r'
  released_nodup := hs.released_nodup
  released_sub := hs.released_sub
  dropped_sub := hs.dropped_sub

theorem giveBack (h : s.phase r = some p) (hp : p.holds = true) :
    AdmissionInv ((s.giveBack r).move r .ended) := by
  have hpos := hs.active_pos (holds_of_phase h hp)
  obtain ⟨hadm, hrel, hdrop⟩ := (hs.holds_iff r).1 (holds_of_phase h hp)
  have hqueue : s.queue.release = { s.queue with active := s.queue.active - 1 } := if_pos hpos
  refine
    { account := ?_, active_le := ?_, admitted_sorted := hs.admitted_sorted,
      waiters_sorted := ?_, admitted_lt_waiter := ?_, admitted_lt := ?_, waiter_iff := ?_,
      holds_iff := ?_, released_nodup := ?_, released_sub := ?_, dropped_sub := ?_ }
  · show s.queue.release.active + (s.released ++ [r]).length = s.admitted.length
    have := hs.account
    rw [hqueue, length_append]
    show s.queue.active - 1 + (s.released.length + 1) = _
    omega
  · show s.queue.release.active ≤ s.queue.release.maxActive
    have := hs.active_le
    rw [hqueue]
    show s.queue.active - 1 ≤ s.queue.maxActive
    omega
  · show s.queue.release.waiters.Pairwise _
    rw [hqueue]
    exact hs.waiters_sorted
  · show ∀ a ∈ s.admitted, ∀ w ∈ s.queue.release.waiters, a < w
    rw [hqueue]
    exact hs.admitted_lt_waiter
  · exact fun a ha => HttpServer.length_move.symm ▸ hs.admitted_lt a ha
  · intro r'
    show r' ∈ s.queue.release.waiters ↔ _
    rw [hqueue]
    exact hs.waiter_iff_move h (ne_queued_of_holds hp) (by decide) r'
  · intro r'
    show (s.move r .ended).Holds r' ↔ r' ∈ s.admitted ∧ r' ∉ s.released ++ [r] ∧ r' ∉ s.dropped
    rw [HttpServer.holds_move_over h, hs.holds_iff r', mem_append, mem_singleton]
    tauto
  · show (s.released ++ [r]).Nodup
    rw [nodup_append_comm]
    exact nodup_cons.2 ⟨hrel, hs.released_nodup⟩
  · intro r' hr'
    rcases mem_append.1 hr' with hr' | hr'
    · exact hs.released_sub r' hr'
    · rw [mem_singleton.1 hr']
      exact hadm
  · intro r' hr'
    obtain ⟨hadm', hrel'⟩ := hs.dropped_sub r' hr'
    refine ⟨hadm', ?_⟩
    intro hmem
    rcases mem_append.1 hmem with hmem | hmem
    · exact hrel' hmem
    · rw [mem_singleton.1 hmem] at hr'
      exact hdrop hr'

theorem drop (h : s.phase r = some p) (hp : p.holds = true) :
    AdmissionInv (({ s with dropped := s.dropped ++ [r] } : HttpServer).move r .ended) := by
  obtain ⟨hadm, hrel, hdrop⟩ := (hs.holds_iff r).1 (holds_of_phase h hp)
  refine { hs with
      admitted_lt := ?_, waiter_iff := ?_, holds_iff := ?_,
      dropped_sub := ?_ }
  · exact fun a ha => HttpServer.length_move.symm ▸ hs.admitted_lt a ha
  · exact hs.waiter_iff_move h (ne_queued_of_holds hp) (by decide)
  · intro r'
    show (s.move r .ended).Holds r' ↔ r' ∈ s.admitted ∧ r' ∉ s.released ∧ r' ∉ s.dropped ++ [r]
    rw [HttpServer.holds_move_over h, hs.holds_iff r', mem_append, mem_singleton]
    tauto
  · intro r' hr'
    rcases mem_append.1 hr' with hr' | hr'
    · exact hs.dropped_sub r' hr'
    · rw [mem_singleton.1 hr']
      exact ⟨hadm, hrel⟩

theorem leaveQueue (h : s.phase r = some .queued) :
    AdmissionInv (({ s with queue := s.queue.remove r } : HttpServer).move r .ended) := by
  have hnodup : s.queue.waiters.Nodup := hs.waiters_sorted.imp fun hlt => Nat.ne_of_lt hlt
  refine { hs with
      waiters_sorted := ?_, admitted_lt_waiter := ?_, admitted_lt := ?_, waiter_iff := ?_,
      holds_iff := ?_ }
  · exact hs.waiters_sorted.sublist erase_sublist
  · exact fun a ha w hw => hs.admitted_lt_waiter a ha w (mem_of_mem_erase hw)
  · exact fun a ha => HttpServer.length_move.symm ▸ hs.admitted_lt a ha
  · intro r'
    show r' ∈ s.queue.waiters.erase r ↔ (s.move r .ended).phase r' = some .queued
    rw [hnodup.mem_erase_iff, hs.waiter_iff r', HttpServer.phase_move]
    by_cases hr : r = r'
    · subst hr
      simp [h]
    · simp [hr, Ne.symm hr]
  · intro r'
    have hsame : (s.move r .ended).Holds r' ↔ s.Holds r' := HttpServer.holds_move_of_eq h rfl
    exact hsame.trans (hs.holds_iff r')

theorem check (h : s.phase r = some .queued) :
    AdmissionInv (s.check r) := by
  unfold HttpServer.check AdmissionQueue.check
  by_cases hgo : s.queue.waiters.head? = some r ∧ s.queue.active < s.queue.maxActive
  swap
  · rw [if_neg hgo]
    exact hs
  rw [if_pos hgo]
  obtain ⟨ws, hws⟩ := head?_eq_some_iff.1 hgo.1
  have hsorted := hs.waiters_sorted
  rw [hws, pairwise_cons] at hsorted
  have hmem : ∀ w, w ∈ s.queue.waiters ↔ w = r ∨ w ∈ ws := by simp [hws]
  have hnew : r ∉ s.admitted := fun hr =>
    Nat.lt_irrefl r (hs.admitted_lt_waiter r hr r ((hmem r).2 (.inl rfl)))
  refine
    { account := ?_, active_le := hgo.2, admitted_sorted := ?_, waiters_sorted := ?_,
      admitted_lt_waiter := ?_, admitted_lt := ?_, waiter_iff := ?_, holds_iff := ?_,
      released_nodup := hs.released_nodup, released_sub := ?_, dropped_sub := ?_ }
  · show s.queue.active + 1 + s.released.length = (s.admitted ++ [r]).length
    have := hs.account
    rw [length_append, length_singleton]
    omega
  · show (s.admitted ++ [r]).Pairwise _
    refine pairwise_append.2 ⟨hs.admitted_sorted, pairwise_singleton _ _, ?_⟩
    intro a ha b hb
    rw [mem_singleton.1 hb]
    exact hs.admitted_lt_waiter a ha r ((hmem r).2 (.inl rfl))
  · show s.queue.waiters.tail.Pairwise _
    rw [hws]
    exact hsorted.2
  · intro a ha w hw
    replace hw : w ∈ ws := by
      rw [show ws = s.queue.waiters.tail by rw [hws]; rfl]
      exact hw
    rcases mem_append.1 ha with ha | ha
    · exact hs.admitted_lt_waiter a ha w ((hmem w).2 (.inr hw))
    · rw [mem_singleton.1 ha]
      exact hsorted.1 w hw
  · intro a ha
    rw [HttpServer.length_move]
    rcases mem_append.1 ha with ha | ha
    · exact hs.admitted_lt a ha
    · rw [mem_singleton.1 ha]
      exact HttpServer.lt_of_phase h
  · intro r'
    show r' ∈ s.queue.waiters.tail ↔ (s.move r .serving).phase r' = some .queued
    have hr'ws := hs.waiter_iff r'
    rw [hmem] at hr'ws
    rw [hws, HttpServer.phase_move]
    by_cases hr : r = r'
    · subst hr
      rw [if_pos rfl, h]
      refine iff_of_false (fun hin => Nat.lt_irrefl r (hsorted.1 r hin)) ?_
      rintro ⟨⟩
    · rw [if_neg hr, ← hr'ws]
      simp [Ne.symm hr]
  · intro r'
    show (s.move r .serving).Holds r' ↔ r' ∈ s.admitted ++ [r] ∧ r' ∉ s.released ∧ r' ∉ s.dropped
    by_cases hr : r = r'
    · subst hr
      rw [HttpServer.holds_move_self h]
      refine iff_of_true rfl ⟨by simp, ?_, ?_⟩
      · exact fun hr => hnew (hs.released_sub r hr)
      · exact fun hr => hnew (hs.dropped_sub r hr).1
    · rw [HttpServer.holds_move_ne hr, hs.holds_iff r']
      simp [Ne.symm hr]
  · exact fun q hq => mem_append_left _ (hs.released_sub q hq)
  · exact fun q hq => ⟨mem_append_left _ (hs.dropped_sub q hq).1, (hs.dropped_sub q hq).2⟩

variable (endpoint : Endpoint)

theorem append_over (stream : Bool) :
    AdmissionInv { s with requests := s.requests ++ [⟨endpoint, stream, .ended⟩] } := by
  have hnew : s.phase s.requests.length = none := by simp [HttpServer.phase]
  refine { hs with admitted_lt := ?_, waiter_iff := ?_, holds_iff := ?_ }
  · intro a ha
    have := hs.admitted_lt a ha
    simp only [length_append]
    omega
  · intro r'
    rw [HttpServer.phase_append, hs.waiter_iff r']
    split
    · next h => simp [h, hnew]
    · rfl
  · intro r'
    refine Iff.trans ?_ (hs.holds_iff r')
    unfold HttpServer.Holds
    rw [HttpServer.phase_append]
    split
    · next h => simp [h, hnew, Phase.holds]
    · rfl

theorem append_queued (stream : Bool) : AdmissionInv { s with
        queue := { s.queue with waiters := s.queue.waiters ++ [s.requests.length] }
        requests := s.requests ++ [⟨endpoint, stream, .queued⟩] } := by
  have hnew : s.phase s.requests.length = none := by simp [HttpServer.phase]
  have hlt : ∀ w ∈ s.queue.waiters, w < s.requests.length :=
    fun w hw => HttpServer.lt_of_phase ((hs.waiter_iff w).1 hw)
  refine { hs with
      waiters_sorted := ?_, admitted_lt_waiter := ?_, admitted_lt := ?_, waiter_iff := ?_,
      holds_iff := ?_ }
  · refine pairwise_append.2 ⟨hs.waiters_sorted, pairwise_singleton _ _, ?_⟩
    intro w hw b hb
    rw [mem_singleton.1 hb]
    exact hlt w hw
  · intro a ha w hw
    rcases mem_append.1 hw with hw | hw
    · exact hs.admitted_lt_waiter a ha w hw
    · rw [mem_singleton.1 hw]
      exact hs.admitted_lt a ha
  · intro a ha
    have := hs.admitted_lt a ha
    simp only [length_append]
    omega
  · intro r'
    show r' ∈ s.queue.waiters ++ [s.requests.length] ↔
      ({ s with requests := s.requests ++ [⟨endpoint, stream, .queued⟩] } : HttpServer).phase r' =
        some .queued
    rw [HttpServer.phase_append, mem_append, hs.waiter_iff r']
    split
    · next h => simp [h]
    · next h => simp [h]
  · intro r'
    refine Iff.trans ?_ (hs.holds_iff r')
    show ({ s with requests := s.requests ++ [⟨endpoint, stream, .queued⟩] } : HttpServer).Holds r'
      ↔ s.Holds r'
    unfold HttpServer.Holds
    rw [HttpServer.phase_append]
    split
    · next h => simp [h, hnew, Phase.holds]
    · rfl

theorem append_serving (stream : Bool)
    (hactive : s.queue.active < s.queue.maxActive) (hwaiters : s.queue.waiters = []) :
    AdmissionInv { s with
        queue := { s.queue with active := s.queue.active + 1 }
        requests := s.requests ++ [⟨endpoint, stream, .serving⟩]
        admitted := s.admitted ++ [s.requests.length] } := by
  have hnew : s.phase s.requests.length = none := by simp [HttpServer.phase]
  have hnewadm : s.requests.length ∉ s.admitted :=
    fun hr => Nat.lt_irrefl _ (hs.admitted_lt _ hr)
  refine { hs with
      account := ?_, active_le := hactive, admitted_sorted := ?_, admitted_lt_waiter := ?_,
      admitted_lt := ?_, waiter_iff := ?_, holds_iff := ?_, released_sub := ?_,
      dropped_sub := ?_ }
  · have := hs.account
    simp only [length_append, length_singleton]
    omega
  · refine pairwise_append.2 ⟨hs.admitted_sorted, pairwise_singleton _ _, ?_⟩
    intro a ha b hb
    rw [mem_singleton.1 hb]
    exact hs.admitted_lt a ha
  · intro a _ w hw
    rw [show ({ s.queue with active := s.queue.active + 1 } : AdmissionQueue).waiters = [] from
      hwaiters] at hw
    cases hw
  · intro a ha
    simp only [length_append]
    rcases mem_append.1 ha with ha | ha
    · exact (hs.admitted_lt a ha).trans (Nat.lt_succ_self _)
    · rw [mem_singleton.1 ha]
      exact Nat.lt_succ_self _
  · intro r'
    show r' ∈ s.queue.waiters ↔
      ({ s with requests := s.requests ++ [⟨endpoint, stream, .serving⟩] } : HttpServer).phase r' =
        some .queued
    rw [HttpServer.phase_append, hs.waiter_iff r']
    split
    · next h => simp [h, hnew]
    · rfl
  · intro r'
    show ({ s with requests := s.requests ++ [⟨endpoint, stream, .serving⟩] } : HttpServer).Holds r'
      ↔ r' ∈ s.admitted ++ [s.requests.length] ∧ r' ∉ s.released ∧ r' ∉ s.dropped
    unfold HttpServer.Holds
    rw [HttpServer.phase_append, mem_append, mem_singleton]
    split
    · next h =>
      subst h
      refine iff_of_true ⟨_, rfl, rfl⟩ ⟨.inr rfl, ?_, ?_⟩
      · exact fun hr => hnewadm (hs.released_sub _ hr)
      · exact fun hr => hnewadm (hs.dropped_sub _ hr).1
    · next h =>
      refine Iff.trans (hs.holds_iff r') ?_
      simp [h]
  · exact fun q hq => mem_append_left _ (hs.released_sub q hq)
  · exact fun q hq => ⟨mem_append_left _ (hs.dropped_sub q hq).1, (hs.dropped_sub q hq).2⟩

theorem arrive (stream : Bool) : AdmissionInv (s.arrive endpoint stream) := by
  unfold HttpServer.arrive AdmissionQueue.enter
  dsimp only
  by_cases hin : s.queue.active < s.queue.maxActive ∧ s.queue.waiters = []
  · rw [if_pos hin]
    exact hs.append_serving endpoint stream hin.1 hin.2
  rw [if_neg hin]
  by_cases hfull : s.queue.maxQueued ≤ s.queue.waiters.length
  · rw [if_pos hfull]
    exact hs.append_over endpoint stream
  · rw [if_neg hfull]
    exact hs.append_queued endpoint stream

theorem step {t : HttpServer} {a : Action} (h : Server.step s a = some t) : AdmissionInv t := by
  cases a with
  | arrive endpoint stream =>
    cases h
    exact hs.arrive endpoint stream
  | check r =>
    simp only [Server.step, ite_none_right_eq_some, some.injEq] at h
    exact h.2 ▸ hs.check h.1
  | leaveQueue r =>
    simp only [Server.step, ite_none_right_eq_some, some.injEq] at h
    exact h.2 ▸ hs.leaveQueue h.1
  | finish r | teardown r =>
    simp only [Server.step, ite_none_right_eq_some, some.injEq] at h
    exact h.2 ▸ hs.giveBack h.1 rfl
  | respond r =>
    simp only [Server.step, ite_none_right_eq_some, some.injEq] at h
    exact h.2 ▸ hs.keep h.1.1 rfl rfl
  | enterBody r =>
    simp only [Server.step, ite_none_right_eq_some, some.injEq] at h
    exact h.2 ▸ hs.keep h.1 rfl rfl
  | drop r =>
    simp only [Server.step, ite_none_right_eq_some, some.injEq] at h
    exact h.2 ▸ hs.drop h.1 rfl

end

theorem of_run {maxConcurrent maxQueued : ℤ} {as : List Action}
    (hrun : Run Server.step (HttpServer.init maxConcurrent maxQueued) as s) : AdmissionInv s :=
  hrun.invariant (fun _ _ _ hs _ h => hs.step h) (AdmissionInv.init maxConcurrent maxQueued)

theorem bounded (hs : AdmissionInv s) : Bounded s where
  active_le := hs.active_le
  arrival_order := hs.admitted_sorted
  once := hs.released_nodup
  acquired := hs.released_sub
  in_use := by
    intro r p hp hholds
    obtain ⟨hadm, hrel, -⟩ := (hs.holds_iff r).1 ⟨p, hp, hholds⟩
    exact ⟨hadm, hrel⟩

theorem over_of_not_holds (hs : AdmissionInv s) (hadm : r ∈ s.admitted) (hr : ¬ s.Holds r) :
    s.phase r = some .ended := by
  have hlt := hs.admitted_lt r hadm
  have hphase : s.phase r = some (s.requests[r]).phase := by simp [HttpServer.phase, hlt]
  have hnotq : ¬ s.phase r = some .queued := by
    intro hq
    exact Nat.lt_irrefl r (hs.admitted_lt_waiter r hadm r ((hs.waiter_iff r).2 hq))
  cases hp : (s.requests[r]).phase with
  | queued => exact absurd (hphase.trans (congrArg some hp)) hnotq
  | ended => rw [hphase, hp]
  | serving | responded | streaming => exact absurd ⟨_, hphase.trans (congrArg some hp), rfl⟩ hr

theorem conserved_iff (hs : AdmissionInv s) : Conserved s ↔ s.dropped = [] := by
  constructor
  · intro hcons
    refine eq_nil_iff_forall_not_mem.2 ?_
    intro r hr
    obtain ⟨hadm, hrel⟩ := hs.dropped_sub r hr
    have hnot : ¬ s.Holds r := fun h => ((hs.holds_iff r).1 h).2.2 hr
    exact hrel (hcons.given_back r hadm (hs.over_of_not_holds hadm hnot))
  · intro hnone
    have hback : ∀ r ∈ s.admitted, s.phase r = some .ended → r ∈ s.released := by
      intro r hadm hover
      by_contra hrel
      obtain ⟨p, hp, hholds⟩ := (hs.holds_iff r).2 ⟨hadm, hrel, by simp [hnone]⟩
      rw [hover] at hp
      cases hp
      cases hholds
    refine ⟨hback, ?_⟩
    intro hall
    -- everyone admitted is over, so everyone admitted has given a slot back
    have hsub : s.admitted.Subperm s.released := by
      refine subperm_of_subset (hs.admitted_sorted.imp fun hlt => Nat.ne_of_lt hlt) ?_
      intro r hr
      have hlt := hs.admitted_lt r hr
      have hphase : s.phase r = some (s.requests[r]).phase := by simp [HttpServer.phase, hlt]
      exact hback r hr (by rw [hphase, hall r _ hphase])
    have hlen := hsub.length_le
    have := hs.account
    omega

end AdmissionInv

/-! ### Runs -/

/-- The step drops a response whose generator was never entered. -/
def Action.isDrop : Action → Bool
  | .drop _ => true
  | _ => false

theorem dropped_step {s t : HttpServer} {a : Action} (h : step s a = some t) :
    (t.dropped = [] ↔ s.dropped = [] ∧ a.isDrop = false) := by
  cases a with
  | arrive endpoint stream =>
    cases h
    unfold HttpServer.arrive
    dsimp only
    split <;> simp [Action.isDrop]
  | check r =>
    simp only [step, ite_none_right_eq_some, some.injEq] at h
    rw [← h.2]
    unfold HttpServer.check
    split <;> simp [Action.isDrop, HttpServer.move]
  | _ r =>
    simp only [step, ite_none_right_eq_some, some.injEq] at h
    rw [← h.2]
    simp [Action.isDrop, HttpServer.move, HttpServer.giveBack]

theorem dropped_run {s t : HttpServer} {as : List Action} (hrun : Run step s as t)
    (hs : s.dropped = []) : t.dropped = [] ↔ ∀ a ∈ as, a.isDrop = false := by
  induction hrun with
  | nil => simp [hs]
  | snoc _ _ h ih =>
    rw [dropped_step h, ih]
    simp [or_imp, forall_and]

/-- **Admission slots are conserved exactly in the runs that drop no unstarted response.**  In
every run the slots in use are bounded, waiters are admitted in arrival order and no slot is
given back twice or while it is in use; moreover every slot is given back, and none is left in
use when all requests are over, if and only if the body of every streaming response is entered
before the response is dropped. -/
theorem slots_conserved_iff {maxConcurrent maxQueued : ℤ} {as : List Action} {s : HttpServer}
    (hrun : Run step (HttpServer.init maxConcurrent maxQueued) as s) :
    Bounded s ∧ (Conserved s ↔ ∀ a ∈ as, a.isDrop = false) := by
  have hs := AdmissionInv.of_run hrun
  refine ⟨hs.bounded, ?_⟩
  rw [hs.conserved_iff]
  exact dropped_run hrun rfl

/-- A waiter, a stream abandoned at a `yield` and a handler error: all slots come back. -/
theorem slots_conserved_iff_waiter : ∃ s, Run step (HttpServer.init 1 1)
        [.arrive .chatCompletions true, .arrive .completions false, .respond 0, .enterBody 0,
          .check 1, .teardown 0, .check 1, .finish 1] s ∧
      s.admitted = [0, 1] ∧ Bounded s ∧ Conserved s := by
  obtain ⟨s, hs, hadm⟩ : ∃ s, foldlM step (HttpServer.init 1 1)
      [.arrive .chatCompletions true, .arrive .completions false, .respond 0, .enterBody 0,
        .check 1, .teardown 0, .check 1, .finish 1] = some s ∧ s.admitted = [0, 1] :=
    ⟨_, rfl, by decide⟩
  have hrun := Run.of_foldlM hs
  obtain ⟨hbounded, hconserved⟩ := slots_conserved_iff hrun
  exact ⟨s, hrun, hadm, hbounded, hconserved.2 (by decide)⟩

/-- **A response dropped before its body is entered keeps its slot**: all requests are over, one
slot is in use, and with one slot in all the next request waits for ever. -/
theorem dropped_generator_keeps_slot :
    ∃ s, Run step (HttpServer.init 1 1) [.arrive .chatCompletions true, .respond 0, .drop 0] s ∧
      s.requests.map Request.phase = [.ended] ∧ s.admitted = [0] ∧ s.released = [] ∧
      s.queue.active = 1 ∧ ¬ Conserved s := by
  obtain ⟨s, hs, hfacts⟩ : ∃ s, foldlM step (HttpServer.init 1 1)
      [.arrive .chatCompletions true, .respond 0, .drop 0] = some s ∧
        (s.requests.map Request.phase = [.ended] ∧ s.admitted = [0] ∧ s.released = [] ∧
          s.queue.active = 1 ∧ s.phase 0 = some .ended) :=
    ⟨_, rfl, by decide⟩
  obtain ⟨hphases, hadm, hrel, hactive, hover⟩ := hfacts
  refine ⟨s, Run.of_foldlM hs, hphases, hadm, hrel, hactive, ?_⟩
  intro hcons
  have := hcons.given_back 0 (by simp [hadm]) hover
  simp [hrel] at this

end LayerStorm.Server
