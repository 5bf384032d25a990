import LayerStorm.Lib.Ledger
import LayerStorm.Memory.ArenaCache

/-!
# Filling arena slots off the daemon thread

A cold expert is read into its slot by a pool of workers or by the kernel.  The pool has a queue of
jobs.  The other backend prepares a read in the submission queue of an `io_uring`, hands all
prepared reads to the kernel with one call and fetches their completions later; a read is known by
its token.  The call may fail, and the read that was prepared for it then stays in the queue.

## Main results

* `arena_loader_faithful` — the backends write only where they were told to and answer every load
  once.
-/

namespace LayerStorm.Memory

open List
namespace ArenaLoader

open Lib

/-- The arguments of `submit` that come back in the completion; a null pointer is `none`. -/
structure Request where
  key : ExpertKey
  gpu : ℤ
  dst : Option ℕ
  deriving DecidableEq

structure ArenaLoadCompletion where
  key : ExpertKey
  gpu : ℤ
  dst : Option ℕ
  success : Bool
  deriving DecidableEq

/-- The completion of a load, which is successful if the full length was read. -/
def Request.completion (r : Request) (full : Bool) : ArenaLoadCompletion :=
  ⟨r.key, r.gpu, r.dst, full⟩

/-- What has happened at a loader. -/
abbrev Log := History Request ArenaLoadCompletion (Option ℕ)

/-- The ledger of a loader. -/
abbrev Books (log : Log) (active : List (ℕ × Request))
    (waiting : List (ℕ × ArenaLoadCompletion)) : Prop :=
  Ledger Request.key Request.dst Request.completion log active waiting

/-- What the callers of a loader rely on. -/
abbrev Trusted (log : Log) : Prop := Faithful Request.key Request.dst Request.completion log

/-! ### The worker pool -/

/-- A loader with workers.  A job stands with the number of the call that queued it. -/
structure Pool where
  workers : ℕ
  jobs : List (ℕ × Request)
  running : List (ℕ × Request)
  done : List (ℕ × ArenaLoadCompletion)
  inflight : List ExpertKey
  log : Log

namespace Pool

def init (numWorkers : ℕ) : Pool := ⟨max 1 numWorkers, [], [], [], [], History.empty⟩

def submit (p : Pool) (r : Request) (hasSource : Bool) : Pool :=
  if r.dst = none ∨ hasSource = false then { p with log := p.log.decline r }
  else if r.key ∈ p.inflight then { p with log := p.log.decline r }
  else { p with
    inflight := p.inflight ++ [r.key]
    jobs := p.jobs ++ [(p.log.calls, r)]
    log := p.log.accept r }

/-- What happens at a pool. -/
inductive Action
  /-- A call of `submit`, with a source or without. -/
  | submit (r : Request) (hasSource : Bool)
  /-- A worker takes a job. -/
  | take
  /-- `load_into` of a running job writes. -/
  | write (i : ℕ)
  /-- `load_into` of a running job returns. -/
  | finish (i : ℕ) (full : Bool)
  /-- `poll_completed` or `wait_completed`. -/
  | poll

def step (p : Pool) : Action → Option Pool
  | .submit r hasSource => some (p.submit r hasSource)
  | .take =>
    match p.jobs with
    | [] => none
    | job :: jobs =>
      if p.running.length < p.workers then
        some { p with jobs := jobs, running := p.running ++ [job] }
      else none
  | .write i => do
    let job ← p.running[i]?
    some { p with log := p.log.write job.1 job.2.dst }
  | .finish i full => do
    let job ← p.running[i]?
    some { p with
      running := p.running.eraseIdx i
      done := p.done ++ [(job.1, job.2.completion full)]
      inflight := p.inflight.filter (· ≠ job.2.key)
      log := p.log.finish job.1 full }
  | .poll => some { p with done := [], log := p.log.reply p.done }

end Pool

/-! ### The ring -/

/-- What `read_descriptor` says of an expert. -/
structure ReadDescriptor where
  fd : ℤ
  offset : ℤ
  len : ℤ
  deriving DecidableEq

/-- `UringPending`, with the number of the call. -/
structure UringPending where
  call : ℕ
  request : Request
  len : ℤ
  deriving DecidableEq

/-- A prepared read, with the load it was prepared for. -/
structure Sqe where
  token : ℕ
  fd : ℤ
  off : ℤ
  dst : Option ℕ
  nbytes : ℤ
  load : UringPending
  deriving DecidableEq

def fullLength (res len : ℤ) : Bool := 0 ≤ res ∧ res = len

/-- A loader with a ring.  The submission queue holds the reads that were prepared and not yet
handed over, `kernel` those that were handed over and `cq` the completions. -/
structure Ring where
  depth : ℕ
  sq : List Sqe
  kernel : List Sqe
  cq : List (ℕ × ℤ)
  nextToken : ℕ
  uringInflight : List (ℕ × UringPending)
  inflight : List ExpertKey
  log : Log

namespace Ring

def init (queueDepth : ℤ) : Ring :=
  ⟨if queueDepth ≤ 0 then 64 else queueDepth.toNat, [], [], [], 1, [], [], History.empty⟩

/-- The read that `submit` prepares, if it comes to that. -/
def prepares (s : Ring) (r : Request) (src : Option (ExpertKey → Option ReadDescriptor)) :
    Option ReadDescriptor := do
  let _ ← r.dst
  let src ← src
  guard (r.key ∉ s.inflight)
  let d ← src r.key
  -- the submission queue may be full
  guard (s.sq.length < s.depth)
  some d

/-- `submit`; `submitted` tells whether `io_uring_submit` succeeds. -/
def submit (s : Ring) (r : Request) (src : Option (ExpertKey → Option ReadDescriptor))
    (submitted : Bool) : Ring :=
  match s.prepares r src with
  | none => { s with log := s.log.decline r }
  | some d =>
    let load : UringPending := ⟨s.log.calls, r, d.len⟩
    let sq := s.sq ++ [⟨s.nextToken, d.fd, d.offset, r.dst, d.len % 2 ^ 32, load⟩]
    if submitted then
      { s with
        sq := []
        kernel := s.kernel ++ sq
        nextToken := s.nextToken + 1
        uringInflight := s.uringInflight ++ [(s.nextToken, load)]
        inflight := s.inflight ++ [r.key]
        log := s.log.accept r }
    else { s with sq := sq, nextToken := s.nextToken + 1, log := s.log.decline r }

/-- Seeing one completion. -/
def reap (s : Ring) : Ring :=
  match s.cq with
  | [] => s
  | (token, res) :: cq =>
    match s.uringInflight.lookup token with
    | none => { s with cq := cq }
    | some p =>
      { s with
        cq := cq
        uringInflight := s.uringInflight.filter (·.1 ≠ token)
        inflight := s.inflight.filter (· ≠ p.request.key)
        log := s.log.reply [(p.call, p.request.completion (fullLength res p.len))] }

/-- Seeing all completions. -/
def drain (s : Ring) : Ring := reap^[s.cq.length] s

/-- What happens at a ring. -/
inductive Action
  | submit (r : Request) (src : Option (ExpertKey → Option ReadDescriptor)) (submitted : Bool)
  /-- A read writes. -/
  | write (i : ℕ)
  /-- A read completes. -/
  | complete (i : ℕ) (res : ℤ)
  | poll
  /-- `wait_completed`, which waits for a completion unless it is interrupted. -/
  | wait (interrupted : Bool)

def step (s : Ring) : Action → Option Ring
  | .submit r src submitted => some (s.submit r src submitted)
  | .write i => do
    let q ← s.kernel[i]?
    some { s with log := s.log.write q.load.call q.dst }
  | .complete i res => do
    let q ← s.kernel[i]?
    guard (res ≤ q.nbytes)
    some { s with
      kernel := s.kernel.eraseIdx i
      cq := s.cq ++ [(q.token, res)]
      log := s.log.finish q.load.call (fullLength res q.load.len) }
  | .poll => some (if s.uringInflight = [] then s else s.drain)
  | .wait interrupted =>
    if s.uringInflight = [] then some s
    else if s.cq = [] ∧ interrupted = false then none
    else some s.drain

/-- `io_uring_submit` does not fail where a read was prepared. -/
def Healthy (s : Ring) : Action → Prop
  | .submit r src submitted => submitted = true ∨ s.prepares r src = none
  | _ => True

end Ring

/-! ### The pool keeps its ledger -/

structure PoolInv (p : Pool) : Prop where
  workers : 0 < p.workers
  inflight : ∀ k, k ∈ p.inflight ↔ ∃ x ∈ p.running ++ p.jobs, x.2.key = k
  books : Books p.log (p.running ++ p.jobs) p.done

namespace PoolInv

variable {p p' : Pool}

theorem init (numWorkers : ℕ) : PoolInv (Pool.init numWorkers) where
  workers := Nat.lt_of_lt_of_le Nat.zero_lt_one (le_max_left _ _)
  inflight := by simp [Pool.init]
  books := Ledger.empty

theorem submit (h : PoolInv p) (r : Request) (hasSource : Bool) :
    PoolInv (p.submit r hasSource) := by
  have hdecline : PoolInv { p with log := p.log.decline r } :=
    ⟨h.workers, h.inflight, h.books.decline r⟩
  unfold Pool.submit
  split
  · exact hdecline
  split
  · exact hdecline
  next hkey =>
  refine ⟨h.workers, fun k => ?_, ?_⟩
  · rw [mem_append, h.inflight, ← append_assoc]
    simp only [mem_append, mem_singleton, or_and_right, exists_or, exists_eq_left, eq_comm (a := k)]
  · rw [← append_assoc]
    exact h.books.accept fun x hx heq => hkey ((h.inflight _).2 ⟨x, hx, heq⟩)

theorem finish (h : PoolInv p) {i : ℕ} {full : Bool} (hstep : p.step (.finish i full) = some p') :
    PoolInv p' := by
  simp only [Pool.step, Option.bind_eq_bind, Option.bind_eq_some_iff, Option.some.injEq] at hstep
  obtain ⟨job, hjob, rfl⟩ := hstep
  obtain ⟨hi, rfl⟩ := List.getElem?_eq_some_iff.1 hjob
  obtain ⟨l, r, hrunning, hlen⟩ : ∃ l r, p.running = l ++ p.running[i] :: r ∧ l.length = i :=
    ⟨p.running.take i, p.running.drop (i + 1), by simp, by simp [hi.le]⟩
  set job := p.running[i]
  have herase : p.running.eraseIdx i = l ++ r := by
    rw [hrunning, ← hlen, eraseIdx_append_of_length_le le_rfl, Nat.sub_self, eraseIdx_cons_zero]
  have hbooks := h.books
  rw [hrunning, append_assoc, cons_append] at hbooks
  refine ⟨h.workers, fun k => ?_, ?_⟩
  · rw [herase, mem_filter, h.inflight, hrunning]
    have hkeys := hbooks.keys
    rw [map_append, map_cons, nodup_middle, nodup_cons, ← map_append, ← append_assoc] at hkeys
    constructor
    · rintro ⟨⟨x, hx, rfl⟩, hne⟩
      refine ⟨x, ?_, rfl⟩
      rw [append_assoc] at hx
      rcases mem_append.1 hx with hx | hx
      · rw [append_assoc]
        exact mem_append_left _ hx
      rcases mem_cons.1 hx with rfl | hx
      · simp at hne
      · rw [append_assoc]
        exact mem_append_right _ hx
    · rintro ⟨x, hx, rfl⟩
      refine ⟨⟨x, ?_, rfl⟩, ?_⟩
      · rw [append_assoc] at hx
        rw [append_assoc]
        rcases mem_append.1 hx with hx | hx
        · exact mem_append_left _ hx
        · exact mem_append_right _ (mem_cons_of_mem _ hx)
      · -- no other job has the key
        simp only [ne_eq, decide_not, Bool.not_eq_eq_eq_not, Bool.not_true, decide_eq_false_iff_not]
        exact fun heq => hkeys.1 (heq ▸ mem_map_of_mem hx)
  · rw [herase, append_assoc]
    exact hbooks.finish full

theorem step (h : PoolInv p) {a : Pool.Action} (hstep : p.step a = some p') : PoolInv p' := by
  cases a with
  | submit r hasSource =>
    cases hstep
    exact h.submit r hasSource
  | take =>
    simp only [Pool.step] at hstep
    split at hstep
    · cases hstep
    next job jobs hjobs =>
    split at hstep
    · cases hstep
      have hsame : p.running ++ p.jobs = (p.running ++ [job]) ++ jobs := by
        rw [hjobs, append_assoc, singleton_append]
      refine ⟨h.workers, ?_, ?_⟩
      · rw [← hsame]
        exact h.inflight
      · rw [← hsame]
        exact h.books
    · cases hstep
  | write i =>
    simp only [Pool.step, Option.bind_eq_bind, Option.bind_eq_some_iff, Option.some.injEq] at hstep
    obtain ⟨job, hjob, rfl⟩ := hstep
    exact ⟨h.workers, h.inflight, h.books.write (mem_append_left _ (mem_of_getElem? hjob))⟩
  | finish i full => exact h.finish hstep
  | poll =>
    cases hstep
    have hbooks := h.books
    rw [← append_nil p.done] at hbooks
    exact ⟨h.workers, h.inflight, hbooks.reply⟩

theorem run_idle : ∀ {n : ℕ} {p : Pool}, PoolInv p → 2 * p.jobs.length + p.running.length ≤ n →
    ∃ as q, Run Pool.step p as q ∧ q.log.accepted = p.log.accepted ∧ q.running = [] ∧
      q.jobs = [] := by
  intro n
  induction n with
  | zero =>
    intro p _ hn
    exact ⟨[], p, GuardedRun.nil p, rfl, eq_nil_of_length_eq_zero (by omega),
      eq_nil_of_length_eq_zero (by omega)⟩
  | succ n ih =>
    intro p h hn
    cases hrunning : p.running with
    | cons job running =>
      -- a running job returns
      obtain ⟨p', hstep, hjobs, hrest, hacc⟩ : ∃ p', p.step (.finish 0 true) = some p' ∧
          p'.jobs = p.jobs ∧ p'.running = running ∧ p'.log.accepted = p.log.accepted := by
        refine ⟨{ p with
          running := running
          done := p.done ++ [(job.1, job.2.completion true)]
          inflight := p.inflight.filter (· ≠ job.2.key)
          log := p.log.finish job.1 true }, ?_, rfl, rfl, rfl⟩
        simp only [Pool.step, hrunning]
        rfl
      have hlen : 2 * p'.jobs.length + p'.running.length ≤ n := by
        rw [hjobs, hrest]
        rw [hrunning, length_cons] at hn
        omega
      obtain ⟨as, q, hrun, hacc', hidle⟩ := ih (h.step hstep) hlen
      exact ⟨_, q, Run.cons hstep hrun, hacc'.trans hacc, hidle⟩
    | nil =>
      cases hqueue : p.jobs with
      | nil => exact ⟨[], p, GuardedRun.nil p, rfl, hrunning, hqueue⟩
      | cons job jobs =>
        -- a worker takes a job
        obtain ⟨p', hstep, hjobs, hrest, hacc⟩ : ∃ p', p.step .take = some p' ∧
            p'.jobs = jobs ∧ p'.running = [job] ∧ p'.log.accepted = p.log.accepted := by
          refine ⟨{ p with jobs := jobs, running := p.running ++ [job] }, ?_, rfl, ?_, rfl⟩
          · simp only [Pool.step, hqueue]
            rw [if_pos (by rw [hrunning]; exact h.workers)]
          · rw [hrunning, nil_append]
        have hlen : 2 * p'.jobs.length + p'.running.length ≤ n := by
          rw [hjobs, hrest]
          rw [hqueue, length_cons] at hn
          rw [length_singleton]
          omega
        obtain ⟨as, q, hrun, hacc', hidle⟩ := ih (h.step hstep) hlen
        exact ⟨_, q, Run.cons hstep hrun, hacc'.trans hacc, hidle⟩

theorem settle (h : PoolInv p) : ∃ as q, Run Pool.step p as q ∧
    q.log.accepted = p.log.accepted ∧ ∀ x ∈ q.log.accepted, x.1 ∈ q.log.out.map Prod.fst := by
  obtain ⟨as, q, hrun, hacc, hrunning, hjobs⟩ := h.run_idle le_rfl
  have hq : PoolInv q := hrun.invariant (fun _ _ _ hi _ hs => hi.step hs) h
  have hpoll : q.step .poll = some { q with done := [], log := q.log.reply q.done } := rfl
  have hbooks := (hq.step hpoll).books
  rw [hrunning, hjobs] at hbooks
  exact ⟨_, _, hrun.append (Run.cons hpoll (GuardedRun.nil _)), hacc, hbooks.settled⟩

end PoolInv

/-! ### The ring keeps its ledger -/

/-- The answers of the completions that are not seen yet. -/
def waiting (m : List (ℕ × UringPending)) (cq : List (ℕ × ℤ)) : List (ℕ × ArenaLoadCompletion) :=
  cq.filterMap fun e => (m.lookup e.1).map fun p =>
    (p.call, p.request.completion (fullLength e.2 p.len))

/-- The invariant of a ring whose submission call does not fail: nothing stays in the submission
queue, and a read or a completion belongs to the load of its token. -/
structure RingInv (s : Ring) : Prop where
  sq : s.sq = []
  inflight : s.inflight = s.uringInflight.map fun x => x.2.request.key
  keys : s.inflight.Nodup
  tokens : (s.uringInflight.map Prod.fst).Nodup
  next : ∀ t ∈ s.uringInflight.map Prod.fst, t < s.nextToken
  kernel : ∀ q ∈ s.kernel, (q.token, q.load) ∈ s.uringInflight ∧ q.dst = q.load.request.dst
  cq : ∀ e ∈ s.cq, e.1 ∈ s.uringInflight.map Prod.fst
  once : (s.kernel.map (·.token) ++ s.cq.map Prod.fst).Nodup
  books : Books s.log (s.kernel.map fun q => (q.load.call, q.load.request))
    (waiting s.uringInflight s.cq)

section Lookup

variable {β : Type*} {m : List (ℕ × β)} {k : ℕ}

theorem lookup_eq_some_of_mem {v : β} (hm : (m.map Prod.fst).Nodup) (h : (k, v) ∈ m) :
    m.lookup k = some v := by
  induction m with
  | nil => exact absurd h not_mem_nil
  | cons x m ih =>
    obtain ⟨k', v'⟩ := x
    rw [map_cons, nodup_cons] at hm
    rw [lookup_cons]
    rcases mem_cons.1 h with heq | h
    · cases heq
      rw [beq_self_eq_true]
    · have hne : k ≠ k' := fun heq => hm.1 (mem_map.2 ⟨_, h, heq⟩)
      rw [beq_false_of_ne hne]
      exact ih hm.2 h

theorem lookup_filter_ne {k' : ℕ} (hne : k ≠ k') : (m.filter (·.1 ≠ k')).lookup k = m.lookup k := by
  induction m with
  | nil => rfl
  | cons x m ih =>
    obtain ⟨a, v⟩ := x
    by_cases ha : a = k'
    · subst ha
      rw [filter_cons_of_neg (by simp), ih, lookup_cons, beq_false_of_ne hne]
    · rw [filter_cons_of_pos (by simpa using ha), lookup_cons, lookup_cons, ih]

end Lookup

namespace RingInv

variable {s s' : Ring}

theorem init (queueDepth : ℤ) : RingInv (Ring.init queueDepth) where
  sq := rfl
  inflight := rfl
  keys := nodup_nil
  tokens := nodup_nil
  next := by simp [Ring.init]
  kernel := by simp [Ring.init]
  cq := by simp [Ring.init]
  once := nodup_nil
  books := Ledger.empty

section

variable (h : RingInv s)
include h

theorem submit {r : Request} {src : Option (ExpertKey → Option ReadDescriptor)} {submitted : Bool}
    (hok : submitted = true ∨ s.prepares r src = none) :
    RingInv (s.submit r src submitted) := by
  unfold Ring.submit
  cases hprep : s.prepares r src with
  | none =>
    exact { h with books := h.books.decline r }
  | some d =>
    obtain rfl := hok.resolve_right (by rw [hprep]; exact Option.some_ne_none d)
    have hkey : r.key ∉ s.inflight := by
      unfold Ring.prepares at hprep
      simp only [Option.bind_eq_bind, Option.bind_eq_some_iff, Option.guard_eq_some'] at hprep
      obtain ⟨_, _, _, _, _, hkey, -⟩ := hprep
      exact hkey
    have hnew : s.nextToken ∉ s.uringInflight.map Prod.fst := fun hmem =>
      absurd (h.next _ hmem) (lt_irrefl _)
    have hkernel : ∀ q ∈ s.kernel, q.token ∈ s.uringInflight.map Prod.fst := fun q hq =>
      mem_map.2 ⟨_, (h.kernel q hq).1, rfl⟩
    dsimp only
    rw [if_pos rfl, h.sq, nil_append]
    refine ⟨rfl, ?_, ?_, ?_, ?_, ?_, ?_, ?_, ?_⟩
    · rw [map_append, h.inflight]
      rfl
    · exact nodup_append.2 ⟨h.keys, nodup_singleton _, fun a ha b hb heq =>
        hkey (by rw [← mem_singleton.1 hb, ← heq]; exact ha)⟩
    · rw [map_append]
      refine nodup_append.2 ⟨h.tokens, nodup_singleton _, fun a ha b hb heq => ?_⟩
      have hb : b = s.nextToken := mem_singleton.1 hb
      rw [heq, hb] at ha
      exact hnew ha
    · intro t ht
      rw [map_append] at ht
      rcases mem_append.1 ht with ht | ht
      · exact (h.next t ht).trans (Nat.lt_succ_self _)
      · rw [mem_singleton.1 ht]
        exact Nat.lt_succ_self _
    · intro q hq
      rcases mem_append.1 hq with hq | hq
      · exact ⟨mem_append_left _ (h.kernel q hq).1, (h.kernel q hq).2⟩
      · rw [mem_singleton.1 hq]
        exact ⟨mem_append_right _ (mem_singleton_self _), rfl⟩
    · intro e he
      rw [map_append]
      exact mem_append_left _ (h.cq e he)
    · rw [map_append, append_assoc, map_singleton, singleton_append, nodup_middle, nodup_cons]
      refine ⟨fun hmem => hnew ?_, h.once⟩
      rcases mem_append.1 hmem with hmem | hmem
      · obtain ⟨q, hq, heq⟩ := mem_map.1 hmem
        have hq := hkernel q hq
        rw [heq] at hq
        exact hq
      · obtain ⟨e, he, heq⟩ := mem_map.1 hmem
        have he := h.cq e he
        rw [heq] at he
        exact he
    · -- the completions that are not seen yet are those of older tokens
      have hsame : waiting (s.uringInflight ++ [(s.nextToken, ⟨s.log.calls, r, d.len⟩)]) s.cq =
          waiting s.uringInflight s.cq := by
        refine filterMap_congr fun e he => ?_
        obtain ⟨x, hx, heq⟩ := mem_map.1 (h.cq e he)
        obtain ⟨t, p⟩ := x
        have hlook : s.uringInflight.lookup e.1 = some p :=
          heq ▸ lookup_eq_some_of_mem h.tokens hx
        rw [lookup_append, hlook]
        rfl
      rw [hsame, map_append]
      refine h.books.accept fun x hx heq => hkey ?_
      obtain ⟨q, hq, rfl⟩ := mem_map.1 hx
      rw [h.inflight, ← heq]
      exact mem_map.2 ⟨_, (h.kernel q hq).1, rfl⟩

theorem exists_lookup {t : ℕ} (ht : t ∈ s.uringInflight.map Prod.fst) :
    ∃ p, (t, p) ∈ s.uringInflight ∧ s.uringInflight.lookup t = some p := by
  obtain ⟨⟨t', p⟩, hx, rfl⟩ := mem_map.1 ht
  exact ⟨p, hx, lookup_eq_some_of_mem h.tokens hx⟩

theorem complete {i : ℕ} {res : ℤ} (hstep : s.step (.complete i res) = some s') : RingInv s' := by
  simp only [Ring.step, Option.bind_eq_bind, Option.bind_eq_some_iff, Option.guard_eq_some',
    Option.some.injEq] at hstep
  obtain ⟨q, hq, _, -, rfl⟩ := hstep
  obtain ⟨hi, rfl⟩ := List.getElem?_eq_some_iff.1 hq
  obtain ⟨l, r, hkernel, hlen⟩ : ∃ l r, s.kernel = l ++ s.kernel[i] :: r ∧ l.length = i :=
    ⟨s.kernel.take i, s.kernel.drop (i + 1), by simp, by simp [hi.le]⟩
  set q := s.kernel[i]
  have herase : s.kernel.eraseIdx i = l ++ r := by
    rw [hkernel, ← hlen, eraseIdx_append_of_length_le le_rfl, Nat.sub_self, eraseIdx_cons_zero]
  have hin : q ∈ s.kernel := mem_of_getElem? hq
  obtain ⟨hmem, -⟩ := h.kernel q hin
  have hwaiting : waiting s.uringInflight (s.cq ++ [(q.token, res)]) =
      waiting s.uringInflight s.cq ++
        [(q.load.call, q.load.request.completion (fullLength res q.load.len))] := by
    unfold waiting
    rw [filterMap_append, filterMap_cons, lookup_eq_some_of_mem h.tokens hmem]
    rfl
  have hbooks := h.books
  have honce := h.once
  rw [hkernel, map_append, map_cons] at hbooks honce
  refine { h with kernel := fun q' hq' => ?_, cq := fun e he => ?_, once := ?_, books := ?_ }
  · exact h.kernel q' (mem_of_mem_eraseIdx hq')
  · rcases mem_append.1 he with he | he
    · exact h.cq e he
    · rw [mem_singleton.1 he]
      exact mem_map.2 ⟨_, hmem, rfl⟩
  · rw [herase, map_append, map_append, map_singleton, ← append_assoc,
      nodup_append_comm, singleton_append]
    rw [append_assoc, cons_append, nodup_middle, ← append_assoc] at honce
    exact honce
  · rw [herase, hwaiting, map_append]
    exact hbooks.finish _

theorem reap : RingInv s.reap := by
  unfold Ring.reap
  cases hcq : s.cq with
  | nil => exact h
  | cons e cq =>
    obtain ⟨token, res⟩ := e
    have hin : ∀ e ∈ (token, res) :: cq, e.1 ∈ s.uringInflight.map Prod.fst := hcq ▸ h.cq
    obtain ⟨p, hmem, hlook⟩ := h.exists_lookup (hin _ mem_cons_self)
    have honce := h.once
    rw [hcq, map_cons, nodup_middle, nodup_cons, mem_append, not_or] at honce
    obtain ⟨⟨hnotKernel, hnotCq⟩, honce⟩ := honce
    dsimp only at hmem hlook hnotKernel hnotCq
    -- the other loads stay
    have hstays : ∀ {x}, x ∈ s.uringInflight → x.1 ≠ token →
        x ∈ s.uringInflight.filter (·.1 ≠ token) := fun hx hne =>
      mem_filter.2 ⟨hx, decide_eq_true hne⟩
    have hsub : (s.uringInflight.filter (·.1 ≠ token)).Sublist s.uringInflight :=
      filter_sublist
    have hinflight : s.inflight.filter (· ≠ p.request.key) =
        (s.uringInflight.filter (·.1 ≠ token)).map fun x => x.2.request.key := by
      have hkeys := h.keys
      rw [h.inflight] at hkeys ⊢
      rw [filter_map]
      refine congrArg _ (filter_congr fun x hx => ?_)
      -- two pending loads have the same key just if they have the same token
      refine decide_eq_decide.2 (not_congr ⟨fun heq => ?_, fun heq => ?_⟩)
      · exact congrArg Prod.fst (inj_on_of_nodup_map hkeys hx hmem heq)
      · rw [inj_on_of_nodup_map h.tokens hx hmem heq]
    have hwaiting : waiting s.uringInflight s.cq =
        (p.call, p.request.completion (fullLength res p.len)) ::
          waiting (s.uringInflight.filter (·.1 ≠ token)) cq := by
      unfold waiting
      rw [hcq, filterMap_cons, hlook]
      refine congrArg _ (filterMap_congr fun e he => ?_)
      have hne : e.1 ≠ token := fun heq => hnotCq (heq ▸ mem_map_of_mem he)
      rw [lookup_filter_ne hne]
    have hbooks := h.books
    rw [hwaiting] at hbooks
    dsimp only
    rw [hlook]
    refine ⟨h.sq, hinflight, h.keys.filter _, h.tokens.sublist (hsub.map _), fun t ht => ?_,
      fun q hq => ⟨hstays (h.kernel q hq).1 fun heq => ?_, (h.kernel q hq).2⟩, fun e he => ?_,
      honce, hbooks.reply⟩
    · exact h.next t ((hsub.map _).subset ht)
    · exact hnotKernel (heq ▸ mem_map_of_mem hq)
    · obtain ⟨x, hx, heq⟩ := mem_map.1 (hin e (mem_cons_of_mem _ he))
      refine mem_map.2 ⟨x, hstays hx fun htoken => hnotCq ?_, heq⟩
      rw [← htoken, heq]
      exact mem_map_of_mem he

theorem cq_reap : s.reap.cq = s.cq.tail ∧ s.reap.kernel = s.kernel ∧
    s.reap.log.accepted = s.log.accepted := by
  unfold Ring.reap
  cases hcq : s.cq with
  | nil => exact ⟨hcq, rfl, rfl⟩
  | cons e cq =>
    obtain ⟨p, -, hlook⟩ := h.exists_lookup (h.cq e (hcq ▸ mem_cons_self))
    dsimp only
    rw [hlook]
    exact ⟨rfl, rfl, rfl⟩

theorem drain_spec : RingInv s.drain ∧ s.drain.cq = [] ∧
    s.drain.kernel = s.kernel ∧ s.drain.log.accepted = s.log.accepted := by
  have hn : ∀ n, RingInv (Ring.reap^[n] s) ∧ (Ring.reap^[n] s).cq = s.cq.drop n ∧
      (Ring.reap^[n] s).kernel = s.kernel ∧
      (Ring.reap^[n] s).log.accepted = s.log.accepted := by
    intro n
    induction n with
    | zero => exact ⟨h, rfl, rfl, rfl⟩
    | succ n ih =>
      obtain ⟨hinv, hcq, hkernel, hacc⟩ := ih
      obtain ⟨hcq', hkernel', hacc'⟩ := hinv.cq_reap
      rw [Function.iterate_succ_apply']
      refine ⟨hinv.reap, ?_, hkernel'.trans hkernel, hacc'.trans hacc⟩
      rw [hcq', hcq, tail_drop]
  obtain ⟨hinv, hcq, hkernel, hacc⟩ := hn s.cq.length
  rw [drop_length] at hcq
  exact ⟨hinv, hcq, hkernel, hacc⟩

theorem step {a : Ring.Action} (hok : s.Healthy a) (hstep : s.step a = some s') : RingInv s' := by
  cases a with
  | submit r src submitted =>
    cases hstep
    exact h.submit hok
  | write i =>
    simp only [Ring.step, Option.bind_eq_bind, Option.bind_eq_some_iff, Option.some.injEq] at hstep
    obtain ⟨q, hq, rfl⟩ := hstep
    have hin : q ∈ s.kernel := mem_of_getElem? hq
    have hactive : (q.load.call, q.load.request) ∈
        s.kernel.map fun q => (q.load.call, q.load.request) := mem_map.2 ⟨q, hin, rfl⟩
    have hbooks := h.books.write hactive
    rw [← (h.kernel q hin).2] at hbooks
    exact { h with books := hbooks }
  | complete i res => exact h.complete hstep
  | poll =>
    cases hstep
    split
    · exact h
    · exact h.drain_spec.1
  | wait interrupted =>
    simp only [Ring.step] at hstep
    split at hstep
    · exact Option.some.inj hstep ▸ h
    split at hstep
    · cases hstep
    · exact Option.some.inj hstep ▸ h.drain_spec.1

end

theorem run_idle : ∀ {n : ℕ} {s : Ring}, RingInv s → s.kernel.length = n →
    ∃ as t, GuardedRun Ring.step Ring.Healthy s as t ∧ t.log.accepted = s.log.accepted ∧
      t.kernel = [] := by
  intro n
  induction n with
  | zero => exact fun {s} _ hn =>
      ⟨[], s, GuardedRun.nil s, rfl, eq_nil_of_length_eq_zero hn⟩
  | succ n ih =>
    intro s h hn
    obtain ⟨q, kernel, hkernel⟩ := exists_cons_of_length_eq_add_one hn
    -- the read is given up
    have hstep : s.step (.complete 0 (min (-1) q.nbytes)) = some { s with
        kernel := kernel
        cq := s.cq ++ [(q.token, min (-1) q.nbytes)]
        log := s.log.finish q.load.call (fullLength (min (-1) q.nbytes) q.load.len) } := by
      have hle : min (-1) q.nbytes ≤ q.nbytes := min_le_right _ _
      simp only [Ring.step, hkernel, getElem?_cons_zero, Option.bind_eq_bind,
        Option.bind_some, hle, guard_true, eraseIdx_cons_zero]
      rfl
    have hok : s.Healthy (.complete 0 (min (-1) q.nbytes)) := trivial
    rw [hkernel] at hn
    obtain ⟨as, t, hrun, hacc, hidle⟩ := ih (h.step hok hstep) (Nat.succ.inj hn)
    exact ⟨_, t, GuardedRun.cons hok hstep hrun, hacc, hidle⟩

theorem settle (h : RingInv s) : ∃ as t, GuardedRun Ring.step Ring.Healthy s as t ∧
    t.log.accepted = s.log.accepted ∧ ∀ x ∈ t.log.accepted, x.1 ∈ t.log.out.map Prod.fst := by
  obtain ⟨as, t, hrun, hacc, hkernel⟩ := h.run_idle rfl
  have ht : RingInv t := hrun.invariant (fun _ _ _ hi hok hs => hi.step hok hs) h
  by_cases hnone : t.uringInflight = []
  · -- nothing is pending
    have hcq : t.cq = [] := eq_nil_iff_forall_not_mem.2 fun e he => by
      have hmem := ht.cq e he
      rw [hnone] at hmem
      exact absurd hmem not_mem_nil
    have hbooks := ht.books
    rw [hkernel, hcq] at hbooks
    exact ⟨as, t, hrun, hacc, hbooks.settled⟩
  · have hpoll : t.step .poll = some t.drain := by
      simp only [Ring.step]
      rw [if_neg hnone]
    have hok : t.Healthy .poll := trivial
    obtain ⟨hinv, hcq, hkernel', hacc'⟩ := ht.drain_spec
    have hbooks := hinv.books
    rw [hkernel', hkernel, hcq] at hbooks
    exact ⟨_, _, hrun.append (GuardedRun.cons hok hpoll (GuardedRun.nil _)),
      hacc'.trans hacc, hbooks.settled⟩

end RingInv

/-! ### Both backends -/

/-- **The loader writes only where it was told to**, answers every load once and has one load of a
key at a time: the pool in every run, and the ring in every run whose submission call does not
fail.  From every state the loads can be completed. -/
theorem arena_loader_faithful (numWorkers queueDepth : ℕ) :
    (∀ as p, Run Pool.step (Pool.init numWorkers) as p →
      Trusted p.log ∧ ∃ bs q, Run Pool.step p bs q ∧ q.log.accepted = p.log.accepted ∧
        ∀ x ∈ q.log.accepted, x.1 ∈ q.log.out.map Prod.fst) ∧
    ∀ as s, GuardedRun Ring.step Ring.Healthy (Ring.init queueDepth) as s →
      Trusted s.log ∧ ∃ bs t, GuardedRun Ring.step Ring.Healthy s bs t ∧
        t.log.accepted = s.log.accepted ∧ ∀ x ∈ t.log.accepted, x.1 ∈ t.log.out.map Prod.fst := by
  refine ⟨fun as p hrun => ?_, fun as s hrun => ?_⟩
  · have hp : PoolInv p :=
      hrun.invariant (fun _ _ _ hi _ hs => hi.step hs) (PoolInv.init numWorkers)
    exact ⟨hp.books.faithful, hp.settle⟩
  · have hs : RingInv s :=
      hrun.invariant (fun _ _ _ hi hok hs => hi.step hok hs) (RingInv.init queueDepth)
    exact ⟨hs.books.faithful, hs.settle⟩

def eightBytes : Option (ExpertKey → Option ReadDescriptor) :=
  some fun key => some ⟨3, 8 * key.expertIdx, 8⟩

/-- A read that completes, a declined second load of its expert, and a load that is read in part. -/
def threeCalls : List Ring.Action :=
  [.submit ⟨⟨0, 1⟩, 0, some 64⟩ eightBytes true, .submit ⟨⟨0, 1⟩, 0, some 128⟩ eightBytes true,
    .complete 0 8, .poll, .submit ⟨⟨0, 2⟩, 1, some 128⟩ eightBytes true, .complete 0 5, .wait false]

theorem arena_loader_faithful_three : ∃ s,
    GuardedRun Ring.step Ring.Healthy (Ring.init 4) threeCalls s ∧ Trusted s.log ∧
    s.log.out = [(0, ⟨⟨0, 1⟩, 0, some 64, true⟩), (2, ⟨⟨0, 2⟩, 1, some 128, false⟩)] := by
  obtain ⟨s, hrun, hout⟩ : ∃ s, GuardedRun Ring.step Ring.Healthy (Ring.init 4) threeCalls s ∧
      s.log.out = [(0, ⟨⟨0, 1⟩, 0, some 64, true⟩), (2, ⟨⟨0, 2⟩, 1, some 128, false⟩)] :=
    ⟨_, GuardedRun.of_foldlM rfl (by simp [threeCalls, Ring.Healthy]), rfl⟩
  exact ⟨s, hrun, ((arena_loader_faithful 1 4).2 threeCalls s hrun).1, hout⟩

/-- A submission call fails, and the next one that succeeds hands the declined read over. -/
theorem declined_read_writes : ∃ s, Run Ring.step (Ring.init 4)
    [.submit ⟨⟨0, 1⟩, 0, some 64⟩ eightBytes false, .submit ⟨⟨0, 2⟩, 0, some 128⟩ eightBytes true,
      .write 0] s ∧
    (0, some 64) ∈ s.log.written ∧ 0 ∈ s.log.declined.map Prod.fst ∧ ¬Trusted s.log := by
  refine ⟨_, Run.cons rfl (Run.cons rfl (Run.cons rfl (GuardedRun.nil _))), ?_, ?_, fun ht => ?_⟩
  · exact mem_singleton_self _
  · exact mem_singleton_self _
  · exact (ht.written (0, some 64) (mem_singleton_self _)).2 (mem_singleton_self _)

end ArenaLoader
end LayerStorm.Memory
