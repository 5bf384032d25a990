import Mathlib
import LayerStorm.Lib.Run
import LayerStorm.Lib.SeqCounter

/-!
# The single-producer single-consumer ring

One ring carries commands and another completions between the orchestrator
(Python) and the daemon (C++).  A ring is a header with two free-running 64-bit
counters and `slotCount` slots of `W` words each; both sides are written twice,
in C++ (`SpscRing::try_write / try_read / drain`) and in Python
(`SpscRingWriter.write`, `SpscRingReader.read / drain`).

The model interleaves the producer's and the consumer's micro-steps one memory
access at a time.  A message is a function `Fin W → ω` from word positions to
words, and a copy moves its words one by one, in any order.  Memory is
sequentially consistent: the source relies on total store order and the
release/acquire fences around the copies, which order exactly these accesses.

The two languages differ in one place only, the arithmetic on the counters: C++
subtracts 64-bit unsigned integers, Python subtracts integers without a bound.

## Main results

* `ringSafe_of_run` — every run whose steps meet the condition is safe.
* `queries_exact` — the queries are exact.
* `python_write_overwrites` — without it, a Python write overwrites an unread
  message once its counter has wrapped and the consumer's has not.
-/

namespace LayerStorm.Ipc

open Lib
open Function GuardedRun Nat

/-- The language a call is made from. -/
inductive Side
  | cpp
  | python
  deriving DecidableEq, Repr

variable {W : ℕ} {ω : Type*}

/-- One slot's contents: `W` machine words. -/
abbrev Message (W : ℕ) (ω : Type*) := Fin W → ω

/-- The shared region: `RingHeader` followed by the slots. -/
structure Ring (W : ℕ) (ω : Type*) where
  producerSeq : ℕ
  consumerSeq : ℕ
  slotCount : ℕ
  slots : ℕ → Message W ω

/-- `SpscRing::init`: both counters zero, every slot cleared. -/
def Ring.init [Zero ω] (slotCount : ℕ) : Ring W ω where
  producerSeq := 0
  consumerSeq := 0
  slotCount := slotCount
  slots := fun _ _ => 0

/-- Masking a counter with `slot_count - 1`. -/
def Ring.index (r : Ring W ω) (seq : ℕ) : ℕ := seq &&& (r.slotCount - 1)

def Ring.storeWord (r : Ring W ω) (idx : ℕ) (i : Fin W) (x : ω) : Ring W ω :=
  { r with slots := Function.update r.slots idx (Function.update (r.slots idx) i x) }

/-- The test that makes a write return false: `prod - cons >= slot_count`, on
64-bit unsigned integers in C++ and on unbounded integers in Python. -/
def Side.full : Side → (slotCount prod cons : ℕ) → Bool
  | .cpp, slotCount, prod, cons => slotCount ≤ wrapSub 64 prod cons
  | .python, slotCount, prod, cons => (slotCount : ℤ) ≤ (prod : ℤ) - (cons : ℤ)

/-- A call of `drain` with its `max_count`: a `uint32_t` in C++, any integer in
Python. -/
inductive DrainCall
  | cpp (maxCount : UInt32)
  | python (maxCount : ℤ)
  deriving DecidableEq

/-- The number of slots a drain hands out.  In Python a negative difference makes
`range` empty. -/
def DrainCall.avail : DrainCall → (prod cons : ℕ) → ℕ
  | .cpp maxCount, prod, cons => min maxCount.toNat (wrapSub 64 prod cons)
  | .python maxCount, prod, cons => (min maxCount ((prod : ℤ) - (cons : ℤ))).toNat

/-- The counter of the `j`-th slot of a drain; C++ adds in 64 bits. -/
def DrainCall.seq : DrainCall → (cons j : ℕ) → ℕ
  | .cpp _, cons, j => (cons + j) % 2 ^ 64
  | .python _, cons, j => cons + j

inductive Producer (W : ℕ) (ω : Type*)
  /-- Between two calls. -/
  | idle
  /-- In a write that has loaded its own counter. -/
  | loaded (side : Side) (data : Message W ω) (prod : ℕ)
  /-- Past the full test; the words in `copied` are in the slot. -/
  | copying (data : Message W ω) (prod : ℕ) (copied : Finset (Fin W))

inductive Consumer (W : ℕ) (ω : Type*)
  /-- Between two calls. -/
  | idle
  /-- In a `try_read` that has loaded its own counter. -/
  | readLoaded (cons : ℕ)
  /-- In a `try_read` past the empty test; the words in `copied` are in `buf`. -/
  | readCopy (cons : ℕ) (copied : Finset (Fin W)) (buf : Message W ω)
  /-- In a drain that has loaded its own counter. -/
  | drainLoaded (call : DrainCall) (cons : ℕ)
  /-- In the loop of a drain, at its `j`-th slot of `avail`. -/
  | drainCopy (call : DrainCall) (cons avail j : ℕ) (copied : Finset (Fin W)) (buf : Message W ω)

/-- The shared memory, the two parties, and the messages written and read so far.
A message counts as written when its write publishes the counter (and so returns
true), and as read when a read publishes or a drain hands it out. -/
structure World (W : ℕ) (ω : Type*) where
  ring : Ring W ω
  producer : Producer W ω
  consumer : Consumer W ω
  written : List (Message W ω)
  read : List (Message W ω)

/-- A fresh ring with both parties idle. -/
def World.init [Zero ω] (slotCount : ℕ) : World W ω where
  ring := Ring.init slotCount
  producer := .idle
  consumer := .idle
  written := []
  read := []

/-- The producer's micro-steps. -/
inductive ProducerAction (W : ℕ) (ω : Type*)
  /-- Enter `try_write` (C++) or `write` (Python) and load `producer_seq`. -/
  | write (side : Side) (data : Message W ω)
  /-- Load `consumer_seq` and test for a full ring. -/
  | checkFree
  /-- Copy one word into the slot. -/
  | copyWord (i : Fin W)
  /-- Store `producer_seq` and return true. -/
  | publishWrite

/-- The consumer's micro-steps. -/
inductive ConsumerAction (W : ℕ)
  /-- Enter `try_read` (C++) or `read` (Python) and load `consumer_seq`. -/
  | read
  /-- Enter `drain` and load `consumer_seq`. -/
  | drain (call : DrainCall)
  /-- Load `producer_seq` and test for an empty ring. -/
  | checkAvail
  /-- Copy one word out of the slot. -/
  | copyOut (i : Fin W)
  /-- Hand one copied slot of a drain to the caller. -/
  | deliver
  /-- Store `consumer_seq` and return. -/
  | publishRead

/-- A micro-step of either party. -/
inductive Action (W : ℕ) (ω : Type*)
  | produce (a : ProducerAction W ω)
  | consume (a : ConsumerAction W)

def stepProducer (w : World W ω) : ProducerAction W ω → Option (World W ω)
  | .write side data =>
    match w.producer with
    | .idle => some { w with producer := .loaded side data w.ring.producerSeq }
    | _ => none
  | .checkFree =>
    match w.producer with
    | .loaded side data prod =>
      if side.full w.ring.slotCount prod w.ring.consumerSeq then
        some { w with producer := .idle }
      else some { w with producer := .copying data prod ∅ }
    | _ => none
  | .copyWord i =>
    match w.producer with
    | .copying data prod copied =>
      some { w with
        ring := w.ring.storeWord (w.ring.index prod) i (data i)
        producer := .copying data prod (insert i copied) }
    | _ => none
  | .publishWrite =>
    match w.producer with
    | .copying data prod copied =>
      if copied = Finset.univ then
        some { w with
          ring := { w.ring with producerSeq := (prod + 1) % 2 ^ 64 }
          producer := .idle
          written := w.written ++ [data] }
      else none
    | _ => none

def stepConsumer [Zero ω] (w : World W ω) : ConsumerAction W → Option (World W ω)
  | .read =>
    match w.consumer with
    | .idle => some { w with consumer := .readLoaded w.ring.consumerSeq }
    | _ => none
  | .drain call =>
    match w.consumer with
    | .idle => some { w with consumer := .drainLoaded call w.ring.consumerSeq }
    | _ => none
  | .checkAvail =>
    match w.consumer with
    | .readLoaded cons =>
      if w.ring.producerSeq ≤ cons then some { w with consumer := .idle }
      else some { w with consumer := .readCopy cons ∅ fun _ => 0 }
    | .drainLoaded call cons =>
      let avail := call.avail w.ring.producerSeq cons
      if avail = 0 then some { w with consumer := .idle }
      else some { w with consumer := .drainCopy call cons avail 0 ∅ fun _ => 0 }
    | _ => none
  | .copyOut i =>
    match w.consumer with
    | .readCopy cons copied buf =>
      let slot := w.ring.slots (w.ring.index cons)
      some { w with consumer := .readCopy cons (insert i copied) (Function.update buf i (slot i)) }
    | .drainCopy call cons avail j copied buf =>
      let slot := w.ring.slots (w.ring.index (call.seq cons j))
      if j < avail then
        some { w with
          consumer :=
            .drainCopy call cons avail j (insert i copied) (Function.update buf i (slot i)) }
      else none
    | _ => none
  | .deliver =>
    match w.consumer with
    | .drainCopy call cons avail j copied buf =>
      if j < avail ∧ copied = Finset.univ then
        some { w with
          consumer := .drainCopy call cons avail (j + 1) ∅ buf
          read := w.read ++ [buf] }
      else none
    | _ => none
  | .publishRead =>
    match w.consumer with
    | .readCopy cons copied buf =>
      if copied = Finset.univ then
        some { w with
          ring := { w.ring with consumerSeq := (cons + 1) % 2 ^ 64 }
          consumer := .idle
          read := w.read ++ [buf] }
      else none
    | .drainCopy _ cons avail j _ _ =>
      if j = avail then
        some { w with
          ring := { w.ring with consumerSeq := (cons + avail) % 2 ^ 64 }
          consumer := .idle }
      else none
    | _ => none

/-- One micro-step of the ring's two parties. -/
def step [Zero ω] (w : World W ω) : Action W ω → Option (World W ω)
  | .produce a => stepProducer w a
  | .consume a => stepConsumer w a

/-! ### Safety -/

/-- The `m`-th written message has not been read. -/
def World.Unread (w : World W ω) (m : ℕ) : Prop := w.read.length ≤ m ∧ m < w.written.length

/-- Ring safety: the messages read are a prefix of the messages written, every
unread message stands intact in its slot, and the slot a write is copying into
holds no unread message. -/
structure RingSafe (w : World W ω) : Prop where
  isPrefix : w.read <+: w.written
  intact : ∀ m, w.Unread m → w.written[m]? = some (w.ring.slots (m % w.ring.slotCount))
  noOverwrite : ∀ data prod copied, w.producer = .copying data prod copied →
    ∀ m, w.Unread m → w.ring.index prod ≠ m % w.ring.slotCount

/-- The full test of a Python write is made before the producer's counter has
wrapped past the consumer's, or on a ring with a free slot.  The condition says
nothing of any other step. -/
def FullTestSeesWrap (w : World W ω) : Action W ω → Prop
  | .produce .checkFree =>
    match w.producer with
    | .loaded .python _ prod =>
      w.ring.consumerSeq ≤ prod ∨ wrapSub 64 prod w.ring.consumerSeq < w.ring.slotCount
    | _ => True
  | _ => True

instance : ∀ (w : World W ω) (a : Action W ω), Decidable (FullTestSeesWrap w a)
  | ⟨_, .loaded .python _ _, _, _, _⟩, .produce .checkFree => inferInstanceAs (Decidable (_ ∨ _))
  | ⟨_, .loaded .cpp _ _, _, _, _⟩, .produce .checkFree => .isTrue trivial
  | ⟨_, .idle, _, _, _⟩, .produce .checkFree => .isTrue trivial
  | ⟨_, .copying _ _ _, _, _, _⟩, .produce .checkFree => .isTrue trivial
  | _, .produce (.write _ _) | _, .produce (.copyWord _) | _, .produce .publishWrite
  | _, .consume _ => .isTrue trivial

/-! ### The counters -/

variable {k : ℕ} {r : Ring W ω}

theorem Ring.index_mod (hk : k < 32) (hr : r.slotCount = 2 ^ k) (m : ℕ) :
    r.index (m % 2 ^ 64) = m % 2 ^ k := by
  unfold Ring.index
  rw [hr]
  exact and_mask_mod (by omega) m

theorem Ring.index_drain (hk : k < 32) (hr : r.slotCount = 2 ^ k) (call : DrainCall) (c j : ℕ) :
    r.index (call.seq (c % 2 ^ 64) j) = (c + j) % 2 ^ k := by
  have hmod : (c % 2 ^ 64 + j) % 2 ^ k = (c + j) % 2 ^ k := by
    rw [add_mod, mod_mod_of_dvd _ (pow_dvd_pow 2 (by omega)), ← add_mod]
  cases call with
  | cpp maxCount =>
    simp only [DrainCall.seq]
    rw [Ring.index_mod hk hr, hmod]
  | python maxCount =>
    simp only [DrainCall.seq, Ring.index]
    rw [hr, and_two_pow_sub_one_eq_mod, hmod]

variable {c : ℕ}

theorem Side.not_full {side : Side} {p : ℕ} (hk : k < 32) (hcp : c ≤ p) (hpc : p ≤ c + 2 ^ k)
    (hcond : side = .python →
      c % 2 ^ 64 ≤ p % 2 ^ 64 ∨ wrapSub 64 (p % 2 ^ 64) (c % 2 ^ 64) < 2 ^ k)
    (h : side.full (2 ^ k) (p % 2 ^ 64) (c % 2 ^ 64) = false) : p < c + 2 ^ k := by
  have hlap : (2 : ℕ) ^ k < 2 ^ 64 := Nat.pow_lt_pow_right (by decide) (by omega)
  have hsub : wrapSub 64 (p % 2 ^ 64) (c % 2 ^ 64) = p - c := wrapSub_mod hcp (by omega)
  cases side with
  | cpp =>
    simp only [Side.full, decide_eq_false_iff_not] at h
    omega
  | python =>
    rcases hcond rfl with hle | hlt
    · -- no wrap between the two counters: the difference is the same
      simp only [Side.full, decide_eq_false_iff_not] at h
      omega
    · omega

theorem DrainCall.avail_le (call : DrainCall) {p : ℕ} (hk : k < 32) (hcp : c ≤ p)
    (hpc : p ≤ c + 2 ^ k) : call.avail (p % 2 ^ 64) (c % 2 ^ 64) ≤ p - c := by
  have hlap : (2 : ℕ) ^ k < 2 ^ 64 := Nat.pow_lt_pow_right (by decide) (by omega)
  have hsub : wrapSub 64 (p % 2 ^ 64) (c % 2 ^ 64) = p - c := wrapSub_mod hcp (by omega)
  cases call with
  | cpp maxCount =>
    simp only [DrainCall.avail, hsub]
    exact min_le_right _ _
  | python maxCount =>
    simp only [DrainCall.avail]
    omega

/-! ### The invariant -/

/-- What the producer's position in its code says about the shared memory, when
`c` messages have been released. -/
def ProducerInv (w : World W ω) (c : ℕ) : Producer W ω → Prop
  | .idle => True
  | .loaded _ _ prod => prod = w.ring.producerSeq
  | .copying data prod copied =>
    prod = w.ring.producerSeq ∧ w.written.length < c + w.ring.slotCount ∧
      ∀ i ∈ copied, w.ring.slots (w.written.length % w.ring.slotCount) i = data i

/-- What the consumer's position in its code says about the shared memory, when
`c` messages have been released. -/
def ConsumerInv (w : World W ω) (c : ℕ) : Consumer W ω → Prop
  | .idle => w.read = w.written.take c
  | .readLoaded cons => cons = w.ring.consumerSeq ∧ w.read = w.written.take c
  | .drainLoaded _ cons => cons = w.ring.consumerSeq ∧ w.read = w.written.take c
  | .readCopy cons copied buf =>
    cons = w.ring.consumerSeq ∧ w.read = w.written.take c ∧ c < w.written.length ∧
      ∀ i ∈ copied, buf i = w.ring.slots (c % w.ring.slotCount) i
  | .drainCopy _ cons avail j copied buf =>
    cons = w.ring.consumerSeq ∧ w.read = w.written.take (c + j) ∧ j ≤ avail ∧
      c + avail ≤ w.written.length ∧
      (j < avail → ∀ i ∈ copied, buf i = w.ring.slots ((c + j) % w.ring.slotCount) i)

/-- **The ring invariant**: `c` messages have been released to the producer; the
counters store the true counts, at most one lap apart, and every message not yet
released is in its slot. -/
structure Inv (k : ℕ) (w : World W ω) (c : ℕ) : Prop where
  slotCount : w.ring.slotCount = 2 ^ k
  producerSeq : w.ring.producerSeq = w.written.length % 2 ^ 64
  consumerSeq : w.ring.consumerSeq = c % 2 ^ 64
  released_le : c ≤ w.written.length
  le_lap : w.written.length ≤ c + 2 ^ k
  intact : ∀ m, c ≤ m → m < w.written.length → w.written[m]? = some (w.ring.slots (m % 2 ^ k))
  producer : ProducerInv w c w.producer
  consumer : ConsumerInv w c w.consumer

theorem Inv.init [Zero ω] (k : ℕ) : Inv k (World.init (2 ^ k) : World W ω) 0 where
  slotCount := rfl
  producerSeq := rfl
  consumerSeq := rfl
  released_le := le_refl _
  le_lap := zero_le _
  intact := by
    intro m _ hm
    simp [World.init] at hm
  producer := trivial
  consumer := rfl

variable {w : World W ω}

theorem Inv.read_eq (h : Inv k w c) :
    ∃ j, w.read = w.written.take (c + j) ∧ c + j ≤ w.written.length := by
  have hle := h.released_le
  have hcons := h.consumer
  cases hw : w.consumer with
  | idle => rw [hw] at hcons; exact ⟨0, hcons, hle⟩
  | readLoaded cons | drainLoaded call cons => rw [hw] at hcons; exact ⟨0, hcons.2, hle⟩
  | readCopy cons copied buf => rw [hw] at hcons; exact ⟨0, hcons.2.1, hle⟩
  | drainCopy call cons avail j copied buf =>
    rw [hw] at hcons
    obtain ⟨_, hread, hj, havail, _⟩ := hcons
    exact ⟨j, hread, by omega⟩

theorem Inv.safe (hk : k < 32) (h : Inv k w c) : RingSafe w := by
  obtain ⟨j, hread, hj⟩ := h.read_eq
  have hlen : w.read.length = c + j := by rw [hread, List.length_take, min_eq_left hj]
  refine ⟨?_, ?_, ?_⟩
  · rw [hread]
    exact List.take_prefix _ _
  · rintro m ⟨hm, hm'⟩
    rw [h.slotCount]
    exact h.intact m (by omega) hm'
  · -- the write in progress is one past the last message, so within one lap of
    -- every message that has not been released
    rintro data prod copied hprod m ⟨hm, hm'⟩
    have hp := h.producer
    rw [hprod] at hp
    obtain ⟨rfl, hfree, _⟩ := hp
    rw [h.producerSeq, Ring.index_mod hk h.slotCount, h.slotCount]
    rw [h.slotCount] at hfree
    exact (mod_ne_mod_of_lt hm' (by omega)).symm

/-! ### The producer's steps -/

theorem Ring.storeWord_slots_of_ne {idx m : ℕ} (h : m ≠ idx) (i : Fin W) (x : ω) :
    (r.storeWord idx i x).slots m = r.slots m := by
  simp [Ring.storeWord, h]

variable {p : Producer W ω}

theorem ConsumerInv.storeWord {idx : ℕ} {i : Fin W} {x : ω} (h : ConsumerInv w c w.consumer)
    (hne : ∀ m, c ≤ m → m < w.written.length → m % w.ring.slotCount ≠ idx) :
    ConsumerInv { w with ring := w.ring.storeWord idx i x, producer := p } c w.consumer := by
  cases hw : w.consumer with
  | idle | readLoaded cons | drainLoaded call cons => rw [hw] at h; exact h
  | readCopy cons copied buf =>
    rw [hw] at h
    obtain ⟨hcons, hread, hlt, hbuf⟩ := h
    refine ⟨hcons, hread, hlt, fun i' hi' => ?_⟩
    rw [hbuf i' hi']
    exact congrFun (Ring.storeWord_slots_of_ne (hne c (le_refl c) hlt) i x).symm i'
  | drainCopy call cons avail j copied buf =>
    rw [hw] at h
    obtain ⟨hcons, hread, hj, havail, hbuf⟩ := h
    refine ⟨hcons, hread, hj, havail, fun hlt i' hi' => ?_⟩
    rw [hbuf hlt i' hi']
    exact congrFun (Ring.storeWord_slots_of_ne (hne (c + j) (by omega) (by omega)) i x).symm i'

variable {copied : Finset (Fin W)} {data : Message W ω}

theorem Inv.copyWord (hk : k < 32) (h : Inv k w c) {prod : ℕ}
    (hprod : w.producer = .copying data prod copied) (i : Fin W) :
    Inv k { w with
      ring := w.ring.storeWord (w.ring.index prod) i (data i)
      producer := .copying data prod (insert i copied) } c := by
  have hp := h.producer
  rw [hprod] at hp
  obtain ⟨rfl, hfree, hcopied⟩ := hp
  have hidx : w.ring.index w.ring.producerSeq = w.written.length % 2 ^ k := by
    rw [h.producerSeq, Ring.index_mod hk h.slotCount]
  rw [h.slotCount] at hfree hcopied
  -- the slot is one lap away from the oldest message not released
  have hne : ∀ m, c ≤ m → m < w.written.length → m % 2 ^ k ≠ w.ring.index w.ring.producerSeq := by
    intro m hm hm'
    rw [hidx]
    exact mod_ne_mod_of_lt hm' (by omega)
  refine { h with intact := ?intact, producer := ?producer, consumer := ?consumer }
  case intact =>
    intro m hm hm'
    rw [h.intact m hm hm', Ring.storeWord_slots_of_ne (hne m hm hm')]
  case producer =>
    refine ⟨rfl, ?_, ?_⟩
    · simpa only [Ring.storeWord, h.slotCount] using hfree
    · intro i' hi'
      simp only [Ring.storeWord, hidx, h.slotCount, update_self]
      by_cases hii : i' = i
      · subst hii
        rw [update_self]
      · rw [update_of_ne hii]
        exact hcopied i' ((Finset.mem_insert.1 hi').resolve_left hii)
  case consumer =>
    exact h.consumer.storeWord fun m hm hm' => by
      rw [h.slotCount]
      exact hne m hm hm'

theorem Inv.publishWrite (h : Inv k w c) {prod : ℕ}
    (hprod : w.producer = .copying data prod Finset.univ) :
    Inv k { w with
      ring := { w.ring with producerSeq := (prod + 1) % 2 ^ 64 }
      producer := .idle
      written := w.written ++ [data] } c := by
  have hp := h.producer
  rw [hprod] at hp
  obtain ⟨rfl, hfree, hcopied⟩ := hp
  have hdata : w.ring.slots (w.written.length % 2 ^ k) = data := by
    rw [← h.slotCount]
    exact funext fun i => hcopied i (Finset.mem_univ i)
  rw [h.slotCount] at hfree
  have htake : ∀ n, n ≤ w.written.length → (w.written ++ [data]).take n = w.written.take n :=
    fun n hn => List.take_append_of_le_length hn
  refine ⟨h.slotCount, ?producerSeq, h.consumerSeq, ?released_le, ?le_lap, ?intact, trivial,
    ?consumer⟩
  case producerSeq =>
    simp [h.producerSeq]
  case released_le =>
    simpa using le_succ_of_le h.released_le
  case le_lap =>
    rw [List.length_append]
    exact hfree
  case intact =>
    intro m hm hm'
    rw [List.length_append, List.length_singleton] at hm'
    by_cases hlt : m < w.written.length
    · rw [List.getElem?_append_left hlt]
      exact h.intact m hm hlt
    · obtain rfl : m = w.written.length := by omega
      rw [List.getElem?_concat_length]
      exact congrArg some hdata.symm
  case consumer =>
    have hle := h.released_le
    have hcons := h.consumer
    cases hw : w.consumer with
    | idle =>
      rw [hw] at hcons
      exact hcons.trans (htake c hle).symm
    | readLoaded cons | drainLoaded call cons =>
      rw [hw] at hcons
      exact ⟨hcons.1, hcons.2.trans (htake c hle).symm⟩
    | readCopy cons copied buf =>
      rw [hw] at hcons
      obtain ⟨hseq, hread, hlt, hbuf⟩ := hcons
      exact ⟨hseq, hread.trans (htake c hle).symm, by simpa using lt_succ_of_lt hlt, hbuf⟩
    | drainCopy call cons avail j copied buf =>
      rw [hw] at hcons
      obtain ⟨hseq, hread, hj, havail, hbuf⟩ := hcons
      exact ⟨hseq, hread.trans (htake (c + j) (by omega)).symm, hj,
        by simpa using le_succ_of_le havail, hbuf⟩

theorem Inv.withProducer (h : Inv k w c) (hp : ProducerInv w c p) :
    Inv k { w with producer := p } c where
  __ := h
  producer := by cases p <;> exact hp
  consumer := by
    have := h.consumer
    cases hw : w.consumer <;> rw [hw] at this <;> exact this

variable {w' : World W ω}

theorem Inv.stepProducer (hk : k < 32) (h : Inv k w c) {a : ProducerAction W ω}
    (hok : FullTestSeesWrap w (.produce a)) (hstep : stepProducer w a = some w') : Inv k w' c := by
  cases a with
  | write side data =>
    simp only [Ipc.stepProducer] at hstep
    split at hstep
    · cases hstep
      exact h.withProducer rfl
    · cases hstep
  | checkFree =>
    simp only [Ipc.stepProducer] at hstep
    split at hstep
    · rename_i side data prod hprod
      have hp := h.producer
      rw [hprod] at hp
      obtain rfl : prod = w.ring.producerSeq := hp
      split at hstep
      · cases hstep
        exact h.withProducer trivial
      rename_i hfull
      cases hstep
      rw [Bool.not_eq_true, h.slotCount, h.producerSeq, h.consumerSeq] at hfull
      refine h.withProducer ⟨rfl, ?_, fun i hi => absurd hi (Finset.notMem_empty i)⟩
      rw [h.slotCount]
      refine Side.not_full hk h.released_le h.le_lap ?_ hfull
      rintro rfl
      simpa only [FullTestSeesWrap, hprod, h.producerSeq, h.consumerSeq, h.slotCount] using hok
    · cases hstep
  | copyWord i =>
    simp only [Ipc.stepProducer] at hstep
    split at hstep
    · rename_i data prod copied hprod
      cases hstep
      exact h.copyWord hk hprod i
    · cases hstep
  | publishWrite =>
    simp only [Ipc.stepProducer] at hstep
    split at hstep
    · rename_i data prod copied hprod
      split at hstep
      · rename_i huniv
        cases hstep
        exact h.publishWrite (huniv ▸ hprod)
      · cases hstep
    · cases hstep

/-! ### The consumer's steps -/

theorem buf_copied {buf slot : Message W ω} (h : ∀ i ∈ copied, buf i = slot i) (i : Fin W) :
    ∀ i' ∈ insert i copied, update buf i (slot i) i' = slot i' := by
  intro i' hi'
  by_cases hii : i' = i
  · subst hii
    rw [update_self]
  · rw [update_of_ne hii]
    exact h i' ((Finset.mem_insert.1 hi').resolve_left hii)

theorem Inv.take_succ {m : ℕ} (h : Inv k w c) (hm : c ≤ m) (hm' : m < w.written.length)
    {buf : Message W ω}
    (hbuf : ∀ i ∈ (Finset.univ : Finset (Fin W)), buf i = w.ring.slots (m % 2 ^ k) i) :
    w.written.take m ++ [buf] = w.written.take (m + 1) := by
  have hslot : buf = w.ring.slots (m % 2 ^ k) := funext fun i => hbuf i (Finset.mem_univ i)
  rw [List.take_add_one, h.intact m hm hm', hslot, Option.toList_some]

variable {read : List (Message W ω)}

theorem Inv.withConsumer (h : Inv k w c) {q : Consumer W ω}
    (hq : ConsumerInv { w with read := read } c q) :
    Inv k { w with consumer := q, read := read } c where
  __ := h
  producer := by
    have := h.producer
    cases hw : w.producer <;> rw [hw] at this <;> exact this
  consumer := by cases q <;> exact hq

theorem Inv.release {n : ℕ} (h : Inv k w c) (hread : read = w.written.take (c + n))
    (hn : c + n ≤ w.written.length) :
    Inv k { w with
      ring := { w.ring with consumerSeq := (w.ring.consumerSeq + n) % 2 ^ 64 }
      consumer := .idle
      read := read } (c + n) where
  __ := h
  consumerSeq := by simp [h.consumerSeq]
  released_le := hn
  le_lap := h.le_lap.trans (by omega)
  intact := fun m hm hm' => h.intact m (by omega) hm'
  producer := by
    have hp := h.producer
    cases hw : w.producer with
    | idle => trivial
    | loaded side data prod => rw [hw] at hp; exact hp
    | copying data prod copied =>
      rw [hw] at hp
      obtain ⟨hseq, hfree, hcopied⟩ := hp
      exact ⟨hseq, hfree.trans_le (Nat.add_le_add_right (Nat.le_add_right c n) _), hcopied⟩
  consumer := hread

theorem Inv.stepConsumer [Zero ω] (hk : k < 32) (h : Inv k w c) {a : ConsumerAction W}
    (hstep : stepConsumer w a = some w') :
    ∃ c', Inv k w' c' := by
  have hcons := h.consumer
  have hsc := h.slotCount
  cases a with
  | read | drain call =>
    simp only [Ipc.stepConsumer] at hstep
    split at hstep
    · rename_i hidle
      rw [hidle] at hcons
      cases hstep
      exact ⟨c, h.withConsumer ⟨rfl, hcons⟩⟩
    · cases hstep
  | checkAvail =>
    simp only [Ipc.stepConsumer] at hstep
    split at hstep
    · -- `try_read`: a positive difference without a wrap is a published message
      rename_i cons hload
      rw [hload] at hcons
      obtain ⟨rfl, hread⟩ := hcons
      split at hstep
      · cases hstep
        exact ⟨c, h.withConsumer hread⟩
      rename_i hlt
      cases hstep
      refine ⟨c, h.withConsumer ⟨rfl, hread, ?_, fun i hi => absurd hi (Finset.notMem_empty i)⟩⟩
      rw [h.producerSeq, h.consumerSeq] at hlt
      refine lt_of_le_of_ne h.released_le ?_
      rintro rfl
      exact hlt (le_refl _)
    · -- a drain takes no more than the published messages
      rename_i call cons hload
      rw [hload] at hcons
      obtain ⟨rfl, hread⟩ := hcons
      split at hstep
      · cases hstep
        exact ⟨c, h.withConsumer hread⟩
      cases hstep
      have havail := call.avail_le hk h.released_le h.le_lap
      rw [← h.producerSeq, ← h.consumerSeq] at havail
      refine ⟨c, h.withConsumer ⟨rfl, hread, zero_le _, ?_,
        fun _ i hi => absurd hi (Finset.notMem_empty i)⟩⟩
      show c + call.avail w.ring.producerSeq w.ring.consumerSeq ≤ w.written.length
      omega
    · cases hstep
  | copyOut i =>
    simp only [Ipc.stepConsumer] at hstep
    split at hstep
    · -- `try_read` copies message `c`
      rename_i cons copied buf hcopy
      rw [hcopy] at hcons
      obtain ⟨rfl, hread, hlt, hbuf⟩ := hcons
      cases hstep
      refine ⟨c, h.withConsumer ⟨rfl, hread, hlt, ?_⟩⟩
      rw [h.consumerSeq, Ring.index_mod hk hsc]
      simpa only [hsc] using buf_copied hbuf i
    · -- the drain copies message `c + j`, which is still in its slot
      rename_i call cons avail j copied buf hcopy
      rw [hcopy] at hcons
      obtain ⟨rfl, hread, hj, havail, hbuf⟩ := hcons
      split at hstep
      · rename_i hlt
        cases hstep
        refine ⟨c, h.withConsumer ⟨rfl, hread, hj, havail, fun _ => ?_⟩⟩
        rw [h.consumerSeq, Ring.index_drain hk hsc]
        simpa only [hsc] using buf_copied (hbuf hlt) i
      · cases hstep
    · cases hstep
  | deliver =>
    simp only [Ipc.stepConsumer] at hstep
    split at hstep
    · -- the handler gets message `c + j`; its slot is not released yet
      rename_i call cons avail j copied buf hcopy
      rw [hcopy] at hcons
      obtain ⟨rfl, hread, hj, havail, hbuf⟩ := hcons
      split at hstep
      · rename_i hlt
        obtain ⟨hlt, rfl⟩ := hlt
        cases hstep
        rw [hsc] at hbuf
        refine ⟨c, h.withConsumer ⟨rfl, ?_, hlt, havail,
          fun _ i hi => absurd hi (Finset.notMem_empty i)⟩⟩
        rw [hread, h.take_succ (by omega) (by omega) (hbuf hlt), add_assoc]
      · cases hstep
    · cases hstep
  | publishRead =>
    simp only [Ipc.stepConsumer] at hstep
    split at hstep
    · rename_i cons copied buf hcopy
      rw [hcopy] at hcons
      obtain ⟨rfl, hread, hlt, hbuf⟩ := hcons
      split at hstep
      · rename_i huniv
        subst huniv
        cases hstep
        rw [hsc] at hbuf
        -- one message is released
        refine ⟨c + 1, h.release ?_ hlt⟩
        rw [hread, h.take_succ (le_refl c) hlt hbuf]
      · cases hstep
    · rename_i call cons avail j copied buf hcopy
      rw [hcopy] at hcons
      obtain ⟨rfl, hread, hj, havail, hbuf⟩ := hcons
      split at hstep
      · rename_i hlt
        subst hlt
        cases hstep
        -- the whole batch is released by one store
        exact ⟨c + j, h.release hread havail⟩
      · cases hstep
    · cases hstep

/-! ### Every run -/

variable {a : Action W ω}

theorem Inv.step [Zero ω] (hk : k < 32) (h : Inv k w c) (hok : FullTestSeesWrap w a)
    (hstep : step w a = some w') :
    ∃ c', Inv k w' c' := by
  cases a with
  | produce a => exact ⟨c, h.stepProducer hk hok hstep⟩
  | consume a => exact h.stepConsumer hk hstep

variable {as : List (Action W ω)}

theorem exists_inv_of_run [Zero ω] (hk : k < 32)
    (hrun : GuardedRun step FullTestSeesWrap (World.init (2 ^ k)) as w) :
    ∃ c, Inv k w c := by
  refine hrun.invariant (I := fun w => ∃ c, Inv k w c) ?_ ⟨0, Inv.init k⟩
  rintro t a u ⟨c, hc⟩ hok hstep
  exact hc.step hk hok hstep

/-- **Ring safety.**  For every power-of-two slot count and every interleaving of
the two parties in which no Python write tests a full ring with its counter
wrapped past the consumer's, what is read is a prefix of what was written and no
unread message is overwritten. -/
theorem ringSafe_of_run [Zero ω] {k : ℕ} (hk : k < 32) {as : List (Action W ω)}
    {w : World W ω} (hrun : GuardedRun step FullTestSeesWrap (World.init (2 ^ k)) as w) :
    RingSafe w := by
  obtain ⟨c, hc⟩ := exists_inv_of_run hk hrun
  exact hc.safe hk

/-- A write into a full ring of two slots is refused while the first message is being read; the
next one is copied while a drain copies the second. -/
theorem ringSafe_of_run_two_slots : ∃ as, ∃ w : World 2 UInt64,
    GuardedRun step FullTestSeesWrap (World.init (2 ^ 1)) as w ∧
      w.written.length = 3 ∧ w.read.length = 2 ∧ RingSafe w := by
  let as : List (Action 2 UInt64) := [.produce (.write .cpp ![1, 2]), .produce .checkFree,
    .produce (.copyWord 0), .produce (.copyWord 1), .produce .publishWrite,
    .produce (.write .python ![3, 4]), .produce .checkFree, .produce (.copyWord 1),
    .produce (.copyWord 0), .produce .publishWrite, .consume .read,
    .produce (.write .python ![5, 6]), .consume .checkAvail, .consume (.copyOut 0),
    .produce .checkFree, .consume (.copyOut 1), .consume .publishRead,
    .produce (.write .python ![5, 6]), .produce .checkFree, .consume (.drain (.cpp 5)),
    .produce (.copyWord 0), .consume .checkAvail, .consume (.copyOut 1), .produce (.copyWord 1),
    .produce .publishWrite, .consume (.copyOut 0), .consume .deliver, .consume .publishRead]
  have hsome : (as.foldlM (fun (w : World 2 UInt64) a => if FullTestSeesWrap w a then step w a
      else none) (World.init (2 ^ 1))).any (fun w => w.written.length = 3 ∧ w.read.length = 2) =
        true := by
    decide
  obtain ⟨w, hw, hlen⟩ := (Option.any_eq_true _ _).1 hsome
  have hrun := GuardedRun.of_checked hw
  exact ⟨as, w, hrun, (of_decide_eq_true hlen).1, (of_decide_eq_true hlen).2,
    ringSafe_of_run (by decide) hrun⟩
/-! ### The queries -/

/-- `SpscRing::is_empty`. -/
def Ring.isEmpty (r : Ring W ω) : Bool := r.producerSeq = r.consumerSeq

/-- `SpscRing::is_full`. -/
def Ring.isFull (r : Ring W ω) : Bool := Side.cpp.full r.slotCount r.producerSeq r.consumerSeq

/-- `SpscRing::available`, a `uint32_t`. -/
def Ring.available (r : Ring W ω) : ℕ := wrapSub 64 r.producerSeq r.consumerSeq % 2 ^ 32

/-- **The queries are exact.**  However many messages have passed and wherever the producer is in a
write, they tell between two calls of the consumer how many messages are unread; so `try_write`,
whose test is `is_full`, is then refused for no other reason than a full ring. -/
theorem queries_exact [Zero ω] (hk : k < 32)
    (hrun : GuardedRun step FullTestSeesWrap (World.init (2 ^ k)) as w)
    (hidle : w.consumer = .idle) :
    w.ring.available = w.written.length - w.read.length ∧
      (w.ring.isEmpty = true ↔ w.read = w.written) ∧
      (w.ring.isFull = true ↔ w.written.length = w.read.length + 2 ^ k) := by
  obtain ⟨c, h⟩ := exists_inv_of_run hk hrun
  have hread := h.consumer
  rw [hidle] at hread
  have hlen : w.read.length = c := (congrArg _ hread).trans (List.length_take_of_le h.released_le)
  have hle := h.released_le
  have hlap := h.le_lap
  have hpow : (2 : ℕ) ^ k < 2 ^ 32 := Nat.pow_lt_pow_right (by decide) hk
  have hsub := wrapSub_mod (b := 64) hle (by omega)
  have hall : w.read = w.written ↔ w.written.length = c := by
    refine ⟨fun heq => heq ▸ hlen, fun heq => ?_⟩
    rw [hread, ← heq, List.take_length]
  simp only [Ring.available, Ring.isEmpty, Ring.isFull, Side.full, h.producerSeq, h.consumerSeq,
    h.slotCount, hsub, hall, hlen, decide_eq_true_eq]
  omega

/-- One message stands unread in a ring of two slots. -/
theorem queries_exact_one_message : ∃ as, ∃ w : World 1 UInt64,
    GuardedRun step FullTestSeesWrap (World.init (2 ^ 1)) as w ∧ w.written.length = 1 ∧
      w.ring.available = 1 - w.read.length := by
  have hrun : GuardedRun step FullTestSeesWrap (World.init (2 ^ 1) : World 1 UInt64)
      [.produce (.write .python fun _ => 7), .produce .checkFree, .produce (.copyWord 0),
        .produce .publishWrite] _ :=
    cons trivial rfl (cons (.inl (le_refl 0)) rfl (cons trivial rfl (cons trivial rfl (nil _))))
  exact ⟨_, _, hrun, rfl, (queries_exact (by decide) hrun rfl).1⟩

/-! ### The wrap that the Python full test misses -/

/-- A ring of one slot after `n` empty messages have been written and read. -/
def echoed (n : ℕ) : World 1 UInt64 where
  ring :=
    { producerSeq := n % 2 ^ 64
      consumerSeq := n % 2 ^ 64
      slotCount := 1
      slots := fun _ _ => 0 }
  producer := .idle
  consumer := .idle
  written := List.replicate n fun _ => 0
  read := List.replicate n fun _ => 0

theorem storeWord_zero (r : Ring 1 UInt64) (hr : r.slots = fun _ _ => 0) (idx : ℕ) :
    r.storeWord idx 0 0 = r := by
  have h : update r.slots idx (update (r.slots idx) 0 0) = r.slots := by
    rw [update_eq_self_iff, update_eq_self_iff, hr]
  simp only [Ring.storeWord, h]

theorem write_run {r : Ring 1 UInt64} {q : Consumer 1 UInt64} {side : Side}
    (written read : List (Message 1 UInt64))
    (hfree : side.full r.slotCount r.producerSeq r.consumerSeq = false) (data : Message 1 UInt64) :
    Run step ⟨r, .idle, q, written, read⟩
      [.produce (.write side data), .produce .checkFree, .produce (.copyWord 0),
        .produce .publishWrite]
      ⟨{ r.storeWord (r.index r.producerSeq) 0 (data 0) with
          producerSeq := (r.producerSeq + 1) % 2 ^ 64 }, .idle, q, written ++ [data], read⟩ := by
  have hcheck : step ⟨r, .loaded side data r.producerSeq, q, written, read⟩ (.produce .checkFree) =
      some ⟨r, .copying data r.producerSeq ∅, q, written, read⟩ := by
    simp only [step, stepProducer, hfree, Bool.false_eq_true, if_false]
  exact Run.cons rfl (Run.cons hcheck (Run.cons rfl (Run.cons rfl (nil _))))

theorem drain_run {r : Ring 1 UInt64} {p : Producer 1 UInt64}
    (written read : List (Message 1 UInt64))
    (havail : DrainCall.avail (.cpp 1) r.producerSeq r.consumerSeq = 1) :
    Run step ⟨r, p, .idle, written, read⟩
      [.consume (.drain (.cpp 1)), .consume .checkAvail, .consume (.copyOut 0),
        .consume .deliver, .consume .publishRead]
      ⟨{ r with consumerSeq := (r.consumerSeq + 1) % 2 ^ 64 }, p, .idle, written,
        read ++ [r.slots (r.index (DrainCall.seq (.cpp 1) r.consumerSeq 0))]⟩ := by
  have hbuf : ∀ m : Message 1 UInt64, update (fun _ => 0) 0 (m 0) = m := by
    intro m
    funext i
    rw [Subsingleton.elim i 0, update_self]
  have hcheck : step ⟨r, p, .drainLoaded (.cpp 1) r.consumerSeq, written, read⟩
      (.consume .checkAvail) =
      some ⟨r, p, .drainCopy (.cpp 1) r.consumerSeq 1 0 ∅ fun _ => 0, written, read⟩ := by
    simp only [step, stepConsumer, havail, one_ne_zero, if_false]
  rw [← hbuf (r.slots _)]
  exact Run.cons rfl (Run.cons hcheck (Run.cons rfl (Run.cons rfl (Run.cons rfl (nil _)))))

theorem echoed_succ (n : ℕ) : ∃ as, Run step (echoed n) as (echoed (n + 1)) := by
  have hfree : Side.full .cpp 1 (n % 2 ^ 64) (n % 2 ^ 64) = false := by
    have hsub : wrapSub 64 (n % 2 ^ 64) (n % 2 ^ 64) = n - n :=
      wrapSub_mod (Nat.le_refl n) (by omega)
    simp only [Side.full, hsub, Nat.sub_self]
    rfl
  have havail : DrainCall.avail (.cpp 1) ((n % 2 ^ 64 + 1) % 2 ^ 64) (n % 2 ^ 64) = 1 := by
    have hsub : wrapSub 64 ((n + 1) % 2 ^ 64) (n % 2 ^ 64) = n + 1 - n :=
      wrapSub_mod (Nat.le_succ n) (by omega)
    rw [Nat.mod_add_mod]
    simp only [DrainCall.avail, hsub, Nat.add_sub_cancel_left]
    rfl
  have hwrite := write_run (r := (echoed n).ring) (q := .idle) (echoed n).written
    (echoed n).read hfree fun _ => 0
  rw [storeWord_zero _ rfl] at hwrite
  have hdrain := drain_run (p := .idle)
    (r := { (echoed n).ring with producerSeq := ((echoed n).ring.producerSeq + 1) % 2 ^ 64 })
    ((echoed n).written ++ [fun _ => 0]) (echoed n).read havail
  have hend : echoed (n + 1) = ⟨{ (echoed n).ring with
          producerSeq := (n % 2 ^ 64 + 1) % 2 ^ 64, consumerSeq := (n % 2 ^ 64 + 1) % 2 ^ 64 },
        .idle, .idle, (echoed n).written ++ [fun _ => 0], (echoed n).read ++ [fun _ => 0]⟩ := by
    simp only [echoed, Nat.mod_add_mod, List.replicate_succ']
  rw [hend]
  exact ⟨_, hwrite.append hdrain⟩

theorem overwrite_run (n : ℕ) (hn : n % 2 ^ 64 = 2 ^ 64 - 1) :
    ∃ as w, Run step (echoed n) as w ∧ ¬ RingSafe w := by
  have hfree : Side.full .python 1 (n % 2 ^ 64) (n % 2 ^ 64) = false := by
    simp only [Side.full, Int.sub_self]
    rfl
  have hwrite := write_run (r := (echoed n).ring) (q := .idle) (echoed n).written
    (echoed n).read hfree fun _ => 1
  have hblind : Side.full .python 1 ((n % 2 ^ 64 + 1) % 2 ^ 64) (n % 2 ^ 64) = false := by
    rw [hn]
    rfl
  have hagain := write_run (q := .idle)
    (r := { (echoed n).ring.storeWord ((echoed n).ring.index (n % 2 ^ 64)) 0 1 with
      producerSeq := (n % 2 ^ 64 + 1) % 2 ^ 64 })
    ((echoed n).written ++ [fun _ => 1]) (echoed n).read hblind fun _ => 2
  refine ⟨_, _, hwrite.append hagain, fun hsafe => ?_⟩
  -- the first of the two messages is unread, and its slot holds the second
  have hslot : (fun _ => 1 : Message 1 UInt64) = update (update (fun _ => 0) 0 1) 0 2 := by
    simpa [echoed, Ring.storeWord, Ring.index, mod_one] using
      hsafe.intact n (by simp [World.Unread, echoed])
  exact absurd (congrFun hslot 0) (by simp)

/-- **A Python write overwrites an unread message.**  On a ring of one slot, after
`2 ^ 64 - 1` messages have passed, one more message is written and not yet read;
the next Python write still finds the ring not full. -/
theorem python_write_overwrites :
    ∃ as w, Run step (World.init (2 ^ 0) : World 1 UInt64) as w ∧ ¬ RingSafe w := by
  obtain ⟨as, has⟩ := Run.iterate echoed_succ (2 ^ 64 - 1)
  obtain ⟨bs, w, hbs, hw⟩ := overwrite_run (2 ^ 64 - 1) rfl
  exact ⟨as ++ bs, w, append has hbs, hw⟩

end LayerStorm.Ipc
