import Mathlib

/-!
# Readers over a buffer

A reader moves a position over a buffer.  It stops when it gives up, and it stops with a fault when
it would read outside of the buffer.  A reader is safe from a position if it does not fault from
there, stays in the buffer, and ends in a wanted state.
-/

namespace LayerStorm.Lib

variable {ε α β σ : Type}

/-- Bytes whose number fits in 64 bits. -/
structure Buffer where
  bytes : List UInt8
  size_lt : bytes.length < 2 ^ 64

def Buffer.size (b : Buffer) : ℕ := b.bytes.length

/-- Why a reader stops. -/
inductive Stop (ε : Type)
  /-- It would have read outside of the buffer. -/
  | fault
  /-- It gives up. -/
  | thrown (e : ε)
  deriving DecidableEq

/-- A reader, from a position to a value and the next position. -/
abbrev Reader (ε α : Type) := StateT ℕ (Except (Stop ε)) α

namespace Reader

/-- Giving up. -/
def throw (e : ε) : Reader ε α := fun _ => .error (.thrown e)

def position : Reader ε ℕ := fun pos => .ok (pos, pos)

def moveTo (pos : ℕ) : Reader ε Unit := fun _ => .ok ((), pos)

/-- The bytes at the position. -/
def memcpy (b : Buffer) (n : ℕ) : Reader ε (List UInt8) := fun pos =>
  if pos + n ≤ b.size then .ok ((b.bytes.drop pos).take n, pos) else .error .fault

def loop (f : σ → Reader ε σ) : ℕ → σ → Reader ε σ
  | 0, s => pure s
  | n + 1, s => f s >>= Reader.loop f n

end Reader

/-- The reader does not fault from a position, stays in a buffer of a size, and ends in a wanted
state. -/
def Safe (size : ℕ) (x : Reader ε α) (Q : α → ℕ → Prop) (pos : ℕ) : Prop :=
  x pos ≠ .error .fault ∧ ∀ a pos', x pos = .ok (a, pos') → pos' ≤ size ∧ Q a pos'

namespace Safe

variable {size pos : ℕ} {x : Reader ε α} {f : α → Reader ε β} {Q Q' : α → ℕ → Prop}
  {R : β → ℕ → Prop}

theorem pure {a : α} (hpos : pos ≤ size) (h : Q a pos) :
    Safe size (Pure.pure a : Reader ε α) Q pos := by
  refine ⟨fun he => (by cases he), fun a' pos' heq => ?_⟩
  obtain ⟨rfl, rfl⟩ := Prod.mk.inj (Except.ok.inj heq)
  exact ⟨hpos, h⟩

theorem bind (hx : Safe size x Q pos)
    (hf : ∀ a pos', pos' ≤ size → Q a pos' → Safe size (f a) R pos') :
    Safe size (x >>= f) R pos := by
  have hbind : (x >>= f) pos = (x pos >>= fun p => f p.1 p.2) := rfl
  obtain ⟨hfault, hok⟩ := hx
  unfold Safe
  rw [hbind]
  cases hrun : x pos with
  | error stop =>
    refine ⟨fun he => hfault ?_, fun _ _ heq => (by cases heq)⟩
    have he' : (Except.error stop : Except (Stop ε) (β × ℕ)) = .error .fault := he
    cases he'
    exact hrun
  | ok p =>
    obtain ⟨a, pos'⟩ := p
    obtain ⟨hle, hq⟩ := hok a pos' hrun
    exact hf a pos' hle hq

theorem mono (hx : Safe size x Q pos) (h : ∀ a pos', pos' ≤ size → Q a pos' → Q' a pos') :
    Safe size x Q' pos :=
  ⟨hx.1, fun a pos' heq => ⟨(hx.2 a pos' heq).1, h a pos' (hx.2 a pos' heq).1 (hx.2 a pos' heq).2⟩⟩

theorem throw {e : ε} : Safe size (Reader.throw e : Reader ε α) Q pos :=
  ⟨fun he => (by cases he), fun _ _ heq => (by cases heq)⟩

theorem position (hpos : pos ≤ size) :
    Safe size (Reader.position : Reader ε ℕ) (fun p pos' => p = pos ∧ pos' = pos) pos := by
  refine ⟨fun he => (by cases he), fun a pos' heq => ?_⟩
  obtain ⟨rfl, rfl⟩ := Prod.mk.inj (Except.ok.inj heq)
  exact ⟨hpos, rfl, rfl⟩

theorem moveTo {p : ℕ} (hp : p ≤ size) :
    Safe size (Reader.moveTo p : Reader ε Unit) (fun _ pos' => pos' = p) pos := by
  refine ⟨fun he => (by cases he), fun a pos' heq => ?_⟩
  obtain ⟨-, rfl⟩ := Prod.mk.inj (Except.ok.inj heq)
  exact ⟨hp, rfl⟩

theorem memcpy {b : Buffer} {n : ℕ} (h : pos + n ≤ b.size) :
    Safe b.size (Reader.memcpy b n : Reader ε (List UInt8))
      (fun bytes pos' => bytes = (b.bytes.drop pos).take n ∧ pos' = pos) pos := by
  have hrun : (Reader.memcpy b n : Reader ε (List UInt8)) pos =
      .ok ((b.bytes.drop pos).take n, pos) := if_pos h
  unfold Safe
  rw [hrun]
  refine ⟨fun he => (by cases he), fun a pos' heq => ?_⟩
  obtain ⟨rfl, rfl⟩ := Prod.mk.inj (Except.ok.inj heq)
  exact ⟨by omega, rfl, rfl⟩

theorem loop {f : σ → Reader ε σ} {I : ℕ → σ → ℕ → Prop} {n : ℕ} : ∀ {i : ℕ} {s : σ} {pos : ℕ},
    (∀ j s pos, pos ≤ size → I j s pos → Safe size (f s) (I (j + 1)) pos) →
    pos ≤ size → I i s pos → Safe size (Reader.loop f n s) (I (i + n)) pos := by
  induction n with
  | zero => exact fun _ hpos hi => Safe.pure hpos hi
  | succ n ih =>
    intro i s pos hround hpos hi
    have hrest : i + (n + 1) = i + 1 + n := by omega
    rw [hrest]
    exact (hround i s pos hpos hi).bind fun s' pos' hpos' hi' => ih hround hpos' hi'

end Safe

end LayerStorm.Lib
