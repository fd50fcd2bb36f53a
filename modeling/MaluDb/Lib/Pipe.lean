import Mathlib.Data.List.Basic

/-!
# Pipes

A pipe of an operating system, seen from its reader: the bytes that were taken from it, the bytes
that wait in it, and whether a write end is still open. Once the last write end is closed nothing is
written any more. `Same`: two pipes that only differ in what was taken out.
-/

namespace MaluDb.Lib

open List

/-- A pipe of bytes. -/
structure Pipe (α : Type) where
  taken : List α
  unread : List α
  writers : Bool
  deriving DecidableEq

/-- What the writing side does. `close` closes the last write end. -/
inductive PipeAct (α : Type) where
  | write (bytes : List α)
  | close

namespace Pipe

variable {α : Type} (p : Pipe α)

/-- A new pipe. -/
def empty : Pipe α := ⟨[], [], true⟩

def written : List α := p.taken ++ p.unread

/-- Take up to `n` bytes out. -/
def read (n : ℕ) : Pipe α :=
  { p with taken := p.taken ++ p.unread.take n, unread := p.unread.drop n }

def act (a : PipeAct α) : Pipe α :=
  match a with
  | .write bytes => if p.writers then { p with unread := p.unread ++ bytes } else p
  | .close => { p with writers := false }

def acts (as : List (PipeAct α)) : Pipe α := as.foldl act p

def readable : Bool := !p.unread.isEmpty

/-- No write end is left. -/
def hangup : Bool := !p.writers

variable {p}

@[simp] theorem written_read (n : ℕ) : (p.read n).written = p.written := by
  simp [read, written, append_assoc]

@[simp] theorem writers_read (n : ℕ) : (p.read n).writers = p.writers := rfl

theorem unread_read_eq_nil (n : ℕ) :
    (p.read (if p.readable then n else 0)).unread = [] ↔ p.unread.length ≤ n := by
  cases hp : p.unread <;> simp [read, readable, hp]

theorem act_of_closed (h : p.writers = false) (a : PipeAct α) : p.act a = p := by
  cases a with
  | write bytes => simp [act, h]
  | close => rw [act, ← h]

theorem acts_of_closed (h : p.writers = false) (as : List (PipeAct α)) : p.acts as = p := by
  induction as with
  | nil => rfl
  | cons a as ih => rw [acts, foldl_cons, act_of_closed h, ← acts, ih]

theorem taken_act (a : PipeAct α) : (p.act a).taken = p.taken := by
  cases a with
  | write bytes =>
    simp only [act]
    split <;> rfl
  | close => rfl

theorem taken_acts (as : List (PipeAct α)) : (p.acts as).taken = p.taken := by
  induction as generalizing p with
  | nil => rfl
  | cons a as ih => exact (ih (p := p.act a)).trans (taken_act a)

theorem length_written_act (a : PipeAct α) : p.written.length ≤ (p.act a).written.length := by
  cases a with
  | write bytes =>
    simp only [act]
    split
    · simp only [written, length_append]
      omega
    · exact Nat.le_refl _
  | close => exact Nat.le_refl _

theorem writers_act (h : p.writers = false) (a : PipeAct α) : (p.act a).writers = false := by
  rw [act_of_closed h]
  exact h

structure Same (p q : Pipe α) : Prop where
  written : p.written = q.written
  writers : p.writers = q.writers

theorem Same.trans {q r : Pipe α} (h : Same p q) (h' : Same q r) : Same p r :=
  ⟨h.written.trans h'.written, h.writers.trans h'.writers⟩

theorem Same.act {q : Pipe α} (h : Same p q) (a : PipeAct α) : Same (p.act a) (q.act a) := by
  cases a with
  | write bytes =>
    have hwritten := h.written
    simp only [Pipe.act, h.writers]
    split
    · simp only [Pipe.written] at hwritten ⊢
      exact ⟨by simp only [Pipe.written, ← append_assoc, hwritten], rfl⟩
    · exact ⟨hwritten, h.writers⟩
  | close => exact ⟨h.written, rfl⟩

theorem Same.acts {q : Pipe α} (h : Same p q) (as : List (PipeAct α)) :
    Same (p.acts as) (q.acts as) := by
  induction as generalizing p q with
  | nil => exact h
  | cons a as ih => exact ih (h.act a)

theorem same_read (n : ℕ) : Same (p.read n) p := ⟨written_read n, rfl⟩

theorem acts_append (as bs : List (PipeAct α)) : p.acts (as ++ bs) = (p.acts as).acts bs :=
  foldl_append

end Pipe

end MaluDb.Lib
