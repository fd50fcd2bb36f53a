import Mathlib.Data.List.Basic

/-!
# Backends of a transactional server

A client sees of each statement whether it completed. A statement that raises aborts its
transaction, which then refuses every statement; a COMMIT of it is a rollback that completes.
Outside of a transaction a statement is one of its own.

* `Backend.work` follows the work of one statement, the marked one.
* `Fate`: besides completing and raising, the request or the reply of a statement can get lost, and
  the connection can break, which rolls back.
-/

namespace MaluDb.Lib

inductive Tx where
  | idle
  | active
  | aborted
  deriving DecidableEq, Repr

inductive Work where
  | absent
  | pending
  | committed
  | rolledBack
  deriving DecidableEq, Repr

def Work.settle (w last : Work) : Work := if w = .pending then last else w

structure Backend where
  connected : Bool
  tx : Tx
  work : Work
  deriving DecidableEq, Repr

inductive Stmt where
  | begin
  | commit
  | rollback
  | query (marked : Bool)

inductive Fate where
  | completes
  | raises
  | replyLost
  | requestLost
  | disconnects
  deriving DecidableEq, Repr

def Fate.replied : Fate → Bool
  | .completes | .raises => true
  | _ => false

namespace Backend

variable (s : Backend)

/-- The server executes a statement that raises or does not; the flag says whether it completes. -/
def serve (stmt : Stmt) (raises : Bool) : Backend × Bool :=
  match stmt, s.tx with
  | .begin, .idle => if raises then (s, false) else ({ s with tx := .active }, true)
  | .begin, .active => if raises then ({ s with tx := .aborted }, false) else (s, true)
  | .commit, .idle => (s, !raises)
  | .commit, .active =>
    if raises then ({ s with tx := .idle, work := s.work.settle .rolledBack }, false)
    else ({ s with tx := .idle, work := s.work.settle .committed }, true)
  | .commit, .aborted => ({ s with tx := .idle, work := s.work.settle .rolledBack }, true)
  | .rollback, _ => ({ s with tx := .idle, work := s.work.settle .rolledBack }, true)
  | .query marked, .idle =>
    if raises then (s, false)
    else ({ s with work := if marked then .committed else s.work }, true)
  | .query marked, .active =>
    if raises then ({ s with tx := .aborted }, false)
    else ({ s with work := if marked then .pending else s.work }, true)
  | _, .aborted => (s, false)

def exec (stmt : Stmt) (fate : Fate) : Backend × Bool :=
  if s.connected then
    match fate with
    | .completes => s.serve stmt false
    | .raises => s.serve stmt true
    | .replyLost => ((s.serve stmt false).1, false)
    | .requestLost => (s, false)
    | .disconnects => (⟨false, .idle, s.work.settle .rolledBack⟩, false)
  else (s, false)

def opens (fate : Fate) : Bool :=
  s.connected && match s.tx, fate with
    | .idle, .completes | .idle, .replyLost => true
    | .active, .completes | .active, .replyLost | .active, .requestLost => true
    | _, _ => false

variable {s} {s' : Backend} {fate : Fate} {marked : Bool}

theorem exec_begin (hc : (s.exec .begin fate).1.connected = true) :
    (s.exec .begin fate).1.tx = .active ↔ s.opens fate = true := by
  obtain ⟨connected, tx, work⟩ := s
  cases connected with
  | false => cases hc
  | true => cases tx <;> cases fate <;> simp_all [exec, serve, opens]

theorem connected_of_opens (h : s.opens fate = true) :
    (s.exec .begin fate).1.connected = true := by
  obtain ⟨connected, tx, work⟩ := s
  cases connected with
  | false => cases h
  | true => cases tx <;> cases fate <;> simp_all [exec, serve, opens]

theorem exec_query_completes (hc : s.connected = true) (htx : s.tx = .active) :
    s.exec (.query marked) .completes =
      ({ s with work := if marked then .pending else s.work }, true) := by
  simp [exec, serve, hc, htx]

theorem exec_query_ok (h : s.exec (.query marked) fate = (s', true)) :
    s.connected = true ∧ fate = .completes ∧
      (s.tx = .idle ∧ s' = { s with work := if marked then .committed else s.work } ∨
      s.tx = .active ∧ s' = { s with work := if marked then .pending else s.work }) := by
  obtain ⟨connected, tx, work⟩ := s
  cases connected with
  | false => cases h
  | true => cases tx <;> cases fate <;> simp_all [exec, serve]

theorem exec_commit_ok (h : s.exec .commit fate = (s', true)) :
    s.connected = true ∧ fate.replied = true ∧ (s.tx = .idle ∧ s' = s ∨
      s.tx = .active ∧ s'.work = s.work.settle .committed ∨
      s.tx = .aborted ∧ s'.work = s.work.settle .rolledBack) := by
  obtain ⟨connected, tx, work⟩ := s
  cases connected with
  | false => cases h
  | true => cases tx <;> cases fate <;> simp_all [exec, serve, Fate.replied] <;> simp [← h]

theorem exec_commit_aborted (hc : s.connected = true) (htx : s.tx = .aborted)
    (hfate : fate.replied = true) :
    s.exec .commit fate = ({ s with tx := .idle, work := s.work.settle .rolledBack }, true) := by
  cases fate <;> simp_all [exec, serve, Fate.replied]

theorem exec_query_same (hc : s.connected = true)
    (htx : s.tx = .idle ∨ s.tx = .active ∧ fate ≠ .raises)
    (hc' : (s.exec (.query false) fate).1.connected = true) :
    (s.exec (.query false) fate).1 = s := by
  obtain ⟨connected, tx, work⟩ := s
  obtain rfl : connected = true := hc
  obtain rfl | ⟨rfl, hfate⟩ : tx = .idle ∨ tx = .active ∧ fate ≠ .raises := htx
  · cases fate <;> first | rfl | cases hc'
  · cases fate <;> first | rfl | exact absurd rfl hfate | cases hc'

end Backend

end MaluDb.Lib
