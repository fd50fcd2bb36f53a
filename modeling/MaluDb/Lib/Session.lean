import Mathlib.Tactic.Common

/-!
# Sessions without autocommit

A client's connection that starts a transaction with its first statement and keeps it until someone
commits. A transaction block on an idle session is a transaction of its own; in an open transaction
it is a savepoint. A statement outside of a block that raises aborts the open transaction, and after
that every block raises.

* `Session.reset` is what a crash of the client leaves.
* `Session.Holds P`: what is committed and what the open transaction sees are both in `P`.
-/

namespace MaluDb.Lib

variable {σ ε α : Type}

inductive SessionTx (σ : Type) where
  | idle
  | open (view : σ)
  | aborted

structure Session (σ : Type) where
  committed : σ
  tx : SessionTx σ

namespace Session

variable (s : Session σ)

/-- What the session sees. -/
def view? : Option σ :=
  match s.tx with
  | .idle => some s.committed
  | .open view => some view
  | .aborted => none

/-- The end of a block that made `d` of what the session saw. -/
def write (d : σ) : Session σ :=
  match s.tx with
  | .idle => ⟨d, .idle⟩
  | .open _ => ⟨s.committed, .open d⟩
  | .aborted => s

/-- A transaction block. The error of an aborted transaction is `aborted`. -/
def transaction (aborted : ε) (body : σ → Except ε (σ × α)) : Session σ × Except ε α :=
  match s.view? with
  | none => (s, .error aborted)
  | some view =>
    match body view with
    | .error e => (s, .error e)
    | .ok (d, a) => (s.write d, .ok a)

def query (aborted : ε) (read : σ → Except ε α) : Session σ × Except ε α :=
  match s.view? with
  | none => (s, .error aborted)
  | some view =>
    match read view with
    | .error e => (⟨s.committed, .aborted⟩, .error e)
    | .ok a => (⟨s.committed, .open view⟩, .ok a)

/-- The connection is lost. -/
def reset : Session σ := ⟨s.committed, .idle⟩

def commit : Session σ :=
  match s.tx with
  | .open view => ⟨view, .idle⟩
  | _ => s.reset

structure Holds (P : σ → Prop) (s : Session σ) : Prop where
  committed : P s.committed
  view : ∀ v, s.view? = some v → P v

variable {s} {P : σ → Prop}

theorem view?_write {v : σ} (h : s.view? = some v) (d : σ) : (s.write d).view? = some d := by
  obtain ⟨committed, _ | view | _⟩ := s
  · rfl
  · rfl
  · cases h

theorem Holds.write (h : Holds P s) {d : σ} (hd : P d) : Holds P (s.write d) := by
  obtain ⟨committed, _ | view | _⟩ := s
  · exact ⟨hd, fun v hv => Option.some.inj hv ▸ hd⟩
  · exact ⟨h.committed, fun v hv => Option.some.inj hv ▸ hd⟩
  · exact h

theorem Holds.reset (h : Holds P s) : Holds P s.reset :=
  ⟨h.committed, fun _ hv => Option.some.inj hv ▸ h.committed⟩

theorem Holds.commit (h : Holds P s) : Holds P s.commit := by
  obtain ⟨committed, _ | view | _⟩ := s
  · exact h
  · exact ⟨h.view view rfl, fun v hv => Option.some.inj hv ▸ h.view view rfl⟩
  · exact h.reset

section

variable {body : σ → Except ε (σ × α)} {s' : Session σ} {aborted : ε} {a : α}

theorem transaction_eq_ok (h : s.transaction aborted body = (s', .ok a)) :
    ∃ v d, s.view? = some v ∧ body v = .ok (d, a) ∧ s' = s.write d := by
  unfold transaction at h
  split at h
  · cases h
  rename_i v hv
  split at h
  · cases h
  · rename_i d a' hbody
    cases h
    exact ⟨v, d, hv, hbody, rfl⟩

theorem transaction_eq_error {e : ε} (h : s.transaction aborted body = (s', .error e)) :
    s' = s := by
  unfold transaction at h
  split at h
  · cases h
    rfl
  split at h
  · cases h
    rfl
  · cases h

theorem Holds.query (h : Holds P s) (aborted : ε) (read : σ → Except ε α) :
    Holds P (s.query aborted read).1 := by
  unfold Session.query
  split
  · exact h
  rename_i v hv
  split
  · exact ⟨h.committed, fun _ hv => by cases hv⟩
  · exact ⟨h.committed, fun _ hv' => Option.some.inj hv' ▸ h.view v hv⟩

theorem query_eq_ok {read : σ → Except ε α} (h : s.query aborted read = (s', .ok a)) :
    s'.view? = s.view? := by
  unfold query at h
  split at h
  · cases h
  rename_i v hv
  split at h
  · cases h
  · cases h
    exact hv.symm

end

end Session

end MaluDb.Lib
