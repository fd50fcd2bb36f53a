import Mathlib.Tactic.Common

/-!
# Calls that raise, and blocks that catch

A call leaves the state it has made so far, whether it returns or raises (`Ended`). A block with an
exception handler (`block`) is a subtransaction: when its body raises an error that is caught, the
handler starts from the state in which the block was entered.
-/

namespace MaluDb.Lib

variable {σ ε α β : Type}

inductive Ended (σ ε α : Type) where
  | returned (s : σ) (a : α)
  | raised (s : σ) (e : ε)
  deriving Repr

def Ended.andThen (r : Ended σ ε α) (f : α → σ → Ended σ ε β) : Ended σ ε β :=
  match r with
  | .returned s a => f a s
  | .raised s e => .raised s e

def Ended.state : Ended σ ε α → σ
  | .returned s _ => s
  | .raised s _ => s

/-- The call raised. -/
def Ended.isRaised : Ended σ ε α → Bool
  | .returned _ _ => false
  | .raised _ _ => true

/-- A subtransaction; `catches` are the conditions of its handler. -/
def block (catches : ε → Bool) (body : σ → Ended σ ε α) (handler : ε → σ → Ended σ ε α) (s : σ) :
    Ended σ ε α :=
  match body s with
  | .returned s' a => .returned s' a
  | .raised s' e => if catches e then handler e s else .raised s' e

@[simp] theorem andThen_returned (s : σ) (a : α) (f : α → σ → Ended σ ε β) :
    (Ended.returned s a).andThen f = f a s := rfl

@[simp] theorem andThen_raised (s : σ) (e : ε) (f : α → σ → Ended σ ε β) :
    (Ended.raised s e : Ended σ ε α).andThen f = .raised s e := rfl

@[simp] theorem state_returned (s : σ) (a : α) : (Ended.returned s a : Ended σ ε α).state = s := rfl

section

variable {catches : ε → Bool} {body : σ → Ended σ ε α} {handler : ε → σ → Ended σ ε α} {s s' : σ}

theorem block_of_returned {a : α} (h : body s = .returned s' a) :
    block catches body handler s = .returned s' a := by
  unfold block
  rw [h]

theorem block_of_caught {e : ε} (h : body s = .raised s' e) (he : catches e = true) :
    block catches body handler s = handler e s := by
  unfold block
  rw [h]
  exact if_pos he

theorem block_of_uncaught {e : ε} (h : body s = .raised s' e) (he : catches e = false) :
    block catches body handler s = .raised s' e := by
  unfold block
  rw [h]
  exact if_neg (by simp [he])

end

end MaluDb.Lib
