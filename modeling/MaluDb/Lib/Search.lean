import Mathlib.Data.List.Basic

/-!
# Bounded search

A loop that tests a candidate, goes on to the next one, and gives up after a number of tests.
-/

namespace MaluDb.Lib

variable {α : Type} {p : α → Bool} {next : α → α}

/-- The first of `k` candidates that passes the test. -/
def search (p : α → Bool) (next : α → α) : Nat → α → Option α
  | 0, _ => none
  | k + 1, a => if p a then some a else search p next k (next a)

/-- **The search rule**: `I` holds of the candidates up to `m`, and `rank` is the distance to it. -/
theorem search_eq_ite {I : α → Prop} (rank : α → Nat) {m : α}
    (hit : ∀ a, I a → p a = true → a = m ∧ rank a = 0)
    (miss : ∀ a, I a → p a = false → I (next a) ∧ rank a = rank (next a) + 1) :
    ∀ (k : Nat) (a : α), I a → search p next k a = if rank a < k then some m else none
  | 0, a, _ => by rw [if_neg (Nat.not_lt_zero _), search]
  | k + 1, a, ha => by
    unfold search
    cases hp : p a with
    | true =>
      obtain ⟨rfl, hrank⟩ := hit a ha hp
      rw [if_pos rfl, if_pos (by omega)]
    | false =>
      obtain ⟨hnext, hrank⟩ := miss a ha hp
      rw [if_neg Bool.false_ne_true, search_eq_ite rank hit miss k (next a) hnext]
      simp only [hrank, Nat.add_lt_add_iff_right]

end MaluDb.Lib
