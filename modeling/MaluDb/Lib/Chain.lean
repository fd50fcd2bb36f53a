import Mathlib.Data.Setoid.Basic

/-!
# Links to later elements

A relation on the natural numbers whose links go up.
-/

namespace MaluDb.Lib

variable {r : Nat → Nat → Prop}

theorem not_transGen_self (hlt : ∀ a b, r a b → a < b) (a : Nat) : ¬ Relation.TransGen r a a := by
  have hle : r ≤ (· < ·) := hlt
  exact fun h => Nat.lt_irrefl a (Relation.transGen_minimal hle a a h)

theorem exists_end {n : Nat} (hlt : ∀ a b, r a b → a < b ∧ b < n) (a : Nat) :
    ∃ b, Relation.ReflTransGen r a b ∧ ∀ c, ¬ r b c := by
  by_cases hend : ∃ b, r a b
  · obtain ⟨b, hab⟩ := hend
    have hb := hlt a b hab
    obtain ⟨c, hbc, hc⟩ := exists_end hlt b
    exact ⟨c, .head hab hbc, hc⟩
  · exact ⟨a, .refl, fun c hc => hend ⟨c, hc⟩⟩
termination_by n - a

theorem eq_of_eqvGen {α β : Type} {r : α → α → Prop} {f : α → β} (h : ∀ a b, r a b → f a = f b)
    {a b : α} (hab : Relation.EqvGen r a b) : f a = f b := by
  have hker : Relation.EqvGen.setoid r ≤ Setoid.ker f := Setoid.eqvGen_le h
  exact hker hab

end MaluDb.Lib
