import Mathlib.Algebra.Order.Group.Nat
import Mathlib.Data.Set.Basic

/-!
# Network addresses

The type `inet`: an address of one of two families with the number of its bits that name a network.
`Inet.within` is the operator `<<=` as it is computed, and `within_iff` what it is for.
-/

namespace MaluDb.Lib

inductive Family where
  | v4
  | v6
  deriving DecidableEq

def Family.width : Family → ℕ
  | .v4 => 32
  | .v6 => 128

structure Inet where
  family : Family
  addr : ℕ
  bits : ℕ
  bits_le : bits ≤ family.width

namespace Inet

/-- The addresses that agree with `a` in the bits it fixes. -/
def range (a : Inet) : Set ℕ :=
  { x | x / 2 ^ (a.family.width - a.bits) = a.addr / 2 ^ (a.family.width - a.bits) }

/-- `a <<= c`. -/
def within (a c : Inet) : Bool :=
  a.family = c.family && c.bits ≤ a.bits &&
    a.addr / 2 ^ (a.family.width - c.bits) = c.addr / 2 ^ (a.family.width - c.bits)

theorem le_of_forall_div {x k m p : ℕ}
    (h : ∀ y, y / 2 ^ k = x / 2 ^ k → y / 2 ^ m = p) : k ≤ m := by
  by_contra hlt
  have hpow : 2 ^ m < 2 ^ k := Nat.pow_lt_pow_right (by decide) (by omega)
  have hmpos : 0 < 2 ^ m := Nat.pow_pos (by decide)
  have hkpos : 0 < 2 ^ k := Nat.pow_pos (by decide)
  -- the first number of the block of `x`, and the one a block of `2 ^ m` further
  have hfirst := h (x / 2 ^ k * 2 ^ k) (Nat.mul_div_cancel _ hkpos)
  have hnext := h (2 ^ m + 2 ^ k * (x / 2 ^ k))
    (by rw [Nat.add_mul_div_left _ _ hkpos, Nat.div_eq_of_lt hpow, Nat.zero_add])
  rw [Nat.add_div_left _ hmpos, Nat.mul_comm (2 ^ k), hfirst] at hnext
  omega

theorem within_iff (a c : Inet) :
    a.within c = true ↔ a.family = c.family ∧ a.range ⊆ c.range := by
  obtain ⟨family, x, bits, hbits⟩ := a
  obtain ⟨family', y, bits', hbits'⟩ := c
  simp only [within, Bool.and_eq_true, decide_eq_true_eq]
  constructor
  · rintro ⟨⟨rfl, hle⟩, heq⟩
    refine ⟨rfl, fun z (hz : z / _ = x / _) => ?_⟩
    show z / 2 ^ (family.width - bits') = y / 2 ^ (family.width - bits')
    have hsplit : family.width - bits' = (family.width - bits) + (bits - bits') := by omega
    rw [← heq, hsplit, pow_add, ← Nat.div_div_eq_div_mul, ← Nat.div_div_eq_div_mul, hz]
  · rintro ⟨rfl, hsub⟩
    have hle : family.width - bits ≤ family.width - bits' := le_of_forall_div hsub
    exact ⟨⟨rfl, by omega⟩, hsub rfl⟩

end Inet

end MaluDb.Lib
