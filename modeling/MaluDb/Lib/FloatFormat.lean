import Mathlib.Algebra.Order.Archimedean.Basic
import Mathlib.Algebra.Order.Field.Power
import MaluDb.Lib.Grid

/-!
# Binary floating-point formats

The non-negative numbers of an IEEE format, at the position that their bits without the sign encode.
The positions go on above the largest finite number; rounding to a position there is overflow.

* `Format.value` is the number at a position, `Format.ulp` the distance to the next one.
* `refines_of`: a format with two more digits, below and above, has the midpoints of another.
-/

namespace MaluDb.Lib

structure Format where
  fractionBits : ℕ
  minExponent : ℤ
  deriving DecidableEq, Repr

namespace Format

variable (F : Format)

def block : ℕ := 2 ^ F.fractionBits

def ulp (c : ℕ) : ℚ := 2 ^ (F.minExponent + (c / F.block - 1 : ℕ))

def significand (c : ℕ) : ℕ := c % F.block + if c < F.block then 0 else F.block

/-- The number at a position. -/
def value (c : ℕ) : ℚ := F.significand c * F.ulp c

variable {F}

theorem block_pos : 0 < F.block := Nat.two_pow_pos _

theorem ulp_pos (c : ℕ) : 0 < F.ulp c := by
  unfold ulp
  positivity

theorem significand_lt (c : ℕ) : F.significand c < 2 * F.block := by
  have := Nat.mod_lt c (block_pos (F := F))
  unfold significand
  split <;> omega

theorem value_of_fields (j : ℕ) {n : ℕ} (hn : n < F.block) :
    F.value (F.block * (j + 1) + n) = (F.block + n) * 2 ^ (F.minExponent + j) := by
  have hdiv : (F.block * (j + 1) + n) / F.block = j + 1 := by
    rw [Nat.mul_add_div block_pos, Nat.div_eq_of_lt hn, Nat.add_zero]
  have hmod : (F.block * (j + 1) + n) % F.block = n := by
    rw [Nat.mul_add_mod, Nat.mod_eq_of_lt hn]
  have hge : ¬ F.block * (j + 1) + n < F.block := by
    rw [Nat.mul_succ]
    omega
  unfold value significand ulp
  rw [hdiv, hmod, if_neg hge, Nat.add_sub_cancel]
  push_cast
  ring

theorem value_of_lt_block {n : ℕ} (hn : n < F.block) :
    F.value n = n * 2 ^ F.minExponent := by
  unfold value significand ulp
  rw [Nat.div_eq_of_lt hn, Nat.mod_eq_of_lt hn, if_pos hn]
  simp

theorem exists_fields (c : ℕ) :
    c < F.block ∨ ∃ j n, n < F.block ∧ c = F.block * (j + 1) + n := by
  rcases Nat.lt_or_ge c F.block with h | h
  · exact Or.inl h
  · refine Or.inr ⟨c / F.block - 1, c % F.block, Nat.mod_lt c block_pos, ?_⟩
    have hpos : 0 < c / F.block := Nat.div_pos h block_pos
    rw [Nat.sub_add_cancel hpos, Nat.div_add_mod]

theorem ulp_of_fields (j : ℕ) {n : ℕ} (hn : n < F.block) :
    F.ulp (F.block * (j + 1) + n) = 2 ^ (F.minExponent + j) := by
  unfold ulp
  rw [Nat.mul_add_div block_pos, Nat.div_eq_of_lt hn, Nat.add_zero, Nat.add_sub_cancel]

theorem ulp_of_lt_block {n : ℕ} (hn : n < F.block) : F.ulp n = 2 ^ F.minExponent := by
  unfold ulp
  rw [Nat.div_eq_of_lt hn]
  simp

theorem value_succ (c : ℕ) : F.value (c + 1) = F.value c + F.ulp c := by
  rcases exists_fields (F := F) c with hc | ⟨j, n, hn, rfl⟩
  · rw [value_of_lt_block hc, ulp_of_lt_block hc]
    rcases Nat.lt_or_ge (c + 1) F.block with h | h
    · rw [value_of_lt_block h]
      push_cast
      ring
    have hend : c + 1 = F.block := by omega
    have heq : c + 1 = F.block * (0 + 1) + 0 := by omega
    rw [heq, value_of_fields 0 block_pos, ← hend]
    push_cast
    rw [add_zero, add_zero]
    ring
  rw [value_of_fields j hn, ulp_of_fields j hn]
  rcases Nat.lt_or_ge (n + 1) F.block with h | h
  · rw [Nat.add_assoc, value_of_fields j h]
    push_cast
    ring
  have hend : n + 1 = F.block := by omega
  have heq : F.block * (j + 1) + n + 1 = F.block * (j + 1 + 1) + 0 := by
    rw [Nat.mul_succ F.block (j + 1)]
    omega
  have hpow : (2 : ℚ) ^ (F.minExponent + (j + 1 : ℕ)) = 2 ^ (F.minExponent + j) * 2 := by
    rw [Nat.cast_add, Nat.cast_one, ← add_assoc, zpow_add_one₀ two_ne_zero]
  rw [heq, value_of_fields (j + 1) block_pos, hpow, ← hend]
  push_cast
  ring

theorem le_ulp (c : ℕ) : (2 : ℚ) ^ F.minExponent ≤ F.ulp c :=
  zpow_le_zpow_right₀ one_le_two (le_add_of_nonneg_right (Int.natCast_nonneg _))

theorem le_value (c : ℕ) : (c : ℚ) * 2 ^ F.minExponent ≤ F.value c := by
  induction c with
  | zero => simp [value_of_lt_block block_pos]
  | succ c ih =>
    rw [value_succ]
    push_cast
    rw [add_mul, one_mul]
    exact add_le_add ih (le_ulp c)

variable (F) in
/-- The numbers of a format. -/
def grid : Grid where
  value := F.value
  zero := by simp [value_of_lt_block block_pos]
  strictMono := strictMono_nat_of_lt_succ fun c => by
    rw [value_succ]
    exact lt_add_of_pos_right _ (ulp_pos c)
  unbounded q := by
    have hpos : (0 : ℚ) < 2 ^ F.minExponent := by positivity
    obtain ⟨c, hc⟩ := exists_nat_gt (q / 2 ^ F.minExponent)
    refine ⟨c, ((div_lt_iff₀ hpos).mp hc).trans_le ((le_value c).trans ?_)⟩
    rw [value_succ]
    exact le_add_of_nonneg_right (ulp_pos c).le

theorem mid_grid (c : ℕ) : F.grid.mid c = (2 * F.significand c + 1) * (F.ulp c / 2) := by
  show (F.value c + F.value (c + 1)) / 2 = _
  rw [value_succ]
  unfold value
  ring

theorem exists_value (j : ℕ) : ∀ {n : ℕ}, n < 2 * F.block →
    ∃ k, F.value k = n * 2 ^ (F.minExponent + j) := by
  induction j with
  | zero =>
    intro n hn
    rcases Nat.lt_or_ge n F.block with h | h
    · exact ⟨n, by rw [value_of_lt_block h]; simp⟩
    · refine ⟨F.block * (0 + 1) + (n - F.block), ?_⟩
      rw [value_of_fields 0 (by omega), Nat.cast_sub h]
      ring
  | succ j ih =>
    intro n hn
    rcases Nat.lt_or_ge n F.block with h | h
    · obtain ⟨k, hk⟩ := ih (n := 2 * n) (by omega)
      refine ⟨k, hk.trans ?_⟩
      rw [Nat.cast_add, Nat.cast_one, ← add_assoc, zpow_add_one₀ two_ne_zero]
      push_cast
      ring
    · refine ⟨F.block * (j + 1 + 1) + (n - F.block), ?_⟩
      rw [value_of_fields (j + 1) (by omega), Nat.cast_sub h]
      ring

theorem refines_of {G : Format} (hdigits : F.fractionBits < G.fractionBits)
    (hexp : G.minExponent < F.minExponent) : G.grid.Refines F.grid := by
  intro c
  obtain ⟨d, hd⟩ := Int.le.dest (Int.add_one_le_iff.mpr hexp)
  have hblock : 2 * F.block ≤ G.block := by
    unfold block
    rw [← pow_succ']
    exact Nat.pow_le_pow_right two_pos hdigits
  obtain ⟨k, hk⟩ := exists_value (F := G) (d + (c / F.block - 1))
    (n := 2 * F.significand c + 1) (by have := significand_lt (F := F) c; omega)
  refine ⟨k, hk.trans ?_⟩
  rw [mid_grid]
  unfold ulp
  have hpow : (2 : ℚ) ^ (F.minExponent + (c / F.block - 1 : ℕ)) / 2 =
      2 ^ (G.minExponent + (d + (c / F.block - 1) : ℕ)) := by
    rw [← hd, div_eq_iff two_ne_zero, ← zpow_add_one₀ two_ne_zero]
    congr 1
    push_cast
    ring
  rw [hpow]
  push_cast
  ring

end Format

end MaluDb.Lib
