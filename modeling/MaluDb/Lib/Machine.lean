import Mathlib.Algebra.Order.Ring.Int
import Mathlib.Data.List.Basic

/-!
# Machine integers and their bytes

* `sizeAdd`, `sizeMul` and `toSize` are the arithmetic of a 64-bit unsigned size.
* A `Cell` stores a value in a fixed number of bytes, and reads it back if it fits. `leInt` is the
  cell of a two's-complement integer, the least significant byte first.
-/

namespace MaluDb.Lib.Machine

open List

/-! ## Sizes -/

/-- `a + b`. -/
def sizeAdd (a b : ℕ) : ℕ := (a + b) % 2 ^ 64

/-- `a * b`. -/
def sizeMul (a b : ℕ) : ℕ := a * b % 2 ^ 64

def toSize (i : Int) : ℕ := (i % 2 ^ 64).toNat

theorem toSize_natCast (n : ℕ) : toSize n = n % 2 ^ 64 := by
  unfold toSize
  omega

/-! ## Bytes -/

/-- The `w` bytes of a number, the least significant one first. -/
def leBytes : ℕ → ℕ → List UInt8
  | 0, _ => []
  | w + 1, n => UInt8.ofNat n :: leBytes w (n / 256)

def leNat : List UInt8 → ℕ
  | [] => 0
  | b :: l => b.toNat + 256 * leNat l

theorem length_leBytes (w n : ℕ) : (leBytes w n).length = w := by
  induction w generalizing n with
  | zero => rfl
  | succ w ih => rw [leBytes, length_cons, ih]

theorem leNat_leBytes (w n : ℕ) : leNat (leBytes w n) = n % 256 ^ w := by
  induction w generalizing n with
  | zero => rw [leBytes, leNat, Nat.pow_zero, Nat.mod_one]
  | succ w ih =>
    rw [leBytes, leNat, ih, UInt8.toNat_ofNat', show 2 ^ 8 = 256 from rfl, Nat.pow_succ',
      Nat.mod_mul]

/-- The `w` bytes of a number, the most significant one first. -/
def beBytes (w n : ℕ) : List UInt8 := (leBytes w n).reverse

def beNat (l : List UInt8) : ℕ := leNat l.reverse

@[simp] theorem length_beBytes (w n : ℕ) : (beBytes w n).length = w := by
  simp [beBytes, length_leBytes]

theorem beNat_beBytes {w n : ℕ} (h : n < 256 ^ w) : beNat (beBytes w n) = n := by
  simp [beNat, beBytes, leNat_leBytes, Nat.mod_eq_of_lt h]

/-- A value in `w` bytes. Those that fit are read back. -/
structure Cell (w : ℕ) (α : Type) where
  encode : α → List UInt8
  decode : List UInt8 → α
  Fits : α → Prop
  length_encode : ∀ a, (encode a).length = w
  decode_encode : ∀ a, Fits a → decode (encode a) = a

def leInt (w : ℕ) : Cell w Int where
  encode i := leBytes w (i % 256 ^ w).toNat
  decode l := Int.bmod (leNat l) (256 ^ w)
  Fits i := -(256 ^ w : Int) ≤ 2 * i ∧ 2 * i < 256 ^ w
  length_encode i := length_leBytes w _
  decode_encode i h := by
    have hpos : (0 : Int) < (256 ^ w : ℕ) := Int.natCast_pos.mpr (Nat.pow_pos (by decide))
    have hcast : ((256 ^ w : ℕ) : Int) = 256 ^ w := Int.natCast_pow 256 w
    rw [← hcast] at h
    rw [leNat_leBytes, ← hcast, Int.natCast_emod, Int.toNat_of_nonneg (Int.emod_nonneg _ hpos.ne'),
      Int.emod_emod_of_dvd _ dvd_rfl, Int.emod_bmod]
    exact Int.bmod_eq_of_le_mul_two (by omega) (by omega)

/-! ## Arrays -/

section

variable {α : Type} {w : ℕ}

/-- The first `n` rows of length `w`. -/
def pieces (w : ℕ) : ℕ → List α → List (List α)
  | 0, _ => []
  | n + 1, l => l.take w :: pieces w n (l.drop w)

section

variable {ls : List (List α)} (c : Cell w α) (xs : List α)

theorem pieces_flatten (h : ∀ l ∈ ls, l.length = w) (rest : List α) :
    pieces w ls.length (ls.flatten ++ rest) = ls := by
  induction ls with
  | nil => rfl
  | cons l ls ih =>
    have hl : l.length = w := h l mem_cons_self
    rw [length_cons, pieces, flatten_cons, append_assoc, take_left' hl,
      drop_left' hl, ih fun l' hl' => h l' (mem_cons_of_mem l hl')]

theorem length_flatten_rows (h : ∀ l ∈ ls, l.length = w) : ls.flatten.length = ls.length * w := by
  rw [length_flatten, map_congr_left h, map_const', sum_replicate_nat]

def writeCells : List UInt8 := (xs.map c.encode).flatten

/-- The first `n` cells. -/
def readCells (n : ℕ) (l : List UInt8) : List α := (pieces w n l).map c.decode

theorem length_writeCells : (writeCells c xs).length = xs.length * w := by
  unfold writeCells
  rw [length_flatten_rows (forall_mem_map.mpr fun x _ => c.length_encode x), length_map]

end

/-- **An array is read back from its bytes.** -/
theorem readCells_writeCells {c : Cell w α} {xs : List α} (h : ∀ x ∈ xs, c.Fits x)
    (rest : List UInt8) : readCells c xs.length (writeCells c xs ++ rest) = xs := by
  have hwidth : ∀ l ∈ xs.map c.encode, l.length = w :=
    forall_mem_map.mpr fun x _ => c.length_encode x
  have hcut := pieces_flatten hwidth rest
  unfold readCells writeCells
  rw [length_map] at hcut
  rw [hcut, List.map_map]
  exact (map_congr_left fun x hx => c.decode_encode x (h x hx)).trans (map_id xs)

/-- **Rows of one length are read back from the bytes of their cells.** -/
theorem pieces_readCells {c : Cell w α} {rows : List (List α)} {k : ℕ}
    (hrows : ∀ r ∈ rows, r.length = k) (h : ∀ x ∈ rows.flatten, c.Fits x) (rest : List UInt8) :
    pieces k rows.length
      (readCells c (rows.length * k) (writeCells c rows.flatten ++ rest)) = rows := by
  rw [← length_flatten_rows hrows, readCells_writeCells h]
  simpa using pieces_flatten hrows []

end

end MaluDb.Lib.Machine
