import Mathlib.Tactic.Linarith

/-!
# Rounding onto a grid

A grid is an increasing sequence of numbers from 0 that leaves no number behind. Rounding to nearest
(`Grid.nearest`) takes a number to a position; half way between two positions it is the even one.
-/

namespace MaluDb.Lib

/-- Increasing numbers from 0. -/
structure Grid where
  value : ℕ → ℚ
  zero : value 0 = 0
  strictMono : StrictMono value
  unbounded : ∀ q, ∃ c, q < value (c + 1)

namespace Grid

variable (g : Grid) {q q' : ℚ} {c c' : ℕ}

def mid (c : ℕ) : ℚ := (g.value c + g.value (c + 1)) / 2

/-- The last position that is not above `q`. -/
def below (q : ℚ) : ℕ := Nat.find (g.unbounded q)

def nearest (q : ℚ) : ℕ :=
  if q < g.mid (g.below q) ∨ q = g.mid (g.below q) ∧ Even (g.below q) then g.below q
  else g.below q + 1

/-- The numbers that should round to `c`: those between the midpoints next to it, and these if `c`
is even. -/
structure Within (c : ℕ) (q : ℚ) : Prop where
  lower : ∀ b, b + 1 = c → g.mid b < q ∨ g.mid b = q ∧ Even c
  upper : q < g.mid c ∨ q = g.mid c ∧ Even c

variable {g}

theorem value_lt_mid (c : ℕ) : g.value c < g.mid c := by
  have := g.strictMono (Nat.lt_succ_self c)
  unfold mid
  linarith

theorem mid_lt_value (c : ℕ) : g.mid c < g.value (c + 1) := by
  have := g.strictMono (Nat.lt_succ_self c)
  unfold mid
  linarith

theorem mid_strictMono : StrictMono g.mid :=
  strictMono_nat_of_lt_succ fun c => (mid_lt_value c).trans (value_lt_mid (c + 1))

theorem value_nonneg (c : ℕ) : 0 ≤ g.value c := by
  rw [← g.zero]
  exact g.strictMono.monotone (Nat.zero_le c)

theorem lt_value_below (q : ℚ) : q < g.value (g.below q + 1) := Nat.find_spec (g.unbounded q)

theorem value_below_le (hq : 0 ≤ q) : g.value (g.below q) ≤ q := by
  cases hb : g.below q with
  | zero => rwa [g.zero]
  | succ b =>
    have hlt : b < g.below q := by omega
    exact not_lt.mp (Nat.find_min (g.unbounded q) hlt)

theorem within_nearest (hq : 0 ≤ q) : g.Within (g.nearest q) q := by
  have hlo := value_below_le (g := g) hq
  have hhi := lt_value_below (g := g) q
  unfold nearest
  split
  · rename_i h
    refine ⟨fun b hb => .inl ?_, h⟩
    rw [← hb] at hlo
    exact (mid_lt_value b).trans_le hlo
  rename_i h
  obtain ⟨hge, htie⟩ := not_or.mp h
  have hlt := hhi.trans (value_lt_mid (g := g) (g.below q + 1))
  refine ⟨fun b hb => ?_, .inl hlt⟩
  obtain rfl : b = g.below q := by omega
  rcases (not_lt.mp hge).lt_or_eq with h | h
  · exact .inl h
  · exact .inr ⟨h, Nat.even_add_one.mpr fun he => htie ⟨h.symm, he⟩⟩

theorem Within.le (h : g.Within c q) (h' : g.Within c' q') (hqq : q ≤ q') : c ≤ c' := by
  by_contra hlt
  obtain ⟨b, rfl⟩ : ∃ b, b + 1 = c := ⟨c - 1, by omega⟩
  have hmid : g.mid c' ≤ g.mid b := mid_strictMono.monotone (by omega)
  rcases h.lower b rfl with hlo | ⟨hlo, he⟩
  · rcases h'.upper with hhi | ⟨hhi, -⟩ <;> linarith
  rcases h'.upper with hhi | ⟨hhi, he'⟩
  · linarith
  -- both at one midpoint, so the positions are neighbours of which one is odd
  have heq : g.mid c' = g.mid b := by linarith
  obtain rfl : c' = b := mid_strictMono.injective heq
  exact absurd he' (Nat.even_add_one.mp he)

theorem nearest_eq_iff (hq : 0 ≤ q) : g.nearest q = c ↔ g.Within c q := by
  constructor
  · rintro rfl
    exact within_nearest hq
  · intro h
    exact le_antisymm ((within_nearest hq).le h le_rfl) (h.le (within_nearest hq) le_rfl)

theorem nearest_mono (hq : 0 ≤ q) (h : q ≤ q') : g.nearest q ≤ g.nearest q' :=
  (within_nearest hq).le (within_nearest (hq.trans h)) h

theorem within_value (c : ℕ) : g.Within c (g.value c) :=
  ⟨fun b hb => .inl (hb ▸ mid_lt_value b), .inl (value_lt_mid c)⟩

theorem nearest_value (c : ℕ) : g.nearest (g.value c) = c :=
  (nearest_eq_iff (value_nonneg c)).mpr (within_value c)

theorem nearest_mid (hc : ¬ Even c) : g.nearest (g.mid c) = c + 1 := by
  have hnonneg : 0 ≤ g.mid c := (value_nonneg c).trans (value_lt_mid c).le
  refine (nearest_eq_iff hnonneg).mpr ⟨fun b hb => ?_, .inl (mid_strictMono (Nat.lt_succ_self c))⟩
  obtain rfl : b = c := by omega
  exact .inr ⟨rfl, Nat.even_add_one.mpr hc⟩

/-! ## Rounding twice -/

def Refines (f g : Grid) : Prop := ∀ c, ∃ k, f.value k = g.mid c

/-- The number is taken to the midpoint `m` by the fine rounding. -/
def Near (f : Grid) (m q : ℚ) : Prop := ∃ k, f.value k = m ∧ f.Within k q

variable {f : Grid}

theorem near_iff (hq : 0 ≤ q) {m : ℚ} : f.Near m q ↔ f.value (f.nearest q) = m := by
  constructor
  · rintro ⟨k, hk, hw⟩
    rw [(nearest_eq_iff hq).mpr hw, hk]
  · intro h
    exact ⟨f.nearest q, h, within_nearest hq⟩

theorem value_nearest_le (hf : f.Refines g) (hq : 0 ≤ q) (h : q ≤ g.mid c) :
    f.value (f.nearest q) ≤ g.mid c := by
  obtain ⟨k, hk⟩ := hf c
  rw [← hk] at h ⊢
  have hle := nearest_mono (g := f) hq h
  rw [nearest_value] at hle
  exact f.strictMono.monotone hle

theorem le_value_nearest (hf : f.Refines g) (h : g.mid c ≤ q) :
    g.mid c ≤ f.value (f.nearest q) := by
  obtain ⟨k, hk⟩ := hf c
  rw [← hk] at h ⊢
  have hle := nearest_mono (g := f) (value_nonneg k) h
  rw [nearest_value] at hle
  exact f.strictMono.monotone hle

/-- **Rounding twice** is rounding once, but for a number of an odd position that the fine rounding
takes to a midpoint. -/
theorem nearest_twice_iff (hf : f.Refines g) (hq : 0 ≤ q) (hc : g.nearest q = c) :
    g.nearest (f.value (f.nearest q)) = c ↔
      Even c ∨ ¬ f.Near (g.mid c) q ∧ ∀ b, b + 1 = c → ¬ f.Near (g.mid b) q := by
  have hw := (nearest_eq_iff hq).mp hc
  have hupper : f.value (f.nearest q) ≤ g.mid c :=
    value_nearest_le hf hq (hw.upper.elim le_of_lt (·.1.le))
  have hlower : ∀ b, b + 1 = c → g.mid b ≤ f.value (f.nearest q) := fun b hb =>
    le_value_nearest hf ((hw.lower b hb).elim le_of_lt (·.1.le))
  rw [nearest_eq_iff (value_nonneg _)]
  simp only [near_iff hq]
  constructor
  · intro h
    by_cases he : Even c
    · exact .inl he
    -- at an odd position neither end belongs to the interval
    refine .inr ⟨fun heq => ?_, fun b hb heq => ?_⟩
    · rcases h.upper with hlt | ⟨-, he'⟩
      · exact hlt.ne heq
      · exact he he'
    · rcases h.lower b hb with hlt | ⟨-, he'⟩
      · exact hlt.ne heq.symm
      · exact he he'
  · rintro (he | ⟨hnu, hnl⟩)
    · exact ⟨fun b hb => (hlower b hb).lt_or_eq.imp_right fun h => ⟨h, he⟩,
        hupper.lt_or_eq.imp_right fun h => ⟨h, he⟩⟩
    · exact ⟨fun b hb => .inl (lt_of_le_of_ne (hlower b hb) fun h => hnl b hb h.symm),
        .inl (lt_of_le_of_ne hupper hnu)⟩

end Grid

end MaluDb.Lib
