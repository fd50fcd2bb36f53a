import MaluDb.Vector.Text

/-!
# The round trip of a vector through its text

`maludb_vector_out` prints, for each component, a shortest decimal that rounds to it, and
`maludb_vector_in` rounds that decimal to a `double` before it casts to `float`. A decimal next to a
midpoint of two floats can be taken to the midpoint by the first rounding, and the tie of the second
one then goes to the even neighbour.
-/

namespace MaluDb.Vector

open Lib List Decimal

/-! ## One component -/

/-- The decimal `q` is not taken to a midpoint next to `x` on its way through `double`. -/
structure Clear (x : Float4) (q : ℚ) : Prop where
  upper : ¬ float8.grid.Near (float4.grid.mid x.code) q
  lower : ∀ b, b + 1 = x.code → ¬ float8.grid.Near (float4.grid.mid b) q

theorem float8_refines_float4 : float8.grid.Refines float4.grid :=
  Format.refines_of (by decide) (by decide)

theorem float4_value {j n c : ℕ} (hn : n < 2 ^ 23) (hc : c = 2 ^ 23 * (j + 1) + n) :
    float4.value c = (2 ^ 23 + n) * 2 ^ ((j : ℤ) - 149) := by
  rw [hc, sub_eq_neg_add]
  have h := Format.value_of_fields (F := float4) j hn
  exact_mod_cast h

theorem float8_value {j n c : ℕ} (hn : n < 2 ^ 52) (hc : c = 2 ^ 52 * (j + 1) + n) :
    float8.value c = (2 ^ 52 + n) * 2 ^ ((j : ℤ) - 1074) := by
  rw [hc, sub_eq_neg_add]
  have h := Format.value_of_fields (F := float8) j hn
  exact_mod_cast h

theorem float4Infinity_value : float4.value float4Infinity = float8.value (2 ^ 52 * 1151) := by
  rw [float4_value (j := 254) (n := 0) (c := float4Infinity) (by decide) (by decide),
    float8_value (j := 1150) (n := 0) (c := 2 ^ 52 * 1151) (by decide) (by decide)]
  norm_num

theorem nearest_le_float8Infinity {x : Float4} (hx : x.Finite) {q : ℚ} (hq : 0 ≤ q)
    (hround : float4.grid.nearest q = x.code) : float8.grid.nearest q ≤ float8Infinity := by
  have hlt : q < float4.value float4Infinity := by
    by_contra hge
    have hge' : float4.grid.value float4Infinity ≤ q := not_lt.mp hge
    have hle := Grid.nearest_mono (g := float4.grid) (Grid.value_nonneg float4Infinity) hge'
    rw [Grid.nearest_value, hround] at hle
    exact absurd hx (not_lt.mpr hle)
  rw [float4Infinity_value] at hlt
  have hle := Grid.nearest_mono (g := float8.grid) hq hlt.le
  have hval : float8.grid.nearest (float8.value (2 ^ 52 * 1151)) = 2 ^ 52 * 1151 :=
    Grid.nearest_value (g := float8.grid) _
  rw [hval] at hle
  exact hle.trans (by decide)

theorem Float8.toFloat4_ofDecimal (neg : Bool) (d : Decimal) :
    (Float8.ofDecimal neg d).toFloat4.neg = neg ∧
    (Float8.ofDecimal neg d).toFloat4.code = min (float4.grid.nearest
        (float8.value (min (float8.grid.nearest d.value) float8Infinity))) float4Infinity := by
  have hle : (Float8.ofDecimal neg d).code ≤ float8Infinity := Nat.min_le_right _ _
  unfold Float8.toFloat4
  rw [if_pos hle]
  exact ⟨rfl, rfl⟩

variable {pr : Printer} {x : Float4}

theorem reread_neg : (pr.reread x).neg = x.neg := (Float8.toFloat4_ofDecimal _ _).1

theorem reread_code (hx : x.Finite) : (pr.reread x).code =
    min (float4.grid.nearest
      (float8.value (float8.grid.nearest (pr.numeral x).decimal.value))) float4Infinity := by
  have hle := nearest_le_float8Infinity hx (value_nonneg _) (pr.shortest x hx).rounds
  rw [Printer.reread, (Float8.toFloat4_ofDecimal _ _).2, Nat.min_eq_left hle]

theorem reread_eq_iff (hx : x.Finite) :
    pr.reread x = x ↔ Even x.code ∨ Clear x (pr.numeral x).decimal.value := by
  have hcode : pr.reread x = x ↔ (pr.reread x).code = x.code :=
    ⟨congrArg Float4.code, fun h => Float4.ext reread_neg h⟩
  have hmin : ∀ n, min n float4Infinity = x.code ↔ n = x.code := fun n => by
    have : x.code < float4Infinity := hx
    omega
  rw [hcode, reread_code hx, hmin]
  refine (Grid.nearest_twice_iff float8_refines_float4 (value_nonneg _)
    (pr.shortest x hx).rounds).trans (or_congr_right ?_)
  exact ⟨fun h => ⟨h.1, h.2⟩, fun h => ⟨h.upper, h.lower⟩⟩

/-! ## The choice of the printer -/

theorem exists_shortest (x : Float4) : ∃ q, Shortest x q := by
  classical
  have hex : ∃ k q, float4.grid.nearest q = x.code ∧ HasDigits k q := by
    obtain ⟨d, hd⟩ := exists_decimal (float4.significand x.code) _
    refine ⟨d.coeff, d.value, ?_, d, Nat.lt_pow_self (by decide), rfl⟩
    rw [hd]
    exact Grid.nearest_value (g := float4.grid) x.code
  obtain ⟨q, hround, hk⟩ := Nat.find_spec hex
  exact ⟨q, hround, Nat.find hex, hk, fun q' hq' j hj => Nat.find_min' hex ⟨q', hq', hj⟩⟩

theorem Shortest.exists_numeral {q : ℚ} (h : Shortest x q) :
    ∃ n : Numeral, n.decimal.value = q := by
  obtain ⟨k, ⟨d, -, hd⟩, -⟩ := h.shortest
  obtain ⟨n, hn⟩ := Lib.exists_numeral d
  exact ⟨n, by rw [hn, hd]⟩

theorem exists_printer {q : ℚ} (h : Shortest x q) :
    ∃ pr : Printer, (pr.numeral x).decimal.value = q := by
  classical
  have hchoice : ∀ y : Float4, ∃ n : Numeral, Shortest y n.decimal.value ∧
      (y = x → n.decimal.value = q) := by
    intro y
    by_cases hy : y = x
    · subst hy
      obtain ⟨n, hn⟩ := h.exists_numeral
      exact ⟨n, hn ▸ h, fun _ => hn⟩
    · obtain ⟨q', hq'⟩ := exists_shortest y
      obtain ⟨n, hn⟩ := hq'.exists_numeral
      exact ⟨n, hn ▸ hq', fun heq => absurd heq hy⟩
  choose numeral hshort hgiven using hchoice
  exact ⟨⟨numeral, fun y _ => hshort y⟩, hgiven x rfl⟩

/-! ## Vectors -/

theorem vectorIn_vectorOut_eq_iff {other : List Char → Option (Float8 × ℕ)} {xs : List Float4}
    (hxs : ∀ x ∈ xs, x.Finite) : vectorIn other (vectorOut pr xs) = .ok xs ↔
      ∀ x ∈ xs, Even x.code ∨ Clear x (pr.numeral x).decimal.value := by
  rw [vectorIn_vectorOut xs hxs, Except.ok.injEq]
  refine Iff.trans ?_ (forall₂_congr fun x hx => reread_eq_iff (hxs x hx))
  constructor
  · intro h x hx
    exact map_inj_left.mp (h.trans (map_id xs).symm) x hx
  · intro h
    exact (map_congr_left h).trans (map_id xs)

/-- **The text form is lossless** for a vector, whatever shortest decimals are printed, exactly if
each component is even or has only shortest decimals that keep clear of its midpoints. -/
theorem vectorIn_vectorOut_iff (xs : List Float4) (hxs : ∀ x ∈ xs, x.Finite) :
    (∀ pr other, vectorIn other (vectorOut pr xs) = .ok xs) ↔
      ∀ x ∈ xs, Even x.code ∨ ∀ q, Shortest x q → Clear x q := by
  simp only [vectorIn_vectorOut_eq_iff hxs]
  constructor
  · intro h x hx
    by_cases he : Even x.code
    · exact .inl he
    · refine .inr fun q hq => ?_
      obtain ⟨pr, hpr⟩ := exists_printer hq
      exact hpr ▸ (h pr (fun _ => none) x hx).resolve_left he
  · intro h pr other x hx
    exact (h x hx).imp_right fun hclear => hclear _ (pr.shortest x (hxs x hx))

/-- The number one. -/
def one : Float4 := ⟨false, 127 * 2 ^ 23, by decide⟩

/-- The number minus two. -/
def minusTwo : Float4 := ⟨true, 128 * 2 ^ 23, by decide⟩

theorem vectorIn_vectorOut_one : (one.Finite ∧ minusTwo.Finite) ∧
    ∀ pr other, vectorIn other (vectorOut pr [one, minusTwo, one]) =
      .ok [one, minusTwo, one] := by
  have hfinite : one.Finite ∧ minusTwo.Finite := by
    unfold Float4.Finite
    decide
  refine ⟨hfinite, (vectorIn_vectorOut_iff [one, minusTwo, one] ?_).mpr ?_⟩
  · simpa using ⟨hfinite.1, hfinite.2, hfinite.1⟩
  · simp only [mem_cons, not_mem_nil, or_false]
    rintro x (rfl | rfl | rfl)
    · exact .inl (by decide)
    · exact .inl (by decide)
    · exact .inl (by decide)

/-! ## A component that does not come back -/

/-- The number `7.0385307e-26`. -/
def slip : Float4 := ⟨false, 0x15ae43fd, by decide⟩

theorem slip_finite : slip.Finite := by
  unfold Float4.Finite
  decide

/-- Its shortest decimal, `7.038531e-26`. -/
def slipDecimal : Decimal := ⟨7038531, -32⟩

theorem slip_mid : float4.grid.mid slip.code = 22841339 * 2 ^ (-108 : ℤ) := by
  have h₁ := float4_value (j := 42) (n := 3032061) (c := slip.code) (by decide) (by decide)
  have h₂ := float4_value (j := 42) (n := 3032062) (c := slip.code + 1) (by decide) (by decide)
  show (float4.value _ + float4.value _) / 2 = _
  rw [h₁, h₂]
  norm_num

theorem slip_within {q : ℚ} : float4.grid.Within slip.code q ↔
    22841337 * 2 ^ (-108 : ℤ) < q ∧ q < 22841339 * 2 ^ (-108 : ℤ) := by
  have hodd : ¬ Even slip.code := by decide
  have hlower : float4.grid.mid (slip.code - 1) = 22841337 * 2 ^ (-108 : ℤ) := by
    have h₁ := float4_value (j := 42) (n := 3032060) (c := slip.code - 1) (by decide) (by decide)
    have h₂ := float4_value (j := 42) (n := 3032061) (c := slip.code - 1 + 1) (by decide)
      (by decide)
    show (float4.value _ + float4.value _) / 2 = _
    rw [h₁, h₂]
    norm_num
  constructor
  · intro h
    refine ⟨?_, ?_⟩
    · exact hlower ▸ (h.lower (slip.code - 1) (by decide)).resolve_right fun h => hodd h.2
    · exact slip_mid ▸ h.upper.resolve_right fun h => hodd h.2
  rintro ⟨hlo, hhi⟩
  refine ⟨fun b hb => ?_, .inl (slip_mid ▸ hhi)⟩
  obtain rfl : b = slip.code - 1 := by omega
  exact .inl (hlower ▸ hlo)

theorem slip_rounds : float4.grid.nearest slipDecimal.value = slip.code := by
  refine (Grid.nearest_eq_iff (value_nonneg _)).mpr (slip_within.mpr ?_)
  norm_num [value, slipDecimal]

theorem slip_shortest {q : ℚ} (h : Shortest slip q) : q = slipDecimal.value := by
  obtain ⟨k, ⟨d, hlt, rfl⟩, hmin⟩ := h.shortest
  have hk : k ≤ 7 := hmin slipDecimal.value slip_rounds 7 ⟨slipDecimal, by decide, rfl⟩
  have hcoeff : d.coeff < 10 ^ 7 := hlt.trans_le (Nat.pow_le_pow_right (by decide) hk)
  obtain ⟨hlo, hhi⟩ :=
    slip_within.mp ((Grid.nearest_eq_iff (value_nonneg d)).mp h.rounds)
  rcases le_or_gt (-32) d.exp with hexp | hexp
  · -- a multiple of `10 ^ (-32)`, and the interval is not long enough for two
    obtain ⟨j, hj⟩ := Int.le.dest hexp
    have hval : d.value = (d.coeff * 10 ^ j : ℕ) * 10 ^ (-32 : ℤ) := by
      rw [value, ← hj, zpow_add₀ (by decide), zpow_natCast]
      push_cast
      ring
    rw [hval] at hlo hhi ⊢
    generalize d.coeff * 10 ^ j = n at hlo hhi ⊢
    have hgt : (7038530 : ℚ) < n := by
      norm_num at hlo
      linarith
    have hlt : (n : ℚ) < 7038532 := by
      norm_num at hhi
      linarith
    have heq : n = 7038531 := by
      have h₁ : 7038530 < n := by exact_mod_cast hgt
      have h₂ : n < 7038532 := by exact_mod_cast hlt
      omega
    rw [heq]
    rfl
  · -- with a smaller exponent seven digits do not reach the interval
    have hpow : (10 : ℚ) ^ d.exp ≤ 10 ^ (-33 : ℤ) :=
      zpow_le_zpow_right₀ (by norm_num) (by omega)
    have hc : (d.coeff : ℚ) ≤ 10 ^ 7 := by exact_mod_cast hcoeff.le
    have hle : d.value ≤ 10 ^ 7 * 10 ^ (-33 : ℤ) :=
      mul_le_mul hc hpow (by positivity) (by positivity)
    norm_num at hle hlo
    linarith

theorem slip_double : float8.value (float8.grid.nearest slipDecimal.value) =
    float4.grid.mid slip.code := by
  have h₀ := float8_value (j := 938) (n := 1627825622745087) (c := 4230507875723640831)
    (by decide) (by decide)
  have h₁ := float8_value (j := 938) (n := 1627825622745088) (c := 4230507875723640832)
    (by decide) (by decide)
  have h₂ := float8_value (j := 938) (n := 1627825622745089) (c := 4230507875723640833)
    (by decide) (by decide)
  have hnear : float8.grid.nearest slipDecimal.value = 4230507875723640832 := by
    refine (Grid.nearest_eq_iff (value_nonneg _)).mpr ⟨fun b hb => .inl ?_, .inl ?_⟩
    · obtain rfl : b = 4230507875723640831 := by omega
      show (float8.value 4230507875723640831 + float8.value 4230507875723640832) / 2 < _
      rw [h₀, h₁]
      norm_num [value, slipDecimal]
    · show _ < (float8.value 4230507875723640832 + float8.value 4230507875723640833) / 2
      rw [h₁, h₂]
      norm_num [value, slipDecimal]
  rw [hnear, h₁, slip_mid]
  norm_num

theorem reread_slip (pr : Printer) : pr.reread slip = ⟨false, slip.code + 1, by decide⟩ := by
  refine Float4.ext reread_neg ?_
  rw [reread_code slip_finite, slip_shortest (pr.shortest slip slip_finite), slip_double,
    Grid.nearest_mid (by decide)]
  decide

/-- There are printers, and every one of them prints the number as a text that is read as the next
number. -/
theorem vectorIn_vectorOut_slip : Nonempty Printer ∧ slip.Finite ∧ ∀ pr other,
    vectorIn other (vectorOut pr [slip]) = .ok [⟨false, slip.code + 1, by decide⟩] := by
  obtain ⟨q, hq⟩ := exists_shortest slip
  obtain ⟨pr, -⟩ := exists_printer hq
  refine ⟨⟨pr⟩, slip_finite, fun pr other => ?_⟩
  rw [vectorIn_vectorOut [slip] (by simpa using slip_finite), map_singleton, reread_slip]

end MaluDb.Vector
