import Mathlib.Algebra.Order.Field.Power
import Mathlib.Data.List.TakeWhile
import Mathlib.Data.Nat.Digits.Defs
import Mathlib.Tactic.FieldSimp
import Mathlib.Tactic.Positivity

/-!
# Decimal numerals

Decimal texts as the C library reads them, and numerals as trees that render to such texts.

`readDecimal` takes the longest decimal from the front of a text without a sign: digits, a point and
digits, an exponent. Either group of digits may be missing, and an `e` that no exponent follows is
left unread.
-/

namespace MaluDb.Lib

open List Option Char

/-- The number `coeff · 10 ^ exp`. -/
structure Decimal where
  coeff : ℕ
  exp : ℤ
  deriving DecidableEq, Repr

namespace Decimal

def value (d : Decimal) : ℚ := d.coeff * 10 ^ d.exp

theorem value_nonneg (d : Decimal) : 0 ≤ d.value := by
  unfold value
  positivity

end Decimal

/-! ## Reading -/

def digitValue (c : Char) : ℕ := c.toNat - 48

def number (digits : List Char) : ℕ := digits.foldl (fun n c => 10 * n + digitValue c) 0

def readSign : List Char → Bool × List Char
  | '-' :: rest => (true, rest)
  | '+' :: rest => (false, rest)
  | text => (false, text)

def readExponent (text : List Char) : ℤ × List Char :=
  match text with
  | [] => (0, [])
  | c :: rest =>
    if c = 'e' ∨ c = 'E' then
      let (neg, rest) := readSign rest
      let digits := rest.takeWhile isDigit
      if digits = [] then (0, text)
      else ((if neg then -(number digits : ℤ) else number digits), rest.dropWhile isDigit)
    else (0, text)

def readFraction : List Char → List Char × List Char
  | '.' :: rest => (rest.takeWhile isDigit, rest.dropWhile isDigit)
  | text => ([], text)

def readDecimal (text : List Char) : Option (Decimal × List Char) :=
  let whole := text.takeWhile isDigit
  let (fraction, rest) := readFraction (text.dropWhile isDigit)
  if whole = [] ∧ fraction = [] then none
  else
    let (exp, rest) := readExponent rest
    some (⟨number (whole ++ fraction), exp - fraction.length⟩, rest)

theorem readSign_length (text : List Char) : (readSign text).2.length ≤ text.length := by
  unfold readSign
  split <;> simp

theorem readExponent_length (text : List Char) : (readExponent text).2.length ≤ text.length := by
  unfold readExponent
  cases text with
  | nil => exact le_rfl
  | cons c rest =>
    have hsign := readSign_length rest
    have hdrop := (dropWhile_suffix isDigit (l := (readSign rest).2)).length_le
    simp only [length_cons]
    split_ifs <;> simp only [length_cons] <;> omega

theorem readDecimal_length {text rest : List Char} {d : Decimal}
    (h : readDecimal text = some (d, rest)) : rest.length < text.length := by
  have hsplit : (text.takeWhile isDigit).length + (text.dropWhile isDigit).length =
      text.length := by
    rw [← length_append, takeWhile_append_dropWhile]
  have hfraction : (readFraction (text.dropWhile isDigit)).1.length +
      (readFraction (text.dropWhile isDigit)).2.length ≤
        (text.dropWhile isDigit).length := by
    unfold readFraction
    split
    · rename_i cs heq
      rw [heq, length_cons, ← length_append, takeWhile_append_dropWhile]
      omega
    · simp
  have hexp := readExponent_length (readFraction (text.dropWhile isDigit)).2
  unfold readDecimal at h
  simp only [ite_none_left_eq_some, some.injEq, Prod.mk.injEq] at h
  obtain ⟨hne, -, rfl⟩ := h
  have hpos : 0 < (text.takeWhile isDigit).length ∨
      0 < (readFraction (text.dropWhile isDigit)).1.length := by
    rw [length_pos_iff, length_pos_iff]
    exact not_and_or.mp hne
  omega

/-! ## What is read -/

structure Stops (text : List Char) : Prop where
  digit : ∀ c ∈ text.head?, c.isDigit = false
  mark : ∀ c ∈ text.head?, c ≠ '.' ∧ c ≠ 'e' ∧ c ≠ 'E'

def isNumeral (c : Char) : Bool := c.isDigit || c ∈ ['.', 'e', 'E', '+', '-']

section

variable {p : Char → Bool} {front rest : List Char}

theorem takeWhile_append_stop (h : ∀ c ∈ front, p c = true)
    (hrest : ∀ c ∈ rest.head?, p c = false) : (front ++ rest).takeWhile p = front := by
  rw [takeWhile_append_of_pos h]
  cases rest with
  | nil => simp
  | cons c rest => simp [hrest c rfl]

theorem dropWhile_append_stop (h : ∀ c ∈ front, p c = true)
    (hrest : ∀ c ∈ rest.head?, p c = false) : (front ++ rest).dropWhile p = rest := by
  rw [dropWhile_append_of_pos h]
  cases rest with
  | nil => rfl
  | cons c rest => simp [hrest c rfl]

variable {c : Char} {text : List Char}

theorem isNumeral_of_isDigit (h : c.isDigit = true) : isNumeral c = true := by
  simp [isNumeral, h]

theorem isDigit_of_mem_takeWhile (h : c ∈ text.takeWhile isDigit) : c.isDigit = true :=
  mem_takeWhile_imp h

theorem readSign_local (text : List Char) :
    ∃ front, text = front ++ (readSign text).2 ∧ (∀ c ∈ front, c = '+' ∨ c = '-') ∧
      ∀ rest, (∀ c ∈ rest.head?, c ≠ '+' ∧ c ≠ '-') →
        readSign (front ++ rest) = ((readSign text).1, rest) := by
  unfold readSign
  split
  · exact ⟨['-'], rfl, by simp, fun rest _ => rfl⟩
  · exact ⟨['+'], rfl, by simp, fun rest _ => rfl⟩
  refine ⟨[], rfl, by simp, fun rest hrest => ?_⟩
  cases rest with
  | nil => rfl
  | cons c rest =>
    obtain ⟨hplus, hminus⟩ := hrest c rfl
    simp [hplus, hminus]

theorem readExponent_of_stops (h : Stops rest) : readExponent rest = (0, rest) := by
  cases rest with
  | nil => rfl
  | cons c rest =>
    obtain ⟨-, he, hE⟩ := h.mark c rfl
    simp [readExponent, he, hE]

theorem readExponent_of_digits (hc : c = 'e' ∨ c = 'E')
    (hdigits : (readSign text).2.takeWhile isDigit ≠ []) :
    readExponent (c :: text) =
      ((if (readSign text).1 then -(number ((readSign text).2.takeWhile isDigit) : ℤ)
        else number ((readSign text).2.takeWhile isDigit)),
        (readSign text).2.dropWhile isDigit) := by
  simp [readExponent, hc, hdigits]

theorem head_digits_ne_sign (h : text.takeWhile isDigit ≠ []) (rest : List Char) :
    ∀ c ∈ (text.takeWhile isDigit ++ rest).head?, c ≠ '+' ∧ c ≠ '-' := by
  intro c hc
  obtain ⟨d, ds, hds⟩ := exists_cons_of_ne_nil h
  rw [hds, cons_append] at hc
  obtain rfl : d = c := some.inj hc
  have hdigit : d.isDigit = true := isDigit_of_mem_takeWhile (hds ▸ mem_cons_self)
  constructor <;> rintro rfl <;> exact absurd hdigit (by decide)

theorem readExponent_local (text : List Char) :
    ∃ front, text = front ++ (readExponent text).2 ∧ (∀ c ∈ front, isNumeral c = true) ∧
      (∀ c ∈ front.head?, c = 'e' ∨ c = 'E') ∧
      ∀ rest, Stops rest → readExponent (front ++ rest) = ((readExponent text).1, rest) := by
  -- nothing is read unless there are digits
  have hnone : readExponent text = (0, text) → ∃ front, text = front ++ (readExponent text).2 ∧
      (∀ c ∈ front, isNumeral c = true) ∧ (∀ c ∈ front.head?, c = 'e' ∨ c = 'E') ∧
      ∀ rest, Stops rest → readExponent (front ++ rest) = ((readExponent text).1, rest) := by
    intro h
    rw [h]
    exact ⟨[], rfl, by simp, by simp, fun rest hrest => readExponent_of_stops hrest⟩
  cases text with
  | nil => exact hnone rfl
  | cons c text =>
    by_cases hc : c = 'e' ∨ c = 'E'
    · obtain ⟨sign, hsign, hmarks, hread⟩ := readSign_local text
      by_cases hdigits : (readSign text).2.takeWhile isDigit = []
      · exact hnone (by simp [readExponent, hc, hdigits])
      have hexp := readExponent_of_digits hc hdigits
      rw [hexp]
      refine ⟨c :: (sign ++ (readSign text).2.takeWhile isDigit), ?_, ?_, ?_, ?_⟩
      · rw [cons_append, append_assoc, takeWhile_append_dropWhile, ← hsign]
      · intro c' hc'
        rcases mem_cons.mp hc' with rfl | hc'
        · rcases hc with rfl | rfl <;> rfl
        · rcases mem_append.mp hc' with hc' | hc'
          · rcases hmarks c' hc' with rfl | rfl <;> rfl
          · exact isNumeral_of_isDigit (isDigit_of_mem_takeWhile hc')
      · intro c' hc'
        obtain rfl : c = c' := some.inj hc'
        exact hc
      · intro rest hrest
        have hagain := hread ((readSign text).2.takeWhile isDigit ++ rest)
          (head_digits_ne_sign hdigits rest)
        rw [cons_append, append_assoc]
        rw [readExponent_of_digits hc (by rwa [hagain, takeWhile_append_stop
          (fun _ => isDigit_of_mem_takeWhile) hrest.digit]), hagain]
        simp only [takeWhile_append_stop (fun _ => isDigit_of_mem_takeWhile) hrest.digit,
          dropWhile_append_stop (fun _ => isDigit_of_mem_takeWhile) hrest.digit]
    · exact hnone (by simp [readExponent, hc])

theorem readFraction_local (text : List Char) :
    ∃ front, text = front ++ (readFraction text).2 ∧ (∀ c ∈ front, isNumeral c = true) ∧
      (∀ c ∈ front.head?, c = '.') ∧
      ∀ rest, (∀ c ∈ rest.head?, c.isDigit = false ∧ c ≠ '.') →
        readFraction (front ++ rest) = ((readFraction text).1, rest) := by
  unfold readFraction
  split
  · rename_i text
    refine ⟨'.' :: text.takeWhile isDigit, ?_, ?_, by simp, fun rest hrest => ?_⟩
    · rw [cons_append, takeWhile_append_dropWhile]
    · intro c hc
      rcases mem_cons.mp hc with rfl | hc
      · rfl
      · exact isNumeral_of_isDigit (isDigit_of_mem_takeWhile hc)
    · have hdigit := fun c hc => (hrest c hc).1
      simp only [cons_append]
      rw [takeWhile_append_stop (fun c => isDigit_of_mem_takeWhile) hdigit,
        dropWhile_append_stop (fun c => isDigit_of_mem_takeWhile) hdigit]
  · refine ⟨[], rfl, by simp, by simp, fun rest hrest => ?_⟩
    cases rest with
    | nil => rfl
    | cons c rest =>
      have hdot := (hrest c rfl).2
      simp [hdot]

/-- **What is read is read in the same way before every text that cannot go on with it.** -/
theorem readDecimal_local {d : Decimal} (h : readDecimal text = some (d, rest)) :
    ∃ front, front ≠ [] ∧ text = front ++ rest ∧ (∀ c ∈ front, isNumeral c = true) ∧
      ∀ rest', Stops rest' → readDecimal (front ++ rest') = some (d, rest') := by
  obtain ⟨point, hpoint, hpointChars, hdot, hfraction⟩ :=
    readFraction_local (text.dropWhile isDigit)
  obtain ⟨mark, hmark, hmarkChars, he, hexp⟩ :=
    readExponent_local (readFraction (text.dropWhile isDigit)).2
  have hlt := readDecimal_length h
  unfold readDecimal at h
  simp only [ite_none_left_eq_some, some.injEq, Prod.mk.injEq] at h
  obtain ⟨hne, hd, rfl⟩ := h
  have htext : text = (text.takeWhile isDigit ++ point ++ mark) ++
      (readExponent (readFraction (text.dropWhile isDigit)).2).2 := by
    rw [append_assoc, append_assoc, ← hmark, ← hpoint, takeWhile_append_dropWhile]
  refine ⟨text.takeWhile isDigit ++ point ++ mark, ?_, htext, ?_, fun rest' hrest' => ?_⟩
  · rintro hnil
    rw [hnil, nil_append] at htext
    rw [← htext] at hlt
    exact absurd hlt (lt_irrefl _)
  · intro c hc
    rcases mem_append.mp hc with hc | hc
    · rcases mem_append.mp hc with hc | hc
      · exact isNumeral_of_isDigit (isDigit_of_mem_takeWhile hc)
      · exact hpointChars c hc
    · exact hmarkChars c hc
  -- neither group of digits goes on in what follows it
  have hafter : ∀ c ∈ (mark ++ rest').head?, c.isDigit = false ∧ c ≠ '.' := by
    cases mark with
    | nil => exact fun c hc => ⟨hrest'.digit c hc, (hrest'.mark c hc).1⟩
    | cons c' mark =>
      intro c hc
      obtain rfl : c' = c := some.inj hc
      rcases he c' rfl with rfl | rfl <;> decide
  have hwhole : ∀ c ∈ (point ++ (mark ++ rest')).head?, c.isDigit = false := by
    cases point with
    | nil => exact fun c hc => (hafter c hc).1
    | cons c' point =>
      intro c hc
      obtain rfl : c' = c := some.inj hc
      rw [hdot c' rfl]
      rfl
  unfold readDecimal
  rw [append_assoc, append_assoc,
    takeWhile_append_stop (fun _ => isDigit_of_mem_takeWhile) hwhole,
    dropWhile_append_stop (fun _ => isDigit_of_mem_takeWhile) hwhole, hfraction _ hafter]
  simp only [hexp rest' hrest', if_neg hne, hd]

end

/-! ## Numerals -/

structure Exponent where
  neg : Bool
  digits : List (Fin 10)
  digits_ne : digits ≠ []

structure Numeral where
  whole : List (Fin 10)
  fraction : List (Fin 10)
  exponent : Option Exponent
  whole_ne : whole ≠ []

def digitChar (d : Fin 10) : Char := ofNat (48 + d)

def renderDigits (digits : List (Fin 10)) : List Char := digits.map digitChar

def Exponent.render (e : Exponent) : List Char :=
  'e' :: (if e.neg then '-' else '+') :: renderDigits e.digits

def Exponent.value (e : Exponent) : ℤ :=
  if e.neg then -(number (renderDigits e.digits) : ℤ) else number (renderDigits e.digits)

namespace Numeral

variable (n : Numeral)

/-- The text of a numeral. -/
def render : List Char :=
  renderDigits n.whole ++ (if n.fraction = [] then [] else '.' :: renderDigits n.fraction) ++
    (n.exponent.map Exponent.render).getD []

def decimal : Decimal where
  coeff := number (renderDigits (n.whole ++ n.fraction))
  exp := (n.exponent.map Exponent.value).getD 0 - n.fraction.length

end Numeral

theorem isDigit_digitChar (d : Fin 10) : (digitChar d).isDigit = true := by
  revert d
  decide

theorem digitValue_digitChar (d : Fin 10) : digitValue (digitChar d) = d := by
  revert d
  decide

theorem mem_renderDigits {digits : List (Fin 10)} {c : Char} (h : c ∈ renderDigits digits) :
    c.isDigit = true := by
  obtain ⟨d, -, rfl⟩ := mem_map.mp h
  exact isDigit_digitChar d

theorem renderDigits_eq_nil {digits : List (Fin 10)} : renderDigits digits = [] ↔ digits = [] :=
  map_eq_nil_iff

variable {rest : List Char}

section

variable (digits : List (Fin 10))

theorem takeWhile_renderDigits (h : ∀ c ∈ rest.head?, c.isDigit = false) :
    (renderDigits digits ++ rest).takeWhile isDigit = renderDigits digits :=
  takeWhile_append_stop (fun _ => mem_renderDigits) h

theorem dropWhile_renderDigits (h : ∀ c ∈ rest.head?, c.isDigit = false) :
    (renderDigits digits ++ rest).dropWhile isDigit = rest :=
  dropWhile_append_stop (fun _ => mem_renderDigits) h

theorem readExponent_render (e : Option Exponent) (h : Stops rest) :
    readExponent ((e.map Exponent.render).getD [] ++ rest) =
      ((e.map Exponent.value).getD 0, rest) := by
  cases e with
  | none => exact readExponent_of_stops h
  | some e =>
    have hne := mt renderDigits_eq_nil.mp e.digits_ne
    have htake := takeWhile_renderDigits e.digits h.digit
    have hdrop := dropWhile_renderDigits e.digits h.digit
    cases hneg : e.neg <;>
      simp [readExponent, Exponent.render, Exponent.value, readSign, hneg, htake, hdrop, hne]

theorem readFraction_render (h : ∀ c ∈ rest.head?, c.isDigit = false ∧ c ≠ '.') :
    readFraction ((if digits = [] then [] else '.' :: renderDigits digits) ++ rest) =
      (renderDigits digits, rest) := by
  by_cases hd : digits = []
  · subst hd
    cases rest with
    | nil => rfl
    | cons c rest =>
      have hdot := (h c rfl).2
      simp [readFraction, hdot, renderDigits]
  · rw [if_neg hd, cons_append]
    simp only [readFraction, takeWhile_renderDigits digits fun c hc => (h c hc).1,
      dropWhile_renderDigits digits fun c hc => (h c hc).1]

/-- **A numeral is read back.** -/
theorem readDecimal_render (n : Numeral) (h : Stops rest) :
    readDecimal (n.render ++ rest) = some (n.decimal, rest) := by
  have hne := mt renderDigits_eq_nil.mp n.whole_ne
  have hexp := readExponent_render n.exponent h
  unfold readDecimal Numeral.render Numeral.decimal
  rw [append_assoc, append_assoc]
  -- neither group of digits goes on in what follows it
  have hend : ∀ c ∈ ((n.exponent.map Exponent.render).getD [] ++ rest).head?,
      c.isDigit = false ∧ c ≠ '.' := by
    cases n.exponent with
    | none => exact fun c hc => ⟨h.digit c hc, (h.mark c hc).1⟩
    | some e => simp [Exponent.render]
  generalize (n.exponent.map Exponent.render).getD [] ++ rest = tail at hexp hend ⊢
  have hfraction : ∀ c ∈ ((if n.fraction = [] then [] else '.' :: renderDigits n.fraction) ++
      tail).head?, c.isDigit = false := by
    split
    · exact fun c hc => (hend c hc).1
    · simp
  simp only [takeWhile_renderDigits n.whole hfraction, dropWhile_renderDigits n.whole hfraction,
    readFraction_render n.fraction hend, hexp, hne, false_and, if_false]
  simp [renderDigits]

/-! ## Significant digits -/

/-- The number can be written with `k` significant digits. -/
def HasDigits (k : ℕ) (q : ℚ) : Prop := ∃ d : Decimal, d.coeff < 10 ^ k ∧ d.value = q

def digitsOf (n : ℕ) : List (Fin 10) := 0 :: ((Nat.digits 10 n).map (Fin.ofNat 10)).reverse

theorem number_renderDigits :
    number (renderDigits digits) = digits.foldl (fun (n : ℕ) (d : Fin 10) => 10 * n + d) 0 := by
  simp only [number, renderDigits, foldl_map, digitValue_digitChar]

end

theorem number_digitsOf (n : ℕ) : number (renderDigits (digitsOf n)) = n := by
  have hval : (Nat.digits 10 n).map (fun d => (Fin.ofNat 10 d : ℕ)) = Nat.digits 10 n := by
    refine (map_congr_left fun d hd => ?_).trans (map_id _)
    exact Nat.mod_eq_of_lt (Nat.digits_lt_base (by decide) hd)
  calc number (renderDigits (digitsOf n))
      = ((Nat.digits 10 n).map fun d => (Fin.ofNat 10 d : ℕ)).foldr (fun d n => d + 10 * n) 0 := by
        rw [number_renderDigits, digitsOf, foldl_cons, foldl_reverse, foldr_map, foldr_map]
        simp only [Fin.val_zero, Nat.add_comm]
    _ = n := by
        rw [hval]
        exact (Nat.ofDigits_eq_foldr 10 _).symm.trans (Nat.ofDigits_digits 10 n)

theorem exists_numeral (d : Decimal) : ∃ n : Numeral, n.decimal = d := by
  refine ⟨⟨digitsOf d.coeff, [], some ⟨d.exp < 0, digitsOf d.exp.natAbs, cons_ne_nil _ _⟩,
    cons_ne_nil _ _⟩, ?_⟩
  simp only [Numeral.decimal, Exponent.value, number_digitsOf, append_nil, length_nil,
    map_some, getD_some, decide_eq_true_eq, Nat.cast_zero, sub_zero]
  split <;> (congr 1; omega)

theorem exists_decimal (n : ℕ) (e : ℤ) : ∃ d : Decimal, d.value = n * 2 ^ e := by
  obtain ⟨k, rfl | rfl⟩ := e.eq_nat_or_neg
  · refine ⟨⟨n * 2 ^ k, 0⟩, ?_⟩
    simp [Decimal.value]
  refine ⟨⟨n * 5 ^ k, -k⟩, ?_⟩
  have hten : (10 : ℚ) ^ k = 5 ^ k * 2 ^ k := by
    rw [← mul_pow]
    norm_num
  simp only [Decimal.value, zpow_neg, zpow_natCast, Nat.cast_mul, Nat.cast_pow, Nat.cast_ofNat]
  rw [hten]
  field_simp

end MaluDb.Lib
