import MaluDb.Lib.Decimal
import MaluDb.Lib.FloatFormat

/-!
# The text form of a vector

`maludb_vector_in` and `maludb_vector_out` of `src/maludb_type.c`, on the list of the float4
components of a vector and on texts without a NUL.

* `Float4` and `Float8` are a sign and the bits after it; `float4` and `float8` say which numbers
  the bits encode.
* `strtod` is correctly rounded on decimals, and infinity above the largest number. What it makes of
  the other forms it knows (`inf`, `nan`, hexadecimal) is a parameter `other`: the value, and how
  many characters it takes after the first one. The code does not look at `errno`.
* `Printer` is any `float_to_shortest_decimal_bufn`: digits, with a point or an exponent, whose
  value is a shortest decimal that rounds to the number.
-/

namespace MaluDb.Vector

open Lib List Option

/-! ## Floats -/

def float4 : Format := ⟨23, -149⟩

def float8 : Format := ⟨52, -1074⟩

/-- The bits of infinity. -/
def float4Infinity : ℕ := 255 * 2 ^ 23

/-- The bits of infinity. -/
def float8Infinity : ℕ := 2047 * 2 ^ 52

/-- The sign of a `float`, and the bits after it. -/
@[ext]
structure Float4 where
  neg : Bool
  code : ℕ
  lt : code < 2 ^ 31
  deriving DecidableEq

/-- The sign of a `double`, and the bits after it. -/
structure Float8 where
  neg : Bool
  code : ℕ
  lt : code < 2 ^ 63
  deriving DecidableEq

/-- Neither infinite nor NaN. -/
def Float4.Finite (x : Float4) : Prop := x.code < float4Infinity

def Float8.ofDecimal (neg : Bool) (d : Decimal) : Float8 where
  neg := neg
  code := min (float8.grid.nearest d.value) float8Infinity
  lt := (Nat.min_le_right _ _).trans_lt (by decide)

/-- The cast to `float`. A NaN keeps the upper part of its payload and becomes quiet. -/
def Float8.toFloat4 (v : Float8) : Float4 :=
  if v.code ≤ float8Infinity then
    ⟨v.neg, min (float4.grid.nearest (float8.value v.code)) float4Infinity,
      (Nat.min_le_right _ _).trans_lt (by decide)⟩
  else
    ⟨v.neg, 0x7fc00000 ||| v.code % 2 ^ 52 / 2 ^ 29, by
      refine Nat.or_lt_two_pow (by decide) ?_
      omega⟩

/-! ## Reading -/

/-- The errors of `maludb_vector_in`; `message` has their texts. -/
inductive TextError where
  | start (text : List Char)
  | invalidFloat (text : List Char)
  | separator (text : List Char)
  | stop
  deriving DecidableEq, Repr

/-- The text of an error. -/
def TextError.message : TextError → String
  | .start _ => "malu_vector input must start with '['"
  | .invalidFloat text => s!"malu_vector: invalid float starting at: \"{String.ofList text}\""
  | .separator text => s!"malu_vector: expected ',' or ']' at: \"{String.ofList text}\""
  | .stop => "malu_vector input must end with ']'"

/-- The detail of an error. -/
def TextError.detail : TextError → Option String
  | .start text => some s!"Got: \"{String.ofList text}\""
  | _ => none

/-- `isspace` of the C locale. -/
def isSpace (c : Char) : Bool := c = ' ' ∨ 9 ≤ c.toNat ∧ c.toNat ≤ 13

def skipSpace (text : List Char) : List Char := text.dropWhile isSpace

def otherForm : List Char → Bool
  | '0' :: 'x' :: _ | '0' :: 'X' :: _ => true
  | c :: _ => c ∈ ['i', 'I', 'n', 'N']
  | [] => false

section

variable (other : List Char → Option (Float8 × ℕ))

/-- `strtod`: the number at the front of a text and what follows it. -/
def strtod (text : List Char) : Option (Float8 × List Char) :=
  let (neg, digits) := readSign (skipSpace text)
  if otherForm digits then (other text).map fun (v, n) => (v, text.drop (n + 1))
  else (readDecimal digits).map fun (d, rest) => (.ofDecimal neg d, rest)

def readSeparator : List Char → Except TextError (List Char)
  | ',' :: rest => .ok (skipSpace rest)
  | [] => .ok []
  | ']' :: rest => .ok (']' :: rest)
  | text => .error (.separator text)

theorem skipSpace_length (text : List Char) : (skipSpace text).length ≤ text.length :=
  (dropWhile_suffix isSpace).length_le

variable {other} in
theorem strtod_length {text rest : List Char} {v : Float8}
    (h : strtod other text = some (v, rest)) : rest.length < text.length := by
  have hsign := (readSign_length (skipSpace text)).trans (skipSpace_length text)
  simp only [strtod] at h
  split at h
  · rename_i hform
    have hpos : 0 < (readSign (skipSpace text)).2.length := by
      rw [length_pos_iff]
      intro hnil
      simp [hnil, otherForm] at hform
    simp only [map_eq_some_iff, Prod.mk.injEq] at h
    obtain ⟨⟨v, n⟩, -, -, rfl⟩ := h
    rw [length_drop]
    omega
  · simp only [map_eq_some_iff, Prod.mk.injEq] at h
    obtain ⟨⟨d, rest'⟩, hread, -, rfl⟩ := h
    exact (readDecimal_length hread).trans_le hsign

theorem readSeparator_length {text rest : List Char} (h : readSeparator text = .ok rest) :
    rest.length ≤ text.length := by
  unfold readSeparator at h
  split at h
  · cases h
    exact (skipSpace_length _).trans (Nat.le_succ _)
  · cases h
    exact le_rfl
  · cases h
    exact le_rfl
  · cases h

/-- The loop of `maludb_vector_in`: the elements, and the text where it ends. -/
def readElements (text : List Char) : Except TextError (List Float4 × List Char) :=
  if text = [] ∨ text.head? = some ']' then .ok ([], text)
  else
    match hv : strtod other text with
    | none => .error (.invalidFloat text)
    | some (v, rest) =>
      match hsep : readSeparator (skipSpace rest) with
      | .error e => .error e
      | .ok next =>
        have : next.length < text.length :=
          ((readSeparator_length hsep).trans (skipSpace_length rest)).trans_lt (strtod_length hv)
        (readElements next).map fun (xs, final) => (v.toFloat4 :: xs, final)
  termination_by text.length

/-- `maludb_vector_in`. What follows the closing bracket is ignored. -/
def vectorIn (text : List Char) : Except TextError (List Float4) :=
  match skipSpace text with
  | '[' :: rest =>
    (readElements other (skipSpace rest)).bind fun (xs, final) =>
      if final.head? = some ']' then .ok xs else .error .stop
  | _ => .error (.start text)

end

/-! ## Printing -/

/-- A shortest decimal that rounds to `x`, without the sign. -/
structure Shortest (x : Float4) (q : ℚ) : Prop where
  rounds : float4.grid.nearest q = x.code
  shortest : ∃ k, HasDigits k q ∧
    ∀ q', float4.grid.nearest q' = x.code → ∀ j, HasDigits j q' → k ≤ j

/-- A `float_to_shortest_decimal_bufn`: the numeral of each finite number. -/
structure Printer where
  numeral : Float4 → Numeral
  shortest : ∀ x : Float4, x.Finite → Shortest x (numeral x).decimal.value

namespace Printer

variable (pr : Printer)

/-- The text of a number. -/
def print (x : Float4) : List Char :=
  if x.code < float4Infinity then (if x.neg then ['-'] else []) ++ (pr.numeral x).render
  else if x.code = float4Infinity then (if x.neg then ['-'] else []) ++ "Infinity".toList
  else "NaN".toList

/-- The loop of `maludb_vector_out` and the closing bracket; `first` is `i = 0`. -/
def printElements : Bool → List Float4 → List Char
  | _, [] => [']']
  | first, x :: xs => (if first then [] else [',', ' ']) ++ pr.print x ++ printElements false xs

end Printer

/-- `maludb_vector_out`. -/
def vectorOut (pr : Printer) (xs : List Float4) : List Char := '[' :: pr.printElements true xs

/-! ## Reading what was printed -/

def Printer.reread (pr : Printer) (x : Float4) : Float4 :=
  (Float8.ofDecimal x.neg (pr.numeral x).decimal).toFloat4

section

variable {pr : Printer} {other : List Char → Option (Float8 × ℕ)}

theorem printElements_head (xs : List Float4) {c : Char}
    (h : c ∈ (pr.printElements false xs).head?) : c = ',' ∨ c = ']' := by
  cases xs with
  | nil => exact Or.inr (some.inj h).symm
  | cons x xs => exact Or.inl (some.inj h).symm

theorem stops_printElements (xs : List Float4) : Stops (pr.printElements false xs) := by
  constructor <;> intro c hc <;> rcases printElements_head xs hc with rfl | rfl <;> decide

theorem digitChar_spec (d : Fin 10) : isSpace (digitChar d) = false ∧ digitChar d ≠ '-' ∧
    digitChar d ≠ '+' ∧ digitChar d ≠ ']' ∧ digitChar d ∉ ['i', 'I', 'n', 'N'] := by
  revert d
  decide

theorem render_eq_cons (n : Numeral) : ∃ d text, n.render = digitChar d :: text := by
  obtain ⟨d, ds, hw⟩ := exists_cons_of_ne_nil n.whole_ne
  exact ⟨d, _, by rw [Numeral.render, hw]; rfl⟩

theorem ne_x_of_mem_render {n : Numeral} {c : Char} (h : c ∈ n.render) : c ≠ 'x' ∧ c ≠ 'X' := by
  have hdigit : ∀ {digits}, c ∈ renderDigits digits → c ≠ 'x' ∧ c ≠ 'X' := fun hc => by
    have := mem_renderDigits hc
    constructor <;> rintro rfl <;> exact absurd this (by decide)
  rw [Numeral.render, mem_append, mem_append] at h
  rcases h with (h | h) | h
  · exact hdigit h
  · split at h
    · cases h
    · rcases mem_cons.mp h with rfl | h
      · decide
      · exact hdigit h
  cases he : n.exponent with
  | none => simp [he] at h
  | some e =>
    rw [he, map_some, getD_some, Exponent.render] at h
    rcases mem_cons.mp h with rfl | h
    · decide
    · rcases mem_cons.mp h with rfl | h
      · split <;> decide
      · exact hdigit h

theorem otherForm_cons {c : Char} {text : List Char} (hname : c ∉ ['i', 'I', 'n', 'N'])
    (hx : ∀ c' ∈ text.head?, c' ≠ 'x' ∧ c' ≠ 'X') : otherForm (c :: text) = false := by
  unfold otherForm
  split
  · rename_i heq
    cases heq
    exact absurd rfl (hx 'x' rfl).1
  · rename_i heq
    cases heq
    exact absurd rfl (hx 'X' rfl).2
  · rename_i heq
    cases heq
    simpa using hname
  · rfl

theorem print_of_finite {x : Float4} (hx : x.Finite) :
    pr.print x = (if x.neg then ['-'] else []) ++ (pr.numeral x).render := if_pos hx

theorem otherForm_render (n : Numeral) (xs : List Float4) :
    otherForm (n.render ++ pr.printElements false xs) = false := by
  obtain ⟨d, text, htext⟩ := render_eq_cons n
  rw [htext, cons_append]
  refine otherForm_cons (digitChar_spec d).2.2.2.2 fun c hc => ?_
  cases text with
  | nil => rcases printElements_head xs hc with rfl | rfl <;> decide
  | cons c' text =>
    obtain rfl : c' = c := some.inj hc
    exact ne_x_of_mem_render (n := n) (by simp [htext])

theorem print_eq_cons (pr : Printer) {x : Float4} (hx : x.Finite) :
    ∃ c text, pr.print x = c :: text ∧ isSpace c = false ∧ c ≠ ']' := by
  obtain ⟨d, text, htext⟩ := render_eq_cons (pr.numeral x)
  obtain ⟨hspace, -, -, hend, -⟩ := digitChar_spec d
  rw [print_of_finite hx, htext]
  cases x.neg with
  | false => exact ⟨_, _, rfl, hspace, hend⟩
  | true => exact ⟨_, _, rfl, by decide, by decide⟩

theorem skipSpace_cons {c : Char} {text : List Char} (h : isSpace c = false) :
    skipSpace (c :: text) = c :: text := by
  simp [skipSpace, h]

theorem skipSpace_print {x : Float4} (hx : x.Finite) (rest : List Char) :
    skipSpace (pr.print x ++ rest) = pr.print x ++ rest := by
  obtain ⟨c, text, htext, hspace, -⟩ := print_eq_cons pr hx
  rw [htext, cons_append, skipSpace_cons hspace]

theorem readSign_print {x : Float4} (hx : x.Finite) (rest : List Char) :
    readSign (pr.print x ++ rest) = (x.neg, (pr.numeral x).render ++ rest) := by
  obtain ⟨d, text, htext⟩ := render_eq_cons (pr.numeral x)
  obtain ⟨-, hminus, hplus, -, -⟩ := digitChar_spec d
  rw [print_of_finite hx, htext]
  cases x.neg with
  | false => simp [readSign, hminus, hplus]
  | true => simp [readSign]

theorem strtod_print {x : Float4} (hx : x.Finite) (xs : List Float4) :
    strtod other (pr.print x ++ pr.printElements false xs) =
      some (.ofDecimal x.neg (pr.numeral x).decimal, pr.printElements false xs) := by
  simp only [strtod, skipSpace_print hx, readSign_print hx, otherForm_render, Bool.false_eq_true,
    if_false, readDecimal_render _ (stops_printElements xs), map_some]

theorem readElements_stop {rest : List Char} :
    readElements other (']' :: rest) = .ok ([], ']' :: rest) := by
  rw [readElements]
  simp

theorem readElements_element {text rest next : List Char} {v : Float8}
    (hhead : text.head? ≠ some ']') (hv : strtod other text = some (v, rest))
    (hsep : readSeparator (skipSpace rest) = .ok next) :
    readElements other text =
      (readElements other next).map fun (xs, final) => (v.toFloat4 :: xs, final) := by
  have hne : text ≠ [] := by
    rintro rfl
    exact absurd (strtod_length hv) (Nat.not_lt_zero _)
  rw [readElements, if_neg (not_or.mpr ⟨hne, hhead⟩)]
  split
  · rename_i h
    simp [hv] at h
  rename_i v' rest' h
  obtain ⟨rfl, rfl⟩ : v = v' ∧ rest = rest' := by simpa [hv] using h
  split
  · rename_i e he
    simp [hsep] at he
  · rename_i next' hn
    obtain rfl : next = next' := by simpa [hsep] using hn
    rfl

theorem readElements_printElements (xs : List Float4) (hxs : ∀ x ∈ xs, x.Finite) :
    readElements other (pr.printElements true xs) = .ok (xs.map pr.reread, [']']) := by
  induction xs with
  | nil => exact readElements_stop
  | cons x xs ih =>
    have hx := hxs x mem_cons_self
    have hxs' : ∀ y ∈ xs, y.Finite := fun y hy => hxs y (mem_cons_of_mem x hy)
    obtain ⟨c, text, htext, -, hend⟩ := print_eq_cons pr hx
    have hsep : readSeparator (skipSpace (pr.printElements false xs)) =
        .ok (pr.printElements true xs) := by
      cases xs with
      | nil => rfl
      | cons y ys =>
        show Except.ok (skipSpace (pr.print y ++ pr.printElements false ys)) = _
        rw [skipSpace_print (hxs' y mem_cons_self)]
        rfl
    have hhead : (pr.print x ++ pr.printElements false xs).head? ≠ some ']' := by
      rw [htext]
      exact fun h => hend (some.inj h)
    show readElements other (pr.print x ++ pr.printElements false xs) = _
    rw [readElements_element hhead (strtod_print hx xs) hsep, ih hxs']
    rfl

/-- **Printing and reading** is accepted, and rounds each component twice. -/
theorem vectorIn_vectorOut (xs : List Float4) (hxs : ∀ x ∈ xs, x.Finite) :
    vectorIn other (vectorOut pr xs) = .ok (xs.map pr.reread) := by
  have hskip : skipSpace (pr.printElements true xs) = pr.printElements true xs := by
    cases xs with
    | nil => rfl
    | cons x xs => exact skipSpace_print (hxs x mem_cons_self) _
  rw [vectorOut, vectorIn, skipSpace_cons (by decide)]
  simp only [hskip, readElements_printElements xs hxs]
  rfl

end

end MaluDb.Vector
