import Mathlib.Data.List.Dedup
import Mathlib.Data.List.Sort
import Mathlib.Tactic.Ring

/-!
# Cron fields

`_cron_expand_field`, and the first half of `cron_next_after`, which makes five fields of an
expression.

* Characters outside ASCII are not lowered and are no space.
* A token is `a`, `a-b` or `*`, with a step after `/`. What follows a second `/` or `-` is ignored;
  anything else that goes wrong gives NULL (`none`).
* `parseInteger` is the cast to `integer`, with spaces around, a sign, a radix mark and single
  underscores between digits.
-/

namespace MaluDb.Cron

open List Option

/-! ## Integers -/

/-- The value of a digit. -/
def digitValue (base : Nat) (c : Char) : Option Nat :=
  let n := c.toNat
  let value : Option Nat :=
    if 48 ≤ n ∧ n ≤ 57 then some (n - 48)
    else if 97 ≤ n ∧ n ≤ 102 then some (n - 87)
    else if 65 ≤ n ∧ n ≤ 70 then some (n - 55)
    else none
  value.filter (· < base)

/-- Digits with single underscores between them; `underscore` is whether one may come next. -/
def readDigits (base : Nat) : Bool → Nat → List Char → Option Nat
  | _, acc, [] => some acc
  | true, acc, '_' :: c :: cs =>
    match digitValue base c with
    | some v => readDigits base true (acc * base + v) cs
    | none => none
  | _, acc, c :: cs =>
    match digitValue base c with
    | some v => readDigits base true (acc * base + v) cs
    | none => none

section

variable (text : List Char) (lo hi : Int)

def readNumber : Option Nat :=
  let (base, digits) : Nat × List Char :=
    match text with
    | '0' :: 'x' :: cs | '0' :: 'X' :: cs => (16, cs)
    | '0' :: 'o' :: cs | '0' :: 'O' :: cs => (8, cs)
    | '0' :: 'b' :: cs | '0' :: 'B' :: cs => (2, cs)
    | cs => (10, cs)
  if digits = [] then none else readDigits base (base != 10) 0 digits

/-- The least `integer`. -/
def integerMin : Int := -2147483648

/-- The greatest `integer`. -/
def integerMax : Int := 2147483647

/-- The characters that the class `\s` and `isspace` match. -/
def isSpace (c : Char) : Bool := c == ' ' || (9 ≤ c.toNat && c.toNat ≤ 13)

def strip : List Char :=
  ((text.dropWhile isSpace).reverse.dropWhile isSpace).reverse

/-- `text::integer`; `none` if it raises. -/
def parseInteger : Option Int :=
  let number : Option Int :=
    match strip text with
    | '-' :: cs => (readNumber cs).map fun n => -(n : Int)
    | '+' :: cs => (readNumber cs).map fun n => (n : Int)
    | cs => (readNumber cs).map fun n => (n : Int)
  number.filter fun n => decide (integerMin ≤ n ∧ n ≤ integerMax)

/-! ## Fields -/

/-- The WHILE loop: `i`, `i + step`, … up to `hi`. The sum may leave the range of `integer`. -/
def expandRange (step hi : Int) : Nat → Int → Option (List Int)
  | 0, _ => some []
  | fuel + 1, i =>
    if i ≤ hi then
      if integerMax < i + step then none
      else (expandRange step hi fuel (i + step)).map (i :: ·)
    else some []

def splitStep (token : List Char) : Option (List Char × Int) :=
  if '/' ∈ token then
    match token.splitOn '/' with
    | range :: step :: _ => (parseInteger step).map fun s => (range, s)
    | _ => none
  else some (token, 1)

def tokenRange (token : List Char) : Option (Int × Int) :=
  if token = ['*'] then some (lo, hi)
  else if '-' ∈ token then
    match token.splitOn '-' with
    | a :: b :: _ => (parseInteger a).bind fun a => (parseInteger b).map fun b => (a, b)
    | _ => none
  else (parseInteger token).map fun a => (a, a)

def expandToken (token : List Char) : Option (List Int) :=
  (splitStep token).bind fun (range, step) =>
    if step ≤ 0 then none
    else
      (tokenRange lo hi range).bind fun (a, b) =>
        if a < lo ∨ hi < b ∨ b < a then none
        else expandRange step b (b - a + 1).toNat a

def expandTokens (lo hi : Int) : List (List Char) → Option (List Int)
  | [] => some []
  | token :: rest =>
    (expandToken lo hi token).bind fun values => (expandTokens lo hi rest).map (values ++ ·)

/-- `string_to_array(text, ',')`; of the empty text it is the empty array. -/
def tokens : List (List Char) := if text = [] then [] else text.splitOn ','

/-- `_cron_expand_field`. `array_agg` over no rows is NULL. -/
def cronExpandField : Option (List Int) :=
  (expandTokens lo hi (tokens text)).bind fun values =>
    if values = [] then none else some (values.dedup.insertionSort (· ≤ ·))

end

/-! ## What a parsed field is -/

variable {hi lo : Int} {values : List Int}

theorem mem_nil_iff_past {step i : Int} (hstep : 0 < step) (hi' : hi < i) (v : Int) :
    v ∈ ([] : List Int) ↔ v ≤ hi ∧ ∃ k : Nat, v = i + k * step := by
  simp only [not_mem_nil, false_iff, not_and, not_exists]
  intro hv k hk
  have := Int.mul_nonneg (Int.natCast_nonneg k) hstep.le
  omega

/-- **The loop runs over the whole range**: enough fuel is the length of the range. -/
theorem mem_expandRange {step hi : Int} (hstep : 0 < step) :
    ∀ {fuel : Nat} {i : Int} {values : List Int}, hi - i < fuel →
      expandRange step hi fuel i = some values →
      ∀ v, v ∈ values ↔ v ≤ hi ∧ ∃ k : Nat, v = i + k * step
  | 0, i, values, hfuel, h, v => by
    cases h
    exact mem_nil_iff_past hstep (by omega) v
  | fuel + 1, i, values, hfuel, h, v => by
    unfold expandRange at h
    split at h
    · rename_i hi'
      split at h
      · cases h
      obtain ⟨rest, hrest, rfl⟩ := map_eq_some_iff.mp h
      rw [mem_cons, mem_expandRange hstep (by omega) hrest v]
      constructor
      · rintro (rfl | ⟨hv, k, rfl⟩)
        · exact ⟨hi', 0, by simp⟩
        · exact ⟨hv, k + 1, by push_cast; ring⟩
      rintro ⟨hv, k, rfl⟩
      cases k with
      | zero => simp
      | succ k => exact .inr ⟨hv, k, by push_cast; ring⟩
    · rename_i hi'
      cases h
      exact mem_nil_iff_past hstep (by omega) v

theorem expandToken_spec {token : List Char} (h : expandToken lo hi token = some values) :
    ∃ a b step : Int, lo ≤ a ∧ a ≤ b ∧ b ≤ hi ∧ 0 < step ∧
      ∀ v, v ∈ values ↔ v ≤ b ∧ ∃ k : Nat, v = a + k * step := by
  unfold expandToken at h
  obtain ⟨⟨range, step⟩, -, h⟩ := bind_eq_some_iff.mp h
  dsimp only at h
  split at h
  · cases h
  rename_i hstep
  obtain ⟨⟨a, b⟩, -, h⟩ := bind_eq_some_iff.mp h
  dsimp only at h
  split at h
  · cases h
  · have hstep : 0 < step := by omega
    exact ⟨a, b, step, by omega, by omega, by omega, hstep, mem_expandRange hstep (by omega) h⟩

theorem expandToken_bounds {token : List Char} (h : expandToken lo hi token = some values) :
    ∀ v ∈ values, lo ≤ v ∧ v ≤ hi := by
  obtain ⟨a, b, step, ha, -, hb, hstep, hmem⟩ := expandToken_spec h
  intro v hv
  obtain ⟨hvb, k, rfl⟩ := (hmem v).mp hv
  have := Int.mul_nonneg (Int.natCast_nonneg k) hstep.le
  omega

theorem expandTokens_bounds {lo hi : Int} :
    ∀ {tokens : List (List Char)} {values : List Int}, expandTokens lo hi tokens = some values →
      ∀ v ∈ values, lo ≤ v ∧ v ≤ hi
  | [], values, h, v, hv => by
    cases h
    cases hv
  | token :: rest, values, h, v, hv => by
    obtain ⟨first, hfirst, h⟩ := bind_eq_some_iff.mp h
    obtain ⟨others, hothers, rfl⟩ := map_eq_some_iff.mp h
    rcases mem_append.mp hv with hv | hv
    · exact expandToken_bounds hfirst v hv
    · exact expandTokens_bounds hothers v hv

structure FieldSet (lo hi : Int) where
  values : List Int
  nonempty : values ≠ []
  bounds : ∀ v ∈ values, lo ≤ v ∧ v ≤ hi
  deriving DecidableEq

/-- **A field that parses has a value, and its values are within the bounds.** -/
theorem cronExpandField_spec {text : List Char} (h : cronExpandField text lo hi = some values) :
    values ≠ [] ∧ ∀ v ∈ values, lo ≤ v ∧ v ≤ hi := by
  unfold cronExpandField at h
  obtain ⟨all, hall, h⟩ := bind_eq_some_iff.mp h
  split at h
  · cases h
  rename_i hne
  cases h
  have hmem (v : Int) : v ∈ all.dedup.insertionSort (· ≤ ·) ↔ v ∈ all := by
    rw [mem_insertionSort, mem_dedup]
  constructor
  · obtain ⟨v, hv⟩ := exists_mem_of_ne_nil all hne
    exact ne_nil_of_mem ((hmem v).mpr hv)
  · exact fun v hv => expandTokens_bounds hall v ((hmem v).mp hv)

def fieldSet? (text : List Char) (lo hi : Int) : Option (FieldSet lo hi) :=
  match h : cronExpandField text lo hi with
  | none => none
  | some values =>
    some ⟨values, (cronExpandField_spec h).1, (cronExpandField_spec h).2⟩

example : cronExpandField "20,10,5-7".toList 0 59 = some [5, 6, 7, 10, 20] := by decide
example : cronExpandField "7".toList 0 6 = none := by decide

/-! ## Expressions -/

/-- The errors of `cron_next_after`. -/
inductive CronError where
  | notFiveFields (expr : List Char)
  | cannotParse (expr : List Char)
  | noMatch (expr : List Char)
  deriving DecidableEq, Repr

/-- The text of an error. -/
def CronError.message : CronError → String
  | .notFiveFields expr =>
    "cron_next_after: expression " ++ String.ofList expr ++ " is not 5 fields"
  | .cannotParse expr => "cron_next_after: cannot parse " ++ String.ofList expr
  | .noMatch expr => "cron_next_after: no match within 4 years for " ++ String.ofList expr

structure CronFields where
  minutes : FieldSet 0 59
  hours : FieldSet 0 23
  doms : FieldSet 1 31
  months : FieldSet 1 12
  dows : FieldSet 0 6
  deriving DecidableEq

/-- `trim`, which removes spaces and no other character. -/
def trim (text : List Char) : List Char :=
  ((text.dropWhile (· == ' ')).reverse.dropWhile (· == ' ')).reverse

/-- `regexp_split_to_array(text, '\s+')`: the word read so far, and whether the last character was a
space. -/
def splitSpaces : List Char → Bool → List Char → List (List Char)
  | word, _, [] => [word]
  | word, after, c :: cs =>
    if isSpace c then
      if after then splitSpaces word true cs else word :: splitSpaces [] true cs
    else splitSpaces (word ++ [c]) false cs

def expandAlias (expr : List Char) : List Char :=
  if expr = "@hourly".toList then "0 * * * *".toList
  else if expr = "@daily".toList then "0 0 * * *".toList
  else if expr = "@weekly".toList then "0 0 * * 0".toList
  else if expr = "@monthly".toList then "0 0 1 * *".toList
  else if expr = "@yearly".toList ∨ expr = "@annually".toList then "0 0 1 1 *".toList
  else expr

/-- The fields of an expression; the first half of `cron_next_after`. -/
def parseExpression (expr : List Char) : Except CronError CronFields :=
  match splitSpaces [] false (expandAlias (trim (expr.map Char.toLower))) with
  | [minutes, hours, doms, months, dows] =>
    match fieldSet? minutes 0 59, fieldSet? hours 0 23, fieldSet? doms 1 31, fieldSet? months 1 12,
      fieldSet? dows 0 6 with
    | some minutes, some hours, some doms, some months, some dows =>
      .ok ⟨minutes, hours, doms, months, dows⟩
    | _, _, _, _, _ => .error (.cannotParse expr)
  | _ => .error (.notFiveFields expr)

end MaluDb.Cron
