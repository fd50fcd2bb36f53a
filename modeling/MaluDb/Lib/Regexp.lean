import MaluDb.Lib.Scan

/-!
# Regular expressions that stand for a word

PostgreSQL's `regexp_replace` with the flag `g`, for regular expressions of characters that stand
for themselves, escaped or not, and `\M` ("only at the end of a word") at the end of it. Which
characters are of words depends on the locale (`isWord`).
-/

namespace MaluDb.Lib

open List

/-- The characters with a meaning of their own: `\\.^$*+?()[]` and braces and the bar. -/
def isSpecial (c : Char) : Bool :=
  ['\\', '.', '^', '$', '*', '+', '?', '(', ')', '[', ']', '{', '}', '|'].contains c

def regexpQuote (w : List Char) : List Char :=
  w.flatMap fun c => if isSpecial c then ['\\', c] else [c]

def readRegexp : List Char → Option (List Char × Bool)
  | [] => some ([], false)
  | '\\' :: c :: t =>
    if isSpecial c then (readRegexp t).map (Prod.map (c :: ·) id)
    else if c = 'M' ∧ t = [] then some ([], true)
    else none
  | c :: t => if isSpecial c then none else (readRegexp t).map (Prod.map (c :: ·) id)

/-- What is put in for a match: `\&` is the match, `\1` to `\9` are the groups, of which there are
none here. -/
def readReplacement (found : List Char) : List Char → List Char
  | [] => []
  | '\\' :: c :: t =>
    if c = '\\' then '\\' :: readReplacement found t
    else if c = '&' then found ++ readReplacement found t
    else if '1' ≤ c ∧ c ≤ '9' then readReplacement found t
    else '\\' :: c :: readReplacement found t
  | c :: t => c :: readReplacement found t

/-- The matches of a word that ends where words end: with a character of words, and no other
behind it. -/
def wordAtEnd (isWord : Char → Bool) (w : List Char) : Pattern Char where
  length := w.length
  front t := (word w).front t && w.getLast?.any isWord && !(t.drop w.length).head?.any isWord
  fits t h := (word w).fits t (by simp only [Bool.and_eq_true] at h; exact h.1.1)

/-- `regexp_replace(t, regexp, replacement, 'g')`, NULL for other expressions. -/
def regexpReplace (isWord : Char → Bool) (t regexp replacement : List Char) : Option (List Char) :=
  (readRegexp regexp).map fun (w, ends) =>
    scan (if ends then wordAtEnd isWord w else word w) (readReplacement w replacement) 0 t

theorem readRegexp_quote : ∀ w : List Char,
    readRegexp (regexpQuote w ++ ['\\', 'M']) = some (w, true)
  | [] => by decide
  | c :: w => by
    have ih := readRegexp_quote w
    unfold regexpQuote at ih ⊢
    rw [flatMap_cons]
    by_cases hc : isSpecial c = true
    · rw [if_pos hc]
      simp only [cons_append, nil_append, readRegexp, hc, if_true, ih]
      rfl
    have hne : c ≠ '\\' := fun h => hc (h ▸ by decide)
    rw [if_neg hc, singleton_append, cons_append, readRegexp, if_neg hc, ih]
    · rfl
    · exact fun _ _ h => absurd h hne

theorem readReplacement_double (found : List Char) : ∀ v : List Char,
    readReplacement found (replace ['\\'] ['\\', '\\'] v) = v
  | [] => rfl
  | c :: v => by
    have ih := readReplacement_double found v
    rw [replace_singleton] at ih ⊢
    rw [flatMap_cons]
    by_cases hc : c = '\\'
    · rw [if_pos hc, cons_append, singleton_append, readReplacement, if_pos rfl, ih, hc]
    · rw [if_neg hc, singleton_append, readReplacement, ih]
      exact fun _ _ h => absurd h hc

theorem regexpReplace_quote (isWord : Char → Bool) (w v t : List Char) :
    regexpReplace isWord t (regexpQuote w ++ ['\\', 'M']) (replace ['\\'] ['\\', '\\'] v)
      = some (scan (wordAtEnd isWord w) v 0 t) := by
  rw [regexpReplace, readRegexp_quote, Option.map_some]
  simp only [readReplacement_double, if_true]

end MaluDb.Lib
