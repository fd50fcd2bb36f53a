import Mathlib.Data.List.Basic

/-!
# JSON texts

The grammar of RFC 8259 as trees that keep every character of the text: blanks, numbers as they are
written, strings with their escapes. A JSON text is the `text` of a tree.

* `raw` is the text between the quotes of a string, `decode` is what it denotes; a surrogate without
  its partner denotes nothing.
-/

namespace MaluDb.Lib.JsonText

open List

/-! ## Strings -/

/-- The escapes of one letter. -/
inductive Escape where
  | quote
  | backslash
  | slash
  | backspace
  | formFeed
  | lineFeed
  | carriageReturn
  | tab
  deriving DecidableEq

/-- The letter behind the backslash. -/
def Escape.letter : Escape → Char
  | .quote => '"'
  | .backslash => '\\'
  | .slash => '/'
  | .backspace => 'b'
  | .formFeed => 'f'
  | .lineFeed => 'n'
  | .carriageReturn => 'r'
  | .tab => 't'

/-- The character that is meant. -/
def Escape.char : Escape → Char
  | .quote => '"'
  | .backslash => '\\'
  | .slash => '/'
  | .backspace => '\x08'
  | .formFeed => '\x0c'
  | .lineFeed => '\n'
  | .carriageReturn => '\r'
  | .tab => '\t'

/-- A hexadecimal digit, in either case. -/
abbrev HexDigit := Fin 22

def HexDigit.char (d : HexDigit) : Char :=
  ['0', '1', '2', '3', '4', '5', '6', '7', '8', '9', 'a', 'b', 'c', 'd', 'e', 'f', 'A', 'B', 'C',
    'D', 'E', 'F'].get d

def HexDigit.value (d : HexDigit) : ℕ := if d.val < 16 then d.val else d.val - 6

/-- The characters that may stand for themselves. -/
def isPlain (c : Char) : Bool := c != '"' && c != '\\' && decide (0x20 ≤ c.toNat)

/-- One element of a string. -/
inductive StrChar where
  | plain (c : Char) (ok : isPlain c = true)
  | escape (e : Escape)
  | unicode (a b c d : HexDigit)
  deriving DecidableEq

/-- Strings as they are written. -/
abbrev Str := List StrChar

def StrChar.text : StrChar → List Char
  | .plain c _ => [c]
  | .escape e => ['\\', e.letter]
  | .unicode a b c d => '\\' :: 'u' :: [a, b, c, d].map HexDigit.char

/-- The text between the quotes. -/
def raw (s : Str) : List Char := s.flatMap StrChar.text

/-- The text with the quotes. -/
def quoted (s : Str) : List Char := '"' :: (raw s ++ ['"'])

/-- The number behind `\u`. -/
def unit (a b c d : HexDigit) : ℕ :=
  ((HexDigit.value a * 16 + HexDigit.value b) * 16 + HexDigit.value c) * 16 + HexDigit.value d

/-- The character of a number that is not a surrogate. -/
def charOf (n : ℕ) : Option Char :=
  if h : n.isValidChar then some (Char.ofNatAux n h) else none

/-- The character of a pair of surrogates. -/
def charOfPair (high low : ℕ) : Option Char :=
  if 0xd800 ≤ high ∧ high < 0xdc00 ∧ 0xdc00 ≤ low ∧ low < 0xe000 then
    charOf (0x10000 + (high - 0xd800) * 0x400 + (low - 0xdc00))
  else none

/-- What a string denotes. -/
def decode : Str → Option (List Char)
  | [] => some []
  | .plain c _ :: s => (decode s).map (c :: ·)
  | .escape e :: s => (decode s).map (e.char :: ·)
  | .unicode a b c d :: s =>
    match charOf (unit a b c d), s with
    | some x, s => (decode s).map (x :: ·)
    | none, .unicode a' b' c' d' :: s =>
      (charOfPair (unit a b c d) (unit a' b' c' d')).bind fun x => (decode s).map (x :: ·)
    | none, _ => none

@[simp] theorem raw_nil : raw [] = [] := rfl

@[simp] theorem raw_cons (x : StrChar) (s : Str) : raw (x :: s) = x.text ++ raw s := rfl

theorem mem_text_unicode {a b c d : HexDigit} : '\\' ∈ (StrChar.unicode a b c d).text :=
  mem_cons_self

theorem HexDigit.char_injective : Function.Injective HexDigit.char := by
  have : ∀ d d' : HexDigit, HexDigit.char d = HexDigit.char d' → d = d' := by decide
  exact fun d d' h => this d d' h

theorem Escape.letter_injective : Function.Injective Escape.letter := by
  intro e e' h
  cases e <;> cases e' <;> first | rfl | exact absurd h (by decide)

theorem Escape.letter_ne (e : Escape) : e.letter ≠ 'u' := by cases e <;> decide

theorem text_append_inj {x x' : StrChar} {t t' : List Char} (h : x.text ++ t = x'.text ++ t') :
    x = x' ∧ t = t' := by
  cases x with
  | plain c ok =>
    cases x' with
    | plain c' ok' =>
      obtain ⟨hc, htail⟩ := List.cons.inj h
      subst hc
      exact ⟨rfl, htail⟩
    | escape e' =>
      obtain ⟨rfl, -⟩ := List.cons.inj h
      cases ok
    | unicode a' b' c' d' =>
      obtain ⟨rfl, -⟩ := List.cons.inj h
      cases ok
  | escape e =>
    cases x' with
    | plain c' ok' =>
      obtain ⟨rfl, -⟩ := List.cons.inj h
      cases ok'
    | escape e' =>
      obtain ⟨he, h⟩ := List.cons.inj (List.cons.inj h).2
      exact ⟨congrArg _ (Escape.letter_injective he), h⟩
    | unicode a' b' c' d' => exact absurd (List.cons.inj (List.cons.inj h).2).1 e.letter_ne
  | unicode a b c d =>
    cases x' with
    | plain c' ok' =>
      obtain ⟨rfl, -⟩ := List.cons.inj h
      cases ok'
    | escape e' => exact absurd (List.cons.inj (List.cons.inj h).2).1.symm e'.letter_ne
    | unicode a' b' c' d' =>
      simp only [StrChar.text, List.map, cons_append, nil_append, List.cons.injEq, true_and] at h
      obtain ⟨ha, hb, hc, hd, h⟩ := h
      rw [HexDigit.char_injective ha, HexDigit.char_injective hb, HexDigit.char_injective hc,
        HexDigit.char_injective hd]
      exact ⟨rfl, h⟩

theorem text_ne_nil (x : StrChar) : x.text ≠ [] := by
  cases x <;> exact cons_ne_nil _ _

theorem raw_append {s s' : Str} {t : List Char} (h : raw s = raw s' ++ t) :
    ∃ u, s = s' ++ u ∧ raw u = t := by
  induction s' generalizing s with
  | nil => exact ⟨s, rfl, h⟩
  | cons x' s' ih =>
    cases s with
    | nil =>
      rw [raw_cons, append_assoc] at h
      exact absurd (append_eq_nil_iff.mp h.symm).1 (text_ne_nil x')
    | cons x s =>
      rw [raw_cons, raw_cons, append_assoc] at h
      obtain ⟨rfl, hrest⟩ := text_append_inj h
      obtain ⟨u, rfl, hu⟩ := ih hrest
      exact ⟨u, rfl, hu⟩

/-- **There is one way to read the text of a string.** -/
theorem raw_injective : Function.Injective raw := by
  intro s s' h
  obtain ⟨u, rfl, hu⟩ := raw_append (h.trans (append_nil _).symm)
  cases u with
  | nil => exact append_nil s'
  | cons x u => exact absurd (append_eq_nil_iff.mp hu).1 (text_ne_nil x)

theorem length_decode {s : Str} {x : List Char} (h : decode s = some x) :
    x.length + (if '\\' ∈ raw s then 1 else 0) ≤ (raw s).length := by
  fun_induction decode s generalizing x with
  | case1 => simp_all
  | case2 c ok s ih =>
    obtain ⟨y, hy, rfl⟩ := Option.map_eq_some_iff.mp h
    have hne : '\\' ≠ c := by
      rintro rfl
      cases ok
    have := ih hy
    simpa [StrChar.text, hne] using by omega
  | case3 e s ih =>
    obtain ⟨y, hy, rfl⟩ := Option.map_eq_some_iff.mp h
    have := ih hy
    simp [StrChar.text]
    omega
  | case4 a b c d s x' hx ih =>
    obtain ⟨y, hy, rfl⟩ := Option.map_eq_some_iff.mp h
    have := ih hy
    simp [StrChar.text]
    omega
  | case5 a b c d hx a' b' c' d' s ih =>
    obtain ⟨x', hx', h⟩ := Option.bind_eq_some_iff.mp h
    obtain ⟨y, hy, rfl⟩ := Option.map_eq_some_iff.mp h
    have := ih hy
    simp [StrChar.text]
    omega
  | case6 => cases h

/-- **A string denotes its own text exactly if it has no backslash.** -/
theorem decode_eq_raw_iff {s : Str} : decode s = some (raw s) ↔ '\\' ∉ raw s := by
  constructor
  · intro h hmem
    have := length_decode h
    rw [if_pos hmem] at this
    omega
  intro h
  induction s with
  | nil => rfl
  | cons x s ih =>
    rw [raw_cons, mem_append, not_or] at h
    cases x with
    | plain c ok => rw [decode, ih h.2]; rfl
    | escape e => exact absurd mem_cons_self h.1
    | unicode a b c d => exact absurd mem_text_unicode h.1

/-! ## Values -/

/-- The four blanks. -/
inductive Blank where
  | space
  | tab
  | lineFeed
  | carriageReturn

def Blank.char : Blank → Char
  | .space => ' '
  | .tab => '\t'
  | .lineFeed => '\n'
  | .carriageReturn => '\r'

/-- The text of some blanks. -/
def blanks (ws : List Blank) : List Char := ws.map Blank.char

/-- A digit. -/
def digit (d : Fin 10) : Char := ['0', '1', '2', '3', '4', '5', '6', '7', '8', '9'].get d

/-- A number as it is written: no superfluous zero in front, and digits where the grammar asks for
them. -/
structure Number where
  minus : Bool
  whole : List (Fin 10)
  frac : Option (List (Fin 10))
  exp : Option (Bool × Option Bool × List (Fin 10))
  whole_ne : whole ≠ []
  no_zero : whole.head? = some 0 → whole = [0]
  frac_ne : frac ≠ some []
  exp_ne : ∀ upper sign, exp ≠ some (upper, sign, [])

/-- The sign of an exponent. -/
def signText : Option Bool → List Char
  | none => []
  | some true => ['+']
  | some false => ['-']

def Number.text (n : Number) : List Char :=
  (if n.minus then ['-'] else []) ++ n.whole.map digit ++ (match n.frac with
      | none => []
      | some ds => '.' :: ds.map digit) ++
    match n.exp with
    | none => []
    | some (upper, sign, ds) => (if upper then 'E' else 'e') :: (signText sign ++ ds.map digit)

/-- The values that are neither strings nor made of other values. -/
inductive Atom where
  | true
  | false
  | null
  | number (n : Number)

def Atom.text : Atom → List Char
  | .true => ['t', 'r', 'u', 'e']
  | .false => ['f', 'a', 'l', 's', 'e']
  | .null => ['n', 'u', 'l', 'l']
  | .number n => n.text

mutual

/-- A value. -/
inductive Value where
  | atom (a : Atom)
  | string (s : Str)
  | emptyArray (gap : List Blank)
  | array (elems : Elems)
  | object (o : Object)

/-- What is between the brackets of an array, with the blanks around each value. -/
inductive Elems where
  | one (before : List Blank) (v : Value) (after : List Blank)
  | more (before : List Blank) (v : Value) (after : List Blank) (rest : Elems)

/-- An object. -/
inductive Object where
  | empty (gap : List Blank)
  | members (ms : Members)

/-- What is between the braces of an object: names and values, with the blanks around them. -/
inductive Members where
  | one (before : List Blank) (name : Str) (beforeColon afterColon : List Blank) (v : Value)
    (after : List Blank)
  | more (before : List Blank) (name : Str) (beforeColon afterColon : List Blank) (v : Value)
    (after : List Blank) (rest : Members)

end

mutual

def Value.text : Value → List Char
  | .atom a => a.text
  | .string s => quoted s
  | .emptyArray gap => '[' :: (blanks gap ++ [']'])
  | .array elems => '[' :: (elems.text ++ [']'])
  | .object o => o.text

def Elems.text : Elems → List Char
  | .one before v after => blanks before ++ (v.text ++ blanks after)
  | .more before v after rest => blanks before ++ (v.text ++ (blanks after ++ ',' :: rest.text))

def Object.text : Object → List Char
  | .empty gap => '{' :: (blanks gap ++ ['}'])
  | .members ms => '{' :: (ms.text ++ ['}'])

def Members.text : Members → List Char
  | .one before name beforeColon afterColon v after =>
    blanks before ++ (quoted name ++ (blanks beforeColon ++ ':' ::
      (blanks afterColon ++ (v.text ++ blanks after))))
  | .more before name beforeColon afterColon v after rest =>
    blanks before ++ (quoted name ++ (blanks beforeColon ++ ':' ::
      (blanks afterColon ++ (v.text ++ (blanks after ++ ',' :: rest.text)))))

end

/-- The names and values of an object, in order. -/
def Members.list : Members → List (Str × Value)
  | .one _ name _ _ v _ => [(name, v)]
  | .more _ name _ _ v _ rest => (name, v) :: rest.list

/-- The names and values of an object, in order. -/
def Object.list : Object → List (Str × Value)
  | .empty _ => []
  | .members ms => ms.list

/-- A text that is an object with blanks around it. -/
def objectText (before : List Blank) (o : Object) (after : List Blank) : List Char :=
  blanks before ++ (o.text ++ blanks after)

end MaluDb.Lib.JsonText
