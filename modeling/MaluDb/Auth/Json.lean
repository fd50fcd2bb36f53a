import Mathlib.Algebra.Order.BigOperators.Group.List
import Mathlib.Algebra.Order.Group.Nat
import Mathlib.Data.List.TakeWhile
import MaluDb.Lib.JsonText

/-!
# The JSON scanner of the token verifier

`json_get_string` of `src/maludb_auth.c` takes one string field out of a JSON object, in one pass
with a depth and no tree. `stringField` says what it is for, on the trees of `Lib.JsonText`.

* The bytes it looks for are ASCII, so texts are lists of characters.
* `in_str` is never set; the branch on it is left out. The two loops that look for the end of a
  string find the same end (`scanString`).
* `fuel` bounds the iterations; the length of the text is enough (`scan_eq`).
-/

namespace MaluDb.Auth

open Lib.JsonText List HexDigit

/-! ## Model -/

/-- The blanks that are skipped around a colon. -/
def isBlank (c : Char) : Bool := c == ' ' || c == '\t' || c == '\n' || c == '\r'

/-- The text up to the closing quote, and the text after it. -/
def scanString : List Char → Option (List Char × List Char)
  | [] => none
  | c :: t =>
    if c = '\\' then
      match t with
      | [] => none
      | e :: t => (scanString t).map fun (x, rest) => (c :: e :: x, rest)
    else if c = '"' then some ([], t)
    else (scanString t).map fun (x, rest) => (c :: x, rest)

/-- The depth after a character that is not in a string. -/
def depthAfter (depth : ℤ) (c : Char) : ℤ :=
  if c = '{' ∨ c = '[' then depth + 1
  else if c = '}' ∨ c = ']' then depth - 1
  else depth

/-- The main loop. -/
def scan (field : List Char) : ℕ → ℤ → List Char → Option (List Char)
  | 0, _, _ => none
  | _ + 1, _, [] => none
  | fuel + 1, depth, c :: t =>
    if c = '"' then
      match scanString t with
      | none => none
      | some (name, rest) =>
        match rest.dropWhile isBlank with
        | ':' :: rest =>
          -- a name; every other string has no colon after it
          if depth = 1 ∧ name = field then
            match rest.dropWhile isBlank with
            | '"' :: rest => (scanString rest).map Prod.fst
            | _ => none
          else scan field fuel depth (rest.dropWhile isBlank)
        | rest => scan field fuel depth rest
    else scan field fuel (depthAfter depth c) t

/-- `json_get_string`. -/
def jsonGetString (json field : List Char) : Option (List Char) :=
  scan field (json.length + 1) 0 json

/-- The first member of an object with a name. -/
def firstNamed (o : Object) (field : List Char) : Option (Str × Value) :=
  o.list.find? fun m => decode m.1 = some field

/-- The value of a field of an object, if it is a string. -/
def stringField (o : Object) (field : List Char) : Option (List Char) :=
  match firstNamed o field with
  | some (_, .string s) => decode s
  | _ => none

/-- The first member of an object whose name is written as the field is. -/
def firstWritten (o : Object) (field : List Char) : Option (Str × Value) :=
  o.list.find? fun m => raw m.1 = field

/-- The text of its value, if that is a string. -/
def writtenField (o : Object) (field : List Char) : Option (List Char) :=
  match firstWritten o field with
  | some (_, .string s) => some (raw s)
  | _ => none

/-! ## The scanner -/

variable {field : List Char} {depth : ℤ}

theorem length_scanString {t x rest : List Char} (h : scanString t = some (x, rest)) :
    rest.length < t.length := by
  fun_induction scanString t generalizing x rest with
  | case1 => cases h
  | case2 => cases h
  | case3 e t ih =>
    obtain ⟨⟨x', r⟩, hr, heq⟩ := Option.map_eq_some_iff.mp h
    cases heq
    have := ih hr
    simp only [length_cons]
    omega
  | case4 t =>
    cases h
    simp
  | case5 c t hne hq ih =>
    obtain ⟨⟨x', r⟩, hr, heq⟩ := Option.map_eq_some_iff.mp h
    cases heq
    have := ih hr
    simp only [length_cons]
    omega

theorem length_dropWhile_le (t : List Char) : (t.dropWhile isBlank).length ≤ t.length :=
  (dropWhile_sublist isBlank).length_le

theorem scan_eq {t : List Char} {fuel fuel' : ℕ} (hle : t.length < fuel) (hle' : t.length < fuel') :
    scan field fuel depth t = scan field fuel' depth t := by
  induction fuel generalizing t depth fuel' with
  | zero => omega
  | succ fuel ih =>
    obtain ⟨fuel', rfl⟩ : ∃ n, fuel' = n + 1 := ⟨fuel' - 1, by omega⟩
    cases t with
    | nil => rfl
    | cons c t =>
      rw [length_cons] at hle hle'
      unfold scan
      split
      · split
        · rfl
        rename_i name rest hs
        have hrest := length_scanString hs
        have hdrop := length_dropWhile_le rest
        split
        · rename_i r hr
          rw [hr, length_cons] at hdrop
          have := length_dropWhile_le r
          split
          · rfl
          · exact ih (by omega) (by omega)
        · exact ih (by omega) (by omega)
      · exact ih (by omega) (by omega)

/-- The main loop with enough fuel. -/
def scanAll (field : List Char) (depth : ℤ) (t : List Char) : Option (List Char) :=
  scan field (t.length + 1) depth t

theorem scanAll_nil : scanAll field depth [] = none := rfl

theorem scanAll_cons {c : Char} (hc : c ≠ '"') (t : List Char) :
    scanAll field depth (c :: t) = scanAll field (depthAfter depth c) t := by
  unfold scanAll
  rw [scan, if_neg hc]
  exact scan_eq (by simp) (by simp)

theorem scanAll_append {x : List Char}
    (hx : ∀ c ∈ x, c ≠ '"' ∧ ∀ depth, depthAfter depth c = depth) (t : List Char) :
    scanAll field depth (x ++ t) = scanAll field depth t := by
  induction x with
  | nil => rfl
  | cons c x ih =>
    obtain ⟨hq, hd⟩ := hx c mem_cons_self
    rw [cons_append, scanAll_cons hq, hd, ih fun c' hc' => hx c' (mem_cons_of_mem c hc')]

/-- The text after some blanks does not begin with a colon. -/
def NoColon (t : List Char) : Prop := ∀ rest, t.dropWhile isBlank ≠ ':' :: rest

theorem scanAll_dropWhile (t : List Char) :
    scanAll field depth (t.dropWhile isBlank) = scanAll field depth t := by
  conv_rhs => rw [← takeWhile_append_dropWhile (p := isBlank) (l := t)]
  refine (scanAll_append (fun c hc => ?_) _).symm
  have hblank := mem_takeWhile_imp hc
  simp only [isBlank, Bool.or_eq_true, beq_iff_eq] at hblank
  rcases hblank with ((rfl | rfl) | rfl) | rfl <;> exact ⟨by decide, fun _ => rfl⟩

theorem scanAll_string_of_noColon {x t rest : List Char} (hs : scanString t = some (x, rest))
    (hrest : NoColon rest) : scanAll field depth ('"' :: t) = scanAll field depth rest := by
  have hlen := length_scanString hs
  have hdrop := length_dropWhile_le rest
  rw [← scanAll_dropWhile rest]
  unfold scanAll
  rw [scan, if_pos rfl]
  simp only [hs]
  split
  · rename_i r hr
    exact absurd hr (hrest r)
  · exact scan_eq (by rw [length_cons]; omega) (by omega)

theorem scanAll_name_of_ne {x t rest rest' : List Char} (hs : scanString t = some (x, rest))
    (hcolon : rest.dropWhile isBlank = ':' :: rest') (hne : ¬ (depth = 1 ∧ x = field)) :
    scanAll field depth ('"' :: t) = scanAll field depth rest' := by
  have hlen := length_scanString hs
  have hdrop := length_dropWhile_le rest
  have hdrop' := length_dropWhile_le rest'
  rw [hcolon, length_cons] at hdrop
  rw [← scanAll_dropWhile rest']
  unfold scanAll
  rw [scan]
  simp only [hs, hcolon, if_neg hne]
  exact scan_eq (by rw [length_cons]; omega) (by omega)

theorem scanAll_field {t rest rest' : List Char} (hs : scanString t = some (field, rest))
    (hcolon : rest.dropWhile isBlank = ':' :: rest') :
    scanAll field 1 ('"' :: t) =
      match rest'.dropWhile isBlank with
      | '"' :: value => (scanString value).map Prod.fst
      | _ => none := by
  unfold scanAll
  rw [scan]
  simp only [hs, hcolon]
  rfl

/-! ## JSON texts -/

theorem scanString_quote (t : List Char) : scanString ('"' :: t) = some ([], t) := by
  rw [scanString.eq_def]
  rfl

theorem scanString_escape (e : Char) (t : List Char) :
    scanString ('\\' :: e :: t) = (scanString t).map fun (x, rest) => ('\\' :: e :: x, rest) := by
  rw [scanString.eq_def]
  rfl

theorem scanString_plain {c : Char} (hb : c ≠ '\\') (hq : c ≠ '"') (t : List Char) :
    scanString (c :: t) = (scanString t).map fun (x, rest) => (c :: x, rest) := by
  rw [scanString.eq_def]
  simp only [if_neg hb, if_neg hq]

theorem scanString_raw (s : Str) (rest : List Char) :
    scanString (raw s ++ '"' :: rest) = some (raw s, rest) := by
  induction s with
  | nil => exact scanString_quote rest
  | cons x s ih =>
    rw [raw_cons]
    cases x with
    | plain c ok =>
      have hb : c ≠ '\\' := by
        rintro rfl
        cases ok
      have hq : c ≠ '"' := by
        rintro rfl
        cases ok
      show scanString (c :: (raw s ++ '"' :: rest)) = _
      rw [scanString_plain hb hq, ih]
      rfl
    | escape e =>
      show scanString ('\\' :: e.letter :: (raw s ++ '"' :: rest)) = _
      rw [scanString_escape, ih]
      rfl
    | unicode a b c d =>
      have hdigit : ∀ d : HexDigit, HexDigit.char d ≠ '\\' ∧ HexDigit.char d ≠ '"' := by decide
      have hpass : ∀ (d : HexDigit) (t : List Char), scanString (char d :: t) =
          (scanString t).map fun (x, rest) => (char d :: x, rest) := fun d t =>
        scanString_plain (hdigit d).1 (hdigit d).2 t
      show scanString ('\\' :: 'u' :: char a :: char b :: char c ::
        char d :: (raw s ++ '"' :: rest)) = _
      rw [scanString_escape, hpass, hpass, hpass, hpass, ih]
      rfl

theorem scanString_quoted (s : Str) (rest : List Char) :
    ∃ t, quoted s ++ rest = '"' :: t ∧ scanString t = some (raw s, rest) :=
  ⟨raw s ++ '"' :: rest, by simp [quoted], scanString_raw s rest⟩

theorem isBlank_char (b : Blank) : isBlank b.char = true := by cases b <;> rfl

theorem isBlank_of_mem_blanks {ws : List Blank} {c : Char} (h : c ∈ blanks ws) :
    isBlank c = true := by
  obtain ⟨b, -, rfl⟩ := mem_map.mp h
  exact isBlank_char b

theorem dropWhile_blanks (ws : List Blank) {c : Char} (hc : isBlank c = false) (t : List Char) :
    (blanks ws ++ c :: t).dropWhile isBlank = c :: t := by
  rw [dropWhile_append_of_pos fun c hc => isBlank_of_mem_blanks hc,
    dropWhile_cons_of_neg (by simp [hc])]

theorem noColon_blanks (ws : List Blank) {c : Char} (hc : isBlank c = false) (hne : c ≠ ':')
    (t : List Char) : NoColon (blanks ws ++ c :: t) := by
  intro rest h
  rw [dropWhile_blanks ws hc] at h
  exact hne (List.cons.inj h).1

theorem scanAll_blanks (ws : List Blank) (t : List Char) :
    scanAll field depth (blanks ws ++ t) = scanAll field depth t := by
  refine scanAll_append (fun c hc => ?_) t
  obtain ⟨b, -, rfl⟩ := mem_map.mp hc
  cases b <;> exact ⟨by decide, fun _ => rfl⟩

/-- No quote, no bracket and no blank. -/
def isBland (c : Char) : Bool :=
  c != '"' && c != '{' && c != '}' && c != '[' && c != ']' && !isBlank c

theorem bland_atom (a : Atom) : ∀ c ∈ a.text, isBland c = true := by
  have hdigit : ∀ d : Fin 10, isBland (digit d) = true := by decide
  have hdigits : ∀ ds : List (Fin 10), ∀ c ∈ ds.map digit, isBland c = true := by
    intro ds c hc
    obtain ⟨d, -, rfl⟩ := mem_map.mp hc
    exact hdigit d
  have hsign : ∀ sign : Option Bool, ∀ c ∈ signText sign, isBland c = true := by
    rintro (_ | _ | _) <;> exact all_eq_true.mp rfl
  cases a with
  | number n =>
    intro c hc
    simp only [Atom.text, Number.text, mem_append] at hc
    rcases hc with ((hc | hc) | hc) | hc
    · split at hc
      · rw [mem_singleton.mp hc]; rfl
      · cases hc
    · exact hdigits _ c hc
    · split at hc
      · cases hc
      · rcases mem_cons.mp hc with rfl | hc
        · rfl
        · exact hdigits _ c hc
    · split at hc
      · cases hc
      rename_i upper sign ds _
      rcases mem_cons.mp hc with rfl | hc
      · cases upper <;> rfl
      · rcases mem_append.mp hc with hc | hc
        · exact hsign sign c hc
        · exact hdigits ds c hc
  | true => exact all_eq_true.mp rfl
  | false => exact all_eq_true.mp rfl
  | null => exact all_eq_true.mp rfl

theorem scanAll_atom (a : Atom) (t : List Char) :
    scanAll field depth (a.text ++ t) = scanAll field depth t := by
  refine scanAll_append (fun c hc => ?_) t
  have h := bland_atom a c hc
  simp only [isBland, Bool.and_eq_true, bne_iff_ne] at h
  obtain ⟨⟨⟨⟨⟨hq, ho⟩, hc⟩, ho'⟩, hc'⟩, -⟩ := h
  exact ⟨hq, fun depth => by simp [depthAfter, ho, hc, ho', hc']⟩

theorem scanAll_open {c : Char} (hc : c = '{' ∨ c = '[') (t : List Char) :
    scanAll field depth (c :: t) = scanAll field (depth + 1) t := by
  rw [scanAll_cons (by rcases hc with rfl | rfl <;> decide), depthAfter, if_pos hc]

theorem scanAll_close {c : Char} (hc : c = '}' ∨ c = ']') (t : List Char) :
    scanAll field (depth + 1) (c :: t) = scanAll field depth t := by
  rcases hc with rfl | rfl
  · rw [scanAll_cons (by decide), show depthAfter (depth + 1) '}' = depth by simp [depthAfter]]
  · rw [scanAll_cons (by decide), show depthAfter (depth + 1) ']' = depth by simp [depthAfter]]

theorem scanAll_comma (t : List Char) :
    scanAll field depth (',' :: t) = scanAll field depth t :=
  scanAll_cons (by decide) t

theorem scanAll_member {name : Str} (hne : ¬ (depth = 1 ∧ raw name = field))
    (before after : List Blank) (t : List Char) :
    scanAll field depth (quoted name ++ (blanks before ++ ':' :: (blanks after ++ t))) =
      scanAll field depth t := by
  obtain ⟨u, hu, hs⟩ := scanString_quoted name (blanks before ++ ':' :: (blanks after ++ t))
  rw [hu, scanAll_name_of_ne hs (dropWhile_blanks before rfl _) hne, scanAll_blanks]

mutual

/-- **A value is passed.** By induction on the tree; what is inside of it is at a depth of more
than 1, so no name in it is taken for the field. -/
theorem scanAll_value (depth : ℤ) (v : Value) (hdepth : 1 ≤ depth) {t : List Char}
    (ht : NoColon t) : scanAll field depth (v.text ++ t) = scanAll field depth t := by
  cases v with
  | atom a => exact scanAll_atom a t
  | string s =>
    obtain ⟨u, hu, hs⟩ := scanString_quoted s t
    rw [Value.text, hu, scanAll_string_of_noColon hs ht]
  | emptyArray gap =>
    rw [Value.text, cons_append, append_assoc, scanAll_open (.inr rfl), scanAll_blanks]
    exact scanAll_close (.inr rfl) t
  | array elems =>
    rw [Value.text, cons_append, append_assoc]
    have hpass := scanAll_elems (depth + 1) elems (by omega) t
    exact hpass.trans (scanAll_close (.inr rfl) t)
  | object o => exact scanAll_object depth o hdepth t

theorem scanAll_elems (depth : ℤ) (es : Elems) (hdepth : 1 ≤ depth) (t : List Char) :
    scanAll field depth (es.text ++ ']' :: t) = scanAll field depth (']' :: t) := by
  cases es with
  | one before v after =>
    rw [Elems.text, append_assoc, append_assoc, scanAll_blanks,
      scanAll_value depth v hdepth (noColon_blanks after rfl (by decide) t), scanAll_blanks]
  | more before v after rest =>
    rw [Elems.text, append_assoc, append_assoc, append_assoc, cons_append,
      scanAll_blanks, scanAll_value depth v hdepth (noColon_blanks after rfl (by decide) _),
      scanAll_blanks, scanAll_comma, scanAll_elems depth rest hdepth t]

theorem scanAll_object (depth : ℤ) (o : Object) (hdepth : 1 ≤ depth) (t : List Char) :
    scanAll field depth (o.text ++ t) = scanAll field depth t := by
  cases o with
  | empty gap =>
    rw [Object.text, cons_append, append_assoc, scanAll_open (.inl rfl), scanAll_blanks]
    exact scanAll_close (.inl rfl) t
  | members ms =>
    rw [Object.text, cons_append, append_assoc]
    have hpass := scanAll_members (depth + 1) ms (by omega) t
    exact hpass.trans (scanAll_close (.inl rfl) t)

theorem scanAll_members (depth : ℤ) (ms : Members) (hdepth : 2 ≤ depth) (t : List Char) :
    scanAll field depth (ms.text ++ '}' :: t) = scanAll field depth ('}' :: t) := by
  have hne : ∀ x, ¬ (depth = 1 ∧ x = field) := fun x h => by omega
  cases ms with
  | one before name beforeColon afterColon v after =>
    simp only [Members.text, append_assoc, cons_append]
    rw [scanAll_blanks, scanAll_member (hne _),
      scanAll_value depth v (by omega) (noColon_blanks after rfl (by decide) t), scanAll_blanks]
  | more before name beforeColon afterColon v after rest =>
    simp only [Members.text, append_assoc, cons_append]
    rw [scanAll_blanks, scanAll_member (hne _),
      scanAll_value depth v (by omega) (noColon_blanks after rfl (by decide) _), scanAll_blanks,
      scanAll_comma, scanAll_members depth rest hdepth t]

end

/-! ## The members of the object itself -/

theorem atom_text_ne_nil (a : Atom) : a.text ≠ [] := by
  cases a with
  | number n =>
    intro h
    simp only [Atom.text, Number.text, append_eq_nil_iff, map_eq_nil_iff] at h
    exact n.whole_ne h.1.1.2
  | true => exact cons_ne_nil _ _
  | false => exact cons_ne_nil _ _
  | null => exact cons_ne_nil _ _

/-- What the field's value is, as it is written. -/
def valueText : Value → Option (List Char)
  | .string s => some (raw s)
  | _ => none

theorem scan_value (gap : List Blank) (v : Value) (t : List Char) :
    (match (blanks gap ++ (v.text ++ t)).dropWhile isBlank with
      | '"' :: value => (scanString value).map Prod.fst
      | _ => none) = valueText v := by
  have hother : ∀ (c : Char) (u : List Char), isBlank c = false → c ≠ '"' →
      (match (blanks gap ++ (c :: u)).dropWhile isBlank with
        | '"' :: value => (scanString value).map Prod.fst
        | _ => none) = none := by
    intro c u hblank hquote
    rw [dropWhile_blanks gap hblank]
    split
    · rename_i heq
      exact absurd (List.cons.inj heq).1 hquote
    · rfl
  cases v with
  | atom a =>
    cases htext : a.text with
    | nil => exact absurd htext (atom_text_ne_nil a)
    | cons c u =>
      have hbland := bland_atom a c (htext ▸ mem_cons_self)
      simp only [isBland, Bool.and_eq_true, bne_iff_ne, Bool.not_eq_true'] at hbland
      rw [Value.text, htext]
      exact hother c (u ++ t) hbland.2 hbland.1.1.1.1.1
  | string s =>
    obtain ⟨u, hu, hs⟩ := scanString_quoted s t
    rw [Value.text, hu, dropWhile_blanks gap rfl]
    simp only [hs]
    rfl
  | emptyArray ws => exact hother '[' _ rfl (by decide)
  | array elems => exact hother '[' _ rfl (by decide)
  | object o =>
    cases o with
    | empty ws => exact hother '{' _ rfl (by decide)
    | members ms => exact hother '{' _ rfl (by decide)

theorem scanAll_member_field {name : Str} (h : raw name = field) (before after : List Blank)
    (v : Value) (t : List Char) :
    scanAll field 1 (quoted name ++ (blanks before ++ ':' :: (blanks after ++ (v.text ++ t)))) =
      valueText v := by
  subst h
  obtain ⟨u, hu, hs⟩ :=
    scanString_quoted name (blanks before ++ ':' :: (blanks after ++ (v.text ++ t)))
  rw [hu, scanAll_field hs (dropWhile_blanks before rfl _), scan_value]

theorem scanAll_topMembers (ms : Members) (t : List Char) :
    scanAll field 1 (ms.text ++ '}' :: t) = match ms.list.find? fun m => raw m.1 = field with
      | some m => valueText m.2
      | none => scanAll field 0 t := by
  match ms with
  | .one before name beforeColon afterColon v after =>
    simp only [Members.text, Members.list, append_assoc, cons_append]
    rw [scanAll_blanks]
    by_cases hname : raw name = field
    · rw [scanAll_member_field hname, find?_cons_of_pos (by simpa using hname)]
    rw [scanAll_member fun h => hname h.2,
      scanAll_value 1 v (by omega) (noColon_blanks after rfl (by decide) t), scanAll_blanks,
      find?_cons_of_neg (by simpa using hname)]
    have hclose : scanAll field (0 + 1) ('}' :: t) = scanAll field 0 t :=
      scanAll_close (.inl rfl) t
    exact hclose
  | .more before name beforeColon afterColon v after rest =>
    simp only [Members.text, Members.list, append_assoc, cons_append]
    rw [scanAll_blanks]
    by_cases hname : raw name = field
    · rw [scanAll_member_field hname, find?_cons_of_pos (by simpa using hname)]
    rw [scanAll_member fun h => hname h.2,
      scanAll_value 1 v (by omega) (noColon_blanks after rfl (by decide) _), scanAll_blanks,
      find?_cons_of_neg (by simpa using hname)]
    exact scanAll_topMembers rest t

/-- **On a JSON text the scanner returns the value's text of the first member of the object itself
that is written with the field's name.** -/
theorem jsonGetString_objectText (before : List Blank) (o : Object) (after : List Blank)
    (field : List Char) :
    jsonGetString (objectText before o after) field = writtenField o field := by
  have hend : scanAll field 0 (blanks after) = none := by
    rw [← append_nil (blanks after), scanAll_blanks, scanAll_nil]
  have hstart : jsonGetString (objectText before o after) field =
      scanAll field 0 (o.text ++ blanks after) := by
    show scanAll field 0 (blanks before ++ (o.text ++ blanks after)) = _
    rw [scanAll_blanks]
  have hvalue : ∀ m : Option (Str × Value), (match m with
        | some m => valueText m.2
        | none => none) = match m with
        | some (_, .string s) => some (raw s)
        | _ => none := by
    rintro (_ | ⟨name, _ | _ | _ | _ | _⟩) <;> rfl
  rw [hstart]
  cases o with
  | empty gap =>
    rw [Object.text, cons_append, append_assoc, scanAll_open (.inl rfl), scanAll_blanks]
    exact (scanAll_close (.inl rfl) (blanks after)).trans hend
  | members ms =>
    rw [Object.text, cons_append, append_assoc]
    refine (scanAll_topMembers ms (blanks after)).trans ?_
    rw [hend]
    exact hvalue _

/-! ## Escapes -/

variable {o : Object}

/-- A string field whose name is not written the same way further to the front has no escape in its
name or its value, and is the first with its name. -/
def Plain (o : Object) : Prop :=
  ∀ name s, firstWritten o (raw name) = some (name, .string s) →
    '\\' ∉ raw name ∧ '\\' ∉ raw s ∧ firstNamed o (raw name) = some (name, .string s)

theorem firstWritten_of_firstNamed {m : Str × Value} (h : firstNamed o field = some m) :
    decode m.1 = some field ∧ firstWritten o (raw m.1) = some m := by
  obtain ⟨hname, as, bs, hlist, hbefore⟩ := find?_eq_some_iff_append.mp h
  have hname := of_decide_eq_true hname
  refine ⟨hname, find?_eq_some_iff_append.mpr ⟨by simp, as, bs, hlist, fun a ha => ?_⟩⟩
  have hne : decode a.1 ≠ some field := by simpa using hbefore a ha
  simp only [Bool.not_eq_true', decide_eq_false_iff_not]
  intro hraw
  exact hne (raw_injective hraw ▸ hname)

theorem raw_of_firstWritten {m : Str × Value} (h : firstWritten o field = some m) :
    raw m.1 = field ∧ m ∈ o.list := by
  unfold firstWritten at h
  exact ⟨by simpa using find?_some h, mem_of_find?_eq_some h⟩

theorem stringField_eq_some {x : List Char} :
    stringField o field = some x ↔
      ∃ name s, firstNamed o field = some (name, .string s) ∧ decode s = some x := by
  unfold stringField
  constructor
  · intro h
    split at h
    · rename_i name s hfirst
      exact ⟨name, s, hfirst, h⟩
    · cases h
  · rintro ⟨name, s, hfirst, hs⟩
    rw [hfirst]
    exact hs

theorem writtenField_eq_some {x : List Char} :
    writtenField o field = some x ↔
      ∃ name s, firstWritten o field = some (name, .string s) ∧ raw s = x := by
  unfold writtenField
  constructor
  · intro h
    split at h
    · rename_i name s hfirst
      exact ⟨name, s, hfirst, Option.some.inj h⟩
    · cases h
  · rintro ⟨name, s, hfirst, hs⟩
    rw [hfirst]
    exact congrArg some hs

theorem length_lt_of_decode {s : Str} {x : List Char} (h : decode s = some x) (hx : '\\' ∈ x) :
    '\\' ∈ raw s ∧ x.length < (raw s).length := by
  have hmem : '\\' ∈ raw s := by
    by_contra hnot
    rw [decode_eq_raw_iff.mpr hnot] at h
    exact hnot (Option.some.inj h ▸ hx)
  have hlen := length_decode h
  rw [if_pos hmem] at hlen
  exact ⟨hmem, by omega⟩

theorem no_backslash_of_forall (h : ∀ field, writtenField o field = stringField o field)
    {name s : Str} (hfirst : firstWritten o (raw name) = some (name, .string s)) :
    '\\' ∉ raw name := by
  obtain ⟨bound, hbound⟩ : ∃ bound, ∀ m ∈ o.list, (raw m.1).length ≤ bound := by
    refine ⟨(o.list.map fun m => (raw m.1).length).sum, fun m hm => ?_⟩
    exact le_sum_of_mem (mem_map_of_mem hm)
  intro hmem
  induction hn : bound - (raw name).length using Nat.strong_induction_on generalizing name s with
  | _ n ih =>
    have hwritten : writtenField o (raw name) = some (raw s) :=
      writtenField_eq_some.mpr ⟨name, s, hfirst, rfl⟩
    rw [h] at hwritten
    obtain ⟨name', s', hnamed, -⟩ := stringField_eq_some.mp hwritten
    obtain ⟨hdecode, hfirst'⟩ := firstWritten_of_firstNamed hnamed
    obtain ⟨hmem', hlt⟩ := length_lt_of_decode (s := name') hdecode hmem
    have hle : (raw name').length ≤ bound := hbound _ (raw_of_firstWritten hfirst').2
    exact ih (bound - (raw name').length) (by omega) hfirst' hmem' rfl

theorem plain_of_forall (h : ∀ field, writtenField o field = stringField o field) : Plain o := by
  intro name s hfirst
  have hname := no_backslash_of_forall h hfirst
  have hwritten : writtenField o (raw name) = some (raw s) :=
    writtenField_eq_some.mpr ⟨name, s, hfirst, rfl⟩
  rw [h] at hwritten
  obtain ⟨name', s', hnamed, hs⟩ := stringField_eq_some.mp hwritten
  obtain ⟨hdecode, hfirst'⟩ := firstWritten_of_firstNamed hnamed
  have hname' := no_backslash_of_forall h hfirst'
  rw [decode_eq_raw_iff.mpr hname'] at hdecode
  rw [Option.some.inj hdecode, hfirst] at hfirst'
  cases hfirst'
  exact ⟨hname, decode_eq_raw_iff.mp hs, hnamed⟩

theorem writtenField_of_plain (h : Plain o) (field : List Char) :
    writtenField o field = stringField o field := by
  refine Option.ext fun x => ?_
  rw [writtenField_eq_some, stringField_eq_some]
  constructor
  · rintro ⟨name, s, hfirst, rfl⟩
    obtain rfl := (raw_of_firstWritten hfirst).1
    obtain ⟨-, hs, hnamed⟩ := h name s hfirst
    exact ⟨name, s, hnamed, decode_eq_raw_iff.mpr hs⟩
  rintro ⟨name, s, hnamed, hs⟩
  obtain ⟨hdecode, hfirst⟩ := firstWritten_of_firstNamed hnamed
  obtain ⟨hname, hvalue, -⟩ := h name s hfirst
  rw [decode_eq_raw_iff.mpr hname] at hdecode
  rw [decode_eq_raw_iff.mpr hvalue] at hs
  exact ⟨name, s, Option.some.inj hdecode ▸ hfirst, Option.some.inj hs⟩

/-- **When the scanner is right.** On every JSON text of an object it returns the text of a value of
the object itself. That is the decoded value of the field, for every field, exactly if the fields
with string values are written without escapes. -/
theorem jsonGetString_iff (before : List Blank) (o : Object) (after : List Blank) :
    ((∀ field, jsonGetString (objectText before o after) field = stringField o field) ↔ Plain o) ∧
      ∀ field, jsonGetString (objectText before o after) field = writtenField o field := by
  refine ⟨?_, jsonGetString_objectText before o after⟩
  simp only [jsonGetString_objectText]
  exact ⟨plain_of_forall, writtenField_of_plain⟩

/-- An object with one member, without blanks. -/
def single (name value : Str) : Object := .members (.one [] name [] [] (.string value) [])

/-- **Escapes that the scanner does not decode**: in a value, in a name, and a field name that is
the text of an escaped one. -/
theorem jsonGetString_escaped :
    let kid : Str := [.plain 'k' rfl, .plain 'i' rfl, .plain 'd' rfl]
    let escapedKid : Str := [.unicode 0 0 6 11, .plain 'i' rfl, .plain 'd' rfl]
    let value : Str := [.plain 'a' rfl, .escape .slash, .plain 'b' rfl]
    let one : Str := [.plain '1' rfl]
    objectText [] (single kid value) [] = "\x7b\"kid\":\"a\\/b\"\x7d".toList ∧
      jsonGetString (objectText [] (single kid value) []) "kid".toList = some "a\\/b".toList ∧
      stringField (single kid value) "kid".toList = some "a/b".toList ∧
      objectText [] (single escapedKid one) [] = "\x7b\"\\u006bid\":\"1\"\x7d".toList ∧
      jsonGetString (objectText [] (single escapedKid one) []) "kid".toList = none ∧
      stringField (single escapedKid one) "kid".toList = some "1".toList ∧
      jsonGetString (objectText [] (single escapedKid one) []) "\\u006bid".toList =
        some "1".toList ∧
      stringField (single escapedKid one) "\\u006bid".toList = none := by
  decide +kernel

end MaluDb.Auth
