import Mathlib.Data.List.DropRight
import MaluDb.Lib.JsonText
import MaluDb.Prompt.Render

/-!
# Escapes of bound variables

`_escape_for`. A prompt may put a variable between quotes, and then the quotes should still end the
literal and the literal denote the variable.

* For `sql_literal` apostrophes are doubled. `readSql` reads a literal of SQL.
* For `json` the value becomes a `jsonb` string. `trim` takes off all quotes at the ends of its
  text, also one that an escape ends with.
-/

namespace MaluDb.Prompt

open MaluDb.Lib List JsonText

/-! ## The escapes -/

/-- A digit of `%04x`. -/
def lowerHex (n : ℕ) : Char := "0123456789abcdef".toList.getD n '0'

/-- The characters that `escape_json` writes with one letter. -/
def letterEscapes : List JsonText.Escape :=
  [.backspace, .formFeed, .lineFeed, .carriageReturn, .tab, .quote, .backslash]

/-- One character in the text of a `jsonb` string, as `escape_json` writes it. -/
def escapeJsonChar (c : Char) : Text :=
  match letterEscapes.find? fun e => e.char == c with
  | some e => ['\\', e.letter]
  | none =>
    if c.toNat < 0x20 then
      ['\\', 'u', lowerHex 0, lowerHex 0, lowerHex (c.toNat / 16), lowerHex (c.toNat % 16)]
    else [c]

def escapeJson (v : Text) : Text := v.flatMap escapeJsonChar

/-- `to_jsonb(v)::text`. -/
def jsonbText (v : Text) : Text := '"' :: (escapeJson v ++ ['"'])

/-- `trim(both c from t)`. -/
def trimBoth (c : Char) (t : Text) : Text := (t.dropWhile (· == c)).rdropWhile (· == c)

/-- `_escape_for`. -/
def escapeFor (v : Text) (mode : Option String) : Text :=
  match mode.getD "none" with
  | "none" => v
  | "json" => trimBoth '"' (jsonbText v)
  | "sql_literal" => replace ['\x27'] ['\x27', '\x27'] v
  | _ => v

/-! ## SQL literals -/

def readSql : Text → Option (Text × Text)
  | [] => none
  | '\x27' :: '\x27' :: t => (readSql t).map (Prod.map ('\x27' :: ·) id)
  | '\x27' :: t => some ([], t)
  | c :: t => (readSql t).map (Prod.map (c :: ·) id)

/-- **An SQL literal with the escape denotes the value**, and ends behind it. -/
theorem readSql_escapeFor :
    ∀ v : Text, readSql (escapeFor v "sql_literal" ++ ['\x27']) = some (v, [])
  | [] => rfl
  | c :: v => by
    have ih := readSql_escapeFor v
    have hescape : ∀ u, escapeFor u "sql_literal" = replace ['\x27'] ['\x27', '\x27'] u :=
      fun _ => rfl
    rw [hescape, Lib.replace_singleton] at ih ⊢
    rw [flatMap_cons]
    by_cases hc : c = '\x27'
    · subst hc
      rw [if_pos rfl]
      simp only [cons_append, nil_append, readSql, ih]
      rfl
    rw [if_neg hc, cons_append, cons_append, nil_append, readSql, ih]
    · rfl
    · exact fun _ h => absurd h hc
    · exact fun h => absurd h hc

/-! ## JSON literals -/

def JsonDenotes (t : Text) (v : Text) : Prop :=
  ∃ s : JsonText.Str, t = JsonText.quoted s ∧ JsonText.decode s = some v

theorem char_eq_lowerHex : ∀ n : Fin 16,
    JsonText.HexDigit.char (n.castLE (by decide)) = lowerHex n := by
  decide

theorem element_of_control {c : Char} (h : c.toNat < 0x20) :
    ∃ x : JsonText.StrChar, x.text = ['\\', 'u', lowerHex 0, lowerHex 0, lowerHex (c.toNat / 16),
        lowerHex (c.toNat % 16)] ∧
      ∀ s, JsonText.decode (x :: s) = (JsonText.decode s).map (c :: ·) := by
  have hhigh : c.toNat / 16 < 16 := by omega
  have hlow : c.toNat % 16 < 16 := by omega
  refine ⟨.unicode 0 0 (Fin.castLE (by decide) ⟨_, hhigh⟩) (Fin.castLE (by decide) ⟨_, hlow⟩), ?_,
    fun s => ?_⟩
  · simp only [JsonText.StrChar.text, List.map, char_eq_lowerHex]
    rfl
  have hunit : JsonText.unit 0 0 (Fin.castLE (by decide) ⟨_, hhigh⟩)
      (Fin.castLE (by decide) ⟨_, hlow⟩) = c.toNat := by
    simp only [JsonText.unit, JsonText.HexDigit.value, Fin.val_castLE]
    simp [hhigh, hlow]
    omega
  have hvalid : c.toNat.isValidChar := c.valid
  have hchar : JsonText.charOf c.toNat = some c := by
    rw [JsonText.charOf, dif_pos hvalid]
    rfl
  rw [JsonText.decode]
  rw [hunit, hchar]

theorem ne_of_find_none {c : Char}
    (h : (letterEscapes.find? fun e => e.char == c) = none) : c ≠ '"' ∧ c ≠ '\\' := by
  have hall := find?_eq_none.mp h
  constructor
  · rintro rfl
    exact hall .quote (by decide) rfl
  · rintro rfl
    exact hall .backslash (by decide) rfl

theorem element_of_char (c : Char) :
    ∃ x : JsonText.StrChar, x.text = escapeJsonChar c ∧
      ∀ s, decode (x :: s) = (decode s).map (c :: ·) := by
  unfold escapeJsonChar
  cases hfind : letterEscapes.find? fun e => e.char == c with
  | some e =>
    have hchar : e.char = c := by simpa using find?_some hfind
    exact ⟨.escape e, rfl, fun s => hchar ▸ rfl⟩
  | none =>
    obtain ⟨hquote, hbackslash⟩ := ne_of_find_none hfind
    by_cases hcontrol : c.toNat < 0x20
    · simp only [if_pos hcontrol]
      exact element_of_control hcontrol
    have hplain : isPlain c = true := by
      simp [isPlain, hquote, hbackslash, not_lt.mp hcontrol]
    simp only [if_neg hcontrol]
    exact ⟨.plain c hplain, rfl, fun s => rfl⟩

theorem str_of_value (v : Text) :
    ∃ s : JsonText.Str, raw s = escapeJson v ∧ decode s = some v := by
  induction v with
  | nil => exact ⟨[], rfl, rfl⟩
  | cons c v ih =>
    obtain ⟨s, hraw, hdecode⟩ := ih
    obtain ⟨x, htext, hx⟩ := element_of_char c
    refine ⟨x :: s, ?_, ?_⟩
    · rw [raw_cons, htext, hraw]
      rfl
    · rw [hx, hdecode]
      rfl

theorem head_escapeJsonChar (c : Char) : ∃ d t, escapeJsonChar c = d :: t ∧ d ≠ '"' := by
  unfold escapeJsonChar
  cases hfind : letterEscapes.find? fun e => e.char == c with
  | some e => exact ⟨_, _, rfl, by decide⟩
  | none =>
    by_cases hcontrol : c.toNat < 0x20
    · exact ⟨_, _, if_pos hcontrol, by decide⟩
    · exact ⟨_, _, if_neg hcontrol, (ne_of_find_none hfind).1⟩

theorem lowerHex_ne : ∀ n : Fin 16, lowerHex n ≠ '"' := by
  decide

theorem getLast_escapeJsonChar {c : Char} (h : c ≠ '"') :
    (escapeJsonChar c).getLast? ≠ some '"' := by
  unfold escapeJsonChar
  cases hfind : letterEscapes.find? fun e => e.char == c with
  | some e =>
    have hchar : e.char = c := by simpa using find?_some hfind
    have hletter : e.letter ≠ '"' := by
      intro hletter
      have : e = .quote := JsonText.Escape.letter_injective hletter
      subst this
      exact h hchar.symm
    simpa using hletter
  | none =>
    by_cases hcontrol : c.toNat < 0x20
    · have hlow : c.toNat % 16 < 16 := by omega
      simpa only [if_pos hcontrol, getLast?_cons_cons, getLast?_singleton, ne_eq,
        Option.some.injEq] using lowerHex_ne ⟨_, hlow⟩
    · simpa only [if_neg hcontrol, getLast?_singleton, ne_eq, Option.some.injEq] using h

theorem head_escapeJson (v : Text) : (escapeJson v).head? ≠ some '"' := by
  cases v with
  | nil => simp [escapeJson]
  | cons c v =>
    obtain ⟨d, t, heq, hd⟩ := head_escapeJsonChar c
    simpa [escapeJson, heq] using hd

theorem escapeJson_concat (v : Text) (c : Char) :
    escapeJson (v ++ [c]) = escapeJson v ++ escapeJsonChar c := by
  simp [escapeJson]

theorem trimBoth_of_ends {t q : Text} (hhead : t.head? ≠ some '"')
    (hlast : t.getLast? ≠ some '"') (hq : ∀ c ∈ q, (c == '"') = true) :
    trimBoth '"' ('"' :: (t ++ q)) = t := by
  have hright : (t ++ q).rdropWhile (· == '"') = t := by
    have hstop : t.reverse.dropWhile (· == '"') = t.reverse := by
      rw [← head?_reverse] at hlast
      cases hrev : t.reverse with
      | nil => rfl
      | cons c u =>
        rw [hrev] at hlast
        exact dropWhile_cons_of_neg (by simpa using hlast)
    rw [List.rdropWhile, reverse_append,
      dropWhile_append_of_pos fun c hc => hq c (mem_reverse.mp hc), hstop,
      reverse_reverse]
  rw [trimBoth, dropWhile_cons_of_pos (by decide)]
  cases t with
  | nil => rw [nil_append, dropWhile_eq_nil_iff.mpr hq, rdropWhile_nil]
  | cons c t =>
    rwa [cons_append, dropWhile_cons_of_neg (by simpa using hhead), ← cons_append]

theorem escapeFor_json {v : Text} (h : v.getLast? ≠ some '"') :
    escapeFor v "json" = escapeJson v := by
  refine trimBoth_of_ends (q := ['"']) (head_escapeJson v) ?_ (by simp)
  rcases eq_nil_or_concat' v with rfl | ⟨w, c, rfl⟩
  · decide
  rw [escapeJson_concat, getLast?_append]
  have hc := getLast_escapeJsonChar (c := c) (by simpa using h)
  obtain ⟨d, t, heq, -⟩ := head_escapeJsonChar c
  rwa [heq, getLast?_cons, Option.some_or, ← getLast?_cons, ← heq]

theorem escapeFor_json_quote (w : Text) :
    escapeFor (w ++ ['"']) "json" = escapeJson w ++ ['\\'] := by
  have htext : jsonbText (w ++ ['"']) = '"' :: ((escapeJson w ++ ['\\']) ++ ['"', '"']) := by
    have hquote : escapeJsonChar '"' = ['\\', '"'] := rfl
    rw [jsonbText, escapeJson_concat, hquote]
    simp
  have hhead : (escapeJson w ++ ['\\']).head? ≠ some '"' := by
    cases hw : escapeJson w with
    | nil => decide
    | cons c t => simpa [hw] using head_escapeJson w
  show trimBoth '"' (jsonbText (w ++ ['"'])) = _
  rw [htext]
  exact trimBoth_of_ends hhead (by simp) (by simp)

theorem jsonDenotes_of_no_quote {v : Text} (h : v.getLast? ≠ some '"') :
    JsonDenotes ('"' :: (escapeFor v "json" ++ ['"'])) v := by
  obtain ⟨s, hraw, hdecode⟩ := str_of_value v
  refine ⟨s, ?_, hdecode⟩
  rw [escapeFor_json h, ← hraw]
  rfl

theorem not_jsonDenotes_of_quote (w v : Text) :
    ¬ JsonDenotes ('"' :: (escapeFor (w ++ ['"']) "json" ++ ['"'])) v := by
  rintro ⟨s, heq, -⟩
  obtain ⟨u, hu, -⟩ := str_of_value w
  have hraw : JsonText.raw s = JsonText.raw u ++ ['\\'] := by
    rw [hu, ← escapeFor_json_quote]
    exact (append_cancel_right (List.cons.inj heq).2).symm
  obtain ⟨x, -, hx⟩ := JsonText.raw_append hraw
  cases x with
  | nil => cases hx
  | cons e x => cases e with
    | plain c ok =>
      obtain ⟨rfl, -⟩ := List.cons.inj hx
      cases ok
    | escape e => cases (List.cons.inj hx).2
    | unicode a b c d => cases (List.cons.inj hx).2

/-- Both literals with the escape of a value denote that value. -/
structure EscapesExactly (v : Text) : Prop where
  json : JsonDenotes ('"' :: (escapeFor v "json" ++ ['"'])) v
  sqlLiteral : readSql (escapeFor v "sql_literal" ++ ['\x27']) = some (v, [])

/-- **The escapes are exact if and only if the value does not end with a quote.** -/
theorem escapesExactly_iff (v : Text) : EscapesExactly v ↔ v.getLast? ≠ some '"' := by
  constructor
  · rintro ⟨hjson, -⟩ hlast
    obtain ⟨w, rfl⟩ := getLast?_eq_some_iff.mp hlast
    exact not_jsonDenotes_of_quote w _ hjson
  · intro hlast
    exact ⟨jsonDenotes_of_no_quote hlast, readSql_escapeFor v⟩

/-- **A value that ends with a quote leaves its JSON literal open.** -/
theorem escape_leaves_open : ¬ EscapesExactly "say \"hi\"".toList :=
  fun h => not_jsonDenotes_of_quote "say \"hi".toList _ h.json

end MaluDb.Prompt
