import Mathlib.Data.List.Sort
import MaluDb.Lib.Regexp

/-!
# Rendering a prompt

`_render_compose`, `_render_substitute` and `_render_core`.

* `renderSubstitute` goes through the variables in the order of their keys. For each one it replaces
  the key in double braces, and then, in the text that this gives, the key behind a colon where a
  word ends, by a regular expression made of the key.
* The functions of SQL used here are NULL (`none`) for a NULL argument. The cast of a `text` to
  `bytea` reads backslashes as escapes (`byteaIn`), so it fails for some texts.
-/

namespace MaluDb.Prompt

open MaluDb.Lib

abbrev Text := List Char

/-- What depends on the server: the order of texts, the characters of words, and SHA-256 as
hexadecimal digits. -/
structure Server where
  le : Text → Text → Bool
  isWord : Char → Bool
  sha256 : List UInt8 → Text
  le_total : ∀ a b, le a b = true ∨ le b a = true
  le_trans : ∀ a b c, le a b = true → le b c = true → le a c = true
  le_antisymm : ∀ a b, le a b = true → le b a = true → a = b

def codePointLe : Text → Text → Bool
  | [], _ => true
  | _ :: _, [] => false
  | a :: s, b :: t => decide (a.toNat < b.toNat) || (decide (a = b) && codePointLe s t)

theorem codePointLe_cons {a b : Char} {s t : Text} :
    codePointLe (a :: s) (b :: t) = true ↔ a.toNat < b.toNat ∨ a = b ∧ codePointLe s t = true := by
  simp [codePointLe]

theorem codePointLe_total : ∀ s t, codePointLe s t = true ∨ codePointLe t s = true
  | [], _ => .inl (by simp [codePointLe])
  | _ :: _, [] => .inr (by simp [codePointLe])
  | a :: s, b :: t => by
    rw [codePointLe_cons, codePointLe_cons]
    rcases lt_trichotomy a.toNat b.toNat with h | h | h
    · exact .inl (.inl h)
    · have heq : a = b := Char.toNat_inj.mp h
      exact (codePointLe_total s t).imp (fun h => .inr ⟨heq, h⟩) fun h => .inr ⟨heq.symm, h⟩
    · exact .inr (.inl h)

theorem codePointLe_trans : ∀ s t u, codePointLe s t = true → codePointLe t u = true →
    codePointLe s u = true
  | [], _, _, _, _ => by simp [codePointLe]
  | _ :: _, [], _, h, _ => absurd h (by simp [codePointLe])
  | _ :: _, _ :: _, [], _, h => absurd h (by simp [codePointLe])
  | a :: s, b :: t, c :: u, h, h' => by
    rw [codePointLe_cons] at h h' ⊢
    rcases h with h | ⟨rfl, h⟩
    · rcases h' with h' | ⟨rfl, -⟩
      · exact .inl (h.trans h')
      · exact .inl h
    · exact h'.imp_right fun ⟨heq, h'⟩ => ⟨heq, codePointLe_trans s t u h h'⟩

theorem codePointLe_antisymm : ∀ s t, codePointLe s t = true → codePointLe t s = true → s = t
  | [], [], _, _ => rfl
  | [], _ :: _, _, h => absurd h (by simp [codePointLe])
  | _ :: _, [], h, _ => absurd h (by simp [codePointLe])
  | a :: s, b :: t, h, h' => by
    rw [codePointLe_cons] at h h'
    rcases h with h | ⟨rfl, h⟩
    · rcases h' with h' | ⟨rfl, -⟩
      · omega
      · omega
    · rcases h' with h' | ⟨-, h'⟩
      · omega
      · rw [codePointLe_antisymm s t h h']

/-- A server that orders texts by code points, with letters, digits and the underscore for words,
and a constant for the hash. -/
def plainServer : Server where
  le := codePointLe
  isWord c := c.isAlphanum || c = '_'
  sha256 _ := []
  le_total := codePointLe_total
  le_trans := codePointLe_trans
  le_antisymm := codePointLe_antisymm

/-! ## Templates -/

structure Template where
  templateId : ℕ
  templateName : Text
  templateVersion : ℤ
  body : Text
  systemTemplate : Option Text
  developerTemplate : Option Text
  userTemplate : Option Text
  enabled : Bool

section

variable (S : Server) (sep key : Text)

/-- `concat_ws`: the texts that are not NULL, with a separator between them. -/
def concatWs (texts : List (Option Text)) : Text :=
  sep.intercalate (texts.filterMap id)

/-- `_render_compose`. -/
def renderCompose (t : Template) : Text :=
  if t.systemTemplate.isSome || t.developerTemplate.isSome || t.userTemplate.isSome then
    concatWs "\n\n".toList
      [t.systemTemplate.map ("SYSTEM:\n".toList ++ ·),
        t.developerTemplate.map ("DEVELOPER:\n".toList ++ ·),
        t.userTemplate.map ("USER:\n".toList ++ ·)]
  else t.body

/-! ## Variables -/

/-- An object of variables: each key once, with its value as `jsonb_each_text` gives it. -/
structure Variables where
  entries : List (Text × Option Text)
  distinct : (entries.map Prod.fst).Nodup

def Variables.empty : Variables := ⟨[], List.nodup_nil⟩

/-- The object without a key. -/
def Variables.erase (vars : Variables) (key : Text) : Variables where
  entries := vars.entries.filter fun var => var.1 != key
  distinct := vars.distinct.sublist (List.filter_sublist.map Prod.fst)

/-- `SELECT key, value FROM jsonb_each_text(…) ORDER BY key`. -/
def eachText (vars : Variables) : List (Text × Option Text) :=
  vars.entries.insertionSort fun a b => S.le a.1 b.1 = true

def braced : Text := "\x7b\x7b".toList ++ key ++ "\x7d\x7d".toList

/-- The loop's body in `_render_substitute`. -/
def substitute (text : Option Text) (var : Text × Option Text) : Option Text := do
  let text ← text
  let value ← var.2
  let text := replace (braced var.1) value text
  regexpReplace S.isWord text (':' :: regexpQuote var.1 ++ ['\\', 'M'])
    (replace ['\\'] ['\\', '\\'] value)

def renderSubstitute (text : Text) (vars : Option Variables) : Option Text :=
  (eachText S (vars.getD .empty)).foldl (substitute S) (some text)

/-! ## Hashes -/

/-- Why a text cannot be cast to `bytea`. -/
inductive BadBytea where
  | invalidSyntax
  | invalidDigit (c : Char)
  | oddDigits
  deriving DecidableEq

def BadBytea.message : BadBytea → String
  | .invalidSyntax => "invalid input syntax for type bytea"
  | .invalidDigit c => "invalid hexadecimal digit: \"" ++ String.singleton c ++ "\""
  | .oddDigits => "invalid hexadecimal data: odd number of digits"

def hexValue (c : Char) : Option ℕ :=
  if '0' ≤ c ∧ c ≤ '9' then some (c.toNat - '0'.toNat)
  else if 'a' ≤ c ∧ c ≤ 'f' then some (c.toNat - 'a'.toNat + 10)
  else if 'A' ≤ c ∧ c ≤ 'F' then some (c.toNat - 'A'.toNat + 10)
  else none

def hexDigit (c : Char) : Except BadBytea ℕ :=
  match hexValue c with
  | none => .error (.invalidDigit c)
  | some d => .ok d

def isBlank (c : Char) : Bool := c = ' ' || c = '\n' || c = '\t' || c = '\r'

def hexDecode : Text → Except BadBytea (List UInt8)
  | [] => .ok []
  | [c] => if isBlank c then .ok [] else hexDigit c >>= fun _ => .error .oddDigits
  | c :: d :: t =>
    if isBlank c then hexDecode (d :: t)
    else do
      let high ← hexDigit c
      let low ← hexDigit d
      let bytes ← hexDecode t
      return UInt8.ofNat (high * 16 + low) :: bytes

/-- Bytes, with `\\` for a backslash and `\` with three octal digits for any byte. -/
def escapeDecode : Text → Except BadBytea (List UInt8)
  | [] => .ok []
  | '\\' :: '\\' :: t => (UInt8.ofNat '\\'.toNat :: ·) <$> escapeDecode t
  | '\\' :: a :: b :: c :: t =>
    if ('0' ≤ a ∧ a ≤ '3') ∧ ('0' ≤ b ∧ b ≤ '7') ∧ ('0' ≤ c ∧ c ≤ '7') then
      (UInt8.ofNat ((a.toNat - '0'.toNat) * 64 + (b.toNat - '0'.toNat) * 8
        + (c.toNat - '0'.toNat)) :: ·) <$> escapeDecode t
    else .error .invalidSyntax
  | '\\' :: _ => .error .invalidSyntax
  | c :: t => (String.utf8EncodeChar c ++ ·) <$> escapeDecode t

/-- The cast of a `text` to `bytea`. -/
def byteaIn : Text → Except BadBytea (List UInt8)
  | '\\' :: 'x' :: t => hexDecode t
  | t => escapeDecode t

/-- `encode(sha256(text::bytea), 'hex')`. -/
def hashText : Option Text → Except BadBytea (Option Text)
  | none => .ok none
  | some t => (fun bytes => some (S.sha256 bytes)) <$> byteaIn t

/-! ## The pipeline -/

/-- A row of `malu$session_context`, with the text of its `content_jsonb`. One of the two contents
is there. -/
structure ContextBlock where
  sessionId : ℕ
  ordinal : ℕ
  role : Option Text
  contentText : Option Text
  contentJsonb : Option Text
  contentHash : Text
  stored : (contentText <|> contentJsonb).isSome = true

def ContextBlock.line (b : ContextBlock) : Text :=
  b.role.getD [] ++ ": ".toList ++ (b.contentText <|> b.contentJsonb).get b.stored

/-- `string_agg`: NULL without rows. -/
def stringAgg (rows : List Text) : Option Text :=
  if rows = [] then none else some (sep.intercalate rows)

structure Tables where
  sessions : List ℕ
  templates : List Template
  contexts : List ContextBlock

variable (db : Tables)

def Tables.template? (name : Text) : Option ℤ → Option Template
  | none =>
    ((db.templates.filter fun t => t.templateName = name ∧ t.enabled = true).insertionSort
      fun a b => b.templateVersion ≤ a.templateVersion).head?
  | some version =>
    db.templates.find? fun t => t.templateName = name ∧ t.templateVersion = version

def Tables.context (session : ℕ) : List ContextBlock :=
  (db.contexts.filter (·.sessionId = session)).insertionSort
    fun a b => a.ordinal ≤ b.ordinal

def Tables.appended (session : ℕ) : Text :=
  ((stringAgg "\n".toList ((db.context session).map ContextBlock.line)).map
    ("\n\n".toList ++ ·)).getD []

inductive RenderError where
  | unknownSession (session : ℕ)
  | unknownTemplate (name : Text) (version : Option ℤ)
  | badBytea (e : BadBytea)
  deriving DecidableEq

def RenderError.message : RenderError → String
  | .unknownSession session => s!"unknown session: {session}"
  | .unknownTemplate name version =>
    "unknown prompt template: " ++ String.ofList name ++ " (version " ++
      (version.map toString).getD "latest" ++ ")"
  | .badBytea e => e.message

/-- The result of `_render_core`. -/
structure Rendered where
  templateId : ℕ
  renderedPrompt : Option Text
  promptHash : Option Text
  contextHash : Option Text
  contextBlockCount : ℕ
  deriving DecidableEq

/-- `_render_core` for a template, from the substituted text on. -/
def finish (session : ℕ) (t : Template) (body : Option Text) :
    Except RenderError Rendered := do
  let blocks := db.context session
  let contextHash ← (hashText S (stringAgg ['|'] (blocks.map ContextBlock.contentHash))).mapError
    .badBytea
  let renderedPrompt := body.map (· ++ db.appended session)
  let promptHash ← (hashText S renderedPrompt).mapError .badBytea
  return ⟨t.templateId, renderedPrompt, promptHash, contextHash, blocks.length⟩

def renderCore (session : ℕ) (name : Text) (version : Option ℤ) (vars : Option Variables) :
    Except RenderError Rendered :=
  if session ∈ db.sessions then
    match db.template? name version with
    | none => .error (.unknownTemplate name version)
    | some t => finish S db session t (renderSubstitute S (renderCompose t) (vars.getD .empty))
  else .error (.unknownSession session)

end

end MaluDb.Prompt
