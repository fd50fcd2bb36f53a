import Mathlib.Data.List.ReduceOption
import MaluDb.Lib.Except
import MaluDb.Prompt.Escape

/-!
# Binding variables to a prompt

`_coerce_variable` and `_validate_bind_variables`.

* A template declares its variables in `malu$prompt_variable` (`bindTyped`), or only by the keys of
  its own `variables`; then everything supplied is bound (`bindLegacy`).
* Notices and `strict`, which nothing reads, are not modelled. The order of keys does not matter.
-/

namespace MaluDb.Prompt

open MaluDb.Lib

/-! ## Declarations and options -/

/-- A value of `jsonb`, with its text where that is not a string. -/
inductive Jsonb where
  | null
  | string (s : Text)
  | boolean (b : Bool)
  | number (t : Text)
  | array (t : Text)
  | object (t : Text)

/-- `jsonb_typeof`. -/
def Jsonb.typeof : Jsonb → String
  | .null => "null"
  | .string _ => "string"
  | .boolean _ => "boolean"
  | .number _ => "number"
  | .array _ => "array"
  | .object _ => "object"

/-- The cast to `text`. -/
def Jsonb.text : Jsonb → Text
  | .null => "null".toList
  | .string s => jsonbText s
  | .boolean b => (if b then "true" else "false").toList
  | .number t => t
  | .array t => t
  | .object t => t

/-- `#>> '{}'` of a value that is not null: a string without its quotes. -/
def Jsonb.unquoted : Jsonb → Text
  | .string s => s
  | j => j.text

inductive VariableType where
  | text
  | integer
  | number
  | boolean
  | json
  | enum (values : List Text) (ne : values ≠ [])

structure PromptVariable where
  variableName : Text
  variableType : VariableType
  required : Bool
  defaultValue : Option Text
  validationRule : Option Text
  maxLength : Option ℤ

/-- What is declared for a template: its rows, each name once, and the keys of its `variables`. -/
structure Declared where
  typed : List PromptVariable
  legacy : List Text
  distinct : (typed.map PromptVariable.variableName).Nodup

/-- `malu$bind_options`. -/
structure BindOptions where
  onMissingVariable : Option String
  onExtraVariable : Option String
  nullHandling : Option String
  maxVariableChars : Option ℤ
  maxRenderedPromptChars : Option ℤ
  onTruncate : Option String
  escapeMode : Option String

/-- `_default_bind_options`. -/
def defaultBindOptions : BindOptions where
  onMissingVariable := "error"
  onExtraVariable := "warn"
  nullHandling := "null_literal"
  maxVariableChars := none
  maxRenderedPromptChars := none
  onTruncate := "error"
  escapeMode := "none"

/-- Casts by way of text, and `~`; each may raise with a message. -/
structure Engine where
  bigint : Text → Except Text Text
  numeric : Text → Except Text Text
  boolean : Text → Except Text Text
  isMatch : Text → Text → Except Text Bool

/-! ## Errors -/

def arrayElement (t : Text) : Text :=
  if t = [] ∨ t.map Char.toLower = "null".toList ∨
      t.any (fun c => c.isWhitespace || "\x7b\x7d,\"\\".toList.contains c) then
    '"' :: (t.flatMap fun c => if c = '"' ∨ c = '\\' then ['\\', c] else [c]) ++ ['"']
  else t

def arrayText (ts : List Text) : Text :=
  "\x7b".toList ++ [','].intercalate (ts.map arrayElement) ++ "\x7d".toList

inductive BindError where
  | badInput (typeof : String)
  | requiredMissing (name : Text)
  | badOption (option value : String)
  | nullRejected (name : Text)
  | caseNotFound
  | typeMismatch (name : Text) (expects : String) (typeof : String)
  | enumViolation (name text : Text) (values : List Text)
  | lengthViolation (name : Text) (length : ℕ) (limit : ℤ)
  | validationFailed (name text rule : Text)
  | undeclaredVariables (keys : List Text)
  | renderTooLarge (total : ℕ) (cap : ℤ)
  | raised (message : Text)

def BindError.message : BindError → String
  | .badInput typeof => "BIND_BAD_INPUT: variables must be a JSON object, got " ++ typeof
  | .requiredMissing name =>
    "BIND_REQUIRED_MISSING: variable " ++ String.ofList name ++ " not supplied"
  | .badOption option value => "BIND_BAD_OPTION: " ++ option ++ "=" ++ value
  | .nullRejected name => "BIND_NULL_REJECTED: variable " ++ String.ofList name ++ " was null"
  | .caseNotFound => "case not found"
  | .typeMismatch name expects typeof =>
    "BIND_TYPE_MISMATCH: variable " ++ String.ofList name ++ expects ++ ", got " ++ typeof
  | .enumViolation name text values =>
    "BIND_ENUM_VIOLATION: variable " ++ String.ofList name ++ "=" ++ String.ofList text ++
      " not in allowed set " ++ String.ofList (arrayText values)
  | .lengthViolation name length limit =>
    "BIND_LENGTH_VIOLATION: variable " ++ String.ofList name ++
      s!" length {length} exceeds limit {limit}"
  | .validationFailed name text rule =>
    "BIND_VALIDATION_FAILED: variable " ++ String.ofList name ++ "=" ++ String.ofList text ++
      " does not match rule " ++ String.ofList rule
  | .undeclaredVariables keys =>
    "BIND_UNDECLARED_VARIABLES: " ++ String.ofList (arrayText keys)
  | .renderTooLarge total cap =>
    s!"BIND_RENDER_TOO_LARGE: variables sum {total} chars exceeds cap {cap}"
  | .raised message => String.ofList message

/-! ## `_coerce_variable` -/

def coerceScalar (name : Text) (type : String) (kinds : List String)
    (cast : Text → Except Text Text) (raw : Jsonb) : Except BindError Text :=
  if raw.typeof ∈ kinds then (cast raw.unquoted).mapError .raised
  else .error (.typeMismatch name (" expects " ++ type) raw.typeof)

section

variable (opts : BindOptions) (E : Engine) (S : Server)

section

variable (var : PromptVariable) (opts : BindOptions) (t : Text) (raw : Jsonb)

def coerceType : Except BindError Text :=
  match var.variableType with
  | .text => .ok raw.unquoted
  | .integer => coerceScalar var.variableName "integer" ["number", "string"] E.bigint raw
  | .number => coerceScalar var.variableName "number" ["number", "string"] E.numeric raw
  | .boolean => coerceScalar var.variableName "boolean" ["boolean", "string"] E.boolean raw
  | .json => .ok raw.text
  | .enum values _ =>
    if raw.typeof ≠ "string" then
      .error (.typeMismatch var.variableName " (enum) expects string" raw.typeof)
    else if raw.unquoted ∈ values then .ok raw.unquoted
    else .error (.enumViolation var.variableName raw.unquoted values)

def left (n : ℤ) : Text := t.take (if 0 ≤ n then n.toNat else t.length - n.natAbs)

def checkLength : Except BindError Text :=
  match var.maxLength <|> opts.maxVariableChars with
  | none => .ok t
  | some limit =>
    if limit < t.length then
      if opts.onTruncate.getD "error" = "truncate_with_notice" then .ok (left t limit)
      else .error (.lengthViolation var.variableName t.length limit)
    else .ok t

def VariableType.isRuled : VariableType → Bool
  | .text => true
  | .enum _ _ => true
  | _ => false

def checkRule : Except BindError Text :=
  match var.validationRule with
  | none => .ok t
  | some rule =>
    if var.variableType.isRuled then do
      let ok ← (E.isMatch t rule).mapError .raised
      if ok then .ok t else .error (.validationFailed var.variableName t rule)
    else .ok t

/-- `_coerce_variable`, for a value that is not null. -/
def coerceVariable : Except BindError Text :=
  coerceType E var raw >>= checkLength var opts >>= checkRule E var

end

/-! ## `_validate_bind_variables` -/

/-- The text for a null; `otherwise` is raised for an option that is not known. -/
def bindNull (name : Text) (opts : BindOptions) (otherwise : BindError) : Except BindError Text :=
  match opts.nullHandling.getD "null_literal" with
  | "null_literal" => .ok "null".toList
  | "empty" => .ok []
  | "error" => .error (.nullRejected name)
  | _ => .error otherwise

def bindMissing (var : PromptVariable) (opts : BindOptions) : Except BindError (Option Text) :=
  if var.required then
    match opts.onMissingVariable.getD "error" with
    | "error" => .error (.requiredMissing var.variableName)
    | "blank" => .ok (some [])
    | "preserve" => .ok none
    | value => .error (.badOption "on_missing_variable" value)
  else .ok none

def bindTyped (opts : BindOptions) (var : PromptVariable) :
    Option Jsonb → Except BindError (Option Text)
  | none =>
    match var.defaultValue with
    | some value => .ok (some (escapeFor value opts.escapeMode))
    | none => bindMissing var opts
  | some .null =>
    (bindNull var.variableName opts (.badOption "null_handling"
      (opts.nullHandling.getD ""))).map some
  | some raw => (coerceVariable E var opts raw).map fun t => some (escapeFor t opts.escapeMode)

def bindLegacy (name : Text) : Jsonb → Except BindError Text
  | .null => bindNull name opts .caseNotFound
  | raw => .ok (escapeFor raw.unquoted opts.escapeMode)

def bindVariables (E : Engine) (d : Declared) (opts : BindOptions) (vars : List (Text × Jsonb)) :
    Except BindError (List (Text × Text)) :=
  if d.typed ≠ [] then
    ((d.typed.insertionSort fun a b => S.le a.variableName b.variableName = true).mapM fun var =>
      (bindTyped E opts var (vars.lookup var.variableName)).map
        (Option.map (var.variableName, ·))).map List.reduceOption
  else vars.mapM fun (name, raw) => (bindLegacy opts name raw).map (name, ·)

def extraKeys (d : Declared) (vars : List (Text × Jsonb)) : List Text :=
  let declared := if d.typed ≠ [] then d.typed.map PromptVariable.variableName else d.legacy
  if declared = [] then []
  else ((vars.map Prod.fst).filter fun k => k ∉ declared).insertionSort fun a b => S.le a b = true

inductive BindStatus where
  | ok
  | warned
  deriving DecidableEq

/-- `malu$bind_validation`. -/
structure BindValidation where
  status : BindStatus
  normalizedVariables : List (Text × Text)
  declaredCount : ℕ
  suppliedCount : ℕ
  warnings : List Text

def checkExtra (extra : List Text) : Except BindError (List Text) :=
  if extra = [] then .ok []
  else
    match opts.onExtraVariable.getD "warn" with
    | "error" => .error (.undeclaredVariables extra)
    | "warn" => .ok ["undeclared variables: ".toList ++ arrayText extra]
    | "ignore" => .ok []
    | value => .error (.badOption "on_extra_variable" value)

def checkTotal (bound : List (Text × Text)) : Except BindError (List Text) :=
  match opts.maxRenderedPromptChars with
  | none => .ok []
  | some cap =>
    let total : ℕ := bound.foldl (fun n var => n + var.2.length) 0
    if cap < total then
      if opts.onTruncate.getD "error" = "error" then .error (.renderTooLarge total cap)
      else .ok [s!"variables sum {total} chars (cap {cap}); bind path will truncate".toList]
    else .ok []

inductive Supplied where
  | object (vars : List (Text × Jsonb)) (distinct : (vars.map Prod.fst).Nodup)
  | other (typeof : String)

def validateBindVariables (E : Engine) (d : Declared) (vars : Option Supplied)
    (opts : Option BindOptions) : Except BindError BindValidation :=
  let opts := opts.getD defaultBindOptions
  match vars.getD (.object [] List.nodup_nil) with
  | .other typeof => .error (.badInput typeof)
  | .object vars _ => do
    let bound ← bindVariables S E d opts vars
    let extraWarnings ← checkExtra opts (extraKeys S d vars)
    let totalWarnings ← checkTotal opts bound
    let warnings := extraWarnings ++ totalWarnings
    return {
      status := if warnings = [] then .ok else .warned
      normalizedVariables := bound
      declaredCount := if d.typed ≠ [] then d.typed.length else d.legacy.length
      suppliedCount := vars.length
      warnings := warnings }

end

end MaluDb.Prompt
