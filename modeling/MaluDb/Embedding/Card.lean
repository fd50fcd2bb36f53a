import Mathlib.Data.List.DropRight
import Mathlib.Data.List.Sort
import MaluDb.Lib.Record

/-!
# Entity cards

The texts that subjects, verbs and statements are embedded by: `embedding_card` and the three
functions it calls. Timestamps, numbers and jsonb values are the texts printed for them. `Env` has
what the cards read from other tables and from the server.
-/

namespace MaluDb.Embedding

open MaluDb.Lib

/-! ## Tables -/

inductive Obj where
  | subject (id : ℕ)
  | verb (id : ℕ)
  | statement (id : ℕ)
  deriving DecidableEq

def Obj.kind : Obj → String
  | .subject _ => "subject"
  | .verb _ => "verb"
  | .statement _ => "svpor_statement"

def Obj.id : Obj → ℕ
  | .subject id => id
  | .verb id => id
  | .statement id => id

/-- What a statement is about. -/
inductive Endpoint where
  | subject (id : ℕ)
  | verb (id : ℕ)
  | other (kind : String) (id : ℕ)
  deriving DecidableEq

/-- `kind || '#' || id`. -/
def Endpoint.name : Endpoint → String
  | .subject id => s!"subject#{id}"
  | .verb id => s!"verb#{id}"
  | .other kind id => s!"{kind}#{id}"

/-- The columns of `malu$svpor_subject`. -/
structure Subject where
  canonicalName : String
  subjectType : String
  aliases : List String
  description : Option String
  deriving DecidableEq

/-- The columns of `malu$svpor_verb`. -/
structure Verb where
  canonicalName : String
  verbType : Option String
  aliases : List String
  description : Option String
  deriving DecidableEq

/-- The columns of `malu$svpor_statement`; `sourceSpan` is `metadata_jsonb ->> 'source_span'`. -/
structure Statement where
  subject : Endpoint
  verbId : ℕ
  object : Endpoint
  validFrom : Option String
  validTo : Option String
  sourceSpan : Option String
  deriving DecidableEq

/-- The columns of `malu$svpor_attribute`. The target is `none` if it is of another kind. -/
structure Attribute where
  target : Option Obj
  attrName : String
  valueTimestamp : Option String
  valueRange : Option (Option String × Option String)
  valueNumeric : Option String
  valueText : Option String
  valueJsonb : Option String
  refKey : Option String
  unit : Option String
  deriving DecidableEq

/-- The tables. -/
structure Data where
  subjects : Records Subject
  verbs : Records Verb
  statements : Records Statement
  attributes : Records Attribute

structure Env where
  label : String → ℕ → Option String
  occurred : ℕ → Option (Option String × Option String)
  nameLe : String → String → Bool
  sha256 : String → String
  schema : String

/-! ## Texts -/

/-- `btrim`. -/
def btrim (s : String) : String :=
  String.ofList ((s.toList.dropWhile (· = ' ')).rdropWhile (· = ' '))

/-- `NULLIF(btrim(COALESCE(x, '')), '')`. -/
def nonBlank (x : Option String) : Option String :=
  let t := btrim (x.getD "")
  if t = "" then none else some t

/-- A line of `_attribute_lines_text`. -/
def attributeLine (a : Attribute) : String :=
  let range := a.valueRange.map fun (lower, upper) =>
    "[" ++ lower.getD "" ++ " .. " ++ upper.getD "" ++ ")"
  let value := (((((a.valueTimestamp.or range).or a.valueNumeric).or a.valueText).or
    a.valueJsonb).or a.refKey).getD ""
  a.attrName ++ ": " ++ value ++ (a.unit.map (" " ++ ·)).getD ""

def Data.attributesOf (data : Data) (obj : Obj) : List Attribute :=
  (data.attributes.rows.filter (·.fields.target == some obj)).map Row.fields

section

variable (env : Env)

/-- `_attribute_lines_text`: NULL if there are no attributes. -/
def attributeLinesText (attributes : List Attribute) : Option String :=
  if attributes = [] then none
  else some ("\n".intercalate ((attributes.insertionSort fun a b =>
    env.nameLe a.attrName b.attrName = true).map attributeLine))

def aliasesText (aliases : List String) : String :=
  if aliases = [] then "" else " | aliases: " ++ "; ".intercalate aliases

def occurredLine : Option (Option String × Option String) → Option String
  | none | some (none, none) => none
  | some (at', until') =>
    some ("occurred: " ++ at'.getD "" ++ (until'.map (" .. " ++ ·)).getD "")

/-- `subject_card_text` of a row, the times of its episode and its attributes. -/
def subjectCardText (s : Subject) (occurred : Option (Option String × Option String))
    (attributes : List Attribute) : String :=
  "\n".intercalate ([s.canonicalName, "type: " ++ s.subjectType ++ aliasesText s.aliases] ++
    (nonBlank s.description).toList ++ (occurredLine occurred).toList ++
    (attributeLinesText env attributes).toList)

/-- `verb_card_text` of a row. -/
def verbCardText (v : Verb) : String :=
  "\n".intercalate ([v.canonicalName,
    "verb" ++ (if (nonBlank v.verbType).isSome then " | type: " ++ v.verbType.getD "" else "") ++
      aliasesText v.aliases] ++ (nonBlank v.description).toList)

/-- `svpor_frame_text`. -/
def svporFrameText (subject verb predicate object : Option String) : String :=
  let nonEmpty := fun x : Option String => x.filter (· ≠ "")
  "[svpor] " ++ (nonEmpty subject).getD "?" ++ " · " ++ (nonEmpty verb).getD "?" ++
    ((nonEmpty predicate).map (" · " ++ ·)).getD "" ++ ((nonEmpty object).map (" = " ++ ·)).getD ""

/-- `_svpor_endpoint_label`. -/
def Data.label (data : Data) : Endpoint → Option String
  | .subject id => (data.subjects.fields? id).map Subject.canonicalName
  | .verb id => (data.verbs.fields? id).map Verb.canonicalName
  | .other kind id => env.label kind id

/-- `statement_card_text` of a row, the labels it asks for and its attributes. -/
def statementCardText (st : Statement) (label : Endpoint → Option String)
    (attributes : List Attribute) : String :=
  let frame := svporFrameText (some ((label st.subject).getD st.subject.name))
    (label (.verb st.verbId)) none (some ((label st.object).getD st.object.name))
  let valid := if st.validFrom.isSome || st.validTo.isSome then
    ["valid: " ++ st.validFrom.getD "" ++ " .. " ++ st.validTo.getD ""] else []
  let span := (nonBlank st.sourceSpan).map fun s => "\"" ++ s ++ "\""
  "\n".intercalate ([frame] ++ (attributeLinesText env attributes).toList ++ valid ++ span.toList)

/-- `embedding_card`: the text, or nothing if the object is gone. -/
def card (data : Data) (obj : Obj) : Option String :=
  match obj with
  | .subject id => (data.subjects.fields? id).map fun s =>
    subjectCardText env s (env.occurred id) (data.attributesOf obj)
  | .verb id => (data.verbs.fields? id).map verbCardText
  | .statement id => (data.statements.fields? id).map fun st =>
    statementCardText env st (data.label env) (data.attributesOf obj)

end

/-! ## What a card depends on -/

def Statement.mentions (st : Statement) (x : Endpoint) : Bool :=
  st.subject == x || st.object == x || x == .verb st.verbId

def Data.has (data : Data) : Obj → Bool
  | .subject id => (data.subjects.fields? id).isSome
  | .verb id => (data.verbs.fields? id).isSome
  | .statement id => (data.statements.fields? id).isSome

theorem card_isSome (env : Env) (data : Data) (obj : Obj) :
    (card env data obj).isSome = data.has obj := by
  cases obj <;> simp [card, Data.has]

def SameRow (data data' : Data) : Obj → Prop
  | .subject id => data'.subjects.fields? id = data.subjects.fields? id
  | .verb id => data'.verbs.fields? id = data.verbs.fields? id
  | .statement id => data'.statements.fields? id = data.statements.fields? id

theorem SameRow.has {data data' : Data} {obj : Obj} (h : SameRow data data' obj) :
    data'.has obj = data.has obj := by
  cases obj with
  | subject id => exact congrArg Option.isSome h
  | verb id => exact congrArg Option.isSome h
  | statement id => exact congrArg Option.isSome h

/-- **A card stays the same with the object's row, its attributes and the labels it asks for.** -/
theorem card_congr {env : Env} {data data' : Data} {obj : Obj} (hrow : SameRow data data' obj)
    (hattr : data'.attributesOf obj = data.attributesOf obj)
    (hlabel : ∀ id st, obj = .statement id → data.statements.fields? id = some st →
      ∀ x, st.mentions x = true → data'.label env x = data.label env x) :
    card env data' obj = card env data obj := by
  cases obj with
  | subject id =>
    simp only [card]
    rw [show data'.subjects.fields? id = data.subjects.fields? id from hrow, hattr]
  | verb id =>
    simp only [card]
    rw [show data'.verbs.fields? id = data.verbs.fields? id from hrow]
  | statement id =>
    simp only [card]
    rw [show data'.statements.fields? id = data.statements.fields? id from hrow, hattr]
    refine Option.map_congr fun st hst => ?_
    have hsame := hlabel id st rfl hst
    unfold statementCardText
    rw [hsame st.subject (by simp [Statement.mentions]), hsame st.object
      (by simp [Statement.mentions]), hsame (.verb st.verbId) (by simp [Statement.mentions])]

end MaluDb.Embedding
