import MaluDb.Lib.Except
import MaluDb.Lib.JsonTree
import MaluDb.Prompt.Render
import Mathlib.Data.Rat.Defs

/-!
# Planning a retrieval

`classify_intent`, `select_search_paths`, `plan_retrieval`, `apply_hints` and
`plan_retrieval_with_hints`, each in its last version.

* A plan is a list of strategies with their parameters, and the envelope as `jsonb`.
* Only two intents pass the object types on to the text search. Hints may name any intent, and
  `time_constraint_override` is merged into the envelope whatever keys it has.
* A `Planner` is what the database knows besides: the cues that it finds in a text, the casts from
  text, the stored hints.
-/

namespace MaluDb.Retrieval

open MaluDb.Lib
open MaluDb.Prompt (Text)

/-! ## Envelopes -/

inductive ObjectType where
  | claim
  | fact
  | memory
  | episodeObject
  deriving DecidableEq

def ObjectType.text : ObjectType → Text
  | .claim => "claim".toList
  | .fact => "fact".toList
  | .memory => "memory".toList
  | .episodeObject => "episode_object".toList

/-- `malu$retrieval_envelope_t`. Times are numbers. -/
structure Envelope where
  cueText : Option Text
  objectTypes : Option (List (Option Text))
  validAsOf : Option ℤ
  transactionAsOf : Option ℤ
  confidenceFloor : Option ℚ
  hints : Option JsonTree

inductive CueKind where
  | phrase
  | timeMarker
  | subject
  | verb
  | predicate
  | term
  deriving DecidableEq

inductive Intent where
  | narrow
  | broad
  | recall
  | timeAsOf
  | bySource
  | byConfidence
  | structuredDocQa
  | longChatRecall
  /-- Any other text, from a hint. -/
  | other
  deriving DecidableEq

def Intent.ofText (t : Text) : Intent :=
  match String.ofList t with
  | "narrow" => .narrow
  | "broad" => .broad
  | "recall" => .recall
  | "time_as_of" => .timeAsOf
  | "by_source" => .bySource
  | "by_confidence" => .byConfidence
  | "structured_doc_qa" => .structuredDocQa
  | "long_chat_recall" => .longChatRecall
  | _ => .other

inductive Strategy where
  | svporRouting
  | fts (query : Option Text) (objectTypes : Option (List (Option Text)))
  | vector
  | graphWalk
  | fuzzySubject (needle : Option Text)
  | temporalAsOf (validAsOf transactionAsOf : Option ℤ)
  | sourceFilter (sourcePackageId : Option JsonTree)
  | confidenceFloor
  | treeDescent

/-- `s ->> 'strategy'`. -/
def Strategy.name : Strategy → Text
  | .svporRouting => "svpor_routing".toList
  | .fts _ _ => "fts".toList
  | .vector => "vector".toList
  | .graphWalk => "graph_walk".toList
  | .fuzzySubject _ => "fuzzy_subject".toList
  | .temporalAsOf _ _ => "temporal_as_of".toList
  | .sourceFilter _ => "source_filter".toList
  | .confidenceFloor => "confidence_floor".toList
  | .treeDescent => "tree_descent".toList

/-- `malu$retrieval_plan`. -/
structure Plan where
  intent : Intent
  strategies : List Strategy
  envelope : JsonTree

inductive PlanError where
  | notArray (e : JsonTree.NotArray)
  | badCast (message : Text)
  | unknownHint (name : Text)

structure Planner where
  /-- The kinds of the cues that `extract_cues` returns. -/
  extractCues : Option Text → List CueKind
  /-- `lower(cue_text) ~ '^\s*(what|show me|list|find|where|when|who)\y'`. -/
  asksRecall : Text → Bool
  render : JsonTree → Text
  timestamptz : Text → Except Text ℤ
  numeric : Text → Except Text ℚ
  timeText : ℤ → Text
  numericText : ℚ → Text
  /-- The enabled rows of `malu$query_hint`. -/
  queryHints : List (Text × JsonTree)

variable (P : Planner)

/-! ## Intents and strategies -/

/-- `hints ? key`, for some of the keys. -/
def hasHint (hints : Option JsonTree) (keys : List String) : Bool :=
  hints.any fun h => keys.any fun key => h.has key.toList

/-- `t = ANY(object_types)`, for some of the types. -/
def hasType (types : Option (List (Option Text))) (names : List String) : Bool :=
  types.any fun ts => names.any fun name => ts.contains (some name.toList)

/-- `classify_intent`. -/
def classifyIntent (env : Envelope) : Intent :=
  if env.validAsOf.isSome || env.transactionAsOf.isSome then .timeAsOf
  else if env.confidenceFloor.isSome then .byConfidence
  else if hasHint env.hints ["source_package_id", "connector_id"] then .bySource
  else if hasHint env.hints ["tree_id", "page_index_tree_id"] then .structuredDocQa
  else if hasHint env.hints ["chat_tree_id", "chat_index_tree_id"] then .longChatRecall
  else if hasType env.objectTypes ["page_index_node"] then .structuredDocQa
  else if hasType env.objectTypes ["chat_index_topic", "chat_index_message"] then .longChatRecall
  else if 2 ≤ ((P.extractCues env.cueText).filter fun k =>
      k = .subject || k = .verb || k = .predicate).length then .narrow
  else if P.asksRecall (env.cueText.getD []) then .recall
  else .broad

/-- `select_search_paths`. -/
def selectSearchPaths (intent : Intent) (env : Envelope) : List Strategy :=
  match intent with
  | .narrow => [.svporRouting, .fts env.cueText env.objectTypes, .vector]
  | .broad => [.fts env.cueText env.objectTypes, .vector, .graphWalk]
  | .recall => [.fuzzySubject env.cueText, .fts env.cueText none]
  | .timeAsOf => [.temporalAsOf env.validAsOf env.transactionAsOf, .fts env.cueText none]
  | .bySource =>
    [.sourceFilter (env.hints.bind (·.get "source_package_id".toList)), .fts env.cueText none]
  | .byConfidence => [.confidenceFloor, .fts env.cueText none]
  | .structuredDocQa => [.treeDescent, .fts env.cueText none]
  | .longChatRecall => [.treeDescent]
  | .other => [.fts env.cueText none]

/-- `to_jsonb` of an envelope. -/
def Envelope.toJsonb (env : Envelope) : JsonTree :=
  .object [("cue_text".toList, (env.cueText.map .string).getD .null),
    ("object_types".toList, (env.objectTypes.map fun ts =>
      .array (ts.map fun t => (t.map .string).getD .null)).getD .null),
    ("valid_as_of".toList, (env.validAsOf.map fun t => .string (P.timeText t)).getD .null),
    ("transaction_as_of".toList,
      (env.transactionAsOf.map fun t => .string (P.timeText t)).getD .null),
    ("confidence_floor".toList,
      (env.confidenceFloor.map fun q => .number (P.numericText q)).getD .null),
    ("hints".toList, env.hints.getD .null)]

/-- `plan_retrieval`. -/
def planRetrieval (env : Envelope) : Plan :=
  let intent := classifyIntent P env
  ⟨intent, selectSearchPaths intent env, env.toJsonb P⟩

/-! ## Hints -/

/-- `ARRAY(SELECT jsonb_array_elements_text(j))`. -/
def textArray (j : Option JsonTree) : Except PlanError (List (Option Text)) :=
  match j with
  | none => .ok []
  | some j => (j.elementsText P.render).mapError .notArray

/-- `NULLIF(j ->> key, '')` and a cast. -/
def castText {α : Type} (cast : Text → Except Text α) (j : JsonTree) (key : String) :
    Except PlanError (Option α) :=
  match j.getText P.render key.toList with
  | none | some [] => .ok none
  | some t => ((cast t).map some).mapError .badCast

/-- The envelope of a `jsonb`, in the order of its casts. -/
def envelopeOf (j : JsonTree) : Except PlanError Envelope := do
  let objectTypes ← if j.has "object_types".toList then
      textArray P (j.get "object_types".toList)
    else .ok (["claim", "fact", "memory", "episode_object"].map fun t => some t.toList)
  let validAsOf ← castText P P.timestamptz j "valid_as_of"
  let transactionAsOf ← castText P P.timestamptz j "transaction_as_of"
  let confidenceFloor ← castText P P.numeric j "confidence_floor"
  return ⟨j.getText P.render "cue_text".toList, objectTypes, validAsOf, transactionAsOf,
    confidenceFloor, j.get "hints".toList⟩

def overrideEnvelope (hints envelope : JsonTree) : JsonTree :=
  let envelope := match hints.get "confidence_floor_override".toList with
    | some floor => envelope.concat (.object [("confidence_floor".toList, floor)])
    | none => envelope
  match hints.get "time_constraint_override".toList with
  | some more => envelope.concat more
  | none => envelope

def replan (hints : JsonTree) (plan : Plan) : Except PlanError Plan :=
  let envelope := overrideEnvelope hints plan.envelope
  let intent := match hints.get "intent_override".toList with
    | some j => ((j.unquoted P.render).map Intent.ofText).getD .other
    | none => plan.intent
  if ["confidence_floor_override", "time_constraint_override", "intent_override"].any
      fun key => hints.has key.toList then
    (envelopeOf P envelope).map fun env => ⟨intent, selectSearchPaths intent env, envelope⟩
  else .ok plan

/-- `suppress_path`. -/
def suppressPath (hints : JsonTree) (strategies : List Strategy) :
    Except PlanError (List Strategy) :=
  if hints.has "suppress_path".toList then
    (textArray P (hints.get "suppress_path".toList)).map fun suppressed =>
      -- with a NULL among them, the comparison is not true for the others either
      strategies.filter fun s => !suppressed.contains none && !suppressed.contains (some s.name)
  else .ok strategies

/-- `force_path`. -/
def forcePath (hints : JsonTree) (strategies : List Strategy) :
    Except PlanError (List Strategy) :=
  if hints.has "force_path".toList then
    (textArray P (hints.get "force_path".toList)).map fun forced =>
      forced.flatMap (fun name => strategies.filter fun s => some s.name == name) ++
        strategies.filter fun s => !forced.contains none && !forced.contains (some s.name)
  else .ok strategies

/-- `apply_hints`. -/
def applyHints (plan : Plan) (hints : JsonTree) : Except PlanError Plan :=
  match hints with
  | .object (_ :: _) => do
    let plan ← replan P hints plan
    let strategies ← suppressPath P hints plan.strategies
    let strategies ← forcePath P hints strategies
    return { plan with strategies }
  | _ => .ok plan

def planRetrievalWithHints (env : Envelope) (hintName : Option Text) : Except PlanError Plan := do
  let plan ← match env.hints with
    | none => .ok (planRetrieval P env)
    | some hints => applyHints P (planRetrieval P env) hints
  match hintName with
  | none => return plan
  | some name =>
    match P.queryHints.lookup name with
    | none => .error (.unknownHint name)
    | some hints => applyHints P plan hints

end MaluDb.Retrieval
