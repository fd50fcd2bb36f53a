import MaluDb.Access.Model
import MaluDb.Vector.Store

/-!
# Searching memories by tag

`vector_search_by_tags` (`sql/extension/maludb_core--0.106.0.sql:55681-55778`), which searches the
compartments of a namespace that carry a subject and a verb.

* `Content` is what is stored, with the unique constraints and what `register_vector_chunk`
  guarantees. `Config` is how compartments are searched. `Content.store` puts both together as the
  vector store, whose `exact_vector_search_sql` the function calls.
* The error of the first compartment, in physical order, that has one is raised.
-/

namespace MaluDb.Memory

open MaluDb.Lib MaluDb.Vector MaluDb.Access

/-! ## Tables -/

/-- A row of `malu$vector_subject` or `malu$vector_verb`. -/
structure Tag where
  tagId : Int
  ownerSchema : String
  ns : String
  name : String
  deriving DecidableEq, Repr

/-- A row of `malu$vector_compartment`, without `search_mode`. -/
structure CompartmentRow where
  compartmentId : Int
  ownerSchema : String
  ns : String
  subjectId : Int
  verbId : Int
  embeddingDim : Nat
  embeddingModel : String
  distanceMetric : Metric
  deriving DecidableEq, Repr

/-- The stored rows that the search reads. -/
structure Content (F D : Type) where
  principals : Principals
  subjects : List Tag
  verbs : List Tag
  compartments : List CompartmentRow
  chunks : List (Chunk F D)
  tombstones : List Int
  /-- `UNIQUE (owner_schema, namespace, subject_name)` -/
  subjects_unique : (subjects.map fun t => (t.ownerSchema, t.ns, t.name)).Nodup
  /-- `UNIQUE (owner_schema, namespace, verb_name)` -/
  verbs_unique : (verbs.map fun t => (t.ownerSchema, t.ns, t.name)).Nodup
  /-- The primary key of compartments. -/
  compartments_key : (compartments.map CompartmentRow.compartmentId).Nodup
  /-- `UNIQUE (owner_schema, namespace, subject_id, verb_id)` -/
  compartments_unique :
    (compartments.map fun k => (k.ownerSchema, k.ns, k.subjectId, k.verbId)).Nodup
  /-- The primary key of chunks. -/
  chunks_key : (chunks.map (·.chunkId)).Nodup
  /-- A chunk has the dimension of its compartment. -/
  chunks_dim : ∀ c ∈ chunks, ∀ k ∈ compartments, k.compartmentId = c.compartmentId →
    c.embedding.length = k.embeddingDim

/-- How compartments are searched: their modes, indexes and delta rows. -/
structure Config (F : Type) where
  searchMode : Int → SearchMode
  annIndexes : List (AnnIndex F)
  deltas : List Delta

section

variable {F D : Type}

section

variable (db : Content F D) (κ : Config F)

/-- The compartment with its search mode. -/
def CompartmentRow.toCompartment (k : CompartmentRow) : Compartment where
  compartmentId := k.compartmentId
  embeddingDim := k.embeddingDim
  embeddingModel := k.embeddingModel
  distanceMetric := k.distanceMetric
  searchMode := κ.searchMode k.compartmentId
  -- no search reads the last two
  vectorCount := 0
  annIndexStatus := .none

/-- The vector store of a content. -/
def Content.store : Store F D where
  compartments := db.compartments.map (CompartmentRow.toCompartment κ)
  chunks := db.chunks
  annIndexes := κ.annIndexes
  deltas := κ.deltas
  tombstones := db.tombstones
  nextChunkId := 0

end

end

/-! ## Search -/

/-- The arguments of the search. -/
structure Query (F : Type) where
  ns : Option String
  subject : Option String
  verb : Option String
  embedding : Option (Vec F)
  limit : Option Int
  metric : Option String

/-- `COALESCE(p_namespace, 'default')`. -/
def Query.nsOrDefault {F : Type} (q : Query F) : String := q.ns.getD "default"

/-- `GREATEST(COALESCE(p_limit, 20), 0)`. -/
def Query.limitOrDefault {F : Type} (q : Query F) : Int := max (q.limit.getD 20) 0

/-- The errors of the search. -/
inductive SearchError where
  | access (e : PrincipalError)
  | vector (e : VectorError)
  | embeddingRequired (function : String)
  | tagRequired (function : String)
  deriving DecidableEq, Repr

/-- The text of an error. -/
def SearchError.message : SearchError → String
  | .access e => e.message
  | .vector e => e.message
  | .embeddingRequired function => function ++ ": query embedding is required"
  | .tagRequired function => function ++ ": subject or verb is required"

/-- A compartment with the names of its tags. -/
structure Tagged where
  row : CompartmentRow
  subjectName : String
  verbName : String
  deriving DecidableEq, Repr

/-- A row of one compartment, with the compartment. -/
structure TagHit (D : Type) where
  row : ResultRow D
  compartmentId : Int
  subjectName : String
  verbName : String
  deriving DecidableEq, Repr

/-- A row of the result. -/
structure TagRow (D : Type) where
  chunkId : Int
  sourceText : Option String
  distance : D
  similarity : D
  rankNo : Nat
  compartmentId : Int
  subjectName : String
  verbName : String
  deriving DecidableEq, Repr

section

variable {F D : Type}

/-- The subject or verb of a compartment, joined by schema, namespace and id. -/
def tag? (tags : List Tag) (k : CompartmentRow) (id : Int) : Option Tag :=
  tags.find? fun t => t.ownerSchema == k.ownerSchema && t.ns == k.ns && t.tagId == id

section

variable (db : Content F D) (schema : Option String) (ns : String)

/-- A compartment joined with its tags. -/
def Content.tagged? (k : CompartmentRow) : Option Tagged := do
  let subject ← tag? db.subjects k k.subjectId
  let verb ← tag? db.verbs k k.verbId
  return ⟨k, subject.name, verb.name⟩

/-- The compartments of a namespace of the current schema. -/
def Content.namespaceCompartments : List Tagged :=
  (db.compartments.filter fun k => some k.ownerSchema == schema && k.ns == ns).filterMap db.tagged?

/-- Those that carry the tags asked for. -/
def Content.matchingCompartments (subject verb : Option String) : List Tagged :=
  (db.namespaceCompartments schema ns).filter fun t =>
    subject.all (· == t.subjectName) && verb.all (· == t.verbName)

end

end

section

variable {D : Type} [LT D] [DecidableLT D]

/-- `ORDER BY hit_distance ASC, hit_compartment_id ASC, hit_chunk_id ASC`. -/
def tagHitLe (a b : TagHit D) : Bool :=
  decide (a.row.distance < b.row.distance) || (!decide (b.row.distance < a.row.distance) &&
    (decide (a.compartmentId < b.compartmentId) || (a.compartmentId == b.compartmentId &&
      decide (a.row.chunkId ≤ b.row.chunkId))))

/-- `ranked_hits` with `rank_no <= v_limit`. -/
def rankedHits (limit : Int) (hits : List (TagHit D)) : List (TagHit D × Nat) :=
  ((hits.insertionSort fun a b => tagHitLe a b = true).zipIdx 1).filter fun h =>
    decide ((h.2 : Int) ≤ limit)

end

section

variable {F D : Type}

/-- A ranked hit as a row of `vector_search_by_tags`. -/
def tagRow (h : TagHit D × Nat) : TagRow D :=
  ⟨h.1.row.chunkId, h.1.row.sourceText, h.1.row.distance, h.1.row.similarity, h.2,
    h.1.compartmentId, h.1.subjectName, h.1.verbName⟩

/-- The checks of the arguments. `none` is the early return for limit 0. -/
def checkArgs (function : String) (q : Query F) : Except SearchError (Option (Vec F)) :=
  match q.embedding with
  | none => .error (.embeddingRequired function)
  | some emb =>
    if q.subject.isNone ∧ q.verb.isNone then .error (.tagRequired function)
    else if q.limitOrDefault = 0 then .ok none
    else .ok (some emb)

end

section

variable {F D : Type} [LT D] [DecidableLT D] [BEq D] (ar : Arith F D) (pl : Planner (TopKRow F))
  (elements : String → Option (List (Option String)))

section

variable (db : Content F D) (κ : Config F) (s : Store F D) (ses : Session)

/-- The hits of one compartment. -/
def hitsIn (q : Vec F) (limit : Int) (metric : Option String) (t : Tagged) :
    Except VectorError (List (TagHit D)) :=
  (exactVectorSearchSql ar pl s t.row.compartmentId q limit metric).map fun rows =>
    rows.map fun r => ⟨r, t.row.compartmentId, t.subjectName, t.verbName⟩

/-- The hits of all of them (`CROSS JOIN LATERAL`). -/
def compartmentHits (q : Vec F) (limit : Int) (metric : Option String) (ts : List Tagged) :
    Except VectorError (List (TagHit D)) :=
  (ts.mapM (hitsIn ar pl s q limit metric)).map List.flatten

section

variable (schema : Option String) (q : Query F)

/-- The ranked hits. -/
def searchHits (emb : Vec F) : Except SearchError (List (TagHit D × Nat)) :=
  match compartmentHits ar pl (db.store κ) emb q.limitOrDefault q.metric
      (db.matchingCompartments schema q.nsOrDefault q.subject q.verb) with
  | .error e => .error (.vector e)
  | .ok hits => .ok (rankedHits q.limitOrDefault hits)

/-- `vector_search_by_tags` in a session with a current schema. The scope is checked after the
arguments. -/
def vectorSearchByTags : Except SearchError (List (TagRow D)) :=
  match checkArgs "vector_search_by_tags" q with
  | .error e => .error e
  | .ok none => .ok []
  | .ok (some emb) =>
    match principalAssertScope elements db.principals ses schema (some q.nsOrDefault) "read"
        "vector_search_by_tags" with
    | .error e => .error (.access e)
    | .ok _ => (searchHits ar pl db κ schema q emb).map (·.map tagRow)

end

end

end

end MaluDb.Memory
