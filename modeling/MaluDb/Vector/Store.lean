import MaluDb.Lib.Run
import MaluDb.Lib.Table
import MaluDb.Vector.Ann
import MaluDb.Vector.TopK

/-!
# The vector store

The procedures `register_vector_chunk`, `tombstone_vector_chunk`, `ann_build` and `ann_rebuild`, and
the three search modes behind `exact_vector_search_sql`.

* A procedure is its statements in source order on an explicit `Store`; a raised error leaves the
  state before it (`commitOr`), also `nextChunkId`, where PostgreSQL would leave a gap.
* A scan returns rows in physical order, the order of the list.
* The parallel mode takes its plan from a `Planner`: any function that assigns to the rows of a
  scan a plan over exactly these rows.
-/

namespace MaluDb.Vector

open MaluDb.Lib MaluDb.Lib.Heap

/-! ## Tables -/

/-- `search_mode`. -/
inductive SearchMode where
  | exact
  | exactParallel
  | localAnn
  deriving DecidableEq, Repr

/-- `ann_index_status`, and the `status` of an index. -/
inductive IndexStatus where
  | none
  | building
  | ready
  | stale
  | rebuilding
  | disabled
  deriving DecidableEq, Repr

structure Compartment where
  compartmentId : Int
  embeddingDim : Nat
  embeddingModel : String
  distanceMetric : Metric
  vectorCount : Int
  searchMode : SearchMode
  annIndexStatus : IndexStatus
  deriving DecidableEq, Repr

structure Chunk (F D : Type) where
  chunkId : Int
  compartmentId : Int
  sourceText : String
  embedding : Vec F
  embeddingDim : Nat
  embeddingModel : String
  embeddingNorm : D
  deriving DecidableEq, Repr

/-- A row of `malu$ann_index`. -/
structure AnnIndex (F : Type) where
  compartmentId : Int
  distanceMetric : Metric
  m : Int
  efConstruction : Int
  efSearchDefault : Int
  embeddingDim : Nat
  graph : AnnGraph F
  vectorCountAtBuild : Nat
  status : IndexStatus
  deriving DecidableEq, Repr

/-- A row of `malu$ann_delta`. -/
structure Delta where
  compartmentId : Int
  chunkId : Int
  deriving DecidableEq, Repr

structure Store (F D : Type) where
  compartments : List Compartment
  chunks : List (Chunk F D)
  annIndexes : List (AnnIndex F)
  deltas : List Delta
  tombstones : List Int
  nextChunkId : Int
  deriving DecidableEq, Repr

namespace Store

variable {F D : Type}

section

variable (s : Store F D) (cid : Int)

/-- `SELECT * FROM malu$vector_compartment WHERE compartment_id = …`. -/
def compartment? : Option Compartment :=
  s.compartments.find? (·.compartmentId == cid)

/-- `SELECT * FROM malu$ann_index WHERE compartment_id = …`. -/
def annIndex? : Option (AnnIndex F) :=
  s.annIndexes.find? (·.compartmentId == cid)

/-- `SELECT * FROM malu$vector_chunk WHERE chunk_id = …`. -/
def chunk? (id : Int) : Option (Chunk F D) :=
  s.chunks.find? (·.chunkId == id)

def liveChunks : List (Chunk F D) :=
  s.chunks.filter fun c => c.compartmentId == cid && !s.tombstones.contains c.chunkId

/-- `UPDATE malu$vector_compartment SET … WHERE compartment_id = …`. -/
def updateCompartment (f : Compartment → Compartment) : Store F D :=
  { s with compartments := updateWhere (·.compartmentId == cid) f s.compartments }

end

end Store

/-! ## Writing -/

section

variable {F D : Type} [LT D] [DecidableLT D] [BEq D] (ar : Arith F D)

section

variable (s : Store F D) (cid : Int)

def registerVectorChunk (sourceText : Option String) (emb : Vec F) (model : Option String) :
    Except VectorError (Store F D × Int) :=
  match s.compartment? cid with
  | none => .error (.unknownCompartment cid)
  | some compart =>
    if emb.length ≠ compart.embeddingDim then
      .error (.embeddingDim emb.length compart.embeddingDim)
    else
      match sourceText with
      | none => .error (.notNullViolation "source_text")
      | some text =>
        if emb.length = 0 then .error (.checkViolation "malu$vector_chunk_embedding_dim_check")
        else
          let chunk : Chunk F D :=
            { chunkId := s.nextChunkId, compartmentId := cid, sourceText := text
              embedding := vectorNormalize ar emb, embeddingDim := emb.length
              embeddingModel := model.getD compart.embeddingModel
              embeddingNorm := vectorNorm ar emb }
          let s₁ : Store F D :=
            { s with chunks := s.chunks ++ [chunk], nextChunkId := s.nextChunkId + 1 }
          let s₂ := s₁.updateCompartment cid fun c => { c with vectorCount := c.vectorCount + 1 }
          match s₂.annIndex? cid with
          | none => .ok (s₂, chunk.chunkId)
          | some _ =>
            let row : Delta := ⟨cid, chunk.chunkId⟩
            let s₃ : Store F D :=
              { s₂ with deltas := if row ∈ s₂.deltas then s₂.deltas else s₂.deltas ++ [row] }
            .ok (s₃.updateCompartment cid fun c => { c with annIndexStatus := .stale },
              chunk.chunkId)

def tombstoneVectorChunk (id : Int) : Except VectorError (Store F D) :=
  match s.chunk? id with
  | none => .error (.unknownChunk id)
  | some chunk =>
    let s₁ : Store F D :=
      { s with tombstones := if id ∈ s.tombstones then s.tombstones else s.tombstones ++ [id] }
    match s₁.annIndex? chunk.compartmentId with
    | none => .ok s₁
    | some _ =>
      .ok (s₁.updateCompartment chunk.compartmentId fun c => { c with annIndexStatus := .stale })

/-- The scan of `maludb_ann_build_c`: `ORDER BY c.chunk_id`. -/
def buildRows : List (Int × Vec F) :=
  ((s.liveChunks cid).insertionSort fun a b => a.chunkId ≤ b.chunkId).map fun c =>
    (c.chunkId, c.embedding)

/-- The CHECK constraints of `malu$ann_index` on the parameters of a build. -/
def annIndexChecks (m ef efSearch : Int) : Except VectorError Unit :=
  if ¬ (0 < m ∧ m ≤ 256) then .error (.checkViolation "malu$ann_index_m_check")
  else if ¬ (0 < ef ∧ ef ≤ 4096) then
    .error (.checkViolation "malu$ann_index_ef_construction_check")
  else if ¬ (0 < efSearch ∧ efSearch ≤ 4096) then
    .error (.checkViolation "malu$ann_index_ef_search_default_check")
  else .ok ()

/-- `INSERT INTO malu$ann_index … ON CONFLICT (compartment_id) DO UPDATE`. -/
def upsertAnnIndex (idx : AnnIndex F) (t : List (AnnIndex F)) : List (AnnIndex F) :=
  if t.any fun i => i.compartmentId == idx.compartmentId then
    updateWhere (·.compartmentId == idx.compartmentId) (fun _ => idx) t
  else t ++ [idx]

def annBuild (cid m ef efSearch : Int) : Except VectorError (Store F D × Nat) :=
  match s.compartment? cid with
  | none => .error (.unknownCompartment cid)
  | some compart =>
    let s₁ := s.updateCompartment cid fun c => { c with annIndexStatus := .building }
    match annBuildC ar (buildRows s₁ cid) m ef compart.distanceMetric.name with
    | .error e => .error e
    | .ok graph =>
      let count := (s₁.liveChunks cid).length
      match annIndexChecks m ef efSearch with
      | .error e => .error e
      | .ok _ =>
        let idx : AnnIndex F :=
          { compartmentId := cid, distanceMetric := compart.distanceMetric, m
            efConstruction := ef, efSearchDefault := efSearch
            embeddingDim := compart.embeddingDim, graph, vectorCountAtBuild := count
            status := .ready }
        let s₂ : Store F D := { s₁ with annIndexes := upsertAnnIndex idx s₁.annIndexes }
        -- the delta is drained: everything is in the graph now
        let s₃ : Store F D :=
          { s₂ with deltas := deleteWhere (·.compartmentId == cid) s₂.deltas }
        .ok (s₃.updateCompartment cid fun c =>
          { c with searchMode := .localAnn, annIndexStatus := .ready }, count)

/-- `DELETE FROM malu$vector_tombstone WHERE chunk_id IN (SELECT … compartment_id = …)`. -/
def clearTombstones : Store F D :=
  let inCompartment (t : Int) := s.chunks.any fun c => c.chunkId == t && c.compartmentId == cid
  { s with tombstones := deleteWhere inCompartment s.tombstones }

def annRebuild : Except VectorError (Store F D × Nat) :=
  match s.annIndex? cid with
  | none => .error (.noAnnIndex cid)
  | some idx =>
    match annBuild ar s cid idx.m idx.efConstruction idx.efSearchDefault with
    | .error e => .error e
    | .ok (s', built) => .ok (clearTombstones s' cid, built)

end

end

/-! ## Searching -/

structure Planner (R : Type) where
  plan : List R → Plan R
  rows_perm : ∀ rows, (plan rows).rows.Perm rows

/-- A candidate of the `local_ann` branch. -/
structure Hit (D : Type) where
  cid : Int
  d : D
  s : D
  deriving DecidableEq, Repr

section

variable {F D : Type} [LT D] [DecidableLT D] (ar : Arith F D)

/-- One row of the scan loop of `maludb_exact_vector_search_c`. -/
def exactOffer (metric : Metric) (q : Vec F) (k : Int) (heap : List (HeapEntry String D))
    (c : Chunk F D) : Except VectorError (List (HeapEntry String D)) :=
  (computeDistance ar metric q c.embedding).map fun dist =>
    stateOffer k.toNat heap ⟨c.chunkId, some c.sourceText, dist, similarityOf ar metric dist⟩

/-- The rows as they are emitted, with their ranks. -/
def numberRows (es : List (HeapEntry String D)) : List (ResultRow D) :=
  es.mapIdx fun i e => ⟨e.chunkId, e.sourceText, e.distance, e.similarity, i + 1⟩

/-- `maludb_exact_vector_search_c`: the heap has room for the rows there are, of 32 bytes each. -/
def exactVectorSearchC (s : Store F D) (cid : Int) (q : Vec F) (k : Int) (metric : Option String) :
    Except VectorError (List (ResultRow D)) :=
  if k ≤ 0 then .error .limitNotPositive
  else
    match metric.elim (.ok .cosine) parseMetric with
    | .error e => .error e
    | .ok metric =>
      match palloc (32 * max (min k (s.liveChunks cid).length) 1) with
      | .error e => .error e
      | .ok _ =>
        ((s.liveChunks cid).foldlM (exactOffer ar metric q k) []).map fun heap =>
          numberRows (qsortHeap heap)

def Chunk.topKRow (c : Chunk F D) : TopKRow F :=
  ⟨some c.embedding, some c.chunkId, some c.sourceText⟩

variable [BEq D]

section

variable (s : Store F D) (pl : Planner (TopKRow F)) (cid : Int) (limit : Int)

def exactVectorSearchParallelC (s : Store F D) (cid : Int) (q : Vec F) (k : Int)
    (metric : Option String) : Except VectorError (List (ResultRow D)) :=
  match s.compartment? cid with
  | none => .error (.unknownCompartment cid)
  | some compart =>
    if q.length ≠ compart.embeddingDim then .error (.queryDim q.length compart.embeddingDim)
    else
      (topkVectorSearch ar
        ⟨some (vectorNormalize ar q), some k, some (metric.getD compart.distanceMetric.name)⟩
        (pl.plan ((s.liveChunks cid).map Chunk.topKRow))).map fun res => res.getD []

/-- The distance and similarity of a delta row. The cosine branch normalises the query, the other
two do not. -/
def deltaHit (metric : Metric) (q : Vec F) (c : Chunk F D) : Except VectorError (Hit D) :=
  match metric with
  | .cosine =>
    (vectorDotProduct ar c.embedding (vectorNormalize ar q)).map fun x =>
      ⟨c.chunkId, ar.sub ar.one x, x⟩
  | .l2 => (vectorL2Squared ar c.embedding q).map fun x => ⟨c.chunkId, x, ar.neg x⟩
  | .innerProduct => (vectorDotProduct ar c.embedding q).map fun x => ⟨c.chunkId, ar.neg x, x⟩

def deltaChunks : List (Chunk F D) :=
  ((s.deltas.filter (·.compartmentId == cid)).filterMap fun d => s.chunk? d.chunkId).filter
    fun c => !s.tombstones.contains c.chunkId

/-- `ORDER BY mg.d ASC, mg.cid ASC`. -/
def hitLe (a b : Hit D) : Bool :=
  decide (a.d < b.d) || (!decide (b.d < a.d) && decide (a.cid ≤ b.cid))

/-- `ranked` joined with the chunks, cut at the limit. -/
def rankHits (hits : List (Hit D)) : List (ResultRow D) :=
  (((hits.insertionSort fun a b => hitLe a b = true).zipIdx 1).filter fun h =>
      decide ((h.2 : Int) ≤ limit)).filterMap fun h =>
    (s.chunk? h.1.cid).map fun c => ⟨h.1.cid, some c.sourceText, h.1.d, h.1.s, h.2⟩

def int4Mul (a b : Int) : Except VectorError Int :=
  if -2147483648 ≤ a * b ∧ a * b ≤ 2147483647 then .ok (a * b) else .error .integerOutOfRange

/-- The `local_ann` branch of `exact_vector_search_sql`. -/
def localAnnSearch (idx : AnnIndex F) (q : Vec F) (limit : Int) (metric : String) :
    Except VectorError (List (ResultRow D)) := do
  -- over-fetch for the tombstone filter
  let fetch ← int4Mul limit 2
  let annHits ← annSearchC ar idx.graph (vectorNormalize ar q) fetch idx.efSearchDefault
    (some metric)
  let metric ← parseMetric metric
  let deltaHits ← (deltaChunks s cid).mapM (deltaHit ar metric q)
  let live := annHits.filter fun h => !s.tombstones.contains h.chunkId
  return rankHits s limit (live.map (fun h => ⟨h.chunkId, h.distance, h.similarity⟩) ++ deltaHits)

def exactVectorSearchSql (s : Store F D) (cid : Int) (q : Vec F) (limit : Int)
    (metric : Option String) : Except VectorError (List (ResultRow D)) :=
  match s.compartment? cid with
  | none => .error (.unknownCompartment cid)
  | some compart =>
    if q.length ≠ compart.embeddingDim then .error (.queryDim q.length compart.embeddingDim)
    else
      match compart.searchMode with
      | .localAnn =>
        match s.annIndex? cid with
        | none => .error (.noAnnIndexRow cid)
        | some idx =>
          localAnnSearch ar s cid idx q limit (metric.getD compart.distanceMetric.name)
      | .exactParallel =>
        exactVectorSearchParallelC ar pl s cid q limit
          (some (metric.getD compart.distanceMetric.name))
      | .exact =>
        exactVectorSearchC ar s cid (vectorNormalize ar q) limit
          (some (metric.getD compart.distanceMetric.name))

end

end

end MaluDb.Vector
