import MaluDb.Vector.Coverage
import MaluDb.Vector.Tombstone

/-!
# The procedures on the whole store

What `register_vector_chunk`, `ann_build`, `ann_rebuild` and `tombstone_vector_chunk` leave if they
do not raise.
-/

namespace MaluDb.Vector.Coverage

open MaluDb.Lib MaluDb.Lib.ReadCommitted List

variable {F D : Type} {s s' : Store F D} {cid : Int}

/-! ## The stores between two statements -/

/-- `INSERT INTO malu$vector_chunk`. -/
def insertChunk (s : Store F D) (c : Chunk F D) : Store F D :=
  { s with chunks := s.chunks ++ [c], nextChunkId := s.nextChunkId + 1 }

/-- `INSERT INTO malu$ann_delta … ON CONFLICT DO NOTHING`. -/
def insertDelta (s : Store F D) (row : Delta) : Store F D :=
  { s with deltas := if row ∈ s.deltas then s.deltas else s.deltas ++ [row] }

section

variable (s : Store F D) (idx : AnnIndex F)

/-- The chunk is inserted and counted. -/
def counted (c : Chunk F D) : Store F D :=
  (insertChunk s c).updateCompartment c.compartmentId fun c =>
    { c with vectorCount := c.vectorCount + 1 }

/-- It also has its delta row, and the index is stale. -/
def queued (c : Chunk F D) : Store F D :=
  (insertDelta (counted s c) ⟨c.compartmentId, c.chunkId⟩).updateCompartment c.compartmentId
    fun c => { c with annIndexStatus := .stale }

/-- The index `ann_build` writes. -/
def newIndex (c : Compartment) (cid m ef efs : Int) (g : AnnGraph F) (n : Nat) : AnnIndex F :=
  { compartmentId := cid, distanceMetric := c.distanceMetric, m, efConstruction := ef
    efSearchDefault := efs, embeddingDim := c.embeddingDim, graph := g, vectorCountAtBuild := n
    status := .ready }

/-- The compartment is being built. -/
def marked (cid : Int) : Store F D :=
  s.updateCompartment cid fun c => { c with annIndexStatus := .building }

/-- The new index is written. -/
def indexed : Store F D :=
  { marked s idx.compartmentId with annIndexes := upsertAnnIndex idx s.annIndexes }

/-- The delta rows are deleted. -/
def drained : Store F D :=
  { indexed s idx with
    deltas := deleteWhere (·.compartmentId == idx.compartmentId) s.deltas }

/-- The compartment is ready for `local_ann`. -/
def finished : Store F D :=
  (drained s idx).updateCompartment idx.compartmentId fun c =>
    { c with searchMode := .localAnn, annIndexStatus := .ready }

end

/-! ## The scan of a build -/

theorem length_buildRows (s : Store F D) (cid : Int) :
    (buildRows s cid).length = (s.liveChunks cid).length := by
  unfold buildRows
  rw [length_map, length_insertionSort]

/-! ## Calls -/

section

variable [LT D] [DecidableLT D] [BEq D] {ar : Arith F D}

/-- The chunk `register_vector_chunk` inserts. -/
def newChunk (ar : Arith F D) (id cid : Int) (text : String) (emb : Vec F) (model : String) :
    Chunk F D :=
  { chunkId := id, compartmentId := cid, sourceText := text, embedding := vectorNormalize ar emb
    embeddingDim := emb.length, embeddingModel := model, embeddingNorm := vectorNorm ar emb }

omit [LT D] [DecidableLT D] in
theorem registerVectorChunk_eq_ok {text : Option String} {emb : Vec F} {model : Option String}
    {n : Int} (h : registerVectorChunk ar s cid text emb model = .ok (s', n)) :
    ∃ c t, s.compartment? cid = some c ∧ emb.length = c.embeddingDim ∧ text = some t ∧
      emb.length ≠ 0 ∧
      s' = if (s.annIndex? cid).isSome
        then queued s (newChunk ar s.nextChunkId cid t emb (model.getD c.embeddingModel))
        else counted s (newChunk ar s.nextChunkId cid t emb (model.getD c.embeddingModel)) := by
  unfold registerVectorChunk at h
  split at h
  · cases h
  rename_i c hc
  split at h
  · cases h
  rename_i hdim
  split at h
  · cases h
  rename_i t
  split at h
  · cases h
  rename_i hpos
  refine ⟨c, t, hc, not_not.mp hdim, rfl, hpos, ?_⟩
  dsimp only at h
  split at h
  · rename_i hi
    cases h
    exact (if_neg (by simp [show s.annIndex? cid = none from hi])).symm
  · rename_i idx hi
    cases h
    exact (if_pos (by simp [show s.annIndex? cid = some idx from hi])).symm

variable {n : Nat}

theorem annBuild_eq_ok {m ef efs : Int} (h : annBuild ar s cid m ef efs = .ok (s', n)) :
    ∃ c g, s.compartment? cid = some c ∧
      annBuildC ar (buildRows s cid) m ef c.distanceMetric.name = .ok g ∧
      annIndexChecks m ef efs = .ok () ∧
      s' = finished s (newIndex c cid m ef efs g (buildRows s cid).length) := by
  unfold annBuild at h
  split at h
  · cases h
  rename_i c hc
  dsimp only at h
  split at h
  · cases h
  rename_i g hg
  split at h
  · cases h
  rename_i hchecks
  cases h
  refine ⟨c, g, hc, hg, hchecks, ?_⟩
  rw [length_buildRows]
  rfl

theorem annRebuild_eq_ok (h : annRebuild ar s cid = .ok (s', n)) :
    ∃ idx s₁, s.annIndex? cid = some idx ∧
      annBuild ar s cid idx.m idx.efConstruction idx.efSearchDefault = .ok (s₁, n) ∧
      s' = clearTombstones s₁ cid := by
  unfold annRebuild at h
  split at h
  · cases h
  rename_i idx hi
  split at h
  · cases h
  · rename_i s₁ n₁ hb
    cases h
    exact ⟨idx, s₁, hi, hb, rfl⟩

end

end MaluDb.Vector.Coverage
