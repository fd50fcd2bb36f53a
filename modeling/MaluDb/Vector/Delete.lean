import MaluDb.Vector.Sequential

/-!
# Deleting chunks and documents

`_vector_chunks_delete` removes the rows, takes them off the count of each compartment they were in
and marks its index stale. A trigger calls it for every document row that is deleted.

* Delta and tombstone rows of a chunk go with it; the graph of an index keeps its node.
* `Library` adds what a document delete reads: the `document_id` column of the chunks and the
  documents.
* `_forget_chunk` and `_forget_document` check access and then are one or two of the operations:
  chunks by id, then the document row.
-/

namespace MaluDb.Vector

open MaluDb.Lib Coverage List

variable {F D : Type}

/-! ## The helper -/

/-- `c.chunk_id = ANY (p_chunk_ids)`: a NULL in the array matches nothing. -/
def Chunk.named (ids : List (Option Int)) (c : Chunk F D) : Bool := ids.contains (some c.chunkId)

/-- `per.n` of a compartment: how many of its chunks are gone. -/
def goneFrom (s : Store F D) (ids : List (Option Int)) (cid : Int) : Nat :=
  (s.chunks.filter (Chunk.named ids)).countP (·.compartmentId == cid)

/-- The update of a compartment that has lost `n` chunks. -/
def Compartment.lose (s : Store F D) (n : Nat) (vc : Compartment) : Compartment :=
  { vc with
    vectorCount := max (vc.vectorCount - n) 0
    annIndexStatus := if (s.annIndex? vc.compartmentId).isSome then .stale else vc.annIndexStatus }

def removeChunks (s : Store F D) (ids : List (Option Int)) : Store F D :=
  let gone (id : Int) := s.chunks.any fun c => c.named ids && c.chunkId == id
  { s with
    chunks := deleteWhere (Chunk.named ids) s.chunks
    deltas := deleteWhere (fun d => gone d.chunkId) s.deltas
    tombstones := deleteWhere gone s.tombstones
    compartments := updateWhere (fun vc => decide (goneFrom s ids vc.compartmentId ≠ 0))
      (fun vc => vc.lose s (goneFrom s ids vc.compartmentId)) s.compartments }

/-- `_vector_chunks_delete`, with the number it returns. -/
def vectorChunksDelete (s : Store F D) (ids : Option (List (Option Int))) :
    Except VectorError (Store F D × Nat) :=
  match ids with
  | none => .ok (s, 0)
  | some [] => .ok (s, 0)
  | some ids =>
    let touched := s.compartments.filter fun vc => decide (goneFrom s ids vc.compartmentId ≠ 0)
    let n := touched.foldl (fun n vc => n + goneFrom s ids vc.compartmentId) 0
    if 2147483647 < n then .error .integerOutOfRange else .ok (removeChunks s ids, n)

/-! ## Documents -/

/-- The `document_id` of a chunk. -/
structure ChunkDocument where
  chunkId : Int
  documentId : Int
  deriving DecidableEq, Repr

structure Library (F D : Type) where
  store : Store F D
  chunkDocuments : List ChunkDocument
  documents : List Int

/-- The chunks of a document. -/
def Library.chunksOf (l : Library F D) (doc : Int) : List Int :=
  (l.store.chunks.filter fun c => l.chunkDocuments.contains ⟨c.chunkId, doc⟩).map Chunk.chunkId

/-- `_document_chunks_cleanup_tg` for one deleted document. -/
def documentChunksCleanup (l : Library F D) (doc : Int) : Except VectorError (Library F D) :=
  (vectorChunksDelete l.store (some ((l.chunksOf doc).map some))).map fun r =>
    { l with store := r.1 }

/-- `DELETE FROM malu$document` of the rows `docs`; the trigger runs after it, once for each row. -/
def deleteDocuments (l : Library F D) (docs : List Int) : Except VectorError (Library F D) :=
  (l.documents.filter docs.contains).foldlM documentChunksCleanup
    { l with documents := deleteWhere docs.contains l.documents }

/-- The operations of a run. -/
inductive LibraryOp (F : Type) where
  | vector (op : VectorOp F)
  | assignDocument (chunk : Int) (doc : Option Int)
  | insertDocument (doc : Int)
  | deleteChunks (ids : Option (List (Option Int)))
  | deleteDocuments (docs : List Int)

/-- `UPDATE malu$vector_chunk SET document_id = … WHERE chunk_id = …`. -/
def assignDocument (l : Library F D) (chunk : Int) (doc : Option Int) : Library F D :=
  if (l.store.chunk? chunk).isSome then
    { l with chunkDocuments :=
        deleteWhere (·.chunkId == chunk) l.chunkDocuments ++
          (doc.map fun d => ⟨chunk, d⟩).toList }
  else l

def libraryStep [LT D] [DecidableLT D] [BEq D] (ar : Arith F D) (l : Library F D) :
    LibraryOp F → Library F D
  | .vector op => { l with store := vectorStep ar l.store op }
  | .assignDocument chunk doc => assignDocument l chunk doc
  | .insertDocument doc => { l with documents := l.documents ++ [doc] }
  | .deleteChunks ids =>
    commitOr l ((vectorChunksDelete l.store ids).map fun r => { l with store := r.1 })
  | .deleteDocuments docs => commitOr l (deleteDocuments l docs)

/-! ## What the operations do to the store -/

section

variable {s s' : Store F D}

theorem vectorChunksDelete_eq_ok {ids : Option (List (Option Int))} {n : Nat}
    (h : vectorChunksDelete s ids = .ok (s', n)) :
    s' = s ∨ ∃ ids', ids = some ids' ∧ s' = removeChunks s ids' := by
  unfold vectorChunksDelete at h
  split at h
  · cases h
    exact .inl rfl
  · cases h
    exact .inl rfl
  rename_i ids' _
  dsimp only at h
  split at h
  · cases h
  · cases h
    exact .inr ⟨ids', rfl, rfl⟩

variable {I : Store F D → Prop}

theorem vectorChunksDelete_inv (hremove : ∀ s ids, I s → I (removeChunks s ids)) (h : I s)
    {ids : Option (List (Option Int))} {n : Nat} (hdel : vectorChunksDelete s ids = .ok (s', n)) :
    I s' := by
  obtain rfl | ⟨ids', -, rfl⟩ := vectorChunksDelete_eq_ok hdel
  · exact h
  · exact hremove s ids' h

/-- **An invariant of the vector operations that removing chunks keeps is kept by all operations.**
The trigger runs once for each document, on what the ones before it have left. -/
theorem libraryStep_inv [LT D] [DecidableLT D] [BEq D] {ar : Arith F D}
    (hvector : ∀ s op, I s → I (vectorStep ar s op))
    (hremove : ∀ s ids, I s → I (removeChunks s ids)) (l : Library F D) (op : LibraryOp F)
    (h : I l.store) : I (libraryStep ar l op).store := by
  cases op with
  | vector op => exact hvector l.store op h
  | assignDocument chunk doc =>
    simp only [libraryStep, assignDocument]
    split
    · exact h
    · exact h
  | insertDocument doc => exact h
  | deleteChunks ids =>
    refine commitOr_of (P := fun l : Library F D => I l.store) h fun l' hl' => ?_
    obtain ⟨r, hdel, rfl⟩ := map_eq_ok.mp hl'
    exact vectorChunksDelete_inv hremove h hdel
  | deleteDocuments docs =>
    refine commitOr_of (P := fun l : Library F D => I l.store) h fun l' hl' => ?_
    unfold deleteDocuments at hl'
    refine foldlM_induct (I := fun l : Library F D => I l.store) ?_ ?_ hl'
    · intro doc _ l₀ l₁ h₀ hdoc
      obtain ⟨r, hdel, rfl⟩ := map_eq_ok.mp hdoc
      exact vectorChunksDelete_inv hremove h₀ hdel
    · exact h

end

/-! ## The counts -/

def chunkRows (s : Store F D) (cid : Int) : Nat := s.chunks.countP (·.compartmentId == cid)

def CountsTrue (s : Store F D) : Prop :=
  ∀ vc ∈ s.compartments, vc.vectorCount = chunkRows s vc.compartmentId

variable {s s' : Store F D}

theorem chunkRows_removeChunks (s : Store F D) (ids : List (Option Int)) (cid : Int) :
    chunkRows (removeChunks s ids) cid + goneFrom s ids cid = chunkRows s cid := by
  have hsplit := (filter_append_perm (Chunk.named ids) s.chunks).countP_eq
    (·.compartmentId == cid)
  rw [countP_append] at hsplit
  rw [Nat.add_comm]
  exact hsplit

theorem CountsTrue.removeChunks (h : CountsTrue s) (ids : List (Option Int)) :
    CountsTrue (removeChunks s ids) := by
  intro vc hvc
  obtain ⟨vc₀, hvc₀, rfl⟩ := mem_updateWhere.mp hvc
  have hcount := h vc₀ hvc₀
  have hrows := chunkRows_removeChunks s ids vc₀.compartmentId
  split
  · -- the chunks that go were counted, so `GREATEST` changes nothing
    show max (vc₀.vectorCount - goneFrom s ids vc₀.compartmentId) 0 =
      chunkRows (Vector.removeChunks s ids) vc₀.compartmentId
    omega
  · rename_i hzero
    rw [decide_eq_true_eq, not_not] at hzero
    omega

theorem CountsTrue.updateCompartment (h : CountsTrue s) (cid : Int) {f : Compartment → Compartment}
    (hf : ∀ c, (f c).vectorCount = c.vectorCount ∧ (f c).compartmentId = c.compartmentId) :
    CountsTrue (s.updateCompartment cid f) := by
  intro vc hvc
  obtain ⟨vc₀, hvc₀, rfl⟩ := mem_updateWhere.mp hvc
  split
  · rw [(hf vc₀).1, (hf vc₀).2]
    exact h vc₀ hvc₀
  · exact h vc₀ hvc₀

theorem CountsTrue.counted (h : CountsTrue s) (c : Chunk F D) : CountsTrue (counted s c) := by
  intro vc hvc
  obtain ⟨vc₀, hvc₀, rfl⟩ := mem_updateWhere.mp hvc
  have hcount := h vc₀ hvc₀
  have hrows : ∀ cid, chunkRows (Coverage.counted s c) cid =
      chunkRows s cid + if c.compartmentId = cid then 1 else 0 := by
    intro cid
    show (s.chunks ++ [c]).countP _ = _
    rw [countP_append, countP_singleton]
    simp only [chunkRows, beq_iff_eq]
  split
  · rename_i hcid
    show vc₀.vectorCount + 1 = chunkRows (Coverage.counted s c) vc₀.compartmentId
    rw [hrows, if_pos (beq_iff_eq.mp hcid).symm]
    omega
  · rename_i hcid
    rw [hrows, if_neg fun heq => hcid (beq_iff_eq.mpr heq.symm)]
    exact hcount

theorem CountsTrue.finished (h : CountsTrue s) (idx : AnnIndex F) :
    CountsTrue (finished s idx) := by
  have hmarked : CountsTrue (marked s idx.compartmentId) :=
    h.updateCompartment _ fun _ => ⟨rfl, rfl⟩
  exact CountsTrue.updateCompartment (s := drained s idx) hmarked _ fun _ => ⟨rfl, rfl⟩

variable [LT D] [DecidableLT D] [BEq D] {ar : Arith F D}

theorem CountsTrue.vectorStep (h : CountsTrue s) (op : VectorOp F) :
    CountsTrue (vectorStep ar s op) := by
  have hout := vectorStep_outcome ar s op
  generalize Vector.vectorStep ar s op = s' at hout
  cases hout with
  | unchanged => exact h
  | registered hreg =>
    obtain ⟨c, t, -, -, rfl, -, rfl⟩ := registerVectorChunk_eq_ok hreg
    split
    · exact (h.counted _).updateCompartment _ fun _ => ⟨rfl, rfl⟩
    · exact h.counted _
  | tombstoned htomb =>
    obtain ⟨_, _, -, rfl, rfl | rfl⟩ := tombstoneVectorChunk_eq_ok htomb
    · exact h
    · exact h.updateCompartment _ fun _ => ⟨rfl, rfl⟩
  | built hbuild =>
    obtain ⟨c, g, -, -, -, rfl⟩ := annBuild_eq_ok hbuild
    exact h.finished _
  | rebuilt hrebuild =>
    obtain ⟨idx, s₁, -, hbuild, rfl⟩ := annRebuild_eq_ok hrebuild
    obtain ⟨c, g, -, -, -, rfl⟩ := annBuild_eq_ok hbuild
    exact h.finished _

/-- **`vector_count` is the number of chunk rows**, after any registrations, chunk deletions,
document deletions and other operations in any order. -/
theorem vectorCount_run (l : Library F D) (h : CountsTrue l.store) (ops : List (LibraryOp F)) :
    ∀ vc ∈ (run (libraryStep ar) l ops).store.compartments,
      vc.vectorCount = chunkRows (run (libraryStep ar) l ops).store vc.compartmentId :=
  run_inv (I := fun l : Library F D => CountsTrue l.store)
    (libraryStep_inv (fun _ op hs => hs.vectorStep op) fun _ ids hs => hs.removeChunks ids) ops h

def documentRun : List (LibraryOp Int) :=
  [.vector (.register 1 (some "a") [1] none), .vector (.register 1 (some "b") [1] none),
    .insertDocument 5, .assignDocument 1 (some 5), .deleteDocuments [5], .deleteDocuments [5],
    .deleteChunks (some [some 1, none])]

theorem vectorCount_documentRun :
    CountsTrue oneCompartment ∧
      (run (libraryStep intArith) ⟨oneCompartment, [], []⟩ documentRun).store.compartments.map
        Compartment.vectorCount = [1] ∧
      ∀ vc ∈ (run (libraryStep intArith) ⟨oneCompartment, [], []⟩ documentRun).store.compartments,
        vc.vectorCount = chunkRows
          (run (libraryStep intArith) ⟨oneCompartment, [], []⟩ documentRun).store
          vc.compartmentId := by
  have hstart : CountsTrue oneCompartment := by
    unfold CountsTrue
    decide
  exact ⟨hstart, by decide, vectorCount_run ⟨oneCompartment, [], []⟩ hstart documentRun⟩

end MaluDb.Vector
