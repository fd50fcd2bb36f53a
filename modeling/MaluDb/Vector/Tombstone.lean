import MaluDb.Vector.Reads

/-!
# Tombstoned chunks and rebuilds

Every search path filters `malu$vector_tombstone`. `ann_rebuild` deletes the tombstones of its
compartment and keeps the chunk rows.
-/

namespace MaluDb.Vector

open MaluDb.Lib MaluDb.Lib.Heap

variable {F D : Type} [LT D] [DecidableLT D] [BEq D] (ar : Arith F D)

/-- The entry points that search: the two exact functions and the dispatcher, whose `local_ann`
branch is the third mode. -/
inductive SearchMethod (F : Type) where
  | exactC
  | parallelC (pl : Planner (TopKRow F))
  | sql (pl : Planner (TopKRow F))

/-- A search call. -/
structure SearchCall (F : Type) where
  method : SearchMethod F
  compartment : Int
  query : Vec F
  limit : Int
  metric : Option String

def search (s : Store F D) (c : SearchCall F) : Except VectorError (List (ResultRow D)) :=
  match c.method with
  | .exactC => exactVectorSearchC ar s c.compartment c.query c.limit c.metric
  | .parallelC pl => exactVectorSearchParallelC ar pl s c.compartment c.query c.limit c.metric
  | .sql pl => exactVectorSearchSql ar pl s c.compartment c.query c.limit c.metric

/-- The operations of a run. -/
inductive VectorOp (F : Type) where
  | register (compartment : Int) (text : Option String) (emb : Vec F) (model : Option String)
  | tombstone (chunk : Int)
  | build (compartment m ef efSearch : Int)
  | rebuild (compartment : Int)
  | search (call : SearchCall F)

def vectorStep (s : Store F D) : VectorOp F → Store F D
  | .register c t e m => commitOr s ((registerVectorChunk ar s c t e m).map Prod.fst)
  | .tombstone id => commitOr s (tombstoneVectorChunk s id)
  | .build c m ef efs => commitOr s ((annBuild ar s c m ef efs).map Prod.fst)
  | .rebuild c => commitOr s ((annRebuild ar s c).map Prod.fst)
  | .search _ => s

/-- What an operation leaves: the store as it was if it raises or only searches. -/
inductive Outcome (s : Store F D) : VectorOp F → Store F D → Prop
  | unchanged {op : VectorOp F} : Outcome s op s
  | registered {c : Int} {text : Option String} {emb : Vec F} {model : Option String}
    {s' : Store F D} {id : Int} (h : registerVectorChunk ar s c text emb model = .ok (s', id)) :
    Outcome s (.register c text emb model) s'
  | tombstoned {id : Int} {s' : Store F D} (h : tombstoneVectorChunk s id = .ok s') :
    Outcome s (.tombstone id) s'
  | built {c m ef efs : Int} {s' : Store F D} {n : Nat}
    (h : annBuild ar s c m ef efs = .ok (s', n)) : Outcome s (.build c m ef efs) s'
  | rebuilt {c : Int} {s' : Store F D} {n : Nat} (h : annRebuild ar s c = .ok (s', n)) :
    Outcome s (.rebuild c) s'

theorem vectorStep_outcome (s : Store F D) (op : VectorOp F) :
    Outcome ar s op (vectorStep ar s op) := by
  cases op with
  | register c text emb model =>
    simp only [vectorStep]
    cases h : registerVectorChunk ar s c text emb model with
    | error e => exact .unchanged
    | ok r => exact .registered h
  | tombstone id =>
    simp only [vectorStep]
    cases h : tombstoneVectorChunk s id with
    | error e => exact .unchanged
    | ok s' => exact .tombstoned h
  | build c m ef efs =>
    simp only [vectorStep]
    cases h : annBuild ar s c m ef efs with
    | error e => exact .unchanged
    | ok r => exact .built h
  | rebuild c =>
    simp only [vectorStep]
    cases h : annRebuild ar s c with
    | error e => exact .unchanged
    | ok r => exact .rebuilt h
  | search call => exact .unchanged

/-! ## The searches filter tombstones -/

/-- **No search returns a chunk that has a tombstone row.** -/
theorem search_not_tombstoned {s : Store F D} {rows : List (ResultRow D)} {call : SearchCall F}
    (h : search ar s call = .ok rows) : ∀ r ∈ rows, r.chunkId ∉ s.tombstones := by
  intro r hr
  unfold search at h
  split at h
  · obtain ⟨c, hc, hid⟩ := exactVectorSearchC_live ar h r hr
    exact hid ▸ (mem_liveChunks.mp hc).2.2
  · obtain ⟨c, hc, hid⟩ := exactVectorSearchParallelC_live ar h r hr
    exact hid ▸ (mem_liveChunks.mp hc).2.2
  · obtain ⟨c, -, hid, ht, -⟩ := exactVectorSearchSql_rows ar h r hr
    exact hid ▸ ht

/-! ## What the writes do to the tombstones -/

section

variable {s s' : Store F D} {cid : Int}

omit [LT D] [DecidableLT D] in
theorem registerVectorChunk_tombstones {text : Option String} {emb : Vec F}
    {model : Option String} {id : Int}
    (h : registerVectorChunk ar s cid text emb model = .ok (s', id)) :
    s'.tombstones = s.tombstones := by
  unfold registerVectorChunk at h
  split at h
  · cases h
  split at h
  · cases h
  split at h
  · cases h
  split at h
  · cases h
  · dsimp only at h
    split at h <;> cases h <;> rfl

omit [LT D] [DecidableLT D] [BEq D] in
theorem tombstoneVectorChunk_eq_ok {id : Int} (h : tombstoneVectorChunk s id = .ok s') :
    ∃ c compartments, s.chunk? id = some c ∧ s' = { s with
        compartments
        tombstones := if id ∈ s.tombstones then s.tombstones else s.tombstones ++ [id] } ∧
      (compartments = s.compartments ∨ compartments = (s.updateCompartment c.compartmentId
        fun c => { c with annIndexStatus := .stale }).compartments) := by
  unfold tombstoneVectorChunk at h
  split at h
  · cases h
  rename_i c hc
  dsimp only at h
  split at h
  · cases h
    exact ⟨c, _, hc, rfl, .inl rfl⟩
  · cases h
    exact ⟨c, _, hc, rfl, .inr rfl⟩

omit [LT D] [DecidableLT D] [BEq D] in
theorem tombstoneVectorChunk_tombstones {id : Int} (h : tombstoneVectorChunk s id = .ok s') :
    s'.tombstones = if id ∈ s.tombstones then s.tombstones else s.tombstones ++ [id] := by
  obtain ⟨_, _, -, rfl, -⟩ := tombstoneVectorChunk_eq_ok h
  rfl

theorem annBuild_frame {m ef efs : Int} {n : Nat} (h : annBuild ar s cid m ef efs = .ok (s', n)) :
    s'.chunks = s.chunks ∧ s'.tombstones = s.tombstones := by
  unfold annBuild at h
  split at h
  · cases h
  dsimp only at h
  split at h
  · cases h
  split at h
  · cases h
  · cases h
    exact ⟨rfl, rfl⟩

theorem mem_annRebuild_tombstones {n : Nat} (h : annRebuild ar s cid = .ok (s', n)) {t : Int} :
    t ∈ s'.tombstones ↔
      t ∈ s.tombstones ∧ ¬ ∃ c ∈ s.chunks, c.chunkId = t ∧ c.compartmentId = cid := by
  unfold annRebuild at h
  split at h
  · cases h
  split at h
  · cases h
  rename_i s₁ n₁ hb
  obtain ⟨hc, ht⟩ := annBuild_frame ar hb
  cases h
  unfold clearTombstones
  simp only [mem_deleteWhere, hc, ht, List.any_eq_false, Bool.and_eq_true, beq_iff_eq,
    not_exists, not_and]

end

/-! ## Runs -/

/-- The condition on a step: a rebuild finds no tombstoned chunk in its compartment, unless it
raises because there is no index. -/
def RebuildsClean (s : Store F D) : VectorOp F → Prop
  | .rebuild c => s.annIndex? c = none ∨
      ∀ ch ∈ s.chunks, ch.compartmentId = c → ch.chunkId ∉ s.tombstones
  | _ => True

theorem Outcome.tombstones {ar : Arith F D} {s s' : Store F D} {op : VectorOp F}
    (h : Outcome ar s op s') (hop : RebuildsClean s op) {t : Int} (ht : t ∈ s.tombstones) :
    t ∈ s'.tombstones := by
  cases h with
  | unchanged => exact ht
  | registered h => rwa [registerVectorChunk_tombstones ar h]
  | tombstoned h =>
    rw [tombstoneVectorChunk_tombstones h]
    split
    · exact ht
    · exact List.mem_append_left _ ht
  | built h => rwa [(annBuild_frame ar h).2]
  | rebuilt h =>
    have hclean := hop.resolve_left fun hn => by
      unfold annRebuild at h
      rw [hn] at h
      cases h
    refine (mem_annRebuild_tombstones ar h).mpr ⟨ht, ?_⟩
    rintro ⟨ch, hch, rfl, hc⟩
    exact hclean ch hch hc ht

/-- **A chunk once tombstoned is never returned again**, in a run whose rebuilds find no
tombstoned chunk in their compartment. -/
theorem tombstoned_never_returned (s₀ : Store F D) (before after : List (VectorOp F))
    (hrun : Along (vectorStep ar) RebuildsClean s₀ (before ++ after)) (id : Int)
    (hid : id ∈ (run (vectorStep ar) s₀ before).tombstones) (call : SearchCall F)
    (rows : List (ResultRow D))
    (hsearch : search ar (run (vectorStep ar) s₀ (before ++ after)) call = .ok rows) :
    ∀ r ∈ rows, r.chunkId ≠ id := by
  have hkeep : id ∈ (run (vectorStep ar) s₀ (before ++ after)).tombstones := by
    rw [run_append]
    exact run_induct (I := fun s => id ∈ s.tombstones)
      (fun s op ht hop => (vectorStep_outcome ar s op).tombstones hop ht) _ _ hid
      (along_append.mp hrun).2
  intro r hr heq
  exact search_not_tombstoned ar hsearch r hr (heq ▸ hkeep)

def oneCompartment : Store Int Int :=
  { compartments := [⟨1, 1, "m", .l2, 0, .exact, .none⟩], chunks := [], annIndexes := []
    deltas := [], tombstones := [], nextChunkId := 1 }

/-- A sequential plan. -/
def scanPlanner : Planner (TopKRow Int) := ⟨Plan.scan, fun _ => List.Perm.refl _⟩

def tombstoneRun : List (VectorOp Int) :=
  [.register 1 (some "t") [1] none, .build 1 16 64 32, .tombstone 1]

/-- Two chunks, a rebuild, and then the tombstone of one of them. -/
def rebuiltRun : List (VectorOp Int) :=
  [.register 1 (some "t") [1] none, .build 1 16 64 32, .register 1 (some "u") [-1] none,
    .rebuild 1, .tombstone 1]

theorem tombstoned_never_returned_oneCompartment :
    search intArith (run (vectorStep intArith) oneCompartment (rebuiltRun ++ [.build 1 16 64 32]))
        ⟨.exactC, 1, [1], 10, some "l2"⟩ = .ok [⟨2, some "u", 4, -4, 1⟩] ∧
      ∀ r ∈ [(⟨2, some "u", 4, -4, 1⟩ : ResultRow Int)], r.chunkId ≠ 1 := by
  refine ⟨rfl, ?_⟩
  exact tombstoned_never_returned intArith oneCompartment rebuiltRun [.build 1 16 64 32]
    ⟨trivial, trivial, trivial, .inr (by decide), trivial, trivial, trivial⟩ 1 (by decide)
    ⟨.exactC, 1, [1], 10, some "l2"⟩ _ rfl

/-- A rebuild after the tombstone: the exact search returns the chunk at once, and after one more
rebuild so does the `local_ann` search. -/
theorem rebuild_revives :
    1 ∈ (run (vectorStep intArith) oneCompartment tombstoneRun).tombstones ∧
      search intArith (run (vectorStep intArith) oneCompartment (tombstoneRun ++ [.rebuild 1]))
        ⟨.exactC, 1, [1], 10, some "l2"⟩ = .ok [⟨1, some "t", 0, 0, 1⟩] ∧
      search intArith
        (run (vectorStep intArith) oneCompartment (tombstoneRun ++ [.rebuild 1, .rebuild 1]))
        ⟨.sql scanPlanner, 1, [1], 10, none⟩ = .ok [⟨1, some "t", 0, 0, 1⟩] :=
  ⟨by decide, rfl, rfl⟩

end MaluDb.Vector
