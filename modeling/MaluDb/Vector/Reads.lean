import MaluDb.Vector.Store

/-!
# What a search reads

The search of a compartment reads its row, its live chunks, its index and its delta rows, and the
chunks these two name, which are joined with `malu$vector_chunk` by chunk id alone.
-/

namespace MaluDb.Vector

open MaluDb.Lib MaluDb.Lib.Heap List HeapEntry

variable {F D : Type}

/-- The chunk ids that the index or the delta of a compartment names. An edge out of range reads as
id 0. -/
def Names (s : Store F D) (cid id : Int) : Prop :=
  id = 0 ∨ (∃ idx, s.annIndex? cid = some idx ∧ id ∈ idx.graph.chunkIds) ∨ ⟨cid, id⟩ ∈ s.deltas

variable {s : Store F D} {cid : Int} {c : Chunk F D}

theorem mem_liveChunks :
    c ∈ s.liveChunks cid ↔ c ∈ s.chunks ∧ c.compartmentId = cid ∧ c.chunkId ∉ s.tombstones := by
  simp [Store.liveChunks]

theorem compartment?_updateCompartment {c : Compartment} {f : Compartment → Compartment}
    (hf : ∀ c, (f c).compartmentId = c.compartmentId) (hc : s.compartment? cid = some c) :
    (s.updateCompartment cid f).compartment? cid = some (f c) := by
  refine (find?_updateWhere (fun c _ => by rw [hf c]) s.compartments).trans ?_
  have hid : c.compartmentId = cid := (mem_of_find?_key hc).2
  show (s.compartment? cid).map _ = _
  rw [hc, Option.map_some, if_pos (beq_iff_eq.mpr hid)]

theorem mem_of_chunk? {id : Int} (h : s.chunk? id = some c) : c ∈ s.chunks ∧ c.chunkId = id :=
  ⟨mem_of_find?_eq_some h, by simpa using find?_some h⟩

theorem mem_deltasOf {d : Delta} (h : d ∈ s.deltas.filter (·.compartmentId == cid)) :
    ⟨cid, d.chunkId⟩ ∈ s.deltas := by
  obtain ⟨hd, hcid⟩ := mem_filter.mp h
  rw [← beq_iff_eq.mp hcid]
  exact hd

theorem mem_deltaChunks (h : c ∈ deltaChunks s cid) :
    c ∈ s.chunks ∧ c.chunkId ∉ s.tombstones ∧ ⟨cid, c.chunkId⟩ ∈ s.deltas := by
  obtain ⟨hmem, ht⟩ := mem_filter.mp h
  obtain ⟨d, hd, hc⟩ := mem_filterMap.mp hmem
  obtain ⟨hc, hid⟩ := mem_of_chunk? hc
  refine ⟨hc, by simpa using ht, ?_⟩
  rw [hid]
  exact mem_deltasOf hd

/-! ## The rows -/

section

variable [LT D] [DecidableLT D] (ar : Arith F D) {s : Store F D} {cid : Int} {q : Vec F} {k : Int}
  {metric : Option String} {rows : List (ResultRow D)}

theorem exactScan_mem {metric : Metric} {cs : List (Chunk F D)} {heap : List (HeapEntry String D)}
    (h : cs.foldlM (exactOffer ar metric q k) [] = .ok heap) :
    ∀ e ∈ heap, ∃ c ∈ cs, c.chunkId = e.chunkId := by
  refine foldlM_induct (I := fun heap => ∀ e ∈ heap, ∃ c ∈ cs, c.chunkId = e.chunkId)
    (fun c hc b b' hb ho e he => ?_) (by simp) h
  obtain ⟨dist, -, rfl⟩ := map_eq_ok.mp ho
  rcases mem_of_mem_push he with rfl | he
  · exact ⟨c, hc, rfl⟩
  · exact hb e he

theorem exactVectorSearchC_live (h : exactVectorSearchC ar s cid q k metric = .ok rows) :
    ∀ r ∈ rows, ∃ c ∈ s.liveChunks cid, c.chunkId = r.chunkId := by
  unfold exactVectorSearchC at h
  split at h
  · cases h
  split at h
  · cases h
  split at h
  · cases h
  obtain ⟨heap, hs, rfl⟩ := map_eq_ok.mp h
  intro r hr
  obtain ⟨i, hi, rfl⟩ := mem_mapIdx.mp hr
  have hmem : (qsortHeap heap)[i] ∈ heap :=
    (perm_insertionSort _ heap).mem_iff.mp (getElem_mem hi)
  exact exactScan_mem ar hs _ hmem

variable {limit : Int}

theorem of_mem_rankHits {hits : List (Hit D)} {r : ResultRow D} (h : r ∈ rankHits s limit hits) :
    ∃ hit i c, (hits.insertionSort fun a b => hitLe a b = true)[i]? = some hit ∧
      s.chunk? hit.cid = some c ∧ r = ⟨hit.cid, some c.sourceText, hit.d, hit.s, i + 1⟩ := by
  obtain ⟨⟨hit, i⟩, hi, hr⟩ := mem_filterMap.mp h
  obtain ⟨c, hc, rfl⟩ := Option.map_eq_some_iff.mp hr
  obtain ⟨hle, hget⟩ := mk_mem_zipIdx_iff_le_and_getElem?_sub.mp (mem_filter.mp hi).1
  exact ⟨hit, i - 1, c, hget, hc, by rw [Nat.sub_add_cancel hle]⟩

theorem mem_rankHits {hits : List (Hit D)} {r : ResultRow D} (h : r ∈ rankHits s limit hits) :
    ∃ hit ∈ hits, hit.cid = r.chunkId ∧ hit.d = r.distance ∧ hit.s = r.similarity ∧
      ∃ c, s.chunk? r.chunkId = some c := by
  obtain ⟨hit, i, c, hget, hc, rfl⟩ := of_mem_rankHits h
  exact ⟨hit, (mem_insertionSort _).mp (mem_of_getElem? hget), rfl, rfl, rfl, c, hc⟩

variable [BEq D]

theorem exactVectorSearchParallelC_live {pl : Planner (TopKRow F)}
    (h : exactVectorSearchParallelC ar pl s cid q k metric = .ok rows) :
    ∀ r ∈ rows, ∃ c ∈ s.liveChunks cid, c.chunkId = r.chunkId := by
  unfold exactVectorSearchParallelC at h
  split at h
  · cases h
  split at h
  · cases h
  obtain ⟨res, hres, rfl⟩ := map_eq_ok.mp h
  unfold topkVectorSearch at hres
  split at hres
  · cases hres
  rename_i st hp
  intro r hr
  cases st with
  | none =>
    cases hres
    cases hr
  | some st =>
    obtain ⟨es, hes, rfl⟩ := map_eq_ok.mp hres
    obtain ⟨i, hi, rfl⟩ := mem_mapIdx.mp hr
    obtain ⟨e, he, hjson⟩ := mem_of_mapM_eq_ok hes (getElem_mem hi)
    have hmem : e ∈ st.heap := (perm_insertionSort _ st.heap).mem_iff.mp he
    obtain ⟨row, hrow, hid⟩ := partialState_mem hp hmem
    obtain ⟨c, hc, rfl⟩ := mem_map.mp ((pl.rows_perm _).mem_iff.mp hrow)
    refine ⟨c, hc, (Option.some.inj hid).trans ?_⟩
    exact (jsonEntry_eq_ok.mp hjson).2.2.1.symm

omit [LT D] [DecidableLT D] in
theorem deltaHit_cid {metric : Metric} {c : Chunk F D} {hit : Hit D}
    (h : deltaHit ar metric q c = .ok hit) : hit.cid = c.chunkId := by
  unfold deltaHit at h
  split at h <;>
  · obtain ⟨x, -, rfl⟩ := map_eq_ok.mp h
    rfl

theorem mem_annSearchC {g : AnnGraph F} {efs : Int} {hits : List (AnnHit D)}
    (h : annSearchC ar g q k efs metric = .ok hits) :
    ∀ hit ∈ hits, hit.chunkId = 0 ∨ hit.chunkId ∈ g.chunkIds := by
  obtain rfl | ⟨-, -, _, -, rfl⟩ := annSearchC_eq_ok h
  · exact by simp
  intro hit hhit
  obtain ⟨i, hi, rfl⟩ := mem_mapIdx.mp hhit
  dsimp only
  rcases hget : g.chunkIds[_]? with - | id
  · exact .inl rfl
  · exact .inr (mem_of_getElem? hget)

theorem localAnnSearch_live {idx : AnnIndex F} {metric : String}
    (hidx : s.annIndex? cid = some idx)
    (h : localAnnSearch ar s cid idx q limit metric = .ok rows) :
    ∀ r ∈ rows, ∃ c ∈ s.chunks, c.chunkId = r.chunkId ∧ c.chunkId ∉ s.tombstones ∧
      Names s cid c.chunkId := by
  obtain ⟨fetch, -, h⟩ := bind_eq_ok.mp h
  obtain ⟨annHits, hann, h⟩ := bind_eq_ok.mp h
  obtain ⟨metric, -, h⟩ := bind_eq_ok.mp h
  obtain ⟨deltaHits, hdelta, h⟩ := bind_eq_ok.mp h
  cases h
  intro r hr
  obtain ⟨hit, hmem, hid, -, -, c, hc⟩ := mem_rankHits hr
  obtain ⟨hc, hcid⟩ := mem_of_chunk? hc
  refine ⟨c, hc, hcid, ?_⟩
  rw [hcid, ← hid]
  rcases mem_append.mp hmem with hmem | hmem
  · obtain ⟨a, ha, rfl⟩ := mem_map.mp hmem
    obtain ⟨ha, ht⟩ := mem_filter.mp ha
    refine ⟨by simpa using ht, ?_⟩
    exact (mem_annSearchC ar hann a ha).imp_right fun h => .inl ⟨idx, hidx, h⟩
  obtain ⟨c', hc', hd⟩ := mem_of_mapM_eq_ok hdelta hmem
  rw [deltaHit_cid ar hd]
  obtain ⟨-, ht, hd⟩ := mem_deltaChunks hc'
  exact ⟨ht, .inr (.inr hd)⟩

theorem exactVectorSearchSql_rows {pl : Planner (TopKRow F)}
    (h : exactVectorSearchSql ar pl s cid q k metric = .ok rows) :
    ∀ r ∈ rows, ∃ c ∈ s.chunks, c.chunkId = r.chunkId ∧ c.chunkId ∉ s.tombstones ∧
      (c.compartmentId = cid ∨ Names s cid c.chunkId) := by
  have hlive : ∀ {rows : List (ResultRow D)},
      (∀ r ∈ rows, ∃ c ∈ s.liveChunks cid, c.chunkId = r.chunkId) → ∀ r ∈ rows,
        ∃ c ∈ s.chunks, c.chunkId = r.chunkId ∧ c.chunkId ∉ s.tombstones ∧
          (c.compartmentId = cid ∨ Names s cid c.chunkId) := by
    intro rows h r hr
    obtain ⟨c, hc, hid⟩ := h r hr
    obtain ⟨hc, hcid, ht⟩ := mem_liveChunks.mp hc
    exact ⟨c, hc, hid, ht, .inl hcid⟩
  unfold exactVectorSearchSql at h
  split at h
  · cases h
  split at h
  · cases h
  split at h
  · split at h
    · cases h
    rename_i idx hidx
    intro r hr
    obtain ⟨c, hc, hid, ht, hnames⟩ := localAnnSearch_live ar hidx h r hr
    exact ⟨c, hc, hid, ht, .inr hnames⟩
  · exact hlive (exactVectorSearchParallelC_live ar h)
  · exact hlive (exactVectorSearchC_live ar h)

end

/-! ## Two stores -/

section

variable {s s' : Store F D} {cid : Int}

variable [LT D] [DecidableLT D]

variable [BEq D] (ar : Arith F D)

end

/-! ## A search with room for everything -/

section

variable [LT D] [DecidableLT D] (ar : Arith F D) {q : Vec F} {k : Int}

end

end MaluDb.Vector
