import MaluDb.Vector.Tombstone
import MaluDb.Vector.TopKOrder

/-!
# The exact search against the sorted table

`maludb_exact_vector_search_c` is meant to return the query that sorts all live chunks by (distance,
chunk id) and takes the first rows: `referenceSearch`.

The two modes `exact` and `exact_parallel` differ in how a row travels: the aggregate keeps an empty
text as NULL (`keptText`), allocates its heap for the limit, not for the rows there are, and sends
its numbers through JSON; the scan keeps all as it is (`src/maludb_search.c:225-307`,
`src/maludb_topk.c:170-224`).

Results:

* `exactSearch_reference_iff`: when the exact search is the sorted table.
* `modes_agree_iff`: when the two modes agree.
-/

namespace MaluDb.Vector

open MaluDb.Lib MaluDb.Lib.Heap List HeapEntry

variable {F D : Type}

/-- The heap entry of a chunk in the scan. -/
def exactEntry (ar : Arith F D) (metric : Metric) (q : Vec F) (c : Chunk F D) :
    HeapEntry String D :=
  ⟨c.chunkId, some c.sourceText, annDistance ar metric q c.embedding,
    similarityOf ar metric (annDistance ar metric q c.embedding)⟩

/-- A result row without its rank. -/
def ResultRow.entry (r : ResultRow D) : HeapEntry String D :=
  ⟨r.chunkId, r.sourceText, r.distance, r.similarity⟩

theorem map_entry_numberRows (es : List (HeapEntry String D)) :
    (numberRows es).map ResultRow.entry = es := by
  refine ext_getElem? fun i => ?_
  rw [numberRows, getElem?_map, getElem?_mapIdx, Option.map_map]
  exact Option.map_id'

/-! ## The scan -/

section

variable [LT D] [DecidableLT D] (ar : Arith F D) (metric : Metric) {q : Vec F} {k : Int}

theorem exactScan_eq : ∀ {cs : List (Chunk F D)} {heap : List (HeapEntry String D)},
    (∀ c ∈ cs, c.embedding.length = q.length) → cs.foldlM (exactOffer ar metric q k) heap =
        .ok (pushAll (keyAbove distance) k.toNat heap (cs.map (exactEntry ar metric q)))
  | [], _, _ => rfl
  | c :: cs, heap, hdim => by
    have hoffer : exactOffer ar metric q k heap c =
        .ok (stateOffer k.toNat heap (exactEntry ar metric q c)) := by
      unfold exactOffer computeDistance
      rw [if_pos (hdim c mem_cons_self).symm]
      rfl
    rw [foldlM_cons, hoffer]
    exact exactScan_eq fun c' hc' => hdim c' (mem_cons_of_mem c hc')

/-- A limit that `maludb_exact_vector_search_c` takes for a table of `n` chunks: it is positive, and
the heap can be allocated. -/
def Room (k : Int) (n : Nat) : Prop := 0 < k ∧ 32 * min k n ≤ maxAllocSize

instance (k : Int) (n : Nat) : Decidable (Room k n) :=
  inferInstanceAs (Decidable (0 < k ∧ 32 * min k n ≤ maxAllocSize))

theorem Room.palloc {n : Nat} (h : Room k n) : palloc (32 * max (min k n) 1) = .ok () := by
  obtain ⟨hk, halloc⟩ := h
  unfold maxAllocSize at halloc
  refine palloc_eq_ok.mpr ?_
  unfold maxAllocSize
  omega

theorem Allowed.room (h : Allowed k) (n : Nat) : Room k n := by
  obtain ⟨hk, halloc⟩ := h
  exact ⟨hk, by omega⟩

/-- **The exact search is its heap, sorted.** -/
theorem exactVectorSearchC_eq (s : Store F D) (cid : Int) (hk : Room k (s.liveChunks cid).length)
    (hdim : ∀ c ∈ s.liveChunks cid, c.embedding.length = q.length) :
    exactVectorSearchC ar s cid q k (some metric.name) =
      .ok (numberRows (qsortHeap (pushAll (keyAbove distance) k.toNat []
        ((s.liveChunks cid).map (exactEntry ar metric q))))) := by
  unfold exactVectorSearchC
  rw [if_neg (by have := hk.1; omega)]
  simp only [Option.elim_some, parseMetric_name, hk.palloc, exactScan_eq ar metric hdim]
  rfl

theorem exactScan_ok : ∀ {cs : List (Chunk F D)} {heap heap' : List (HeapEntry String D)},
    cs.foldlM (exactOffer ar metric q k) heap = .ok heap' →
      ∀ c ∈ cs, c.embedding.length = q.length
  | [], _, _, _ => forall_mem_nil _
  | c :: cs, heap, heap', h => by
    rw [foldlM_cons, bind_eq_ok] at h
    obtain ⟨heap₁, hoffer, hscan⟩ := h
    obtain ⟨dist, hdist, -⟩ := map_eq_ok.mp hoffer
    refine forall_mem_cons.mpr ⟨?_, exactScan_ok hscan⟩
    unfold computeDistance at hdist
    split at hdist
    · rename_i hlen
      exact hlen.symm
    · cases hdist

/-- An answer was given for a limit and embeddings that the search takes. -/
theorem exactVectorSearchC_ok {s : Store F D} {cid : Int} {rows : List (ResultRow D)}
    (h : exactVectorSearchC ar s cid q k (some metric.name) = .ok rows) :
    Room k (s.liveChunks cid).length ∧ ∀ c ∈ s.liveChunks cid, c.embedding.length = q.length := by
  unfold exactVectorSearchC at h
  simp only [Option.elim_some, parseMetric_name] at h
  split at h
  · cases h
  split at h
  · cases h
  rename_i hk _ halloc
  have hle := palloc_eq_ok.mp halloc
  refine ⟨⟨by omega, by omega⟩, ?_⟩
  obtain ⟨heap, hscan, -⟩ := map_eq_ok.mp h
  exact exactScan_ok ar metric hscan

end

/-! ## Tables in another order -/

/-- The same tables, with the chunks in another physical order. -/
structure SameTable (s s' : Store F D) : Prop where
  chunks : s'.chunks.Perm s.chunks
  tombstones : s'.tombstones = s.tombstones

theorem SameTable.liveChunks {s s' : Store F D} (h : SameTable s s') (cid : Int) :
    (s'.liveChunks cid).Perm (s.liveChunks cid) := by
  unfold Store.liveChunks
  rw [h.tombstones]
  exact h.chunks.filter _

theorem exists_sameTable {s : Store F D} {cid : Int} {cs : List (Chunk F D)}
    (h : cs.Perm (s.liveChunks cid)) : ∃ s', SameTable s s' ∧ s'.liveChunks cid = cs := by
  let live := fun c : Chunk F D => c.compartmentId == cid && !s.tombstones.contains c.chunkId
  refine ⟨{ s with chunks := cs ++ s.chunks.filter fun c => !live c }, ⟨?_, rfl⟩, ?_⟩
  · exact (h.append_right _).trans (filter_append_perm live s.chunks)
  have hall : ∀ c ∈ cs, live c = true := fun c hc =>
    (mem_filter.mp (h.mem_iff.mp hc)).2
  show (cs ++ s.chunks.filter fun c => !live c).filter live = cs
  rw [filter_append, filter_eq_self.mpr hall, filter_filter,
    filter_eq_nil_iff.mpr fun c _ => by simp, append_nil]

theorem exists_perm_map {α β : Type} {f : α → β} {l : List α} {m : List β}
    (h : m.Perm (l.map f)) : ∃ l' : List α, l'.Perm l ∧ l'.map f = m := by
  have hrows : (l.filterMap fun a => some (f a)).Perm m := by
    rw [filterMap_eq_map']
    exact h.symm
  obtain ⟨l', hl', hm⟩ := exists_rows_of_perm hrows
  rw [filterMap_eq_map'] at hm
  exact ⟨l', hl', hm⟩

theorem eq_of_map_eq {α β : Type} {f : α → β} {all : List α} (hf : (all.map f).Nodup) :
    ∀ {l l' : List α}, l ⊆ all → l' ⊆ all → l.map f = l'.map f → l = l'
  | [], [], _, _, _ => rfl
  | x :: l, y :: l', hl, hl', h => by
    obtain ⟨hhead, htail⟩ := List.cons.inj h
    rw [cons_subset] at hl hl'
    rw [inj_on_of_nodup_map hf hl.1 hl'.1 hhead, eq_of_map_eq hf hl.2 hl'.2 htail]

/-- The ranks of the live chunks of a compartment. -/
def liveRanks (ar : Arith F D) (s : Store F D) (cid : Int) (q : Vec F) (metric : Metric) :
    List (D × Int) :=
  (s.liveChunks cid).map fun c => (annDistance ar metric q c.embedding, c.chunkId)

theorem map_rankOf_exactEntry (ar : Arith F D) (s : Store F D) (cid : Int) (q : Vec F)
    (metric : Metric) :
    ((s.liveChunks cid).map (exactEntry ar metric q)).map rankOf = liveRanks ar s cid q metric :=
  List.map_map

/-! ## The reference -/

section

variable {T : Type} [LinearOrder D]

/-- Entries in ascending (distance, chunk id) order. -/
def sortEntries (es : List (HeapEntry T D)) : List (HeapEntry T D) :=
  es.insertionSort fun a b => RankLe (rankOf a) (rankOf b)

theorem qsortHeap_eq_sortEntries (es : List (HeapEntry T D)) : qsortHeap es = sortEntries es := by
  unfold qsortHeap sortEntries
  congr 1
  funext a b
  exact propext cmpDistanceAsc_le_zero

theorem map_rankOf_sortEntries (es : List (HeapEntry T D)) :
    (sortEntries es).map rankOf = (es.map rankOf).insertionSort RankLe := by
  rw [← qsortHeap_eq_sortEntries, map_rankOf_qsortHeap]

/-- `SELECT … ORDER BY distance, chunk_id LIMIT k` over the live chunks. -/
def referenceSearch (ar : Arith F D) (s : Store F D) (cid : Int) (q : Vec F) (k : Int)
    (metric : Metric) : List (ResultRow D) :=
  numberRows ((sortEntries ((s.liveChunks cid).map (exactEntry ar metric q))).take k.toNat)

theorem sortEntries_of_tieFree {k : Nat} {es heap : List (HeapEntry T D)}
    (hids : (es.map chunkId).Nodup)
    (ht : TieFree k (es.map rankOf : Multiset (D × Int)))
    (hbest : Best distance k (es : Multiset (HeapEntry T D)) heap) :
    sortEntries heap = (sortEntries es).take k := by
  have hranks : (sortEntries heap).map rankOf = ((sortEntries es).take k).map rankOf := by
    rw [map_take, map_rankOf_sortEntries, map_rankOf_sortEntries, ranks_of_tieFree ht hbest]
  have hheap : heap ⊆ es := Multiset.subset_of_le hbest.le_all
  refine eq_of_map_eq hids ?_ ?_ ?_
  · exact List.Subset.trans (perm_insertionSort _ heap).subset hheap
  · exact List.Subset.trans (take_subset _ _) (perm_insertionSort _ es).subset
  · have := congrArg (List.map Prod.snd) hranks
    rwa [List.map_map, List.map_map] at this

theorem keeps_pushAll (k : Nat) (es : List (HeapEntry T D)) :
    Keeps distance k (es : Multiset (HeapEntry T D))
      (pushAll (keyAbove distance) k [] es) := by
  have := (keeps_nil distance k).pushAll es
  rwa [zero_add] at this

variable {ar : Arith F D} {s : Store F D} {cid : Int} {q : Vec F} {k : Int} {metric : Metric}

theorem exactSearch_sorted (ar : Arith F D) (metric : Metric)
    (hk : Room k (s.liveChunks cid).length)
    (hdim : ∀ c ∈ s.liveChunks cid, c.embedding.length = q.length) :
    exactVectorSearchC ar s cid q k (some metric.name) =
      .ok (numberRows (sortEntries (pushAll (keyAbove distance) k.toNat []
        ((s.liveChunks cid).map (exactEntry ar metric q))))) := by
  rw [← qsortHeap_eq_sortEntries]
  exact exactVectorSearchC_eq ar metric s cid hk hdim

omit [LinearOrder D] in
theorem nodup_exactEntry (hids : ((s.liveChunks cid).map Chunk.chunkId).Nodup) :
    (((s.liveChunks cid).map (exactEntry ar metric q)).map chunkId).Nodup := by
  rw [List.map_map]
  exact hids

theorem exactSearch_of_tieFree (hk : Room k (s.liveChunks cid).length)
    (hids : ((s.liveChunks cid).map Chunk.chunkId).Nodup)
    (hdim : ∀ c ∈ s.liveChunks cid, c.embedding.length = q.length)
    (ht : TieFree k.toNat (liveRanks ar s cid q metric : Multiset (D × Int)))
    {s' : Store F D} (hs' : SameTable s s') :
    exactVectorSearchC ar s' cid q k (some metric.name) =
      .ok (referenceSearch ar s cid q k metric) := by
  have hperm := (hs'.liveChunks cid).map (exactEntry ar metric q)
  have hbest := (keeps_pushAll k.toNat ((s'.liveChunks cid).map (exactEntry ar metric q))).best
  rw [Multiset.coe_eq_coe.mpr hperm] at hbest
  rw [← map_rankOf_exactEntry] at ht
  rw [← (hs'.liveChunks cid).length_eq] at hk
  rw [exactSearch_sorted ar metric hk fun c hc => hdim c ((hs'.liveChunks cid).mem_iff.mp hc),
    sortEntries_of_tieFree (nodup_exactEntry hids) ht hbest]
  rfl

/-- **The exact search returns the rows of the reference in every physical order exactly when** it
takes the limit and the embeddings and the boundary is not tied. -/
theorem exactSearch_reference_iff (ar : Arith F D) (s : Store F D) (cid : Int) (q : Vec F) (k : Int)
    (metric : Metric) (hids : ((s.liveChunks cid).map Chunk.chunkId).Nodup) :
    (∀ s', SameTable s s' → exactVectorSearchC ar s' cid q k (some metric.name) =
      .ok (referenceSearch ar s cid q k metric)) ↔
      Room k (s.liveChunks cid).length ∧
        (∀ c ∈ s.liveChunks cid, c.embedding.length = q.length) ∧
        TieFree k.toNat (liveRanks ar s cid q metric : Multiset (D × Int)) := by
  constructor
  · intro hall
    obtain ⟨hk, hdim⟩ := exactVectorSearchC_ok ar metric (hall s ⟨List.Perm.refl _, rfl⟩)
    refine ⟨hk, hdim, ?_⟩
    rw [← map_rankOf_exactEntry]
    refine tieFree_of_forall_ranks
      (((sortEntries ((s.liveChunks cid).map (exactEntry ar metric q))).take k.toNat).map rankOf)
      fun es hes => ?_
    obtain ⟨cs, hcs, rfl⟩ := exists_perm_map hes
    obtain ⟨s', hs', rfl⟩ := exists_sameTable hcs
    have hrows := hall s' hs'
    rw [exactSearch_sorted ar metric (hcs.length_eq ▸ hk) fun c hc => hdim c (hcs.mem_iff.mp hc)]
      at hrows
    have hsorted := congrArg (List.map ResultRow.entry) (Except.ok.inj hrows)
    rw [referenceSearch, map_entry_numberRows, map_entry_numberRows] at hsorted
    rw [← map_rankOf_sortEntries, hsorted]
  · rintro ⟨hk, hdim, ht⟩ s' hs'
    exact exactSearch_of_tieFree hk hids hdim ht hs'

end

/-- A chunk of compartment 1 with embedding `[x]`. -/
def chunkAt (x id : Int) (text : String) : Chunk Int Int := ⟨id, 1, text, [x], 1, "model", 1⟩

/-- Compartment 1 with these chunks. -/
def lineStore (mode : SearchMode) (chunks : List (Chunk Int Int)) : Store Int Int where
  compartments := [⟨1, 1, "model", .l2, chunks.length, mode, .none⟩]
  chunks := chunks
  annIndexes := []
  deltas := []
  tombstones := []
  nextChunkId := 10

/-- Four chunks, two of them at the same distance before the cut. -/
def fourChunks : Store Int Int :=
  lineStore .exact [chunkAt 3 7 "c", chunkAt (-1) 5 "b", chunkAt 9 6 "d", chunkAt 1 4 "a"]

/-- The table in the reverse order: chunks 4 and 5 tie, chunk 7 is the third, chunk 6 is cut. -/
theorem exactSearch_reference_four :
    exactVectorSearchC intArith { fourChunks with chunks := fourChunks.chunks.reverse } 1 [0] 3
        (some Metric.l2.name) =
      .ok [⟨4, some "a", 1, -1, 1⟩, ⟨5, some "b", 1, -1, 2⟩, ⟨7, some "c", 9, -9, 3⟩] := by
  refine (exactSearch_reference_iff intArith fourChunks 1 [0] 3 .l2 (by decide)).mpr
    ⟨by decide, by decide, tieFree_coe_iff.mpr (by decide)⟩ _ ⟨?_, rfl⟩
  exact List.reverse_perm _

/-- Chunks 1 and 2 tie at distance 1 and the limit is 1: if chunk 2 comes first in the table, it is
the one returned. -/
theorem exactSearch_tied :
    SameTable (lineStore .exact [chunkAt 1 1 "a", chunkAt 1 2 "b"])
        (lineStore .exact [chunkAt 1 2 "b", chunkAt 1 1 "a"]) ∧
      referenceSearch intArith (lineStore .exact [chunkAt 1 1 "a", chunkAt 1 2 "b"]) 1 [0] 1 .l2 =
        [⟨1, some "a", 1, -1, 1⟩] ∧
      exactVectorSearchC intArith (lineStore .exact [chunkAt 1 2 "b", chunkAt 1 1 "a"]) 1 [0] 1
        (some Metric.l2.name) = .ok [⟨2, some "b", 1, -1, 1⟩] :=
  ⟨⟨List.Perm.swap _ _ _, rfl⟩, by decide, by rfl⟩

/-! ## The two modes -/

section

/-- The store with another search mode for a compartment. -/
def Store.withMode (s : Store F D) (cid : Int) (mode : SearchMode) : Store F D :=
  s.updateCompartment cid fun c => { c with searchMode := mode }

/-- An entry as `state_offer` keeps it. -/
def keptEntry (e : HeapEntry String D) : HeapEntry KeptText D :=
  ⟨e.chunkId, keptText e.sourceText, e.distance, e.similarity⟩

/-- An entry as a result shows it. -/
def shownEntry (e : HeapEntry KeptText D) : HeapEntry String D :=
  ⟨e.chunkId, e.sourceText.map Subtype.val, e.distance, e.similarity⟩

theorem keptText_map_val {t : Option String} (h : t ≠ some "") :
    (keptText t).map Subtype.val = t := by
  unfold keptText
  split
  · rename_i s
    rw [dif_neg fun hs => h (congrArg some hs)]
    rfl
  · rfl

theorem map_val_ne (t : Option KeptText) : t.map Subtype.val ≠ some "" := by
  cases t with
  | none => exact fun h => by cases h
  | some t => exact fun h => t.2 (Option.some.inj h)

theorem parseMetric_eq_ok {t : String} {m : Metric} (h : parseMetric t = .ok m) : t = m.name := by
  unfold parseMetric at h
  split_ifs at h with h₁ h₂ h₃
  · cases h
    exact h₁
  · cases h
    exact h₂
  · cases h
    exact h₃

/-- The rows of a result: the entries of the heap, sorted and read from JSON. -/
theorem finalize_getD [LT D] [DecidableLT D] (ar : Arith F D) (st : Option (TopKState F D)) :
    (finalize ar st).map (fun res => res.getD []) =
      (((qsortHeap (heapOf st)).mapM (jsonEntry ar)).map (List.map shownEntry)).map numberRows := by
  cases st with
  | none => rfl
  | some st =>
    show (((qsortHeap st.heap).mapM (jsonEntry ar)).map _).map _ =
      (((qsortHeap st.heap).mapM (jsonEntry ar)).map _).map _
    cases (qsortHeap st.heap).mapM (jsonEntry ar) with
    | error e => rfl
    | ok es =>
      refine congrArg Except.ok (ext_getElem? fun i => ?_)
      simp only [numberRows, Option.getD_some, getElem?_mapIdx, getElem?_map, Option.map_map]
      rfl

/-- JSON has the numbers of a row as they are, and its text is not empty. -/
def Carried (ar : Arith F D) (r : ResultRow D) : Prop :=
  r.sourceText ≠ some "" ∧ ar.json r.distance = some r.distance ∧
    ar.json r.similarity = some r.similarity

theorem map_shownEntry_jsonEntry {ar : Arith F D} {r : ResultRow D} :
    (jsonEntry ar (keptEntry r.entry)).map shownEntry = .ok r.entry ↔ Carried ar r := by
  unfold Carried
  rw [map_eq_ok]
  constructor
  · rintro ⟨e, he, hr⟩
    obtain ⟨hd, hs, -, -⟩ := jsonEntry_eq_ok.mp he
    have htext : e.sourceText.map Subtype.val = r.sourceText := congrArg sourceText hr
    have hdist : e.distance = r.distance := congrArg distance hr
    have hsim : e.similarity = r.similarity := congrArg similarity hr
    rw [hdist] at hd
    rw [hsim] at hs
    exact ⟨htext ▸ map_val_ne _, hd, hs⟩
  · rintro ⟨htext, hd, hs⟩
    refine ⟨keptEntry r.entry, jsonEntry_eq_ok.mpr ⟨hd, hs, rfl, rfl⟩, ?_⟩
    show mk _ ((keptText r.sourceText).map Subtype.val) _ _ = _
    rw [keptText_map_val htext]
    rfl

variable [LinearOrder D]

theorem map_keptEntry_sortEntries (es : List (HeapEntry String D)) :
    sortEntries (es.map keptEntry) = (sortEntries es).map keptEntry :=
  (map_insertionSort _ _ keptEntry es fun _ _ _ _ => Iff.rfl).symm

variable {ar : Arith F D} {s : Store F D} {cid : Int} {q : Vec F} {k : Int} {metric : Metric}

omit [LinearOrder D] in
theorem map_entryOf_topKRow (cs : List (Chunk F D)) :
    (cs.map Chunk.topKRow).filterMap (entryOf ar q metric) =
      (cs.map (exactEntry ar metric q)).map keptEntry := by
  rw [filterMap_map, List.map_map]
  exact congrFun filterMap_eq_map' _

omit [LinearOrder D] in
theorem map_rankOf_keptEntry (es : List (HeapEntry String D)) :
    (es.map keptEntry).map rankOf = es.map rankOf :=
  List.map_map

omit [LinearOrder D] in
theorem hasDim_topKRow (hdim : ∀ c ∈ s.liveChunks cid, c.embedding.length = q.length) :
    ∀ row ∈ (s.liveChunks cid).map Chunk.topKRow, HasDim q row := by
  intro row hrow emb id hemb _
  obtain ⟨c, hc, rfl⟩ := mem_map.mp hrow
  cases hemb
  exact (hdim c hc).symm

/-- **Without a tie the aggregate returns the reference exactly if every row of it is carried.** -/
theorem topk_reference (hk : Allowed k) (hids : ((s.liveChunks cid).map Chunk.chunkId).Nodup)
    (hdim : ∀ c ∈ s.liveChunks cid, c.embedding.length = q.length)
    (ht : TieFree k.toNat (liveRanks ar s cid q metric : Multiset (D × Int)))
    {p : Plan (TopKRow F)} (hp : p.rows.Perm ((s.liveChunks cid).map Chunk.topKRow)) :
    (topkVectorSearch ar (argsOf q k metric) p).map (fun res => res.getD []) =
        .ok (referenceSearch ar s cid q k metric) ↔
      ∀ r ∈ referenceSearch ar s cid q k metric, Carried ar r := by
  obtain ⟨st, e, hst⟩ := partialState_keeps ar metric hk p fun row h =>
    hasDim_topKRow hdim row (hp.mem_iff.mp h)
  have hbest := hst.keeps.best
  rw [Multiset.coe_eq_coe.mpr (hp.filterMap (entryOf ar q metric)), map_entryOf_topKRow]
    at hbest
  rw [← map_rankOf_exactEntry, ← map_rankOf_keptEntry] at ht
  have hnodup : ((((s.liveChunks cid).map (exactEntry ar metric q)).map keptEntry).map
      chunkId).Nodup := by
    rw [List.map_map]
    exact nodup_exactEntry hids
  -- the heap has the entries of the reference
  have hheap : qsortHeap (heapOf st) =
      ((referenceSearch ar s cid q k metric).map ResultRow.entry).map keptEntry := by
    rw [qsortHeap_eq_sortEntries, sortEntries_of_tieFree hnodup ht hbest,
      map_keptEntry_sortEntries, ← map_take, referenceSearch, map_entry_numberRows]
  have hrows : ∀ {x : Except VectorError (List (HeapEntry String D))},
      x.map numberRows = .ok (referenceSearch ar s cid q k metric) ↔
        x = .ok ((referenceSearch ar s cid q k metric).map ResultRow.entry) := by
    intro x
    rw [map_eq_ok]
    constructor
    · rintro ⟨es, rfl, hes⟩
      rw [← hes, map_entry_numberRows]
    · intro hx
      exact ⟨_, hx, by rw [referenceSearch, map_entry_numberRows]⟩
  unfold topkVectorSearch
  rw [e]
  dsimp only
  rw [finalize_getD, hrows, hheap, List.map_map, List.mapM_map, mapM_map_eq_ok]
  exact forall₂_congr fun r _ => map_shownEntry_jsonEntry

theorem exists_planner {rows rows' : List (TopKRow F)} (h : rows'.Perm rows) :
    ∃ pl : Planner (TopKRow F), pl.plan rows = .scan rows' := by
  classical
  refine ⟨⟨fun r => .scan (if r = rows then rows' else r), fun r => ?_⟩, ?_⟩
  · show (if r = rows then rows' else r).Perm r
    split
    · rename_i heq
      rw [heq]
      exact h
    · exact List.Perm.refl r
  · show Plan.scan (if rows = rows then rows' else rows) = _
    rw [if_pos rfl]

variable [BEq D]

theorem exactVectorSearchSql_withMode (ar : Arith F D) (k : Int) {compart : Compartment}
    (hcomp : s.compartment? cid = some compart) (hq : q.length = compart.embeddingDim)
    {t : Option String} {m : Metric} (hm : parseMetric (t.getD compart.distanceMetric.name) = .ok m)
    (pl : Planner (TopKRow F)) :
    exactVectorSearchSql ar pl (s.withMode cid .exact) cid q k t =
        exactVectorSearchC ar s cid (vectorNormalize ar q) k (some m.name) ∧
      exactVectorSearchSql ar pl (s.withMode cid .exactParallel) cid q k t =
        (topkVectorSearch ar (argsOf (vectorNormalize ar q) k m)
          (pl.plan ((s.liveChunks cid).map Chunk.topKRow))).map fun res => res.getD [] := by
  have hfind : ∀ mode, (s.withMode cid mode).compartment? cid =
      some { compart with searchMode := mode } := fun mode =>
    compartment?_updateCompartment (fun _ => rfl) hcomp
  have hname := parseMetric_eq_ok hm
  unfold exactVectorSearchSql exactVectorSearchParallelC
  simp only [hfind, hq, ne_eq, not_true_eq_false, if_false, hname, Option.getD_some]
  exact ⟨rfl, rfl⟩

omit [BEq D] in
/-- An aggregate over a limit that is too large raises at its first row. -/
theorem topk_limit_too_large (hlarge : maxAllocSize < 40 * k) (hk : 0 < k)
    (hne : s.liveChunks cid ≠ []) :
    topkVectorSearch ar (argsOf q k metric)
      (.scan ((s.liveChunks cid).map Chunk.topKRow)) = .error (.allocSize (40 * k)) := by
  have hfirst : firstState (D := D) q k metric.name = .error (.allocSize (40 * k)) := by
    unfold firstState stateNew palloc
    rw [if_neg (by omega), parseMetric_name, max_eq_left (by omega), if_pos hlarge]
    rfl
  obtain ⟨c, cs, hcs⟩ := exists_cons_of_ne_nil hne
  have hrow : sfunc ar (argsOf q k metric) none c.topKRow = .error (.allocSize (40 * k)) := by
    simp only [sfunc, argsOf, Chunk.topKRow, hfirst]
  unfold topkVectorSearch partialState
  rw [hcs, map_cons, foldlM_cons, hrow]
  rfl

omit [BEq D] in
theorem exactVectorSearchC_ne_allocSize (hk : 0 < k)
    (hdim : ∀ c ∈ s.liveChunks cid, c.embedding.length = q.length) :
    exactVectorSearchC ar s cid q k (some metric.name) ≠ .error (.allocSize (40 * k)) := by
  by_cases hroom : Room k (s.liveChunks cid).length
  · rw [exactSearch_sorted ar metric hroom hdim]
    nofun
  unfold exactVectorSearchC palloc
  rw [if_neg (by omega)]
  simp only [Option.elim_some, parseMetric_name]
  rw [if_pos]
  · intro h
    have := VectorError.allocSize.inj (Except.error.inj h)
    omega
  · unfold Room at hroom
    omega

omit [BEq D] in
/-- Without chunks the aggregate and the scan return nothing. -/
theorem topk_eq_exact_of_nil (hk : 0 < k) (hnil : s.liveChunks cid = [])
    (pl : Planner (TopKRow F)) :
    (topkVectorSearch ar (argsOf q k metric)
        (pl.plan ((s.liveChunks cid).map Chunk.topKRow))).map (fun res => res.getD []) =
      exactVectorSearchC ar s cid q k (some metric.name) := by
  have hroom : Room k (s.liveChunks cid).length := by
    rw [hnil, length_nil]
    unfold Room maxAllocSize
    omega
  have hrows := pl.rows_perm ((s.liveChunks cid).map Chunk.topKRow)
  rw [exactSearch_sorted ar metric hroom (by rw [hnil]; exact forall_mem_nil _)]
  rw [hnil, map_nil] at hrows ⊢
  unfold topkVectorSearch
  rw [partialState_noEntry ar k _ (by rw [hrows.eq_nil]; rfl)]
  rfl

/-- **The two modes return the same rows under every plan exactly when** the aggregate can be
allocated, the boundary is not tied, no returned chunk has an empty text and JSON carries the
numbers of the returned chunks. -/
theorem modes_agree_iff (ar : Arith F D) (s : Store F D) (cid : Int) (q : Vec F) (limit : Int)
    (metric : Option String) (compart : Compartment) (m : Metric)
    (hcomp : s.compartment? cid = some compart) (hq : q.length = compart.embeddingDim)
    (hm : parseMetric (metric.getD compart.distanceMetric.name) = .ok m) (hlimit : 0 < limit)
    (hids : ((s.liveChunks cid).map Chunk.chunkId).Nodup)
    (hdim : ∀ c ∈ s.liveChunks cid, c.embedding.length = compart.embeddingDim) :
    (∀ pl : Planner (TopKRow F),
      exactVectorSearchSql ar pl (s.withMode cid .exactParallel) cid q limit metric =
        exactVectorSearchSql ar pl (s.withMode cid .exact) cid q limit metric) ↔
      (s.liveChunks cid ≠ [] → 40 * limit ≤ maxAllocSize) ∧
        TieFree limit.toNat (liveRanks ar s cid (vectorNormalize ar q) m : Multiset (D × Int)) ∧
        ∀ r ∈ referenceSearch ar s cid (vectorNormalize ar q) limit m, Carried ar r := by
  have hdim' : ∀ c ∈ s.liveChunks cid, c.embedding.length = (vectorNormalize ar q).length :=
    fun c hc => (hdim c hc).trans (hq.symm.trans (vectorNormalize_length ar q).symm)
  have hmodes := exactVectorSearchSql_withMode ar limit hcomp hq hm
  simp only [fun pl => (hmodes pl).1, fun pl => (hmodes pl).2]
  by_cases hnil : s.liveChunks cid = []
  · have href : referenceSearch ar s cid (vectorNormalize ar q) limit m = [] := by
      rw [referenceSearch, hnil, map_nil, sortEntries, insertionSort_nil, take_nil]
      rfl
    have hranks : liveRanks ar s cid (vectorNormalize ar q) m = [] := by
      rw [liveRanks, hnil, map_nil]
    rw [href, hranks]
    exact iff_of_true (fun pl => topk_eq_exact_of_nil hlimit hnil pl)
      ⟨fun h => absurd hnil h, fun _ _ _ x hx => absurd hx (Multiset.notMem_zero x),
        forall_mem_nil _⟩
  constructor
  · intro hall
    have hk : Allowed limit := by
      refine ⟨hlimit, ?_⟩
      by_contra hlarge
      obtain ⟨pl, hpl⟩ := exists_planner (List.Perm.refl ((s.liveChunks cid).map Chunk.topKRow))
      have hrows := hall pl
      rw [hpl, topk_limit_too_large (not_le.mp hlarge) hlimit hnil] at hrows
      exact exactVectorSearchC_ne_allocSize hlimit hdim' hrows.symm
    have htie : TieFree limit.toNat
        (liveRanks ar s cid (vectorNormalize ar q) m : Multiset (D × Int)) := by
      obtain ⟨result, hresult⟩ : ∃ result, exactVectorSearchC ar s cid (vectorNormalize ar q) limit
          (some m.name) = .ok result := ⟨_, exactSearch_sorted ar m (hk.room _) hdim'⟩
      rw [← map_rankOf_exactEntry, ← map_rankOf_keptEntry]
      refine tieFree_of_forall_perm (result.map ResultRow.chunkId) fun es hes => ?_
      rw [← map_entryOf_topKRow] at hes
      obtain ⟨rows, hrows, rfl⟩ := exists_rows_of_perm hes.symm
      obtain ⟨pl, hpl⟩ := exists_planner hrows
      have hscan := hall pl
      rw [hpl, hresult] at hscan
      obtain ⟨res, hres, hgetD⟩ := map_eq_ok.mp hscan
      have hids := topk_scan_ids hk
        (fun row h => hasDim_topKRow hdim' row (hrows.mem_iff.mp h)) hres
      rw [resultRanks, hgetD, List.map_map] at hids
      exact hids
    refine ⟨fun _ => hk.2, htie, ?_⟩
    obtain ⟨pl, -⟩ := exists_planner (List.Perm.refl ((s.liveChunks cid).map Chunk.topKRow))
    refine (topk_reference hk hids hdim' htie (pl.rows_perm _)).mp ?_
    rw [hall pl]
    exact exactSearch_of_tieFree (hk.room _) hids hdim' htie ⟨List.Perm.refl _, rfl⟩
  · rintro ⟨halloc, ht, hcarried⟩ pl
    have hk : Allowed limit := ⟨hlimit, halloc hnil⟩
    rw [(topk_reference hk hids hdim' ht (pl.rows_perm _)).mpr hcarried,
      exactSearch_of_tieFree (hk.room _) hids hdim' ht ⟨List.Perm.refl _, rfl⟩]

end

/-- The plan that scans the rows from the last to the first. -/
def backwards : Planner (TopKRow F) :=
  ⟨fun rows => .scan rows.reverse, fun rows => List.reverse_perm rows⟩

/-- Three chunks, cut at two, read from the last to the first. -/
theorem modes_agree_cut :
    exactVectorSearchSql intArith backwards ((lineStore .exact
        [chunkAt 3 7 "c", chunkAt 1 5 "b", chunkAt 2 6 "d"]).withMode 1 .exactParallel) 1 [0] 2
          none =
      exactVectorSearchSql intArith backwards ((lineStore .exact
        [chunkAt 3 7 "c", chunkAt 1 5 "b", chunkAt 2 6 "d"]).withMode 1 .exact) 1 [0] 2 none := by
  refine (modes_agree_iff intArith (lineStore .exact
    [chunkAt 3 7 "c", chunkAt 1 5 "b", chunkAt 2 6 "d"]) 1 [0] 2 none
    ⟨1, 1, "model", .l2, 3, .exact, .none⟩ .l2 rfl rfl rfl (by decide) (by decide) (by decide)).mpr
    ⟨fun _ => by decide, tieFree_coe_iff.mpr (by decide), fun r hr => ?_⟩ _
  have hrows : referenceSearch intArith (lineStore .exact
      [chunkAt 3 7 "c", chunkAt 1 5 "b", chunkAt 2 6 "d"]) 1 (vectorNormalize intArith [0]) 2 .l2 =
      [⟨5, some "b", 1, -1, 1⟩, ⟨6, some "d", 4, -4, 2⟩] := by decide
  rw [hrows] at hr
  simp only [mem_cons, not_mem_nil, or_false] at hr
  rcases hr with rfl | rfl
  · exact ⟨by decide, rfl, rfl⟩
  · exact ⟨by decide, rfl, rfl⟩

/-- One chunk with an empty text: the scan returns the text, the aggregate returns NULL. -/
theorem modes_differ :
    exactVectorSearchSql intArith scanPlanner
        ((lineStore .exact [chunkAt 1 1 ""]).withMode 1 .exact) 1 [0] 1 none =
      .ok [⟨1, some "", 1, -1, 1⟩] ∧
    exactVectorSearchSql intArith scanPlanner
        ((lineStore .exact [chunkAt 1 1 ""]).withMode 1 .exactParallel) 1 [0] 1 none =
      .ok [⟨1, none, 1, -1, 1⟩] :=
  ⟨by rfl, by rfl⟩

end MaluDb.Vector
