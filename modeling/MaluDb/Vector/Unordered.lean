import MaluDb.Lib.Unordered
import MaluDb.Vector.ExactOrder

/-!
# Distances that cannot be compared

`malu_vector_in` accepts `nan`, and a NaN component makes the distance NaN. A row with such a
distance that comes while the heap has room never leaves it again (`src/maludb_search.c:258-285`,
`src/maludb_topk.c:185-224`). In the aggregate it then makes the final JSON unreadable.

Results:

* `searches_unordered`: which searches return the best rows among those that can be compared.
* `exactSearch_nan`: a NaN in the way of a better row.
-/

namespace MaluDb.Vector

open MaluDb.Lib MaluDb.Lib.Heap List

/-- The comparisons of distances are those of numbers; a distance without a number compares with
nothing. -/
structure NumberedBy {D L : Type} [LT D] [LinearOrder L] (value : D → Option L) : Prop where
  lt_iff : ∀ a b : D, a < b ↔ ∃ x y, value a = some x ∧ value b = some y ∧ x < y

/-- What is read back from JSON has the number that was printed. -/
def ReadsBack {F D L : Type} (ar : Arith F D) (value : D → Option L) : Prop :=
  ∀ d d', ar.json d = some d' → value d' = value d

section

variable {F D L T : Type} [LinearOrder L] {value : D → Option L}

/-- A rank with the number of its distance. -/
def numbered (value : D → Option L) (p : D × Int) : Option L × Int := (value p.1, p.2)

/-- How many rows have a distance that can be compared. -/
def orderedCount (value : D → Option L) (all : List (D × Int)) : Nat :=
  all.countP fun p => (value p.1).isSome

/-- `rows` are the ranks of `k` best among those with a number. -/
def BestOrdered (value : D → Option L) (k : Nat) (all rows : List (D × Int)) : Prop :=
  Best (partKey Prod.fst) k
    (((all.map (numbered value)).filter fun p => p.1.isSome : List (Option L × Int)) :
      Multiset (Option L × Int)) (rows.map (numbered value) : List (Option L × Int))

/-- The number of the distance of an entry. -/
def entryValue (value : D → Option L) (e : HeapEntry T D) : Option L := value e.distance

theorem bestOrdered_map {k : Nat} {es heap : List (HeapEntry T D)}
    (h : Best (partKey (entryValue value)) k
      (es.filter fun e => (entryValue value e).isSome : List (HeapEntry T D))
      (heap : Multiset (HeapEntry T D))) :
    BestOrdered value k (es.map rankOf) (heap.map rankOf) := by
  have hmap := h.map (f := fun e => numbered value (rankOf e)) (g := partKey Prod.fst) fun _ => rfl
  unfold BestOrdered
  rw [List.map_map, List.map_map, filter_map]
  exact hmap

theorem BestOrdered.isSome {k : Nat} {all rows : List (D × Int)} (h : BestOrdered value k all rows)
    {p : D × Int} (hp : p ∈ rows) : (value p.1).isSome :=
  (mem_filter.mp (Multiset.mem_of_le h.le_all
    (Multiset.mem_coe.mpr (mem_map_of_mem (f := numbered value) hp)))).2

theorem bestOrdered_congr {k : Nat} {all rows rows' : List (D × Int)}
    (hp : (rows.map (numbered value)).Perm (rows'.map (numbered value))) :
    BestOrdered value k all rows ↔ BestOrdered value k all rows' := by
  unfold BestOrdered
  rw [Multiset.coe_eq_coe.mpr hp]

variable [LT D] [DecidableLT D]

theorem keyAbove_eq_partAbove (hv : NumberedBy value) :
    keyAbove (HeapEntry.distance (T := T)) = partAbove (entryValue value) := by
  funext a b
  unfold keyAbove partAbove entryValue
  cases ha : value a.distance with
  | none => simp [hv.lt_iff, ha]
  | some x =>
    cases hb : value b.distance with
    | none => simp [hv.lt_iff, hb]
    | some y => simp [hv.lt_iff, ha, hb]

theorem bestOrdered_pushAll_iff (hv : NumberedBy value) {k : Nat} {es : List (HeapEntry T D)} :
    BestOrdered value k (es.map rankOf)
        ((pushAll (keyAbove HeapEntry.distance) k [] es).map rankOf) ↔
      ∀ p ∈ (es.map rankOf).take k, (value p.1).isSome := by
  have hfirst : (∀ p ∈ (es.map rankOf).take k, (value p.1).isSome) ↔
      ∀ e ∈ es.take k, (entryValue value e).isSome := by
    rw [← map_take, forall_mem_map]
    rfl
  rw [hfirst, keyAbove_eq_partAbove hv]
  constructor
  · intro hbest e he
    by_contra hnone
    have hmem : e ∈ pushAll (partAbove (entryValue value)) k [] es :=
      mem_pushAll_of_unordered (Option.not_isSome_iff_eq_none.mp hnone) he
    exact hnone (hbest.isSome (mem_map_of_mem hmem))
  · intro hes
    exact bestOrdered_map (best_pushAll_iff.mpr hes)

/-! ## The exact search -/

variable {ar : Arith F D} {s : Store F D} {cid : Int} {q : Vec F} {k : Int} {metric : Metric}

omit [LinearOrder L] in
/-- The ranks of an answer of the exact search. -/
theorem exactRanks_perm (hk : Room k (s.liveChunks cid).length)
    (hdim : ∀ c ∈ s.liveChunks cid, c.embedding.length = q.length) :
    ∃ rows, exactVectorSearchC ar s cid q k (some metric.name) = .ok rows ∧
      (rows.map fun r => (r.distance, r.chunkId)).Perm
        ((pushAll (keyAbove HeapEntry.distance) k.toNat []
          ((s.liveChunks cid).map (exactEntry ar metric q))).map rankOf) := by
  refine ⟨_, exactVectorSearchC_eq ar metric s cid hk hdim, ?_⟩
  have hrows := congrArg (List.map rankOf) (map_entry_numberRows (qsortHeap (pushAll
    (keyAbove HeapEntry.distance) k.toNat []
      ((s.liveChunks cid).map (exactEntry ar metric q)))))
  rw [List.map_map] at hrows
  exact (List.Perm.of_eq hrows).trans ((perm_insertionSort _ _).map _)

theorem exactSearch_unordered_iff (hv : NumberedBy value) (ar : Arith F D) (s : Store F D)
    (cid : Int) (q : Vec F) (k : Int) (metric : Metric) :
    (∃ rows, exactVectorSearchC ar s cid q k (some metric.name) = .ok rows ∧
      BestOrdered value k.toNat (liveRanks ar s cid q metric)
        (rows.map fun r => (r.distance, r.chunkId))) ↔
      Room k (s.liveChunks cid).length ∧
        (∀ c ∈ s.liveChunks cid, c.embedding.length = q.length) ∧
        ∀ x ∈ (liveRanks ar s cid q metric).take k.toNat, (value x.1).isSome := by
  have hbest : Room k (s.liveChunks cid).length →
      (∀ c ∈ s.liveChunks cid, c.embedding.length = q.length) →
      ∃ rows, exactVectorSearchC ar s cid q k (some metric.name) = .ok rows ∧
      (BestOrdered value k.toNat (liveRanks ar s cid q metric)
          (rows.map fun r => (r.distance, r.chunkId)) ↔
        ∀ x ∈ (liveRanks ar s cid q metric).take k.toNat, (value x.1).isSome) := by
    intro hk hdim
    obtain ⟨rows, hrows, hperm⟩ := exactRanks_perm hk hdim
    refine ⟨rows, hrows, ?_⟩
    rw [bestOrdered_congr (hperm.map _), ← map_rankOf_exactEntry]
    exact bestOrdered_pushAll_iff hv
  constructor
  · rintro ⟨rows, hrows, hordered⟩
    obtain ⟨hk, hdim⟩ := exactVectorSearchC_ok ar metric hrows
    obtain ⟨rows', hrows', hiff⟩ := hbest hk hdim
    cases hrows.symm.trans hrows'
    exact ⟨hk, hdim, hiff.mp hordered⟩
  · rintro ⟨hk, hdim, hfirst⟩
    obtain ⟨rows, hrows, hiff⟩ := hbest hk hdim
    exact ⟨rows, hrows, hiff.mpr hfirst⟩

/-! ## Plans -/

/-- A state with the best of everything offered, all of which has a number. -/
structure HoldsOrdered (value : D → Option L) (q : Vec F) (k : Int) (metric : Metric)
    (all : List (HeapEntry KeptText D)) (st : Option (TopKState F D)) : Prop where
  created : CreatedBy q k metric st
  keeps : Keeps (partKey (entryValue value)) k.toNat (all : Multiset (HeapEntry KeptText D))
    (heapOf st)

omit [LT D] [DecidableLT D] in
theorem HoldsOrdered.mem {all : List (HeapEntry KeptText D)} {st : Option (TopKState F D)}
    (h : HoldsOrdered value q k metric all st) {e : HeapEntry KeptText D} (he : e ∈ heapOf st) :
    e ∈ all :=
  Multiset.mem_of_le h.keeps.best.le_all (Multiset.mem_coe.mpr he)

/-- An entry that is kept has fewer than `k` nearer ones. -/
theorem HoldsOrdered.nearer_lt (hv : NumberedBy value) {all : List (HeapEntry KeptText D)}
    {st : Option (TopKState F D)} (h : HoldsOrdered value q k metric all st)
    {e : HeapEntry KeptText D} (he : e ∈ heapOf st) :
    all.countP (fun y => y.distance < e.distance) < k.toNat := by
  have hlt := h.keeps.best.countP_lt (Multiset.mem_coe.mpr he)
  rw [Multiset.coe_countP] at hlt
  refine lt_of_le_of_lt (countP_mono_left fun y hy hnear => ?_) hlt
  rw [decide_eq_true_eq, hv.lt_iff] at hnear
  obtain ⟨a, b, ha, hb, hab⟩ := hnear
  rw [decide_eq_true_eq]
  unfold partKey entryValue
  rw [ha, hb]
  exact WithTop.coe_lt_coe.mpr hab

theorem HoldsOrdered.combine (hv : NumberedBy value) (hk : 0 < k)
    {as bs : List (HeapEntry KeptText D)} {a b : Option (TopKState F D)}
    (has : ∀ e ∈ as, (entryValue value e).isSome) (hbs : ∀ e ∈ bs, (entryValue value e).isSome)
    (ha : HoldsOrdered value q k metric as a) (hb : HoldsOrdered value q k metric bs b) :
    HoldsOrdered value q k metric (as ++ bs) (combine a b) := by
  have hnil : ∀ {all : List (HeapEntry KeptText D)},
      Keeps (partKey (entryValue value)) k.toNat (all : Multiset (HeapEntry KeptText D)) [] →
        all = [] := fun hK =>
    (Multiset.coe_eq_zero _).mp
      (hK.best.eq_all (by rw [Multiset.coe_card, length_nil]; omega)).symm
  match a, b, ha, hb with
  | none, b, ha, hb =>
    refine ⟨hb.created, ?_⟩
    rw [hnil ha.keeps, nil_append]
    exact hb.keeps
  | some a, none, ha, hb =>
    refine ⟨ha.created, ?_⟩
    rw [hnil hb.keeps, append_nil]
    exact ha.keeps
  | some a, some b, ha, hb =>
    obtain ⟨hcap, hm, hq⟩ := ha.created a rfl
    have hheap : ∀ e ∈ b.heap, (entryValue value e).isSome := fun e he => hbs e (hb.mem he)
    have hall := ha.keeps.pushAll_partAbove (fun e he => has e (ha.mem he)) fun e he =>
      hheap e (mem_of_mem_take he)
    rw [filter_eq_self.mpr hheap] at hall
    show HoldsOrdered value q k metric (as ++ bs) (some (b.heap.foldl TopKState.offer a))
    rw [foldl_offer, hcap, keyAbove_eq_partAbove hv]
    refine ⟨?_, ?_⟩
    · rintro _ ⟨⟩
      exact ⟨rfl, hm, hq⟩
    · rw [← Multiset.coe_add]
      exact ⟨hb.keeps.best.trans hall.best, hall.order⟩

theorem partialState_ordered (hv : NumberedBy value) (ar : Arith F D) (metric : Metric)
    (hk : Allowed k) : ∀ p : Plan (TopKRow F), (∀ row ∈ p.rows, HasDim q row) →
      (∀ e ∈ p.rows.filterMap (entryOf ar q metric), (entryValue value e).isSome) →
      ∃ st, partialState ar (argsOf q k metric) p = .ok st ∧
        HoldsOrdered value q k metric (p.rows.filterMap (entryOf ar q metric)) st
  | .scan rows, hdim, hall => by
    obtain ⟨st, e, hst, hh⟩ := scan_spec ar metric hk rows (createdBy_none q k metric) hdim
    refine ⟨st, e, hst, ?_⟩
    have hkeeps := (keeps_nil (partKey (entryValue value)) k.toNat).pushAll_partAbove
      (forall_mem_nil _) fun e he => hall e (mem_of_mem_take he)
    rw [zero_add, filter_eq_self.mpr hall] at hkeeps
    rw [hh, keyAbove_eq_partAbove hv]
    exact hkeeps
  | .ship p, hdim, hall => by
    rw [partialState_ship]
    exact partialState_ordered hv ar metric hk p hdim hall
  | .combine l r, hdim, hall => by
    rw [Plan.rows, filterMap_append] at hall
    have hl := fun e he => hall e (mem_append_left _ he)
    have hr := fun e he => hall e (mem_append_right _ he)
    obtain ⟨sl, el, hsl⟩ := partialState_ordered hv ar metric hk l
      (fun row h => hdim row (mem_append_left _ h)) hl
    obtain ⟨sr, er, hsr⟩ := partialState_ordered hv ar metric hk r
      (fun row h => hdim row (mem_append_right _ h)) hr
    refine ⟨Vector.combine sl sr, ?_, ?_⟩
    · unfold partialState
      rw [el, er]
    · rw [Plan.rows, filterMap_append]
      exact hsl.combine hv hk.1 hl hr hsr

/-! ## The parallel search -/

/-- JSON has a number for the distance and for the similarity. -/
def Printable (ar : Arith F D) (metric : Metric) (d : D) : Prop :=
  (ar.json d).isSome ∧ (ar.json (similarityOf ar metric d)).isSome

omit [LinearOrder L] [LT D] [DecidableLT D] in
theorem map_numbered_jsonEntry (hjson : ReadsBack ar value) {e : HeapEntry KeptText D}
    (hsim : e.similarity = similarityOf ar metric e.distance)
    (h : Printable ar metric e.distance) :
    (jsonEntry ar e).map (fun e => numbered value (rankOf e)) =
      .ok (numbered value (rankOf e)) := by
  obtain ⟨d, hd⟩ := Option.isSome_iff_exists.mp h.1
  obtain ⟨sim, hs⟩ := Option.isSome_iff_exists.mp h.2
  rw [← hsim] at hs
  refine map_eq_ok.mpr ⟨⟨e.chunkId, e.sourceText, d, sim⟩,
    jsonEntry_eq_ok.mpr ⟨hd, hs, rfl, rfl⟩, ?_⟩
  exact Prod.ext (hjson _ _ hd) rfl

omit [LinearOrder L] in
/-- The rows of a result are the entries of the heap, if JSON has numbers for them. -/
theorem finalize_numbered (hjson : ReadsBack ar value) {st : Option (TopKState F D)}
    (hheap : ∀ e ∈ heapOf st, e.similarity = similarityOf ar metric e.distance ∧
      Printable ar metric e.distance) :
    ∃ res, finalize ar st = .ok res ∧
      ((resultRanks res).map (numbered value)).Perm
        (((heapOf st).map rankOf).map (numbered value)) := by
  have hsorted := perm_insertionSort (fun a b => cmpDistanceAsc a b ≤ 0) (heapOf st)
  have hread := mapM_map_eq_ok.mpr fun e (he : e ∈ qsortHeap (heapOf st)) =>
    map_numbered_jsonEntry hjson (hheap e (hsorted.mem_iff.mp he)).1
      (hheap e (hsorted.mem_iff.mp he)).2
  obtain ⟨es, hes, hranks⟩ := map_eq_ok.mp hread
  have hfin := finalize_getD ar st
  rw [hes] at hfin
  obtain ⟨res, hres, hgetD⟩ := map_eq_ok.mp hfin
  refine ⟨res, hres, ?_⟩
  have hres' : resultRanks res = es.map rankOf := by
    rw [resultRanks, hgetD]
    have := congrArg (List.map rankOf) (map_entry_numberRows (es.map shownEntry))
    rwa [List.map_map, List.map_map] at this
  rw [hres', List.map_map, List.map_map]
  exact (List.Perm.of_eq hranks).trans (hsorted.map _)

omit [LinearOrder L] in
/-- In a result that was read, every entry of the heap has numbers in JSON, and a row. -/
theorem of_finalize_eq_ok (hjson : ReadsBack ar value) {st : Option (TopKState F D)}
    {res : Option (List (ResultRow D))} (h : finalize ar st = .ok res)
    {e : HeapEntry KeptText D} (he : e ∈ heapOf st) :
    (ar.json e.distance).isSome ∧ (ar.json e.similarity).isSome ∧
      ∃ x ∈ resultRanks res, value x.1 = value e.distance := by
  have hfin := congrArg (Except.map fun res => res.getD []) h
  rw [finalize_getD] at hfin
  obtain ⟨shown, hshown, hrows⟩ := map_eq_ok.mp hfin
  obtain ⟨es, hes, rfl⟩ := map_eq_ok.mp hshown
  have hsorted := perm_insertionSort (fun a b => cmpDistanceAsc a b ≤ 0) (heapOf st)
  obtain ⟨e', hmem, he'⟩ := exists_of_mapM_eq_ok hes e (hsorted.mem_iff.mpr he)
  obtain ⟨hd, hs, -, -⟩ := jsonEntry_eq_ok.mp he'
  refine ⟨by rw [hd]; rfl, by rw [hs]; rfl, rankOf e', ?_, hjson _ _ hd⟩
  have hranks : resultRanks res = es.map rankOf := by
    rw [resultRanks, show res.getD [] = _ from hrows.symm]
    have := congrArg (List.map rankOf) (map_entry_numberRows (es.map shownEntry))
    rwa [List.map_map, List.map_map] at this
  rw [hranks]
  exact mem_map_of_mem hmem

omit [LinearOrder L] in
/-- A chunk with fewer than `k` nearer ones is kept in some order. -/
theorem exists_scan_keeping (hk : Allowed k)
    (hdim : ∀ c ∈ s.liveChunks cid, c.embedding.length = q.length) {c : Chunk F D}
    (hc : c ∈ s.liveChunks cid)
    (hnear : (liveRanks ar s cid q metric).countP
      (fun y => y.1 < annDistance ar metric q c.embedding) < k.toNat) :
    ∃ p : Plan (TopKRow F), p.rows.Perm ((s.liveChunks cid).map Chunk.topKRow) ∧
      ∃ st, partialState ar (argsOf q k metric) p = .ok st ∧
        keptEntry (exactEntry ar metric q c) ∈ heapOf st := by
  let near := fun c' : Chunk F D =>
    decide (annDistance ar metric q c'.embedding < annDistance ar metric q c.embedding)
  obtain ⟨l, r, hlr⟩ := append_of_mem hc
  -- the nearer chunks come first, then `c`
  let order := (l ++ r).filter near ++ c :: (l ++ r).filter fun c' => !near c'
  have horder : order.Perm (s.liveChunks cid) := by
    rw [hlr]
    exact (perm_middle.trans ((filter_append_perm near (l ++ r)).cons c)).trans perm_middle.symm
  have hlen : ((l ++ r).filter near).length < k.toNat := by
    rw [liveRanks, hlr, countP_map, countP_append, countP_cons] at hnear
    rw [← countP_eq_length_filter, countP_append]
    exact lt_of_le_of_lt (Nat.add_le_add_left (Nat.le_add_right _ _) _) hnear
  refine ⟨.scan (order.map Chunk.topKRow), horder.map _, ?_⟩
  obtain ⟨st, e, -, hh⟩ := scan_spec ar metric hk (order.map Chunk.topKRow)
    (createdBy_none q k metric) fun row h =>
      hasDim_topKRow hdim row ((horder.map _).mem_iff.mp h)
  refine ⟨st, e, ?_⟩
  rw [hh, map_entryOf_topKRow, map_append, map_append, map_cons, map_cons]
  refine mem_pushAll_of_not_above ?_ ?_
  · rw [List.map_map, forall_mem_map]
    intro c' hc'
    have hfar := (mem_filter.mp hc').2
    rw [Bool.not_eq_true'] at hfar
    exact hfar
  · rw [length_map, length_map]
    show 0 + _ < _
    rwa [zero_add]

/-- **When the parallel search returns the best rows that can be compared, under every plan.** -/
theorem topk_unordered_iff (hv : NumberedBy value) (hjson : ReadsBack ar value) (s : Store F D)
    (cid : Int) (q : Vec F) (k : Int) (metric : Metric) :
    (∀ p : Plan (TopKRow F), p.rows.Perm ((s.liveChunks cid).map Chunk.topKRow) →
      ∃ res, topkVectorSearch ar (argsOf q k metric) p = .ok res ∧
        BestOrdered value k.toNat (liveRanks ar s cid q metric) (resultRanks res)) ↔
      (s.liveChunks cid ≠ [] → Allowed k) ∧
        (∀ c ∈ s.liveChunks cid, c.embedding.length = q.length) ∧
        (∀ x ∈ liveRanks ar s cid q metric, (value x.1).isSome) ∧
        ∀ x ∈ liveRanks ar s cid q metric,
          (liveRanks ar s cid q metric).countP (fun y => y.1 < x.1) < k.toNat →
            Printable ar metric x.1 := by
  constructor
  · intro hall
    have hdims : (s.liveChunks cid ≠ [] → Allowed k) ∧
        ∀ c ∈ s.liveChunks cid, c.embedding.length = q.length := by
      obtain ⟨res, hres, -⟩ := hall (.scan ((s.liveChunks cid).map Chunk.topKRow)) (.refl _)
      unfold topkVectorSearch partialState at hres
      split at hres
      · cases hres
      rename_i st hst
      obtain ⟨hdim, hallowed⟩ := scan_ok (createdBy_none q k metric) hst
      refine ⟨fun hne => hallowed ?_ rfl, fun c hc => ?_⟩
      · rw [map_entryOf_topKRow]
        simpa using hne
      · exact (hdim _ (mem_map_of_mem hc) c.embedding c.chunkId rfl rfl).symm
    refine ⟨hdims.1, hdims.2, ?_⟩
    -- a chunk that some order keeps has numbers in JSON, and one of its own
    have hkept : ∀ c ∈ s.liveChunks cid, (liveRanks ar s cid q metric).countP
        (fun y => y.1 < annDistance ar metric q c.embedding) < k.toNat →
          Printable ar metric (annDistance ar metric q c.embedding) ∧
            (value (annDistance ar metric q c.embedding)).isSome := by
      intro c hc hnear
      obtain ⟨p, hp, st, hst, hmem⟩ :=
        exists_scan_keeping (hdims.1 (ne_nil_of_mem hc)) hdims.2 hc hnear
      obtain ⟨res, hres, hbest⟩ := hall p hp
      unfold topkVectorSearch at hres
      rw [hst] at hres
      obtain ⟨hd, hs, x, hx, hvalue⟩ := of_finalize_eq_ok hjson hres hmem
      refine ⟨⟨hd, hs⟩, ?_⟩
      have hsome := hbest.isSome hx
      rwa [hvalue] at hsome
    have hordered : ∀ c ∈ s.liveChunks cid,
        (value (annDistance ar metric q c.embedding)).isSome := by
      intro c hc
      by_contra hnone
      have hzero : (liveRanks ar s cid q metric).countP
          (fun y => y.1 < annDistance ar metric q c.embedding) = 0 := by
        refine countP_eq_zero.mpr fun y _ => ?_
        rw [decide_eq_true_eq, hv.lt_iff]
        rintro ⟨_, _, -, hsome, -⟩
        exact hnone (by rw [hsome]; rfl)
      have hpos := (hdims.1 (ne_nil_of_mem hc)).1
      exact hnone (hkept c hc (by omega)).2
    refine ⟨forall_mem_map.mpr hordered, forall_mem_map.mpr fun c hc hnear => ?_⟩
    exact (hkept c hc hnear).1
  · rintro ⟨hk, hdim, hordered, hprint⟩ p hp
    by_cases hnil : s.liveChunks cid = []
    · rw [hnil, map_nil] at hp
      refine ⟨none, ?_, ?_⟩
      · unfold topkVectorSearch
        rw [partialState_noEntry ar k p (by rw [hp.eq_nil]; rfl)]
        rfl
      · rw [liveRanks, hnil]
        exact best_zero _ _
    have hperm := hp.filterMap (entryOf ar q metric)
    rw [map_entryOf_topKRow] at hperm
    have hentries : ∀ e ∈ p.rows.filterMap (entryOf ar q metric), rankOf e ∈
        liveRanks ar s cid q metric := by
      intro e he
      rw [← map_rankOf_exactEntry, ← map_rankOf_keptEntry]
      exact mem_map_of_mem (hperm.mem_iff.mp he)
    obtain ⟨st, e, hst⟩ := partialState_ordered hv ar metric (hk hnil) p
      (fun row h => hasDim_topKRow hdim row (hp.mem_iff.mp h))
      fun e he => hordered _ (hentries e he)
    have hnear : ∀ e ∈ heapOf st,
        (liveRanks ar s cid q metric).countP (fun y => y.1 < e.distance) < k.toNat := by
      intro e he
      rw [← map_rankOf_exactEntry, ← map_rankOf_keptEntry, countP_map, ← hperm.countP_eq]
      exact hst.nearer_lt hv he
    obtain ⟨res, hres, hranks⟩ := finalize_numbered hjson fun e he =>
      ⟨similarity_of_mem (hst.mem he), hprint _ (hentries e (hst.mem he)) (hnear e he)⟩
    refine ⟨res, ?_, ?_⟩
    · unfold topkVectorSearch
      rw [e]
      exact hres
    rw [bestOrdered_congr hranks, ← map_rankOf_exactEntry, ← map_rankOf_keptEntry]
    refine bestOrdered_map ?_
    have hall : ∀ e ∈ ((s.liveChunks cid).map (exactEntry ar metric q)).map keptEntry,
        (entryValue value e).isSome := fun e he =>
      hordered _ (hentries e (hperm.mem_iff.mpr he))
    rw [filter_eq_self.mpr hall, ← Multiset.coe_eq_coe.mpr hperm]
    exact hst.keeps.best

/-- **Which searches return the best rows among those that can be compared**, whenever there are at
least `k` of them: the exact search in this order of the rows, and the parallel search under every
plan. -/
theorem searches_unordered (hv : NumberedBy value) (hjson : ReadsBack ar value) (s : Store F D)
    (cid : Int) (q : Vec F) (k : Int) (metric : Metric) :
    ((k ≤ orderedCount value (liveRanks ar s cid q metric) →
      ∃ rows, exactVectorSearchC ar s cid q k (some metric.name) = .ok rows ∧
        BestOrdered value k.toNat (liveRanks ar s cid q metric)
          (rows.map fun r => (r.distance, r.chunkId))) ↔
      (k ≤ orderedCount value (liveRanks ar s cid q metric) →
        Room k (s.liveChunks cid).length ∧
        (∀ c ∈ s.liveChunks cid, c.embedding.length = q.length) ∧
        ∀ x ∈ (liveRanks ar s cid q metric).take k.toNat, (value x.1).isSome)) ∧
    ((k ≤ orderedCount value (liveRanks ar s cid q metric) →
      ∀ p : Plan (TopKRow F), p.rows.Perm ((s.liveChunks cid).map Chunk.topKRow) →
        ∃ res, topkVectorSearch ar (argsOf q k metric) p = .ok res ∧
          BestOrdered value k.toNat (liveRanks ar s cid q metric) (resultRanks res)) ↔
      (k ≤ orderedCount value (liveRanks ar s cid q metric) →
        (s.liveChunks cid ≠ [] → Allowed k) ∧
        (∀ c ∈ s.liveChunks cid, c.embedding.length = q.length) ∧
        (∀ x ∈ liveRanks ar s cid q metric, (value x.1).isSome) ∧
        ∀ x ∈ liveRanks ar s cid q metric,
          (liveRanks ar s cid q metric).countP (fun y => y.1 < x.1) < k.toNat →
            Printable ar metric x.1)) :=
  ⟨imp_congr_right fun _ => exactSearch_unordered_iff hv ar s cid q k metric,
    imp_congr_right fun _ => topk_unordered_iff hv hjson s cid q k metric⟩

end

/-- A number or NaN. -/
inductive Reading where
  | number (n : Int)
  | nan
  deriving DecidableEq

/-- The number, if it is one. -/
def Reading.value : Reading → Option Int
  | .number n => some n
  | .nan => none

/-- Comparisons with NaN are false. -/
instance readingLT : LT Reading where
  lt a b := ∃ x y, a.value = some x ∧ b.value = some y ∧ x < y

theorem Reading.lt_iff (a b : Reading) :
    a < b ↔ ∃ x y, a.value = some x ∧ b.value = some y ∧ x < y := Iff.rfl

instance readingDecidableLT : DecidableLT Reading
  | .number x, .number y =>
    decidable_of_iff (x < y) ⟨fun h => ⟨x, y, rfl, rfl, h⟩, fun ⟨_, _, hx, hy, h⟩ => by
      cases hx
      cases hy
      exact h⟩
  | .nan, _ => .isFalse fun ⟨_, _, hx, _⟩ => by cases hx
  | .number _, .nan => .isFalse fun ⟨_, _, _, hy, _⟩ => by cases hy

theorem numberedBy_reading : NumberedBy Reading.value := ⟨Reading.lt_iff⟩

/-- An operation that gives NaN for NaN. -/
def Reading.lift (f : Int → Int → Int) : Reading → Reading → Reading
  | .number x, .number y => .number (f x y)
  | _, _ => .nan

/-- Integers with NaN, which JSON has no number for. -/
def nanArith : Arith Reading Reading where
  toDouble x := x
  toFloat x := x
  zero := .number 0
  one := .number 1
  add := Reading.lift (· + ·)
  sub := Reading.lift (· - ·)
  mul := Reading.lift (· * ·)
  div := Reading.lift (· / ·)
  neg := Reading.lift (fun _ x => -x) (.number 0)
  sqrt := Reading.lift (fun _ x => Nat.sqrt x.toNat) (.number 0)
  json x := x.value.map .number

/-- A compartment with these embeddings, in this order. -/
def readings (embs : List Reading) : Store Reading Reading where
  compartments := [⟨1, 1, "model", .l2, embs.length, .exact, .none⟩]
  chunks := embs.mapIdx fun i x => ⟨i + 1, 1, "t", [x], 1, "model", x⟩
  annIndexes := []
  deltas := []
  tombstones := []
  nextChunkId := embs.length + 1

theorem readsBack_nanArith : ReadsBack nanArith Reading.value := by
  rintro (n | -) d' h
  · cases h
    rfl
  · cases h

/-- A NaN after the first two rows of three: the exact search returns the two nearest numbers. -/
theorem searches_unordered_later :
    ∃ rows, exactVectorSearchC nanArith (readings [.number 3, .number 1, .nan, .number 2]) 1
        [.number 0] 2 (some Metric.l2.name) = .ok rows ∧
      BestOrdered Reading.value 2
        (liveRanks nanArith (readings [.number 3, .number 1, .nan, .number 2]) 1 [.number 0] .l2)
        (rows.map fun r => (r.distance, r.chunkId)) := by
  refine (searches_unordered numberedBy_reading readsBack_nanArith
    (readings [.number 3, .number 1, .nan, .number 2]) 1 [.number 0] 2 .l2).1.mpr
    (fun _ => ⟨by decide, by decide, by decide⟩) (by decide)

/-- **NaN takes the place of a better row**: chunk 1 with NaN comes first. The exact search with
limit 1 returns it and not chunk 2 at distance 1, and the parallel search raises. -/
theorem exactSearch_nan :
    liveRanks nanArith (readings [.nan, .number 1]) 1 [.number 0] .l2 =
        [(.nan, 1), (.number 1, 2)] ∧
      1 ≤ orderedCount Reading.value [(.nan, 1), (.number 1, 2)] ∧
      exactVectorSearchC nanArith (readings [.nan, .number 1]) 1 [.number 0] 1
        (some Metric.l2.name) = .ok [⟨1, some "t", .nan, .nan, 1⟩] ∧
      ¬ BestOrdered Reading.value 1 [(.nan, 1), (.number 1, 2)] [(.nan, 1)] ∧
      topkVectorSearch nanArith (argsOf [.number 0] 1 .l2)
        (.scan (((readings [.nan, .number 1]).liveChunks 1).map Chunk.topKRow)) =
          .error .invalidJson := by
  refine ⟨by decide, by decide, by rfl, fun hbest => ?_, by rfl⟩
  exact absurd (hbest.isSome (mem_singleton_self _)) (by decide)

end MaluDb.Vector
