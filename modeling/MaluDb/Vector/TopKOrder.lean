import MaluDb.Vector.TopK

/-!
# When the top-k aggregate is independent of the plan

The rows are meant to come back ranked by (distance, chunk id): `firstRows`. But `state_offer`
accepts a row by its distance alone, and strictly: among rows tied at the boundary the heap keeps
those that came first (`src/maludb_topk.c:185-224`).

Results:

* `topk_firstRows_iff`: when the aggregate returns the first rows under every plan.
* `topk_tied_plan`: a plan of two tied rows that keeps the wrong one.
-/

namespace MaluDb.Vector

open MaluDb.Lib MaluDb.Lib.Heap List HeapEntry

section

variable {T D : Type} [LinearOrder D]

/-- Ascending by distance, then by chunk id. -/
def RankLe (a b : D × Int) : Prop := a.1 < b.1 ∨ a.1 = b.1 ∧ a.2 ≤ b.2

instance : DecidableRel (RankLe (D := D)) := fun a b =>
  inferInstanceAs (Decidable (a.1 < b.1 ∨ a.1 = b.1 ∧ a.2 ≤ b.2))

theorem rankLe_iff_toLex {a b : D × Int} : RankLe a b ↔ toLex a ≤ toLex b :=
  Prod.Lex.toLex_le_toLex.symm

instance : Std.Total (RankLe (D := D)) where
  total a b := by
    rw [rankLe_iff_toLex, rankLe_iff_toLex]
    exact le_total _ _

instance : IsTrans (D × Int) RankLe where
  trans a b c hab hbc := by
    rw [rankLe_iff_toLex] at hab hbc ⊢
    exact hab.trans hbc

instance : Std.Antisymm (RankLe (D := D)) where
  antisymm a b hab hba := by
    rw [rankLe_iff_toLex] at hab hba
    exact toLex.injective (le_antisymm hab hba)

/-- What the final sort of the heap compares. -/
def rankOf (e : HeapEntry T D) : D × Int := (e.distance, e.chunkId)

theorem cmpDistanceAsc_le_zero {a b : HeapEntry T D} :
    cmpDistanceAsc a b ≤ 0 ↔ RankLe (rankOf a) (rankOf b) := by
  unfold cmpDistanceAsc RankLe rankOf
  rcases lt_trichotomy a.distance b.distance with h | h | h
  · simp [h]
  · rcases lt_trichotomy a.chunkId b.chunkId with hc | hc | hc
    · simp [h, hc, hc.le]
    · simp [h, hc]
    · simp [h, hc, hc.not_gt]
  · simp [h, h.not_gt, h.ne']

theorem map_rankOf_qsortHeap (heap : List (HeapEntry T D)) :
    (qsortHeap heap).map rankOf = (heap.map rankOf).insertionSort RankLe :=
  map_insertionSort _ _ rankOf heap fun _ _ _ _ => cmpDistanceAsc_le_zero

theorem insertionSort_eq_iff_perm {as bs : List (D × Int)} :
    as.insertionSort RankLe = bs.insertionSort RankLe ↔ as.Perm bs := by
  constructor
  · intro h
    exact (perm_insertionSort RankLe as).symm.trans
      (h ▸ perm_insertionSort RankLe bs)
  intro h
  exact (((perm_insertionSort RankLe as).trans h).trans
    (perm_insertionSort RankLe bs).symm).eq_of_pairwise'
      (pairwise_insertionSort RankLe as) (pairwise_insertionSort RankLe bs)

theorem best_take_insertionSort (k : Nat) (as : List (D × Int)) :
    Best Prod.fst k (as : Multiset (D × Int)) ((as.insertionSort RankLe).take k : List _) := by
  have hs : (as.insertionSort RankLe).Pairwise fun a b => a.1 ≤ b.1 :=
    (pairwise_insertionSort RankLe as).imp fun h => h.elim le_of_lt (·.1.le)
  rw [← Multiset.coe_eq_coe.mpr (perm_insertionSort RankLe as)]
  exact best_take Prod.fst k hs

theorem ranks_of_tieFree {k : Nat} {es heap : List (HeapEntry T D)}
    (ht : TieFree k (es.map rankOf : Multiset (D × Int)))
    (hbest : Best distance k (es : Multiset (HeapEntry T D)) heap) :
    (heap.map rankOf).insertionSort RankLe = ((es.map rankOf).insertionSort RankLe).take k := by
  have hheap : Best Prod.fst k (es.map rankOf : Multiset (D × Int)) (heap.map rankOf : List _) :=
    hbest.map (f := rankOf) (g := Prod.fst) fun _ => rfl
  have hperm : (heap.map rankOf).Perm (((es.map rankOf).insertionSort RankLe).take k) :=
    Multiset.coe_eq_coe.mp (Best.ext ht hheap (best_take_insertionSort _ _))
  have hsorted : (((es.map rankOf).insertionSort RankLe).take k).Pairwise RankLe :=
    (pairwise_insertionSort RankLe _).sublist (take_sublist _ _)
  rw [insertionSort_eq_iff_perm.mpr hperm, hsorted.insertionSort_eq]

/-- If every order of arrival keeps the same chunks, the boundary is not tied. -/
theorem tieFree_of_forall_perm {k : Nat} {es : List (HeapEntry T D)} (ids : List Int)
    (h : ∀ es' : List (HeapEntry T D), es'.Perm es →
      ((pushAll (keyAbove distance) k [] es').map chunkId).Perm ids) :
    TieFree k (es.map rankOf : Multiset (D × Int)) := by
  intro d hlt hle x hx y hy hxd hyd
  obtain ⟨ex, hex, rfl⟩ := mem_map.mp (Multiset.mem_coe.mp hx)
  obtain ⟨ey, hey, rfl⟩ := mem_map.mp (Multiset.mem_coe.mp hy)
  rw [Multiset.coe_countP, countP_map] at hlt hle
  by_contra hne
  obtain ⟨pre, post, hlen, hperm, hpre, hpost⟩ := exists_tied_order distance
    hex hey (fun e => hne (by rw [e])) hxd hyd hlt hle
  have hkeep : ∀ a b : HeapEntry T D, a.distance = d → b.distance = d →
      (pre ++ a :: b :: post).Perm es → ((pre ++ [a]).map chunkId).Perm ids := by
    intro a b ha hb hab
    have hfirst : ∀ u ∈ pre ++ [a], ∀ v ∈ b :: post, u.distance ≤ v.distance := by
      intro u hu v hv
      have hu' : u.distance ≤ d := by
        rcases mem_append.mp hu with hu | hu
        · exact hpre u hu
        · rw [mem_singleton.mp hu, ha]
      have hv' : d ≤ v.distance := by
        rcases mem_cons.mp hv with rfl | hv
        · exact hb.ge
        · exact hpost v hv
      exact hu'.trans hv'
    have hkept : (pushAll (keyAbove distance) k [] (pre ++ a :: b :: post)).Perm
        (pre ++ [a]) := by
      rw [append_cons]
      exact pushAll_first (by simpa using hlen) hfirst
    exact (hkept.map chunkId).symm.trans (h _ hab)
  have hswap : (pre ++ ey :: ex :: post).Perm es :=
    (List.Perm.append_left pre (List.Perm.swap ex ey post)).trans hperm
  have hids := (hkeep ex ey hxd hyd hperm).trans (hkeep ey ex hyd hxd hswap).symm
  rw [map_append, map_append, perm_append_left_iff] at hids
  have : ex.chunkId = ey.chunkId := by simpa using hids
  exact hne this

/-- If every order of arrival gives the same ranks, the boundary is not tied. -/
theorem tieFree_of_forall_ranks {k : Nat} {es : List (HeapEntry T D)} (ranks : List (D × Int))
    (h : ∀ es' : List (HeapEntry T D), es'.Perm es →
      ((pushAll (keyAbove distance) k [] es').map rankOf).insertionSort RankLe = ranks) :
    TieFree k (es.map rankOf : Multiset (D × Int)) := by
  refine tieFree_of_forall_perm (ranks.map Prod.snd) fun es' hes' => ?_
  have hids := (perm_insertionSort RankLe
    ((pushAll (keyAbove distance) k [] es').map rankOf)).symm.map Prod.snd
  rw [h es' hes', List.map_map] at hids
  exact hids

end

section

variable {F D : Type} [LinearOrder D]

/-- The ranks of the rows that the aggregate does not drop. -/
def rowRanks (ar : Arith F D) (q : Vec F) (metric : Metric) (rows : List (TopKRow F)) :
    List (D × Int) :=
  (rows.filterMap (entryOf ar q metric)).map rankOf

/-- The reference: the first `k` rows in ascending (distance, chunk id) order. -/
def firstRows (ar : Arith F D) (q : Vec F) (metric : Metric) (k : Nat) (rows : List (TopKRow F)) :
    List (D × Int) :=
  ((rowRanks ar q metric rows).insertionSort RankLe).take k

/-- The ranks of a result. -/
def resultRanks (res : Option (List (ResultRow D))) : List (D × Int) :=
  (res.getD []).map fun r => (r.distance, r.chunkId)

/-- What a row of the result shows, as a rank. -/
theorem resultRanks_finalize (ar : Arith F D) (st : Option (TopKState F D)) :
    (finalize ar st).map resultRanks =
      ((qsortHeap (heapOf st)).mapM (jsonEntry ar)).map (List.map rankOf) := by
  cases st with
  | none => rfl
  | some s =>
    show (((qsortHeap s.heap).mapM (jsonEntry ar)).map _).map _ =
      ((qsortHeap s.heap).mapM (jsonEntry ar)).map _
    cases (qsortHeap s.heap).mapM (jsonEntry ar) with
    | error e => rfl
    | ok es =>
      refine congrArg Except.ok (ext_getElem? fun i => ?_)
      simp only [resultRanks, Option.getD_some, getElem?_map, getElem?_mapIdx, Option.map_map]
      rfl

/-- JSON has the distance as it is, and has a number for the similarity. -/
def Shown (ar : Arith F D) (metric : Metric) (d : D) : Prop :=
  ar.json d = some d ∧ (ar.json (similarityOf ar metric d)).isSome

omit [LinearOrder D] in
theorem map_rankOf_jsonEntry {ar : Arith F D} {metric : Metric} {e : HeapEntry KeptText D}
    (hsim : e.similarity = similarityOf ar metric e.distance) :
    (jsonEntry ar e).map rankOf = .ok (rankOf e) ↔ Shown ar metric e.distance := by
  unfold Shown
  rw [map_eq_ok, ← hsim]
  constructor
  · rintro ⟨e', he', hrank⟩
    obtain ⟨hd, hs, -, -⟩ := jsonEntry_eq_ok.mp he'
    have hdist : e'.distance = e.distance := congrArg Prod.fst hrank
    exact ⟨hdist ▸ hd, by rw [hs]; rfl⟩
  · rintro ⟨hd, hs⟩
    obtain ⟨sim, hsim'⟩ := Option.isSome_iff_exists.mp hs
    exact ⟨⟨e.chunkId, e.sourceText, e.distance, sim⟩,
      jsonEntry_eq_ok.mpr ⟨hd, hsim', rfl, rfl⟩, rfl⟩

variable {ar : Arith F D} {q : Vec F} {k : Int} {metric : Metric}

omit [LinearOrder D] in
theorem similarity_of_mem {rows : List (TopKRow F)} {e : HeapEntry KeptText D}
    (h : e ∈ rows.filterMap (entryOf ar q metric)) :
    e.similarity = similarityOf ar metric e.distance := by
  obtain ⟨⟨emb?, cid?, txt⟩, -, hentry⟩ := mem_filterMap.mp h
  cases emb? with
  | none => cases hentry
  | some emb =>
    cases cid? with
    | none => cases hentry
    | some cid =>
      cases hentry
      rfl

/-- **Without a tie the result is the first rows exactly if JSON can show them.** -/
theorem topk_of_tieFree (hk : Allowed k) {rows : List (TopKRow F)}
    (hdim : ∀ row ∈ rows, HasDim q row)
    (ht : TieFree k.toNat (rowRanks ar q metric rows : Multiset (D × Int)))
    {p : Plan (TopKRow F)} (hp : p.rows.Perm rows) :
    (topkVectorSearch ar (argsOf q k metric) p).map resultRanks =
        .ok (firstRows ar q metric k.toNat rows) ↔
      ∀ x ∈ firstRows ar q metric k.toNat rows, Shown ar metric x.1 := by
  obtain ⟨st, e, hst⟩ := partialState_keeps ar metric hk p fun row h =>
    hdim row (hp.mem_iff.mp h)
  have hbest := hst.keeps.best
  rw [Multiset.coe_eq_coe.mpr (hp.filterMap (entryOf ar q metric))] at hbest
  have hranks : (qsortHeap (heapOf st)).map rankOf = firstRows ar q metric k.toNat rows := by
    rw [map_rankOf_qsortHeap, ranks_of_tieFree ht hbest]
    rfl
  have hsim : ∀ e ∈ qsortHeap (heapOf st), e.similarity = similarityOf ar metric e.distance := by
    intro e he
    have hheap := (perm_insertionSort _ (heapOf st)).mem_iff.mp he
    exact similarity_of_mem (Multiset.mem_of_le hbest.le_all (Multiset.mem_coe.mpr hheap))
  unfold topkVectorSearch
  rw [e]
  dsimp only
  rw [resultRanks_finalize, ← hranks, mapM_map_eq_ok, forall_mem_map]
  exact forall₂_congr fun e he => map_rankOf_jsonEntry (hsim e he)

/-- A scan keeps the chunks of its result. -/
theorem topk_scan_ids (hk : Allowed k) {rows : List (TopKRow F)}
    (hdim : ∀ row ∈ rows, HasDim q row) {res : Option (List (ResultRow D))}
    (h : topkVectorSearch ar (argsOf q k metric) (.scan rows) = .ok res) :
    ((pushAll (keyAbove distance) k.toNat [] (rows.filterMap (entryOf ar q metric))).map
      chunkId).Perm ((resultRanks res).map Prod.snd) := by
  obtain ⟨st, e, -, hh⟩ := scan_spec ar metric hk rows (createdBy_none q k metric) hdim
  unfold topkVectorSearch partialState at h
  rw [e] at h
  dsimp only at h
  have hranks := congrArg (Except.map resultRanks) h
  rw [resultRanks_finalize] at hranks
  obtain ⟨es, hes, hres⟩ := map_eq_ok.mp hranks
  have hids : es.map chunkId = (qsortHeap (heapOf st)).map chunkId :=
    map_of_mapM_eq_ok (fun _ _ h => (jsonEntry_eq_ok.mp h).2.2.1) hes
  rw [← hres, List.map_map]
  show _ ~ es.map chunkId
  rw [hids, ← show heapOf st = pushAll _ _ [] _ from hh]
  exact ((perm_insertionSort _ (heapOf st)).map chunkId).symm

theorem exists_rows_of_perm {R E : Type} {f : R → Option E} :
    ∀ {es : List E} {rows : List R}, (rows.filterMap f).Perm es →
      ∃ rows' : List R, rows'.Perm rows ∧ rows'.filterMap f = es
  | [], rows, h => ⟨rows, List.Perm.refl _, h.eq_nil⟩
  | e :: es, rows, h => by
    obtain ⟨r, hr, hre⟩ := mem_filterMap.mp (h.mem_iff.mpr mem_cons_self)
    obtain ⟨s, t, rfl⟩ := append_of_mem hr
    have hst : ((s ++ t).filterMap f).Perm es := by
      refine List.Perm.cons_inv (a := e) ?_
      have hmid : (s ++ r :: t).Perm (r :: (s ++ t)) := perm_middle
      have := (hmid.filterMap f).symm.trans h
      rwa [filterMap_cons, hre] at this
    obtain ⟨rows', hp, he⟩ := exists_rows_of_perm hst
    exact ⟨r :: rows', (List.Perm.cons r hp).trans perm_middle.symm, by
      rw [filterMap_cons, hre, he]⟩

/-- **The aggregate returns the first rows under every plan exactly if** it takes the limit and the
embeddings, the boundary is not tied and JSON can show the rows. -/
theorem topk_firstRows_iff (ar : Arith F D) (q : Vec F) (k : Int) (metric : Metric)
    (rows : List (TopKRow F)) :
    (∀ p : Plan (TopKRow F), p.rows.Perm rows →
      (topkVectorSearch ar (argsOf q k metric) p).map resultRanks =
        .ok (firstRows ar q metric k.toNat rows)) ↔
      (rowRanks ar q metric rows ≠ [] → Allowed k) ∧ (∀ row ∈ rows, HasDim q row) ∧
        TieFree k.toNat (rowRanks ar q metric rows : Multiset (D × Int)) ∧
        ∀ x ∈ firstRows ar q metric k.toNat rows, Shown ar metric x.1 := by
  by_cases hnil : rows.filterMap (entryOf ar q metric) = []
  · -- every row is dropped: the state is NULL
    have hranks : rowRanks ar q metric rows = [] := by rw [rowRanks, hnil, map_nil]
    have hfirst : firstRows ar q metric k.toNat rows = [] := by
      rw [firstRows, hranks, insertionSort_nil, take_nil]
    have hdim : ∀ row ∈ rows, HasDim q row := by
      rintro ⟨emb?, cid?, txt⟩ hrow emb cid rfl rfl
      cases filterMap_eq_nil_iff.mp hnil _ hrow
    rw [hranks, hfirst]
    refine iff_of_true (fun p hp => ?_)
      ⟨fun h => absurd rfl h, hdim, fun _ _ _ x hx => absurd hx (Multiset.notMem_zero x),
        forall_mem_nil _⟩
    unfold topkVectorSearch
    have hperm := hp.filterMap (entryOf ar q metric)
    rw [hnil] at hperm
    rw [partialState_noEntry ar k p hperm.eq_nil]
    rfl
  constructor
  · intro hall
    obtain ⟨res, hres, -⟩ := map_eq_ok.mp (hall (.scan rows) (List.Perm.refl rows))
    unfold topkVectorSearch partialState at hres
    split at hres
    · cases hres
    rename_i st hst
    obtain ⟨hdim, hallowed⟩ := scan_ok (createdBy_none q k metric) hst
    have hk := hallowed hnil rfl
    have ht : TieFree k.toNat (rowRanks ar q metric rows : Multiset (D × Int)) := by
      refine tieFree_of_forall_perm ((firstRows ar q metric k.toNat rows).map Prod.snd)
        fun es hes => ?_
      obtain ⟨rows', hrows, rfl⟩ := exists_rows_of_perm hes.symm
      obtain ⟨res', hres', hranks⟩ := map_eq_ok.mp (hall (.scan rows') hrows)
      rw [← hranks]
      exact topk_scan_ids hk (fun row h => hdim row (hrows.mem_iff.mp h)) hres'
    have hscan : (Plan.scan rows).rows.Perm rows := List.Perm.refl rows
    exact ⟨fun _ => hk, hdim, ht, (topk_of_tieFree hk hdim ht hscan).mp (hall _ hscan)⟩
  · rintro ⟨hk, hdim, ht, hshown⟩ p hp
    exact (topk_of_tieFree (hk fun h => hnil (map_eq_nil_iff.mp h)) hdim ht hp).mpr hshown

end

/-- The row of chunk `cid` with embedding `[x]`. -/
def rowAt (x cid : Int) : TopKRow Int := ⟨some [x], some cid, some "t"⟩

/-- Three chunks at different distances, cut at two. -/
theorem topk_firstRows_cut :
    ∀ p : Plan (TopKRow Int), p.rows.Perm [rowAt 3 1, rowAt 1 2, rowAt 2 3] →
      (topkVectorSearch intArith (argsOf [0] 2 .l2) p).map resultRanks = .ok [(1, 2), (4, 3)] := by
  refine (topk_firstRows_iff intArith [0] 2 .l2 [rowAt 3 1, rowAt 1 2, rowAt 2 3]).mpr
    ⟨fun _ => by decide, ?_, tieFree_coe_iff.mpr (by decide), fun _ _ => ⟨rfl, rfl⟩⟩
  simp only [forall_mem_cons, HasDim]
  refine ⟨?_, ?_, ?_, forall_mem_nil _⟩ <;> rintro _ _ ⟨⟩ ⟨⟩ <;> rfl

/-- Chunks 1 and 2 tie at distance 1 and the limit is 1: if chunk 2 arrives first, it is the one
returned. -/
theorem topk_tied_plan :
    ∃ p : Plan (TopKRow Int), p.rows.Perm [rowAt 1 1, rowAt 1 2] ∧
      firstRows intArith [0] .l2 1 [rowAt 1 1, rowAt 1 2] = [(1, 1)] ∧
      (topkVectorSearch intArith (argsOf [0] 1 .l2) p).map resultRanks = .ok [(1, 2)] :=
  ⟨.scan [rowAt 1 2, rowAt 1 1], List.Perm.swap _ _ _, by decide, by rfl⟩

end MaluDb.Vector
