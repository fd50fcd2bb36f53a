import MaluDb.Vector.Beam

/-!
# The graph a build makes

The insertion loop of `maludb_ann_build_c`. A neighbour list with no free slot evicts its worst edge
or refuses the new one, on this side only, so a node can lose its last way in.

Results:

* `linkAll_of_hasRoom`: an insertion next to nodes with a free slot keeps the links of the others.
* `annBuildC_wellFormed`: the edges of a built graph lead to its nodes.
* `annSearchC_all`: a search for as many chunks as there are returns all, if it can reach them.
-/

namespace MaluDb.Vector

open List

/-! ## One offer -/

section

variable {D : Type} [LT D] [DecidableLT D] {slots : Slots D}

theorem setSlot_cases (slots : Slots D) (b : Nat) (dist : D) :
    (∃ i, slots[i]? = some none ∧ setSlot slots b dist = slots.set i (some (b, dist))) ∨
      none ∉ slots ∧ ((∃ i, setSlot slots b dist = slots.set i (some (b, dist))) ∨
        setSlot slots b dist = slots) := by
  unfold setSlot
  split
  · rename_i i hi
    obtain ⟨hlt, hnone, -⟩ := findIdx?_eq_some_iff_getElem.mp hi
    refine .inl ⟨i, ?_, rfl⟩
    rw [getElem?_eq_getElem hlt, Option.isNone_iff_eq_none.mp hnone]
  rename_i hfull
  have hmem : none ∉ slots := fun hmem =>
    Bool.noConfusion (findIdx?_eq_none_iff.mp hfull none hmem)
  refine .inr ⟨hmem, ?_⟩
  split
  · split
    · exact .inl ⟨_, rfl⟩
    · exact .inr rfl
  · exact .inr rfl

@[simp] theorem length_setSlot (slots : Slots D) (b : Nat) (dist : D) :
    (setSlot slots b dist).length = slots.length := by
  obtain ⟨i, -, h⟩ | ⟨-, ⟨i, h⟩ | h⟩ := setSlot_cases slots b dist <;> rw [h]
  · exact length_set
  · exact length_set

theorem mem_of_mem_setSlot {b : Nat} {dist : D} {e : Nat × D}
    (he : some e ∈ setSlot slots b dist) : e = (b, dist) ∨ some e ∈ slots := by
  obtain ⟨i, -, h⟩ | ⟨-, ⟨i, h⟩ | h⟩ := setSlot_cases slots b dist <;> rw [h] at he
  · exact (mem_or_eq_of_mem_set he).symm.imp_left Option.some.inj
  · exact (mem_or_eq_of_mem_set he).symm.imp_left Option.some.inj
  · exact .inr he

theorem setSlot_of_free (hfree : none ∈ slots) (b : Nat) (dist : D) :
    some (b, dist) ∈ setSlot slots b dist ∧
      ∀ e, some e ∈ slots → some e ∈ setSlot slots b dist := by
  obtain ⟨i, hi, h⟩ | ⟨hfull, -⟩ := setSlot_cases slots b dist
  · rw [h]
    obtain ⟨hlt, hget⟩ := List.getElem?_eq_some_iff.mp hi
    refine ⟨mem_set hlt _, ?_⟩
    intro e he
    obtain ⟨j, hj⟩ := mem_iff_getElem?.mp he
    have hne : i ≠ j := by
      rintro rfl
      exact Option.some_ne_none e (Option.some.inj (hj.symm.trans hi))
    exact mem_of_getElem? ((getElem?_set_ne hne).trans hj)
  · exact absurd hfree hfull

end

/-! ## The graph under construction -/

section

variable {D : Type} [LT D] [DecidableLT D] {es : List (Slots D)} {n m : Nat}

/-- Node `a` has an edge to node `b`. -/
def Linked (es : List (Slots D)) (a b : Nat) : Prop := ∃ d, some (b, d) ∈ es[a]?.getD []

/-- A path of links. -/
abbrev Path (es : List (Slots D)) : Nat → Nat → Prop := Relation.ReflTransGen (Linked es)

/-- **The shape of the graph**: `m` slots for each of `n` nodes, and edges between nodes. -/
structure Shaped (n m : Nat) (es : List (Slots D)) : Prop where
  nodes : es.length = n
  slots : ∀ slots ∈ es, slots.length = m
  edges : ∀ a b, Linked es a b → b < n

/-- Link `i` and the node of `c` both ways. -/
def linkBoth (i : Nat) (es : List (Slots D)) (c : CandEntry D) : List (Slots D) :=
  annSetEdge (annSetEdge es i c.idx c.dist) c.idx i c.dist

theorem getElem?_annSetEdge (a b : Nat) (dist : D) (x : Nat) :
    (annSetEdge es a b dist)[x]? =
      es[x]?.map fun slots => if a = x then setSlot slots b dist else slots := by
  unfold annSetEdge
  rw [getElem?_modify]
  rfl

@[simp] theorem length_annSetEdge (es : List (Slots D)) (a b : Nat) (dist : D) :
    (annSetEdge es a b dist).length = es.length :=
  length_modify _ _ _

omit [LT D] [DecidableLT D] in
theorem linked_iff {a b : Nat} :
    Linked es a b ↔ ∃ slots d, es[a]? = some slots ∧ some (b, d) ∈ slots := by
  unfold Linked
  cases hes : es[a]? with
  | none => simp
  | some slots => simp

theorem linked_of_annSetEdge {a b : Nat} {dist : D} {x y : Nat}
    (h : Linked (annSetEdge es a b dist) x y) : y = b ∨ Linked es x y := by
  obtain ⟨slots', d, hget, hmem⟩ := linked_iff.mp h
  rw [getElem?_annSetEdge] at hget
  obtain ⟨slots, hslots, rfl⟩ := Option.map_eq_some_iff.mp hget
  split at hmem
  · rcases mem_of_mem_setSlot hmem with heq | hmem
    · exact .inl (congrArg Prod.fst heq)
    · exact .inr (linked_iff.mpr ⟨slots, d, hslots, hmem⟩)
  · exact .inr (linked_iff.mpr ⟨slots, d, hslots, hmem⟩)

theorem Shaped.annSetEdge (h : Shaped n m es) (a : Nat) {b : Nat} (hb : b < n) (dist : D) :
    Shaped n m (annSetEdge es a b dist) := by
  refine ⟨(length_annSetEdge _ _ _ _).trans h.nodes, ?_, ?_⟩
  · intro slots' hmem
    obtain ⟨x, hx⟩ := mem_iff_getElem?.mp hmem
    rw [getElem?_annSetEdge] at hx
    obtain ⟨slots, hslots, rfl⟩ := Option.map_eq_some_iff.mp hx
    have hlen := h.slots slots (mem_of_getElem? hslots)
    split
    · rw [length_setSlot, hlen]
    · exact hlen
  · intro x y hxy
    rcases linked_of_annSetEdge hxy with rfl | hxy
    · exact hb
    · exact h.edges x y hxy

/-- The list of node `a` has a free slot. -/
def HasRoom (es : List (Slots D)) (a : Nat) : Prop := ∃ slots, es[a]? = some slots ∧ none ∈ slots

theorem hasRoom_annSetEdge_of_ne {a b x : Nat} {dist : D} (hne : a ≠ x) :
    HasRoom (annSetEdge es a b dist) x ↔ HasRoom es x := by
  unfold HasRoom
  rw [getElem?_annSetEdge]
  simp [hne]

/-- **An offer to a list with a free slot adds its link and keeps the others.** -/
theorem HasRoom.annSetEdge {a : Nat} (h : HasRoom es a) (b : Nat) (dist : D) :
    Linked (annSetEdge es a b dist) a b ∧
      ∀ x y, Linked es x y → Linked (Vector.annSetEdge es a b dist) x y := by
  obtain ⟨slots, ha, hfree⟩ := h
  obtain ⟨hnew, hold⟩ := setSlot_of_free hfree b dist
  have hafter : (Vector.annSetEdge es a b dist)[a]? = some (setSlot slots b dist) := by
    rw [getElem?_annSetEdge, ha]
    simp
  refine ⟨linked_iff.mpr ⟨_, dist, hafter, hnew⟩, fun x y hxy => ?_⟩
  obtain ⟨slots', d, hx, hmem⟩ := linked_iff.mp hxy
  by_cases hax : a = x
  · subst hax
    obtain rfl : slots = slots' := Option.some.inj (ha.symm.trans hx)
    exact linked_iff.mpr ⟨_, d, hafter, hold _ hmem⟩
  · refine linked_iff.mpr ⟨slots', d, ?_, hmem⟩
    rw [getElem?_annSetEdge, hx]
    simp [hax]

/-! ## One insertion -/

theorem Shaped.linkAll {i : Nat} (hi : i < n) (found : List (CandEntry D))
    (hfound : ∀ c ∈ found, c.idx < n) :
    ∀ {es : List (Slots D)}, Shaped n m es → Shaped n m (found.foldl (linkBoth i) es) := by
  induction found with
  | nil => exact fun h => h
  | cons c found ih =>
    intro es h
    obtain ⟨hc, hrest⟩ := forall_mem_cons.mp hfound
    exact ih hrest ((h.annSetEdge i hc c.dist).annSetEdge c.idx hi c.dist)

theorem linked_annSetEdge_of_ne {a b x y : Nat} {d : D} (hne : a ≠ x) :
    Linked (annSetEdge es a b d) x y ↔ Linked es x y := by
  unfold Linked
  rw [getElem?_annSetEdge]
  simp [hne]

/-- **Links to different nodes with a free slot lead back to `i`, and the other nodes keep theirs.**
By induction on the nodes; the list of `i` itself may be full. -/
theorem linkAll_of_hasRoom {i : Nat} (found : List (CandEntry D)) :
    ∀ {es : List (Slots D)}, (found.map CandEntry.idx).Nodup →
      (∀ c ∈ found, c.idx ≠ i ∧ HasRoom es c.idx) →
      (∀ c ∈ found, Linked (found.foldl (linkBoth i) es) c.idx i) ∧
        ∀ x y, x ≠ i → Linked es x y → Linked (found.foldl (linkBoth i) es) x y := by
  induction found with
  | nil => exact fun _ _ => ⟨by simp, fun _ _ _ hxy => hxy⟩
  | cons c found ih =>
    intro es hnodup hfound
    obtain ⟨⟨hi, hroom⟩, hrest⟩ := forall_mem_cons.mp hfound
    obtain ⟨hc, hnodup⟩ := nodup_cons.mp hnodup
    have hroom' : HasRoom (annSetEdge es i c.idx c.dist) c.idx :=
      (hasRoom_annSetEdge_of_ne hi.symm).mpr hroom
    obtain ⟨hback, hkept⟩ := hroom'.annSetEdge i c.dist
    obtain ⟨hlinks, hkeep⟩ := @ih (linkBoth i es c) hnodup fun e he => by
      have hne : c.idx ≠ e.idx := fun heq => hc (heq ▸ mem_map_of_mem he)
      refine ⟨(hrest e he).1, (hasRoom_annSetEdge_of_ne hne).mpr ?_⟩
      exact (hasRoom_annSetEdge_of_ne (hrest e he).1.symm).mpr (hrest e he).2
    refine ⟨forall_mem_cons.mpr ⟨hkeep _ _ hi hback, hlinks⟩, fun x y hx hxy => ?_⟩
    exact hkeep x y hx (hkept x y ((linked_annSetEdge_of_ne hx.symm).mpr hxy))

end

section

variable {F D : Type} [LT D] [DecidableLT D] [BEq D] {ar : Arith F D} {es : List (Slots D)}
variable {metric : Metric} {dim m n : Nat} {ef : Int} {ids : List Int} {embs : List (Vec F)}

omit [LT D] [DecidableLT D] [BEq D] in
theorem points_graphOf :
    Points (graphOf metric dim m ef ids embs es) = Linked es := by
  funext a b
  refine propext ?_
  unfold Points Linked graphOf slotEdges
  dsimp only
  rw [getElem?_map]
  cases es[a]? with
  | none => simp
  | some slots =>
    simp only [Option.map_some, Option.getD_some, mem_map]
    constructor
    · rintro ⟨e, he, heq⟩
      cases e with
      | none => exact absurd heq (by simp)
      | some e =>
        refine ⟨e.2, ?_⟩
        rwa [← Int.ofNat_inj.mp heq]
    · rintro ⟨d, hd⟩
      exact ⟨some (b, d), hd, rfl⟩

omit [LT D] [DecidableLT D] [BEq D] in
theorem searchEntry_graphOf {i : Nat} (hi : i ≠ 0) :
    searchEntry (graphOf metric dim m ef ids embs es) i = 0 := by
  unfold searchEntry graphOf
  dsimp only
  rw [if_neg (by omega)]
  rfl

omit [LT D] [DecidableLT D] [BEq D] in
theorem Shaped.lt_of_path (h : Shaped n m es) (hn : 0 < n) {i : Nat}
    (hi : Path es 0 i) : i < n := by
  cases hi with
  | refl => exact hn
  | tail _ hlink => exact h.edges _ _ hlink

variable (ar es metric dim ids embs) in
theorem insertion_found {i : Nat} (hi : i ≠ 0) (hm : m ≠ 0) (hef : 0 < ef) (q : Vec F) :
    nswSearch ar (graphOf metric dim m ef ids embs es) q i m ef (ef + 1) ≠ [] ∧
      ∀ c ∈ nswSearch ar (graphOf metric dim m ef ids embs es) q i m ef (ef + 1),
        Path es 0 c.idx := by
  obtain ⟨hne, hall⟩ := nswSearch_sound ar (graphOf metric dim m ef ids embs es) q hi hm hef
    (show 0 < ef + 1 by omega)
  refine ⟨hne, fun c hc => ?_⟩
  have hreach := (hall c hc).1
  rw [searchEntry_graphOf hi] at hreach
  unfold Reaches at hreach
  rwa [points_graphOf] at hreach

theorem Shaped.insertNode (h : Shaped n m es) {i : Nat} (hi : i ≠ 0) (hin : i < n) (hm : m ≠ 0)
    (hef : 0 < ef) : Shaped n m (insertNode ar metric dim m ef ids embs es i) := by
  refine Shaped.linkAll hin _ ?_ h
  intro c hc
  exact h.lt_of_path (by omega) ((insertion_found ar es metric dim ids embs hi hm hef _).2 c hc)

/-! ## The loop -/

omit [LT D] [DecidableLT D] [BEq D] in
theorem shaped_start (n m : Nat) :
    Shaped n m (replicate n (replicate m (none : Option (Nat × D)))) := by
  refine ⟨length_replicate, ?_, ?_⟩
  · intro slots hmem
    rw [(mem_replicate.mp hmem).2, length_replicate]
  intro a b hab
  obtain ⟨slots, d, hget, hmem⟩ := linked_iff.mp hab
  rw [(mem_replicate.mp (mem_of_getElem? hget)).2] at hmem
  exact absurd (mem_replicate.mp hmem).2 (Option.some_ne_none _)

variable (ar metric dim ids embs) in
/-- **After the insertions of the nodes `1, …, len`** the graph has its shape. -/
theorem shaped_insertions (hm : m ≠ 0) (hef : 0 < ef) :
    ∀ len, len < n → Shaped n m ((range' 1 len).foldl (insertNode ar metric dim m ef ids embs)
      (replicate n (replicate m none)))
  | 0, _ => shaped_start n m
  | len + 1, hlen => by
    rw [range'_concat, foldl_concat, Nat.one_mul]
    exact (shaped_insertions hm hef len (by omega)).insertNode (by omega) (by omega) hm hef

variable (ar metric dim embs) in
theorem shaped_buildEdges (hm : m ≠ 0) (hef : 0 < ef) (hids : ids ≠ []) :
    Shaped ids.length m (buildEdges ar metric dim m ef ids embs) := by
  have hpos : 0 < ids.length := length_pos_iff.mpr hids
  exact shaped_insertions ar metric dim ids embs hm hef _ (by omega)

end

/-! ## The built graph -/

section

variable {F D : Type} [LT D] [DecidableLT D] [BEq D] {ar : Arith F D}
variable {rows : List (Int × Vec F)} {m efConstruct : Int} {metricArg : String} {g : AnnGraph F}

theorem Shaped.mem_slotEdges {D : Type} {es : List (Slots D)} {n k : Nat} (h : Shaped n k es)
    {slots : Slots D} (hmem : slots ∈ es) {e : Int} (he : e ∈ slotEdges slots) :
    e = -1 ∨ 0 ≤ e ∧ e < n := by
  obtain ⟨slot, hslot, rfl⟩ := mem_map.mp he
  cases slot with
  | none => exact .inl rfl
  | some edge =>
    obtain ⟨a, ha⟩ := mem_iff_getElem?.mp hmem
    have hlt : edge.1 < n := h.edges a edge.1 (linked_iff.mpr ⟨slots, edge.2, ha, hslot⟩)
    exact .inr (by dsimp only; omega)

section

variable (h : annBuildC ar rows m efConstruct metricArg = .ok g)
include h

/-- **A built graph is in order**: a list of `m` edges for each row, each edge unused or the number
of a row, and an embedding of the graph's dimension for each row. -/
theorem annBuildC_wellFormed :
    g.edges.length = rows.length ∧ g.embeddings = rows.map Prod.snd ∧
      (∀ v ∈ g.embeddings, v.length = g.dim) ∧
      (∀ es ∈ g.edges, es.length = g.m) ∧
      ∀ es ∈ g.edges, ∀ e ∈ es, e = -1 ∨ 0 ≤ e ∧ e < rows.length := by
  obtain ⟨hm, hef, metric, -, ⟨rfl, rfl⟩ | ⟨hne, dim, hdim, rfl⟩⟩ := annBuildC_eq_ok h
  · simp
  have hids : rows.map Prod.fst ≠ [] := by simpa using hne
  have hshape := shaped_buildEdges ar metric dim (rows.map Prod.snd)
    (show m.toNat ≠ 0 by omega) hef hids
  rw [length_map] at hshape
  refine ⟨?_, rfl, ?_, ?_, ?_⟩
  · exact (length_map _).trans hshape.nodes
  · exact forall_mem_map.mpr hdim
  · refine forall_mem_map.mpr fun slots hmem => ?_
    exact (length_map _).trans (hshape.slots slots hmem)
  · exact forall_mem_map.mpr fun slots hmem e he => hshape.mem_slotEdges hmem he

theorem annBuildC_inRange : g.InRange := by
  obtain ⟨hlen, -, -, -, hedges⟩ := annBuildC_wellFormed h
  intro es hes e he
  rw [hlen]
  rcases hedges es hes e he with rfl | ⟨-, hlt⟩
  · omega
  · exact hlt

theorem annBuildC_entryNode (hne : rows ≠ []) : g.entryNode = 0 := by
  obtain ⟨-, -, metric, -, ⟨hnil, -⟩ | ⟨-, dim, -, rfl⟩⟩ := annBuildC_eq_ok h
  · exact absurd hnil hne
  · rfl

end

theorem map_mapIdx_of {α β γ : Type} {f : Nat → α → β} {row : β → γ} (row' : α → γ)
    (h : ∀ i a, row (f i a) = row' a) (l : List α) : (l.mapIdx f).map row = l.map row' := by
  refine ext_getElem? fun i => ?_
  rw [getElem?_map, getElem?_mapIdx, getElem?_map, Option.map_map]
  exact congrArg (Option.map · l[i]?) (funext (h i))

variable (ar) in
theorem annSearchC_wide (hg : g.InRange) (hlen : g.chunkIds.length = g.edges.length)
    (hne : g.chunkIds ≠ []) (hentry : g.entryNode = 0) (hall : ∀ i < g.edges.length, Reaches g 0 i)
    {query : Vec F} (hdim : query.length = g.dim) {k efSearch : Int} (hk : 0 < k)
    (hwide : (g.edges.length : Int) ≤ max efSearch k)
    (halloc : 16 * (max efSearch k + 1) ≤ maxAllocSize) {metricArg : Option String}
    {metric : Metric} (hmetric : metricArg.elim (.ok g.metric) parseMetric = .ok metric) :
    ∃ found : List (CandEntry D),
      found.Perm ((range g.edges.length).map (candOf ar { g with metric } query)) ∧
      annSearchC ar g query k efSearch metricArg =
        .ok (((found.foldl shiftInsert []).take k.toNat).mapIdx fun i c =>
          ⟨g.chunkIds[c.idx]?.getD 0, c.dist, similarityOf ar metric c.dist, i + 1⟩) := by
  have hpos : 0 < g.chunkIds.length := length_pos_iff.mpr hne
  have hep : searchEntry { g with metric } g.chunkIds.length = 0 := by
    unfold searchEntry
    dsimp only
    rw [hentry, if_neg (by omega)]
    rfl
  obtain ⟨found, hperm, heq⟩ := nswSearch_all ar query
    (show AnnGraph.InRange { g with metric } from hg) (show g.chunkIds.length ≠ 0 by omega)
    (show k.toNat ≠ 0 by omega) (show _ < g.edges.length by omega)
    (show (g.edges.length : Int) ≤ min (max (max efSearch k) (k.toNat : Int))
      (max efSearch k + 1) by omega) (by rw [hep]; exact hall)
  refine ⟨found, hperm, ?_⟩
  have hn : (16 * (g.chunkIds.length + 1) : Int) ≤ maxAllocSize := by omega
  have hk' : 16 * (k + 1) ≤ maxAllocSize := by omega
  have hallocs : allocSearch g.chunkIds.length k (max efSearch k) = .ok () := by
    unfold allocSearch
    rw [palloc_eq_ok.mpr hn, palloc_eq_ok.mpr halloc, palloc_eq_ok.mpr hk']
    rfl
  unfold annSearchC
  rw [if_neg (by omega), if_neg (not_not.mpr hdim), if_neg hne, hmetric]
  dsimp only
  rw [hallocs, heq]
  rfl

theorem annSearchC_all (hg : g.InRange) (hlen : g.chunkIds.length = g.edges.length)
    (hentry : g.chunkIds ≠ [] → g.entryNode = 0) (hall : ∀ i < g.edges.length, Reaches g 0 i)
    {query : Vec F} (hdim : query.length = g.dim) {k : Int} (hk : 0 < k)
    (hwide : (g.edges.length : Int) ≤ k) {efSearch : Int}
    (halloc : 16 * (max efSearch k + 1) ≤ maxAllocSize) :
    ∃ hits, annSearchC ar g query k efSearch none = .ok hits ∧
      (hits.map AnnHit.chunkId).Perm g.chunkIds := by
  by_cases hne : g.chunkIds = []
  · unfold annSearchC
    rw [if_neg (by omega), if_neg (not_not.mpr hdim), if_pos hne, hne]
    exact ⟨[], rfl, List.Perm.refl _⟩
  obtain ⟨found, hperm, heq⟩ := annSearchC_wide ar hg hlen hne (hentry hne) hall hdim hk
    (show (g.edges.length : Int) ≤ max efSearch k by omega) halloc
    (show (none : Option String).elim (.ok g.metric) parseMetric = .ok g.metric from rfl)
  refine ⟨_, heq, ?_⟩
  have hfold := foldl_shiftInsert_perm found []
  rw [append_nil] at hfold
  have hcount : (found.foldl shiftInsert []).length ≤ k.toNat := by
    rw [hfold.length_eq, hperm.length_eq, length_map, length_range]
    omega
  rw [take_of_length_le hcount, map_mapIdx_of (fun c => g.chunkIds[c.idx]?.getD 0) fun _ _ => rfl]
  refine ((hfold.trans hperm).map _).trans (List.Perm.of_eq ?_)
  rw [List.map_map, ← hlen]
  refine ext_getElem (by simp) fun i hi hi' => ?_
  simp [candOf, getElem?_eq_getElem hi']

end

end MaluDb.Vector
