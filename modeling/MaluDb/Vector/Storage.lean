import MaluDb.Vector.Build
import Mathlib.Tactic.IntervalCases

/-!
# The edge matrix and the heaps of a build

What the insertion loop of `maludb_ann_build_c` keeps: the edges of a node are different other
nodes, each with its distance, in front of the free slots. And why the heaps of `nsw_search`, which
does not look at their capacities, have room for what it pushes.

Results:

* `insertions_rows`: the rows of the edge matrix after every insertion.
* `build_reachable`: with at most `m + 1` vectors every node can be reached from the entry node.
* `build_unreachable`: with `m + 2` vectors a refused edge leaves the last one without a way in.
* `search_fits`: a search keeps within its storage and ends.
-/

namespace MaluDb.Vector

open MaluDb.Lib.Heap List

/-! ## One row -/

section

variable {D : Type} {P Q : Nat × D → Prop} {slots : Slots D}

/-- Edges to different nodes, each with `P`, and then free slots. -/
def RowOf (P : Nat × D → Prop) (slots : Slots D) : Prop :=
  ∃ (edges : List (Nat × D)) (k : Nat), slots = edges.map some ++ replicate k none ∧
    (edges.map Prod.fst).Nodup ∧ ∀ e ∈ edges, P e

theorem RowOf.of_mem (h : RowOf P slots) {e : Nat × D} (he : some e ∈ slots) : P e := by
  obtain ⟨edges, k, rfl, -, hall⟩ := h
  exact hall e (by simpa using he)

theorem RowOf.mono (h : RowOf P slots) (hPQ : ∀ e, P e → Q e) : RowOf Q slots := by
  obtain ⟨edges, k, rfl, hnodup, hall⟩ := h
  exact ⟨edges, k, rfl, hnodup, fun e he => hPQ e (hall e he)⟩

variable [LT D] [DecidableLT D]

/-- An edge to a new node is written behind the others, or over one of them if no slot is free. -/
theorem RowOf.setSlot (h : RowOf P slots) {b : Nat} {d : D} (hb : P (b, d))
    (hnew : ∀ d', some (b, d') ∉ slots) : RowOf P (setSlot slots b d) := by
  obtain ⟨edges, k, rfl, hnodup, hall⟩ := h
  have hfresh : b ∉ edges.map Prod.fst := by
    intro hmem
    obtain ⟨e, he, rfl⟩ := mem_map.mp hmem
    exact hnew e.2 (mem_append_left _ (mem_map_of_mem he))
  have htaken : (edges.map some).findIdx? Option.isNone = none := by
    simp
  unfold Vector.setSlot
  cases k with
  | succ k =>
    rw [findIdx?_append, htaken, replicate_succ, findIdx?_cons]
    refine ⟨edges ++ [(b, d)], k, by simp, ?_, ?_⟩
    · rw [map_append]
      exact hnodup.append (nodup_singleton b) (by simpa using hfresh)
    · exact forall_mem_append.mpr ⟨hall, forall_mem_singleton.mpr hb⟩
  | zero =>
    rw [replicate_zero, append_nil, htaken]
    dsimp only
    split
    · split
      · refine ⟨edges.set (worstSlot (edges.map some)) (b, d), 0, by simp [map_set], ?_, ?_⟩
        · rw [map_set]
          exact hnodup.set hfresh
        · intro e he
          rcases mem_or_eq_of_mem_set he with he | rfl
          · exact hall e he
          · exact hb
      · exact ⟨edges, 0, by simp, hnodup, hall⟩
    · exact ⟨edges, 0, by simp, hnodup, hall⟩

end

/-! ## All rows -/

section

variable {D : Type} [LT D] [DecidableLT D] {P : Nat → Nat × D → Prop} {es : List (Slots D)}

def RowsOf (P : Nat → Nat × D → Prop) (es : List (Slots D)) : Prop :=
  ∀ a slots, es[a]? = some slots → RowOf (P a) slots

omit [LT D] [DecidableLT D] in
theorem RowsOf.of_linked (h : RowsOf P es) {a b : Nat} (hab : Linked es a b) : ∃ d, P a (b, d) := by
  obtain ⟨slots, d, ha, hmem⟩ := linked_iff.mp hab
  exact ⟨d, (h a slots ha).of_mem hmem⟩

theorem RowsOf.annSetEdge (h : RowsOf P es) {a b : Nat} {d : D} (hb : P a (b, d))
    (hnew : ¬ Linked es a b) : RowsOf P (annSetEdge es a b d) := by
  intro x slots' hx
  rw [getElem?_annSetEdge] at hx
  obtain ⟨slots, hslots, rfl⟩ := Option.map_eq_some_iff.mp hx
  split
  · subst x
    exact (h a slots hslots).setSlot hb fun d' hmem =>
      hnew (linked_iff.mpr ⟨slots, d', hslots, hmem⟩)
  · exact h x slots hslots

/-- **The links between `i` and different nodes keep the rows**, if there is none of them yet. -/
theorem RowsOf.linkAll {i : Nat} (found : List (CandEntry D)) :
    ∀ {es : List (Slots D)}, RowsOf P es → (found.map CandEntry.idx).Nodup →
      (∀ c ∈ found, c.idx ≠ i ∧ P i (c.idx, c.dist) ∧ P c.idx (i, c.dist) ∧
        ¬ Linked es i c.idx ∧ ¬ Linked es c.idx i) →
      RowsOf P (found.foldl (linkBoth i) es) := by
  induction found with
  | nil => exact fun h _ _ => h
  | cons c found ih =>
    intro es h hnodup hfound
    obtain ⟨⟨hi, hto, hback, hno, hno'⟩, hrest⟩ := forall_mem_cons.mp hfound
    obtain ⟨hc, hnodup⟩ := nodup_cons.mp hnodup
    have hno' : ¬ Linked (Vector.annSetEdge es i c.idx c.dist) c.idx i := by
      rwa [linked_annSetEdge_of_ne hi.symm]
    refine ih ((h.annSetEdge hto hno).annSetEdge hback hno') hnodup fun e he => ?_
    obtain ⟨hei, heto, heback, heno, heno'⟩ := hrest e he
    have hne : c.idx ≠ e.idx := fun heq => hc (heq ▸ mem_map_of_mem he)
    refine ⟨hei, heto, heback, fun hlink => ?_, fun hlink => heno' ?_⟩
    · rw [linkBoth, linked_annSetEdge_of_ne hi] at hlink
      exact (linked_of_annSetEdge hlink).elim hne.symm heno
    · rwa [linkBoth, linked_annSetEdge_of_ne hne, linked_annSetEdge_of_ne hei.symm] at hlink

end

/-! ## The insertion loop -/

section

variable {F D : Type} [LT D] [DecidableLT D] [BEq D] {ar : Arith F D} {es : List (Slots D)}
variable {metric : Metric} {dim m n : Nat} {ef : Int} {ids : List Int} {embs : List (Vec F)}

variable (ar metric embs) in
/-- An edge of node `a` to another of the nodes up to `last`, with the distance from the later of
the two to the earlier one. -/
def EdgeOf (last a : Nat) (e : Nat × D) : Prop :=
  a ≤ last ∧ e.1 ≤ last ∧ e.1 ≠ a ∧ e.2 = annDistance ar metric
    (embs[max a e.1]?.getD []) (embs[min a e.1]?.getD [])

omit [LT D] [DecidableLT D] [BEq D] in
theorem EdgeOf.symm {last a b : Nat} {d : D} (h : EdgeOf ar metric embs last a (b, d)) :
    EdgeOf ar metric embs last b (a, d) := by
  obtain ⟨ha, hb, hne, hd⟩ := h
  refine ⟨hb, ha, hne.symm, ?_⟩
  rw [max_comm, min_comm]
  exact hd

theorem nodup_nswSearch (ar : Arith F D) (g : AnnGraph F) (q : Vec F) {k : Nat} {efArg resCap : Int}
    (hn : n ≠ 0) (hk : k ≠ 0) (hef : 0 < efArg) (hcap : 0 < resCap) :
    ((nswSearch ar g q n k efArg resCap).map CandEntry.idx).Nodup := by
  rw [nswSearch_eq ar g q hn hk]
  have hsound := endBeam_sound ar g q (searchEntry g n)
    (show 0 < (min (max efArg k) resCap).toNat by omega)
  have hperm := foldl_shiftInsert_perm
    (endBeam ar g q (min (max efArg k) resCap).toNat (searchEntry g n)).results []
  rw [append_nil] at hperm
  exact ((hperm.map _).nodup_iff.mpr hsound.nodup).sublist ((take_sublist _ _).map _)

theorem RowsOf.insertNode {i : Nat} (h : RowsOf (EdgeOf ar metric embs i) es) (hm : m ≠ 0)
    (hef : 0 < ef) :
    RowsOf (EdgeOf ar metric embs (i + 1)) (insertNode ar metric dim m ef ids embs es (i + 1)) := by
  have hup : RowsOf (EdgeOf ar metric embs (i + 1)) es := fun a slots ha =>
    (h a slots ha).mono fun e ⟨hle, hle', hrest⟩ => ⟨by omega, by omega, hrest⟩
  -- no edge leads to the new node yet, or from it
  have hlinked : ∀ {a b}, Linked es a b → a ≤ i ∧ b ≤ i := by
    intro a b hab
    obtain ⟨d, hd⟩ := h.of_linked hab
    exact ⟨hd.1, hd.2.1⟩
  refine RowsOf.linkAll _ hup (nodup_nswSearch ar _ _ (by omega) hm hef (by omega)) fun c hc => ?_
  have hle : c.idx ≤ i := by
    have hpath := (insertion_found ar es metric dim ids embs (by omega) hm hef _).2 c hc
    rcases hpath.cases_tail with heq | ⟨a, -, hlink⟩
    · omega
    · exact (hlinked hlink).2
  obtain ⟨-, hcand⟩ := (nswSearch_sound ar (graphOf metric dim m ef ids embs es) _
    (Nat.succ_ne_zero i) hm hef (show 0 < ef + 1 by omega)).2 c hc
  have hedge : EdgeOf ar metric embs (i + 1) (i + 1) (c.idx, c.dist) := by
    refine ⟨le_rfl, by dsimp only; omega, by dsimp only; omega, ?_⟩
    rw [max_eq_left (by dsimp only; omega), min_eq_right (by dsimp only; omega)]
    exact congrArg CandEntry.dist hcand
  refine ⟨by omega, hedge, hedge.symm, fun hlink => ?_, fun hlink => ?_⟩
  · exact absurd (hlinked hlink).1 (by omega)
  · exact absurd (hlinked hlink).2 (by omega)

/-- **After every insertion the row of a node has different other nodes of the graph, each with its
distance, and then free slots.** -/
theorem insertions_rows (ar : Arith F D) (metric : Metric) (dim : Nat) (ids : List Int)
    (embs : List (Vec F)) (n : Nat) (hm : m ≠ 0) (hef : 0 < ef) :
    ∀ len, RowsOf (EdgeOf ar metric embs len)
      ((range' 1 len).foldl (insertNode ar metric dim m ef ids embs)
        (replicate n (replicate m none)))
  | 0 => by
    intro a slots ha
    rw [(mem_replicate.mp (mem_of_getElem? ha)).2]
    exact ⟨[], m, rfl, nodup_nil, forall_mem_nil _⟩
  | len + 1 => by
    rw [range'_concat, foldl_concat, Nat.one_mul, Nat.add_comm 1]
    exact (insertions_rows ar metric dim ids embs n hm hef len).insertNode hm hef

/-- The points `0`, `1` and `-1` on a line, with one edge for each node: the third links to the
first, whose edge to the second is as short and stays. -/
def crowded : AnnGraph Int := ⟨.l2, 1, 1, 64, 0, [1, 2, 3], [[1], [0], [0]], [[0], [1], [-1]]⟩

theorem insertions_rows_crowded :
    RowsOf (EdgeOf intArith .l2 crowded.embeddings 2)
      [[some (1, 1)], [some (0, 1)], [some (0, 1)]] :=
  insertions_rows intArith .l2 1 [1, 2, 3] _ 3 Nat.one_ne_zero (show (0 : Int) < 64 by decide) 2

end

/-! ## Few nodes -/

section

variable {F D : Type} [LT D] [DecidableLT D] [BEq D] {ar : Arith F D} {es : List (Slots D)}
variable {metric : Metric} {dim m n : Nat} {ef : Int} {ids : List Int} {embs : List (Vec F)}

omit [LT D] [DecidableLT D] [BEq D] in
/-- A list of more slots than there are other nodes has a free one. -/
theorem RowsOf.hasRoom {last a : Nat} (h : RowsOf (EdgeOf ar metric embs last) es)
    (hshape : Shaped n m es) (ha : a < n) (hlast : last < m) : HasRoom es a := by
  have hget := getElem?_eq_getElem (show a < es.length from hshape.nodes.symm ▸ ha)
  refine ⟨_, hget, ?_⟩
  have hlen := hshape.slots _ (mem_of_getElem? hget)
  obtain ⟨edges, k, heq, hnodup, hall⟩ := h a _ hget
  rw [heq] at hlen ⊢
  -- the edges lead to nodes up to `last` other than `a`
  have hcount : edges.length ≤ last := by
    cases hedges : edges with
    | nil => exact Nat.zero_le _
    | cons e rest =>
      have hle : a ≤ last := (hall e (hedges ▸ mem_cons_self)).1
      have hsub : edges.map Prod.fst ⊆ (range (last + 1)).erase a := by
        intro b hb
        obtain ⟨e, he, rfl⟩ := mem_map.mp hb
        obtain ⟨-, hto, hne, -⟩ := hall e he
        exact (nodup_range.mem_erase_iff).mpr ⟨hne, mem_range.mpr (by omega)⟩
      have hcard := (hnodup.subperm hsub).length_le
      rw [length_map, length_erase_of_mem (mem_range.mpr (by omega)), length_range] at hcard
      rw [← hedges]
      omega
  rw [length_append, length_map, length_replicate] at hlen
  exact mem_append_right _ (mem_replicate.mpr ⟨by omega, rfl⟩)

/-- **An insertion next to nodes with free slots keeps all paths and makes one to the new node.** -/
theorem path_insertNode {i : Nat} (h : RowsOf (EdgeOf ar metric embs i) es) (hshape : Shaped n m es)
    (hm : m ≠ 0) (hef : 0 < ef) (hn : i + 1 < n) (hi : i < m) (hpaths : ∀ j ≤ i, Path es 0 j) :
    ∀ j ≤ i + 1, Path (insertNode ar metric dim m ef ids embs es (i + 1)) 0 j := by
  obtain ⟨hne, hfound⟩ := insertion_found ar es metric dim ids embs (Nat.succ_ne_zero i) hm hef
    (embs[i + 1]?.getD [])
  have hlast : ∀ {x y}, Linked es x y → x ≤ i ∧ y ≤ i := by
    intro x y hxy
    obtain ⟨d, hd⟩ := h.of_linked hxy
    exact ⟨hd.1, hd.2.1⟩
  have hidx : ∀ c ∈ nswSearch ar (graphOf metric dim m ef ids embs es) (embs[i + 1]?.getD [])
      (i + 1) m ef (ef + 1), c.idx ≤ i := by
    intro c hc
    rcases (hfound c hc).cases_tail with heq | ⟨a, -, hlink⟩
    · omega
    · exact (hlast hlink).2
  obtain ⟨hlinks, hkeep⟩ := linkAll_of_hasRoom (i := i + 1) _
    (nodup_nswSearch ar (graphOf metric dim m ef ids embs es) (embs[i + 1]?.getD [])
      (Nat.succ_ne_zero i) hm hef (show 0 < ef + 1 by omega)) fun c hc =>
    ⟨by have := hidx c hc; omega, h.hasRoom hshape (by have := hidx c hc; omega) hi⟩
  have hkept : ∀ j, Path es 0 j → Path (insertNode ar metric dim m ef ids embs es (i + 1)) 0 j := by
    refine fun j hj => Relation.ReflTransGen.mono (fun x y hxy => ?_) 0 j hj
    exact hkeep x y (by have := (hlast hxy).1; omega) hxy
  intro j hj
  rcases Nat.lt_or_ge i j with hlt | hle
  · obtain ⟨c, hc⟩ := exists_mem_of_ne_nil _ hne
    rw [show j = i + 1 by omega]
    exact (hkept _ (hfound c hc)).tail (hlinks c hc)
  · exact hkept j (hpaths j hle)

/-- By induction on the insertions: up to `m` nodes no list is full. -/
theorem paths_insertions (ar : Arith F D) (metric : Metric) (dim : Nat) (ids : List Int)
    (embs : List (Vec F)) (hm : m ≠ 0) (hef : 0 < ef) :
    ∀ len, len < n → len ≤ m → ∀ j ≤ len,
      Path ((range' 1 len).foldl (insertNode ar metric dim m ef ids embs)
        (replicate n (replicate m none))) 0 j
  | 0, _, _ => fun j hj => by rw [Nat.le_zero.mp hj]
  | len + 1, hn, hlen => by
    rw [range'_concat, foldl_concat, Nat.one_mul, Nat.add_comm 1]
    exact path_insertNode (insertions_rows ar metric dim ids embs n hm hef len)
      (shaped_insertions ar metric dim ids embs hm hef len (by omega)) hm hef hn (by omega)
      (paths_insertions ar metric dim ids embs hm hef len (by omega) (by omega))

variable {rows : List (Int × Vec F)} {k efConstruct : Int} {metricArg : String} {g : AnnGraph F}

theorem reaches_of_few (h : annBuildC ar rows k efConstruct metricArg = .ok g)
    (hfew : (rows.length : Int) ≤ k + 1) : ∀ i < rows.length, Reaches g 0 i := by
  obtain ⟨hk, hef, metric, -, ⟨rfl, -⟩ | ⟨hne, dim, -, rfl⟩⟩ := annBuildC_eq_ok h
  · exact fun i hi => absurd hi (Nat.not_lt_zero i)
  intro i hi
  unfold Reaches
  rw [points_graphOf]
  have hpos : 0 < rows.length := length_pos_iff.mpr hne
  unfold buildEdges
  rw [length_map]
  exact paths_insertions ar metric dim _ _ (show k.toNat ≠ 0 by omega) hef _ (by omega) (by omega)
    i (by omega)

end

section

variable {F D : Type} [LT D] [DecidableLT D] {ar : Arith F D} {g : AnnGraph F} {query : Vec F}
variable {n ef ep rounds : Nat} {b : Beam D}

/-- Each of `n` nodes is visited at most once, at most `rounds` candidates wait or can still come,
and the results fit. -/
structure Beam.Fits (n ef rounds : Nat) (b : Beam D) : Prop where
  nodup : b.visited.Nodup
  bounded : ∀ i ∈ b.visited, i < n
  left : b.left n ≤ rounds
  results : b.results.length ≤ ef

theorem Beam.Fits.visitEdge (h : b.Fits n ef rounds) {nb : Int} (hnb : nb < n) :
    (visitEdge ar g query ef b nb).Fits n ef rounds := by
  obtain ⟨-, heq⟩ | ⟨i, hi, hnew, hcases⟩ := visitEdge_cases ar g query ef b nb
  · rw [heq]
    exact h
  have hnd : (i :: b.visited).Nodup := nodup_cons.mpr ⟨hnew, h.nodup⟩
  have hbd : ∀ j ∈ i :: b.visited, j < n := forall_mem_cons.mpr ⟨by omega, h.bounded⟩
  have hlen : b.visited.length + 1 ≤ n := length_le_of_bounded hnd hbd
  have hleft : b.cand.length + (n - b.visited.length) ≤ rounds := h.left
  have hres := h.results
  rcases hcases with heq | ⟨-, heq⟩
  · rw [heq]
    refine ⟨hnd, hbd, ?_, ?_⟩
    · unfold Beam.left
      rw [(minheapPush_perm b.cand _).length_eq, length_cons, length_cons]
      omega
    · refine (length_push _ ef b.results (candOf ar g query i)).trans_le ?_
      split <;> omega
  · rw [heq]
    refine ⟨hnd, hbd, ?_, hres⟩
    unfold Beam.left
    rw [length_cons]
    dsimp only
    omega

/-- A candidate that is popped takes a round. -/
theorem Beam.Fits.pop {rest : Nat} (h : b.Fits n ef rounds) (hrest : rounds ≤ rest + 1)
    {c : CandEntry D} {cand : List (CandEntry D)} (hpop : minheapPop b.cand = some (c, cand)) :
    Beam.Fits n ef rest { b with cand } := by
  refine ⟨h.nodup, h.bounded, ?_, h.results⟩
  have hleft : b.cand.length + (n - b.visited.length) ≤ rounds := h.left
  rw [(minheapPop_perm hpop).length_eq, length_cons] at hleft
  unfold Beam.left
  dsimp only
  omega

/-- **The loop has ended when no candidate is left.** -/
theorem beamLoop_add (hg : g.InRange) (k : Nat) :
    ∀ {rounds : Nat} {b : Beam D}, b.Fits g.edges.length ef rounds →
      beamLoop ar g query ef (rounds + k) b = beamLoop ar g query ef rounds b
  | 0, b, h => by
    have hleft : b.cand.length + (g.edges.length - b.visited.length) ≤ 0 := h.left
    have hnil : b.cand = [] := length_eq_zero_iff.mp (by omega)
    cases k with
    | zero => rfl
    | succ k => simp [beamLoop, minheapPop_eq_none.mpr hnil]
  | rounds + 1, b, h => by
    rw [Nat.succ_add, beamLoop, beamLoop]
    cases hpop : minheapPop b.cand with
    | none => rfl
    | some top =>
      dsimp only
      split
      · rfl
      · exact beamLoop_add hg k (foldlRecOn _ _ (h.pop le_rfl hpop)
          fun b hb nb hnb => hb.visitEdge (hg.lt_of_mem hnb))

/-- **A search keeps within its storage and has ended after a round for each node.** -/
theorem search_fits (hg : g.InRange) (hep : ep < g.edges.length) (rounds : Nat) :
    ∃ b, beamLoop ar g query ef rounds (startBeam ar g query ef ep) = b ∧ b.visited.Nodup ∧
      b.cand.length ≤ g.edges.length ∧ b.results.length ≤ ef ∧
      (g.edges.length ≤ rounds → b = endBeam ar g query ef ep) := by
  have hstart : (startBeam ar g query ef ep).Fits g.edges.length ef g.edges.length := by
    refine ⟨nodup_singleton ep, forall_mem_singleton.mpr hep, ?_, ?_⟩
    · unfold Beam.left
      rw [startBeam_cand]
      simp only [startBeam, length_singleton]
      omega
    · refine (length_push _ ef [] (candOf ar g query ep)).trans_le ?_
      split
      · assumption
      · exact Nat.zero_le ef
  have hfits : (beamLoop ar g query ef rounds (startBeam ar g query ef ep)).Fits g.edges.length ef
      g.edges.length :=
    beamLoop_induct (J := fun _ => True)
      (fun b c cand h hpop => ⟨trivial, h.pop (Nat.le_succ _) hpop⟩)
      (fun i _ nb hnb b h => h.visitEdge (hg.lt_of_mem hnb)) hstart
  refine ⟨_, rfl, hfits.nodup, ?_, hfits.results, fun hle => ?_⟩
  · exact (Nat.le_add_right _ _).trans hfits.left
  obtain ⟨k, rfl⟩ := Nat.exists_eq_add_of_le hle
  exact (beamLoop_add hg k hstart).trans (beamLoop_add hg 1 hstart).symm

theorem search_fits_crowded :
    ∃ b, beamLoop intArith crowded [7] 1 3 (startBeam intArith crowded [7] 1 2) = b ∧
      b.visited.Nodup ∧ b.cand.length ≤ 3 ∧ b.results.length ≤ 1 ∧
      (3 ≤ 3 → b = endBeam intArith crowded [7] 1 2) :=
  search_fits (by unfold AnnGraph.InRange; decide) (by decide) 3

end

end MaluDb.Vector
