import MaluDb.Lib.BoundedHeap
import MaluDb.Lib.Except
import MaluDb.Vector.Ops

/-!
# The navigable small-world graph

`src/maludb_ann.c`: building the graph of a compartment by insertion, and the beam search over it.

* `AnnGraph` is the decoded blob; `edges` has one list of `m` slots per node, `-1` for an unused
  one.
* The loop of `nswSearch` pops a candidate per round and pushes each node at most once, so
  `edges.length + 1` rounds are enough for a graph whose edges are nodes.
-/

namespace MaluDb.Vector

open MaluDb.Lib.Heap Prod

/-- `CandEntry`. -/
structure CandEntry (D : Type) where
  idx : Nat
  dist : D
  deriving DecidableEq, Repr

structure AnnGraph (F : Type) where
  metric : Metric
  dim : Nat
  m : Nat
  efConstruct : Int
  entryNode : Int
  chunkIds : List Int
  edges : List (List Int)
  embeddings : List (Vec F)
  deriving DecidableEq, Repr

/-! ## Candidate queues -/

section

variable {D : Type} [LT D] [DecidableLT D]

def candAbove (a b : CandEntry D) : Bool := decide (a.dist < b.dist)

/-- `minheap_push`. -/
def minheapPush (h : List (CandEntry D)) (e : CandEntry D) : List (CandEntry D) :=
  siftUp candAbove (h ++ [e]) h.length

/-- `minheap_pop`: the root, and the heap with the last entry sifted down from the root. -/
def minheapPop : List (CandEntry D) → Option (CandEntry D × List (CandEntry D))
  | [] => none
  | top :: rest =>
    match rest.getLast? with
    | none => some (top, [])
    | some last => some (top, siftDown candAbove (last :: rest.dropLast) 0)

/-- `maxheap_push`. -/
def maxheapPush (cap : Nat) (h : List (CandEntry D)) (e : CandEntry D) : List (CandEntry D) :=
  push (keyAbove CandEntry.dist) cap h e

/-- `d < results[0].dist`. -/
def betterThanWorst (results : List (CandEntry D)) (d : D) : Bool :=
  match results with
  | [] => false
  | worst :: _ => decide (d < worst.dist)

/-- The insertion sort of `nsw_search` puts `a` after `x`. -/
def sortsAfter [BEq D] (a x : CandEntry D) : Bool :=
  decide (x.dist < a.dist) || (a.dist == x.dist && decide (x.idx < a.idx))

/-- One round of the insertion sort: the entries after `x` at the end of the sorted part move up
by one. -/
def shiftInsert [BEq D] (sorted : List (CandEntry D)) (x : CandEntry D) : List (CandEntry D) :=
  (sorted.reverse.dropWhile (sortsAfter · x)).reverse ++
    x :: (sorted.reverse.takeWhile (sortsAfter · x)).reverse

end

/-! ## Search -/

section

variable {F D : Type} [LT D] [DecidableLT D] (ar : Arith F D)

/-- The working storage of `nsw_search`. -/
structure Beam (D : Type) where
  cand : List (CandEntry D)
  results : List (CandEntry D)
  visited : List Nat

variable (g : AnnGraph F) (query : Vec F) (ef : Nat)

/-- `ann_distance` between the query and a node. -/
def nodeDistance (i : Nat) : D := annDistance ar g.metric query (g.embeddings[i]?.getD [])

def visitEdge (b : Beam D) (nb : Int) : Beam D :=
  if nb < 0 ∨ nb.toNat ∈ b.visited then b
  else if b.results.length < ef ∨ betterThanWorst b.results (nodeDistance ar g query nb.toNat) then
    { cand := minheapPush b.cand ⟨nb.toNat, nodeDistance ar g query nb.toNat⟩
      results := maxheapPush ef b.results ⟨nb.toNat, nodeDistance ar g query nb.toNat⟩
      visited := nb.toNat :: b.visited }
  else { b with visited := nb.toNat :: b.visited }

/-- `if (res_n >= ef && c.dist > results[0].dist) break`. -/
def beamStops (b : Beam D) (c : CandEntry D) : Bool :=
  decide (ef ≤ b.results.length) &&
    match b.results with
    | [] => false
    | worst :: _ => decide (worst.dist < c.dist)

/-- The loop of `nsw_search`. -/
def beamLoop : Nat → Beam D → Beam D
  | 0, b => b
  | fuel + 1, b =>
    match minheapPop b.cand with
    | none => b
    | some (c, cand) =>
      if beamStops ef { b with cand } c then { b with cand }
      else beamLoop fuel ((g.edges[c.idx]?.getD []).foldl (visitEdge ar g query ef) { b with cand })

/-- `nsw_search` on the first `n` nodes of the graph; `resCap` is the capacity of the result
heap. -/
def nswSearch [BEq D] (n k : Nat) (efArg : Int) (resCap : Int) : List (CandEntry D) :=
  if n = 0 ∨ k = 0 then []
  else
    let ef := min (max efArg k) resCap
    let ep := if g.entryNode < 0 ∨ (n : Int) ≤ g.entryNode then 0 else g.entryNode.toNat
    let e0 : CandEntry D := ⟨ep, nodeDistance ar g query ep⟩
    let b := beamLoop ar g query ef.toNat (g.edges.length + 1)
      { cand := minheapPush [] e0, results := maxheapPush ef.toNat [] e0, visited := [ep] }
    (b.results.foldl shiftInsert []).take k

end

/-! ## Build -/

section

variable {F D : Type} [LT D] [DecidableLT D] (ar : Arith F D)

/-- The edge slots of a node during the build; `none` is `EDGE_NONE`. -/
abbrev Slots (D : Type) := List (Option (Nat × D))

def worstSlot (slots : Slots D) : Nat :=
  (List.range slots.length).foldl (fun worst e =>
    match slots[e]?, slots[worst]? with
    | some (some a), some (some b) => if b.2 < a.2 then e else worst
    | _, _ => worst) 0

/-- `ann_set_edge` on the slots of its first node. -/
def setSlot (slots : Slots D) (b : Nat) (dist : D) : Slots D :=
  match slots.findIdx? Option.isNone with
  | some empty => slots.set empty (some (b, dist))
  | none =>
    match slots[worstSlot slots]? with
    | some (some w) => if dist < w.2 then slots.set (worstSlot slots) (some (b, dist)) else slots
    | _ => slots

/-- `ann_set_edge`. -/
def annSetEdge (es : List (Slots D)) (a b : Nat) (dist : D) : List (Slots D) :=
  es.modify a fun slots => setSlot slots b dist

def slotEdges (slots : Slots D) : List Int :=
  slots.map fun
    | none => -1
    | some (b, _) => b

/-- The graph of nodes `ids` and `embs` with edges `es`. -/
def graphOf (metric : Metric) (dim m : Nat) (efConstruct : Int) (ids : List Int)
    (embs : List (Vec F)) (es : List (Slots D)) : AnnGraph F :=
  { metric, dim, m, efConstruct, entryNode := 0, chunkIds := ids, edges := es.map slotEdges
    embeddings := embs }

/-- Insert node `i`: link it both ways to the nodes the search finds among `0, …, i - 1`. -/
def insertNode [BEq D] (metric : Metric) (dim m : Nat) (efConstruct : Int) (ids : List Int)
    (embs : List (Vec F)) (es : List (Slots D)) (i : Nat) : List (Slots D) :=
  (nswSearch ar (graphOf metric dim m efConstruct ids embs es) (embs[i]?.getD []) i m efConstruct
    (efConstruct + 1)).foldl
      (fun es c => annSetEdge (annSetEdge es i c.idx c.dist) c.idx i c.dist) es

/-- The insertion loop over nodes `1, …, n - 1`. -/
def buildEdges [BEq D] (metric : Metric) (dim m : Nat) (efConstruct : Int) (ids : List Int)
    (embs : List (Vec F)) : List (Slots D) :=
  (List.range' 1 (ids.length - 1)).foldl (insertNode ar metric dim m efConstruct ids embs)
    (List.replicate ids.length (List.replicate m none))

def badDim (dim : Nat) (rows : List (Int × Vec F)) : Option Int :=
  (rows.find? fun r => decide (r.2.length ≠ dim)).map fst

/-- `maludb_ann_build_c` on the rows its scan returns. -/
def annBuildC [BEq D] (rows : List (Int × Vec F)) (m efConstruct : Int) (metricArg : String) :
    Except VectorError (AnnGraph F) :=
  match parseMetric metricArg with
  | .error e => .error e
  | .ok metric =>
    if m ≤ 0 then .error .buildMNotPositive
    else if efConstruct ≤ 0 then .error .buildEfNotPositive
    else
      match rows with
      | [] => .ok { metric, dim := 0, m := m.toNat, efConstruct, entryNode := -1, chunkIds := []
                    edges := [], embeddings := [] }
      | first :: _ =>
        match badDim first.2.length rows with
        | some cid => .error (.buildDimMismatch cid)
        | none =>
          .ok (graphOf metric first.2.length m.toNat efConstruct (rows.map fst)
            (rows.map snd) (buildEdges ar metric first.2.length m.toNat efConstruct
              (rows.map fst) (rows.map snd)))

/-- A row of `maludb_ann_search_c`. -/
structure AnnHit (D : Type) where
  chunkId : Int
  distance : D
  similarity : D
  rankNo : Nat
  deriving DecidableEq, Repr

/-- The arrays of `maludb_ann_search_c`: candidates, results and output, with 16 bytes an entry. -/
def allocSearch (n : Nat) (k ef : Int) : Except VectorError Unit := do
  palloc (16 * (n + 1))
  palloc (16 * (ef + 1))
  palloc (16 * (k + 1))

/-- `maludb_ann_search_c`. -/
def annSearchC [BEq D] (g : AnnGraph F) (query : Vec F) (k efSearch : Int)
    (metricArg : Option String) : Except VectorError (List (AnnHit D)) :=
  if k ≤ 0 then .error .searchKNotPositive
  else if query.length ≠ g.dim then .error (.searchQueryDim query.length g.dim)
  else if g.chunkIds = [] then .ok []
  else
    match metricArg.elim (.ok g.metric) parseMetric with
    | .error e => .error e
    | .ok metric =>
      (allocSearch g.chunkIds.length k (max efSearch k)).map fun _ =>
        (nswSearch ar { g with metric } query g.chunkIds.length k.toNat (max efSearch k)
          (max efSearch k + 1)).mapIdx fun i c =>
            ⟨g.chunkIds[c.idx]?.getD 0, c.dist, similarityOf ar metric c.dist, i + 1⟩

end

section

variable {F D : Type} [LT D] [DecidableLT D] [BEq D] {ar : Arith F D}
variable {rows : List (Int × Vec F)} {m efConstruct : Int} {metricArg : String} {g : AnnGraph F}

theorem annBuildC_eq_ok (h : annBuildC ar rows m efConstruct metricArg = .ok g) :
    0 < m ∧ 0 < efConstruct ∧ ∃ metric, parseMetric metricArg = .ok metric ∧
      (rows = [] ∧ g = ⟨metric, 0, m.toNat, efConstruct, -1, [], [], []⟩ ∨
        rows ≠ [] ∧ ∃ dim, (∀ r ∈ rows, r.2.length = dim) ∧
          g = graphOf metric dim m.toNat efConstruct (rows.map fst) (rows.map snd)
            (buildEdges ar metric dim m.toNat efConstruct (rows.map fst)
              (rows.map snd))) := by
  unfold annBuildC at h
  split at h
  · cases h
  rename_i metric hmetric
  split at h
  · cases h
  split at h
  · cases h
  refine ⟨by omega, by omega, metric, hmetric, ?_⟩
  split at h
  · cases h
    exact Or.inl ⟨rfl, rfl⟩
  rename_i first rest
  split at h
  · cases h
  rename_i hdim
  cases h
  refine Or.inr ⟨List.cons_ne_nil _ _, first.2.length, ?_, rfl⟩
  intro r hr
  have hnone := List.find?_eq_none.mp (Option.map_eq_none_iff.mp hdim) r hr
  simpa using hnone

theorem annSearchC_eq_ok {query : Vec F} {k efSearch : Int} {metricArg : Option String}
    {hits : List (AnnHit D)} (h : annSearchC ar g query k efSearch metricArg = .ok hits) :
    hits = [] ∨ 0 < k ∧ g.chunkIds ≠ [] ∧
      ∃ metric, metricArg.elim (.ok g.metric) parseMetric = .ok metric ∧
        hits = (nswSearch ar { g with metric } query g.chunkIds.length k.toNat (max efSearch k)
          (max efSearch k + 1)).mapIdx fun i c =>
            ⟨g.chunkIds[c.idx]?.getD 0, c.dist, similarityOf ar metric c.dist, i + 1⟩ := by
  unfold annSearchC at h
  split_ifs at h with hk hdim hne
  · exact .inl (Except.ok.inj h).symm
  split at h
  · cases h
  · rename_i metric hmetric
    obtain ⟨-, -, rfl⟩ := MaluDb.Lib.map_eq_ok.mp h
    exact .inr ⟨by omega, hne, metric, hmetric, rfl⟩

theorem annBuildC_chunkIds (h : annBuildC ar rows m efConstruct metricArg = .ok g) :
    g.chunkIds = rows.map fst := by
  obtain ⟨-, -, metric, -, ⟨rfl, rfl⟩ | ⟨-, dim, -, rfl⟩⟩ := annBuildC_eq_ok h
  · rfl
  · rfl

end

end MaluDb.Vector
