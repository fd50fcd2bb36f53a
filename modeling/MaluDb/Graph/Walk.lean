import MaluDb.Graph.Edges
import Mathlib.Data.Prod.Lex

/-!
# Walks of the relationship graph

`graph_walk` and `graph_path` with the two queries of `graph_neighbors`, over the rows of
`malu$relationship_edge` that row security lets the caller see.

* A row of the walk has its path in two arrays, of ids and of types. A neighbour is left out if the
  first position of its id in the one is the first position of its type in the other
  (`Visit.visited`): an object on the path is found only if no object before it has the same type or
  the same id (`Traces.visited_iff`).
* Where `ORDER BY` leaves rows equal, their order is that of the sort.

Results:

* `graphWalk_ends`: the query has ended after `max_depth + 1` rounds.
* `graphWalk_nodup_iff`: when no object is returned twice.
* `graphPath_shortest`: the path that is returned is a shortest one.
-/

namespace MaluDb.Graph

open MaluDb.Lib List
open MaluDb.Lib.Walk (unionAll round mem_unionAll depth_of_mem_round Steps lengths
  exists_isLeast_lengths exists_isLeast_pred isLeast_lengths_zero unionAll_of_depth_le)
open MaluDb.Prompt (Text Server plainServer)

/-! ## Neighbours -/

/-- A row of `malu$relationship_edge` with the columns that `graph_neighbors` returns. -/
structure LabelledEdge extends RelationshipEdge where
  label : Option Text
  confidence : Option Rat

structure Neighbor where
  target : Vertex
  relationshipType : Text
  label : Option Text
  confidence : Option Rat

inductive WalkError where
  | badDirection (function direction : String)
  | badMode (mode : String)
  | badDepth
  deriving DecidableEq

def WalkError.message : WalkError → String
  | .badDirection function direction => function ++ ": bad direction " ++ direction
  | .badMode mode => "graph_walk: bad mode " ++ mode
  | .badDepth => "graph_walk: max_depth must be in [0, 32]"

def filterAdmits (relationshipFilter : Option (List (Option Text))) (e : LabelledEdge) : Bool :=
  match relationshipFilter with
  | none => true
  | some rels => rels.length = 0 || relIn rels (some e.relationshipType)

/-- The two queries of `graph_neighbors`. -/
def neighborRows (edges : List LabelledEdge) (v : Vertex) (direction : String)
    (relationshipFilter : Option (List (Option Text))) : List Neighbor :=
  (if direction ∈ ["out", "both"] then
    (edges.filter fun e => e.source = v && filterAdmits relationshipFilter e).map fun e =>
      ⟨e.target, e.relationshipType, e.label, e.confidence⟩
  else []) ++
  if direction ∈ ["in", "both"] then
    (edges.filter fun e => e.target = v && filterAdmits relationshipFilter e).map fun e =>
      ⟨e.source, e.relationshipType, e.label, e.confidence⟩
  else []

/-- `v` is a neighbour of `u`: an edge that the filter admits joins them in the direction. -/
def Adjacent (edges : List LabelledEdge) (direction : String)
    (relationshipFilter : Option (List (Option Text))) (u v : Vertex) : Prop :=
  ∃ e ∈ edges, filterAdmits relationshipFilter e = true ∧
    (direction ∈ ["out", "both"] ∧ e.source = u ∧ e.target = v ∨
      direction ∈ ["in", "both"] ∧ e.target = u ∧ e.source = v)

theorem exists_mem_branch {p : Prop} [Decidable p] {edges : List LabelledEdge}
    {test : LabelledEdge → Bool} {f : LabelledEdge → Neighbor} {v : Vertex} :
    (∃ n ∈ if p then (edges.filter test).map f else [], n.target = v) ↔
      ∃ e ∈ edges, p ∧ test e = true ∧ (f e).target = v := by
  by_cases hp : p <;> simp [hp, and_assoc]

theorem exists_neighbor_iff {edges : List LabelledEdge} {u v : Vertex} {direction : String}
    {relationshipFilter : Option (List (Option Text))} :
    (∃ n ∈ neighborRows edges u direction relationshipFilter, n.target = v) ↔
      Adjacent edges direction relationshipFilter u v := by
  unfold neighborRows Adjacent
  simp only [mem_append, or_and_right, exists_or, exists_mem_branch, Bool.and_eq_true,
    decide_eq_true_eq]
  constructor
  · rintro (⟨e, he, hdir, ⟨hu, hadmits⟩, hv⟩ | ⟨e, he, hdir, ⟨hu, hadmits⟩, hv⟩)
    · exact ⟨e, he, hadmits, .inl ⟨hdir, hu, hv⟩⟩
    · exact ⟨e, he, hadmits, .inr ⟨hdir, hu, hv⟩⟩
  · rintro ⟨e, he, hadmits, ⟨hdir, hu, hv⟩ | ⟨hdir, hu, hv⟩⟩
    · exact .inl ⟨e, he, hdir, ⟨hu, hadmits⟩, hv⟩
    · exact .inr ⟨e, he, hdir, ⟨hu, hadmits⟩, hv⟩

/-! ## Walks -/

/-- The arguments of `graph_walk`. -/
structure WalkCall where
  source : Vertex
  maxDepth : ℤ
  direction : String
  relationshipFilter : Option (List (Option Text))
  mode : String

/-- A row of `graph_walk`. -/
structure Visit where
  object : Vertex
  depth : ℕ
  pathIds : List ℤ
  pathKinds : List Text
  deriving DecidableEq

/-- The condition in the cycle prevention. `array_position` is the first position. -/
def Visit.visited (w : Visit) (v : Vertex) : Bool :=
  w.pathIds.contains v.id && w.pathKinds.contains v.kind &&
    w.pathIds.idxOf v.id == w.pathKinds.idxOf v.kind

def Visit.visit (w : Visit) (v : Vertex) : Visit :=
  ⟨v, w.depth + 1, w.pathIds ++ [v.id], w.pathKinds ++ [v.kind]⟩

/-- The first term. -/
def WalkCall.seed (a : WalkCall) : Visit := ⟨a.source, 0, [a.source.id], [a.source.kind]⟩

/-- The recursive term, for one row of the last round. The call of `graph_neighbors` does not raise,
since the direction was checked. -/
def graphStep (edges : List LabelledEdge) (a : WalkCall) (w : Visit) : List Visit :=
  ((neighborRows edges w.object a.direction a.relationshipFilter).filter fun n =>
    (w.depth + 1 : ℤ) ≤ a.maxDepth && !w.visited n.target).map fun n => w.visit n.target

/-- `path_kinds || path_ids::text[]`. -/
def Visit.dfsKey (w : Visit) : List Text := w.pathKinds ++ w.pathIds.map idText

/-- The `ORDER BY` of `graph_walk`. -/
def emitLe (S : Server) (mode : String) (w w' : Visit) : Prop :=
  if mode = "bfs" then
    w.depth < w'.depth ∨ w.depth = w'.depth ∧ w.object.id ≤ w'.object.id
  else if w.dfsKey = w'.dfsKey then w.object.id ≤ w'.object.id
  else arrayLe S w.dfsKey w'.dfsKey = true

instance (S : Server) (mode : String) (w w' : Visit) : Decidable (emitLe S mode w w') := by
  unfold emitLe
  infer_instance

/-- `graph_walk`. -/
def graphWalk (S : Server) (edges : List LabelledEdge) (a : WalkCall) :
    Except WalkError (List Visit) :=
  if a.direction ∉ ["out", "in", "both"] then .error (.badDirection "graph_walk" a.direction)
  else if a.mode ∉ ["bfs", "dfs"] then .error (.badMode a.mode)
  else if a.maxDepth < 0 ∨ 32 < a.maxDepth then .error .badDepth
  else .ok (((unionAll (graphStep edges a) (a.maxDepth.toNat + 1) [a.seed]).filter
    fun w => 0 < w.depth).insertionSort (emitLe S a.mode))

/-- A row of `graph_path`. -/
structure PathRow where
  depth : ℕ
  pathIds : List ℤ
  pathKinds : List Text
  deriving DecidableEq

/-- `ORDER BY w.depth ASC, w.path_ids`. -/
def pathLe (r r' : PathRow) : Prop := toLex (r.depth, r.pathIds) ≤ toLex (r'.depth, r'.pathIds)

instance (r r' : PathRow) : Decidable (pathLe r r') := inferInstanceAs (Decidable (_ ≤ _))

/-- `graph_path`: a walk with any type of edge, in the default mode. -/
def graphPath (S : Server) (edges : List LabelledEdge) (source target : Vertex) (maxDepth : ℤ)
    (direction : String) : Except WalkError (List PathRow) :=
  (graphWalk S edges ⟨source, maxDepth, direction, none, "bfs"⟩).map fun rows =>
    ((rows.filter (·.object = target)).map fun w =>
      ⟨w.depth, w.pathIds, w.pathKinds⟩).insertionSort pathLe

section

variable {S : Server} {edges : List LabelledEdge} {a : WalkCall} {w w' : Visit}

abbrev WalkCall.Edge (edges : List LabelledEdge) (a : WalkCall) : Vertex → Vertex → Prop :=
  Adjacent edges a.direction a.relationshipFilter

theorem mem_graphStep : w' ∈ graphStep edges a w ↔
    ∃ v, a.Edge edges w.object v ∧ (w.depth + 1 : ℤ) ≤ a.maxDepth ∧ w.visited v = false ∧
      w' = w.visit v := by
  unfold graphStep
  rw [mem_map]
  constructor
  · rintro ⟨n, hn, rfl⟩
    obtain ⟨hn, htest⟩ := mem_filter.mp hn
    simp only [Bool.and_eq_true, decide_eq_true_eq, Bool.not_eq_true'] at htest
    exact ⟨n.target, exists_neighbor_iff.mp ⟨n, hn, rfl⟩, htest.1, htest.2, rfl⟩
  rintro ⟨v, hv, hdepth, hvisited, rfl⟩
  obtain ⟨n, hn, rfl⟩ := exists_neighbor_iff.mpr hv
  refine ⟨n, mem_filter.mpr ⟨hn, ?_⟩, rfl⟩
  simp [hdepth, hvisited]

theorem graphStep_depth (w : Visit) : ∀ w' ∈ graphStep edges a w, w'.depth = w.depth + 1 := by
  intro w' hw'
  obtain ⟨v, -, -, -, rfl⟩ := mem_graphStep.mp hw'
  rfl

/-- **The recursive query ends**: later rounds have no rows. -/
theorem graphWalk_ends (edges : List LabelledEdge) (a : WalkCall) {rounds : ℕ}
    (h : a.maxDepth.toNat + 1 ≤ rounds) :
    unionAll (graphStep edges a) rounds [a.seed]
      = unionAll (graphStep edges a) (a.maxDepth.toNat + 1) [a.seed] := by
  refine unionAll_of_depth_le graphStep_depth (fun w hw => ?_) h
  refine eq_nil_iff_forall_not_mem.mpr fun w' hw' => ?_
  obtain ⟨v, -, hdepth, -⟩ := mem_graphStep.mp hw'
  omega

theorem graphWalk_eq_ok {rows : List Visit} (h : graphWalk S edges a = .ok rows) :
    (0 ≤ a.maxDepth ∧ a.maxDepth ≤ 32) ∧ ∀ w, w ∈ rows ↔ ∃ n : ℕ, 0 < n ∧ (n : ℤ) ≤ a.maxDepth ∧
        w ∈ round (graphStep edges a) [a.seed] n := by
  unfold graphWalk at h
  split at h
  · cases h
  split at h
  · cases h
  split at h
  · cases h
  rw [← Except.ok.inj h]
  refine ⟨by omega, fun w => ?_⟩
  rw [mem_insertionSort, mem_filter, mem_unionAll]
  constructor
  · rintro ⟨⟨n, hn, hw⟩, hpos⟩
    have hdepth : w.depth = 0 + n := depth_of_mem_round graphStep_depth hw
    exact ⟨n, by simpa [hdepth] using hpos, by omega, hw⟩
  · rintro ⟨n, hpos, hn, hw⟩
    have hdepth : w.depth = 0 + n := depth_of_mem_round graphStep_depth hw
    exact ⟨⟨n, by omega, hw⟩, by simpa [hdepth] using hpos⟩

/-! ## Paths of rows -/

/-- The row is that of a path from the source along the edges. -/
structure Traces (edges : List LabelledEdge) (a : WalkCall) (w : Visit) (path : List Vertex) :
    Prop where
  ids : w.pathIds = path.map Vertex.id
  kinds : w.pathKinds = path.map Vertex.kind
  length : path.length = w.depth + 1
  head : path.head? = some a.source
  last : path.getLast? = some w.object
  chain : path.IsChain (a.Edge edges)

theorem traces_seed (edges : List LabelledEdge) (a : WalkCall) :
    Traces edges a a.seed [a.source] :=
  ⟨rfl, rfl, rfl, rfl, rfl, isChain_singleton _⟩

variable {path : List Vertex}

theorem Traces.visit {v : Vertex} (h : Traces edges a w path) (hv : a.Edge edges w.object v) :
    Traces edges a (w.visit v) (path ++ [v]) where
  ids := by simp [Visit.visit, h.ids]
  kinds := by simp [Visit.visit, h.kinds]
  length := by simp [Visit.visit, h.length]
  head := by rw [head?_append, h.head, Option.some_or]
  last := by simp [Visit.visit]
  chain := by
    refine h.chain.append (isChain_singleton v) fun x hx y hy => ?_
    rw [h.last] at hx
    cases hx
    cases hy
    exact hv

theorem idxOf_eq_iff (v : Vertex) : ∀ path : List Vertex,
    v.id ∈ path.map Vertex.id ∧ v.kind ∈ path.map Vertex.kind ∧
      (path.map Vertex.id).idxOf v.id = (path.map Vertex.kind).idxOf v.kind ↔
    ∃ pre post, path = pre ++ v :: post ∧ ∀ x ∈ pre, x.kind ≠ v.kind ∧ x.id ≠ v.id
  | [] => by simp
  | x :: path => by
    have hcons : (∃ pre post, x :: path = pre ++ v :: post ∧
        ∀ y ∈ pre, y.kind ≠ v.kind ∧ y.id ≠ v.id) ↔
        x = v ∨ (x.kind ≠ v.kind ∧ x.id ≠ v.id) ∧
          ∃ pre post, path = pre ++ v :: post ∧ ∀ y ∈ pre, y.kind ≠ v.kind ∧ y.id ≠ v.id := by
      constructor
      · rintro ⟨_ | ⟨y, pre⟩, post, heq, hpre⟩
        · exact .inl (List.cons.inj heq).1
        · obtain ⟨rfl, htail⟩ := List.cons.inj (cons_append ▸ heq)
          exact .inr ⟨hpre x mem_cons_self, pre, post, htail,
            fun y hy => hpre y (mem_cons_of_mem _ hy)⟩
      · rintro (rfl | ⟨hx, pre, post, rfl, hpre⟩)
        · exact ⟨[], path, rfl, by simp⟩
        · exact ⟨x :: pre, post, rfl, by simpa [hx] using hpre⟩
    rw [hcons, ← idxOf_eq_iff v path]
    -- the first object decides unless it has neither the id nor the type
    by_cases hid : x.id = v.id <;> by_cases hkind : x.kind = v.kind
    · have hxv : x = v := by
        cases x
        cases v
        simp_all
      simp [hxv]
    · have hxv : x ≠ v := fun h => hkind (h ▸ rfl)
      simp [hid, hkind, hxv]
    · have hxv : x ≠ v := fun h => hid (h ▸ rfl)
      simp [hid, hkind, hxv]
    · have hxv : x ≠ v := fun h => hid (h ▸ rfl)
      simp [hid, hkind, hxv, Ne.symm hid, Ne.symm hkind]

section

variable (h : Traces edges a w path)
include h

/-- **What the cycle prevention finds.** -/
theorem Traces.visited_iff (v : Vertex) :
    w.visited v = true ↔
      ∃ pre post, path = pre ++ v :: post ∧ ∀ x ∈ pre, x.kind ≠ v.kind ∧ x.id ≠ v.id := by
  rw [← idxOf_eq_iff]
  simp [Visit.visited, h.ids, h.kinds, and_assoc]

theorem Traces.mem_of_visited {v : Vertex} (hv : w.visited v = true) : v ∈ path := by
  obtain ⟨pre, post, rfl, -⟩ := (h.visited_iff v).mp hv
  simp

theorem Traces.zip_eq : w.pathKinds.zip w.pathIds = path.map fun v => (v.kind, v.id) := by
  rw [h.ids, h.kinds, zip_map']

theorem Traces.nodup_iff : (w.pathKinds.zip w.pathIds).Nodup ↔ path.Nodup := by
  rw [h.zip_eq]
  refine nodup_map_iff fun u v huv => ?_
  cases u
  cases v
  simp_all

end

theorem exists_row_of_nodup (path : List Vertex) : path.head? = some a.source →
    path.IsChain (a.Edge edges) → path.Nodup → (path.length : ℤ) ≤ a.maxDepth + 1 →
    ∃ w ∈ round (graphStep edges a) [a.seed] (path.length - 1), Traces edges a w path := by
  induction path using reverseRecOn with
  | nil => simp
  | append_singleton path v ih =>
    intro hhead hchain hnodup hlength
    rcases eq_nil_or_concat path with rfl | ⟨init, u, hpath⟩
    · cases hhead
      exact ⟨a.seed, mem_singleton_self _, traces_seed edges a⟩
    have hlast : path.getLast? = some u := by simp [hpath]
    have hpos : 0 < path.length := by simp [hpath]
    obtain ⟨hchain, -, hedge⟩ := isChain_append.mp hchain
    obtain ⟨hnodup, -, hnot⟩ := nodup_append.mp hnodup
    rw [head?_append_of_ne_nil _ (ne_nil_of_length_pos hpos)] at hhead
    rw [length_append, length_singleton] at hlength
    obtain ⟨w, hw, htraces⟩ := ih hhead hchain hnodup (by push_cast at hlength ⊢; omega)
    have hobject : u = w.object := Option.some.inj (hlast.symm.trans htraces.last)
    have hv : a.Edge edges w.object v := hobject ▸ hedge u hlast v rfl
    have hvisited : w.visited v = false := by
      refine Bool.eq_false_iff.mpr fun h => ?_
      exact hnot v (htraces.mem_of_visited h) v (mem_singleton_self v) rfl
    refine ⟨w.visit v, ?_, htraces.visit hv⟩
    have hround : (path ++ [v]).length - 1 = path.length - 1 + 1 := by
      rw [length_append, length_singleton]
      omega
    rw [hround]
    refine mem_flatMap.mpr ⟨w, hw, mem_graphStep.mpr ⟨v, hv, ?_, hvisited, rfl⟩⟩
    have := htraces.length
    omega

/-! ## Objects that come back -/

/-- A simple path from the source, and an edge from its end to an object `v` on it, with at most
`max_depth` edges. `pre` are the objects before `v`, `cycle` those after it. -/
structure ComesBack (edges : List LabelledEdge) (a : WalkCall) (pre : List Vertex) (v : Vertex)
    (cycle : List Vertex) : Prop where
  head : (pre ++ v :: cycle).head? = some a.source
  chain : (pre ++ v :: cycle).IsChain (a.Edge edges)
  nodup : (pre ++ v :: cycle).Nodup
  back : ∀ u, (pre ++ v :: cycle).getLast? = some u → a.Edge edges u v
  bound : (pre.length + cycle.length + 1 : ℤ) ≤ a.maxDepth

theorem exists_nodup_of_detected
    (hdetected : ∀ pre v cycle, ComesBack edges a pre v cycle →
      ∀ x ∈ pre, x.kind ≠ v.kind ∧ x.id ≠ v.id) :
    ∀ {n : ℕ} {w : Visit}, w ∈ round (graphStep edges a) [a.seed] n →
      ∃ path, Traces edges a w path ∧ path.Nodup
  | 0, w, h => by
    rw [mem_singleton.mp h]
    exact ⟨_, traces_seed edges a, nodup_singleton _⟩
  | n + 1, w, h => by
    obtain ⟨w₀, hw₀, hw⟩ := mem_flatMap.mp h
    obtain ⟨path, hpath, hnodup⟩ := exists_nodup_of_detected hdetected hw₀
    obtain ⟨v, hv, hdepth, hvisited, rfl⟩ := mem_graphStep.mp hw
    refine ⟨_, hpath.visit hv, ?_⟩
    have hnot : v ∉ path := by
      intro hmem
      obtain ⟨pre, post, rfl⟩ := append_of_mem hmem
      have hback : ComesBack edges a pre v post := by
        refine ⟨hpath.head, hpath.chain, hnodup, fun u hu => ?_, ?_⟩
        · rw [hpath.last] at hu
          cases hu
          exact hv
        · have := hpath.length
          rw [length_append, length_cons] at this
          omega
      have hfound := (hpath.visited_iff v).mpr ⟨pre, post, rfl, hdetected pre v post hback⟩
      rw [hvisited] at hfound
      cases hfound
    exact hnodup.append (nodup_singleton v) (by simpa using hnot)

/-- **The paths of a walk have no object twice exactly if the cycle prevention can find every
object that comes back**: on no walk within the bound does an object come back that has one of its
type or of its id before it. -/
theorem graphWalk_nodup_iff {rows : List Visit} (h : graphWalk S edges a = .ok rows) :
    (∀ w ∈ rows, (w.pathKinds.zip w.pathIds).Nodup) ↔ ∀ pre v cycle, ComesBack edges a pre v cycle →
        ∀ x ∈ pre, x.kind ≠ v.kind ∧ x.id ≠ v.id := by
  obtain ⟨-, hrows⟩ := graphWalk_eq_ok h
  constructor
  · intro hnodup pre v cycle hback
    have hlength := hback.bound
    -- the path has a row, and if `v` were not found at its end the walk would go on to it
    obtain ⟨w, hw, htraces⟩ := exists_row_of_nodup _ hback.head hback.chain hback.nodup
      (by rw [length_append, length_cons]; push_cast; omega)
    by_contra hnot
    have hvisited : w.visited v = false := by
      refine Bool.eq_false_iff.mpr fun hfound => hnot ?_
      obtain ⟨pre', post', heq, hpre'⟩ := (htraces.visited_iff v).mp hfound
      have honce := (nodup_cons.mp (nodup_middle.mp hback.nodup)).1
      have hsame := (append_cons_inj_of_notMem (fun hv => honce (mem_append_left _ hv))
        fun hv => honce (mem_append_right _ hv)).mp heq
      exact hsame.1 ▸ hpre'
    have hv := hback.back w.object htraces.last
    have hnext : w.visit v ∈ rows := by
      refine (hrows _).mpr ⟨(pre ++ v :: cycle).length - 1 + 1, Nat.succ_pos _, ?_, ?_⟩
      · rw [length_append, length_cons]
        omega
      refine mem_flatMap.mpr ⟨w, hw, mem_graphStep.mpr ⟨v, hv, ?_, hvisited, rfl⟩⟩
      have := htraces.length
      rw [length_append, length_cons] at this
      omega
    have htwice := nodup_append.mp (((htraces.visit hv).nodup_iff).mp (hnodup _ hnext))
    exact htwice.2.2 v (by simp) v (mem_singleton_self v) rfl
  · intro hdetected w hw
    obtain ⟨n, -, -, hw⟩ := (hrows w).mp hw
    obtain ⟨path, hpath, hnodup⟩ := exists_nodup_of_detected hdetected hw
    exact hpath.nodup_iff.mpr hnodup

end

/-- An edge from one object to another, of the type `supports`. -/
def supports (source target : Vertex) : LabelledEdge :=
  ⟨⟨"tenant", "supports".toList, source, target⟩, none, none⟩

def memory (id : ℤ) : Vertex := ⟨"memory".toList, id⟩

def fact (id : ℤ) : Vertex := ⟨"fact".toList, id⟩

def fromMemory : WalkCall := ⟨memory 1, 4, "out", none, "bfs"⟩

/-- A memory and a fact that support each other: the walk stops at the fact. -/
theorem graphWalk_nodup_pair :
    let edges := [supports (memory 1) (fact 2), supports (fact 2) (memory 1)]
    let row : Visit := ⟨fact 2, 1, [1, 2], ["memory".toList, "fact".toList]⟩
    graphWalk plainServer edges fromMemory = .ok [row] ∧
      ∀ pre v cycle, ComesBack edges fromMemory pre v cycle →
        ∀ x ∈ pre, x.kind ≠ v.kind ∧ x.id ≠ v.id := by
  intro edges row
  have hrows : graphWalk plainServer edges fromMemory = .ok [row] := by decide +kernel
  refine ⟨hrows, (graphWalk_nodup_iff hrows).mp ?_⟩
  decide

/-- Three memories, the second and the third of which support each other. The type of the second
stands first at the start, so its return is not found. -/
theorem graphWalk_revisits :
    ∃ rows, graphWalk plainServer [supports (memory 1) (memory 2), supports (memory 2) (memory 3),
        supports (memory 3) (memory 2)] fromMemory = .ok rows ∧
      ∃ w ∈ rows, w.pathIds = [1, 2, 3, 2] ∧ w.pathKinds = replicate 4 "memory".toList ∧
        ¬ (w.pathKinds.zip w.pathIds).Nodup := by
  refine ⟨_, rfl, ⟨memory 2, 3, [1, 2, 3, 2], replicate 4 "memory".toList⟩, ?_, rfl, rfl, ?_⟩
  · decide +kernel
  · decide

/-! ## Shortest paths -/

section

variable {S : Server} {edges : List LabelledEdge} {a : WalkCall}

theorem steps_of_mem_round : ∀ {n : ℕ} {w : Visit}, w ∈ round (graphStep edges a) [a.seed] n →
    Steps (a.Edge edges) a.source n w.object
  | 0, w, h => by
    rw [mem_singleton.mp h]
    exact Steps.refl
  | n + 1, w, h => by
    obtain ⟨w₀, hw₀, hw⟩ := mem_flatMap.mp h
    obtain ⟨v, hv, -, -, rfl⟩ := mem_graphStep.mp hw
    exact (steps_of_mem_round hw₀).tail hv

theorem exists_row_of_isLeast : ∀ {n : ℕ} {v : Vertex},
    IsLeast (lengths (a.Edge edges) a.source v) n → (n : ℤ) ≤ a.maxDepth →
    ∃ w ∈ round (graphStep edges a) [a.seed] n, w.object = v ∧ ∃ path, Traces edges a w path ∧
      ∀ x ∈ path, ∃ m ≤ n, IsLeast (lengths (a.Edge edges) a.source x) m
  | 0, v, h, _ => by
    cases isLeast_lengths_zero.mp h
    refine ⟨a.seed, mem_singleton_self _, rfl, _, traces_seed edges a, fun x hx => ?_⟩
    rw [mem_singleton.mp hx]
    exact ⟨0, le_rfl, h⟩
  | n + 1, v, h, hn => by
    obtain ⟨u, hu, huv⟩ := exists_isLeast_pred h
    obtain ⟨w, hw, rfl, path, htraces, hnear⟩ := exists_row_of_isLeast hu (by omega)
    have hvisited : w.visited v = false := by
      refine Bool.eq_false_iff.mpr fun hfound => ?_
      obtain ⟨m, hm, hleast⟩ := hnear v (htraces.mem_of_visited hfound)
      have := hleast.unique h
      omega
    have hdepth : w.depth = 0 + n := depth_of_mem_round graphStep_depth hw
    refine ⟨w.visit v, mem_flatMap.mpr ⟨w, hw, mem_graphStep.mpr
      ⟨v, huv, by push_cast at hn; omega, hvisited, rfl⟩⟩, rfl, _, htraces.visit huv, ?_⟩
    intro x hx
    rcases mem_append.mp hx with hx | hx
    · obtain ⟨m, hm, hleast⟩ := hnear x hx
      exact ⟨m, by omega, hleast⟩
    · rw [mem_singleton.mp hx]
      exact ⟨n + 1, le_rfl, h⟩

instance : Std.Total pathLe where
  total _ _ := le_total _ _

instance : IsTrans PathRow pathLe where
  trans _ _ _ := le_trans

theorem pathLe_head {rows : List PathRow} {r r' : PathRow} (hsorted : rows.Pairwise pathLe)
    (hr : rows.head? = some r) (hr' : r' ∈ rows) : r.depth ≤ r'.depth := by
  cases rows with
  | nil => cases hr
  | cons r₀ rows =>
    cases hr
    rcases mem_cons.mp hr' with rfl | hr'
    · exact le_rfl
    have hle : pathLe r r' := rel_of_pairwise_cons hsorted hr'
    rcases Prod.Lex.le_iff.mp hle with h | h
    · exact h.le
    · exact h.1.le

theorem exists_graphPath (S : Server) (edges : List LabelledEdge) (source target : Vertex)
    {maxDepth : ℤ} {direction : String} (hdirection : direction ∈ ["out", "in", "both"])
    (hlow : 0 ≤ maxDepth) (hhigh : maxDepth ≤ 32) :
    ∃ rows, graphPath S edges source target maxDepth direction = .ok rows ∧ rows.Pairwise pathLe ∧
      ∀ d : ℕ, (∃ r ∈ rows, r.depth = d) ↔ 0 < d ∧ (d : ℤ) ≤ maxDepth ∧
        ∃ w ∈ round (graphStep edges ⟨source, maxDepth, direction, none, "bfs"⟩)
          [WalkCall.seed ⟨source, maxDepth, direction, none, "bfs"⟩] d, w.object = target := by
  set a : WalkCall := ⟨source, maxDepth, direction, none, "bfs"⟩ with ha
  obtain ⟨visits, hvisits⟩ : ∃ visits, graphWalk S edges a = .ok visits := by
    unfold graphWalk
    rw [if_neg (not_not.mpr hdirection), if_neg (by simp [ha]), if_neg (by simp only [ha]; omega)]
    exact ⟨_, rfl⟩
  obtain ⟨-, hmem⟩ := graphWalk_eq_ok hvisits
  refine ⟨_, by unfold graphPath; rw [← ha, hvisits]; rfl, pairwise_insertionSort _ _, ?_⟩
  intro d
  constructor
  · rintro ⟨r, hr, rfl⟩
    rw [mem_insertionSort] at hr
    obtain ⟨w, hw, rfl⟩ := mem_map.mp hr
    obtain ⟨hw, htarget⟩ := mem_filter.mp hw
    obtain ⟨n, hpos, hn, hw⟩ := (hmem w).mp hw
    have hdepth : w.depth = 0 + n := depth_of_mem_round graphStep_depth hw
    rw [Nat.zero_add] at hdepth
    exact ⟨hdepth ▸ hpos, hdepth ▸ hn, w, hdepth ▸ hw, of_decide_eq_true htarget⟩
  · rintro ⟨hpos, hd, w, hw, htarget⟩
    have hdepth : w.depth = 0 + d := depth_of_mem_round graphStep_depth hw
    refine ⟨⟨w.depth, w.pathIds, w.pathKinds⟩, ?_, by simpa using hdepth⟩
    rw [mem_insertionSort]
    refine mem_map.mpr ⟨w, mem_filter.mpr ⟨(hmem w).mpr ⟨d, hpos, hd, hw⟩, ?_⟩, rfl⟩
    simpa using htarget

/-- **For a depth from 0 to 32, `graph_path` has a row exactly if the target is reachable by so
many edges, and then the first row has the distance.** Any other depth is refused. -/
theorem graphPath_shortest (S : Server) (edges : List LabelledEdge) (source target : Vertex)
    (maxDepth : ℤ) (direction : String) (hdirection : direction ∈ ["out", "in", "both"])
    (hne : source ≠ target) :
    (0 ≤ maxDepth ∧ maxDepth ≤ 32 →
      ∃ rows, graphPath S edges source target maxDepth direction = .ok rows ∧
        (rows ≠ [] ↔ ∃ n : ℕ, (n : ℤ) ≤ maxDepth ∧
          Steps (Adjacent edges direction none) source n target) ∧
        ∀ r, rows.head? = some r →
          IsLeast (lengths (Adjacent edges direction none) source target) r.depth) ∧
    (¬ (0 ≤ maxDepth ∧ maxDepth ≤ 32) →
      graphPath S edges source target maxDepth direction = .error .badDepth) := by
  constructor
  · rintro ⟨hlow, hhigh⟩
    obtain ⟨rows, hrows, hsorted, hmem⟩ :=
      exists_graphPath S edges source target hdirection hlow hhigh
    -- the target has a row at its distance
    have hrow {d : ℕ} (hd : IsLeast (lengths (Adjacent edges direction none) source target) d)
        (hbound : (d : ℤ) ≤ maxDepth) : ∃ r ∈ rows, r.depth = d := by
      refine (hmem d).mpr ⟨Nat.pos_of_ne_zero fun h0 => ?_, hbound, ?_⟩
      · exact hne (isLeast_lengths_zero.mp (h0 ▸ hd)).symm
      · obtain ⟨w, hw, htarget, -⟩ := exists_row_of_isLeast
          (a := ⟨source, maxDepth, direction, none, "bfs"⟩) hd hbound
        exact ⟨w, hw, htarget⟩
    have hsteps {r : PathRow} (hr : r ∈ rows) : (r.depth : ℤ) ≤ maxDepth ∧
        Steps (Adjacent edges direction none) source r.depth target := by
      obtain ⟨-, hbound, w, hw, rfl⟩ := (hmem r.depth).mp ⟨r, hr, rfl⟩
      exact ⟨hbound, steps_of_mem_round hw⟩
    refine ⟨rows, hrows, ⟨fun hne => ?_, ?_⟩, fun r hr => ⟨?_, fun m hm => ?_⟩⟩
    · obtain ⟨r, hr⟩ := exists_mem_of_ne_nil rows hne
      exact ⟨r.depth, hsteps hr⟩
    · rintro ⟨n, hn, hreach⟩
      obtain ⟨d, hdn, hleast⟩ := exists_isLeast_lengths hreach
      obtain ⟨r, hr, -⟩ := hrow hleast (by omega)
      exact ne_nil_of_mem hr
    · exact (hsteps (mem_of_mem_head? hr)).2
    · obtain ⟨d, hdm, hleast⟩ := exists_isLeast_lengths hm
      obtain ⟨hbound, hreach⟩ := hsteps (mem_of_mem_head? hr)
      have hd : d ≤ r.depth := hleast.2 hreach
      obtain ⟨r', hr', rfl⟩ := hrow hleast (by omega)
      exact (pathLe_head hsorted hr hr').trans hdm
  · intro hbounds
    unfold graphPath graphWalk
    rw [if_neg (not_not.mpr hdirection), if_neg (by simp), if_pos (by dsimp only; omega)]
    rfl

end

/-- The distance from memory 1 to memory 3 is 2. -/
theorem graphPath_shortest_two :
    ∃ rows, graphPath plainServer [supports (memory 1) (memory 2), supports (memory 2) (memory 3)]
        (memory 1) (memory 3) 6 "out" = .ok rows ∧ rows ≠ [] ∧
      ∀ r, rows.head? = some r → IsLeast (lengths (Adjacent [supports (memory 1) (memory 2),
        supports (memory 2) (memory 3)] "out" none) (memory 1) (memory 3)) r.depth := by
  obtain ⟨rows, hrows, hreach, hleast⟩ := (graphPath_shortest plainServer
    [supports (memory 1) (memory 2), supports (memory 2) (memory 3)] (memory 1) (memory 3) 6 "out"
    (by decide) (by decide)).1 (by decide)
  refine ⟨rows, hrows, hreach.mpr ⟨2, by decide, ?_⟩, hleast⟩
  refine (Steps.refl.tail (u := memory 1) (v := memory 2) ?_).tail ?_
  · exact ⟨supports (memory 1) (memory 2), by simp, rfl, .inl ⟨by decide, rfl, rfl⟩⟩
  · exact ⟨supports (memory 2) (memory 3), by simp, rfl, .inl ⟨by decide, rfl, rfl⟩⟩

/-- With a depth of 33 a neighbour is not found: the call raises. -/
theorem graphPath_refuses_depth :
    graphPath plainServer [supports (memory 1) (memory 2)] (memory 1) (memory 2) 33 "out"
        = .error .badDepth ∧
      Steps (Adjacent [supports (memory 1) (memory 2)] "out" none) (memory 1) 1 (memory 2) := by
  refine ⟨by decide +kernel, Steps.refl.tail ?_⟩
  exact ⟨supports (memory 1) (memory 2), by simp, rfl, .inl ⟨by decide, rfl, rfl⟩⟩

end MaluDb.Graph
