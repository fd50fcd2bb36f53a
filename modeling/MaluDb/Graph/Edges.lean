import MaluDb.Lib.Fields
import MaluDb.Lib.Join
import MaluDb.Lib.Walk
import MaluDb.Prompt.Render

/-!
# The unified graph

The view `malu$edge_unified`, and `uedge_walk` and `uedge_path`.

* A vertex is on a path, an array of texts `kind:id`, if its text is.
* The relation of a statement is the name of its verb in the same schema, and NULL without one.
* `uedgeWalk` is a recursive query of at most `max_depth` rounds that give rows (`walk_ends`).
-/

namespace MaluDb.Graph

open MaluDb.Lib
open MaluDb.Prompt (Text Server)

/-! ## Vertices -/

structure Vertex where
  kind : Text
  id : ℤ
  deriving DecidableEq

/-- `id::text`. -/
def idText : ℤ → Text
  | .ofNat n => (toString n).toList
  | .negSucc n => '-' :: (toString (n + 1)).toList

theorem idText_injective : Function.Injective idText := by
  have hminus : ∀ (m n : ℕ), (toString m).toList ≠ '-' :: (toString n).toList := by
    intro m n h
    have hmem : '-' ∈ (toString m).toList := by
      rw [h]
      exact List.mem_cons_self
    exact absurd (isDigit_of_mem_toString hmem) (by decide)
  intro i j h
  cases i with
  | ofNat m =>
    cases j with
    | ofNat n => rw [toString_toList_injective h]
    | negSucc n => exact absurd h (hminus m (n + 1))
  | negSucc m =>
    cases j with
    | ofNat n => exact absurd h.symm (hminus n (m + 1))
    | negSucc n => rw [Nat.succ.inj (toString_toList_injective (List.cons.inj h).2)]

/-- `kind || ':' || id::text`. -/
def Vertex.text (v : Vertex) : Text := v.kind ++ ':' :: idText v.id

/-! ## Stores -/

inductive EdgeStore where
  | svporStatement
  | relationshipEdge
  | subjectRelationship
  | semanticEdge
  deriving DecidableEq

/-- A row of `malu$svpor_verb`. -/
structure Verb where
  verbId : ℕ
  ownerSchema : String
  canonicalName : Text

structure Statement where
  ownerSchema : String
  subject : Vertex
  verbId : ℕ
  object : Vertex

structure RelationshipEdge where
  ownerSchema : String
  relationshipType : Text
  source : Vertex
  target : Vertex

structure SubjectRelationship where
  ownerSchema : String
  fromSubjectId : ℤ
  toSubjectId : ℤ
  relationshipType : Text

structure SemanticEdge where
  ownerSchema : String
  objectKind : Text
  sourceId : ℤ
  targetId : ℤ

structure EdgeDb where
  verbs : List Verb
  statements : List Statement
  relationshipEdges : List RelationshipEdge
  subjectRelationships : List SubjectRelationship
  semanticEdges : List SemanticEdge

structure Edge where
  edgeStore : EdgeStore
  ownerSchema : String
  source : Vertex
  rel : Option Text
  target : Vertex

/-- `malu$edge_unified`. -/
def edgeUnified (db : EdgeDb) : List Edge :=
  ((leftJoin db.statements db.verbs fun s v =>
      v.ownerSchema = s.ownerSchema && v.verbId = s.verbId).map fun (s, v) =>
    ⟨.svporStatement, s.ownerSchema, s.subject, v.map Verb.canonicalName, s.object⟩) ++
  (db.relationshipEdges.map fun e =>
    ⟨.relationshipEdge, e.ownerSchema, e.source, some e.relationshipType, e.target⟩) ++
  (db.subjectRelationships.map fun r =>
    ⟨.subjectRelationship, r.ownerSchema, ⟨"subject".toList, r.fromSubjectId⟩,
      some r.relationshipType, ⟨"subject".toList, r.toSubjectId⟩⟩) ++
  db.semanticEdges.map fun se =>
    ⟨.semanticEdge, se.ownerSchema, ⟨se.objectKind, se.sourceId⟩,
      some (if se.objectKind = "subject".toList then "similar_to".toList
        else "similar_statement".toList),
      ⟨se.objectKind, se.targetId⟩⟩

/-! ## Walks -/

inductive GraphError where
  | badDirection (function direction : String)
  | badDepth

def GraphError.message : GraphError → String
  | .badDirection function direction => function ++ ": bad direction " ++ direction
  | .badDepth => "uedge_path: max_depth must be in [1, 32]"

/-- The arguments of `uedge_walk`, with the schema of the caller. -/
structure WalkArgs where
  schema : String
  source : Vertex
  maxDepth : ℤ
  direction : String
  relFilter : Option (List (Option Text))

/-- `e.rel = ANY(p_rel_filter)` holds. Neither a relation nor an element that is NULL is equal to
anything. -/
def relIn (rels : List (Option Text)) (rel : Option Text) : Bool :=
  rel.any fun r => rels.contains (some r)

def admits (relFilter : Option (List (Option Text))) (e : Edge) : Bool :=
  (match relFilter with
    | none => true
    | some rels => rels.length = 0 || relIn rels e.rel) &&
  (e.edgeStore ≠ .semanticEdge ||
    match relFilter with
    | none => false
    | some rels => 0 < rels.length && relIn rels e.rel)

def joins (a : WalkArgs) (v : Vertex) (e : Edge) : Bool :=
  e.ownerSchema = a.schema &&
    (a.direction ∈ ["out", "both"] && e.source = v ||
      a.direction ∈ ["in", "both"] && e.target = v) &&
    admits a.relFilter e

/-- The `CASE`: the other end of an edge. -/
def other (v : Vertex) (e : Edge) : Vertex := if e.source = v then e.target else e.source

structure WalkRow where
  vertex : Vertex
  depth : ℕ
  rel : Option Text
  edgeStore : Option EdgeStore
  path : List Text

def walkStep (edges : List Edge) (a : WalkArgs) (w : WalkRow) : List WalkRow :=
  (edges.filter fun e =>
    joins a w.vertex e && w.depth < a.maxDepth &&
      !w.path.contains (other w.vertex e).text).map fun e =>
      ⟨other w.vertex e, w.depth + 1, e.rel, some e.edgeStore, w.path ++ [(other w.vertex e).text]⟩

/-- `uedge_walk`. -/
def uedgeWalk (db : EdgeDb) (a : WalkArgs) : Except GraphError (List WalkRow) :=
  if a.direction ∉ ["out", "in", "both"] then .error (.badDirection "uedge_walk" a.direction)
  else .ok ((Walk.unionAll (walkStep (edgeUnified db) a) (a.maxDepth.toNat + 1)
    [⟨a.source, 0, none, none, [a.source.text]⟩]).filter fun w => 0 < w.depth)

theorem walkStep_depth {edges : List Edge} {a : WalkArgs} (w : WalkRow) :
    ∀ w' ∈ walkStep edges a w, w'.depth = w.depth + 1 := by
  intro w' hw'
  obtain ⟨e, -, rfl⟩ := List.mem_map.mp hw'
  rfl

/-- **The recursive query ends**: later rounds have no rows. -/
theorem walk_ends (edges : List Edge) (a : WalkArgs) (start : WalkRow) {rounds : ℕ}
    (h : a.maxDepth.toNat + 1 ≤ rounds) :
    Walk.unionAll (walkStep edges a) rounds [start]
      = Walk.unionAll (walkStep edges a) (a.maxDepth.toNat + 1) [start] := by
  refine Walk.unionAll_of_depth_le walkStep_depth (fun w hw => ?_) h
  have hdepth : ¬ ((w.depth : ℕ) : ℤ) < a.maxDepth := by omega
  unfold walkStep
  simp [hdepth]

/-! ## Paths -/

def arrayLe (S : Server) : List Text → List Text → Bool
  | [], _ => true
  | _ :: _, [] => false
  | a :: as, b :: bs => if a = b then arrayLe S as bs else S.le a b

/-- `ORDER BY w.depth ASC, w.path`. -/
def rowLe (S : Server) (r r' : ℕ × List Text) : Prop :=
  r.1 < r'.1 ∨ r.1 = r'.1 ∧ arrayLe S r.2 r'.2 = true

instance (S : Server) (r r' : ℕ × List Text) : Decidable (rowLe S r r') :=
  inferInstanceAs (Decidable (_ ∨ _))

/-- `uedge_path`: the depth and the path of each row. -/
def uedgePath (S : Server) (db : EdgeDb) (a : WalkArgs) (target : Vertex) :
    Except GraphError (List (ℕ × List Text)) :=
  if a.direction ∉ ["out", "in", "both"] then .error (.badDirection "uedge_path" a.direction)
  else if a.maxDepth < 1 ∨ 32 < a.maxDepth then .error .badDepth
  else (uedgeWalk db a).map fun rows =>
    ((rows.filter (·.vertex = target)).map fun w => (w.depth, w.path)).insertionSort
      (rowLe S)

end MaluDb.Graph
