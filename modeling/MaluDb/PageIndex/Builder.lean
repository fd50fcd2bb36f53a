import MaluDb.Lib.Serial
import MaluDb.Lib.Session

/-!
# Building page index trees

`build_tree` of `maludb-pageindexd`, and the SQL functions that it calls:
`page_index_tree_mark_building`, `page_index_record_structure_pass`, `page_index_record_node`,
`page_index_tree_mark_ready` and `page_index_tree_mark_failed`.

* The worker's connection has no autocommit. `_fetch_source` opens a transaction: the blocks after
  it are savepoints. The commit is left to the caller, who may make it between attempts.
* `Faults` says of each point of an attempt whether it goes well, raises, or the worker crashes
  before it.
* Of a source package, the job has what the parser makes of it, the same in every attempt.
-/

namespace MaluDb.PageIndex

open MaluDb.Lib

/-! ## Outlines -/

abbrev Anchor := List (String × Int)

structure OutlineEntry where
  title : String
  level : Int
  startAnchor : Anchor
  endAnchor : Anchor
  ordinal : Int
  deriving DecidableEq

structure PageText where
  pageNumber : Int
  text : String
  lines : List String

inductive NodeKind where
  | internal
  | leaf
  deriving DecidableEq

/-- The loop of `_is_leaf_in_outline` over the later entries. -/
def isLeafBefore (level : Int) : List OutlineEntry → Bool
  | [] => true
  | later :: rest =>
    if later.level ≤ level then true
    else if later.level = level + 1 then false
    else isLeafBefore level rest

section

variable (entry : OutlineEntry)

section

variable (outline : List OutlineEntry)

def isLeafInOutline : Bool :=
  isLeafBefore entry.level (outline.drop (outline.idxOf entry + 1))

/-- The loop of `_resolve_parent_mdo` and `_parent_title`: the last entry before this one that is
one level up. -/
def resolveParent : Option OutlineEntry :=
  if entry.level = 0 then none
  else (outline.take (outline.idxOf entry)).reverse.find? fun prior => prior.level = entry.level - 1

def resolveParentMdo (mdoForEntry : Int → Option ℕ) : Option ℕ :=
  (resolveParent entry outline).bind fun prior => mdoForEntry prior.ordinal

def parentTitle : Option String :=
  (resolveParent entry outline).map OutlineEntry.title

end

/-- `xs[first:last]`; a negative index counts from the end. -/
def slice {A : Type} (xs : List A) (first last : Int) : List A :=
  let clamp := fun i : Int => (if i < 0 then i + xs.length else i).toNat
  (xs.take (clamp last)).drop (clamp first)

def extractAnchorText (pages : List PageText) : String :=
  let whole := "\n".intercalate (pages.map PageText.text)
  match entry.startAnchor.lookup "page_first", entry.startAnchor.lookup "line_first", pages with
  | some first, _, _ =>
    let last := (entry.endAnchor.lookup "page_last").getD first
    "\n".intercalate ((pages.filter fun p => first ≤ p.pageNumber ∧ p.pageNumber ≤ last).map
      PageText.text)
  | none, some line, page :: _ =>
    if page.pageNumber = 1 then
      let first := line - 1
      let last := (entry.endAnchor.lookup "line_last").getD (first + 1)
      "\n".intercalate (slice page.lines first last)
    else whole
  | none, _, _ => whole

/-! ## Tables -/

inductive BuildStatus where
  | pending
  | building
  | ready
  | stale
  | superseded
  | failed
  deriving DecidableEq

structure TreeRow where
  buildStatus : BuildStatus
  failureReason : Option String

/-- The anchor of a node. -/
structure NodeAnchor where
  first : Anchor
  last : Anchor
  level : Int
  ordinal : Int
  modelAlias : String
  promptTemplateVersion : String
  deriving DecidableEq

/-- A row of `malu$memory_detail_object` for a node. -/
structure NodeRow where
  mdoId : ℕ
  parentMdoId : Option ℕ
  treeId : ℕ
  nodeKind : NodeKind
  title : String
  summary : String
  anchor : NodeAnchor
  deriving DecidableEq

structure StructurePass where
  treeId : ℕ
  parserKind : String
  parserVersion : String
  outlineNodeCount : ℕ
  leafCount : ℕ
  deterministicInputsHash : String

structure Db where
  trees : ℕ → Option TreeRow
  nodes : Serial NodeRow NodeRow.mdoId
  passes : List StructurePass

variable (db : Db)

def Db.nodesOf (treeId : ℕ) : List NodeRow :=
  db.nodes.rows.filter (·.treeId == treeId)

def Db.status? (treeId : ℕ) : Option BuildStatus :=
  (db.trees treeId).map TreeRow.buildStatus

end

/-! ## SQL functions -/

def markTree (function states : String) (allowed : List BuildStatus) (change : TreeRow → TreeRow)
    (treeId : ℕ) (db : Db) : Except String (Db × Unit) :=
  match db.trees treeId with
  | some row =>
    if allowed.contains row.buildStatus then
      .ok ({ db with trees := Function.update db.trees treeId (some (change row)) }, ())
    else .error s!"{function}: tree {treeId} not in {states} state"
  | none => .error s!"{function}: tree {treeId} not in {states} state"

def pageIndexTreeMarkBuilding : ℕ → Db → Except String (Db × Unit) :=
  markTree "page_index_tree_mark_building" "pending/failed" [.pending, .failed]
    fun row => { row with buildStatus := .building }

def pageIndexTreeMarkReady : ℕ → Db → Except String (Db × Unit) :=
  markTree "page_index_tree_mark_ready" "building" [.building]
    fun row => { row with buildStatus := .ready }

def pageIndexTreeMarkFailed (reason : String) : ℕ → Db → Except String (Db × Unit) :=
  markTree "page_index_tree_mark_failed" "pending/building" [.pending, .building]
    fun _ => ⟨.failed, some reason⟩

/-- `page_index_record_structure_pass` with the outcome `ok`. -/
def pageIndexRecordStructurePass (pass : StructurePass) (db : Db) : Except String (Db × Unit) :=
  .ok ({ db with passes := db.passes ++ [pass] }, ())

/-- `page_index_record_node`. -/
def pageIndexRecordNode (treeId : ℕ) (parentMdoId : Option ℕ) (nodeKind : NodeKind)
    (title summary : String) (anchor : NodeAnchor) (db : Db) : Except String (Db × ℕ) :=
  let nodes := db.nodes.insert
    (fun id => ⟨id, parentMdoId, treeId, nodeKind, title, summary, anchor⟩) fun _ => rfl
  .ok ({ db with nodes := nodes }, db.nodes.next)

/-! ## The attempt -/

structure SummarizationRequest where
  treeId : ℕ
  nodeTitle : String
  nodeText : String
  nodeKind : NodeKind
  parentTitle : Option String

structure SummarizationResult where
  summary : String
  modelAlias : String
  promptTemplateVersion : String

structure Source where
  parserKind : String
  parserVersion : String
  outline : List OutlineEntry
  pages : List PageText
  inputsHash : String

structure Job where
  sourcePackageId : ℕ
  source : Option Source

inductive Point where
  | markBuilding
  | fetch
  | parse
  | structurePass
  | summarize (i : ℕ)
  | recordNode (i : ℕ)
  | markReady
  | markFailed
  deriving DecidableEq

/-- What happens at a point. -/
inductive Fate where
  | fine
  | raises (text : String)
  | crash

structure Faults where
  fate : Point → Fate
  summarizer : SummarizationRequest → SummarizationResult

inductive Reply (A : Type) where
  | ok (a : A)
  | raised (text : String)
  | crashed

structure BuilderResult where
  treeId : ℕ
  outlineNodeCount : ℕ
  leafCount : ℕ
  outcome : String
  errorText : Option String
  deriving DecidableEq

def abortedText : String :=
  "current transaction is aborted, commands ignored until end of transaction block"

def Reply.ofExcept {A : Type} : Except String A → Reply A
  | .ok a => .ok a
  | .error text => .raised text

section

variable {A : Type} (faults : Faults)

/-- `with conn.transaction(): …`. -/
def block (p : Point) (body : Db → Except String (Db × A)) (s : Session Db) :
    Session Db × Reply A :=
  match faults.fate p with
  | .fine =>
    let (s, result) := s.transaction abortedText body
    (s, .ofExcept result)
  | .raises text =>
    let (s, result) := s.transaction abortedText fun _ => .error text
    (s, .ofExcept result)
  | .crash => (s.reset, .crashed)

/-- `_fetch_source`. -/
def fetchSource (job : Job) (s : Session Db) : Session Db × Reply Source :=
  match faults.fate .fetch with
  | .fine =>
    match s.query abortedText fun _ => .ok job.source with
    | (s, .error text) => (s, .raised text)
    | (s, .ok none) =>
      let id := job.sourcePackageId
      (s, .raised s!"source_package_id={id} not found")
    | (s, .ok (some source)) => (s, .ok source)
  | .raises text =>
    let (s, result) := s.query abortedText fun _ => .error text
    (s, .ofExcept result)
  | .crash => (s.reset, .crashed)

/-- The node of an entry. -/
def recordEntry (treeId : ℕ) (source : Source) (mdoForEntry : Int → Option ℕ)
    (entry : OutlineEntry) (db : Db) : Except String (Db × ℕ) :=
  let nodeKind := if isLeafInOutline entry source.outline then NodeKind.leaf else .internal
  let summary := faults.summarizer ⟨treeId, entry.title, extractAnchorText entry source.pages,
    nodeKind, parentTitle entry source.outline⟩
  pageIndexRecordNode treeId (resolveParentMdo entry source.outline mdoForEntry) nodeKind
    entry.title summary.summary ⟨entry.startAnchor, entry.endAnchor, entry.level, entry.ordinal,
      summary.modelAlias, summary.promptTemplateVersion⟩ db

/-- The loop over the outline, from entry `i` on. -/
def recordNodes (treeId : ℕ) (source : Source) :
    ℕ → List OutlineEntry → (Int → Option ℕ) → Session Db → Session Db × Reply Unit
  | _, [], _, s => (s, .ok ())
  | i, entry :: rest, mdoForEntry, s =>
    match faults.fate (.summarize i) with
    | .crash => (s.reset, .crashed)
    | .raises text => (s, .raised text)
    | .fine =>
      match block faults (.recordNode i) (recordEntry faults treeId source mdoForEntry entry) s with
      | (s, .ok mdoId) => recordNodes treeId source (i + 1) rest
          (Function.update mdoForEntry entry.ordinal (some mdoId)) s
      | (s, .raised text) => (s, .raised text)
      | (s, .crashed) => (s, .crashed)

/-- `_mark_failed`, whose own exceptions are only logged, and the result of a failed build. -/
def failTree (treeId : ℕ) (reason : String) (outlineNodeCount leafCount : ℕ) (text : String)
    (s : Session Db) : Session Db × Reply BuilderResult :=
  match block faults .markFailed (pageIndexTreeMarkFailed reason treeId) s with
  | (s, .crashed) => (s, .crashed)
  | (s, _) => (s, .ok ⟨treeId, outlineNodeCount, leafCount, "failed", some text⟩)

/-- `build_tree` from the structure pass on. -/
def buildFrom (treeId : ℕ) (source : Source) (s : Session Db) : Session Db × Reply BuilderResult :=
  let count := source.outline.length
  let leaves := (source.outline.filter fun e => isLeafInOutline e source.outline).length
  match block faults .structurePass (pageIndexRecordStructurePass
    ⟨treeId, source.parserKind, source.parserVersion, count, leaves, source.inputsHash⟩) s with
  | (s, .crashed) => (s, .crashed)
  | (s, .raised text) => (s, .raised text)
  | (s, .ok ()) =>
    match recordNodes faults treeId source 0 source.outline (fun _ => none) s with
    | (s, .crashed) => (s, .crashed)
    | (s, .raised text) => failTree faults treeId s!"summarizer raised: {text}" count leaves text s
    | (s, .ok ()) =>
      match block faults .markReady (pageIndexTreeMarkReady treeId) s with
      | (s, .crashed) => (s, .crashed)
      | (s, .raised text) => (s, .raised text)
      | (s, .ok ()) => (s, .ok ⟨treeId, count, leaves, "ok", none⟩)

/-- `build_tree`. -/
def buildTree (treeId : ℕ) (job : Job) (s : Session Db) : Session Db × Reply BuilderResult :=
  match block faults .markBuilding (pageIndexTreeMarkBuilding treeId) s with
  | (s, .crashed) => (s, .crashed)
  | (s, .raised text) => (s, .raised text)
  | (s, .ok ()) =>
    match fetchSource faults job s with
    | (s, .crashed) => (s, .crashed)
    | (s, .raised text) => (s, .raised text)
    | (s, .ok source) =>
      match faults.fate .parse with
      | .crash => (s.reset, .crashed)
      | .raises text => failTree faults treeId s!"parser raised: {text}" 0 0 text s
      | .fine => buildFrom faults treeId source s

end

/-! ## Runs -/

inductive Op where
  | attempt (treeId : ℕ) (faults : Faults)
  | crash
  | commit

/-- One step; `jobs` has the job of each tree. -/
def step (jobs : ℕ → Job) (s : Session Db) : Op → Session Db
  | .attempt treeId faults => (buildTree faults treeId (jobs treeId) s).1
  | .crash => s.reset
  | .commit => s.commit

def Db.registered (trees : ℕ → Bool) : Db :=
  ⟨fun t => if trees t then some ⟨.pending, none⟩ else none, Serial.empty, []⟩

end MaluDb.PageIndex
