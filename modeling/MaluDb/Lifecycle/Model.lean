import MaluDb.Fact.Model
import MaluDb.Lib.Except

/-!
# Lifecycle of governed objects

`apply_lifecycle_state`, `retract_fact`, `tombstone_source_package`, `_forget_document_for_schema`
and `_forget_chunk_for_schema`, with `legal_hold_apply` and `legal_hold_release`.

* A hold is an unreleased row of `malu$legal_hold`, visible to its owner only (`ownRow`), or the
  column `legal_hold` of a source package.
* The forget functions are SECURITY DEFINER and select by `owner_schema`. The others are subject to
  the row policies of the session.
* Deleting a source package nulls the reference of the claims drawn from it, and fails if an archive
  row, a skill file or another document refers to it. Deleting a statement nulls the reference of
  its chunks, and deleting a document deletes its chunks, whoever owns them.
* `content` stands for the columns that say what an object is. Ids are not NULL.
* The sessions are not bound to a principal, and table privileges are not modelled, so more callers
  get through than in the database.
-/

namespace MaluDb.Lifecycle

open MaluDb.Lib MaluDb.Grant MaluDb.Fact

/-! ## Tables -/

/-- A row of `malu$memory` or `malu$episode_object`. -/
structure GovernedRow (J : Type) where
  id : Nat
  ownerSchema : String
  content : J
  lifecycleState : LifecycleState
  deriving DecidableEq, Repr

/-- A row of `malu$memory_detail_object`; it has no lifecycle state. -/
structure DetailRow (J : Type) where
  mdoId : Nat
  ownerSchema : String
  content : J
  deriving DecidableEq, Repr

/-- A row of `malu$claim`. -/
structure ClaimRow (J : Type) where
  claimId : Nat
  ownerSchema : String
  content : J
  sourcePackageId : Option Nat
  deriving DecidableEq, Repr

structure SourcePackage (J : Type) where
  sourcePackageId : Nat
  ownerSchema : String
  contentBytes : Option (List UInt8)
  contentText : Option String
  contentJsonb : Option J
  contentHash : String
  legalHold : Bool
  sealedAt : Option Int
  tombstonedAt : Option Int
  deriving DecidableEq, Repr

inductive PlacementTier where
  | inline
  | hot
  | warm
  | cold
  | external
  deriving DecidableEq, Repr

structure VerbatimArchive where
  sourcePackageId : Nat
  ownerSchema : String
  placementTier : PlacementTier
  archiveHash : String
  note : Option String
  sealedAt : Int
  supersededAt : Option Int
  deriving DecidableEq, Repr

/-- A row of `malu$document`. -/
structure Document where
  documentId : Nat
  ownerSchema : String
  sourcePackageId : Option Nat
  deriving DecidableEq, Repr

/-- A row of `malu$svpor_statement`; an endpoint is a kind and an id. -/
structure SvporStatement where
  statementId : Nat
  ownerSchema : String
  subject : String × Nat
  object : Option (String × Nat)
  deriving DecidableEq, Repr

/-- A row of `malu$vector_chunk`, with the owner of its compartment. -/
structure VectorChunk where
  chunkId : Nat
  compartmentOwner : String
  documentId : Option Nat
  statementId : Option Nat
  deriving DecidableEq, Repr

structure LegalHold where
  holdId : Nat
  ownerSchema : String
  target : Object
  reason : String
  appliedAt : Int
  releasedAt : Option Int
  releaseReason : Option String
  deriving DecidableEq, Repr

/-- The tables; of `malu$skill_file` the packages it refers to. -/
structure LifecycleStore (J : Type) where
  facts : FactStore J
  memories : Serial (GovernedRow J) GovernedRow.id
  episodes : Serial (GovernedRow J) GovernedRow.id
  details : Serial (DetailRow J) DetailRow.mdoId
  claims : Serial (ClaimRow J) ClaimRow.claimId
  packages : Serial (SourcePackage J) SourcePackage.sourcePackageId
  archives : List VerbatimArchive
  skillFiles : List Nat
  documents : Serial Document Document.documentId
  statements : Serial SvporStatement SvporStatement.statementId
  chunks : Serial VectorChunk VectorChunk.chunkId
  holds : Serial LegalHold LegalHold.holdId

inductive LifecycleError where
  | reasonRequired (function : String)
  | typeNotSupported (type : Option String)
  | legalHoldBlocks (type : ObjectType) (id : Nat)
  | holdNotActive (id : Nat)
  | unknownPackage (id : Nat)
  | systemSchema (schema : String)
  | noSchema (schema : String)
  | lacksCreate (user schema : String)
  | noDocument (id : Nat) (schema : String)
  | documentUnderHold (id : Nat)
  | rowSecurity (table : String)
  | nullColumn (column : String)
  | checkViolation (constraint : String)
  | fact (e : FactError)
  deriving DecidableEq, Repr

/-- The text of an error. The `%s` of the message on holds is a placeholder and the letter s. -/
def LifecycleError.message : LifecycleError → String
  | .reasonRequired function => s!"{function}: reason required"
  | .typeNotSupported type =>
    "apply_lifecycle_state: type " ++ type.getD "<NULL>" ++ " not supported"
  | .legalHoldBlocks type id => "LEGAL_HOLD_BLOCKS_TRANSITION: " ++ type.name ++ "s id=" ++
      toString id ++ " is on legal hold; release first"
  | .holdNotActive id => s!"legal_hold_release: hold_id={id} not active"
  | .unknownPackage id => s!"unknown source_package_id: {id}"
  | .systemSchema schema => s!"enable_memory_schema: refusing system schema {schema}"
  | .noSchema schema => s!"enable_memory_schema: schema {schema} does not exist"
  | .lacksCreate user schema => s!"enable_memory_schema: {user} lacks CREATE on schema {schema}"
  | .noDocument id schema => s!"forget_document: no document {id} in {schema}"
  | .documentUnderHold id => s!"forget_document: document {id} is under legal hold"
  | .rowSecurity table => s!"new row violates row-level security policy for table {table}"
  | .nullColumn column => s!"null value in column {column} violates not-null constraint"
  | .checkViolation constraint => s!"new row violates check constraint {constraint}"
  | .fact e => e.message

section

variable {J : Type}

/-! ## Legal holds -/

section

variable (s : LifecycleStore J) (ses : Session) (now : Int) (target : Object) (table : String)

/-- The policy `tenant_owner`, the only one on `malu$legal_hold` and `malu$verbatim_archive`. -/
def ownRow (ownerSchema : String) : Bool :=
  ses.bypassRls || ownerSchema == ses.schema

def LegalHold.activeOn (h : LegalHold) (o : Object) : Bool :=
  h.target == o && h.releasedAt.isNone

/-- `is_under_legal_hold`, in a session. -/
def isUnderLegalHold (holds : Serial LegalHold LegalHold.holdId) (ses : Session) (o : Object) :
    Bool :=
  holds.rows.any fun h => ownRow ses h.ownerSchema && h.activeOn o

/-- The types that the CHECK of `malu$legal_hold` admits. -/
def holdTypes : List ObjectType :=
  [.sourcePackage, .claim, .fact, .memory, .episodeObject, .memoryDetailObject]

/-- The row that `legal_hold_apply` inserts. -/
def newHold (reason : String) (id : Nat) : LegalHold :=
  ⟨id, ses.schema, target, reason, ses.now, none, none⟩

@[simp] theorem holdId_newHold (reason : String) (id : Nat) :
    (newHold ses target reason id).holdId = id := rfl

/-- `legal_hold_apply`; returns the id of the hold. -/
def legalHoldApply (type : Option String) (id : Nat) (reason : Option String) :
    Except LifecycleError (LifecycleStore J × Nat) :=
  if reason.getD "" = "" then .error (.reasonRequired "legal_hold_apply")
  else
    match type with
    | none => .error (.nullColumn "target_object_type")
    | some name =>
      match (ObjectType.ofName? name).filter holdTypes.contains with
      | none => .error (.checkViolation "malu$legal_hold_target_object_type_check")
      | some t =>
        .ok ({ s with holds := s.holds.insert _ (holdId_newHold ses ⟨t, id⟩ (reason.getD "")) },
          s.holds.next)

/-- What `legal_hold_release` sets. -/
def LegalHold.release (reason : Option String) (h : LegalHold) : LegalHold :=
  { h with releasedAt := some now, releaseReason := reason }

@[simp] theorem holdId_release (reason : Option String) (h : LegalHold) :
    (h.release now reason).holdId = h.holdId := rfl

def legalHoldRelease (holdId : Nat) (reason : Option String) :
    Except LifecycleError (LifecycleStore J) :=
  if reason.getD "" = "" then .error (.reasonRequired "legal_hold_release")
  else
    let found (h : LegalHold) : Bool :=
      ownRow ses h.ownerSchema && h.holdId == holdId && h.releasedAt.isNone
    if s.holds.rows.any found then
      .ok { s with holds :=
        s.holds.update found (LegalHold.release ses.now reason) (holdId_release ses.now reason) }
    else .error (.holdNotActive holdId)

/-! ## Lifecycle states -/

/-- The state a text names. -/
def lifecycleStateOfName? (name : String) : Option LifecycleState :=
  [LifecycleState.active, .consolidated, .superseded, .archived, .retired, .legalHold,
    .tombstoned].find? (·.name == name)

def finalStates : List LifecycleState := [.tombstoned, .retired, .archived]

/-- The state that passes the constraints of the column `lifecycle_state` of a table. -/
def checkState (allowed : LifecycleState → Bool) (state : Option String) :
    Except LifecycleError LifecycleState :=
  match state with
  | none => .error (.nullColumn "lifecycle_state")
  | some name =>
    match (lifecycleStateOfName? name).filter allowed with
    | none => .error (.checkViolation (table ++ "_lifecycle_state_check"))
    | some st => .ok st

/-- What the UPDATE of `apply_lifecycle_state` sets in a memory or an episode. -/
def GovernedRow.withState (st : LifecycleState) (r : GovernedRow J) : GovernedRow J :=
  { r with lifecycleState := st }

@[simp] theorem id_withState (st : LifecycleState) (r : GovernedRow J) :
    (r.withState st).id = r.id := rfl

/-- The UPDATE on `malu$memory` or `malu$episode_object`, the table of the objects of a type. No
visible row is no error. -/
def setState (type : ObjectType) (t : Serial (GovernedRow J) GovernedRow.id) (ses : Session)
    (id : Nat) (state : Option String) :
    Except LifecycleError (Serial (GovernedRow J) GovernedRow.id) :=
  match (t.get? id).filter fun r => ses.sees r.ownerSchema ⟨type, r.id⟩ with
  | none => .ok t
  | some r =>
    if !ses.mayWrite r.ownerSchema ⟨type, r.id⟩ then .error (.rowSecurity table)
    else
      (checkState table (fun _ => true) state).map fun st =>
        t.update (·.id == id) (GovernedRow.withState st) (id_withState st)

/-- The states that the CHECK of `malu$fact` admits. -/
def factStates : List LifecycleState := [.active, .superseded, .retired, .legalHold, .tombstoned]

def factWithState (st : LifecycleState) (f : FactRow J) : FactRow J :=
  { f with lifecycleState := st }

@[simp] theorem factId_factWithState (st : LifecycleState) (f : FactRow J) :
    (factWithState st f).factId = f.factId := rfl

/-- The UPDATE on `malu$fact`. A fact that becomes active again must satisfy the exclusion
constraint. -/
def setFactState (facts : Serial (FactRow J) FactRow.factId) (ses : Session) (id : Nat)
    (state : Option String) : Except LifecycleError (Serial (FactRow J) FactRow.factId) :=
  match (facts.get? id).filter fun f => ses.sees f.ownerSchema f.object with
  | none => .ok facts
  | some f =>
    if !ses.mayWrite f.ownerSchema f.object then .error (.rowSecurity "malu$fact")
    else
      (checkState "malu$fact" factStates.contains state).bind fun st =>
        if conflicts (facts.delete (·.factId == id)) (factWithState st f) then
          .error (.fact .exclusionViolation)
        else
          .ok (facts.update (·.factId == id) (factWithState st) (factId_factWithState st))

/-- `apply_lifecycle_state`; the reason goes to the audit row only. -/
def applyLifecycleState (type : Option String) (id : Nat) (state : Option String) :
    Except LifecycleError (LifecycleStore J) :=
  let blocked (t : ObjectType) : Bool :=
    isUnderLegalHold s.holds ses ⟨t, id⟩ && (finalStates.map fun st => some st.name).contains state
  match type.bind ObjectType.ofName? with
  | some .fact =>
    if blocked .fact then .error (.legalHoldBlocks .fact id)
    else (setFactState s.facts.facts ses id state).map fun facts =>
      { s with facts := { s.facts with facts } }
  | some .memory =>
    if blocked .memory then .error (.legalHoldBlocks .memory id)
    else (setState "malu$memory" .memory s.memories ses id state).map fun memories =>
      { s with memories }
  | some .episodeObject =>
    if blocked .episodeObject then .error (.legalHoldBlocks .episodeObject id)
    else (setState "malu$episode_object" .episodeObject s.episodes ses id state).map fun episodes =>
      { s with episodes }
  | _ => .error (.typeNotSupported type)

/-! ## Source packages -/

/-- What the first UPDATE of `tombstone_source_package` sets. The seal is lifted here, so the
trigger `source_package_seal_lock_tg` lets the content go afterwards. -/
def SourcePackage.tombstone (p : SourcePackage J) : SourcePackage J :=
  { p with sealedAt := none, tombstonedAt := some now }

def SourcePackage.erase (p : SourcePackage J) : SourcePackage J :=
  { p with contentBytes := none, contentText := none, contentJsonb := none, sealedAt := some now }

def SourcePackage.tombstoned (p : SourcePackage J) : SourcePackage J :=
  if p.legalHold then p.tombstone now else (p.tombstone now).erase now

@[simp] theorem sourcePackageId_tombstoned (p : SourcePackage J) :
    (p.tombstoned now).sourcePackageId = p.sourcePackageId := by
  unfold SourcePackage.tombstoned
  split <;> rfl

def supersedeArchives (id : Nat) (archives : List VerbatimArchive) : List VerbatimArchive :=
  updateWhere
    (fun a => ownRow ses a.ownerSchema && a.sourcePackageId == id && a.supersededAt.isNone &&
      [PlacementTier.inline, .hot, .warm].contains a.placementTier)
    (fun a => { a with supersededAt := some ses.now }) archives

def tombstoneSourcePackage (id : Nat) (reason : Option String) :
    Except LifecycleError (LifecycleStore J) :=
  if reason.getD "" = "" then .error (.reasonRequired "tombstone_source_package")
  else
    match (s.packages.get? id).filter fun p =>
        ses.sees p.ownerSchema ⟨.sourcePackage, p.sourcePackageId⟩ with
    | none => .error (.unknownPackage id)
    | some p =>
      if !ses.mayWrite p.ownerSchema ⟨.sourcePackage, p.sourcePackageId⟩ then
        .error (.rowSecurity "malu$source_package")
      else
        let archives := s.archives ++
          [⟨id, ses.schema, .inline, p.contentHash, reason.map ("tombstone: " ++ ·), ses.now,
            some ses.now⟩]
        .ok { s with
          packages := s.packages.update (·.sourcePackageId == id)
            (SourcePackage.tombstoned ses.now) (sourcePackageId_tombstoned ses.now)
          archives := if p.legalHold then archives else supersedeArchives ses id archives }

/-! ## Forgetting -/

/-- What the catalog says: the schemas, who a session's user is, and `has_schema_privilege(…,
'CREATE')`. -/
structure Catalog where
  schemas : List String
  sessionUser : Session → String
  mayCreate : String → String → Bool

variable (cat : Catalog)

section

variable (schema : String) (ses : Session)

/-- The schemas that no session may manage. In `LIKE 'pg_%'` the underscore is any character. -/
def systemSchema : Bool :=
  ["pg_catalog", "information_schema", "maludb_core", "mc2db"].contains schema ||
    (schema.startsWith "pg" && decide (3 ≤ schema.length))

/-- `_memory_schema_assert_manageable`. -/
def assertManageable (schema : String) : Except LifecycleError Unit :=
  if systemSchema schema then .error (.systemSchema schema)
  else if !cat.schemas.contains schema then .error (.noSchema schema)
  else if !cat.mayCreate (cat.sessionUser ses) schema then
    .error (.lacksCreate (cat.sessionUser ses) schema)
  else .ok ()

inductive PackageFate where
  | none
  | deleted
  | keptReferenced
  deriving DecidableEq, Repr

/-- What `_forget_document_for_schema` returns. -/
structure Forgotten where
  documentId : Nat
  chunks : Nat
  statements : Nat
  sourcePackage : PackageFate
  deriving DecidableEq, Repr

def SvporStatement.touches (st : SvporStatement) (documentId : Nat) : Bool :=
  st.subject == ("document", documentId) || st.object == some ("document", documentId)

def VectorChunk.dropStatement (gone : List Nat) (c : VectorChunk) : VectorChunk :=
  { c with statementId := c.statementId.filter fun id => !gone.contains id }

@[simp] theorem chunkId_dropStatement (gone : List Nat) (c : VectorChunk) :
    (c.dropStatement gone).chunkId = c.chunkId := rfl

def ClaimRow.dropPackage (id : Nat) (c : ClaimRow J) : ClaimRow J :=
  { c with sourcePackageId := c.sourcePackageId.filter fun p => p != id }

@[simp] theorem claimId_dropPackage (id : Nat) (c : ClaimRow J) :
    (c.dropPackage id).claimId = c.claimId := rfl

def packageReferenced (id : Nat) : Bool :=
  s.archives.any (·.sourcePackageId == id) || s.skillFiles.contains id ||
    s.documents.rows.any fun d => d.ownerSchema == schema && d.sourcePackageId == some id

/-- `DELETE FROM malu$source_package`, in its own block: an error of a foreign key undoes only
this. -/
def deletePackage (id : Nat) : LifecycleStore J × PackageFate :=
  let found (p : SourcePackage J) : Bool := p.ownerSchema == schema && p.sourcePackageId == id
  if s.packages.rows.any found then
    if packageReferenced s schema id then (s, .keptReferenced)
    else ({ s with
      packages := s.packages.delete found
      claims :=
        s.claims.update (fun _ => true) (ClaimRow.dropPackage id) (claimId_dropPackage id) },
      .deleted)
  else (s, .deleted)

def statementsOf (documentId : Nat) : List Nat :=
  (s.statements.rows.filter fun st => st.ownerSchema == schema && st.touches documentId).map
    SvporStatement.statementId

def chunksOf (documentId : Nat) : List VectorChunk :=
  s.chunks.rows.filter fun c => c.compartmentOwner == schema &&
    (c.documentId == some documentId ||
      c.statementId.any fun id => (statementsOf s schema documentId).contains id)

/-- The document with its chunks and statements deleted, and the chunks of other owners that the
trigger `malu$document_chunks_cleanup` finds. -/
def deleteDocument (documentId : Nat) : LifecycleStore J :=
  let gone := statementsOf s schema documentId
  { s with
    chunks := ((s.chunks.delete fun c => (chunksOf s schema documentId).contains c).update
      (fun _ => true) (VectorChunk.dropStatement gone) (chunkId_dropStatement gone)).delete
        (·.documentId == some documentId)
    statements :=
      s.statements.delete fun st => st.ownerSchema == schema && gone.contains st.statementId
    documents := s.documents.delete fun d => d.ownerSchema == schema && d.documentId == documentId }

/-- The hold that `_forget_document_for_schema` looks at. -/
def packageOnHold (id : Nat) : Bool :=
  s.packages.rows.any fun p =>
    p.ownerSchema == schema && p.sourcePackageId == id && p.legalHold

end

section

variable (s : LifecycleStore J) (ses : Session)

/-- `_forget_document_for_schema`. -/
def forgetDocument (schema : String) (documentId : Nat) :
    Except LifecycleError (LifecycleStore J × Forgotten) :=
  (assertManageable cat ses schema).bind fun _ =>
  match (s.documents.get? documentId).filter fun d => d.ownerSchema == schema with
  | none => .error (.noDocument documentId schema)
  | some d =>
    if d.sourcePackageId.any fun id => packageOnHold s schema id then
      .error (.documentUnderHold documentId)
    else
      let s' := deleteDocument s schema documentId
      let (s'', fate) : LifecycleStore J × PackageFate :=
        match d.sourcePackageId with
        | none => (s', .none)
        | some id => deletePackage s' schema id
      .ok (s'', ⟨documentId, (chunksOf s schema documentId).length,
        (statementsOf s schema documentId).length, fate⟩)

/-- `_forget_chunk_for_schema`; whether a chunk was deleted. -/
def forgetChunk (schema : String) (chunkId : Nat) :
    Except LifecycleError (LifecycleStore J × Bool) :=
  (assertManageable cat ses schema).map fun _ =>
    let found (c : VectorChunk) : Bool := c.chunkId == chunkId && c.compartmentOwner == schema
    if s.chunks.rows.any found then
      ({ s with chunks := s.chunks.delete fun c => c.chunkId == chunkId }, true)
    else (s, false)

/-! ## Calls -/

inductive LifecycleOp where
  | applyLifecycleState (type : Option String) (id : Nat) (state reason : Option String)
  | retractFact (id : Nat) (reason : Option String)
  | tombstoneSourcePackage (id : Nat) (reason : Option String)
  | forgetDocument (schema : String) (documentId : Nat)
  | forgetChunk (schema : String) (chunkId : Nat)
  | legalHoldApply (type : Option String) (id : Nat) (reason : Option String)
  | legalHoldRelease (holdId : Nat) (reason : Option String)
  deriving DecidableEq, Repr

def lifecycleCall :
    LifecycleOp → Except LifecycleError (LifecycleStore J)
  | .applyLifecycleState type id state _ => applyLifecycleState s ses type id state
  | .retractFact id reason =>
    ((retractFact s.facts ses id reason).mapError .fact).map fun facts => { s with facts }
  | .tombstoneSourcePackage id reason => tombstoneSourcePackage s ses id reason
  | .forgetDocument schema documentId => (forgetDocument cat s ses schema documentId).map Prod.fst
  | .forgetChunk schema chunkId => (forgetChunk cat s ses schema chunkId).map Prod.fst
  | .legalHoldApply type id reason => (legalHoldApply s ses type id reason).map Prod.fst
  | .legalHoldRelease holdId reason => legalHoldRelease s ses holdId reason

def lifecycleStep (c : Session × LifecycleOp) : LifecycleStore J :=
  commitOr s (lifecycleCall cat s c.1 c.2)

end

end

end

end MaluDb.Lifecycle
