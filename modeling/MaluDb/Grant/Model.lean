import MaluDb.Lib.Run
import MaluDb.Lib.Serial

/-!
# Object grants

`_grant_active`, `grant_object_access` and `revoke_object_grant` over `malu$object_grant`, called
from sessions to which row level security applies.

* The `owner_schema` of an object does not change and is the parameter `owner`. An object is visible
  to its owner and to a schema with an active grant (`Session.sees`).
* A schema sees the grants it gave or was given, and updates those it gave. The exclusion constraint
  lies below: it admits one grant that is not revoked for each object and grantee.
-/

namespace MaluDb.Grant

open MaluDb.Lib

inductive ObjectType where
  | sourcePackage
  | claim
  | fact
  | memory
  | episodeObject
  | memoryDetailObject
  | relationshipEdge
  | derivationLedger
  deriving DecidableEq, Repr

/-- An object type as text. -/
def ObjectType.name : ObjectType → String
  | .sourcePackage => "source_package"
  | .claim => "claim"
  | .fact => "fact"
  | .memory => "memory"
  | .episodeObject => "episode_object"
  | .memoryDetailObject => "memory_detail_object"
  | .relationshipEdge => "relationship_edge"
  | .derivationLedger => "derivation_ledger"

/-- All object types. -/
def ObjectType.all : List ObjectType :=
  [.sourcePackage, .claim, .fact, .memory, .episodeObject, .memoryDetailObject, .relationshipEdge,
    .derivationLedger]

def ObjectType.ofName? (name : String) : Option ObjectType :=
  ObjectType.all.find? (·.name == name)

/-- The levels of a grant. -/
inductive GrantLevel where
  | read
  | write
  | full
  deriving DecidableEq, Repr

/-- A level as text. -/
def GrantLevel.name : GrantLevel → String
  | .read => "read"
  | .write => "write"
  | .full => "full"

/-- The level a text names. -/
def GrantLevel.ofName? (name : String) : Option GrantLevel :=
  [GrantLevel.read, .write, .full].find? (·.name == name)

structure Object where
  type : ObjectType
  id : Nat
  deriving DecidableEq, Repr

structure ObjectGrant where
  grantId : Nat
  object : Object
  grantedBySchema : String
  grantedToSchema : String
  grantLevel : GrantLevel
  grantedAt : Int
  expiresAt : Option Int
  revokedAt : Option Int
  note : Option String
  deriving DecidableEq, Repr

/-- `malu$object_grant`. -/
abbrev Grants := Serial ObjectGrant ObjectGrant.grantId

inductive GrantError where
  | badLevel (level : String)
  | sameSchema
  | nullIdentifier
  | notVisible (object : Object)
  | nullLevel
  | exclusionViolation
  | notFound (grantId : Nat)
  deriving DecidableEq, Repr

/-- The text of an error. -/
def GrantError.message : GrantError → String
  | .badLevel level => s!"grant_object_access: bad level {level}"
  | .sameSchema => "grant_object_access: must grant to a different schema"
  | .nullIdentifier => "null values cannot be formatted as an SQL identifier"
  -- the format string has %s where RAISE knows only %
  | .notVisible object => "grant_object_access: " ++ object.type.name ++ "s id=" ++
      toString object.id ++ " not visible to current schema"
  | .nullLevel => "null value in column grant_level violates not-null constraint"
  | .exclusionViolation =>
    "conflicting key value violates exclusion constraint malu$object_grant_unique_active"
  | .notFound grantId =>
    "revoke_object_grant: grant_id=" ++ toString grantId ++ " not found or already revoked"

/-- `revoked_at IS NULL AND (expires_at IS NULL OR expires_at > now())`. -/
def ObjectGrant.active (g : ObjectGrant) (now : Int) : Bool :=
  g.revokedAt.isNone && g.expiresAt.all fun e => decide (now < e)

/-- `_grant_active`. -/
def grantActive (grants : Grants) (schema : String) (now : Int) (object : Object)
    (levels : List GrantLevel) : Bool :=
  grants.rows.any fun g => g.object == object && g.grantedToSchema == schema &&
    levels.contains g.grantLevel && g.active now

/-- A session: `current_schema()`, `now()`, the grants it runs under, and whether its role has
BYPASSRLS, as `maludb_memory_admin` does. -/
structure Session where
  schema : String
  now : Int
  grants : Grants
  bypassRls : Bool

/-- The USING of the policies `tenant_owner` and `grant_visibility` on a governed table. -/
def Session.sees (ses : Session) (ownerSchema : String) (object : Object) : Bool :=
  ses.bypassRls || ownerSchema == ses.schema ||
    grantActive ses.grants ses.schema ses.now object [.read, .write, .full]

/-- Their WITH CHECK. -/
def Session.mayWrite (ses : Session) (ownerSchema : String) (object : Object) : Bool :=
  ses.bypassRls || ownerSchema == ses.schema ||
    grantActive ses.grants ses.schema ses.now object [.write, .full]

@[simp] theorem Session.sees_own (ses : Session) (object : Object) :
    ses.sees ses.schema object = true := by
  simp [Session.sees]

@[simp] theorem Session.mayWrite_own (ses : Session) (object : Object) :
    ses.mayWrite ses.schema object = true := by
  simp [Session.mayWrite]

abbrev Owner := Object → Option String

def visible (owner : Owner) (ses : Session) (object : Object) : Bool :=
  (owner object).any fun o => ses.sees o object

/-- The row a call of `grant_object_access` updates: not revoked, and given by the caller, since the
policy `granter_owns` hides the others from UPDATE. -/
def updatable (schema : String) (object : Object) (toSchema : String) (g : ObjectGrant) : Bool :=
  g.object == object && g.grantedToSchema == toSchema && g.revokedAt.isNone &&
    g.grantedBySchema == schema

/-- The arguments of `grant_object_access`. -/
structure GrantArgs where
  objectType : Option String
  objectId : Nat
  grantedToSchema : Option String
  grantLevel : Option String
  expiresAt : Option Int
  note : Option String
  deriving DecidableEq, Repr

/-- The arguments after the checks at the head of `grant_object_access`. A NULL level passes them
and fails at the NOT NULL of the column. -/
structure Checked where
  object : Object
  toSchema : String
  level : Option GrantLevel
  deriving DecidableEq, Repr

def checkArgs (schema : String) (a : GrantArgs) : Except GrantError Checked :=
  match a.grantLevel.map fun l => (l, GrantLevel.ofName? l) with
  | some (l, none) => .error (.badLevel l)
  | level =>
    match a.grantedToSchema with
    | none => .error .sameSchema
    | some toSchema =>
      if toSchema = schema then .error .sameSchema
      else
        match a.objectType.bind ObjectType.ofName? with
        | none => .error .nullIdentifier
        | some type => .ok ⟨⟨type, a.objectId⟩, toSchema, level.bind Prod.snd⟩

/-- What the UPDATE of `grant_object_access` sets. -/
def ObjectGrant.regrant (now : Int) (level : GrantLevel) (expiresAt : Option Int)
    (note : Option String) (g : ObjectGrant) : ObjectGrant :=
  { g with grantLevel := level, expiresAt, note := note.or g.note, grantedAt := now }

/-- The row `grant_object_access` inserts. -/
def newGrant (schema : String) (now : Int) (c : Checked) (level : GrantLevel)
    (expiresAt : Option Int) (note : Option String) (grantId : Nat) : ObjectGrant :=
  { grantId, object := c.object, grantedBySchema := schema, grantedToSchema := c.toSchema
    grantLevel := level, grantedAt := now, expiresAt, revokedAt := none, note }

/-- Upsert of the grant. -/
def upsertGrant (grants : Grants) (schema : String) (now : Int) (c : Checked) (level : GrantLevel)
    (expiresAt : Option Int) (note : Option String) : Except GrantError Grants :=
  if grants.rows.any (updatable schema c.object c.toSchema) then
    .ok (grants.update (updatable schema c.object c.toSchema)
      (ObjectGrant.regrant now level expiresAt note) fun _ => rfl)
  else if grants.rows.any fun g => g.object == c.object && g.grantedToSchema == c.toSchema &&
      g.revokedAt.isNone then
    .error .exclusionViolation
  else .ok (grants.insert (newGrant schema now c level expiresAt note) fun _ => rfl)

/-- `grant_object_access`, called from a session of `schema`. -/
def grantObjectAccess (owner : Owner) (grants : Grants) (schema : String) (now : Int)
    (a : GrantArgs) : Except GrantError Grants :=
  (checkArgs schema a).bind fun c =>
    if visible owner ⟨schema, now, grants, false⟩ c.object then
      match c.level with
      | none => .error .nullLevel
      | some level => upsertGrant grants schema now c level a.expiresAt a.note
    else .error (.notVisible c.object)

/-- What revoking sets. -/
def ObjectGrant.revoke (now : Int) (reason : Option String) (g : ObjectGrant) : ObjectGrant :=
  { g with
    revokedAt := some now
    note := some ((g.note.map (· ++ "\n")).getD "" ++ "revoked: " ++
      reason.getD "no reason given") }

/-- The row a call of `revoke_object_grant` updates. -/
def revocable (schema : String) (grantId : Nat) (g : ObjectGrant) : Bool :=
  g.grantId == grantId && g.revokedAt.isNone && g.grantedBySchema == schema

/-- `revoke_object_grant`, called from a session of `schema`. -/
def revokeObjectGrant (grants : Grants) (schema : String) (now : Int) (grantId : Nat)
    (reason : Option String) : Except GrantError Grants :=
  if grants.rows.any (revocable schema grantId) then
    .ok (grants.update (revocable schema grantId) (ObjectGrant.revoke now reason) fun _ => rfl)
  else .error (.notFound grantId)

/-! ## Runs -/

/-- A call, or time passing. -/
inductive GrantOp where
  | grant (schema : String) (args : GrantArgs)
  | revoke (schema : String) (grantId : Nat) (reason : Option String)
  | wait
  deriving DecidableEq, Repr

structure GrantState where
  grants : Grants
  clock : Int

/-- The state after an operation `elapsed` microseconds later; one that raises changes nothing. -/
def grantStep (owner : Owner) (s : GrantState) (step : Nat × GrantOp) : GrantState :=
  let now := s.clock + step.1
  { clock := now
    grants :=
      match step.2 with
      | .grant schema args => commitOr s.grants (grantObjectAccess owner s.grants schema now args)
      | .revoke schema grantId reason =>
        commitOr s.grants (revokeObjectGrant s.grants schema now grantId reason)
      | .wait => s.grants }

/-- No grants. -/
def noGrants (clock : Int) : GrantState := ⟨Serial.empty, clock⟩

end MaluDb.Grant
