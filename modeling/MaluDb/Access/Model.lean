import MaluDb.Lib.Serial

/-!
# Principals

The tables of principals and their scopes, the settings by which a session names a principal, and
the functions that read them.

* `elements` is `jsonb_array_elements_text(…::jsonb)`: `none` where it raises. A JSON `null` is a
  NULL element.
* The order of `array_agg(DISTINCT …)`, which no caller reads, is left out.
-/

namespace MaluDb.Access

open MaluDb.Lib

/-! ## SQL text functions -/

/-- `btrim`: without the spaces at both ends. -/
def btrim (s : String) : String :=
  String.ofList (((s.toList.dropWhile (· == ' ')).reverse.dropWhile (· == ' ')).reverse)

/-- `lower`. -/
def lower (s : String) : String := String.ofList (s.toList.map Char.toLower)

/-- `NULLIF(btrim(s), '')`. -/
def nonBlank (s : Option String) : Option String := (s.map btrim).filter (· ≠ "")

/-! ## Tables -/

/-- `max_sensitivity`. -/
inductive Sensitivity where
  | pub
  | internal
  | restricted
  | prohibited
  deriving DecidableEq, Repr

/-- `access_level`. -/
inductive AccessLevel where
  | read
  | write
  deriving DecidableEq, Repr

/-- A level as text. -/
def AccessLevel.name : AccessLevel → String
  | .read => "read"
  | .write => "write"

/-- The level a text names. -/
def AccessLevel.ofName? (name : String) : Option AccessLevel :=
  [AccessLevel.read, .write].find? (·.name == name)

/-- A row of `malu$principal`. -/
structure Principal where
  principalId : Nat
  ownerSchema : String
  principalRef : String
  homeScope : Option String
  maxSensitivity : Sensitivity
  enabled : Bool
  deriving DecidableEq, Repr

structure PrincipalScope where
  principalScopeId : Nat
  ownerSchema : String
  principalId : Nat
  scope : String
  accessLevel : AccessLevel
  revokedAt : Option Int
  deriving DecidableEq, Repr

/-- The two tables. -/
structure Principals where
  principals : Serial Principal Principal.principalId
  scopes : Serial PrincipalScope PrincipalScope.principalScopeId
  /-- `UNIQUE (owner_schema, principal_ref)` -/
  unique : (principals.rows.map fun p => (p.ownerSchema, p.principalRef)).Nodup

def Principals.principal? (db : Principals) (schema ref : String) : Option Principal :=
  db.principals.rows.find? fun p => (p.ownerSchema, p.principalRef) == (schema, ref)

def Principals.liveGrants (db : Principals) (schema : String) (p : Principal) :
    List PrincipalScope :=
  db.scopes.rows.filter fun g =>
    g.ownerSchema == schema && g.principalId == p.principalId && g.revokedAt.isNone

/-! ## Sessions -/

structure SchemaRights where
  usage : Bool
  create : Bool
  deriving DecidableEq, Repr

/-- A session. `rights` is `none` for a schema that does not exist. -/
structure Session where
  principalRef : Option String
  principalScopes : Option String
  principalReadonly : Option String
  user : String
  rights : String → Option SchemaRights

section

variable (ses : Session)

def Session.currentPrincipalRef : Option String := nonBlank ses.principalRef

def Session.usable (schema : String) : Bool := (ses.rights schema).any (·.usage)

/-- `principal_readonly` is set. -/
def Session.readonly : Bool :=
  ["on", "true", "1", "yes"].contains (lower (ses.principalReadonly.getD ""))

inductive PrincipalError where
  | badLevel
  | mayNot (what ref level scope : String)
  | schemaRequired
  | systemSchema (schema : String)
  | noSchema (schema : String)
  | lacksCreate (user schema : String)
  deriving DecidableEq, Repr

/-- The text of an error. -/
def PrincipalError.message : PrincipalError → String
  | .badLevel => "principal scopes: level must be read or write"
  | .mayNot what ref level scope =>
    what ++ ": principal " ++ ref ++ " may not " ++ level ++ " scope " ++ scope
  | .schemaRequired => "enable_memory_schema: schema is required"
  | .systemSchema schema => "enable_memory_schema: refusing system schema " ++ schema
  | .noSchema schema => "enable_memory_schema: schema " ++ schema ++ " does not exist"
  | .lacksCreate user schema =>
    "enable_memory_schema: " ++ user ++ " lacks CREATE on schema " ++ schema

/-- A schema `_memory_schema_assert_manageable` refuses. In `LIKE 'pg_%'` the `_` is any
character. -/
def isSystemSchema (schema : String) : Bool :=
  ["pg_catalog", "information_schema", "maludb_core", "mc2db"].contains schema ||
    match schema.toList with
    | 'p' :: 'g' :: _ :: _ => true
    | _ => false

def memorySchemaAssertManageable (schema : Option String) : Except PrincipalError Unit :=
  match schema with
  | none => .error .schemaRequired
  | some schema =>
    if isSystemSchema schema then .error (.systemSchema schema)
    else
      match ses.rights schema with
      | none => .error (.noSchema schema)
      | some rights => if rights.create then .ok () else .error (.lacksCreate ses.user schema)

end

/-! ## Scopes and ceiling -/

section

variable (elements : String → Option (List (Option String))) (db : Principals) (ses : Session)

def grantedScopes (schema : String) (p : Principal) (level : AccessLevel) : List String :=
  (((db.liveGrants schema p).filter fun g =>
    level == .read || g.accessLevel == .write).map PrincipalScope.scope).dedup

def withHome (home : Option String) (scopes : List String) : List String :=
  match home with
  | none => scopes
  | some home => if home ∈ scopes then scopes else scopes ++ [home]

def narrow (scopes : List String) : List String :=
  match nonBlank ses.principalScopes with
  | none => scopes
  | some raw =>
    match elements raw with
    | none => []
    | some session => scopes.filter fun s => session.contains (some s)

/-- The scopes of the principal `ref`. -/
def scopesOf (schema : Option String) (ref : String) (level : AccessLevel) : List String :=
  match schema.filter ses.usable with
  | none => []
  | some schema =>
    match db.principal? schema ref with
    | none => []
    | some p =>
      if !p.enabled then []
      else if level = .write ∧ ses.readonly then []
      else narrow elements ses (withHome p.homeScope (grantedScopes db schema p level))

/-- `_principal_scopes_for_schema`: `none` is NULL, no restriction. -/
def principalScopesForSchema (schema level : Option String) :
    Except PrincipalError (Option (List String)) :=
  match ses.currentPrincipalRef with
  | none => .ok none
  | some ref =>
    match AccessLevel.ofName? (lower (level.getD "read")) with
    | none => .error .badLevel
    | some level => .ok (some (scopesOf elements db ses schema ref level))

/-- `_principal_assert_scope`. -/
def principalAssertScope (schema scope : Option String) (level what : String) :
    Except PrincipalError Unit :=
  match principalScopesForSchema elements db ses schema (some level) with
  | .error e => .error e
  | .ok none => .ok ()
  | .ok (some scopes) =>
    if scope.getD "default" ∈ scopes then .ok ()
    else
      .error (.mayNot what (ses.currentPrincipalRef.getD "<NULL>") level (scope.getD "default"))

end

end MaluDb.Access
