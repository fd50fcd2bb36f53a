import MaluDb.Lib.Block
import MaluDb.Prompt.Bytea

/-!
# The dispatcher of the REST service

`Dispatcher.dispatch`, `_call_handler` and `_record_and_return` of `maludb_restd/dispatcher.py`, and
`Pool.connection` of `db.py`.

* Only errors of psycopg are caught around the handler and around the writing of an invocation.
* `connection` is one transaction. A COMMIT whose reply is lost raises, whether or not it took
  effect.
* A `Service` says what the database and the interpreter do, for every statement of a request:
  a request opens at most five connections, the last two of them to write invocations.
* `handled` counts the handler calls of committed transactions. It is not a column.
* `json.dumps` raises at a value of a class that it has no encoding for, such as a date.
* Left out: the built-in routes, which have no handler and write no invocation.
-/

namespace MaluDb.Restd

open MaluDb.Lib
open MaluDb.Prompt (Text utf8)

/-! ## Values and exceptions -/

/-- A value of Python, as psycopg and `json.loads` make them. -/
inductive PyValue where
  | none
  | bool (b : Bool)
  | int (n : ℤ)
  | float (repr : Text)
  | str (t : Text)
  | bytes (b : List UInt8)
  | list (l : List PyValue)
  | dict (l : List (Text × PyValue))
  /-- A value of any other class, by the name of the class. -/
  | object (type : Text)

inductive PyError where
  /-- `psycopg.Error`, with `e.diag.sqlstate` and `str(e)`. -/
  | db (sqlstate : Option Text) (message : Text)
  | other (message : Text)

/-- `str(e)`. -/
def PyError.message : PyError → Text
  | .db _ message | .other message => message

def PyError.isDb : PyError → Bool
  | .db _ _ => true
  | .other _ => false

inductive LoadsError where
  | jsonDecodeError (message : Text)
  | other (message : Text)

/-- What the interpreter does with values. -/
structure Python where
  /-- A string literal of `json.dumps`. -/
  quote : Text → Text
  loads : List UInt8 → Except LoadsError PyValue
  str : PyValue → Text
  int : PyValue → Except Text ℤ
  bool : PyValue → Bool
  /-- `bytes.fromhex`. -/
  fromhex : Text → Except Text (List UInt8)
  /-- `bytes(value)`. -/
  bytes : PyValue → Except Text (List UInt8)
  isspace : Char → Bool
  sha256 : List UInt8 → List UInt8

/-! ## `json.dumps` -/

def notSerializable (type : Text) : PyError :=
  .other ("Object of type ".toList ++ type ++ " is not JSON serializable".toList)

def intText : ℤ → Text
  | .ofNat n => (toString n).toList
  | .negSucc n => '-' :: (toString (n + 1)).toList

mutual

/-- `json.dumps`. -/
def dumps (P : Python) : PyValue → Except PyError Text
  | .none => .ok "null".toList
  | .bool b => .ok (if b then "true" else "false").toList
  | .int n => .ok (intText n)
  | .float repr => .ok repr
  | .str t => .ok (P.quote t)
  | .bytes _ => .error (notSerializable "bytes".toList)
  | .list l => do
    let parts ← dumpsItems P l
    return '[' :: (List.intercalate ", ".toList parts ++ [']'])
  | .dict l => do
    let parts ← dumpsMembers P l
    return '\x7b' :: (List.intercalate ", ".toList parts ++ ['\x7d'])
  | .object type => .error (notSerializable type)

def dumpsItems (P : Python) : List PyValue → Except PyError (List Text)
  | [] => .ok []
  | v :: l => do
    let t ← dumps P v
    let ts ← dumpsItems P l
    return t :: ts

def dumpsMembers (P : Python) : List (Text × PyValue) → Except PyError (List Text)
  | [] => .ok []
  | (k, v) :: l => do
    let t ← dumps P v
    let ts ← dumpsMembers P l
    return (P.quote k ++ ": ".toList ++ t) :: ts

end

/-! ## Requests and results -/

structure Request where
  method : Text
  path : Text
  body : List UInt8
  bearerToken : Option Text
  sourceIp : Option Text

/-- The types of arguments that `_coerce_arg` knows. -/
inductive ArgType where
  | text
  | name
  | bigint
  | integer
  | boolean
  | numeric
  | jsonb
  | timestamptz
  | textArray
  | bigintArray
  | byteaHex
  | other

/-- An element of `arg_schema`; `name` is `none` if it has no such key. -/
structure ArgSpec where
  name : Option Text
  required : Bool := false
  type : ArgType := .text

/-- `EndpointRow`. -/
structure EndpointRow where
  endpointId : ℤ
  handlerFunction : Text
  authRequired : Bool
  requiredScopes : List Text
  timeoutMs : ℤ
  enabled : Bool
  argSchema : List ArgSpec

/-- `AuthContext`. -/
structure AuthContext where
  tokenId : Option ℤ
  accountId : Option ℤ
  scopes : List Text

/-- `DispatchResult`. -/
structure DispatchResult where
  statusCode : ℕ
  body : PyValue
  errorCode : Option Text := none
  errorMessage : Option Text := none

/-- `200 <= result.status_code < 400`. -/
def DispatchResult.isSuccess (r : DispatchResult) : Bool :=
  200 ≤ r.statusCode && r.statusCode < 400

/-- A row of `malu$rest_invocation`. -/
structure Invocation where
  endpointId : Option ℤ
  accountId : Option ℤ
  tokenId : Option ℤ
  method : Text
  path : Text
  sourceIp : Option Text
  requestHash : List UInt8
  responseHash : List UInt8
  statusCode : ℕ
  latencyMs : ℕ
  success : Bool
  errorCode : Option Text
  errorMessage : Option Text

/-- A result set: the names of its columns and its rows. -/
structure Rows where
  columns : Option (List Text)
  rows : List (List PyValue)

/-! ## Connections -/

/-- What becomes of a COMMIT: it may raise, and its reply may get lost before or after it took
effect. -/
inductive Commit where
  | done
  | refused (sqlstate : Option Text) (message : Text)
  | lost (message : Text) (tookEffect : Bool)

/-- What happens to the statements that `Pool.connection` makes itself. -/
structure Scope where
  /-- The error of `psycopg.connect`. -/
  connect : Option Text
  /-- The error of `SET search_path`. -/
  searchPath : Option (Option Text × Text)
  commit : Commit
  /-- The error of `conn.rollback()`, which takes the place of the one that led there. -/
  rollback : Option Text

/-- What `conn.rollback(); raise` raises. -/
def Scope.reraise (c : Scope) (e : PyError) : PyError :=
  match c.rollback with
  | some message => .db none message
  | none => e

/-- The end of a body that did not raise. -/
def Scope.finish {σ α : Type} (c : Scope) (s s' : σ) (a : α) : Ended σ PyError α :=
  match c.commit with
  | .done => .returned s' a
  | .refused sqlstate message => .raised s (c.reraise (.db sqlstate message))
  | .lost message tookEffect =>
    .raised (if tookEffect then s' else s) (c.reraise (.db none message))

/-- `Pool.connection` around a body. -/
def connection {σ α : Type} (c : Scope) (body : σ → Except PyError (σ × α)) (s : σ) :
    Ended σ PyError α :=
  match c.connect with
  | some message => .raised s (.db none message)
  | none =>
    match c.searchPath with
    | some (sqlstate, message) => .raised s (c.reraise (.db sqlstate message))
    | none =>
      match body s with
      | .error e => .raised s (c.reraise e)
      | .ok (s', a) => c.finish s s' a

/-! ## The service -/

/-- What a request works on. -/
structure Store (δ : Type) where
  data : δ
  handled : ℕ
  invocations : List Invocation

/-- The writing of one invocation. -/
structure Logging where
  scope : Scope
  /-- The exception of the statement. -/
  insert : Invocation → Option PyError
  latencyMs : ℕ

/-- What the interpreter and the database do during a request. -/
structure Service (δ : Type) where
  python : Python
  find : Scope
  /-- The query of `_find_endpoint`, with the reading of its row. -/
  endpoint : Text → Text → δ → Except PyError (Option EndpointRow)
  verify : Scope
  /-- The query of `_verify_token`. -/
  token : Text → Option Text → δ → Except PyError (δ × Option AuthContext)
  handler : Scope
  /-- The statements of `set_account_guc` and `SET LOCAL statement_timeout`. -/
  settings : Option ℤ → ℤ → Option PyError
  /-- The call of the handler, with the fetching of its rows. -/
  call : Text → List PyValue → δ → Except PyError (δ × Rows)
  /-- The invocation of the result, and the one of the outer handler. -/
  first : Logging
  second : Logging

variable {δ : Type} (V : Service δ)

/-! ## Calling the handler -/

section

variable (req : Request) (P : Python) (log : Logging) (i : Invocation)

def coerceArg (value : PyValue) (type : ArgType) : Except PyError PyValue :=
  match value, type with
  | .none, _ => .ok .none
  | .str t, .text | .str t, .name => .ok (.str t)
  | v, .text | v, .name => .ok (.str (P.str v))
  | v, .bigint | v, .integer => ((P.int v).map .int).mapError .other
  | v, .boolean => .ok (.bool (P.bool v))
  | v, .numeric => .ok v
  | .str t, .jsonb => .ok (.str t)
  | v, .jsonb => (dumps P v).map .str
  | v, .timestamptz => .ok v
  | .list l, .textArray => .ok (.list (l.map fun v => .str (P.str v)))
  | _, .textArray => .error (.other "text[] expects a JSON array".toList)
  | .list l, .bigintArray => (l.mapM fun v => ((P.int v).map .int).mapError .other).map .list
  | _, .bigintArray => .error (.other "bigint[] expects a JSON array".toList)
  | .str t, .byteaHex => ((P.fromhex t).map .bytes).mapError .other
  | v, .byteaHex => ((P.bytes v).map .bytes).mapError .other
  | v, .other => .ok v

section

variable (endpoint : EndpointRow) (body : List UInt8) (auth : Option AuthContext)

def bodyObject : Except PyError (List (Text × PyValue)) :=
  if endpoint.argSchema = [] ∨ body = [] then .ok []
  else
    match P.loads body with
    | .ok (.dict members) => .ok members
    | .ok _ => .ok []
    | .error (.jsonDecodeError message) =>
      .error (.other ("request body is not valid JSON: ".toList ++ message))
    | .error (.other message) => .error (.other message)

/-- The name and the value of one argument. -/
def argument (P : Python) (members : List (Text × PyValue)) (spec : ArgSpec) :
    Except PyError (Text × PyValue) :=
  match spec.name with
  | none => .error (.other "'name'".toList)
  | some name =>
    let wireName := if name.take 2 = "p_".toList then name.drop 2 else name
    match members.lookup wireName with
    | some value => (coerceArg P value spec.type).map fun v => (name, v)
    | none =>
      if spec.required then .error (.other ("missing required argument: ".toList ++ wireName))
      else .ok (name, .none)

def strip (t : Text) : Text :=
  ((t.dropWhile P.isspace).reverse.dropWhile P.isspace).reverse

def sqlText (names : List Text) : Text :=
  "SELECT ".toList ++ strip P (endpoint.handlerFunction.takeWhile (· ≠ '(')) ++ '(' ::
    (List.intercalate ", ".toList (names.map (· ++ " := %s".toList)) ++ [')'])

/-- The value of a result set. -/
def Rows.value (r : Rows) : PyValue :=
  match r.rows, r.columns with
  | [], _ => .none
  | [[v]], _ => v
  | rows, some columns =>
    if columns = [] then .list (rows.map .list)
    else .list (rows.map fun row => .dict (columns.zip row))
  | rows, none => .list (rows.map .list)

def handlerBody (sql : Text) (params : List PyValue) (s : Store δ) :
    Except PyError (Store δ × PyValue) :=
  match V.settings (auth.bind AuthContext.accountId) endpoint.timeoutMs with
  | some e => .error e
  | none => (V.call sql params s.data).map fun (data, rows) =>
    ({ s with data, handled := s.handled + 1 }, rows.value)

def callOf :
    Except PyError (Text × List PyValue) := do
  let members ← bodyObject V.python endpoint body
  let arguments ← endpoint.argSchema.mapM (argument V.python members)
  return (sqlText V.python endpoint (arguments.map Prod.fst), arguments.map Prod.snd)

def callHandler (s : Store δ) : Ended (Store δ) PyError PyValue :=
  match callOf V endpoint body with
  | .error e => .raised s e
  | .ok (sql, params) => connection V.handler (handlerBody V endpoint auth sql params) s

end

/-! ## Recording -/

def bodyBytes : PyValue → Except PyError (List UInt8)
  | .none => .ok []
  | v => (dumps P v).map utf8

def invocationOf (req : Request) (endpoint : Option EndpointRow) (auth : Option AuthContext)
    (result : DispatchResult) (bytes : List UInt8) : Invocation where
  endpointId := endpoint.map EndpointRow.endpointId
  accountId := auth.bind AuthContext.accountId
  tokenId := auth.bind AuthContext.tokenId
  method := req.method
  path := req.path
  sourceIp := req.sourceIp
  requestHash := P.sha256 req.body
  responseHash := P.sha256 bytes
  statusCode := result.statusCode
  latencyMs := log.latencyMs
  success := result.isSuccess
  errorCode := result.errorCode
  errorMessage := result.errorMessage

def restLogInvocation (s : Store δ) : Except PyError (Store δ × Unit) :=
  match log.insert i with
  | some e => .error e
  | none => .ok ({ s with invocations := s.invocations ++ [i] }, ())

def writeInvocation (s : Store δ) : Ended (Store δ) PyError Unit :=
  connection log.scope (restLogInvocation log i) s

/-- `except psycopg.Error: pass`, and the return. -/
def passDbError (result : DispatchResult) :
    Ended (Store δ) PyError Unit → Ended (Store δ) PyError DispatchResult
  | .returned s _ => .returned s result
  | .raised s (.db _ _) => .returned s result
  | .raised s (.other message) => .raised s (.other message)

def recordAndReturn (req : Request) (endpoint : Option EndpointRow) (auth : Option AuthContext)
    (result : DispatchResult) (s : Store δ) : Ended (Store δ) PyError DispatchResult :=
  match bodyBytes P result.body with
  | .error e => .raised s e
  | .ok bytes => passDbError result
    (writeInvocation log (invocationOf P log req endpoint auth result bytes) s)

/-! ## Dispatching -/

def errorBody (error : String) (more : List (Text × PyValue)) : PyValue :=
  .dict (("error".toList, .str error.toList) :: more)

def endpointNotFound : DispatchResult where
  statusCode := 404
  body := errorBody "endpoint_not_found"
    [("method".toList, .str req.method), ("path".toList, .str req.path)]
  errorCode := some "ENDPOINT_NOT_FOUND".toList
  errorMessage := some "No registered endpoint matches".toList

def endpointDisabled : DispatchResult where
  statusCode := 503
  body := errorBody "endpoint_disabled" []
  errorCode := some "ENDPOINT_DISABLED".toList
  errorMessage := some "Endpoint is registered but disabled".toList

def missingToken : DispatchResult where
  statusCode := 401
  body := errorBody "missing_token" []
  errorCode := some "AUTH_MISSING_TOKEN".toList
  errorMessage := some "Authorization: Bearer required".toList

def invalidToken : DispatchResult where
  statusCode := 401
  body := errorBody "invalid_token" []
  errorCode := some "AUTH_INVALID_TOKEN".toList
  errorMessage := some "Token unknown, expired, revoked, or CIDR-rejected".toList

def scopeMissing (missing : List Text) : DispatchResult where
  statusCode := 403
  body := errorBody "scope_missing" [("required_scopes".toList, .list (missing.map .str))]
  errorCode := some "AUTH_SCOPE_MISSING".toList
  errorMessage := some
    ("Token missing required scopes: ".toList ++ List.intercalate ",".toList missing)

def handlerError (sqlstate : Option Text) (message : Text) : DispatchResult where
  statusCode := 500
  body := errorBody "handler_error"
    [("sqlstate".toList, (sqlstate.map PyValue.str).getD .none)]
  errorCode := some (match sqlstate with
    | some (c :: code) => "SQL_".toList ++ c :: code
    | _ => "SQL_ERROR".toList)
  errorMessage := some message

def internalError (e : PyError) : DispatchResult where
  statusCode := 500
  body := errorBody "internal" [("detail".toList, .str e.message)]
  errorCode := some "INTERNAL".toList
  errorMessage := some e.message

/-- The local variables of `dispatch` that its outer handler reads, with the store. -/
structure Frame (δ : Type) where
  store : Store δ
  endpoint : Option EndpointRow
  auth : Option AuthContext

/-- What the checks before the handler lead to: a result with what is recorded beside it, or the
call. -/
inductive Checked where
  | refused (result : DispatchResult) (endpoint : Option EndpointRow) (auth : Option AuthContext)
  | admitted (endpoint : EndpointRow) (auth : Option AuthContext)

/-- A call that leaves the local variables alone. -/
def Frame.on {δ α : Type} (f : Frame δ) (r : Ended (Store δ) PyError α) :
    Ended (Frame δ) PyError α :=
  match r with
  | .returned s a => .returned { f with store := s } a
  | .raised s e => .raised { f with store := s } e

def findEndpoint (s : Store δ) : Ended (Store δ) PyError (Option EndpointRow) :=
  connection V.find (fun s => (V.endpoint req.method req.path s.data).map fun row => (s, row)) s

/-- `_verify_token`. -/
def verifyToken (token : Text) (sourceIp : Option Text) (s : Store δ) :
    Ended (Store δ) PyError AuthContext :=
  connection V.verify (fun s => (V.token token sourceIp s.data).map fun (data, row) =>
    ({ s with data }, row.getD ⟨none, none, []⟩)) s

def checkToken (endpoint : EndpointRow) (f : Frame δ) : Ended (Frame δ) PyError Checked :=
  match req.bearerToken with
  | none | some [] => .returned f (.refused missingToken endpoint none)
  | some token =>
    (f.on (verifyToken V token req.sourceIp f.store)).andThen fun auth f =>
      let f := { f with auth := some auth }
      match auth.accountId with
      | none => .returned f (.refused invalidToken endpoint none)
      | some _ =>
        match endpoint.requiredScopes.filter (fun s => !auth.scopes.contains s) with
        | [] => .returned f (.admitted endpoint auth)
        | missing => .returned f (.refused (scopeMissing missing) endpoint auth)

/-- `dispatch` up to the call of the handler. -/
def check (s : Store δ) : Ended (Frame δ) PyError Checked :=
  ((Frame.mk s none none).on (findEndpoint V req s)).andThen fun endpoint f =>
    let f := { f with endpoint }
    match endpoint with
    | none => .returned f (.refused (endpointNotFound req) none none)
    | some endpoint =>
      if endpoint.enabled = false then .returned f (.refused endpointDisabled endpoint none)
      else if endpoint.authRequired then checkToken V req endpoint f
      else .returned f (.admitted endpoint none)

/-- The call of the handler with the inner `try`, and the recording of its result. -/
def respond (checked : Checked) (f : Frame δ) : Ended (Frame δ) PyError DispatchResult :=
  let record := recordAndReturn V.python V.first req
  match checked with
  | .refused result endpoint auth => f.on (record endpoint auth result f.store)
  | .admitted endpoint auth =>
    match callHandler V endpoint req.body auth f.store with
    | .returned s body => f.on (record endpoint auth { statusCode := 200, body } s)
    | .raised s (.db sqlstate message) =>
      f.on (record endpoint auth (handlerError sqlstate message) s)
    | .raised s e => .raised { f with store := s } e

/-- The outer handler of `dispatch`. -/
def exceptAny (r : Ended (Frame δ) PyError DispatchResult) :
    Ended (Store δ) PyError DispatchResult :=
  match r with
  | .returned f result => .returned f.store result
  | .raised f e =>
    recordAndReturn V.python V.second req f.endpoint f.auth (internalError e) f.store

def dispatch (s : Store δ) : Ended (Store δ) PyError DispatchResult :=
  exceptAny V req ((check V req s).andThen (respond V req))

end

end MaluDb.Restd
