import Mathlib.Data.List.DropRight
import MaluDb.Lib.Backend
import MaluDb.Mc2dbd.Template

/-!
# The dispatcher of SQL functions

`dispatch_sql_function` of `mc2dbd/src/dispatch.c`: BEGIN, `_begin_request`, the function,
`_end_request`, COMMIT. The result is composed of what `_end_request` returns.

* The server side of the connection is a `Backend` in any state. The statement followed is the call
  of the function. A `Server` says what happens to each statement.
* `json_loads` and `json_dumps` are parameters. Texts are ASCII, so that `json_string` takes each of
  them, and memory does not run out.
-/

namespace MaluDb.Mc2dbd

open Lib Backend

variable {R : Type}

/-! ## JSON -/

/-- `json_object_get`. -/
def Json.get (key : String) : Json R → Option (Json R)
  | .object members => members.lookup key.toList
  | _ => none

/-- `json_string_value`. -/
def Json.stringValue : Json R → Option (List Char)
  | .string text => some text
  | _ => none

/-- `json_is_array`. -/
def Json.isArray : Json R → Bool
  | .array _ => true
  | _ => false

/-- `json_is_true`. -/
def Json.isTrue : Json R → Bool
  | .boolean b => b
  | _ => false

/-- `json_string_value(json_object_get(o, key))`. -/
def Json.getString (key : String) (o : Json R) : Option (List Char) :=
  (o.get key).bind Json.stringValue

/-! ## Results of a tool -/

/-- The codes `MC2DB_ERR_*` that are used, and one that a child reports. -/
inductive ErrorCode where
  | internal
  | toolExecution
  | toolNotFound
  | toolDisabled
  | upstream
  | reported (code : List Char)
  deriving DecidableEq, Repr

/-- `mc2dbd_tool_result`; the default is what `mc2dbd_tool_result_init` leaves. -/
structure ToolResult (R : Type) where
  isError : Bool := false
  errorCode : Option ErrorCode := none
  errorMessage : Option (List Char) := none
  content : Option (Json R) := none
  structured : Option (Json R) := none

def textContent (text : List Char) : Json R :=
  .array [.object [("type".toList, .string "text".toList), ("text".toList, .string text)]]

/-- `set_error`. -/
def setError (code : ErrorCode) (msg : List Char) : ToolResult R :=
  { isError := true, errorCode := code, errorMessage := msg, content := some (textContent msg) }

@[simp] theorem setError_isError (code : ErrorCode) (msg : List Char) :
    (setError code msg : ToolResult R).isError = true := rfl

def reportedMessage (payload : Json R) : List Char :=
  (((payload.get "structuredContent").bind (·.get "error")).bind (·.getString "message")).getD
    "tool reported error".toList

def composePayload (payload : Json R) : ToolResult R :=
  let content := (payload.get "content").filter Json.isArray
  if (payload.get "isError").any Json.isTrue then
    let out := setError .toolExecution (reportedMessage payload)
    { out with content := content.or out.content }
  else { content, structured := payload.get "structuredContent" }

def compose (captured : Option (Json R)) : ToolResult R :=
  match captured.bind (·.get "payload"), captured.bind (·.get "text_blocks") with
  | some (.object members), _ => composePayload (.object members)
  | _, some (.array (text :: texts)) => { content := some (.array (text :: texts)) }
  | _, _ => { content := some (textContent "ok".toList) }

/-! ## The statements -/

/-- A call of a tool. -/
structure Request (R : Type) where
  callId : List Char
  toolMeta : Json R
  arguments : Option (Json R)
  requestUser : Option (List Char)

/-- The parameters of a query, `none` for NULL. -/
abbrev Params := List (Option (List Char))

/-- What happens to a query, and the text of `PQresultErrorMessage`. -/
structure Reply where
  fate : Fate
  message : List Char

/-- The columns of `_end_request` that are read. -/
structure EndRow where
  payload : Option (List Char)
  textBlocks : Option (List Char)
  errorCode : Option (List Char)
  errorMsg : Option (List Char)

structure Server where
  begin : Fate
  beginRequest : Params → Reply
  call : List Char → Params → Reply
  endRequest : Fate
  /-- The row of `_end_request`, if it returns one. -/
  row : Option EndRow
  commit : Fate
  rollback : Fate

def errorText (text : List Char) : List Char :=
  (text.take 511).rdropWhile fun c => c = '\n' || c = '\r'

/-- `copy_err`; `dispatch_sql_function` has its own copy of it. -/
def copyErr (fallback : String) (message : List Char) : List Char :=
  errorText (if message = [] then fallback.toList else message)

def funcName (funcSig : List Char) : List Char :=
  ((funcSig.takeWhile (· ≠ '(')).rdropWhile fun c => c = ' ' || c = '\t').take 255

/-- The text of the call. -/
def callBuf (funcSig : List Char) : List Char :=
  ("SELECT ".toList ++ funcName funcSig ++ "($1::jsonb, $2::jsonb)".toList).take 1023

namespace Request

variable (req : Request R)

def funcSig : Option (List Char) := req.toolMeta.getString "function_signature"

def beginParams : Params := [some req.callId, req.toolMeta.getString "tool_name"]

def context : Json R :=
  .object [("call_id".toList, .string req.callId),
    ("request_user".toList, .string (req.requestUser.getD "anonymous".toList))]

def callParams (dumps : Json R → Option (List Char)) : Params :=
  [dumps (req.arguments.getD (.object [])), dumps req.context]

end Request

/-- The object `db_end_request` makes of a row. -/
def captureRow (loads : List Char → Option (Json R)) (row : EndRow) : Json R :=
  let member (key : String) (val : Option (Json R)) : Option (Member R) :=
    val.map fun val => (key.toList, val)
  .object ([member "payload" (row.payload.bind loads),
    member "text_blocks" (row.textBlocks.bind loads),
    member "error_code" (row.errorCode.map .string),
    member "error_msg" (row.errorMsg.map .string)].filterMap id)

/-- `db_end_request`: NULL on a failure, the null value if there is no row. -/
def dbEndRequest (loads : List Char → Option (Json R)) (server : Server) (conn : Backend) :
    Option (Json R) × Backend :=
  match conn.exec (.query false) server.endRequest with
  | (conn, false) => (none, conn)
  | (conn, true) => (some ((server.row.map (captureRow loads)).getD .null), conn)

variable (dumps : Json R → Option (List Char)) (loads : List Char → Option (Json R))

/-- `dispatch_sql_function`, and what it leaves of the connection. -/
def dispatchSqlFunction (server : Server) (req : Request R) (conn : Backend) :
    ToolResult R × Backend :=
  match req.funcSig with
  | none => (setError .internal "sql_function tool has no function_signature".toList, conn)
  | some funcSig =>
    -- the status of BEGIN is not looked at
    let conn := (conn.exec .begin server.begin).1
    let began := server.beginRequest req.beginParams
    match conn.exec (.query false) began.fate with
    | (conn, false) =>
      let errBuf := copyErr "_begin_request failed" began.message
      (setError .internal (if errBuf = [] then "begin_request failed".toList else errBuf),
        (conn.exec .rollback server.rollback).1)
    | (conn, true) =>
      let called := server.call (callBuf funcSig) (req.callParams dumps)
      match conn.exec (.query true) called.fate with
      | (conn, false) =>
        (setError .toolExecution (copyErr "function execution failed" called.message),
          (conn.exec .rollback server.rollback).1)
      | (conn, true) =>
        let ended := dbEndRequest loads server conn
        match ended.2.exec .commit server.commit with
        | (conn, false) => (setError .internal "COMMIT failed".toList, conn)
        | (conn, true) => (compose ended.1, conn)

/-! ## What a success says -/

variable {dumps loads} {server : Server} {req : Request R} {conn : Backend}

theorem dbEndRequest_backend :
    (dbEndRequest loads server conn).2 = (conn.exec (.query false) server.endRequest).1 := by
  unfold dbEndRequest
  split <;> simp_all

/-- The statements of a success, with the backend before and after the function and at the end. -/
structure Ran (dumps : Json R → Option (List Char)) (loads : List Char → Option (Json R))
    (server : Server) (req : Request R) (conn : Backend) (funcSig : List Char)
    (before after final : Backend) : Prop where
  signature : req.funcSig = some funcSig
  began : (conn.exec .begin server.begin).1.exec (.query false)
    (server.beginRequest req.beginParams).fate = (before, true)
  called : before.exec (.query true) (server.call (callBuf funcSig) (req.callParams dumps)).fate =
    (after, true)
  committed : (dbEndRequest loads server after).2.exec .commit server.commit = (final, true)

variable {funcSig : List Char} {before after final : Backend}

theorem success_run (h : (dispatchSqlFunction dumps loads server req conn).1.isError = false) :
    ∃ funcSig before after, Ran dumps loads server req conn funcSig before after
        (dispatchSqlFunction dumps loads server req conn).2 := by
  simp only [dispatchSqlFunction] at h ⊢
  rcases hsig : req.funcSig with _ | funcSig
  · simp only [hsig, setError_isError] at h
    cases h
  rcases hbegan : (conn.exec .begin server.begin).1.exec (.query false)
    (server.beginRequest req.beginParams).fate with ⟨before, _ | _⟩
  · simp only [hsig, hbegan, setError_isError] at h
    cases h
  rcases hcalled : before.exec (.query true)
    (server.call (callBuf funcSig) (req.callParams dumps)).fate with ⟨after, _ | _⟩
  · simp only [hsig, hbegan, hcalled, setError_isError] at h
    cases h
  rcases hcommitted : (dbEndRequest loads server after).2.exec .commit server.commit
    with ⟨final, _ | _⟩
  · simp only [hsig, hbegan, hcalled, hcommitted, setError_isError] at h
    cases h
  · simp only [hcalled, hcommitted]
    exact ⟨funcSig, before, after, hsig, hbegan, hcalled, hcommitted⟩

theorem Ran.result (h : Ran dumps loads server req conn funcSig before after final) :
    dispatchSqlFunction dumps loads server req conn =
      (compose (dbEndRequest loads server after).1, final) := by
  obtain ⟨hsig, hbegan, hcalled, hcommitted⟩ := h
  simp only [dispatchSqlFunction, hsig, hbegan, hcalled, hcommitted]

theorem Ran.called_cases (h : Ran dumps loads server req conn funcSig before after final) :
    after.connected = true ∧ (after.tx = .idle ∧ after.work = .committed ∨
      after.tx = .active ∧ after.work = .pending ∧ conn.opens server.begin = true) := by
  obtain ⟨hc, -, hbegan⟩ := exec_query_ok h.began
  obtain ⟨hc', -, hcalled⟩ := exec_query_ok h.called
  rcases hcalled with ⟨htx, rfl⟩ | ⟨htx, rfl⟩
  · exact ⟨hc', .inl ⟨htx, rfl⟩⟩
  refine ⟨hc', .inr ⟨htx, rfl, (exec_begin hc).mp ?_⟩⟩
  -- `_begin_request` does not change the transaction
  rcases hbegan with ⟨hidle, rfl⟩ | ⟨hactive, -⟩
  · rw [← htx]
  · exact hactive

/-! ## When `_end_request` raises -/

/-- `_end_request` raises in the transaction that ran the function, and COMMIT is answered. -/
structure EndRaises (dumps : Json R → Option (List Char)) (server : Server) (req : Request R)
    (conn : Backend) (funcSig : List Char) : Prop where
  signature : req.funcSig = some funcSig
  opened : conn.opens server.begin = true
  began : (server.beginRequest req.beginParams).fate = .completes
  called : (server.call (callBuf funcSig) (req.callParams dumps)).fate = .completes
  raised : server.endRequest = .raises
  replied : server.commit.replied = true

theorem EndRaises.result (loads : List Char → Option (Json R))
    (h : EndRaises dumps server req conn funcSig) :
    (dispatchSqlFunction dumps loads server req conn).1 = compose none ∧
      (dispatchSqlFunction dumps loads server req conn).2.work = .rolledBack := by
  have hc := connected_of_opens h.opened
  have htx := (exec_begin hc).mpr h.opened
  set opened := (conn.exec .begin server.begin).1
  have hraised : dbEndRequest loads server { opened with work := .pending } =
      (none, { opened with tx := .aborted, work := .pending }) := by
    simp [dbEndRequest, h.raised, exec, serve, hc, htx]
  have hran : Ran dumps loads server req conn funcSig opened { opened with work := .pending }
      { opened with tx := .idle, work := .rolledBack } := by
    refine ⟨h.signature, ?_, ?_, ?_⟩
    · rw [h.began]
      exact exec_query_completes hc htx
    · rw [h.called]
      exact exec_query_completes hc htx
    · rw [hraised]
      exact exec_commit_aborted hc rfl h.replied
  rw [hran.result, hraised]
  exact ⟨rfl, rfl⟩

theorem Ran.committed_or_endRaises
    (h : Ran dumps loads server req conn funcSig before after final) :
    final.work = .committed ∨ EndRaises dumps server req conn funcSig := by
  obtain ⟨-, hbegan, -⟩ := exec_query_ok h.began
  obtain ⟨-, hcalled, -⟩ := exec_query_ok h.called
  have hcommit := h.committed
  rw [dbEndRequest_backend] at hcommit
  obtain ⟨hc', hreplied, hcases⟩ := exec_commit_ok hcommit
  obtain ⟨hc, ⟨hidle, hwork⟩ | ⟨hactive, hwork, hopened⟩⟩ := h.called_cases
  · left
    rw [exec_query_same hc (.inl hidle) hc', hidle] at hcases
    obtain ⟨-, rfl⟩ | ⟨⟨⟩, -⟩ | ⟨⟨⟩, -⟩ := hcases
    exact hwork
  by_cases hraised : server.endRequest = .raises
  · exact .inr ⟨h.signature, hopened, hbegan, hcalled, hraised, hreplied⟩
  left
  rw [exec_query_same hc (.inr ⟨hactive, hraised⟩) hc', hactive, hwork] at hcases
  obtain ⟨⟨⟩, -⟩ | ⟨-, hfinal⟩ | ⟨⟨⟩, -⟩ := hcases
  exact hfinal

/-- **A success has the work of the function committed, for every outcome of every statement and
every state of the connection, exactly if `_end_request` does not raise in the transaction.** -/
theorem dispatchSqlFunction_success_iff :
    ((dispatchSqlFunction dumps loads server req conn).1.isError = false →
      (dispatchSqlFunction dumps loads server req conn).2.work = .committed) ↔
    ¬ ∃ funcSig, EndRaises dumps server req conn funcSig := by
  constructor
  · rintro h ⟨funcSig, hend⟩
    obtain ⟨hresult, hwork⟩ := hend.result loads
    have hcommitted := h (by rw [hresult]; rfl)
    rw [hwork] at hcommitted
    cases hcommitted
  · intro h hok
    obtain ⟨funcSig, before, after, hran⟩ := success_run hok
    exact hran.committed_or_endRaises.resolve_right fun hend => h ⟨funcSig, hend⟩

/-- A tool whose `_end_request` raises, on a connection without a fault. -/
def endRaisesServer : Server :=
  { begin := .completes
    beginRequest := fun _ => ⟨.completes, []⟩
    call := fun _ _ => ⟨.completes, []⟩
    endRequest := .raises
    row := none
    commit := .completes
    rollback := .completes }

/-- **A lost success.** The function has run, `_end_request` raises, and the client reads `ok` while
the work of the function is rolled back. -/
theorem dispatchSqlFunction_loses_work :
    let req : Request Unit :=
      ⟨"c".toList, .object [("function_signature".toList, .string "f(jsonb, jsonb)".toList)], none,
        none⟩
    let out := dispatchSqlFunction (fun _ => none) (fun _ => none) endRaisesServer req
      ⟨true, .idle, .absent⟩
    out.1 = { content := some (textContent "ok".toList) } ∧ out.1.isError = false ∧
      out.2 = ⟨true, .idle, .rolledBack⟩ := by
  exact ⟨rfl, rfl, rfl⟩

end MaluDb.Mc2dbd
