import Mathlib.Data.List.DropRight
import Mathlib.Data.List.Sort
import MaluDb.Lib.Block
import MaluDb.Lib.Serial

/-!
# The log drain worker

One pass of `maludb-logsd`, `Worker.iterate_once`, with `log_drain_fetch_batch`,
`log_drain_advance_cursor` and `log_drain_record_run`.

* `Pool.connection` runs the pass in one transaction, which is rolled back when an exception leaves
  the pass. What the sinks have shipped stays shipped, so it is kept apart (`St.delivered`).
* The worker catches a `SinkError` only. A database error is another exception.
* `Env` says what the surroundings do: the directories, the secrets, and for each drain and each
  position in its list of streams how the write or the request ends.
* The tables are those of one tenant and do not change under the pass.
-/

namespace MaluDb.Logsd

open MaluDb.Lib

/-! ## Tables -/

/-- A destination, as `_decode_destination` reads it. A missing or empty text is `none`; `timeoutS`
is what `float` makes of `timeout_s`, or the text of the exception it raises. -/
structure Destination where
  path : Option String
  url : Option String
  timeoutS : Except String Unit

/-- A row of `malu$log_drain`. `destination` is the text of the exception if `_decode_destination`
raises one. -/
structure Drain where
  drainId : ℕ
  kind : String
  destination : Except String Destination
  destinationSecretRef : Option String
  sourceStreams : List String
  enabled : Bool
  batchSize : ℕ
  retired : Bool
  cursor : String → Option Int

/-- A row of `malu$audit_event` or `malu$event`, with the payload that is made of it. -/
structure Record (P : Type) where
  recordId : Int
  payload : P
  deriving DecidableEq

structure DrainRun where
  drainId : ℕ
  batches : ℕ
  bytes : ℕ
  records : ℕ
  errors : ℕ
  lastError : Option String

/-- The tables. -/
structure Db (P : Type) where
  drains : Serial Drain Drain.drainId
  runs : List DrainRun
  auditEvent : List (Record P)
  event : List (Record P)

inductive SqlError where
  | limit
  | notFound (function : String) (drainId : ℕ)
  | unsupported (stream : String)

def SqlError.message : SqlError → String
  | .limit => "log_drain_fetch_batch: limit must be > 0"
  | .notFound function drainId => s!"{function}: drain {drainId} not found"
  | .unsupported stream =>
    s!"log_drain_fetch_batch: stream {stream} not yet supported (audit / realtime_event only in " ++
      "0.61.0)"

section

variable {P : Type}

section

variable (db : Db P) (drainId : ℕ)

section

variable (stream : String) (limit : ℕ)

/-- `COALESCE((cursor_jsonb ->> p_stream)::bigint, 0)` of a drain. -/
def Db.cursor? : Option Int :=
  (db.drains.get? drainId).map fun d => (d.cursor stream).getD 0

def Db.stream? : Option (List (Record P)) :=
  if stream = "audit" then some db.auditEvent
  else if stream = "realtime_event" then some db.event
  else none

/-- `WHERE event_id > v_cursor ORDER BY event_id LIMIT p_limit`. -/
def nextBatch (cursor : Int) (limit : ℕ) (rows : List (Record P)) : List (Record P) :=
  ((rows.filter fun r => decide (cursor < r.recordId)).insertionSort
    fun a b => a.recordId ≤ b.recordId).take limit

def logDrainFetchBatch : Except SqlError (List (Record P)) :=
  if limit = 0 then .error .limit
  else match db.cursor? drainId stream with
    | none => .error (.notFound "log_drain_fetch_batch" drainId)
    | some cursor =>
      match db.stream? stream with
      | none => .error (.unsupported stream)
      | some rows => .ok (nextBatch cursor limit rows)

/-- `SET cursor_jsonb = jsonb_set(cursor_jsonb, ARRAY[p_stream], …)` of a drain. -/
def Db.setCursor (id : Int) : Db P where
  drains := db.drains.update (·.drainId == drainId)
    (fun d => { d with cursor := Function.update d.cursor stream (some id) }) fun _ => rfl
  runs := db.runs
  auditEvent := db.auditEvent
  event := db.event

def logDrainAdvanceCursor (lastId : Int) : Except SqlError (Db P × Int) :=
  match db.cursor? drainId stream with
  | none => .error (.notFound "log_drain_advance_cursor" drainId)
  | some existing =>
    let advanced := max existing lastId
    .ok (db.setCursor drainId stream advanced, advanced)

end

def logDrainRecordRun (run : DrainRun) : Db P := { db with runs := db.runs ++ [run] }

end

end

/-! ## Sinks -/

/-- An exception. -/
inductive Exn where
  | sinkError (text : String)
  | other (text : String)

/-- How a request ends. -/
inductive HttpOutcome where
  | responds (code : ℕ)
  | httpError (code : ℕ) (reason : String)
  | urlError (reason : String)
  | raises (text : String)

/-- The surroundings of a pass. `write` is the exception that opening or writing the file raises, if
any. -/
structure Env (P : Type) where
  isDir : String → Bool
  secretGetInline : String → Except String (Option String)
  write : ℕ → ℕ → Option String
  urlopen : ℕ → ℕ → HttpOutcome
  fileBytes : List P → ℕ
  httpBytes : List P → ℕ

/-- `FileSink` or `HttpSink`. -/
inductive Sink where
  | file (path : String)
  | http (url : String) (headerValue : Option String)

/-- `os.path.dirname`. -/
def dirname (path : String) : String :=
  let head := path.toList.rdropWhile (· ≠ '/')
  if head.all (· = '/') then String.ofList head else String.ofList (head.rdropWhile (· = '/'))

section

variable {P : Type} (env : Env P)

/-- `make_sink`, with the constructors of the two sinks. -/
def makeSink (kind : String) (dest : Destination) (secret : Option String) : Except Exn Sink :=
  if kind = "file" then
    match dest.path with
    | none => .error (.sinkError "file sink requires destination.path")
    | some path =>
      if env.isDir (dirname path) then .ok (.file path)
      else .error (.sinkError
        ("file sink: parent directory does not exist: " ++ dirname path))
  else if kind = "http" then
    match dest.url with
    | none => .error (.sinkError "http sink requires destination.url")
    | some url =>
      match dest.timeoutS with
      | .error text => .error (.other text)
      | .ok () => .ok (.http url secret)
  else if kind = "s3" ∨ kind = "otlp_http" then
    .error (.sinkError (s!"sink kind '{kind}' is not yet implemented " ++
      "(maludb-logsd v0.1.0 ships file + http only)"))
  else .error (.sinkError s!"unknown sink kind: {kind}")

/-- `_resolve_secret`. -/
def resolveSecret : Option String → Except Exn (Option String)
  | none => .ok none
  | some ref =>
    if ref = "" then .ok none
    else match env.secretGetInline ref with
      | .error text => .error (.other text)
      | .ok value => .ok value

def setup (d : Drain) : Except Exn Sink :=
  match d.destination with
  | .error text => .error (.other text)
  | .ok dest =>
    match resolveSecret env d.destinationSecretRef with
    | .error e => .error e
    | .ok secret => makeSink env d.kind dest secret

/-- `ship`: the number of batches and of bytes. -/
def ship (sink : Sink) (drainId position : ℕ) (batch : List P) : Except Exn (ℕ × ℕ) :=
  match sink with
  | .file _ =>
    match env.write drainId position with
    | some text => .error (.other text)
    | none => .ok (1, env.fileBytes batch)
  | .http _ _ =>
    match env.urlopen drainId position with
    | .httpError code reason => .error (.sinkError s!"http sink: HTTP {code} {reason}")
    | .urlError reason => .error (.sinkError s!"http sink: {reason}")
    | .raises text => .error (.other text)
    | .responds code =>
      if 400 ≤ code then .error (.sinkError s!"http sink: HTTP {code}")
      else .ok (1, env.httpBytes batch)

/-! ## The pass -/

structure Delivery (P : Type) where
  drainId : ℕ
  stream : String
  rows : List (Record P)
  deriving DecidableEq

structure St (P : Type) where
  db : Db P
  delivered : List (Delivery P)

/-- `_drain_one_stream`: records, cursor, batches and bytes. -/
def drainOneStream (sink : Sink) (drainId position : ℕ) (stream : String) (batchSize : ℕ)
    (s : St P) : Ended (St P) Exn (ℕ × Int × ℕ × ℕ) :=
  match logDrainFetchBatch s.db drainId stream batchSize with
  | .error e => .raised s (.other e.message)
  | .ok [] => .returned s (0, 0, 0, 0)
  | .ok (r :: rs) =>
    match ship env sink drainId position ((r :: rs).map Record.payload) with
    | .error e => .raised s e
    | .ok (batches, bytes) =>
      let shipped := { s with delivered := s.delivered ++ [⟨drainId, stream, r :: rs⟩] }
      match logDrainAdvanceCursor s.db drainId stream ((r :: rs).getLast (by simp)).recordId with
      | .error e => .raised shipped (.other e.message)
      | .ok (db, advanced) =>
        .returned { shipped with db := db } ((r :: rs).length, advanced, batches, bytes)

/-- The counters of a drain. -/
structure Tally where
  records : ℕ
  bytes : ℕ
  batches : ℕ
  errors : ℕ
  lastError : Option String

def drainStreams (sink : Sink) (drainId batchSize : ℕ) :
    ℕ → List String → Tally → St P → Ended (St P) Exn Tally
  | _, [], t, s => .returned s t
  | position, stream :: streams, t, s =>
    match drainOneStream env sink drainId position stream batchSize s with
    | .returned s' (delivered, _, batched, byteCount) =>
      drainStreams sink drainId batchSize (position + 1) streams
        { t with
          records := t.records + delivered
          bytes := t.bytes + byteCount
          batches := t.batches + batched } s'
    | .raised s' (.sinkError text) =>
      drainStreams sink drainId batchSize (position + 1) streams
        { t with errors := t.errors + 1, lastError := some text } s'
    | .raised s' (.other text) => .raised s' (.other text)

/-- The summary of a pass. -/
structure Summary where
  drains : ℕ
  records : ℕ
  errors : ℕ

/-- `_record_run`. -/
def recordRun (drainId : ℕ) (t : Tally) (s : St P) : St P :=
  { s with db := logDrainRecordRun s.db ⟨drainId, t.batches, t.bytes, t.records, t.errors,
    t.lastError⟩ }

def batchSizeOf (default : ℕ) (d : Drain) : ℕ := if d.batchSize = 0 then default else d.batchSize

def drainOne (default : ℕ) (d : Drain) (sum : Summary) (s : St P) : Ended (St P) Exn Summary :=
  match setup env d with
  | .error (.other text) => .raised s (.other text)
  | .error (.sinkError text) =>
    .returned (recordRun d.drainId ⟨0, 0, 0, 1, some text⟩ s)
      { sum with drains := sum.drains + 1, errors := sum.errors + 1 }
  | .ok sink =>
    (drainStreams env sink d.drainId (batchSizeOf default d) 0 d.sourceStreams ⟨0, 0, 0, 0, none⟩
      s).andThen fun t s' =>
        .returned (if t.records ≠ 0 ∨ t.errors ≠ 0 then recordRun d.drainId t s' else s')
          ⟨sum.drains + 1, sum.records + t.records, sum.errors + t.errors⟩

/-- The loop over the drains. -/
def drainAll (default : ℕ) : List Drain → Summary → St P → Ended (St P) Exn Summary
  | [], sum, s => .returned s sum
  | d :: ds, sum, s => (drainOne env default d sum s).andThen (drainAll default ds)

/-- The drains of a pass: `WHERE enabled = true AND retired_at IS NULL ORDER BY drain_id`. -/
def enabledDrains (db : Db P) : List Drain :=
  (db.drains.rows.filter fun d => d.enabled && !d.retired).insertionSort
    fun a b => a.drainId ≤ b.drainId

structure Pass (P : Type) where
  db : Db P
  delivered : List (Delivery P)
  result : Except Exn Summary

/-- `iterate_once`, in the transaction of `Pool.connection`. -/
def iterateOnce (default : ℕ) (db : Db P) : Pass P :=
  match drainAll env default (enabledDrains db) ⟨0, 0, 0⟩ ⟨db, []⟩ with
  | .returned s sum => ⟨s.db, s.delivered, .ok sum⟩
  | .raised s e => ⟨db, s.delivered, .error e⟩

end

end MaluDb.Logsd
