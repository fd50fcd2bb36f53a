import MaluDb.Cron.Next
import MaluDb.Lib.Block
import MaluDb.Lib.Serial
import MaluDb.Queue.Model

/-!
# The scheduler

`_schedule_execute_action`, `schedule_run_now` and `schedule_tick` over `malu$schedule` and
`malu$schedule_run`.

* A timestamp is a number of microseconds; `now()` is an argument.
* An action works on the rest of the database (`Outside`): an `enqueue` action calls
  `queue_enqueue`, the statement of an `sql` action is any computation that returns or raises
  (`Env.execute`).
* An error carries its text and whether `WHEN others` catches it: it does not catch
  `query_canceled` and `assert_failure`.
* The loop of `schedule_tick` runs over the rows its query saw when it was opened.
  `schedule_run_now` looks the schedule up again, by name.
* Row level security shows a schema its own schedules; a role with `BYPASSRLS` sees all of them. A
  session that sees a schedule may write its runs.
-/

namespace MaluDb.Scheduler

open MaluDb.Lib MaluDb.Cron MaluDb.Queue

/-! ## Tables -/

/-- An error: its text, and whether `WHEN others` catches it. -/
structure SqlError where
  message : String
  others : Bool
  deriving DecidableEq, Repr

/-- `action_kind`. -/
inductive ActionKind where
  | enqueue
  | sql
  deriving DecidableEq, Repr

/-- The keys of `action_payload` that the functions read; `J` is jsonb. -/
structure ActionPayload (J : Type) where
  queue : Option String
  payload : Option J
  sql : Option String
  deriving DecidableEq, Repr

/-- A row of `malu$schedule`. -/
structure Schedule (J : Type) where
  scheduleId : Nat
  name : String
  cronExpr : List Char
  actionKind : ActionKind
  actionPayload : ActionPayload J
  enabled : Bool
  nextRunAt : Option Int
  lastRunAt : Option Int
  lastError : Option String
  ownerSchema : String
  retired : Bool
  deriving DecidableEq, Repr

/-- What an action returns. -/
inductive Detail where
  | enqueued (queue : String) (jobId : Nat)
  | executed
  deriving DecidableEq, Repr

/-- The `status` of a run. -/
inductive RunStatus where
  | running
  | succeeded
  | failed
  deriving DecidableEq, Repr

structure ScheduleRun where
  runId : Nat
  scheduleId : Nat
  startedAt : Int
  finishedAt : Option Int
  status : RunStatus
  detail : Option Detail
  errorText : Option String
  deriving DecidableEq, Repr

structure AuditEvent where
  eventKind : String
  scheduleId : Nat
  detail : Option Detail
  errorText : Option String
  deriving DecidableEq, Repr

/-- What the actions work on. -/
structure Outside (J W : Type) where
  queues : QueueStore J
  world : W
  deriving DecidableEq, Repr

/-- The database. -/
structure Db (J W : Type) where
  schedules : Serial (Schedule J) Schedule.scheduleId
  runs : Serial ScheduleRun ScheduleRun.runId
  audit : List AuditEvent
  outside : Outside J W

structure Env (J W : Type) where
  emptyObject : J
  execute : String → Outside J W → Except SqlError (Outside J W)

/-- The calling session: its schema, whether row level security binds it, whether `session_user` is
a member of `maludb_memory_admin`, and its TimeZone in minutes ahead of UTC. -/
structure Session where
  schema : String
  bypassRls : Bool
  admin : Bool
  offset : Int
  deriving DecidableEq, Repr

section

variable {J W : Type}

section

variable (db : Db J W) (ses : Session) (runId : Nat) (id : Nat)

/-- The policy `tenant_owner` of `malu$schedule`. -/
def Session.sees (s : Schedule J) : Bool :=
  ses.bypassRls || s.ownerSchema == ses.schema

/-- `SELECT * FROM malu$schedule WHERE name = … AND retired_at IS NULL`. -/
def Db.named? (name : String) : Option (Schedule J) :=
  db.schedules.rows.find? fun s => ses.sees s && s.name == name && !s.retired

/-- `UPDATE malu$schedule SET last_run_at = …, last_error = … WHERE schedule_id = …`. -/
def Db.setLastRun (now : Int) (error : Option String) : Db J W :=
  { db with
    schedules := db.schedules.update (·.scheduleId == id)
      (fun s => { s with lastRunAt := some now, lastError := error }) fun _ => rfl }

/-- `UPDATE malu$schedule SET next_run_at = … WHERE schedule_id = …`. -/
def Db.setNextRun (t : Int) : Db J W :=
  { db with
    schedules := db.schedules.update (·.scheduleId == id)
      (fun s => { s with nextRunAt := some t }) fun _ => rfl }

/-- `INSERT INTO malu$schedule_run (schedule_id, status) VALUES (…, 'running')`. -/
def Db.insertRun (scheduleId : Nat) (now : Int) : Db J W :=
  { db with
    runs := db.runs.insert (fun n => ⟨n, scheduleId, now, none, .running, none, none⟩)
      fun _ => rfl }

/-- `UPDATE malu$schedule_run SET finished_at = now(), status = 'succeeded', …`. -/
def Db.succeedRun (now : Int) (detail : Detail) : Db J W :=
  { db with
    runs := db.runs.update (·.runId == runId)
      (fun r => { r with finishedAt := some now, status := .succeeded, detail := some detail })
      fun _ => rfl }

/-- `UPDATE malu$schedule_run SET finished_at = now(), status = 'failed', …`. -/
def Db.failRun (now : Int) (error : String) : Db J W :=
  { db with
    runs := db.runs.update (·.runId == runId)
      (fun r => { r with finishedAt := some now, status := .failed, errorText := some error })
      fun _ => rfl }

def Db.auditEvent (event : AuditEvent) : Db J W :=
  { db with audit := db.audit ++ [event] }

end

/-! ## Firing -/

variable (env : Env J W) (ses : Session) (now : Int)

def scheduleExecuteAction (kind : ActionKind) (payload : ActionPayload J) (o : Outside J W) :
    Except SqlError (Outside J W × Detail) :=
  match kind with
  | .enqueue =>
    match payload.queue with
    | none => .error ⟨"queue_enqueue: queue <NULL> not found or retired", true⟩
    | some queue =>
      match queueEnqueue o.queues now queue (.user (payload.payload.getD env.emptyObject)) none 0
          none with
      | .error e => .error ⟨e.message, true⟩
      | .ok (queues, jobId) => .ok ({ o with queues }, .enqueued queue jobId)
  | .sql =>
    if ses.admin = false then
      .error ⟨"_schedule_execute_action: sql action requires maludb_memory_admin", true⟩
    else
      match payload.sql with
      | none => .error ⟨"query string argument of EXECUTE is null", true⟩
      | some sql => (env.execute sql o).map fun o => (o, .executed)

/-- The statements of the block of `schedule_run_now`. -/
def runBody (sched : Schedule J) (runId : Nat) (db : Db J W) : Ended (Db J W) SqlError Unit :=
  match scheduleExecuteAction env ses now sched.actionKind sched.actionPayload db.outside with
  | .error e => .raised db e
  | .ok (outside, detail) =>
    .returned (((({ db with outside }).succeedRun runId now detail).setLastRun sched.scheduleId now
      none).auditEvent ⟨"schedule_run_succeeded", sched.scheduleId, some detail, none⟩) ()

/-- The handler of the block of `schedule_run_now`, which raises the error again. -/
def runHandler (sched : Schedule J) (runId : Nat) (e : SqlError) (db : Db J W) :
    Ended (Db J W) SqlError Unit :=
  .raised (((db.failRun runId now e.message).setLastRun sched.scheduleId now
    (some e.message)).auditEvent
      ⟨"schedule_run_failed", sched.scheduleId, none, some e.message⟩) e

/-- `schedule_run_now`. -/
def scheduleRunNow (name : String) (db : Db J W) : Ended (Db J W) SqlError Nat :=
  match db.named? ses name with
  | none => .raised db ⟨"schedule_run_now: schedule " ++ name ++ " not found", true⟩
  | some sched =>
    let runId := db.runs.next
    (block SqlError.others (runBody env ses now sched runId) (runHandler now sched runId)
      (db.insertRun sched.scheduleId now)).andThen fun _ db => .returned db runId

/-- The schedules `schedule_tick` loops over. -/
def dueSchedules (db : Db J W) : List (Schedule J) :=
  (db.schedules.rows.filter fun s => ses.sees s && s.enabled && !s.retired &&
    s.nextRunAt.any fun t => decide (t ≤ now)).insertionSort fun a b =>
      a.nextRunAt.getD 0 ≤ b.nextRunAt.getD 0

/-- `UPDATE malu$schedule SET next_run_at = cron_next_after(…) WHERE schedule_id = …`, outside any
block. -/
def advanceNextRun (r : Schedule J) (db : Db J W) : Ended (Db J W) SqlError Unit :=
  if db.schedules.rows.any fun s => ses.sees s && s.scheduleId == r.scheduleId then
    match cronNextAfter ses.offset r.cronExpr now with
    | .error e => .raised db ⟨e.message, true⟩
    | .ok t => .returned (db.setNextRun r.scheduleId t) ()
  else .returned db ()

/-- The block of `schedule_tick`, which catches what `schedule_run_now` raises. -/
def fireBlock (r : Schedule J) (db : Db J W) : Ended (Db J W) SqlError Unit :=
  block SqlError.others
    (fun db => (scheduleRunNow env ses now r.name db).andThen fun _ db => .returned db ())
    (fun _ db => .returned db ()) db

/-- The body of the loop of `schedule_tick`. -/
def tickTurn (r : Schedule J) (db : Db J W) : Ended (Db J W) SqlError Unit :=
  (fireBlock env ses now r db).andThen fun _ db => advanceNextRun ses now r db

/-- The loop of `schedule_tick`; `count` is `v_count`. -/
def tickLoop : List (Schedule J) → Nat → Db J W → Ended (Db J W) SqlError Nat
  | [], count, db => .returned db count
  | r :: rs, count, db =>
    (tickTurn env ses now r db).andThen fun _ db => tickLoop rs (count + 1) db

/-- `schedule_tick`. -/
def scheduleTick (db : Db J W) : Ended (Db J W) SqlError Nat :=
  tickLoop env ses now (dueSchedules ses now db) 0 db

end

end MaluDb.Scheduler
