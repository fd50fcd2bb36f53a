import Mathlib.Data.List.Sort
import MaluDb.Lib.Run
import MaluDb.Lib.Table

/-!
# The job queue

`queue_enqueue`, `queue_lease`, `queue_ack`, `queue_nack` and `queue_reap_expired_leases` over their
three tables, each as one transaction that runs alone.

* A timestamp is a number of microseconds; `now()` is an argument.
* `retired_at` is modelled by whether it is set. `max_retries` is a natural number, by its CHECK.
-/

namespace MaluDb.Queue

open MaluDb.Lib

/-! ## Tables -/

/-- The status of a job. -/
inductive Status where
  | pending
  | leased
  | completed
  | failed
  | dead
  deriving DecidableEq, Repr

/-- A status as text. -/
def Status.name : Status → String
  | .pending => "pending"
  | .leased => "leased"
  | .completed => "completed"
  | .failed => "failed"
  | .dead => "dead"

/-- A payload: what a client enqueued (`J` is jsonb), or what `queue_nack` made of one. -/
inductive Payload (J : Type) where
  | user (json : J)
  | deadLetter (sourceQueue : String) (sourceJobId : Nat) (lastError : Option String)
    (payload : Payload J)
  deriving DecidableEq, Repr

/-- A row of `malu$queue`. -/
structure QueueRow where
  queueId : Nat
  name : String
  defaultVisibilityMs : Int
  maxRetries : Nat
  dlqQueueId : Option Nat
  retired : Bool
  deriving DecidableEq, Repr

/-- A row of `malu$queue_job`. -/
structure Job (J : Type) where
  jobId : Nat
  queueId : Nat
  payload : Payload J
  idempotencyKey : Option String
  priority : Int
  status : Status
  enqueuedAt : Int
  visibleAt : Int
  attempts : Nat
  lastError : Option String
  deriving DecidableEq, Repr

structure Lease where
  leaseId : Nat
  jobId : Nat
  workerId : String
  expiresAt : Int
  deriving DecidableEq, Repr

structure QueueStore (J : Type) where
  queues : List QueueRow
  jobs : List (Job J)
  leases : List Lease
  nextJobId : Nat
  nextLeaseId : Nat
  deriving DecidableEq, Repr

inductive QueueError where
  | queueNotFound (function name : String)
  | jobNotFound (id : Nat)
  | notLeased (id : Nat) (status : Status)
  | smallintOutOfRange
  | uniqueViolation (constraint : String)
  deriving DecidableEq, Repr

/-- The text of an error. -/
def QueueError.message : QueueError → String
  | .queueNotFound function name => s!"{function}: queue {name} not found or retired"
  | .jobNotFound id => s!"queue_nack: job {id} not found"
  | .notLeased id status =>
    "queue_nack: job " ++ toString id ++ " is not leased (status=" ++ status.name ++ ")"
  | .smallintOutOfRange => "smallint out of range"
  | .uniqueViolation constraint => s!"duplicate key value violates unique constraint {constraint}"

/-! ## Operations -/

section

variable {J : Type}

section

variable (s : QueueStore J) (now : Int) (error : Option String)

def QueueStore.activeQueue? (name : String) : Option QueueRow :=
  s.queues.find? fun q => q.name == name && !q.retired

/-- `SELECT * FROM malu$queue WHERE queue_id = …`. -/
def QueueStore.queue? (id : Nat) : Option QueueRow :=
  s.queues.find? (·.queueId == id)

/-- `SELECT * FROM malu$queue_job WHERE job_id = …`. -/
def QueueStore.job? (id : Nat) : Option (Job J) :=
  s.jobs.find? (·.jobId == id)

/-- The largest smallint. -/
def maxSmallint : Nat := 32767

/-- A cast to smallint. -/
def toSmallint (n : Int) : Except QueueError Int :=
  if -32768 ≤ n ∧ n ≤ maxSmallint then .ok n else .error .smallintOutOfRange

/-- The row `queue_enqueue` inserts. -/
def newJob (jobId queueId : Nat) (now : Int) (payload : Payload J) (key : Option String)
    (priority : Int) (visibleAt : Option Int) : Job J :=
  { jobId, queueId, payload, idempotencyKey := key, priority, status := .pending
    enqueuedAt := now, visibleAt := visibleAt.getD now, attempts := 0, lastError := none }

def queueEnqueue (queueName : String) (payload : Payload J) (idempotencyKey : Option String)
    (priority : Int) (visibleAt : Option Int) : Except QueueError (QueueStore J × Nat) :=
  match s.activeQueue? queueName with
  | none => .error (.queueNotFound "queue_enqueue" queueName)
  | some q =>
    match idempotencyKey.bind fun key =>
        s.jobs.find? fun j => j.queueId == q.queueId && j.idempotencyKey == some key with
    | some existing => .ok (s, existing.jobId)
    | none =>
      (toSmallint priority).map fun priority =>
        let job := newJob s.nextJobId q.queueId now payload idempotencyKey priority visibleAt
        ({ s with jobs := s.jobs ++ [job], nextJobId := s.nextJobId + 1 }, s.nextJobId)

/-- `ORDER BY j.priority DESC, j.visible_at, j.job_id`. -/
def leasesBefore (a b : Job J) : Bool :=
  decide (b.priority < a.priority) || (a.priority == b.priority &&
    (decide (a.visibleAt < b.visibleAt) || (a.visibleAt == b.visibleAt &&
      decide (a.jobId ≤ b.jobId))))

/-- `candidates` of `queue_lease`. -/
def candidates (queueId : Nat) (batch : Int) : List (Job J) :=
  ((s.jobs.filter fun j => j.queueId == queueId && j.status == .pending &&
    decide (j.visibleAt ≤ now)).insertionSort fun a b => leasesBefore a b = true).take
      (max batch 1).toNat

def Job.lease (j : Job J) : Job J := { j with status := .leased, attempts := j.attempts + 1 }

/-- `queue_lease`; the second component is the ids of the leased jobs, in order. -/
def queueLease (queueName workerId : String) (batch : Int) (visibilityMs : Option Int) :
    Except QueueError (QueueStore J × List Nat) :=
  match s.activeQueue? queueName with
  | none => .error (.queueNotFound "queue_lease" queueName)
  | some q =>
    let picked := candidates s now q.queueId batch
    let ids := picked.map Job.jobId
    if picked.any fun j => decide (maxSmallint < j.attempts + 1) then .error .smallintOutOfRange
    else if s.leases.any fun l => ids.contains l.jobId then
      .error (.uniqueViolation "malu$queue_lease_job_id_key")
    else
      let expiresAt := now + visibilityMs.getD q.defaultVisibilityMs * 1000
      .ok ({ s with
              jobs := updateWhere (fun j => ids.contains j.jobId) Job.lease s.jobs
              leases := s.leases ++
                ids.mapIdx fun i id => ⟨s.nextLeaseId + i, id, workerId, expiresAt⟩
              nextLeaseId := s.nextLeaseId + ids.length }, ids)

/-- `UPDATE malu$queue_job SET … WHERE …`. -/
def QueueStore.updateJobs (p : Job J → Bool) (f : Job J → Job J) : QueueStore J :=
  { s with jobs := updateWhere p f s.jobs }

/-- `DELETE FROM malu$queue_lease WHERE …`. -/
def QueueStore.deleteLeases (p : Lease → Bool) : QueueStore J :=
  { s with leases := deleteWhere p s.leases }

/-- `queue_ack`; the second component is its result. -/
def queueAck (id : Nat) : QueueStore J × Bool :=
  let isLeased (j : Job J) := j.jobId == id && j.status == .leased
  ((s.deleteLeases (·.jobId == id)).updateJobs isLeased fun j =>
      { j with status := .completed, lastError := none }, s.jobs.any isLeased)

def Job.bury (j : Job J) : Job J :=
  { j with status := .dead, lastError := error }

def Job.requeue (j : Job J) : Job J :=
  { j with status := .pending, lastError := error, visibleAt := now }

/-- `IF v_job.attempts >= v_queue.max_retries`; without a queue row the comparison is NULL and the
ELSE branch is taken. -/
def outOfRetries (q : Option QueueRow) (job : Job J) : Bool :=
  match q with
  | some q => decide (q.maxRetries ≤ job.attempts)
  | none => false

/-- The dead letter part of `queue_nack`. Without a row of the dead letter queue its name is NULL,
which names no queue. -/
def enqueueDeadLetter (q : Option QueueRow) (job : Job J) (error : Option String) :
    Except QueueError (QueueStore J) :=
  match q.bind fun q => q.dlqQueueId.map fun dlq => (q.name, dlq) with
  | none => .ok s
  | some (sourceQueue, dlq) =>
    match s.queue? dlq with
    | none => .error (.queueNotFound "queue_enqueue" "<NULL>")
    | some dlqRow =>
      let payload := .deadLetter sourceQueue job.jobId error job.payload
      (queueEnqueue s now dlqRow.name payload none 0 none).map Prod.fst

/-- `queue_nack`; the second component is its outcome. -/
def queueNack (id : Nat) (error : Option String) : Except QueueError (QueueStore J × Status) :=
  match s.job? id with
  | none => .error (.jobNotFound id)
  | some job =>
    if job.status ≠ .leased then .error (.notLeased id job.status)
    else
      let q := s.queue? job.queueId
      let s₁ := s.deleteLeases (·.jobId == id)
      if outOfRetries q job then
        let s₂ := s₁.updateJobs (·.jobId == id) (Job.bury error)
        (enqueueDeadLetter s₂ now q job error).map fun s₃ => (s₃, .dead)
      else .ok (s₁.updateJobs (·.jobId == id) (Job.requeue now error), .pending)

def expired : List Nat :=
  (s.leases.filter fun l => decide (l.expiresAt ≤ now)).map Lease.jobId

/-- `queue_reap_expired_leases`; the second component is the number of jobs revived. -/
def queueReapExpiredLeases : QueueStore J × Nat :=
  let revives (j : Job J) := (expired s now).contains j.jobId && j.status == .leased
  ((s.deleteLeases fun l => (expired s now).contains l.jobId).updateJobs revives fun j =>
      { j with status := .pending, visibleAt := now }, (s.jobs.filter revives).length)

end

/-! ## Runs -/

inductive QueueOp (J : Type) where
  | enqueue (now : Int) (queueName : String) (payload : J) (key : Option String) (priority : Int)
    (visibleAt : Option Int)
  | lease (now : Int) (queueName workerId : String) (batch : Int) (visibilityMs : Option Int)
  | ack (id : Nat)
  | nack (now : Int) (id : Nat) (error : Option String)
  | reap (now : Int)
  deriving Repr

def queueStep (s : QueueStore J) : QueueOp J → QueueStore J
  | .enqueue now q p key prio vis =>
    commitOr s ((queueEnqueue s now q (.user p) key prio vis).map Prod.fst)
  | .lease now q w batch vis => commitOr s ((queueLease s now q w batch vis).map Prod.fst)
  | .ack id => (queueAck s id).1
  | .nack now id err => commitOr s ((queueNack s now id err).map Prod.fst)
  | .reap now => (queueReapExpiredLeases s now).1

def delivered (s : QueueStore J) : QueueOp J → List Nat
  | .lease now q w batch vis =>
    match queueLease s now q w batch vis with
    | .ok r => r.2
    | .error _ => []
  | _ => []

def deliveries (s : QueueStore J) : List (QueueOp J) → List Nat
  | [] => []
  | op :: ops => delivered s op ++ deliveries (queueStep s op) ops

/-- Queues without jobs. -/
def newStore (queues : List QueueRow) : QueueStore J := ⟨queues, [], [], 1, 1⟩

end

end MaluDb.Queue
