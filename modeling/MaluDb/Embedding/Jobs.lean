import MaluDb.Lib.Serial
import MaluDb.Queue.Retries

/-!
# Embedding jobs and their queue jobs

`embedding_enqueue` writes a row of `malu$embedding_job` and enqueues a job on the queue `embed`
whose payload has the row's id. `embedding_record_output` completes the row.

* For a known idempotency key `queue_enqueue` returns the job that it has: the new row is in no
  payload.
* `queue_ack`, and `queue_nack` of a job out of retries, leave the row as it is.
-/

namespace MaluDb.Embedding

open MaluDb.Lib MaluDb.Queue List

/-! ## Tables -/

/-- The payload of a job of the queue `embed`. -/
structure EmbedPayload where
  embeddingJobId : ℕ
  targetKind : String
  targetId : Int
  modelAlias : String
  embeddingSpace : String
  promptTemplateVersion : Option String
  precomputedBoundariesFromTreeId : Option ℕ
  deriving DecidableEq

inductive JobStatus where
  | pending
  | running
  | completed
  | failed
  deriving DecidableEq

structure EmbeddingJob where
  jobId : ℕ
  targetKind : String
  targetId : Int
  modelAlias : String
  embeddingSpace : String
  promptTemplateVersion : Option String
  inputHash : Option (List UInt8)
  precomputedBoundariesFromTreeId : Option ℕ
  queueJobId : Option ℕ
  status : JobStatus

structure JobStore where
  queue : QueueStore EmbedPayload
  nextQueueId : ℕ
  jobs : Serial EmbeddingJob EmbeddingJob.jobId

inductive JobError where
  | targetKind
  | dlqNotFound (name : String)
  | queue (e : QueueError)
  | jobNotFound (id : ℕ)
  | frameRequired
  | outputCheck

/-! ## Functions -/

/-- `queue_register`. -/
def queueRegister {J : Type} (s : QueueStore J) (queueId : ℕ) (name : String)
    (defaultVisibilityMs : Int) (maxRetries : ℕ) (dlqName : Option String) :
    Except JobError (QueueStore J) :=
  let write := fun dlqQueueId : Option ℕ =>
    let queues := upsert (·.name == name)
      (fun q => { q with defaultVisibilityMs, maxRetries, dlqQueueId, retired := false })
      ⟨queueId, name, defaultVisibilityMs, maxRetries, dlqQueueId, false⟩ s.queues
    { s with queues := queues }
  match dlqName with
  | none => .ok (write none)
  | some dlq =>
    match s.queues.find? fun q => q.name == dlq with
    | none => .error (.dlqNotFound dlq)
    | some q => .ok (write (some q.queueId))

/-- What a client asks for. -/
structure Request where
  targetKind : String
  targetId : Int
  modelAlias : String
  embeddingSpace : String
  inputHash : Option (List UInt8) := none
  promptTemplateVersion : Option String := none
  precomputedBoundariesFromTreeId : Option ℕ := none

/-- The kinds of targets. -/
def targetKinds : List String :=
  ["source_excerpt", "memory_chunk", "workflow_trace", "summary", "query_envelope"]

/-- The idempotency key of a request: `format('embed:%s:%s:%s:%s', …)`. -/
def Request.key (r : Request) : String :=
  "embed:" ++ r.targetKind ++ ":" ++ toString r.targetId ++ ":" ++ r.modelAlias ++ ":" ++
    r.embeddingSpace

/-- The payload of a request. -/
def Request.payload (r : Request) (jobId : ℕ) : Payload EmbedPayload :=
  .user ⟨jobId, r.targetKind, r.targetId, r.modelAlias, r.embeddingSpace, r.promptTemplateVersion,
    r.precomputedBoundariesFromTreeId⟩

/-- The row of a request. -/
def Request.row (r : Request) (queueJobId jobId : ℕ) : EmbeddingJob :=
  ⟨jobId, r.targetKind, r.targetId, r.modelAlias, r.embeddingSpace, r.promptTemplateVersion,
    r.inputHash, r.precomputedBoundariesFromTreeId, some queueJobId, .pending⟩

/-- `embedding_enqueue`. -/
def embeddingEnqueue (s : JobStore) (now : Int) (r : Request) : Except JobError (JobStore × ℕ) :=
  if !targetKinds.contains r.targetKind then .error .targetKind
  else
    match queueRegister s.queue s.nextQueueId "embed" 60000 3 none with
    | .error e => .error e
    | .ok queue =>
      let jobId := s.jobs.next
      match queueEnqueue queue now "embed" (r.payload jobId) (some r.key) 0 none with
      | .error e => .error (.queue e)
      | .ok (queue, queueJob) =>
        .ok (⟨queue, s.nextQueueId + 1, s.jobs.insert (r.row queueJob) fun _ => rfl⟩, jobId)

def completeJob (jobs : Serial EmbeddingJob EmbeddingJob.jobId) (id : ℕ) :
    Serial EmbeddingJob EmbeddingJob.jobId :=
  jobs.update (·.jobId == id) (fun e => { e with status := .completed }) fun _ => rfl

/-- `embedding_record_output`; of the vector, the number of its bytes. -/
def embeddingRecordOutput (s : JobStore) (id : ℕ) (vectorBytes : ℕ) (vectorDim : Int)
    (svporFrameText : Option String) : Except JobError JobStore :=
  match s.jobs.get? id with
  | none => .error (.jobNotFound id)
  | some _ =>
    if svporFrameText.getD "" = "" then .error .frameRequired
    else if vectorDim ≤ 0 ∨ (vectorBytes : Int) ≠ vectorDim * 4 then .error .outputCheck
    else .ok { s with jobs := completeJob s.jobs id }

/-! ## Runs -/

inductive JobOp where
  | request (now : Int) (r : Request)
  | lease (now : Int) (queueName workerId : String) (batch : Int) (visibilityMs : Option Int)
  | ack (id : ℕ)
  | nack (now : Int) (id : ℕ) (error : Option String)
  | reap (now : Int)
  | recordOutput (id vectorBytes : ℕ) (vectorDim : Int) (svporFrameText : Option String)

/-- The operation of the queue. -/
def JobOp.queueOp? : JobOp → Option (QueueOp EmbedPayload)
  | .request _ _ => none
  | .lease now queueName workerId batch visibilityMs =>
    some (.lease now queueName workerId batch visibilityMs)
  | .ack id => some (.ack id)
  | .nack now id error => some (.nack now id error)
  | .reap now => some (.reap now)
  | .recordOutput _ _ _ _ => none

def JobStore.step (s : JobStore) (op : JobOp) : JobStore :=
  match op with
  | .request now r => commitOr s ((embeddingEnqueue s now r).map Prod.fst)
  | .recordOutput id bytes dim frame => commitOr s (embeddingRecordOutput s id bytes dim frame)
  | _ => op.queueOp?.elim s fun op => { s with queue := queueStep s.queue op }

def JobStore.new (queues : List QueueRow) (nextQueueId : ℕ) : JobStore :=
  ⟨newStore queues, nextQueueId, Serial.empty⟩

def embeddingJobId? : Payload EmbedPayload → Option ℕ
  | .user p => some p.embeddingJobId
  | .deadLetter _ _ _ _ => none

def isLive {J : Type} (j : Job J) : Bool := j.status == .pending || j.status == .leased

/-- Every pending row is in the payload of a job that is pending or leased. -/
def Served (s : JobStore) : Prop :=
  ∀ e ∈ s.jobs.rows, e.status = .pending →
    ∃ j ∈ s.queue.jobs, isLive j = true ∧ embeddingJobId? j.payload = some e.jobId

def finishes {J : Type} (s : QueueStore J) : QueueOp J → Job J → Bool
  | .ack id, j => j.jobId == id && j.status == .leased
  | .nack _ id _, j => j.jobId == id && j.status == .leased && outOfRetries (s.queue? j.queueId) j
  | _, _ => false

/-- The key of a request. -/
def JobOp.key? : JobOp → Option String
  | .request _ r => some r.key
  | _ => none

/-- A request has a key that no queue job has, and no queue job is ended while its row is
pending. -/
def Careful (s : JobStore) (op : JobOp) : Prop :=
  (∀ key ∈ op.key?, ∀ j ∈ s.queue.jobs, j.idempotencyKey ≠ some key) ∧
    ∀ qop ∈ op.queueOp?, ∀ j ∈ s.queue.jobs, finishes s.queue qop j = true →
      ∀ e ∈ s.jobs.rows, e.status = .pending → embeddingJobId? j.payload ≠ some e.jobId

instance (s : JobStore) (op : JobOp) : Decidable (Careful s op) :=
  inferInstanceAs (Decidable ((∀ key ∈ op.key?, ∀ j ∈ s.queue.jobs, j.idempotencyKey ≠ some key) ∧
    ∀ qop ∈ op.queueOp?, ∀ j ∈ s.queue.jobs, finishes s.queue qop j = true →
      ∀ e ∈ s.jobs.rows, e.status = .pending → embeddingJobId? j.payload ≠ some e.jobId))

/-! ## The queue -/

section

variable {J : Type} {s s' : QueueStore J}

def KeepsLive (s' : QueueStore J) (j : Job J) : Prop :=
  ∃ j' ∈ s'.jobs, isLive j' = true ∧ j'.payload = j.payload

theorem keepsLive_update {p : Job J → Bool} {f : Job J → Job J} {j : Job J}
    (hjobs : s'.jobs = updateWhere p f s.jobs) (hj : j ∈ s.jobs) (hlive : isLive j = true)
    (hf : p j = true → isLive (f j) = true ∧ (f j).payload = j.payload) : KeepsLive s' j := by
  refine ⟨if p j then f j else j, hjobs ▸ mem_updateWhere.mpr ⟨j, hj, rfl⟩, ?_⟩
  split
  · exact hf ‹_›
  · exact ⟨hlive, rfl⟩

section

variable {vis : Option Int} {now : Int} {p : Payload J} {prio : Int} {n : ℕ}

theorem live_enqueue {name : String} {key : Option String} {j : Job J}
    (h : queueEnqueue s now name p key prio vis = .ok (s', n)) (hj : j ∈ s.jobs)
    (hlive : isLive j = true) : KeepsLive s' j := by
  rcases queueEnqueue_eq_ok h with ⟨-, rfl⟩ | ⟨q, prio', -, -, rfl⟩
  · exact ⟨j, hj, hlive, rfl⟩
  · exact ⟨j, mem_append_left _ hj, hlive, rfl⟩

theorem live_nack (hd : DistinctJobs s) {id : ℕ} {err : Option String} {out : Status} {j : Job J}
    (h : queueNack s now id err = .ok (s', out)) (hj : j ∈ s.jobs) (hlive : isLive j = true)
    (hgoes : finishes s (.nack now id err) j = false) : KeepsLive s' j := by
  obtain ⟨job, hjob, hleased, ⟨hout, hdead⟩ | ⟨-, rfl⟩⟩ := queueNack_eq_ok h
  · have hne : j.jobId ≠ id := by
      rintro rfl
      obtain ⟨hmem, hid⟩ := mem_of_find?_key hjob
      obtain rfl := hd.eq_of_jobId hmem hj hid
      simp [finishes, hleased, hout] at hgoes
    obtain ⟨new, hnew⟩ := enqueueDeadLetter_spec hdead
    refine ⟨j, ?_, hlive, rfl⟩
    rw [hnew.jobs, map_id]
    exact mem_append_left _ (mem_updateWhere.mpr ⟨j, hj, if_neg (by simpa using hne)⟩)
  · exact keepsLive_update rfl hj hlive fun _ => ⟨rfl, rfl⟩

/-- **A live job stays live unless the operation ends it.** -/
theorem live_queueStep (hd : DistinctJobs s) (op : QueueOp J) {j : Job J} (hj : j ∈ s.jobs)
    (hlive : isLive j = true) (hgoes : finishes s op j = false) : KeepsLive (queueStep s op) j := by
  cases op with
  | enqueue now name p key prio vis =>
    simp only [queueStep]
    cases h : queueEnqueue s now name (.user p) key prio vis with
    | error e => exact ⟨j, hj, hlive, rfl⟩
    | ok r => exact live_enqueue h hj hlive
  | lease now name w batch vis =>
    simp only [queueStep]
    cases h : queueLease s now name w batch vis with
    | error e => exact ⟨j, hj, hlive, rfl⟩
    | ok r =>
      obtain ⟨q, -, -, -, -, hs⟩ := queueLease_eq_ok h
      exact keepsLive_update (congrArg QueueStore.jobs hs) hj hlive fun _ => ⟨rfl, rfl⟩
  | ack id =>
    refine keepsLive_update rfl hj hlive fun hleased => ?_
    rw [show finishes s (.ack id) j = true from hleased] at hgoes
    cases hgoes
  | nack now id err =>
    simp only [queueStep]
    cases h : queueNack s now id err with
    | error e => exact ⟨j, hj, hlive, rfl⟩
    | ok r => exact live_nack hd h hj hlive hgoes
  | reap now => exact keepsLive_update rfl hj hlive fun _ => ⟨rfl, rfl⟩

theorem queueEnqueue_of_new_key {name key : String}
    (h : queueEnqueue s now name p (some key) prio vis = .ok (s', n))
    (hkey : ∀ j ∈ s.jobs, j.idempotencyKey ≠ some key) :
    ∃ q prio', s' = { s with
      jobs := s.jobs ++ [newJob s.nextJobId q now p (some key) prio' vis]
      nextJobId := s.nextJobId + 1 } := by
  unfold queueEnqueue at h
  split at h
  · cases h
  rename_i q _
  split at h
  · rename_i existing hfound
    have hmem := mem_of_find?_eq_some hfound
    have hmatch := List.find?_some hfound
    simp only [Bool.and_eq_true, beq_iff_eq] at hmatch
    exact absurd hmatch.2 (hkey existing hmem)
  · obtain ⟨prio', -, hr⟩ := map_eq_ok.mp h
    cases hr
    exact ⟨q.queueId, prio', rfl⟩

end

end

/-! ## Runs -/

variable {s s' : JobStore}

/-- The ids of queue jobs are distinct, and pending rows are served. -/
structure JobInv (s : JobStore) : Prop where
  distinct : DistinctJobs s.queue
  served : Served s

theorem jobInv_new (queues : List QueueRow) (nextQueueId : ℕ) :
    JobInv (JobStore.new queues nextQueueId) where
  distinct := ⟨nodup_nil, forall_mem_nil _⟩
  served := forall_mem_nil _

theorem jobInv_request (h : JobInv s) {now : Int} {r : Request} {id : ℕ}
    (hok : embeddingEnqueue s now r = .ok (s', id))
    (hkey : ∀ j ∈ s.queue.jobs, j.idempotencyKey ≠ some r.key) : JobInv s' := by
  simp only [embeddingEnqueue, queueRegister] at hok
  split at hok
  · cases hok
  split at hok
  · cases hok
  rename_i queue queueJob hqueue
  cases hok
  obtain ⟨new, hspec⟩ := queueEnqueue_spec hqueue
  refine ⟨hspec.toJobsSpec.distinct ⟨h.distinct.nodup, h.distinct.below⟩, fun e he hpending => ?_⟩
  obtain ⟨q, prio, rfl⟩ := queueEnqueue_of_new_key hqueue hkey
  have he : e ∈ (s.jobs.insert (r.row queueJob) fun _ => rfl).rows := he
  rcases Serial.mem_insert.mp he with hold | rfl
  · obtain ⟨j, hj, hlive, hid⟩ := h.served e hold hpending
    exact ⟨j, mem_append_left _ hj, hlive, hid⟩
  · exact ⟨_, mem_append_right _ (mem_singleton_self _), rfl, rfl⟩

theorem jobInv_queueStep (h : JobInv s) {op : QueueOp EmbedPayload}
    (hcareful : ∀ j ∈ s.queue.jobs, finishes s.queue op j = true →
      ∀ e ∈ s.jobs.rows, e.status = .pending → embeddingJobId? j.payload ≠ some e.jobId) :
    JobInv { s with queue := queueStep s.queue op } := by
  obtain ⟨f, new, hspec⟩ := queueStep_jobs h.distinct op
  refine ⟨hspec.distinct h.distinct, fun e he hpending => ?_⟩
  obtain ⟨j, hj, hlive, hid⟩ := h.served e he hpending
  have hgoes : finishes s.queue op j = false := by
    by_contra hends
    exact hcareful j hj (by simpa using hends) e he hpending hid
  obtain ⟨j', hj', hlive', hpayload⟩ := live_queueStep h.distinct op hj hlive hgoes
  exact ⟨j', hj', hlive', hpayload ▸ hid⟩

theorem jobInv_recordOutput (h : JobInv s) {id bytes : ℕ} {dim : Int} {frame : Option String}
    (hok : embeddingRecordOutput s id bytes dim frame = .ok s') : JobInv s' := by
  unfold embeddingRecordOutput at hok
  split at hok
  · cases hok
  split_ifs at hok
  cases hok
  refine ⟨h.distinct, fun e he hpending => ?_⟩
  have he : e ∈ (completeJob s.jobs id).rows := he
  obtain ⟨e₀, he₀, rfl⟩ := Serial.mem_update.mp he
  split at hpending
  · cases hpending
  · rename_i hother
    rw [if_neg hother]
    exact h.served e₀ he₀ hpending

/-- **A careful step keeps every pending row served.** -/
theorem jobInv_step (s : JobStore) (op : JobOp) (h : JobInv s) (hcareful : Careful s op) :
    JobInv (s.step op) := by
  cases op with
  | request now r =>
    simp only [JobStore.step]
    cases hok : embeddingEnqueue s now r with
    | error e => exact h
    | ok res => exact jobInv_request h hok (hcareful.1 r.key rfl)
  | recordOutput id bytes dim frame =>
    simp only [JobStore.step]
    cases hok : embeddingRecordOutput s id bytes dim frame with
    | error e => exact h
    | ok s' => exact jobInv_recordOutput h hok
  | lease now name w batch vis => exact jobInv_queueStep h (hcareful.2 _ rfl)
  | ack id => exact jobInv_queueStep h (hcareful.2 _ rfl)
  | nack now id err => exact jobInv_queueStep h (hcareful.2 _ rfl)
  | reap now => exact jobInv_queueStep h (hcareful.2 _ rfl)

/-- **In every run of careful steps every pending embedding job is in the payload of a queue job
that is pending or leased.** -/
theorem embedding_served (queues : List QueueRow) (nextQueueId : ℕ) (ops : List JobOp)
    (hcareful : Along JobStore.step Careful (JobStore.new queues nextQueueId) ops) :
    Served (run JobStore.step (JobStore.new queues nextQueueId) ops) :=
  (run_induct jobInv_step _ ops (jobInv_new queues nextQueueId) hcareful).served

def chunkRequest (inputHash : List UInt8) : Request :=
  { targetKind := "memory_chunk", targetId := 42, modelAlias := "model", embeddingSpace := "space",
    inputHash := some inputHash }

def carefulRun : List JobOp :=
  [.request 0 (chunkRequest [1]), .lease 1 "embed" "worker" 1 none,
    .recordOutput 1 4 1 (some "frame"), .ack 1]

/-- A second request, for another object, whose job is still pending. -/
def pendingRun : List JobOp := carefulRun ++ [.request 2 { chunkRequest [3] with targetId := 43 }]

theorem embedding_served_pendingRun :
    (run JobStore.step (JobStore.new [] 1) pendingRun).jobs.rows.map
        (fun e => (e.jobId, e.status)) = [(1, .completed), (2, .pending)] ∧
      Served (run JobStore.step (JobStore.new [] 1) pendingRun) :=
  ⟨by decide +kernel, embedding_served [] 1 pendingRun (by decide +kernel)⟩

def repeatedRun : List JobOp := carefulRun ++ [.request 2 (chunkRequest [2])]

/-- **A request that is made again after its job was done is never served.** -/
theorem embedding_unserved :
    let s := run JobStore.step (JobStore.new [] 1) repeatedRun
    s.jobs.rows.map (fun e => (e.jobId, e.status, e.inputHash)) =
        [(1, .completed, some [1]), (2, .pending, some [2])] ∧
      s.queue.jobs.map (fun j => (j.status, embeddingJobId? j.payload)) = [(.completed, some 1)] ∧
      ¬ Served s := by
  refine ⟨by decide +kernel, by decide +kernel, ?_⟩
  unfold Served
  decide +kernel

end MaluDb.Embedding
