import MaluDb.Lib.Except
import MaluDb.Queue.Model

/-!
# How often a job is delivered

A lease increments `attempts`; `queue_nack` compares it with `max_retries` and buries the job.
`queue_reap_expired_leases` puts a job back to pending without that comparison.

* `JobsSpec` says once what an operation does to the job rows: the old rows change by a function
  that keeps their ids, `attempts` grows by the number of deliveries, and at most one row is new.
* `WithinBudget`: a pending job has at most `max_retries` attempts, any other at most one more.
-/

namespace MaluDb.Queue

open MaluDb.Lib List

variable {J : Type}

/-- A pending job may have `max_retries` attempts, any other one more. -/
def slack (j : Job J) : Nat := if j.status = .pending then 0 else 1

def WithinBudget (q : QueueRow) (j : Job J) : Prop := j.attempts ≤ q.maxRetries + slack j

theorem slack_le_one (j : Job J) : slack j ≤ 1 := by
  unfold slack
  split <;> omega

theorem slack_of_ne_pending {j : Job J} (h : j.status ≠ .pending) : slack j = 1 := if_neg h

/-- The condition on a step: the reaper finds no expired lease of a leased job that has been
delivered `max_retries + 1` times. -/
def ReapsInTime (s : QueueStore J) : QueueOp J → Prop
  | .reap now => ∀ j ∈ s.jobs, j.status = .leased → j.jobId ∈ expired s now →
      ∀ q, s.queue? j.queueId = some q → j.attempts < q.maxRetries + 1
  | _ => True

structure DistinctJobs (s : QueueStore J) : Prop where
  nodup : (s.jobs.map Job.jobId).Nodup
  below : ∀ j ∈ s.jobs, j.jobId < s.nextJobId

variable {s s' : QueueStore J} {ids : List Nat} {f : Job J → Job J} {new : List (Job J)}

theorem DistinctJobs.eq_of_jobId (h : DistinctJobs s) {a b : Job J} (ha : a ∈ s.jobs)
    (hb : b ∈ s.jobs) (hid : a.jobId = b.jobId) : a = b :=
  inj_on_of_nodup_map h.nodup ha hb hid

/-- What an operation that delivers `ids` does to the jobs. -/
structure JobsSpec (s s' : QueueStore J) (ids : List Nat) (f : Job J → Job J)
    (new : List (Job J)) : Prop where
  queues : s'.queues = s.queues
  jobs : s'.jobs = s.jobs.map f ++ new
  keepsId : ∀ j, (f j).jobId = j.jobId
  keepsQueue : ∀ j, (f j).queueId = j.queueId
  attempts : ∀ j ∈ s.jobs, (f j).attempts = j.attempts + ids.count j.jobId
  known : ∀ id ∈ ids, id < s.nextJobId
  next : s'.nextJobId = s.nextJobId + new.length
  oneNew : new.length ≤ 1
  isNew : ∀ j ∈ new, j.jobId = s.nextJobId ∧ j.attempts = 0 ∧ (s.queue? j.queueId).isSome

structure StepSpec (s s' : QueueStore J) (ids : List Nat) (f : Job J → Job J)
    (new : List (Job J)) : Prop extends JobsSpec s s' ids f new where
  budget : ∀ j ∈ s.jobs, ∀ q, s.queue? j.queueId = some q → WithinBudget q j → WithinBudget q (f j)

/-! ## One operation -/

section

variable {s s' : QueueStore J}

theorem jobsSpec_update {p : Job J → Bool} {g : Job J → Job J}
    (hjobs : s'.jobs = updateWhere p g s.jobs) (hq : s'.queues = s.queues)
    (hn : s'.nextJobId = s.nextJobId)
    (hg : ∀ j, (g j).jobId = j.jobId ∧ (g j).queueId = j.queueId ∧ (g j).attempts = j.attempts) :
    JobsSpec s s' [] (fun j => if p j then g j else j) [] where
  queues := hq
  jobs := by rw [hjobs, append_nil]; rfl
  keepsId j := by split; exacts [(hg j).1, rfl]
  keepsQueue j := by split; exacts [(hg j).2.1, rfl]
  attempts j _ := by split; exacts [(hg j).2.2, rfl]
  known := forall_mem_nil _
  next := hn
  oneNew := Nat.zero_le 1
  isNew := forall_mem_nil _

theorem stepSpec_update {p : Job J → Bool} {g : Job J → Job J}
    (hjobs : s'.jobs = updateWhere p g s.jobs) (hq : s'.queues = s.queues)
    (hn : s'.nextJobId = s.nextJobId)
    (hg : ∀ j, (g j).jobId = j.jobId ∧ (g j).queueId = j.queueId ∧ (g j).attempts = j.attempts)
    (hb : ∀ j ∈ s.jobs, p j = true → ∀ q, s.queue? j.queueId = some q → WithinBudget q j →
      WithinBudget q (g j)) :
    StepSpec s s' [] (fun j => if p j then g j else j) [] where
  toJobsSpec := jobsSpec_update hjobs hq hn hg
  budget j hj q hq hw := by split; exacts [hb j hj ‹_› q hq hw, hw]

theorem stepSpec_refl (s : QueueStore J) : StepSpec s s [] id [] where
  queues := rfl
  jobs := by simp
  keepsId _ := rfl
  keepsQueue _ := rfl
  attempts _ _ := rfl
  budget _ _ _ _ h := h
  known := forall_mem_nil _
  next := rfl
  oneNew := Nat.zero_le 1
  isNew := forall_mem_nil _

variable {ids : List Nat} {now batch : Int} {name : String} {vis : Option Int} {n : Nat}
  {err : Option String}

theorem StepSpec.append {s₁ : QueueStore J} {f : Job J → Job J} (h : StepSpec s s₁ ids f [])
    {new : List (Job J)} (h' : StepSpec s₁ s' [] id new) : StepSpec s s' ids f new where
  queues := h'.queues.trans h.queues
  jobs := by rw [h'.jobs, h.jobs, append_nil, map_id]
  keepsId := h.keepsId
  keepsQueue := h.keepsQueue
  attempts := h.attempts
  budget := h.budget
  known := h.known
  next := by rw [h'.next, h.next, length_nil, Nat.add_zero]
  oneNew := h'.oneNew
  isNew j hj := by
    have := h'.isNew j hj
    unfold QueueStore.queue? at this ⊢
    rwa [h.next, h.queues] at this

/-! ## What an operation that does not raise has done -/

section

variable {key : Option String} {p : Payload J} {prio : Int} {queueId : Nat} {out : Status}
  {w : String}

theorem queueEnqueue_eq_ok (h : queueEnqueue s now name p key prio vis = .ok (s', n)) :
    (key ≠ none ∧ s' = s) ∨ ∃ q prio', s.activeQueue? name = some q ∧ toSmallint prio = .ok prio' ∧
      s' = { s with
        jobs := s.jobs ++ [newJob s.nextJobId q.queueId now p key prio' vis]
        nextJobId := s.nextJobId + 1 } := by
  unfold queueEnqueue at h
  split at h
  · cases h
  rename_i q hq
  split at h
  · rename_i existing hexisting
    cases h
    refine .inl ⟨?_, rfl⟩
    rintro rfl
    cases hexisting
  · obtain ⟨prio', hprio, hr⟩ := map_eq_ok.mp h
    cases hr
    exact .inr ⟨q, prio', hq, hprio, rfl⟩

theorem queueLease_eq_ok (h : queueLease s now name w batch vis = .ok (s', ids)) :
    ∃ q, s.activeQueue? name = some q ∧ ids = (candidates s now q.queueId batch).map Job.jobId ∧
      (∀ j ∈ candidates s now q.queueId batch, j.attempts + 1 ≤ maxSmallint) ∧
      (∀ l ∈ s.leases, l.jobId ∉ ids) ∧
      s' = { s with
        jobs := updateWhere (fun j => ids.contains j.jobId) Job.lease s.jobs
        leases := s.leases ++ ids.mapIdx fun i id =>
          ⟨s.nextLeaseId + i, id, w, now + vis.getD q.defaultVisibilityMs * 1000⟩
        nextLeaseId := s.nextLeaseId + ids.length } := by
  unfold queueLease at h
  split at h
  · cases h
  rename_i q hq
  dsimp only at h
  split at h
  · cases h
  rename_i hattempts
  split at h
  · cases h
  rename_i hleases
  cases h
  refine ⟨q, hq, rfl, fun j hj => ?_, fun l hl hid => ?_, rfl⟩
  · by_contra hgt
    exact hattempts (any_eq_true.mpr ⟨j, hj, decide_eq_true (by omega)⟩)
  · exact hleases (any_eq_true.mpr ⟨l, hl, contains_iff_mem.mpr hid⟩)

theorem queueNack_eq_ok (h : queueNack s now n err = .ok (s', out)) :
    ∃ job, s.job? n = some job ∧ job.status = .leased ∧
      (outOfRetries (s.queue? job.queueId) job = true ∧
        enqueueDeadLetter ((s.deleteLeases (·.jobId == n)).updateJobs
          (·.jobId == n) (Job.bury err)) now (s.queue? job.queueId) job err = .ok s' ∨
      outOfRetries (s.queue? job.queueId) job = false ∧
        s' = (s.deleteLeases (·.jobId == n)).updateJobs (·.jobId == n)
          (Job.requeue now err)) := by
  unfold queueNack at h
  split at h
  · cases h
  rename_i job hjob
  split at h
  · cases h
  rename_i hleased
  refine ⟨job, hjob, not_not.mp hleased, ?_⟩
  dsimp only at h
  split at h
  · rename_i hout
    obtain ⟨s₃, h₃, hr⟩ := map_eq_ok.mp h
    cases hr
    exact .inl ⟨hout, h₃⟩
  · rename_i hout
    cases h
    exact .inr ⟨Bool.eq_false_iff.mpr hout, rfl⟩

/-! ## Each operation -/

theorem queueEnqueue_spec (h : queueEnqueue s now name p key prio vis = .ok (s', n)) :
    ∃ new, StepSpec s s' [] id new := by
  obtain ⟨-, rfl⟩ | ⟨q, prio, hq, -, rfl⟩ := queueEnqueue_eq_ok h
  · exact ⟨[], stepSpec_refl s'⟩
  refine ⟨[newJob s.nextJobId q.queueId now p key prio vis], { stepSpec_refl s with
      jobs := by simp
      next := rfl
      oneNew := Nat.le_refl 1
      isNew := fun j hj => ?_ }⟩
  obtain rfl := mem_singleton.mp hj
  refine ⟨rfl, rfl, ?_⟩
  exact find?_isSome.mpr ⟨q, mem_of_find?_eq_some hq, by simp [newJob]⟩

theorem enqueueDeadLetter_spec {q : Option QueueRow} {job : Job J}
    (h : enqueueDeadLetter s now q job err = .ok s') : ∃ new, StepSpec s s' [] id new := by
  unfold enqueueDeadLetter at h
  split at h
  · cases h
    exact ⟨[], stepSpec_refl s⟩
  split at h
  · cases h
  · obtain ⟨r, hr, rfl⟩ := map_eq_ok.mp h
    exact queueEnqueue_spec hr

theorem mem_candidates {j : Job J} (h : j ∈ candidates s now queueId batch) :
    j ∈ s.jobs ∧ j.queueId = queueId ∧ j.status = .pending ∧ j.visibleAt ≤ now := by
  have hmem := (mem_insertionSort _).mp (mem_of_mem_take h)
  obtain ⟨hj, hp⟩ := mem_filter.mp hmem
  simp only [Bool.and_eq_true, beq_iff_eq, decide_eq_true_eq] at hp
  exact ⟨hj, hp.1.1, hp.1.2, hp.2⟩

theorem candidates_nodup (hd : DistinctJobs s) :
    ((candidates s now queueId batch).map Job.jobId).Nodup := by
  refine List.Nodup.sublist ((take_sublist _ _).map _) ?_
  refine ((perm_insertionSort _ _).map Job.jobId).nodup_iff.mpr ?_
  exact hd.nodup.sublist (filter_sublist.map _)

theorem queueLease_spec (hd : DistinctJobs s)
    (h : queueLease s now name w batch vis = .ok (s', ids)) :
    StepSpec s s' ids (fun j => if ids.contains j.jobId then j.lease else j) [] := by
  obtain ⟨q, -, rfl, -, -, rfl⟩ := queueLease_eq_ok h
  have hpicked : ∀ j ∈ s.jobs,
      j.jobId ∈ (candidates s now q.queueId batch).map Job.jobId → j.status = .pending := by
    intro j hj hid
    obtain ⟨c, hc, hcid⟩ := mem_map.mp hid
    obtain ⟨hcs, -, hpend, -⟩ := mem_candidates hc
    exact hd.eq_of_jobId hcs hj hcid ▸ hpend
  exact {
    queues := rfl
    jobs := by rw [append_nil]; rfl
    keepsId := fun j => by split <;> rfl
    keepsQueue := fun j => by split <;> rfl
    attempts := fun j _ => by
      simp only [contains_eq_mem, decide_eq_true_eq]
      split
      · rw [count_eq_one_of_mem (candidates_nodup hd) ‹_›]
        rfl
      · rw [count_eq_zero_of_not_mem ‹_›]
        rfl
    budget := fun j hj q' _ hw => by
      simp only [contains_eq_mem, decide_eq_true_eq]
      split
      · have hp := hpicked j hj ‹_›
        unfold WithinBudget slack at hw ⊢
        rw [if_pos hp] at hw
        exact Nat.succ_le_succ hw
      · exact hw
    known := fun id hid => by
      obtain ⟨c, hc, rfl⟩ := mem_map.mp hid
      exact hd.below c (mem_candidates hc).1
    next := rfl
    oneNew := Nat.zero_le 1
    isNew := by simp }

theorem queueAck_spec (s : QueueStore J) (n : Nat) : ∃ f, StepSpec s (queueAck s n).1 [] f [] :=
  ⟨_, stepSpec_update rfl rfl rfl (fun _ => ⟨rfl, rfl, rfl⟩) fun j _ _ q _ hw => by
    have := slack_le_one j
    unfold WithinBudget at hw ⊢
    rw [slack_of_ne_pending (by simp)]
    show j.attempts ≤ _
    omega⟩

theorem queueNack_spec (hd : DistinctJobs s) (h : queueNack s now n err = .ok (s', out)) :
    ∃ f new, StepSpec s s' [] f new := by
  obtain ⟨job, hjob, -, ⟨-, hdead⟩ | ⟨hret, rfl⟩⟩ := queueNack_eq_ok h
  · obtain ⟨new, hnew⟩ := enqueueDeadLetter_spec hdead
    refine ⟨fun j => if j.jobId == n then j.bury err else j, new, StepSpec.append ?_ hnew⟩
    refine stepSpec_update (g := Job.bury err) rfl rfl rfl (fun _ => ⟨rfl, rfl, rfl⟩)
      fun j _ _ q _ hw => ?_
    have := slack_le_one j
    unfold WithinBudget at hw ⊢
    rw [slack_of_ne_pending (by simp [Job.bury])]
    show j.attempts ≤ _
    omega
  refine ⟨_, [], stepSpec_update (g := Job.requeue now err) rfl rfl rfl
    (fun _ => ⟨rfl, rfl, rfl⟩) fun j hj hjn q hq _ => ?_⟩
  have hjob' := mem_of_find?_eq_some hjob
  have hid : job.jobId = n := by simpa using find?_some hjob
  have hjn' : j.jobId = n := by simpa using hjn
  obtain rfl : job = j := hd.eq_of_jobId hjob' hj (hid.trans hjn'.symm)
  rw [hq] at hret
  have hlt : ¬ q.maxRetries ≤ job.attempts := by simpa [outOfRetries] using hret
  show job.attempts ≤ q.maxRetries + _
  omega

end

theorem queueReap_spec (hop : ReapsInTime s (.reap now)) :
    ∃ f, StepSpec s (queueReapExpiredLeases s now).1 [] f [] :=
  ⟨_, stepSpec_update rfl rfl rfl (fun _ => ⟨rfl, rfl, rfl⟩) fun j hj hp q hq _ => by
    simp only [Bool.and_eq_true, contains_eq_mem, decide_eq_true_eq, beq_iff_eq] at hp
    have := hop j hj hp.2 hp.1 q hq
    show j.attempts ≤ q.maxRetries + _
    omega⟩

/-- **What any operation does to the jobs.** -/
theorem queueStep_spec (hd : DistinctJobs s) {op : QueueOp J} (hop : ReapsInTime s op) :
    ∃ f new, StepSpec s (queueStep s op) (delivered s op) f new := by
  cases op with
  | enqueue now q p key prio vis =>
    show ∃ f new,
      StepSpec s (commitOr s ((queueEnqueue s now q (.user p) key prio vis).map _)) _ f new
    cases h : queueEnqueue s now q (.user p) key prio vis with
    | error e => exact ⟨id, [], stepSpec_refl s⟩
    | ok r => exact ⟨id, queueEnqueue_spec h⟩
  | lease now q w batch vis =>
    simp only [queueStep, delivered]
    cases h : queueLease s now q w batch vis with
    | error e => exact ⟨id, [], stepSpec_refl s⟩
    | ok r => exact ⟨_, [], queueLease_spec hd h⟩
  | ack n =>
    obtain ⟨f, hf⟩ := queueAck_spec s n
    exact ⟨f, [], hf⟩
  | nack now n err =>
    show ∃ f new, StepSpec s (commitOr s ((queueNack s now n err).map _)) _ f new
    cases h : queueNack s now n err with
    | error e => exact ⟨id, [], stepSpec_refl s⟩
    | ok r => exact queueNack_spec hd h
  | reap now =>
    obtain ⟨f, hf⟩ := queueReap_spec hop
    exact ⟨f, [], hf⟩

theorem queueStep_jobs (hd : DistinctJobs s) (op : QueueOp J) :
    ∃ f new, JobsSpec s (queueStep s op) (delivered s op) f new := by
  have hjobs {op : QueueOp J} (hop : ReapsInTime s op) :
      ∃ f new, JobsSpec s (queueStep s op) (delivered s op) f new := by
    obtain ⟨f, new, h⟩ := queueStep_spec hd hop
    exact ⟨f, new, h.toJobsSpec⟩
  cases op with
  | reap now => exact ⟨_, [], jobsSpec_update rfl rfl rfl fun _ => ⟨rfl, rfl, rfl⟩⟩
  | enqueue | lease | ack | nack => exact hjobs trivial

end

/-! ## Runs -/

structure Budgeted (s : QueueStore J) : Prop where
  distinct : DistinctJobs s
  budget : ∀ j ∈ s.jobs, ∃ q, s.queue? j.queueId = some q ∧ WithinBudget q j

theorem budgeted_newStore (queues : List QueueRow) : Budgeted (newStore (J := J) queues) :=
  ⟨⟨nodup_nil, forall_mem_nil _⟩, forall_mem_nil _⟩

theorem JobsSpec.mem (h : JobsSpec s s' ids f new) {j : Job J} (hj : j ∈ s'.jobs) :
    (∃ j₀ ∈ s.jobs, f j₀ = j) ∨ j ∈ new := by
  rw [h.jobs] at hj
  exact (mem_append.mp hj).imp_left mem_map.mp

theorem JobsSpec.queue? (h : JobsSpec s s' ids f new) (id : Nat) : s'.queue? id = s.queue? id := by
  unfold QueueStore.queue?
  rw [h.queues]

theorem JobsSpec.distinct (h : JobsSpec s s' ids f new) (hd : DistinctJobs s) :
    DistinctJobs s' := by
  have hmap : s'.jobs.map Job.jobId = s.jobs.map Job.jobId ++ new.map Job.jobId := by
    rw [h.jobs, map_append, List.map_map]
    exact congrArg (· ++ _) (map_congr_left fun j _ => h.keepsId j)
  constructor
  · rw [hmap]
    refine List.Nodup.append hd.nodup ?_ ?_
    · have hone := h.oneNew
      rcases new with _ | ⟨j, _ | ⟨j', rest⟩⟩
      · exact nodup_nil
      · exact nodup_singleton _
      · simp at hone
    intro id hid hid'
    obtain ⟨j, hj, rfl⟩ := mem_map.mp hid
    obtain ⟨j', hj', he⟩ := mem_map.mp hid'
    have := hd.below j hj
    have := (h.isNew j' hj').1
    omega
  · intro j hj
    rw [h.next]
    rcases h.mem hj with ⟨j₀, hj₀, rfl⟩ | hj
    · rw [h.keepsId]
      exact Nat.lt_add_right _ (hd.below j₀ hj₀)
    · have := (h.isNew j hj).1
      have := length_pos_of_mem hj
      omega

theorem StepSpec.budgeted (h : StepSpec s s' ids f new) (hb : Budgeted s) : Budgeted s' := by
  refine ⟨h.distinct hb.distinct, fun j hj => ?_⟩
  rcases h.mem hj with ⟨j₀, hj₀, rfl⟩ | hj
  · obtain ⟨q, hq, hw⟩ := hb.budget j₀ hj₀
    refine ⟨q, ?_, h.budget j₀ hj₀ q hq hw⟩
    rw [h.keepsQueue, h.queue?, hq]
  obtain ⟨-, hzero, hq⟩ := h.isNew j hj
  obtain ⟨q, hq⟩ := Option.isSome_iff_exists.mp hq
  refine ⟨q, by rw [h.queue?, hq], ?_⟩
  unfold WithinBudget
  omega

/-- `attempts` counts the deliveries in `log`. -/
structure Counts (s : QueueStore J) (log : List Nat) : Prop where
  jobs : ∀ j ∈ s.jobs, log.count j.jobId = j.attempts
  unused : ∀ id, s.nextJobId ≤ id → log.count id = 0

theorem JobsSpec.counts (h : JobsSpec s s' ids f new) {log : List Nat} (hc : Counts s log) :
    Counts s' (log ++ ids) := by
  have hknown : ∀ id, s.nextJobId ≤ id → ids.count id = 0 := fun id hid =>
    count_eq_zero_of_not_mem fun hmem => by
      have := h.known id hmem
      omega
  constructor
  · intro j hj
    rw [count_append]
    rcases h.mem hj with ⟨j₀, hj₀, rfl⟩ | hj
    · rw [h.keepsId, h.attempts j₀ hj₀, hc.jobs j₀ hj₀]
    · obtain ⟨hid, hzero, -⟩ := h.isNew j hj
      rw [hid, hzero, hc.unused _ (Nat.le_refl _), hknown _ (Nat.le_refl _)]
  · intro id hid
    rw [h.next] at hid
    rw [count_append, hc.unused id (by omega), hknown id (by omega)]

/-- **`attempts` counts the deliveries of a run**, and the budget is kept along it. -/
theorem attempts_eq_deliveries :
    ∀ (ops : List (QueueOp J)) {s : QueueStore J} {log : List Nat}, Budgeted s → Counts s log →
      Along queueStep ReapsInTime s ops →
      Budgeted (run queueStep s ops) ∧ Counts (run queueStep s ops) (log ++ deliveries s ops)
  | [], s, log, hb, hc, _ => by
    rw [deliveries, append_nil]
    exact ⟨hb, hc⟩
  | op :: ops, s, log, hb, hc, hrun => by
    obtain ⟨f, new, h⟩ := queueStep_spec hb.distinct hrun.1
    rw [deliveries, ← append_assoc]
    exact attempts_eq_deliveries ops (h.budgeted hb) (h.counts hc) hrun.2

/-- **No job is delivered more than `max_retries + 1` times**, in a run whose reaper never finds an
expired lease of a job that has used them up. -/
theorem delivered_at_most (queues : List QueueRow) (ops : List (QueueOp J))
    (hrun : Along queueStep ReapsInTime (newStore queues) ops) (job : Job J)
    (hjob : job ∈ (run queueStep (newStore queues) ops).jobs) (q : QueueRow)
    (hq : (run queueStep (newStore queues) ops).queue? job.queueId = some q) :
    (deliveries (newStore queues) ops).count job.jobId ≤ q.maxRetries + 1 := by
  have hnone : Counts (newStore queues : QueueStore J) [] :=
    ⟨forall_mem_nil _, fun _ _ => rfl⟩
  obtain ⟨hb, hc⟩ := attempts_eq_deliveries ops (budgeted_newStore queues) hnone hrun
  obtain ⟨q', hq', hw⟩ := hb.budget job hjob
  obtain rfl : q' = q := Option.some.inj (hq'.symm.trans hq)
  have hcount := hc.jobs job hjob
  have := slack_le_one job
  unfold WithinBudget at hw
  rw [nil_append] at hcount
  omega

def onceQueue : QueueRow := ⟨1, "q", 30000, 0, none, false⟩

/-- A queue that allows one more delivery. -/
def retryQueue : QueueRow := ⟨1, "q", 30000, 1, none, false⟩

/-- A job whose first worker dies: the reaper revives it, and the second worker fails. -/
def reapedOnce : List (QueueOp Unit) :=
  [.enqueue 0 "q" () none 0 none, .lease 1 "q" "w" 1 none, .reap 30000001,
    .lease 30000001 "q" "w" 1 none, .nack 30000002 1 none]

theorem delivered_at_most_reapedOnce :
    deliveries (newStore [retryQueue]) reapedOnce = [1, 1] ∧
      (deliveries (newStore [retryQueue]) reapedOnce).count 1 ≤ 1 + 1 := by
  have hreap : ReapsInTime (run queueStep (newStore [retryQueue]) (reapedOnce.take 2))
      (.reap 30000001) := by
    intro j hj _ _ q hq
    cases mem_singleton.mp hj
    cases hq
    decide
  refine ⟨by decide, ?_⟩
  exact delivered_at_most [retryQueue] reapedOnce
    ⟨trivial, trivial, hreap, trivial, trivial, trivial⟩
    ⟨1, 1, .user (), none, 0, .dead, 0, 30000001, 2, none⟩ (by decide) retryQueue rfl

/-- The worker dies with the lease, the lease expires, the reaper revives the job: the second
delivery of a job whose queue allows one. -/
theorem reaper_redelivers :
    onceQueue.maxRetries + 1 = 1 ∧ deliveries (newStore [onceQueue])
        [QueueOp.enqueue 0 "q" () none 0 none, .lease 1 "q" "w" 1 none, .reap 30000001,
          .lease 30000001 "q" "w" 1 none] = [1, 1] :=
  ⟨rfl, by decide⟩

end MaluDb.Queue
