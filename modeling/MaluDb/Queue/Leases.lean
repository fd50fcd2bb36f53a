import MaluDb.Queue.Retries

/-!
# Jobs and their leases

* `Matched`: a leased job has a lease, and the job of a lease exists and is leased. With the
  constraints of the two tables this is one lease for each leased job.
* `Release`: operations delete the leases of some jobs, set the leased ones among these to another
  status, and append jobs that are not leased.
-/

namespace MaluDb.Queue

open MaluDb.Lib List

variable {J : Type} {s s' : QueueStore J}

/-- The leases of a job. -/
def QueueStore.leasesOf (s : QueueStore J) (id : Nat) : List Lease :=
  s.leases.filter (·.jobId == id)

structure Matched (s : QueueStore J) : Prop where
  jobs : DistinctJobs s
  leases : (s.leases.map Lease.jobId).Nodup
  held : ∀ j ∈ s.jobs, j.status = .leased → ∃ l ∈ s.leases, l.jobId = j.jobId
  owned : ∀ l ∈ s.leases, ∃ j ∈ s.jobs, j.jobId = l.jobId ∧ j.status = .leased

/-! ## One operation -/

/-- What an operation leaves: the store as it was if it raises. -/
inductive Outcome (s : QueueStore J) : QueueOp J → QueueStore J → Prop
  | raised {op : QueueOp J} : Outcome s op s
  | enqueued {now : Int} {name : String} {p : J} {key : Option String} {prio : Int}
    {vis : Option Int} {s' : QueueStore J} {n : Nat}
    (h : queueEnqueue s now name (.user p) key prio vis = .ok (s', n)) :
    Outcome s (.enqueue now name p key prio vis) s'
  | leased {now : Int} {name w : String} {batch : Int} {vis : Option Int} {s' : QueueStore J}
    {ids : List Nat} (h : queueLease s now name w batch vis = .ok (s', ids)) :
    Outcome s (.lease now name w batch vis) s'
  | acked {n : Nat} : Outcome s (.ack n) (queueAck s n).1
  | nacked {now : Int} {n : Nat} {err : Option String} {s' : QueueStore J} {out : Status}
    (h : queueNack s now n err = .ok (s', out)) : Outcome s (.nack now n err) s'
  | reaped {now : Int} : Outcome s (.reap now) (queueReapExpiredLeases s now).1

theorem queueStep_outcome (s : QueueStore J) (op : QueueOp J) : Outcome s op (queueStep s op) := by
  cases op with
  | enqueue now name p key prio vis =>
    simp only [queueStep]
    cases h : queueEnqueue s now name (.user p) key prio vis with
    | error e => exact .raised
    | ok r => exact .enqueued h
  | lease now name w batch vis =>
    simp only [queueStep]
    cases h : queueLease s now name w batch vis with
    | error e => exact .raised
    | ok r => exact .leased h
  | ack n => exact .acked
  | nack now n err =>
    simp only [queueStep]
    cases h : queueNack s now n err with
    | error e => exact .raised
    | ok r => exact .nacked h
  | reap now => exact .reaped

variable {now : Int} {name : String} {vis : Option Int} {n : Nat} {err : Option String}

section

variable {key : Option String} {prio : Int} {out : Status} {batch : Int} {w : String}

theorem queueEnqueue_leases {p : Payload J}
    (h : queueEnqueue s now name p key prio vis = .ok (s', n)) : s'.leases = s.leases := by
  obtain ⟨-, rfl⟩ | ⟨q', prio', -, -, rfl⟩ := queueEnqueue_eq_ok h
  · rfl
  · rfl

theorem queueNack_leases (h : queueNack s now n err = .ok (s', out)) :
    s'.leases = deleteWhere (·.jobId == n) s.leases := by
  obtain ⟨job, -, -, ⟨-, hdead⟩ | ⟨-, rfl⟩⟩ := queueNack_eq_ok h
  · unfold enqueueDeadLetter at hdead
    split at hdead
    · cases hdead
      rfl
    split at hdead
    · cases hdead
    · obtain ⟨n, hdead⟩ := map_fst_eq_ok.mp hdead
      exact queueEnqueue_leases hdead
  · rfl

theorem Outcome.leases {op : QueueOp J} (h : Outcome s op s') (hjobs : DistinctJobs s)
    (hnodup : (s.leases.map Lease.jobId).Nodup) : (s'.leases.map Lease.jobId).Nodup := by
  have hdelete (p : Lease → Bool) : ((deleteWhere p s.leases).map Lease.jobId).Nodup :=
    hnodup.sublist (filter_sublist.map _)
  cases h with
  | raised => exact hnodup
  | enqueued h =>
    rw [queueEnqueue_leases h]
    exact hnodup
  | @leased _ _ _ _ _ _ ids h =>
    obtain ⟨q', -, hids, -, hleases, rfl⟩ := queueLease_eq_ok h
    have hnew (n : Nat) (w : String) (e : Int) :
        (ids.mapIdx fun i id => (⟨n + i, id, w, e⟩ : Lease)).map Lease.jobId = ids :=
      ext_getElem (by simp) fun i hi hi' => by simp
    rw [map_append, hnew]
    refine hnodup.append (hids ▸ candidates_nodup hjobs) fun n hn hn' => ?_
    obtain ⟨l, hl, rfl⟩ := mem_map.mp hn
    exact hleases l hl hn'
  | acked => exact hdelete _
  | nacked h =>
    rw [queueNack_leases h]
    exact hdelete _
  | reaped => exact hdelete _

/-- The leases of the jobs in `ids` are deleted, and `new` is appended to the jobs. -/
structure Release (s s' : QueueStore J) (ids : Nat → Bool) (p : Job J → Bool)
    (f : Job J → Job J) (new : List (Job J)) : Prop where
  leases : s'.leases = deleteWhere (fun l => ids l.jobId) s.leases
  jobs : s'.jobs = updateWhere p f s.jobs ++ new
  updated : ∀ j ∈ s.jobs, j.status = .leased → p j = ids j.jobId
  released : ∀ j, (f j).status ≠ .leased
  fresh : ∀ j ∈ new, j.status ≠ .leased

section

variable {ids : Nat → Bool} {p : Job J → Bool} {f : Job J → Job J} {new : List (Job J)}
  (h : Release s s' ids p f new) (hs : Matched s)
include h hs

theorem Release.held : ∀ j ∈ s'.jobs, j.status = .leased → ∃ l ∈ s'.leases, l.jobId = j.jobId := by
  intro j hj hleased
  rw [h.jobs] at hj
  rcases mem_append.mp hj with hj | hj
  · obtain ⟨j₀, hj₀, rfl⟩ := mem_updateWhere.mp hj
    by_cases hp : p j₀ = true
    · rw [if_pos hp] at hleased
      exact absurd hleased (h.released j₀)
    rw [if_neg hp] at hleased ⊢
    obtain ⟨l, hl, hid⟩ := hs.held j₀ hj₀ hleased
    have hkept : ids l.jobId = false := by
      rw [hid, ← h.updated j₀ hj₀ hleased]
      simpa using hp
    refine ⟨l, ?_, hid⟩
    rw [h.leases]
    exact mem_deleteWhere.mpr ⟨hl, hkept⟩
  · exact absurd hleased (h.fresh j hj)

theorem Release.owned : ∀ l ∈ s'.leases, ∃ j ∈ s'.jobs, j.jobId = l.jobId ∧ j.status = .leased := by
  intro l hl
  rw [h.leases] at hl
  obtain ⟨hl, hkept⟩ := mem_deleteWhere.mp hl
  obtain ⟨j, hj, hid, hleased⟩ := hs.owned l hl
  refine ⟨j, ?_, hid, hleased⟩
  have hp : p j = false := by rw [h.updated j hj hleased, hid, hkept]
  rw [h.jobs]
  exact mem_append_left _ (mem_updateWhere.mpr ⟨j, hj, if_neg (by simp [hp])⟩)

end

theorem queueEnqueue_release {p : Payload J}
    (h : queueEnqueue s now name p key prio vis = .ok (s', n)) :
    s'.leases = s.leases ∧
      ∃ new, s'.jobs = s.jobs ++ new ∧ ∀ j ∈ new, j.status ≠ Status.leased := by
  refine ⟨queueEnqueue_leases h, ?_⟩
  obtain ⟨-, rfl⟩ | ⟨q, prio', -, -, rfl⟩ := queueEnqueue_eq_ok h
  · exact ⟨[], (append_nil _).symm, by simp⟩
  · refine ⟨_, rfl, fun j hj => ?_⟩
    rw [mem_singleton.mp hj]
    simp [newJob]

theorem enqueueDeadLetter_release {q : Option QueueRow} {job : Job J}
    (h : enqueueDeadLetter s now q job err = .ok s') :
    ∃ new, s'.jobs = s.jobs ++ new ∧ ∀ j ∈ new, j.status ≠ Status.leased := by
  unfold enqueueDeadLetter at h
  split at h
  · cases h
    exact ⟨[], (append_nil _).symm, by simp⟩
  split at h
  · cases h
  · obtain ⟨n, h⟩ := map_fst_eq_ok.mp h
    exact (queueEnqueue_release h).2

theorem queueNack_release (h : queueNack s now n err = .ok (s', out)) :
    ∃ f new, Release s s' (· == n) (·.jobId == n) f new := by
  have hleases := queueNack_leases h
  obtain ⟨job, -, -, ⟨-, hdead⟩ | ⟨-, rfl⟩⟩ := queueNack_eq_ok h
  · obtain ⟨new, hjobs, hnew⟩ := enqueueDeadLetter_release hdead
    exact ⟨Job.bury err, new, hleases, hjobs, fun _ _ _ => rfl, by simp [Job.bury], hnew⟩
  · exact ⟨Job.requeue now err, [], rfl, (append_nil _).symm, fun _ _ _ => rfl,
      by simp [Job.requeue], by simp⟩

section

variable {ids : List Nat} (h : queueLease s now name w batch vis = .ok (s', ids)) (hs : Matched s)
include h hs

theorem queueLease_held :
    ∀ j ∈ s'.jobs, j.status = .leased → ∃ l ∈ s'.leases, l.jobId = j.jobId := by
  obtain ⟨q, -, -, -, -, rfl⟩ := queueLease_eq_ok h
  intro j hj hleased
  obtain ⟨j₀, hj₀, rfl⟩ := mem_updateWhere.mp hj
  by_cases hid : j₀.jobId ∈ ids
  · rw [if_pos (contains_iff_mem.mpr hid)]
    obtain ⟨i, hi, hget⟩ := getElem_of_mem hid
    refine ⟨_, mem_append_right _ (mem_mapIdx.mpr ⟨i, hi, rfl⟩), ?_⟩
    exact hget
  · rw [if_neg (by simpa using hid)] at hleased ⊢
    obtain ⟨l, hl, hlid⟩ := hs.held j₀ hj₀ hleased
    exact ⟨l, mem_append_left _ hl, hlid⟩

theorem queueLease_owned :
    ∀ l ∈ s'.leases, ∃ j ∈ s'.jobs, j.jobId = l.jobId ∧ j.status = .leased := by
  obtain ⟨q, -, hids, -, hapart, rfl⟩ := queueLease_eq_ok h
  intro l hl
  rcases mem_append.mp hl with hl | hl
  · -- a lease that was there is of another job, since a job has one lease at most
    obtain ⟨j, hj, hid, hleased⟩ := hs.owned l hl
    refine ⟨j, mem_updateWhere.mpr ⟨j, hj, if_neg ?_⟩, hid, hleased⟩
    have hnot := hapart l hl
    rw [← hid] at hnot
    simpa using hnot
  obtain ⟨i, hi, rfl⟩ := mem_mapIdx.mp hl
  have hmem : ids[i] ∈ (candidates s now q.queueId batch).map Job.jobId :=
    hids ▸ getElem_mem hi
  obtain ⟨c, hc, hcid⟩ := mem_map.mp hmem
  refine ⟨c.lease, mem_updateWhere.mpr ⟨c, (mem_candidates hc).1, if_pos ?_⟩, hcid, rfl⟩
  rw [hcid]
  exact contains_iff_mem.mpr (getElem_mem hi)

end

end

/-- **An operation keeps the two tables matched.** -/
theorem Matched.after (hs : Matched s) (op : QueueOp J) : Matched (queueStep s op) := by
  obtain ⟨f, new, hjobs⟩ := queueStep_jobs hs.jobs op
  have ho := queueStep_outcome s op
  have hd := hjobs.distinct hs.jobs
  have hl := ho.leases hs.jobs hs.leases
  have hrelease {ids : Nat → Bool} {p : Job J → Bool} {f : Job J → Job J} {new : List (Job J)}
      (h : Release s (queueStep s op) ids p f new) : Matched (queueStep s op) :=
    ⟨hd, hl, h.held hs, h.owned hs⟩
  generalize queueStep s op = s' at ho hd hl hrelease
  cases ho with
  | raised => exact hs
  | enqueued h =>
    obtain ⟨hleases, new, hnew, hfresh⟩ := queueEnqueue_release h
    -- no job is released: the tests of `Release` never hold
    have h : Release s s' (fun _ => false) (fun _ => false) (Job.bury none) new := by
      refine ⟨?_, ?_, fun _ _ _ => rfl, by simp [Job.bury], hfresh⟩
      · simp [hleases, deleteWhere]
      · simp [hnew, updateWhere]
    exact hrelease h
  | leased h => exact ⟨hd, hl, queueLease_held h hs, queueLease_owned h hs⟩
  | @acked n =>
    refine @hrelease (· == n) _ _ [] ⟨rfl, (append_nil _).symm, fun j _ hj => ?_, ?_,
      by simp⟩
    · simp [hj]
    · simp
  | nacked h =>
    obtain ⟨f, new, h⟩ := queueNack_release h
    exact hrelease h
  | @reaped now =>
    refine @hrelease (expired s now).contains _ _ [] ⟨rfl, (append_nil _).symm,
      fun j _ hj => ?_, ?_, by simp⟩
    · simp [hj]
    · simp

/-! ## Runs -/

theorem matched_newStore (queues : List QueueRow) : Matched (newStore (J := J) queues) where
  jobs := (budgeted_newStore queues).distinct
  leases := nodup_nil
  held := forall_mem_nil _
  owned := forall_mem_nil _

theorem Matched.length_leasesOf (hs : Matched s) {j : Job J} (hj : j ∈ s.jobs)
    (hleased : j.status = .leased) : (s.leasesOf j.jobId).length = 1 := by
  obtain ⟨l, hl, hid⟩ := hs.held j hj hleased
  have hcount : (s.leases.map Lease.jobId).count j.jobId = 1 :=
    count_eq_one_of_mem hs.leases (hid ▸ mem_map_of_mem hl)
  rw [count_eq_countP, countP_map, countP_eq_length_filter] at hcount
  exact hcount

theorem Matched.leasesOf_eq_nil (hs : Matched s) {j : Job J} (hj : j ∈ s.jobs)
    (hleased : j.status ≠ .leased) : s.leasesOf j.jobId = [] := by
  refine filter_eq_nil_iff.mpr fun l hl hid => hleased ?_
  obtain ⟨j', hj', hid', hleased'⟩ := hs.owned l hl
  have hsame : j'.jobId = j.jobId := by rw [hid', beq_iff_eq.mp hid]
  exact hs.jobs.eq_of_jobId hj' hj hsame ▸ hleased'

/-- **In every run a job is leased exactly if it has exactly one lease**, a job in another status
has none, and every lease is of a job that is there. -/
theorem leased_iff_one_lease (queues : List QueueRow) (ops : List (QueueOp J)) :
    (∀ j ∈ (run queueStep (newStore queues) ops).jobs, (j.status = .leased ↔
        ((run queueStep (newStore queues) ops).leasesOf j.jobId).length = 1) ∧
      (j.status ≠ .leased → (run queueStep (newStore queues) ops).leasesOf j.jobId = [])) ∧
    ∀ l ∈ (run queueStep (newStore queues) ops).leases,
      ∃ j ∈ (run queueStep (newStore queues) ops).jobs, j.jobId = l.jobId ∧ j.status = .leased := by
  have hm : Matched (run queueStep (newStore queues) ops) :=
    run_inv (fun _ op hs => hs.after op) ops (matched_newStore queues)
  refine ⟨fun j hj => ⟨⟨hm.length_leasesOf hj, fun hone => ?_⟩, hm.leasesOf_eq_nil hj⟩, hm.owned⟩
  by_contra hleased
  rw [hm.leasesOf_eq_nil hj hleased] at hone
  cases hone

end MaluDb.Queue
