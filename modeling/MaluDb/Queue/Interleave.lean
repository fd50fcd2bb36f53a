import MaluDb.Lib.ReadCommitted
import MaluDb.Queue.Model

/-!
# Workers on one job

`queue_lease`, `queue_ack`, `queue_nack` and `queue_reap_expired_leases` on one job as transactions
that interleave statement by statement under READ COMMITTED.

* The rows are the job, its lease and its dead letter entries (`Key`). The queue's own row does not
  change; it is the parameter `q`.
* A `Frame` says which statement comes next. A transaction may make several calls (`Stmt.call`).
* `queue_lease` may pass the job over, so `leaseSkip` is always possible.
-/

namespace MaluDb.Queue.Interleave

open MaluDb.Lib.ReadCommitted Txn

/-! ## Rows and frames -/

/-- The rows of one job. -/
inductive Key where
  | job
  | lease
  | deadLetter (id : Nat)
  deriving DecidableEq

/-- The type of each row. -/
abbrev RowType (J : Type) : Key → Type
  | .job => Job J
  | .lease => Lease
  | .deadLetter _ => Job J

inductive Frame (J : Type) where
  | lease (now : Int) (workerId : String) (visibilityMs : Option Int)
  | ack
  | ackJob
  | nack (now : Int) (error : Option String)
  | nackLease (now : Int) (error : Option String) (job : Job J)
  | nackJob (now : Int) (error : Option String) (job : Job J)
  | enqueueDlq (now : Int) (error : Option String) (job : Job J)
  | reap (now : Int)
  | returned

variable {J : Type}

def Frame.IsCall : Frame J → Prop
  | .lease .. | .ack | .nack .. | .reap .. => True
  | _ => False

/-- The UPDATE of `queue_nack`. -/
def Frame.IsNackJob : Frame J → Prop
  | .nackJob .. => True
  | _ => False

def Frame.IsEnqueueDlq : Frame J → Prop
  | .enqueueDlq .. => True
  | _ => False

variable {l : Frame J} {rows db : Rows (RowType J)} {j : Job J} {t : Txn (RowType J) (Frame J)}
  {e : Effect (RowType J) (Frame J)} {q : QueueRow}

theorem Frame.IsCall.not_enqueueDlq (h : l.IsCall) : ¬ l.IsEnqueueDlq := by
  cases l <;> simp_all [Frame.IsCall, Frame.IsEnqueueDlq]

def setJobAndLease (j : Job J) (l : Option Lease) : Writes (RowType J)
  | .job => some (some j)
  | .lease => some l
  | .deadLetter _ => none

/-- The statements on a job of the queue `q`. -/
inductive Stmt (q : QueueRow) (view : Rows (RowType J)) :
    Frame J → Effect (RowType J) (Frame J) → Prop
  | call {l : Frame J} (hl : l.IsCall) : Stmt q view .returned (.read l)
  | lease {now : Int} {w : String} {vis : Option Int} {j : Job J} {id : Nat}
    (hj : view .job = some j) (hp : j.status = .pending) (hv : j.visibleAt ≤ now)
    (ha : j.attempts + 1 ≤ maxSmallint) (hl : view .lease = none) :
    Stmt q view (.lease now w vis) (.write (setJobAndLease j.lease
      (some ⟨id, j.jobId, w, now + vis.getD q.defaultVisibilityMs * 1000⟩)) .returned)
  | leaseSkip {now : Int} {w : String} {vis : Option Int} :
    Stmt q view (.lease now w vis) (.read .returned)
  | ackLease {l : Lease} (hl : view .lease = some l) :
    Stmt q view .ack (.write (.single .lease none) .ackJob)
  | ackNoLease (hl : view .lease = none) : Stmt q view .ack (.read .ackJob)
  | ackJob {j : Job J} (hj : view .job = some j) (hs : j.status = .leased) :
    Stmt q view .ackJob (.write (.single .job
      (some { j with status := .completed, lastError := none })) .returned)
  | ackNotLeased (hs : ∀ j : Job J, view .job = some j → j.status ≠ .leased) :
    Stmt q view .ackJob (.read .returned)
  | nack {now : Int} {err : Option String} {v : Job J} (hv : view .job = some v)
    (hs : v.status = .leased) : Stmt q view (.nack now err) (.read (.nackLease now err v))
  | nackLease {now : Int} {err : Option String} {v : Job J} {l : Lease}
    (hl : view .lease = some l) :
    Stmt q view (.nackLease now err v) (.write (.single .lease none) (.nackJob now err v))
  | nackNoLease {now : Int} {err : Option String} {v : Job J} (hl : view .lease = none) :
    Stmt q view (.nackLease now err v) (.read (.nackJob now err v))
  | bury {now : Int} {err : Option String} {v j : Job J} (hr : outOfRetries (some q) v = true)
    (hj : view .job = some j) :
    Stmt q view (.nackJob now err v)
      (.write (.single .job (some (j.bury err))) (.enqueueDlq now err v))
  | requeue {now : Int} {err : Option String} {v j : Job J} (hr : outOfRetries (some q) v = false)
    (hj : view .job = some j) :
    Stmt q view (.nackJob now err v) (.write (.single .job (some (j.requeue now err))) .returned)
  | noDlq {now : Int} {err : Option String} {v : Job J} (hd : q.dlqQueueId = none) :
    Stmt q view (.enqueueDlq now err v) (.read .returned)
  | enqueueDlq {now : Int} {err : Option String} {v : Job J} {dlq n : Nat}
    (hd : q.dlqQueueId = some dlq) (hn : view (.deadLetter n) = none) :
    Stmt q view (.enqueueDlq now err v) (.write (.single (.deadLetter n) (some
      (newJob n dlq now (.deadLetter q.name v.jobId err v.payload) none 0 none))) .returned)
  | reap {now : Int} {l : Lease} {j : Job J} (hl : view .lease = some l) (he : l.expiresAt ≤ now)
    (hj : view .job = some j) (hs : j.status = .leased) :
    Stmt q view (.reap now)
      (.write (setJobAndLease { j with status := .pending, visibleAt := now } none) .returned)
  | reapLease {now : Int} {l : Lease} (hl : view .lease = some l) (he : l.expiresAt ≤ now)
    (hs : ∀ j : Job J, view .job = some j → j.status ≠ .leased) :
    Stmt q view (.reap now) (.write (.single .lease none) .returned)
  | reapNothing {now : Int} (he : ∀ l : Lease, view .lease = some l → now < l.expiresAt) :
    Stmt q view (.reap now) (.read .returned)

/-- The calls on a job of the queue `q`. -/
def queueProgram (q : QueueRow) : Program (RowType J) (Frame J) where
  init := Frame.IsCall
  stmt _ view l e := Stmt q view l e
  done l := l = .returned

/-! ## The outline -/

def Live (rows : Rows (RowType J)) : Prop :=
  ∀ j : Job J, rows .job = some j → j.status ≠ .completed ∧ j.status ≠ .dead

/-- The job is completed. -/
def Completed (rows : Rows (RowType J)) : Prop :=
  ∃ j : Job J, rows .job = some j ∧ j.status = .completed

/-- There is at most one dead letter entry, and then the job is dead. -/
structure Settled (rows : Rows (RowType J)) : Prop where
  unique : ∀ a b, rows (.deadLetter a) ≠ none → rows (.deadLetter b) ≠ none → a = b
  dead : ∀ a, rows (.deadLetter a) ≠ none → ∃ j : Job J, rows .job = some j ∧ j.status = .dead

/-- The condition on a step: the UPDATE of `queue_nack` does not find the job completed or dead. -/
def NackFindsLive (s : State (RowType J) (Frame J)) (i : Nat) (a : Act) : Prop :=
  a = .stmt → ∀ t, s.txns i = some t → t.loc.IsNackJob → Live (t.view s.db)

structure At (db : Rows (RowType J)) (t : Txn (RowType J) (Frame J)) : Prop where
  live : t.writes .job ≠ none → Live db
  owned : ∀ a, t.writes (.deadLetter a) ≠ none → t.writes .job ≠ none
  settled : Settled (t.view db)
  burying : t.loc.IsEnqueueDlq → t.writes .job ≠ none ∧
    (∃ j : Job J, t.view db .job = some j ∧ j.status = .dead) ∧
      ∀ a, t.view db (.deadLetter a) = none

theorem Settled.noDeadLetter (h : Settled rows) (hl : Live rows) (a : Nat) :
    rows (.deadLetter a) = none := by
  by_contra hne
  obtain ⟨j, hj, hd⟩ := h.dead a hne
  exact (hl j hj).2 hd

theorem settled_of_noDeadLetter (h : ∀ a, rows (.deadLetter a) = none) : Settled rows :=
  ⟨fun a _ ha => absurd (h a) ha, fun a ha => absurd (h a) ha⟩

theorem Settled.congr {rows' : Rows (RowType J)} (h : Settled rows) (hj : rows' .job = rows .job)
    (hd : ∀ a, rows' (.deadLetter a) = rows (.deadLetter a)) : Settled rows' where
  unique a b := by
    rw [hd, hd]
    exact h.unique a b
  dead a := by
    rw [hd, hj]
    exact h.dead a

theorem not_live_of_completed (h : Completed rows) : ¬ Live rows := by
  obtain ⟨j, hj, hc⟩ := h
  exact fun hl => (hl j hj).1 hc

theorem live_of_status (hj : rows .job = some j) (h : j.status ≠ .completed ∧ j.status ≠ .dead) :
    Live rows := by
  intro j' hj'
  rw [hj] at hj'
  cases hj'
  exact h

section

variable (h : At db t)
include h

theorem At.live_of_view (hl : Live (t.view db)) : Live db := by
  by_cases hw : t.writes .job = none
  · intro j hj
    exact hl j ((Writes.over_of_none hw db).trans hj)
  · exact h.live hw

theorem At.keep (hj : e.sets .job = none) (hd : ∀ a, e.sets (.deadLetter a) = none)
    (hl : ¬ e.loc.IsEnqueueDlq) : At db (t.exec e) where
  live hw := h.live (by rwa [exec_writes_of_none hj] at hw)
  owned a := by
    rw [exec_writes_of_none hj, exec_writes_of_none (hd a)]
    exact h.owned a
  settled := h.settled.congr (view_exec_of_none hj db) fun a => view_exec_of_none (hd a) db
  burying hloc := absurd hloc hl

theorem At.writeJob (hlive : Live (t.view db)) (hj : e.sets .job = some (some j))
    (hd : ∀ a, e.sets (.deadLetter a) = none) (hl : e.loc.IsEnqueueDlq → j.status = .dead) :
    At db (t.exec e) := by
  have hnone : ∀ a, (t.exec e).view db (.deadLetter a) = none := fun a => by
    rw [view_exec_of_none (hd a)]
    exact h.settled.noDeadLetter hlive a
  have hw : (t.exec e).writes .job ≠ none := by
    rw [exec_writes_of_some hj]
    simp
  exact
    { live := fun _ => h.live_of_view hlive
      owned := fun _ _ => hw
      settled := settled_of_noDeadLetter hnone
      burying := fun hloc => ⟨hw, ⟨j, view_exec_of_some hj db, hl hloc⟩, hnone⟩ }

theorem At.updateJob (hlive : Live (t.view db)) (hl : l.IsEnqueueDlq → j.status = .dead) :
    At db (t.exec (.write (.single .job (some j)) l)) :=
  h.writeJob (j := j) hlive (by simp) (by simp) hl

theorem At.enqueue (hloc : t.loc.IsEnqueueDlq) (id : Nat) (row : Job J) :
    At db (t.exec (.write (.single (.deadLetter id) (some row)) .returned)) := by
  obtain ⟨hw, hdead, hnone⟩ := h.burying hloc
  have hj : (Effect.write (.single (.deadLetter id) (some row))
      (Frame.returned (J := J)) : Effect (RowType J) _).sets .job = none := by simp
  have hid : ∀ a, (t.exec (.write (.single (.deadLetter id) (some row)) .returned)).view db
      (.deadLetter a) ≠ none → a = id := by
    intro a ha
    by_contra hne
    rw [view_exec_of_none (by simp [hne])] at ha
    exact ha (hnone a)
  exact
    { live := fun _ => h.live hw
      owned := fun _ _ => by rwa [exec_writes_of_none hj]
      settled := ⟨fun a b ha hb => (hid a ha).trans (hid b hb).symm, fun _ _ => by
        rwa [view_exec_of_none hj]⟩
      burying := False.elim }

theorem At.stmt (hc : t.loc.IsNackJob → Live (t.view db)) (hl : t.loc = l)
    (he : Stmt q (t.view db) l e) : At db (t.exec e) := by
  cases he with
  | call hcall => exact h.keep rfl (fun _ => rfl) hcall.not_enqueueDlq
  | lease hj hp =>
    exact h.writeJob (live_of_status hj (by simp [hp])) rfl (fun _ => rfl) False.elim
  | ackLease | nackLease | reapLease => exact h.keep (by simp) (by simp) id
  | leaseSkip | ackNoLease | ackNotLeased | nack | nackNoLease | noDlq | reapNothing =>
    exact h.keep rfl (fun _ => rfl) id
  | ackJob hj hs =>
    exact h.updateJob (live_of_status hj (by simp [hs])) False.elim
  | bury hr hj => exact h.updateJob (hc (by rw [hl]; trivial)) fun _ => rfl
  | requeue hr hj => exact h.updateJob (hc (by rw [hl]; trivial)) False.elim
  | enqueueDlq hd hn => exact h.enqueue (by rw [hl]; trivial) _ _
  | reap hl he hj hs =>
    exact h.writeJob (live_of_status hj (by simp [hs])) rfl (fun _ => rfl) False.elim

theorem At.stable {t' : Txn (RowType J) (Frame J)} (h' : At db t') (hx : Apart t.locks t'.locks) :
    At (t'.writes.over db) t := by
  by_cases hw : t.writes .job = none
  · have hd : ∀ a, t.writes (.deadLetter a) = none := fun a => by
      by_contra hne
      exact h.owned a hne hw
    exact
      { live := fun hne => absurd hw hne
        owned := h.owned
        settled := h'.settled.congr (Writes.over_of_none hw _) fun a => Writes.over_of_none (hd a) _
        burying := fun hloc => absurd hw (h.burying hloc).1 }
  have hj' : t'.writes .job = none := by
    by_contra hne
    exact hx _ (t.covers _ hw) (t'.covers _ hne)
  have hd' : ∀ a, t'.writes (.deadLetter a) = none := fun a => by
    by_contra hne
    exact h'.owned a hne hj'
  -- both rows the assertion is about are as before
  have hview : ∀ {k}, t'.writes k = none → t.view (t'.writes.over db) k = t.view db k :=
    fun hk => congrArg (Option.getD _) (Writes.over_of_none hk db)
  exact
    { live := fun _ j hj => h.live hw j ((Writes.over_of_none hj' db).symm.trans hj)
      owned := h.owned
      settled := h.settled.congr (hview hj') fun a => hview (hd' a)
      burying := fun hloc => by
        obtain ⟨_, hdead, hnone⟩ := h.burying hloc
        refine ⟨hw, ?_, fun a => ?_⟩
        · rwa [hview hj']
        · rw [hview (hd' a)]
          exact hnone a }

end

theorem queueOutline (q : QueueRow) :
    Outline (queueProgram (J := J) q) NackFindsLive Settled At where
  start _ _ hg hl :=
    { live := fun h => absurd rfl h
      owned := fun _ h => absurd rfl h
      settled := hg
      burying := fun hloc => absurd hloc hl.not_enqueueDlq }
  stmt _ _ t _ ht _ ha hc he := ha.stmt (hc rfl t ht) rfl he
  commit _ _ _ ha _ := ha.settled
  stable _ _ _ _ ha ha' _ hx := ha.stable ha' hx

/-! ## Runs -/

section

variable {s s' : State (RowType J) (Frame J)} (h : Completed s.db) (hg : Good Settled At s)
include h hg

theorem Completed.step {i : Nat} {a : Act} (hs : Step (queueProgram q) s i a s') :
    Completed s'.db := by
  cases hs with
  | start | stmt | abort => exact h
  | commit t ht _ =>
    have hw : t.writes .job = none := by
      by_contra hne
      exact not_live_of_completed h ((hg.txns i t ht).live hne)
    obtain ⟨j, hj, hc⟩ := h
    exact ⟨j, (Writes.over_of_none hw s.db).trans hj, hc⟩

theorem Completed.reach (hr : Reach (queueProgram q) NackFindsLive s s') : Completed s'.db :=
  (hr.induct (I := fun s => Good Settled At s ∧ Completed s.db)
    (fun _ _ _ _ h hc hs => ⟨(queueOutline q).step h.1 hc hs, h.2.step h.1 hs⟩) ⟨hg, h⟩).2

end

/-- **Completed is final and a job is buried once**, in every run in which the UPDATE of
`queue_nack` never finds the job completed or dead. The run starts from any job that has no dead
letter entry. -/
theorem completed_final_and_one_dead_letter (q : QueueRow) (db₀ : Rows (RowType J))
    (h₀ : ∀ id, db₀ (.deadLetter id) = none) (s : State (RowType J) (Frame J))
    (hs : Reach (queueProgram q) NackFindsLive (State.idle db₀) s) :
    (∀ a b, s.db (.deadLetter a) ≠ none → s.db (.deadLetter b) ≠ none → a = b) ∧
      ∀ s', Reach (queueProgram q) NackFindsLive s s' → Completed s.db → Completed s'.db := by
  have hg : Good Settled At s :=
    (queueOutline q).reach (good_idle (settled_of_noDeadLetter h₀)) hs
  exact ⟨hg.rows.unique, fun _ hr hc => hc.reach hg hr⟩

/-- A job that a worker has leased once. -/
def leasedJob : Job Unit :=
  { jobId := 1, queueId := 1, payload := .user (), idempotencyKey := none, priority := 0
    status := .leased, enqueuedAt := 0, visibleAt := 0, attempts := 1, lastError := none }

/-- The job and its lease. -/
def leasedRows : Rows (RowType Unit)
  | .job => some leasedJob
  | .lease => some ⟨1, 1, "worker", 30000000⟩
  | .deadLetter _ => none

/-- The queue of `leasedJob`. -/
def retryQueue : QueueRow := ⟨1, "work", 30000, 2, none, false⟩

/-- A queue without retries, with a dead letter queue. -/
def buryQueue : QueueRow := ⟨1, "work", 30000, 1, some 2, false⟩

theorem nackFindsLive_only {db : Rows (RowType J)} {t : Txn (RowType J) (Frame J)}
    (h : ¬ t.loc.IsNackJob) (i : Nat) (a : Act) : NackFindsLive (State.only db t) i a := by
  intro _ t' ht' hnack
  rw [(eq_of_only ht').2] at hnack
  exact absurd hnack h

/-- An `ack` of the leased job. -/
def acked : Txn (RowType Unit) (Frame Unit) :=
  ((begin .ack).exec (.write (.single .lease none) .ackJob)).exec
    (.write (.single .job (some { leasedJob with status := .completed, lastError := none }))
      .returned)

/-- A later call of `queue_reap_expired`, which finds no lease. -/
def reaped : Txn (RowType Unit) (Frame Unit) := (begin (.reap 40000000)).exec (.read .returned)

/-- The job is acknowledged, and a reaper comes after its lease would have expired. -/
theorem completed_final_and_one_dead_letter_acked :
    ∃ s s', Reach (queueProgram retryQueue) NackFindsLive (State.idle leasedRows) s ∧
      Completed s.db ∧ Reach (queueProgram retryQueue) NackFindsLive s s' ∧
      s'.db = reaped.writes.over s.db ∧ Completed s'.db := by
  have hack : Reach (queueProgram retryQueue) NackFindsLive (State.idle leasedRows)
      (State.idle (acked.writes.over leasedRows)) := by
    refine Reach.only_commit (t := acked) ?_ (nackFindsLive_only id _ _) rfl
    refine Reach.only_stmt ?_ (nackFindsLive_only id _ _) (.ackJob rfl rfl)
    refine Reach.only_stmt ?_ (nackFindsLive_only id _ _)
      (.ackLease (show leasedRows .lease = some _ from rfl))
    exact Reach.only_start .refl nofun trivial
  have hreap : Reach (queueProgram retryQueue) NackFindsLive
      (State.idle (acked.writes.over leasedRows))
      (State.idle (reaped.writes.over (acked.writes.over leasedRows))) := by
    refine Reach.only_commit (t := reaped) ?_ (nackFindsLive_only id _ _) rfl
    refine Reach.only_stmt ?_ (nackFindsLive_only id _ _) (.reapNothing fun _ h => nomatch h)
    exact Reach.only_start .refl nofun trivial
  have hcompleted : Completed (acked.writes.over leasedRows) := ⟨_, rfl, rfl⟩
  exact ⟨_, _, hack, hcompleted, hreap, rfl,
    (completed_final_and_one_dead_letter retryQueue leasedRows (fun _ => rfl) _ hack).2 _ hreap
      hcompleted⟩

/-- A worker that has called `queue_nack` and read the job. -/
def staleNack : Txn (RowType Unit) (Frame Unit) :=
  (begin (.nack 5 none)).exec (.read (.nackLease 5 none leasedJob))

theorem quiet_staleNack : State.Quiet
    ⟨leasedRows, Function.update (fun _ => none) 0 (some staleNack)⟩ 1 :=
  quiet_only (t := staleNack) (locks_exec_read _ _) leasedRows 1

/-- While a worker is between the SELECT and the UPDATE of `queue_nack`, another one acknowledges
the job, which the first then sets back to pending; or calls `queue_nack` too, and the job, out of
retries, is buried twice. -/
theorem nack_revives_completed :
    (∃ s s' : State (RowType Unit) (Frame Unit),
      Reach (queueProgram retryQueue) AnyStep (State.idle leasedRows) s ∧
      Reach (queueProgram retryQueue) AnyStep s s' ∧ Completed s.db ∧ ¬ Completed s'.db) ∧
    ∃ s : State (RowType Unit) (Frame Unit),
      Reach (queueProgram buryQueue) AnyStep (State.idle leasedRows) s ∧
      s.db (.deadLetter 2) ≠ none ∧ s.db (.deadLetter 3) ≠ none := by
  have hidle := quiet_idle (L := Frame Unit) leasedRows 0
  have hstale : ∀ q, Reach (queueProgram q) AnyStep (State.idle leasedRows)
      ⟨leasedRows, Function.update (fun _ => none) 0 (some staleNack)⟩ := fun _ =>
    .begin_alone (l := Frame.nack 5 none) (free_anyStep _ _) hidle rfl trivial
      (.stmt .refl (.nack rfl rfl))
  refine ⟨?_, ?_⟩
  · have hack : Reach (queueProgram retryQueue) AnyStep _ _ :=
      .call_alone (l := Frame.ack) (free_anyStep _ _) quiet_staleNack rfl trivial
        (.stmt (.stmt .refl (.ackLease rfl)) (.ackJob rfl rfl)) rfl
    refine ⟨_, _, (hstale _).trans hack, .commit_alone (i := 0) (t := staleNack)
      (free_anyStep _ _) (hidle.update _ _) rfl
      (.stmt (.stmt .refl (.nackNoLease rfl)) (.requeue rfl rfl)) rfl,
      ⟨_, rfl, rfl⟩, ?_⟩
    rintro ⟨j, hj, hc⟩
    cases hj
    cases hc
  · have hfirst : Reach (queueProgram buryQueue) AnyStep _ _ :=
      .call_alone (l := Frame.nack 6 none) (free_anyStep _ _) quiet_staleNack rfl trivial
        (.stmt (.stmt (.stmt (.stmt .refl (.nack rfl rfl)) (.nackLease rfl)) (.bury rfl rfl))
          (.enqueueDlq (n := 2) rfl rfl)) rfl
    refine ⟨_, ((hstale _).trans hfirst).trans (.commit_alone (i := 0) (t := staleNack)
      (free_anyStep _ _) (hidle.update _ _) rfl
      (.stmt (.stmt (.stmt .refl (.nackNoLease rfl)) (.bury rfl rfl))
        (.enqueueDlq (n := 3) rfl rfl)) rfl), nofun, nofun⟩

end MaluDb.Queue.Interleave
