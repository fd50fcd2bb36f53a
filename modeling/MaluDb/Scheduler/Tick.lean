import MaluDb.Scheduler.Model

/-!
# What a tick records

`schedule_run_now` records a failure and raises the error again; the block of `schedule_tick` that
catches it is a subtransaction, so the record is rolled back with the rest. `cron_next_after` is
called outside any block: if it raises, the whole tick is rolled back.

`turns` pairs each due schedule with the outside it finds when its turn comes. `Isolated`: no
failure, of an action or of `cron_next_after`, keeps another schedule from firing.
-/

namespace MaluDb.Scheduler

open MaluDb.Lib MaluDb.Cron MaluDb.Queue List

variable {J W : Type} {env : Env J W} {ses : Session} {now : Int} {db db' : Db J W}
  {r : Schedule J}

/-! ## What a tick should leave -/

section

variable (env : Env J W) (ses : Session) (now : Int) (db : Db J W)

/-- What the turn of `r` runs: the action of the schedule its name finds, whose id comes first. -/
def firing (r : Schedule J) (o : Outside J W) : Except SqlError (Nat × Outside J W × Detail) :=
  match db.named? ses r.name with
  | none => .error ⟨"schedule_run_now: schedule " ++ r.name ++ " not found", true⟩
  | some sched =>
    (scheduleExecuteAction env ses now sched.actionKind sched.actionPayload o).map fun x =>
      (sched.scheduleId, x)

def outsideAfter (o : Outside J W) : Except SqlError (Nat × Outside J W × Detail) → Outside J W
  | .ok (_, o', _) => o'
  | .error _ => o

def turns (env : Env J W) (ses : Session) (now : Int) (db : Db J W) :
    List (Schedule J) → Outside J W → List (Schedule J × Outside J W)
  | [], _ => []
  | r :: rs, o => (r, o) :: turns env ses now db rs (outsideAfter o (firing env ses now db r o))

def tickTurns : List (Schedule J × Outside J W) :=
  turns env ses now db (dueSchedules ses now db) db.outside

def newRuns (db db' : Db J W) (id : Nat) : List ScheduleRun :=
  db'.runs.rows.filter fun run => decide (db.runs.next ≤ run.runId) && run.scheduleId == id

def Reports (run : ScheduleRun) : Except SqlError (Nat × Outside J W × Detail) → Prop
  | .ok (_, _, detail) => run.status = .succeeded ∧ run.detail = some detail
  | .error e => run.status = .failed ∧ run.errorText = some e.message

/-- One finished run for each due schedule, with the outcome of its action. -/
def Recorded (db db' : Db J W) : Prop :=
  ∀ t ∈ tickTurns env ses now db, ∃ run, newRuns db db' t.1.scheduleId = [run] ∧
    run.finishedAt.isSome ∧ Reports run (firing env ses now db t.1 t.2)

/-- The turn fails: its action, or the computation of its next time. -/
def Fails (t : Schedule J × Outside J W) : Prop :=
  (∃ e, firing env ses now db t.1 t.2 = .error e) ∨
    ∃ e, cronNextAfter ses.offset t.1.cronExpr now = .error e

/-- The tick returned and left a finished run of the schedule. -/
def Fired (r : Schedule J) : Prop :=
  ∃ db' n, scheduleTick env ses now db = .returned db' n ∧
    ∃ run ∈ newRuns db db' r.scheduleId, run.finishedAt.isSome

def Isolated : Prop :=
  ∀ t ∈ tickTurns env ses now db, ∀ t' ∈ tickTurns env ses now db, t'.1 ≠ t.1 →
    Fails env ses now db t → Fired env ses now db t'.1

end

/-! ## What firing does not change -/

def Schedule.fixed (s : Schedule J) : Schedule J :=
  { s with nextRunAt := none, lastRunAt := none, lastError := none }

def Db.fixed (db : Db J W) : List (Schedule J) := db.schedules.rows.map Schedule.fixed

theorem fixed_setLastRun (db : Db J W) (id : Nat) (error : Option String) :
    (db.setLastRun id now error).fixed = db.fixed := by
  exact map_updateWhere (fun _ _ => by rfl) db.schedules.rows

theorem fixed_setNextRun (db : Db J W) (id : Nat) (t : Int) :
    (db.setNextRun id t).fixed = db.fixed := by
  exact map_updateWhere (fun _ _ => by rfl) db.schedules.rows

theorem named?_fixed (db : Db J W) (name : String) :
    (db.named? ses name).map Schedule.fixed =
      db.fixed.find? fun s => ses.sees s && s.name == name && !s.retired := by
  unfold Db.named? Db.fixed
  rw [find?_map]
  rfl

theorem firing_congr (h : db'.fixed = db.fixed) (r : Schedule J) (o : Outside J W) :
    firing env ses now db' r o = firing env ses now db r o := by
  have hfind : (db'.named? ses r.name).map Schedule.fixed =
      (db.named? ses r.name).map Schedule.fixed := by rw [named?_fixed, named?_fixed, h]
  unfold firing
  cases hs : db.named? ses r.name with
  | none =>
    rw [hs, Option.map_none, Option.map_eq_none_iff] at hfind
    rw [hfind]
  | some sched =>
    rw [hs] at hfind
    obtain ⟨sched', hs', heq⟩ := Option.map_eq_some_iff.mp hfind
    -- the columns it reads are fixed
    have hid : sched'.scheduleId = sched.scheduleId := (congrArg Schedule.scheduleId heq :)
    have hkind : sched'.actionKind = sched.actionKind := (congrArg Schedule.actionKind heq :)
    have hpay : sched'.actionPayload = sched.actionPayload :=
      (congrArg Schedule.actionPayload heq :)
    rw [hs']
    simp only [hid, hkind, hpay]

theorem turns_congr (h : db'.fixed = db.fixed) (rs : List (Schedule J)) :
    ∀ o, turns env ses now db' rs o = turns env ses now db rs o := by
  induction rs with
  | nil => exact fun _ => rfl
  | cons r rs ih =>
    intro o
    simp only [turns, firing_congr h, ih]

/-! ## One turn -/

def successRun (runId id : Nat) (now : Int) (detail : Detail) : ScheduleRun :=
  ⟨runId, id, now, some now, .succeeded, some detail, none⟩

/-- What is seen after a call that inserted the runs `new` and left the outside `o`. -/
structure After (db db' : Db J W) (new : List ScheduleRun) (o : Outside J W) : Prop where
  rows : db'.runs.rows = db.runs.rows ++ new
  next : db'.runs.next = db.runs.next + new.length
  outside : db'.outside = o
  fixed : db'.fixed = db.fixed

theorem After.refl (db : Db J W) : After db db [] db.outside :=
  ⟨(append_nil _).symm, rfl, rfl, rfl⟩

theorem After.trans {db₁ : Db J W} {new new' : List ScheduleRun} {o o' : Outside J W}
    (h : After db db₁ new o) (h' : After db₁ db' new' o') : After db db' (new ++ new') o' where
  rows := by rw [h'.rows, h.rows, append_assoc]
  next := by rw [h'.next, h.next, length_append, Nat.add_assoc]
  outside := h'.outside
  fixed := h'.fixed.trans h.fixed

theorem after_setNextRun (db : Db J W) (id : Nat) (t : Int) :
    After db (db.setNextRun id t) [] db.outside :=
  ⟨(append_nil _).symm, rfl, rfl, fixed_setNextRun db id t⟩

theorem runs_succeedRun (db : Db J W) (id : Nat) (detail : Detail) :
    ((db.insertRun id now).succeedRun db.runs.next now detail).runs.rows =
      db.runs.rows ++ [successRun db.runs.next id now detail] := by
  show updateWhere _ _ (db.runs.rows ++ [_]) = _
  unfold updateWhere
  rw [map_append, map_singleton, if_pos (beq_self_eq_true _)]
  refine congrArg (· ++ _) ((map_congr_left fun run hrun => ?_).trans (map_id _))
  have hlt := db.runs.below run hrun
  exact if_neg (by simp only [beq_iff_eq]; omega)

variable {id : Nat} {t : Schedule J × Outside J W}

theorem scheduleRunNow_of_ok {o : Outside J W} {detail : Detail}
    (h : firing env ses now db r db.outside = .ok (id, o, detail)) :
    ∃ db', scheduleRunNow env ses now r.name db = .returned db' db.runs.next ∧
      After db db' [successRun db.runs.next id now detail] o := by
  unfold firing at h
  unfold scheduleRunNow
  rcases hs : db.named? ses r.name with _ | sched
  · simp only [hs, reduceCtorEq] at h
  simp only [hs] at h ⊢
  obtain ⟨⟨o', d⟩, hact, heq⟩ := map_eq_ok.mp h
  cases heq
  have hbody : ∃ db', runBody env ses now sched db.runs.next (db.insertRun sched.scheduleId now) =
        .returned db' () ∧
      After db db' [successRun db.runs.next sched.scheduleId now detail] o := by
    unfold runBody
    rw [show (db.insertRun sched.scheduleId now).outside = db.outside from rfl, hact]
    refine ⟨_, rfl, runs_succeedRun db sched.scheduleId detail, rfl, rfl, ?_⟩
    exact fixed_setLastRun _ sched.scheduleId none
  obtain ⟨db', hbody, hafter⟩ := hbody
  refine ⟨db', ?_, hafter⟩
  simp only [block_of_returned hbody, andThen_returned]

theorem scheduleRunNow_of_error {e : SqlError}
    (h : firing env ses now db r db.outside = .error e) :
    ∃ db', scheduleRunNow env ses now r.name db = .raised db' e := by
  unfold firing at h
  unfold scheduleRunNow
  rcases hs : db.named? ses r.name with _ | sched
  · simp only [hs] at h ⊢
    cases h
    exact ⟨db, rfl⟩
  simp only [hs] at h ⊢
  have hact : scheduleExecuteAction env ses now sched.actionKind sched.actionPayload db.outside =
      .error e := by
    cases hx : scheduleExecuteAction env ses now sched.actionKind sched.actionPayload
        db.outside with
    | ok x =>
      rw [hx] at h
      cases h
    | error e' =>
      rw [hx] at h
      cases h
      rfl
  have hbody : runBody env ses now sched db.runs.next (db.insertRun sched.scheduleId now) =
      .raised (db.insertRun sched.scheduleId now) e := by
    unfold runBody
    rw [show (db.insertRun sched.scheduleId now).outside = db.outside from rfl, hact]
  cases he : e.others with
  | true => exact ⟨_, by rw [block_of_caught hbody he]; rfl⟩
  | false => exact ⟨_, by rw [block_of_uncaught hbody he]; rfl⟩

/-- The turn ends the loop: its action raises what `WHEN others` does not catch, or there is no next
time. -/
def Stops (env : Env J W) (ses : Session) (now : Int) (db : Db J W)
    (t : Schedule J × Outside J W) : Prop :=
  (∃ e, firing env ses now db t.1 t.2 = .error e ∧ e.others = false) ∨
    ∃ e, cronNextAfter ses.offset t.1.cronExpr now = .error e

theorem Stops.fails (h : Stops env ses now db t) : Fails env ses now db t :=
  h.imp (fun ⟨e, he, _⟩ => ⟨e, he⟩) id

def recordOf (runId : Nat) (now : Int) :
    Except SqlError (Nat × Outside J W × Detail) → List ScheduleRun
  | .ok (id, _, detail) => [successRun runId id now detail]
  | .error _ => []

def Visible (ses : Session) (db : Db J W) (r : Schedule J) : Prop :=
  r.fixed ∈ db.fixed ∧ ses.sees r = true

theorem Visible.of_fixed (h : Visible ses db r) (hf : db'.fixed = db.fixed) : Visible ses db' r :=
  ⟨hf ▸ h.1, h.2⟩

theorem advanceNextRun_of_visible (h : Visible ses db r) :
    advanceNextRun ses now r db = match cronNextAfter ses.offset r.cronExpr now with
      | .error e => .raised db ⟨e.message, true⟩
      | .ok t => .returned (db.setNextRun r.scheduleId t) () := by
  obtain ⟨s, hs, heq⟩ := mem_map.mp h.1
  have hid : s.scheduleId = r.scheduleId := (congrArg Schedule.scheduleId heq :)
  have howner : s.ownerSchema = r.ownerSchema := (congrArg Schedule.ownerSchema heq :)
  have hsees : ses.sees s = true := by
    unfold Session.sees
    rw [howner]
    exact h.2
  exact if_pos (any_eq_true.mpr ⟨s, hs, by simp [hsees, hid]⟩)

theorem fireBlock_of_caught
    (h : ¬ ∃ e, firing env ses now db r db.outside = .error e ∧ e.others = false) :
    ∃ db', fireBlock env ses now r db = .returned db' () ∧
      After db db' (recordOf db.runs.next now (firing env ses now db r db.outside))
        (outsideAfter db.outside (firing env ses now db r db.outside)) := by
  cases hf : firing env ses now db r db.outside with
  | ok x =>
    obtain ⟨db', hrun, hafter⟩ := scheduleRunNow_of_ok hf
    exact ⟨db', block_of_returned (by rw [hrun]; rfl), hafter⟩
  | error e =>
    obtain ⟨db', hrun⟩ := scheduleRunNow_of_error hf
    have he : e.others = true := by
      by_contra hno
      exact h ⟨e, hf, by simpa using hno⟩
    exact ⟨db, block_of_caught (by rw [hrun]; rfl) he, After.refl db⟩

theorem tickTurn_returned (hv : Visible ses db r) (h : ¬ Stops env ses now db (r, db.outside)) :
    ∃ db', tickTurn env ses now r db = .returned db' () ∧
      After db db' (recordOf db.runs.next now (firing env ses now db r db.outside))
        (outsideAfter db.outside (firing env ses now db r db.outside)) := by
  obtain ⟨hfire, hcron⟩ := not_or.mp h
  obtain ⟨db₁, hblock, hafter⟩ := fireBlock_of_caught hfire
  unfold tickTurn
  rw [hblock, andThen_returned, advanceNextRun_of_visible (hv.of_fixed hafter.fixed)]
  cases ht : cronNextAfter ses.offset r.cronExpr now with
  | error e => exact absurd ⟨e, ht⟩ hcron
  | ok t =>
    refine ⟨_, rfl, ?_⟩
    have := hafter.trans (after_setNextRun db₁ r.scheduleId t)
    rwa [append_nil, hafter.outside] at this

theorem tickTurn_raised (hv : Visible ses db r) (h : Stops env ses now db (r, db.outside)) :
    ∃ db' e, tickTurn env ses now r db = .raised db' e := by
  by_cases hfire : ∃ e, firing env ses now db r db.outside = .error e ∧ e.others = false
  · obtain ⟨e, he, hother⟩ := hfire
    obtain ⟨db', hrun⟩ := scheduleRunNow_of_error he
    refine ⟨db', e, ?_⟩
    unfold tickTurn fireBlock
    rw [block_of_uncaught (e := e) (by rw [hrun]; rfl) hother]
    rfl
  · obtain ⟨e, he⟩ := h.resolve_left hfire
    obtain ⟨db₁, hblock, hafter⟩ := fireBlock_of_caught hfire
    refine ⟨db₁, ⟨e.message, true⟩, ?_⟩
    unfold tickTurn
    rw [hblock, andThen_returned, advanceNextRun_of_visible (hv.of_fixed hafter.fixed), he]

/-! ## The loop -/

def records (env : Env J W) (ses : Session) (now : Int) (db : Db J W) :
    List (Schedule J × Outside J W) → Nat → List ScheduleRun
  | [], _ => []
  | t :: ts, next =>
    let new := recordOf next now (firing env ses now db t.1 t.2)
    new ++ records env ses now db ts (next + new.length)

theorem records_congr (h : db'.fixed = db.fixed) (ts : List (Schedule J × Outside J W)) :
    ∀ next, records env ses now db' ts next = records env ses now db ts next := by
  induction ts with
  | nil => exact fun _ => rfl
  | cons t ts ih =>
    intro next
    simp only [records, firing_congr h, ih]

theorem stops_congr (h : db'.fixed = db.fixed) (t : Schedule J × Outside J W) :
    Stops env ses now db' t ↔ Stops env ses now db t := by
  unfold Stops
  rw [firing_congr h]

theorem tickLoop_returned (rs : List (Schedule J)) : ∀ (db : Db J W) (n : Nat),
    (∀ r ∈ rs, Visible ses db r) →
    (∀ t ∈ turns env ses now db rs db.outside, ¬ Stops env ses now db t) →
    ∃ db', tickLoop env ses now rs n db = .returned db' (n + rs.length) ∧
      db'.runs.rows = db.runs.rows ++
        records env ses now db (turns env ses now db rs db.outside) db.runs.next := by
  induction rs with
  | nil => exact fun _ n _ _ => ⟨_, rfl, (append_nil _).symm⟩
  | cons r rs ih =>
    intro db n hv hstops
    simp only [turns, forall_mem_cons] at hv hstops
    obtain ⟨db₁, hturn, hafter⟩ := tickTurn_returned hv.1 hstops.1
    have hturns : turns env ses now db₁ rs db₁.outside = turns env ses now db rs
        (outsideAfter db.outside (firing env ses now db r db.outside)) := by
      rw [turns_congr hafter.fixed, hafter.outside]
    obtain ⟨db', hloop, hrows⟩ := ih db₁ (n + 1)
      (fun r' hr' => (hv.2 r' hr').of_fixed hafter.fixed) fun t ht => by
        rw [hturns] at ht
        exact fun h => hstops.2 t ht ((stops_congr hafter.fixed t).mp h)
    refine ⟨db', ?_, ?_⟩
    · simp only [tickLoop, hturn, andThen_returned, hloop, length_cons]
      congr 1
      omega
    · rw [hrows, hturns, records_congr hafter.fixed, hafter.rows, hafter.next, append_assoc]
      rfl

theorem tickLoop_raised (rs : List (Schedule J)) : ∀ (db : Db J W) (n : Nat),
    (∀ r ∈ rs, Visible ses db r) →
    (∃ t ∈ turns env ses now db rs db.outside, Stops env ses now db t) →
    ∃ db' e, tickLoop env ses now rs n db = .raised db' e := by
  induction rs with
  | nil => exact fun _ n _ ⟨t, ht, _⟩ => absurd ht not_mem_nil
  | cons r rs ih =>
    intro db n hv hstops
    simp only [forall_mem_cons] at hv
    by_cases hstop : Stops env ses now db (r, db.outside)
    · obtain ⟨db', e, hturn⟩ := tickTurn_raised hv.1 hstop
      exact ⟨db', e, by simp only [tickLoop, hturn, andThen_raised]⟩
    obtain ⟨db₁, hturn, hafter⟩ := tickTurn_returned hv.1 hstop
    obtain ⟨t, ht, hstops⟩ := hstops
    rcases mem_cons.mp ht with rfl | ht
    · exact absurd hstops hstop
    obtain ⟨db', e, hloop⟩ := ih db₁ (n + 1)
      (fun r' hr' => (hv.2 r' hr').of_fixed hafter.fixed)
      ⟨t, by rwa [turns_congr hafter.fixed, hafter.outside],
        (stops_congr hafter.fixed t).mpr hstops⟩
    exact ⟨db', e, by simp only [tickLoop, hturn, andThen_returned, hloop]⟩

/-! ## The tick -/

theorem map_fst_turns (rs : List (Schedule J)) :
    ∀ o, (turns env ses now db rs o).map Prod.fst = rs := by
  induction rs with
  | nil => exact fun _ => rfl
  | cons r rs ih =>
    intro o
    simp only [turns, map_cons, ih]

theorem map_fst_tickTurns (env : Env J W) (ses : Session) (now : Int) (db : Db J W) :
    (tickTurns env ses now db).map Prod.fst = dueSchedules ses now db :=
  map_fst_turns _ _

theorem mem_dueSchedules : r ∈ dueSchedules ses now db → r ∈ db.schedules.rows ∧ ses.sees r := by
  intro h
  obtain ⟨hmem, hp⟩ := mem_filter.mp ((mem_insertionSort _).mp h)
  simp only [Bool.and_eq_true] at hp
  exact ⟨hmem, hp.1.1.1⟩

theorem visible_of_due (h : r ∈ dueSchedules ses now db) : Visible ses db r :=
  ⟨mem_map_of_mem (mem_dueSchedules h).1, (mem_dueSchedules h).2⟩

theorem dueSchedules_nodup (ses : Session) (now : Int) (db : Db J W) :
    (dueSchedules ses now db).Nodup := by
  refine (perm_insertionSort _ _).nodup_iff.mpr (List.Nodup.filter _ ?_)
  exact List.Nodup.of_map _ db.schedules.nodup

theorem fst_mem_due (h : t ∈ tickTurns env ses now db) : t.1 ∈ dueSchedules ses now db := by
  have hmem := mem_map_of_mem (f := Prod.fst) h
  rwa [map_fst_tickTurns] at hmem

theorem turn_eq {t' : Schedule J × Outside J W} (h : t ∈ tickTurns env ses now db)
    (h' : t' ∈ tickTurns env ses now db) (heq : t.1.scheduleId = t'.1.scheduleId) : t = t' := by
  have hfst : t.1 = t'.1 := Serial.eq_of_key (mem_dueSchedules (fst_mem_due h)).1
    (mem_dueSchedules (fst_mem_due h')).1 heq
  refine inj_on_of_nodup_map (f := Prod.fst) ?_ h h' hfst
  rw [map_fst_tickTurns]
  exact dueSchedules_nodup ses now db

theorem tick_returned (h : ∀ t ∈ tickTurns env ses now db, ¬ Stops env ses now db t) :
    ∃ db', scheduleTick env ses now db = .returned db' (dueSchedules ses now db).length ∧
      db'.runs.rows = db.runs.rows ++
        records env ses now db (tickTurns env ses now db) db.runs.next := by
  obtain ⟨db', hloop, hrows⟩ := tickLoop_returned (dueSchedules ses now db) db 0
    (fun r hr => visible_of_due hr) h
  rw [Nat.zero_add] at hloop
  exact ⟨db', hloop, hrows⟩

theorem tick_raised (h : ∃ t ∈ tickTurns env ses now db, Stops env ses now db t) :
    ∃ db' e, scheduleTick env ses now db = .raised db' e :=
  tickLoop_raised (dueSchedules ses now db) db 0 (fun _ hr => visible_of_due hr) h

/-! ## The recorded runs -/

section

variable (ts : List (Schedule J × Outside J W))

theorem mem_records {run : ScheduleRun} : ∀ {next : Nat},
    run ∈ records env ses now db ts next → next ≤ run.runId ∧
      ∃ t ∈ ts, ∃ x, firing env ses now db t.1 t.2 = .ok (run.scheduleId, x) := by
  induction ts with
  | nil => exact fun h => absurd h not_mem_nil
  | cons t ts ih =>
    intro next h
    rcases mem_append.mp h with h | h
    · cases hf : firing env ses now db t.1 t.2 with
      | error e =>
        rw [hf] at h
        cases h
      | ok x =>
        rw [hf] at h
        cases mem_singleton.mp h
        exact ⟨le_rfl, t, mem_cons_self, x.2, hf⟩
    · obtain ⟨hle, t', ht', hx⟩ := ih h
      exact ⟨by omega, t', mem_cons_of_mem t ht', hx⟩

theorem newRuns_eq {new : List ScheduleRun} (hrows : db'.runs.rows = db.runs.rows ++ new)
    (hnew : ∀ run ∈ new, db.runs.next ≤ run.runId) (id : Nat) :
    newRuns db db' id = new.filter fun run => run.scheduleId == id := by
  unfold newRuns
  rw [hrows, filter_append]
  have hold : db.runs.rows.filter (fun run => decide (db.runs.next ≤ run.runId) &&
      run.scheduleId == id) = [] := by
    refine filter_eq_nil_iff.mpr fun run hrun => ?_
    have := db.runs.below run hrun
    simp only [Bool.and_eq_true, decide_eq_true_eq, not_and]
    omega
  rw [hold]
  exact filter_congr fun run hrun => by simp [hnew run hrun]

theorem filter_records_eq_nil (next : Nat)
    (h : ∀ t ∈ ts, ∀ x, firing env ses now db t.1 t.2 ≠ .ok (id, x)) :
    (records env ses now db ts next).filter (·.scheduleId == id) = [] := by
  refine filter_eq_nil_iff.mpr fun run hrun hid => ?_
  obtain ⟨-, t, ht, x, hx⟩ := mem_records ts hrun
  exact h t ht x (eq_of_beq hid ▸ hx)

theorem filter_records_singleton : ∀ (next : Nat),
    (ts.map (·.1.scheduleId)).Nodup →
    (∀ t ∈ ts, ∃ x, firing env ses now db t.1 t.2 = .ok (t.1.scheduleId, x)) →
    ∀ t ∈ ts, ∃ runId o detail, firing env ses now db t.1 t.2 = .ok (t.1.scheduleId, o, detail) ∧
      (records env ses now db ts next).filter (·.scheduleId == t.1.scheduleId) =
        [successRun runId t.1.scheduleId now detail] := by
  induction ts with
  | nil => exact by simp
  | cons t₀ ts ih =>
    intro next hnodup hok t ht
    obtain ⟨hnotin, hnodup⟩ := nodup_cons.mp hnodup
    obtain ⟨⟨o₀, d₀⟩, hx₀⟩ := hok t₀ mem_cons_self
    have hok' : ∀ t ∈ ts, ∃ x, firing env ses now db t.1 t.2 = .ok (t.1.scheduleId, x) :=
      fun t ht => hok t (mem_cons_of_mem t₀ ht)
    simp only [records, hx₀, recordOf, filter_append]
    rcases mem_cons.mp ht with rfl | ht
    · refine ⟨next, o₀, d₀, hx₀, ?_⟩
      rw [filter_records_eq_nil ts _ fun t' ht' x hx => ?_, append_nil,
        filter_cons_of_pos (by simp [successRun]), filter_nil]
      obtain ⟨x', hx'⟩ := hok' t' ht'
      rw [hx'] at hx
      have hid : t'.1.scheduleId = t.1.scheduleId := congrArg Prod.fst (Except.ok.inj hx)
      exact hnotin (mem_map.mpr ⟨t', ht', hid⟩)
    · obtain ⟨runId, o, d, hx, hrec⟩ := ih (next + 1) hnodup hok' t ht
      refine ⟨runId, o, d, hx, ?_⟩
      have hne : t₀.1.scheduleId ≠ t.1.scheduleId := fun h =>
        hnotin (mem_map.mpr ⟨t, ht, h.symm⟩)
      rw [filter_cons_of_neg (by simpa [successRun] using hne)]
      exact hrec

end

/-! ## The result -/

theorem named?_of_firing {x : Outside J W × Detail}
    (h : firing env ses now db t.1 t.2 = .ok (id, x)) :
    ∃ sched ∈ db.schedules.rows, db.named? ses t.1.name = some sched ∧ sched.scheduleId = id ∧
      sched.name = t.1.name := by
  unfold firing at h
  split at h
  · cases h
  rename_i sched hs
  obtain ⟨y, -, heq⟩ := map_eq_ok.mp h
  have hp := find?_some hs
  simp only [Bool.and_eq_true, beq_iff_eq] at hp
  exact ⟨sched, mem_of_find?_eq_some hs, hs, congrArg Prod.fst heq, hp.1.2⟩

theorem firing_of_named (hn : db.named? ses t.1.name = some t.1)
    (hok : ¬ ∃ e, firing env ses now db t.1 t.2 = .error e) :
    ∃ x, firing env ses now db t.1 t.2 = .ok (t.1.scheduleId, x) := by
  cases hf : firing env ses now db t.1 t.2 with
  | error e => exact absurd ⟨e, hf⟩ hok
  | ok x =>
    obtain ⟨id, y⟩ := x
    obtain ⟨sched, -, hs, hid, -⟩ := named?_of_firing hf
    cases hn.symm.trans hs
    exact ⟨y, by rw [hid]⟩

theorem recorded_of_clean
    (h : ∀ t ∈ tickTurns env ses now db,
      ¬ Fails env ses now db t ∧ db.named? ses t.1.name = some t.1) {n : Nat}
    (htick : scheduleTick env ses now db = .returned db' n) : Recorded env ses now db db' := by
  obtain ⟨db₁, htick', hrows⟩ := tick_returned fun t ht hs => (h t ht).1 hs.fails
  cases htick.symm.trans htick'
  have hnodup : ((tickTurns env ses now db).map (·.1.scheduleId)).Nodup := by
    have hdue : ((dueSchedules ses now db).map Schedule.scheduleId).Nodup :=
      List.Nodup.map_on (fun a ha b hb heq => Serial.eq_of_key (mem_dueSchedules ha).1
        (mem_dueSchedules hb).1 heq) (dueSchedules_nodup ses now db)
    rwa [← map_fst_tickTurns env, List.map_map] at hdue
  intro t ht
  obtain ⟨runId, o, detail, hf, hrec⟩ := filter_records_singleton (tickTurns env ses now db)
    db.runs.next hnodup (fun t ht => firing_of_named (h t ht).2 fun he => (h t ht).1 (.inl he))
    t ht
  refine ⟨successRun runId t.1.scheduleId now detail, ?_, rfl, ?_⟩
  · rw [newRuns_eq hrows fun run hrun => (mem_records _ hrun).1, hrec]
  · rw [hf]
    exact ⟨rfl, rfl⟩

theorem clean_of_recorded (hstops : ∀ t ∈ tickTurns env ses now db, ¬ Stops env ses now db t)
    (h : ∀ db' n, scheduleTick env ses now db = .returned db' n → Recorded env ses now db db') :
    ∀ t ∈ tickTurns env ses now db,
      ¬ Fails env ses now db t ∧ db.named? ses t.1.name = some t.1 := by
  obtain ⟨db', htick, hrows⟩ := tick_returned hstops
  have hrec := h db' _ htick
  -- so every due schedule was fired by some turn
  have hfired : ∀ t ∈ tickTurns env ses now db, ∃ t' ∈ tickTurns env ses now db, ∃ x,
      firing env ses now db t'.1 t'.2 = .ok (t.1.scheduleId, x) := by
    intro t ht
    obtain ⟨run, hrun, -⟩ := hrec t ht
    by_contra hno
    rw [newRuns_eq hrows fun run hrun => (mem_records _ hrun).1,
      filter_records_eq_nil _ _ fun t' ht' x hx => hno ⟨t', ht', x, hx⟩] at hrun
    cases hrun
  have hnamed : ∀ t ∈ tickTurns env ses now db, db.named? ses t.1.name = some t.1 := by
    intro t ht
    obtain ⟨t', -, x, hx⟩ := hfired t ht
    obtain ⟨sched, hmem, hs, hid, hname⟩ := named?_of_firing hx
    obtain rfl : sched = t.1 := Serial.eq_of_key hmem (mem_dueSchedules (fst_mem_due ht)).1 hid
    rwa [hname]
  intro t ht
  refine ⟨?_, hnamed t ht⟩
  rintro (⟨e, he⟩ | hcron)
  · obtain ⟨t', ht', x, hx⟩ := hfired t ht
    obtain ⟨sched, -, hs, hid, -⟩ := named?_of_firing hx
    cases (hnamed t' ht').symm.trans hs
    obtain rfl := turn_eq ht' ht hid
    rw [he] at hx
    cases hx
  · exact hstops t ht (.inr hcron)

theorem single_of_stops (hiso : Isolated env ses now db) (ht : t ∈ tickTurns env ses now db)
    (hstop : Stops env ses now db t) :
    ∃ r, dueSchedules ses now db = [r] ∧ Stops env ses now db (r, db.outside) := by
  obtain ⟨db', e, htick⟩ := tick_raised ⟨t, ht, hstop⟩
  have hall : ∀ t' ∈ tickTurns env ses now db, t'.1 = t.1 := by
    intro t' ht'
    by_contra hne
    obtain ⟨db₁, n, htick', -⟩ := hiso t ht t' ht' hne hstop.fails
    cases htick.symm.trans htick'
  have hdue : ∀ r ∈ dueSchedules ses now db, r = t.1 := by
    intro r hr
    rw [← map_fst_tickTurns env] at hr
    obtain ⟨t', ht', rfl⟩ := mem_map.mp hr
    exact hall t' ht'
  rw [tickTurns] at ht
  have hnodup := dueSchedules_nodup ses now db
  cases hd : dueSchedules ses now db with
  | nil =>
    rw [hd] at ht
    cases ht
  | cons r rs =>
    rw [hd] at ht hdue hnodup
    cases rs with
    | nil =>
      cases mem_singleton.mp ht
      exact ⟨r, rfl, hstop⟩
    | cons r' rs =>
      have heq : r = r' := (hdue r (by simp)).trans (hdue r' (by simp)).symm
      simp [heq] at hnodup

theorem isolated_of_single {r : Schedule J} (hdue : dueSchedules ses now db = [r]) :
    tickTurns env ses now db = [(r, db.outside)] ∧ Isolated env ses now db := by
  have hturns : tickTurns env ses now db = [(r, db.outside)] := by
    rw [tickTurns, hdue]
    rfl
  refine ⟨hturns, fun t ht t' ht' hne => ?_⟩
  rw [hturns] at ht ht'
  cases mem_singleton.mp ht
  cases mem_singleton.mp ht'
  exact absurd rfl hne

/-- **When a tick does what it should**: it leaves one finished run for each due schedule, with the
outcome of its action, and no failure keeps another schedule from firing, if and only if no due
schedule fails and each is the one its name finds; or there is one due schedule and its turn makes
the tick raise, so that there is nothing else to lose. -/
theorem tick_records_iff (env : Env J W) (ses : Session) (now : Int) (db : Db J W) :
    ((∀ db' n, scheduleTick env ses now db = .returned db' n → Recorded env ses now db db') ∧
        Isolated env ses now db) ↔
      (∀ t ∈ tickTurns env ses now db,
        ¬ Fails env ses now db t ∧ db.named? ses t.1.name = some t.1) ∨
      ∃ r, dueSchedules ses now db = [r] ∧ Stops env ses now db (r, db.outside) := by
  constructor
  · rintro ⟨hrec, hiso⟩
    by_cases hstops : ∃ t ∈ tickTurns env ses now db, Stops env ses now db t
    · obtain ⟨t, ht, hstop⟩ := hstops
      exact .inr (single_of_stops hiso ht hstop)
    · exact .inl (clean_of_recorded (fun t ht hs => hstops ⟨t, ht, hs⟩) hrec)
  rintro (hclean | ⟨r, hdue, hstop⟩)
  · exact ⟨fun db' n htick => recorded_of_clean hclean htick,
      fun t ht t' _ _ hfails => absurd hfails (hclean t ht).1⟩
  obtain ⟨hturns, hiso⟩ := isolated_of_single hdue
  obtain ⟨db', e, htick⟩ := tick_raised ⟨(r, db.outside), by rw [hturns]; simp, hstop⟩
  refine ⟨fun db₁ n htick' => ?_, hiso⟩
  cases htick.symm.trans htick'

/-- No SQL text does anything. -/
def idleEnv : Env Unit Unit := ⟨(), fun _ o => .ok o⟩

/-- A session of schema `a`, in UTC. -/
def sessionA : Session := ⟨"a", false, false, 0⟩

def enqueues (id : Nat) (name cron queue : String) : Schedule Unit :=
  ⟨id, name, cron.toList, .enqueue, ⟨some queue, none, none⟩, true, some 0, none, none, "a", false⟩

/-- Two schedules and one queue, `q`. -/
def twoSchedules (first second : Schedule Unit)
    (h : ([first, second].map Schedule.scheduleId).Nodup ∧
      ∀ s ∈ [first, second], s.scheduleId < 3) : Db Unit Unit where
  schedules := ⟨[first, second], 3, h.1, h.2⟩
  runs := Serial.empty
  audit := []
  outside := ⟨⟨[⟨1, "q", 30000, 3, none, false⟩], [], [], 1, 1⟩, ()⟩

def missingQueue : Db Unit Unit :=
  twoSchedules (enqueues 1 "x" "* * * * *" "q") (enqueues 2 "y" "* * * * *" "r") (by decide)

def yearlySchedule : Db Unit Unit :=
  twoSchedules (enqueues 1 "x" "* * * * *" "q") (enqueues 2 "y" "@yearly" "q") (by decide)

/-- The failed schedule leaves no run, and the second of January of a yearly schedule makes the tick
raise, so that the other schedule does not fire either. -/
theorem tick_loses_runs :
    (∃ db', scheduleTick idleEnv sessionA secondOfJanuary missingQueue = .returned db' 2 ∧
      (dueSchedules sessionA secondOfJanuary missingQueue).map Schedule.scheduleId = [1, 2] ∧
      (newRuns missingQueue db' 1).length = 1 ∧ newRuns missingQueue db' 2 = []) ∧
    ∃ db' e, scheduleTick idleEnv sessionA secondOfJanuary yearlySchedule = .raised db' e ∧
      (dueSchedules sessionA secondOfJanuary yearlySchedule).map Schedule.scheduleId = [1, 2] := by
  refine ⟨⟨_, rfl, by decide, by decide, by decide⟩, ?_⟩
  have hcron : cronNextAfter 0 "@yearly".toList secondOfJanuary =
      .error (.noMatch "@yearly".toList) := by
    rw [cronNextAfter_eq rfl firstMatch_yearly, if_neg (by decide)]
  have hmem : enqueues 2 "y" "@yearly" "q" ∈
      (tickTurns idleEnv sessionA secondOfJanuary yearlySchedule).map Prod.fst := by
    exact .tail _ (.head _)
  obtain ⟨t, ht, hfst⟩ := mem_map.mp hmem
  have hstop : Stops idleEnv sessionA secondOfJanuary yearlySchedule t :=
    .inr ⟨_, by rw [hfst]; exact hcron⟩
  obtain ⟨db', e, htick⟩ := tick_raised ⟨t, ht, hstop⟩
  exact ⟨db', e, htick, by decide⟩

end MaluDb.Scheduler
