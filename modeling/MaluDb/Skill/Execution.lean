import Mathlib.Data.List.Sort
import MaluDb.Lib.Run

/-!
# Executions of skills

`begin_skill_execution`, and `step_skill_execution`, `abort_skill_execution` and `skill_emit_claim`
on the execution it has begun, called by any number of sessions in READ COMMITTED transactions.

* The first statement of each call locks the row of the execution. A session that finds it locked
  waits for the other transaction to end and looks at the row again, its condition included.
* `World` has the committed rows, and the transaction with the lock and the rows it sees.
* A call that raises ends its transaction, or only itself where the error is caught.
* The skill exists and does not change. `applicable` is what `_evaluate_applicability` returns.
-/

namespace MaluDb.Skill

open MaluDb.Lib List

/-! ## Skills -/

inductive StateKind where
  | start | step | validation | exceptionHandler | terminal
  deriving DecidableEq

structure SkillState where
  stateId : ℕ
  stateName : String
  stateKind : StateKind

/-- A row of `malu$skill_transition`; `guard_jsonb` is not read. -/
structure SkillTransition where
  fromStateId : ℕ
  toStateId : ℕ
  onOutcome : String
  ordinal : ℤ

structure SkillDef where
  skillId : ℕ
  enabled : Bool
  states : List SkillState
  transitions : List SkillTransition

section

variable (k : SkillDef) (current : ℕ)

def SkillDef.target (onOutcome : String) : Option ℕ :=
  ((k.transitions.filter fun t => t.fromStateId = current && t.onOutcome = onOutcome).insertionSort
    fun a b => a.ordinal ≤ b.ordinal).head?.map SkillTransition.toStateId

/-- The next state: a literal match, `exception:*` for an exception, then `default`. -/
def SkillDef.next (outcome : Option String) : Option ℕ :=
  let wildcard :=
    if outcome.any fun o => "exception:".toList.isPrefixOf o.toList then
      k.target current "exception:*"
    else none
  (outcome.bind (k.target current)).or (wildcard.or (k.target current "default"))

/-! ## The calls -/

structure StepRow where
  stepIdx : ℕ
  stateId : ℕ
  stateName : String
  outcome : Option String := none
  observation : Option String := none
  enteredAt : ℤ
  leftAt : Option ℤ := none

/-- A row of `malu$skill_execution_record` as far as it changes, and its steps. `abortReason` is the
member of `audit_jsonb`. -/
structure Execution where
  currentStateId : ℕ
  stepCount : ℕ
  completedAt : Option ℤ := none
  finalOutcome : Option String := none
  emittedClaimIds : List ℕ := []
  abortReason : Option (Option String) := none
  steps : List StepRow

inductive ExecutionError where
  | disabled (skillId : ℕ)
  | noStart (skillId : ℕ)
  | notApplicable (reason : String)
  | finalised
  | noTransition (stateName outcome : Option String)
  | notNull
  | missing (function : String)

/-- The texts; `%` stands for the id of the execution. -/
def ExecutionError.message : ExecutionError → String
  | .disabled id => s!"begin_skill_execution: skill {id} is disabled"
  | .noStart id => s!"begin_skill_execution: skill {id} has no start state"
  | .notApplicable reason => s!"begin_skill_execution: applicability check failed: {reason}"
  | .finalised => "step_skill_execution: execution % already finalised"
  | .noTransition name outcome => "step_skill_execution: no transition from " ++
    name.getD "<NULL>" ++ " on outcome " ++ outcome.getD "<NULL>"
  | .notNull => "null value in column \"state_id\" violates not-null constraint"
  | .missing function => function ++ ": execution % missing or already finalised"

def beginSkillExecution (applicable : Option String) (now : ℤ) : Except ExecutionError Execution :=
  if !k.enabled then .error (.disabled k.skillId)
  else
    match k.states.find? (·.stateKind = .start), applicable with
    | none, _ => .error (.noStart k.skillId)
    | some _, some reason => .error (.notApplicable reason)
    | some start, none => .ok
      { currentStateId := start.stateId, stepCount := 1
        steps := [{ stepIdx := 1, stateId := start.stateId, stateName := start.stateName,
                    enteredAt := now }] }

def Execution.close (e : Execution) (now : ℤ) (outcome observation : Option String) :
    List StepRow :=
  e.steps.map fun r => if r.stepIdx = e.stepCount then
    { r with outcome := outcome, observation := observation, leftAt := some now } else r

def stepSkillExecution (now : ℤ) (outcome observation : Option String) (e : Execution) :
    Except ExecutionError Execution :=
  if e.completedAt.isSome then .error .finalised
  else
    match k.next e.currentStateId outcome with
    | none => .error (.noTransition
        ((k.states.find? (·.stateId = e.currentStateId)).map SkillState.stateName) outcome)
    | some nextId =>
      match k.states.find? (·.stateId = nextId) with
      | none => .error .notNull
      | some next =>
        let row : StepRow :=
          { stepIdx := e.stepCount + 1, stateId := next.stateId, stateName := next.stateName,
            enteredAt := now }
        let e' := { e with currentStateId := next.stateId, stepCount := e.stepCount + 1 }
        if next.stateKind = .terminal then
          let final := if next.stateName ∈ ["success", "failure", "aborted"] then next.stateName
            else "success"
          .ok { e' with
            completedAt := some now, finalOutcome := some final
            steps := e.close now outcome observation ++
              [{ row with leftAt := some now, outcome := some final }] }
        else .ok { e' with steps := e.close now outcome observation ++ [row] }

inductive Call where
  | step (outcome observation : Option String)
  | abort (reason : Option String)
  | emitClaim (claimId : ℕ)

def Call.finds : Call → Execution → Bool
  | .step _ _, _ => true
  | _, e => e.completedAt.isNone

def Call.exec (now : ℤ) (e : Execution) : Call → Except ExecutionError Execution
  | .step outcome observation => stepSkillExecution k now outcome observation e
  | .abort reason =>
    if (Call.abort reason).finds e then
      .ok { e with
        completedAt := some now, finalOutcome := some "aborted", abortReason := some reason }
    else .error (.missing "abort_skill_execution")
  | .emitClaim claimId =>
    if (Call.emitClaim claimId).finds e then
      .ok { e with emittedClaimIds := e.emittedClaimIds ++ [claimId] }
    else .error (.missing "skill_emit_claim")

end

/-! ## Sessions -/

/-- A call under way; `caught` says whether the session catches its error. -/
structure Pending where
  call : Call
  now : ℤ
  caught : Bool

structure World where
  committed : Execution
  holder : Option (ℕ × Execution) := none
  waiting : ℕ → Option Pending := fun _ => none

inductive Event where
  | call (i : ℕ) (p : Pending)
  | wake (i : ℕ)
  | commit (i : ℕ)
  | rollback (i : ℕ)

namespace World

/-- The rows as a statement of session `i` sees them. -/
def view (w : World) (i : ℕ) : Execution :=
  match w.holder with
  | some (j, e) => if j = i then e else w.committed
  | none => w.committed

def rollback (w : World) (i : ℕ) : World :=
  { w with holder := w.holder.filter (·.1 ≠ i) }

def perform (k : SkillDef) (w : World) (i : ℕ) (p : Pending) : World :=
  match p.call.exec k p.now (w.view i) with
  | .ok e => { w with holder := some (i, e) }
  | .error _ => if p.caught then w else w.rollback i

def next (k : SkillDef) (w : World) : Event → World
  | .call i p =>
    if (w.waiting i).isSome then w
    else if w.holder.any (·.1 ≠ i) && p.call.finds w.committed then
      { w with waiting := Function.update w.waiting i (some p) }
    else w.perform k i p
  | .wake i =>
    match w.waiting i, w.holder with
    | some p, none => perform k { w with waiting := Function.update w.waiting i none } i p
    | _, _ => w
  | .commit i =>
    match w.holder with
    | some (j, e) => if j = i then { w with committed := e, holder := none } else w
    | none => w
  | .rollback i => w.rollback i

end World

/-! ## The trace -/

/-- The steps are numbered without gaps from the start state to the current one, each pair joined by
the transition that the recorded outcome selects. -/
structure Traced (k : SkillDef) (e : Execution) : Prop where
  numbered : e.steps.map StepRow.stepIdx = range' 1 e.stepCount
  positive : 0 < e.stepCount
  started : ∀ r ∈ e.steps, r.stepIdx = 1 →
    ∃ start ∈ k.states, start.stateKind = .start ∧ r.stateId = start.stateId
  joined : ∀ a ∈ e.steps, ∀ b ∈ e.steps, b.stepIdx = a.stepIdx + 1 →
    k.next a.stateId a.outcome = some b.stateId
  current : ∀ r ∈ e.steps, r.stepIdx = e.stepCount → r.stateId = e.currentStateId

variable {k : SkillDef} {e e' : Execution} {now : ℤ} {w : World}

theorem Traced.stepIdx_le (h : Traced k e) {r : StepRow} (hr : r ∈ e.steps) :
    1 ≤ r.stepIdx ∧ r.stepIdx ≤ e.stepCount := by
  have := mem_map_of_mem (f := StepRow.stepIdx) hr
  rw [h.numbered, mem_range'_1] at this
  omega

theorem begin_traced {applicable : Option String}
    (h : beginSkillExecution k applicable now = .ok e) : Traced k e := by
  unfold beginSkillExecution at h
  split at h
  · cases h
  split at h
  · cases h
  · cases h
  next start hstart =>
    cases h
    refine ⟨rfl, Nat.one_pos, ?_, ?_, ?_⟩
    · rintro r hr -
      obtain rfl := mem_singleton.mp hr
      exact ⟨start, mem_of_find?_eq_some hstart, by simpa using find?_some hstart, rfl⟩
    · simp
    · simp

/-- A row of the closed steps is one of the steps, with the outcome if it is the current one. -/
theorem mem_close {outcome observation : Option String} {r : StepRow}
    (h : r ∈ e.close now outcome observation) :
    ∃ r₀ ∈ e.steps, r.stepIdx = r₀.stepIdx ∧ r.stateId = r₀.stateId ∧
      r.outcome = if r₀.stepIdx = e.stepCount then outcome else r₀.outcome := by
  obtain ⟨r₀, hr₀, rfl⟩ := mem_map.mp h
  refine ⟨r₀, hr₀, ?_⟩
  by_cases hidx : r₀.stepIdx = e.stepCount <;> simp [hidx]

/-- Closing the current step and appending the next one keeps the trace. -/
theorem Traced.advance (h : Traced k e) {outcome observation : Option String} {row : StepRow}
    (hidx : row.stepIdx = e.stepCount + 1)
    (hnext : k.next e.currentStateId outcome = some row.stateId)
    (hsteps : e'.steps = e.close now outcome observation ++ [row])
    (hcount : e'.stepCount = e.stepCount + 1) (hcur : e'.currentStateId = row.stateId) :
    Traced k e' := by
  have hmem : ∀ r ∈ e'.steps, r = row ∨ ∃ r₀ ∈ e.steps, r.stepIdx = r₀.stepIdx ∧
      r.stateId = r₀.stateId ∧
      r.outcome = if r₀.stepIdx = e.stepCount then outcome else r₀.outcome := by
    intro r hr
    rw [hsteps, mem_append, mem_singleton] at hr
    exact hr.symm.imp_right mem_close
  constructor
  · have hclose : (e.close now outcome observation).map StepRow.stepIdx =
        e.steps.map StepRow.stepIdx := by
      rw [Execution.close, List.map_map]
      refine map_congr_left fun r _ => ?_
      by_cases hr : r.stepIdx = e.stepCount <;> simp [hr]
    rw [hsteps, hcount, map_append, hclose, h.numbered, range'_1_concat]
    simp [hidx, Nat.add_comm]
  · omega
  · intro r hr hone
    obtain rfl | ⟨r₀, hr₀, hi, hs, -⟩ := hmem r hr
    · exact absurd h.positive (by omega)
    · rw [hs]
      exact h.started r₀ hr₀ (by omega)
  · intro a ha b hb hab
    obtain rfl | ⟨a₀, ha₀, hai, has, hao⟩ := hmem a ha <;>
      obtain rfl | ⟨b₀, hb₀, hbi, hbs, -⟩ := hmem b hb
    · omega
    · have := h.stepIdx_le hb₀
      omega
    · have hlast : a₀.stepIdx = e.stepCount := by omega
      rw [hao, if_pos hlast, has, h.current a₀ ha₀ hlast, hnext]
    · have := h.stepIdx_le hb₀
      rw [hao, if_neg (by omega), has, hbs]
      exact h.joined a₀ ha₀ b₀ hb₀ (by omega)
  · intro r hr hlast
    obtain rfl | ⟨r₀, hr₀, hi, -⟩ := hmem r hr
    · exact hcur.symm
    · have := h.stepIdx_le hr₀
      omega

/-- **One call**: it succeeds only on an execution that is not completed, and keeps the trace. -/
theorem Call.exec_traced {c : Call} (h : c.exec k now e = .ok e') :
    e.completedAt = none ∧ c.finds e ∧ (Traced k e → Traced k e') := by
  cases c with
  | step outcome observation =>
    simp only [Call.exec, stepSkillExecution] at h
    split at h
    · cases h
    next hopen =>
    refine ⟨by simpa using hopen, rfl, fun ht => ?_⟩
    split at h
    · cases h
    next nextId hnext =>
    split at h
    · cases h
    next next hfind =>
    have hid : next.stateId = nextId := by simpa using find?_some hfind
    rw [← hid] at hnext
    split at h <;> cases h <;> exact ht.advance rfl hnext rfl rfl rfl
  | abort reason | emitClaim claimId =>
    rw [Call.exec] at h
    split_ifs at h with hfinds
    cases h
    exact ⟨by simpa [Call.finds] using hfinds, hfinds, fun ht => ⟨ht.1, ht.2, ht.3, ht.4, ht.5⟩⟩

/-! ## Interleavings -/

/-- What the transaction with the lock sees is traced, and what it started from is not completed. -/
structure Sound (k : SkillDef) (w : World) : Prop where
  committed : Traced k w.committed
  locked : ∀ i e, w.holder = some (i, e) → Traced k e ∧ w.committed.completedAt = none

theorem Sound.rollback (h : Sound k w) (i : ℕ) : Sound k (w.rollback i) := by
  refine ⟨h.committed, fun j e hj => h.locked j e ?_⟩
  exact (Option.filter_eq_some_iff.mp hj).1

theorem Sound.perform (h : Sound k w) {i : ℕ} {p : Pending}
    (hfree : w.holder.any (·.1 ≠ i) → ¬ p.call.finds w.committed) : Sound k (w.perform k i p) := by
  unfold World.perform
  split
  next e' hexec =>
    obtain ⟨hopen, hfinds, hkeep⟩ := Call.exec_traced hexec
    refine ⟨h.committed, ?_⟩
    rintro _ _ ⟨⟩
    unfold World.view at hopen hfinds hkeep
    rcases hh : w.holder with - | ⟨j, e⟩
    · simp only [hh] at hopen hkeep
      exact ⟨hkeep h.committed, hopen⟩
    by_cases hj : j = i
    · simp only [hh, hj, if_true] at hkeep
      obtain ⟨ht, hnone⟩ := h.locked j e hh
      exact ⟨hkeep ht, hnone⟩
    · simp only [hh, hj, if_false] at hfinds
      exact absurd hfinds (hfree (by simpa [hh] using hj))
  next =>
    split
    · exact h
    · exact h.rollback i

theorem perform_committed (i : ℕ) (p : Pending) : (w.perform k i p).committed = w.committed := by
  unfold World.perform World.rollback
  split
  · rfl
  · split <;> rfl

theorem Sound.next (h : Sound k w) (ev : Event) :
    Sound k (w.next k ev) ∧
      (w.committed.completedAt.isSome → (w.next k ev).committed = w.committed) := by
  cases ev with
  | call i p =>
    rw [World.next]
    by_cases hblocked : (w.waiting i).isSome
    · rw [if_pos hblocked]
      exact ⟨h, fun _ => rfl⟩
    rw [if_neg hblocked]
    by_cases hwait : w.holder.any (·.1 ≠ i) && p.call.finds w.committed
    · rw [if_pos hwait]
      exact ⟨⟨h.committed, h.locked⟩, fun _ => rfl⟩
    · rw [if_neg hwait]
      exact ⟨h.perform fun hl hf => hwait (by rw [hl, hf]; rfl), fun _ => perform_committed i p⟩
  | wake i =>
    rw [World.next]
    split
    next p _ hnone =>
      have hw : Sound k { w with waiting := Function.update w.waiting i none } :=
        ⟨h.committed, h.locked⟩
      exact ⟨hw.perform (by simp [hnone]), fun _ => perform_committed i p⟩
    · exact ⟨h, fun _ => rfl⟩
  | commit i =>
    rw [World.next]
    split
    next j e hh =>
      obtain ⟨ht, hopen⟩ := h.locked j e hh
      split
      · exact ⟨⟨ht, nofun⟩, fun hc => by simp [hopen] at hc⟩
      · exact ⟨h, fun _ => rfl⟩
    · exact ⟨h, fun _ => rfl⟩
  | rollback i => exact ⟨h.rollback i, fun _ => rfl⟩

/-- **In every interleaving the recorded steps are a trace of the skill, and after completion
nothing about the execution changes.** -/
theorem execution_traced {applicable : Option String} {e : Execution}
    (hbegin : beginSkillExecution k applicable now = .ok e) (before after : List Event) :
    let w := run (World.next k) ⟨e, none, fun _ => none⟩ before
    Traced k w.committed ∧ (w.committed.completedAt.isSome →
      (run (World.next k) w after).committed = w.committed) := by
  intro w
  have hstart : Sound k ⟨e, none, fun _ => none⟩ := ⟨begin_traced hbegin, nofun⟩
  have hw : Sound k w := run_inv (I := Sound k) (fun w ev h => (h.next ev).1) before hstart
  refine ⟨hw.committed, fun hc => ?_⟩
  have hrun : Sound k (run (World.next k) w after) ∧
      (run (World.next k) w after).committed = w.committed := by
    refine run_inv (I := fun w' => Sound k w' ∧ w'.committed = w.committed) ?_ after ⟨hw, rfl⟩
    rintro w' ev ⟨hs, heq⟩
    obtain ⟨hs', hsame⟩ := hs.next ev
    exact ⟨hs', (hsame (heq ▸ hc)).trans heq⟩
  exact hrun.2

def greeting : SkillDef where
  skillId := 1
  enabled := true
  states := [⟨1, "start", .start⟩, ⟨2, "success", .terminal⟩]
  transitions := [⟨1, 2, "default", 0⟩]

theorem execution_traced_greeting :
    ∃ e, beginSkillExecution greeting none 0 = .ok e ∧
      ∀ after, (run (World.next greeting) (run (World.next greeting) ⟨e, none, fun _ => none⟩
        [.call 7 ⟨.step none none, 1, false⟩, .call 8 ⟨.abort none, 1, false⟩, .commit 7, .wake 8])
        after).committed.finalOutcome = some "success" := by
  obtain ⟨e, he⟩ : ∃ e, beginSkillExecution greeting none 0 = .ok e := ⟨_, rfl⟩
  refine ⟨e, he, fun after => ?_⟩
  have h := execution_traced he [.call 7 ⟨.step none none, 1, false⟩,
    .call 8 ⟨.abort none, 1, false⟩, .commit 7, .wake 8] after
  cases he
  rw [h.2 rfl]
  rfl

end MaluDb.Skill
