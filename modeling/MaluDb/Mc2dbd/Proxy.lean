import MaluDb.Lib.Loop
import MaluDb.Lib.Pipe

/-!
# The stdio proxy

`proxy_stdio` of `mc2dbd/src/proxy.c` starts a command, writes a request to its stdin, collects its
stdout in a poll loop and reaps it.

* The surroundings are a `Schedule`: whether the start succeeds, one `Wakeup` for each turn of the
  loop, what the child does afterwards and how it ends. In a turn the child acts until the poll
  returns, and again between the poll and the read. The poll reports what is true when it returns.
* The write end of the stdout pipe is closed by the child, at the latest when it exits.
* A read takes what waits in the pipe, up to 4096 bytes. A read of an empty pipe is the end of file
  if no write end is left, and fails with `EAGAIN` otherwise.
-/

namespace MaluDb.Mc2dbd

open Lib List Pipe

/-! ## The function -/

/-- The errors of `proxy_stdio`; `message` has their texts. -/
inductive ProxyError where
  | commandPath
  | outOfMemory
  | pipe (reason : String)
  | fork (reason : String)
  | timedOut
  | poll (reason : String)
  | maxOutput (bytes : ℕ)
  | bufferOutOfMemory
  | exited (code : ℕ)
  | killed (signal : ℕ)
  | noOutput
  deriving DecidableEq, Repr

/-- The text of an error. -/
def ProxyError.message : ProxyError → String
  | .commandPath => "stdio command_path must be absolute"
  | .outOfMemory => "oom"
  | .pipe reason => s!"pipe(): {reason}"
  | .fork reason => s!"fork(): {reason}"
  | .timedOut => "stdio child timed out"
  | .poll reason => s!"poll(): {reason}"
  | .maxOutput bytes => s!"stdio child output exceeds max_output_bytes={bytes}"
  | .bufferOutOfMemory => "oom buffering stdio output"
  | .exited code => s!"stdio child exited with code {code}"
  | .killed signal => s!"stdio child killed by signal {signal}"
  | .noOutput => "stdio child produced no output"

/-- The arguments of a call. `bodyLen` is the length of the request without the newline. -/
structure ProxyCall where
  cmd : Option (List Char)
  bodyLen : ℕ
  timeoutMs : Int
  maxOutputBytes : ℕ

inductive Launch where
  | outOfMemory
  | pipeFailed (reason : String)
  | forkFailed (reason : String)
  | requestOutOfMemory
  | started

/-- How `poll` returns. -/
inductive PollResult where
  | interrupted
  | failed (reason : String)
  | returned

structure Wakeup where
  /-- The clock at the start of the turn. -/
  now : Int
  /-- What the child does until `poll` returns. -/
  before : List (PipeAct UInt8)
  poll : PollResult
  /-- `POLLOUT` on the stdin of the child. -/
  stdinReady : Bool
  /-- `POLLERR` on the stdin of the child. -/
  stdinBroken : Bool
  /-- How many bytes `write` takes; none if it fails. -/
  accepted : ℕ
  /-- What the child does after `poll` has returned. -/
  between : List (PipeAct UInt8)
  /-- Whether `realloc` succeeds. -/
  memory : Bool

/-- How the child ends. -/
inductive ExitStatus where
  | exited (code : ℕ)
  | signaled (signal : ℕ)

structure Schedule where
  launch : Launch
  start : Int
  wakeups : List Wakeup
  after : List (PipeAct UInt8)
  status : ExitStatus

/-- The variables of the loop, and the stdout pipe. `stdin` and `stdout` say which descriptors are
open. -/
structure ProxyState where
  reqOff : ℕ
  stdin : Bool
  stdout : Bool
  rb : List UInt8
  pipe : Pipe UInt8

namespace ProxyCall

variable (call : ProxyCall)

def reqLen : ℕ := call.bodyLen + 1

def deadline (start : Int) : Int := start + if 0 < call.timeoutMs then call.timeoutMs else 30000

end ProxyCall

namespace ProxyState

variable (s : ProxyState)

def childActs (as : List (PipeAct UInt8)) : ProxyState := { s with pipe := s.pipe.acts as }

def pollsStdin (reqLen : ℕ) : Bool := s.stdin && decide (s.reqOff < reqLen)

def writeRequest (reqLen : ℕ) (w : Wakeup) : ProxyState :=
  if s.pollsStdin reqLen then
    let reqOff := if w.stdinReady then s.reqOff + min w.accepted (reqLen - s.reqOff) else s.reqOff
    { s with reqOff := reqOff, stdin := decide (reqOff < reqLen) && !w.stdinBroken }
  else s

/-- The read of a turn. -/
def readChunk (maxOutputBytes : ℕ) (memory : Bool) : Except ProxyError ProxyState :=
  let chunk := s.pipe.unread.take 4096
  if chunk = [] then .ok (if s.pipe.hangup then { s with stdout := false } else s)
  else if 0 < maxOutputBytes ∧ maxOutputBytes < s.rb.length + chunk.length then
    .error (.maxOutput maxOutputBytes)
  else if memory then .ok { s with rb := s.rb ++ chunk, pipe := s.pipe.read 4096 }
  else .error .bufferOutOfMemory

/-- What a turn does with the stdout of the child, after `poll` reported `readable` and `hangup`. -/
def readOutput (maxOutputBytes : ℕ) (memory readable hangup : Bool) :
    Except ProxyError ProxyState :=
  if s.stdout then
    (if readable then s.readChunk maxOutputBytes memory else .ok s).map fun s =>
      if hangup then { s with stdout := false } else s
  else .ok s

end ProxyState

/-- A turn of the loop. -/
def proxyTurn (call : ProxyCall) (deadline : Int) (s : ProxyState) (w : Wakeup) :
    Next ProxyState (Except ProxyError ProxyState) :=
  if deadline ≤ w.now then .stop (.error .timedOut)
  else if !s.pollsStdin call.reqLen && !s.stdout then .stop (.ok s)
  else
    let polled := s.childActs w.before
    match w.poll with
    | .interrupted => .again (polled.childActs w.between)
    | .failed reason => .stop (.error (.poll reason))
    | .returned =>
      match ((polled.writeRequest call.reqLen w).childActs w.between).readOutput
          call.maxOutputBytes w.memory polled.pipe.readable polled.pipe.hangup with
      | .ok s => .again s
      | .error e => .stop (.error e)

def ProxyState.init : ProxyState := ⟨0, true, true, [], .empty⟩

def reap (status : ExitStatus) (rb : List UInt8) : Except ProxyError (List UInt8) :=
  match status with
  | .exited code =>
    if code ≠ 0 then .error (.exited code) else if rb = [] then .error .noOutput else .ok rb
  | .signaled signal => .error (.killed signal)

/-- `proxy_stdio`; `none` if it has not returned when the schedule ends. -/
def proxyStdio (call : ProxyCall) (sched : Schedule) : Option (Except ProxyError (List UInt8)) :=
  if (call.cmd.bind head?) ≠ some '/' then some (.error .commandPath)
  else
    match sched.launch with
    | .outOfMemory => some (.error .outOfMemory)
    | .pipeFailed reason => some (.error (.pipe reason))
    | .forkFailed reason => some (.error (.fork reason))
    | .requestOutOfMemory => some (.error .outOfMemory)
    | .started =>
      (loop (proxyTurn call (call.deadline sched.start)) sched.wakeups .init).map fun r =>
        r.bind fun s => reap sched.status s.rb

/-! ## What the child writes -/

def Wakeup.acts (w : Wakeup) : List (PipeAct UInt8) := w.before ++ w.between

def childOutput (sched : Schedule) : List UInt8 :=
  (empty.acts (sched.wakeups.flatMap Wakeup.acts ++ sched.after)).written

/-- If the turn sees the hang-up, the rest of the output fits into one read. -/
def Drains (s : ProxyState) (w : Wakeup) : Prop :=
  s.stdout = true → w.poll = .returned → (s.pipe.acts w.before).hangup = true →
    (s.pipe.acts w.before).unread.length ≤ 4096

/-! ## One turn -/

/-- The buffer has what was taken from the pipe, and the pipe is only closed after the writers have
closed it. -/
structure ProxyState.Inv (s : ProxyState) : Prop where
  rb : s.rb = s.pipe.taken
  closed : s.stdout = false → s.pipe.writers = false

section

variable {call : ProxyCall} {deadline : Int} {s s' : ProxyState} {w : Wakeup}

section

variable {memory readable hangup : Bool} {maxOutputBytes : ℕ}

theorem readChunk_spec {memory : Bool} (h : s.readChunk maxOutputBytes memory = .ok s') :
    s'.pipe = s.pipe.read 4096 ∧ (s.rb = s.pipe.taken → s'.rb = s'.pipe.taken) ∧
      (s'.stdout = s.stdout ∨ s'.stdout = false ∧ s.pipe.hangup = true ∧ s.pipe.unread = []) := by
  simp only [ProxyState.readChunk] at h
  split at h
  · rename_i hempty
    have hunread : s.pipe.unread = [] := by simpa using hempty
    have hread : s.pipe.read 4096 = s.pipe := by
      cases hp : s.pipe
      simp_all [Pipe.read]
    cases h
    rw [hread]
    split
    · exact ⟨rfl, id, .inr ⟨rfl, ‹_›, hunread⟩⟩
    · exact ⟨rfl, id, .inl rfl⟩
  · split at h
    · cases h
    split at h
    · cases h
      exact ⟨rfl, fun hrb => congrArg (· ++ _) hrb, .inl rfl⟩
    · cases h

theorem readOutput_of_closed (hs : s.stdout = false) :
    s.readOutput maxOutputBytes memory readable hangup = .ok s := by
  simp [ProxyState.readOutput, hs]

theorem readOutput_spec (hs : s.stdout = true)
    (h : s.readOutput maxOutputBytes memory readable hangup = .ok s') :
    s'.pipe = s.pipe.read (if readable then 4096 else 0) ∧
    (s.rb = s.pipe.taken → s'.rb = s'.pipe.taken) ∧
    (s'.stdout = true ∧ hangup = false ∨ s'.stdout = false ∧
      (hangup = true ∨ s.pipe.hangup = true ∧ s.pipe.unread = [])) := by
  obtain ⟨s₁, hread, rfl⟩ : ∃ s₁, (if readable then s.readChunk maxOutputBytes memory else .ok s) =
      .ok s₁ ∧ (if hangup then { s₁ with stdout := false } else s₁) = s' := by
    rw [ProxyState.readOutput, if_pos hs] at h
    generalize (if readable then s.readChunk maxOutputBytes memory else .ok s) = r at h ⊢
    cases r with
    | error e => cases h
    | ok s₁ => exact ⟨s₁, rfl, Except.ok.inj h⟩
  have hs₁ : s₁.pipe = s.pipe.read (if readable then 4096 else 0) ∧
      (s.rb = s.pipe.taken → s₁.rb = s₁.pipe.taken) ∧ (s₁.stdout = true ∨
        s₁.stdout = false ∧ s.pipe.hangup = true ∧ s.pipe.unread = []) := by
    cases readable with
    | true =>
      obtain ⟨hpipe, hrb, hstdout⟩ := readChunk_spec hread
      rw [hs] at hstdout
      exact ⟨hpipe, hrb, hstdout⟩
    | false =>
      cases hread
      exact ⟨by simp [Pipe.read], id, .inl hs⟩
  obtain ⟨hpipe, hrb, hstdout⟩ := hs₁
  cases hangup with
  | true => exact ⟨hpipe, hrb, .inr ⟨rfl, .inl rfl⟩⟩
  | false =>
    exact ⟨hpipe, hrb, hstdout.imp (fun h => ⟨h, rfl⟩) fun h => ⟨h.1, .inr h.2⟩⟩

end

structure Goes (s s' : ProxyState) (w : Wakeup) : Prop where
  inv : s'.Inv
  same : Pipe.Same s'.pipe (s.pipe.acts w.acts)
  closed : s.stdout = false → s'.stdout = false ∧ s'.pipe = s.pipe
  goesOn : s'.stdout = true → Drains s w
  closes : s.stdout = true → s'.stdout = false → (s'.pipe.unread = [] ↔ Drains s w)

/-- The state in which a turn reads: only the child has acted on the pipe. -/
structure AtRead (s s₁ : ProxyState) (w : Wakeup) : Prop where
  stdout : s₁.stdout = s.stdout
  rb : s₁.rb = s.rb
  pipe : s₁.pipe = (s.pipe.acts w.before).acts w.between

theorem atRead_writeRequest (reqLen : ℕ) :
    AtRead s (((s.childActs w.before).writeRequest reqLen w).childActs w.between) w := by
  unfold ProxyState.writeRequest
  split <;> exact ⟨rfl, rfl, rfl⟩

namespace AtRead

variable {s₁ : ProxyState}

section

variable (h : AtRead s s₁ w)
include h

theorem acts : s₁.pipe = s.pipe.acts w.acts :=
  h.pipe.trans (acts_append _ _).symm

theorem taken (hinv : s.Inv) : s₁.rb = s₁.pipe.taken := by
  rw [h.rb, h.acts, taken_acts]
  exact hinv.rb

theorem pipe_of_closed (hinv : s.Inv) (hs : s.stdout = false) : s₁.pipe = s.pipe :=
  h.acts.trans (acts_of_closed (hinv.closed hs) _)

theorem pipe_of_hangup (hup : (s.pipe.acts w.before).hangup = true) :
    s₁.pipe = s.pipe.acts w.before := by
  rw [h.pipe, acts_of_closed (by simpa [hangup] using hup)]

theorem goes (hinv : s.Inv) (hdrains : s.stdout = true → Drains s w) : Goes s s₁ w := by
  refine ⟨⟨h.taken hinv, fun hs => ?_⟩, h.acts ▸ ⟨rfl, rfl⟩, fun hs => ?_, fun hs => ?_, ?_⟩
  · rw [h.stdout] at hs
    rw [h.pipe_of_closed hinv hs]
    exact hinv.closed hs
  · exact ⟨h.stdout.trans hs, h.pipe_of_closed hinv hs⟩
  · exact hdrains (h.stdout.symm.trans hs)
  · intro hs hs'
    exact absurd ((h.stdout.trans hs).symm.trans hs') (by decide)

end

end AtRead

theorem drains_of_not_hangup (hup : (s.pipe.acts w.before).hangup = false) : Drains s w :=
  fun _ _ hup' => absurd (hup.symm.trans hup') (by decide)

theorem unread_of_closes {s₁ : ProxyState} (hread₁ : AtRead s s₁ w) (hpoll : w.poll = .returned)
    (hs : s.stdout = true) (hread : s'.pipe = s₁.pipe.read
      (if (s.pipe.acts w.before).readable then 4096 else 0))
    (hcloses : (s.pipe.acts w.before).hangup = true ∨ s₁.pipe.unread = []) :
    s'.pipe.unread = [] ↔ Drains s w := by
  cases hup : (s.pipe.acts w.before).hangup with
  | true =>
    have hiff : Drains s w ↔ (s.pipe.acts w.before).unread.length ≤ 4096 :=
      ⟨fun h => h hs hpoll hup, fun h _ _ _ => h⟩
    rw [hiff, hread, hread₁.pipe_of_hangup hup]
    exact unread_read_eq_nil 4096
  | false =>
    have hempty : s₁.pipe.unread = [] :=
      hcloses.resolve_left fun hup' => absurd (hup.symm.trans hup') (by decide)
    refine iff_of_true ?_ (drains_of_not_hangup hup)
    rw [hread]
    simp [Pipe.read, hempty]

theorem goes_of_open {s₁ : ProxyState} (hread₁ : AtRead s s₁ w) (hinv : s.Inv)
    (hpoll : w.poll = .returned) (hs : s.stdout = true)
    (h : s₁.readOutput call.maxOutputBytes w.memory (s.pipe.acts w.before).readable
      (s.pipe.acts w.before).hangup = .ok s') : Goes s s' w := by
  obtain ⟨hread, hrb, hcase⟩ := readOutput_spec (hread₁.stdout.trans hs) h
  refine ⟨⟨hrb (hread₁.taken hinv), fun hs' => ?_⟩, ?_, fun hs' => ?_, fun hs' => ?_,
    fun _ hs' => ?_⟩
  · rw [hread, writers_read]
    rcases hcase with ⟨hs'', -⟩ | ⟨-, hup | ⟨hup, -⟩⟩
    · exact absurd (hs'.symm.trans hs'') (by decide)
    · rw [hread₁.pipe_of_hangup hup]
      simpa [hangup] using hup
    · simpa [hangup] using hup
  · rw [hread, ← hread₁.acts]
    exact same_read _
  · exact absurd (hs.symm.trans hs') (by decide)
  · rcases hcase with ⟨-, hup⟩ | ⟨hs'', -⟩
    · exact drains_of_not_hangup hup
    · exact absurd (hs'.symm.trans hs'') (by decide)
  · rcases hcase with ⟨hs'', -⟩ | ⟨-, hcloses⟩
    · exact absurd (hs'.symm.trans hs'') (by decide)
    · exact unread_of_closes hread₁ hpoll hs hread (hcloses.imp_right And.right)

theorem goes_of_returned (hinv : s.Inv) (hpoll : w.poll = .returned)
    (h : (((s.childActs w.before).writeRequest call.reqLen w).childActs w.between).readOutput
      call.maxOutputBytes w.memory (s.pipe.acts w.before).readable
      (s.pipe.acts w.before).hangup = .ok s') : Goes s s' w := by
  have hread := atRead_writeRequest (s := s) (w := w) call.reqLen
  cases hs : s.stdout with
  | false =>
    rw [readOutput_of_closed (hread.stdout.trans hs)] at h
    obtain rfl := Except.ok.inj h
    exact hread.goes hinv fun hs' => absurd (hs.symm.trans hs') (by decide)
  | true => exact goes_of_open hread hinv hpoll hs h

theorem goes_of_again (hinv : s.Inv) (h : proxyTurn call deadline s w = .again s') :
    Goes s s' w := by
  simp only [proxyTurn] at h
  split at h
  · cases h
  split at h
  · cases h
  split at h
  · rename_i hpoll
    cases h
    refine AtRead.goes ⟨rfl, rfl, rfl⟩ hinv fun _ _ hret => ?_
    rw [hpoll] at hret
    cases hret
  · cases h
  rename_i hpoll
  split at h
  · rename_i s₁ hread
    cases h
    exact goes_of_returned hinv hpoll hread
  · cases h

theorem stdout_of_stop (h : proxyTurn call deadline s w = .stop (.ok s')) :
    s' = s ∧ s.stdout = false := by
  simp only [proxyTurn] at h
  split at h
  · cases h
  split at h
  · rename_i hfds
    cases h
    exact ⟨rfl, by simpa using (Bool.and_eq_true_iff.mp hfds).2⟩
  split at h
  · cases h
  · cases h
  · split at h <;> cases h

end

/-! ## The loop -/

section

variable {call : ProxyCall} {deadline : Int} {s s' : ProxyState} {ws : List Wakeup}

theorem loop_same (hinv : s.Inv) (h : loop (proxyTurn call deadline) ws s = some (.ok s')) :
    s'.Inv ∧ s'.stdout = false ∧ Pipe.Same s'.pipe (s.pipe.acts (ws.flatMap Wakeup.acts)) := by
  induction ws generalizing s with
  | nil => cases h
  | cons w ws ih =>
    cases hturn : proxyTurn call deadline s w with
    | again s₁ =>
      rw [loop_of_again hturn] at h
      have hgoes := goes_of_again hinv hturn
      obtain ⟨hinv', hs', hsame⟩ := ih hgoes.inv h
      refine ⟨hinv', hs', ?_⟩
      rw [flatMap_cons, acts_append]
      exact hsame.trans (hgoes.same.acts _)
    | stop r =>
      rw [loop_of_stop hturn] at h
      cases h
      obtain ⟨rfl, hs⟩ := stdout_of_stop hturn
      refine ⟨hinv, hs, ?_⟩
      rw [acts_of_closed (hinv.closed hs)]
      exact ⟨rfl, rfl⟩

theorem loop_of_closed (hinv : s.Inv) (hs : s.stdout = false)
    (h : loop (proxyTurn call deadline) ws s = some (.ok s')) :
    s'.pipe = s.pipe ∧ During (proxyTurn call deadline) Drains ws s := by
  induction ws generalizing s with
  | nil => cases h
  | cons w ws ih =>
    have hdrains : Drains s w := fun hopen => absurd (hs.symm.trans hopen) (by decide)
    cases hturn : proxyTurn call deadline s w with
    | again s₁ =>
      rw [loop_of_again hturn] at h
      have hgoes := goes_of_again hinv hturn
      obtain ⟨hs₁, hpipe⟩ := hgoes.closed hs
      obtain ⟨hpipe', hduring⟩ := ih hgoes.inv hs₁ h
      exact ⟨hpipe'.trans hpipe, (during_cons hturn).mpr ⟨hdrains, hduring⟩⟩
    | stop r =>
      rw [loop_of_stop hturn] at h
      cases h
      obtain ⟨rfl, -⟩ := stdout_of_stop hturn
      refine ⟨rfl, hdrains, fun s₂ hs₂ => ?_⟩
      rw [hturn] at hs₂
      cases hs₂

theorem loop_unread_iff (hinv : s.Inv) (hs : s.stdout = true)
    (h : loop (proxyTurn call deadline) ws s = some (.ok s')) :
    s'.pipe.unread = [] ↔ During (proxyTurn call deadline) Drains ws s := by
  induction ws generalizing s with
  | nil => cases h
  | cons w ws ih =>
    cases hturn : proxyTurn call deadline s w with
    | again s₁ =>
      rw [loop_of_again hturn] at h
      have hgoes := goes_of_again hinv hturn
      rw [during_cons hturn]
      cases hs₁ : s₁.stdout with
      | true =>
        rw [ih hgoes.inv hs₁ h]
        exact (and_iff_right (hgoes.goesOn hs₁)).symm
      | false =>
        obtain ⟨hpipe, hduring⟩ := loop_of_closed hgoes.inv hs₁ h
        rw [hpipe, hgoes.closes hs hs₁]
        exact (and_iff_left hduring).symm
    | stop r =>
      rw [loop_of_stop hturn] at h
      cases h
      obtain ⟨rfl, hs'⟩ := stdout_of_stop hturn
      exact absurd (hs.symm.trans hs') (by decide)

end

/-! ## The call -/

theorem ProxyState.init_inv : ProxyState.init.Inv := ⟨rfl, fun h => nomatch h⟩

theorem reap_ok {status : ExitStatus} {rb out : List UInt8} (h : reap status rb = .ok out) :
    out = rb := by
  unfold reap at h
  split at h
  · split at h
    · cases h
    · split at h
      · cases h
      · exact (Except.ok.inj h).symm
  · cases h

theorem loop_of_proxyStdio {call : ProxyCall} {sched : Schedule} {out : List UInt8}
    (h : proxyStdio call sched = some (.ok out)) :
    ∃ s, loop (proxyTurn call (call.deadline sched.start)) sched.wakeups .init = some (.ok s) ∧
      out = s.rb := by
  unfold proxyStdio at h
  split at h
  · cases h
  split at h
  iterate 4 cases h
  obtain ⟨r, hr, hout⟩ := Option.map_eq_some_iff.mp h
  cases r with
  | error e => cases hout
  | ok s => exact ⟨s, hr, reap_ok hout⟩

/-- **The output of a successful call** is everything the child wrote, exactly if the turn that saw
the hang-up found no more than a read takes. Once the clock is past the deadline the call has
returned. -/
theorem proxyStdio_output_iff (call : ProxyCall) (sched : Schedule)
    (hclock : ∃ w ∈ sched.wakeups, call.deadline sched.start ≤ w.now) :
    ∃ r, proxyStdio call sched = some r ∧ ∀ out, r = .ok out → (out = childOutput sched ↔
        During (proxyTurn call (call.deadline sched.start)) Drains sched.wakeups .init) := by
  have hreturns : ∃ r, proxyStdio call sched = some r := by
    obtain ⟨w, hw, hlate⟩ := hclock
    have hstop : ∀ s, ∃ r, proxyTurn call (call.deadline sched.start) s w = .stop r := fun s =>
      ⟨_, if_pos hlate⟩
    obtain ⟨r, hr⟩ := loop_isSome (s := ProxyState.init) hw hstop
    unfold proxyStdio
    split
    · exact ⟨_, rfl⟩
    split
    iterate 4 exact ⟨_, rfl⟩
    rw [hr]
    exact ⟨_, rfl⟩
  obtain ⟨r, hr⟩ := hreturns
  refine ⟨r, hr, fun out hout => ?_⟩
  subst hout
  obtain ⟨s, hs, rfl⟩ := loop_of_proxyStdio hr
  obtain ⟨hinv, hclosed, hsame⟩ := loop_same ProxyState.init_inv hs
  rw [← loop_unread_iff ProxyState.init_inv rfl hs, hinv.rb]
  -- what the child does after the loop finds no write end
  have hall : childOutput sched = s.pipe.written := by
    have hafter := hsame.acts sched.after
    rw [acts_of_closed (hinv.closed hclosed)] at hafter
    rw [hafter.written, childOutput, acts_append]
    rfl
  rw [hall, written]
  exact ⟨fun h => by simpa using h.symm, fun h => by simp [h]⟩

/-- A turn in which the child does `before` and everything else works. -/
def quietWakeup (now : Int) (before : List (PipeAct UInt8)) : Wakeup :=
  ⟨now, before, .returned, true, false, 4096, [], true⟩

/-- The child writes `bytes`, exits with code 0 before the first poll returns, and the clock goes
on. -/
def writeAndExit (bytes : List UInt8) : Schedule where
  launch := .started
  start := 0
  wakeups := [quietWakeup 0 [.write bytes, .close], quietWakeup 1 [], quietWakeup 30000 []]
  after := []
  status := .exited 0

def plainCall : ProxyCall := ⟨some ['/', 'x'], 10, 0, 0⟩

theorem proxyStdio_output_short :
    (∃ w ∈ (writeAndExit [104, 105]).wakeups, plainCall.deadline 0 ≤ w.now) ∧
    proxyStdio plainCall (writeAndExit [104, 105]) = some (.ok [104, 105]) ∧
    During (proxyTurn plainCall (plainCall.deadline 0)) Drains
      (writeAndExit [104, 105]).wakeups .init := by
  have hclock : ∃ w ∈ (writeAndExit [104, 105]).wakeups, plainCall.deadline 0 ≤ w.now :=
    ⟨quietWakeup 30000 [], by simp [writeAndExit], by decide⟩
  have hrun : proxyStdio plainCall (writeAndExit [104, 105]) = some (.ok [104, 105]) := by rfl
  obtain ⟨r, hr, hout⟩ := proxyStdio_output_iff plainCall (writeAndExit [104, 105]) hclock
  have hok : r = .ok [104, 105] := Option.some.inj (hr.symm.trans hrun)
  exact ⟨hclock, hrun, (hout _ hok).mp rfl⟩

def burst : List UInt8 := replicate 4097 0

/-- A child that writes a burst and exits: the last byte is lost, and the call succeeds. -/
theorem proxyStdio_truncates :
    proxyStdio plainCall (writeAndExit burst) = some (.ok (burst.take 4096)) ∧
    childOutput (writeAndExit burst) = burst ∧ burst.take 4096 ≠ burst := by
  have hcons : ∃ b bs, burst = b :: bs := ⟨0, replicate 4096 0, rfl⟩
  have hlen : burst.length = 4097 := length_replicate
  refine ⟨?_, ?_, fun h => ?_⟩
  · obtain ⟨b, bs, hb⟩ := hcons
    rw [hb]
    rfl
  · exact nil_append burst
  · have := congrArg length h
    rw [length_take, hlen] at this
    exact absurd this (by decide)

end MaluDb.Mc2dbd
