import Mathlib.Order.Lattice
import MaluDb.Mc2dbd.Proxy

/-!
# Running an external tool

`run_child` of `mc2dbd/src/exec.c`: it starts the command of a tool, writes its stdin and reads its
stdout and stderr in a `select` loop, sends SIGTERM at the deadline and SIGKILL half a second later,
and then waits for the child with a `waitpid` that blocks.

* The write ends of the child's pipes may be held by its descendants, so exiting and the closing of
  the last write end are acts of their own. What the child does about SIGTERM is up to it.
* The child may act before the descriptors are looked at, while `select` waits, and before the
  reads. `select` reports what is true when it returns.
* A read fails with `EAGAIN` from an empty pipe that has a write end. Any other failure is a fault
  of the surroundings.
-/

namespace MaluDb.Mc2dbd

open Lib List Bool Nat Pipe

/-! ## The function -/

/-- An act of the child. -/
inductive ChildAct where
  | out (a : PipeAct UInt8)
  | err (a : PipeAct UInt8)
  | exit

/-- The limits of a tool. The buffer for stdout has room for `maxOutputBytes`. -/
structure ExecMeta where
  timeoutMs : Int
  maxOutputBytes : ℕ

/-- `EXEC_STDERR_CAP`. -/
def stderrCap : ℕ := 4096

/-- `EXEC_KILL_GRACE_MS`. -/
def killGraceMs : Int := 500

/-- How `select` returns. -/
inductive SelectResult where
  | interrupted
  | failed
  | timedOut
  | ready

/-- How a `write` to stdin returns. -/
inductive WriteResult where
  | accepted (n : ℕ)
  | again
  | failed

structure ExecTurn where
  before : List ChildAct
  /-- The clock. -/
  now : Int
  /-- What the child does while `select` waits. -/
  waiting : List ChildAct
  select : SelectResult
  stdinReady : Bool
  stdinWrite : WriteResult
  /-- What the child does between `select` and the reads. -/
  between : List ChildAct
  /-- Whether the read of stdout fails. -/
  outFault : Bool
  /-- Whether the read of stderr fails. -/
  errFault : Bool

/-- The variables of the loop, and the child. `sin`, `sout` and `serr` say which descriptors are
open. -/
structure ExecState where
  stdinOff : ℕ
  sin : Bool
  sout : Bool
  serr : Bool
  outBuf : List UInt8
  errBuf : List UInt8
  deadline : Int
  killedTerm : Bool
  killedKill : Bool
  timedOut : Bool
  outPipe : Pipe UInt8
  errPipe : Pipe UInt8
  exited : Bool

namespace ExecState

variable (s : ExecState)

def childAct (a : ChildAct) : ExecState :=
  match a with
  | .out a => { s with outPipe := s.outPipe.act a }
  | .err a => { s with errPipe := s.errPipe.act a }
  | .exit => { s with exited := true }

def childActs (as : List ChildAct) : ExecState := as.foldl childAct s

/-- The turn of stdin. -/
def writeStdin (stdinLen : ℕ) (t : ExecTurn) : ExecState :=
  if s.sin && t.stdinReady then
    match t.stdinWrite with
    | .accepted n =>
      let stdinOff := s.stdinOff + min n (stdinLen - s.stdinOff)
      { s with stdinOff := stdinOff, sin := decide (stdinOff < stdinLen) }
    | .again => s
    | .failed => { s with sin := false }
  else s

def readOut (limit : ℕ) (ready fault : Bool) : ExecState :=
  if s.sout && ready then
    if s.outBuf.length < limit then
      let chunk := s.outPipe.unread.take (limit - s.outBuf.length)
      if fault then { s with sout := false }
      else if chunk ≠ [] then
        { s with
          outBuf := s.outBuf ++ chunk
          outPipe := s.outPipe.read (limit - s.outBuf.length) }
      else if s.outPipe.hangup then { s with sout := false }
      else s
    else { s with killedTerm := true, sout := false }
  else s

def errRoom : ℕ := if s.errBuf.length < stderrCap then stderrCap - s.errBuf.length else 256

def readErr (ready fault : Bool) : ExecState :=
  if s.serr && ready then
    let chunk := s.errPipe.unread.take s.errRoom
    if fault then { s with serr := false }
    else if chunk ≠ [] then
      { s with
        errBuf := if s.errBuf.length < stderrCap then s.errBuf ++ chunk else s.errBuf
        errPipe := s.errPipe.read s.errRoom }
    else if s.errPipe.hangup then { s with serr := false }
    else s
  else s

/-- What `select` reports for stdout. -/
def outReady : Bool := s.outPipe.readable || s.outPipe.hangup

/-- What `select` reports for stderr. -/
def errReady : Bool := s.errPipe.readable || s.errPipe.hangup

/-- The part of a turn after `select`. -/
def transfer (tool : ExecMeta) (stdinLen : ℕ) (t : ExecTurn) : ExecState :=
  (((s.writeStdin stdinLen t).childActs t.between).readOut tool.maxOutputBytes s.outReady
    t.outFault).readErr s.errReady t.errFault

end ExecState

/-- How the loop ends: with the wait for the child, or an error of `select`. -/
inductive ExecEnd where
  | wait (s : ExecState)
  | ioError

section

variable (tool : ExecMeta) (stdinLen : ℕ)

def execTurn (s : ExecState) (t : ExecTurn) : Next ExecState ExecEnd :=
  let s := s.childActs t.before
  if !s.sin && !s.sout && !s.serr then .stop (.wait s)
  else if s.sin && decide (stdinLen ≤ s.stdinOff) then .again { s with sin := false }
  else if s.deadline ≤ t.now then
    if s.killedTerm then .stop (.wait { s with timedOut := true, killedKill := true })
    else .again
      { s with timedOut := true, killedTerm := true, deadline := t.now + killGraceMs }
  else
    let s := s.childActs t.waiting
    match t.select with
    | .interrupted => .again s
    | .timedOut => .again s
    | .failed => .stop .ioError
    | .ready => .again (s.transfer tool stdinLen t)

structure ExecSchedule where
  /-- Whether the pipes and the child could be made. -/
  started : Bool
  start : Int
  turns : List ExecTurn
  /-- The exit status, if the child ever exits. -/
  status : Option ExitStatus

/-- What `run_child` returns: -1, 1, or 0 with the exit status. -/
inductive ExecOutcome where
  | ioError
  | timedOut (out err : List UInt8)
  | exited (status : Int) (out err : List UInt8)

def ExecState.init (deadline : Int) : ExecState :=
  ⟨0, true, true, true, [], [], deadline, false, false, false, .empty, .empty, false⟩

/-- The loop of `run_child`. -/
def execLoop (sched : ExecSchedule) : Option ExecEnd :=
  loop (execTurn tool stdinLen) sched.turns (.init (sched.start + tool.timeoutMs))

/-- `run_child`; `none` if it has not returned. -/
def runChild (sched : ExecSchedule) : Option ExecOutcome :=
  if !sched.started then some .ioError
  else
    (execLoop tool stdinLen sched).bind fun
      | .ioError => some .ioError
      | .wait s => sched.status.map fun
        | .exited code =>
          if s.timedOut then .timedOut s.outBuf s.errBuf else .exited code s.outBuf s.errBuf
        | .signaled _ =>
          if s.timedOut then .timedOut s.outBuf s.errBuf else .exited (-1) s.outBuf s.errBuf

end

/-! ## What a turn keeps -/

/-- The buffer is what was taken from the pipe, and fits. If no read of stdout fails (`clean`) the
parent closes stdout when nothing is left in it, or when there is more than fits. -/
structure ExecState.OutInv (limit : ℕ) (clean : Prop) (s : ExecState) : Prop where
  taken : s.outBuf = s.outPipe.taken
  fits : s.outBuf.length ≤ limit
  out : clean → s.sout = false →
    s.outPipe.writers = false ∧ s.outPipe.unread = [] ∨ limit < s.outPipe.written.length

/-- Where no read fails, the parent also closes stderr after its write ends are closed. -/
structure ExecState.Inv (limit : ℕ) (s : ExecState) : Prop where
  out : s.OutInv limit True
  err : s.serr = false → s.errPipe.writers = false

section

variable {tool : ExecMeta} {stdinLen limit : ℕ} {clean : Prop} {s s' : ExecState} {t : ExecTurn}

structure Acted (s s' : ExecState) : Prop where
  frame : ∃ outPipe errPipe exited,
    s' = { s with outPipe := outPipe, errPipe := errPipe, exited := exited }
  taken : s'.outPipe.taken = s.outPipe.taken
  written : s.outPipe.written.length ≤ s'.outPipe.written.length
  out : s.outPipe.writers = false → s'.outPipe = s.outPipe
  err : s.errPipe.writers = false → s'.errPipe.writers = false

theorem acted_act (a : ChildAct) : Acted s (s.childAct a) := by
  cases a with
  | out a =>
    exact ⟨⟨_, _, _, rfl⟩, taken_act a, length_written_act a,
      fun h => act_of_closed h a, id⟩
  | err a =>
    exact ⟨⟨_, _, _, rfl⟩, rfl, le_refl _, fun _ => rfl, fun h => writers_act h a⟩
  | exit => exact ⟨⟨_, _, _, rfl⟩, rfl, le_refl _, fun _ => rfl, id⟩

theorem Acted.trans {s₁ s₂ : ExecState} (h : Acted s s₁) (h' : Acted s₁ s₂) : Acted s s₂ := by
  obtain ⟨o, e, x, rfl⟩ := h.frame
  obtain ⟨o', e', x', rfl⟩ := h'.frame
  exact ⟨⟨o', e', x', rfl⟩, h'.taken.trans h.taken, le_trans h.written h'.written,
    fun hw => (h'.out ((h.out hw).symm ▸ hw)).trans (h.out hw), fun hw => h'.err (h.err hw)⟩

theorem acted_acts (as : List ChildAct) : Acted s (s.childActs as) := by
  induction as generalizing s with
  | nil => exact ⟨⟨_, _, _, rfl⟩, rfl, le_refl _, fun _ => rfl, id⟩
  | cons a as ih => exact (acted_act a).trans ih

theorem Acted.outInv (h : Acted s s') (hinv : s.OutInv limit clean) : s'.OutInv limit clean := by
  obtain ⟨o, e, x, rfl⟩ := h.frame
  refine ⟨hinv.taken.trans h.taken.symm, hinv.fits, fun hclean hs => ?_⟩
  rcases hinv.out hclean hs with ⟨hclosed, hunread⟩ | hover
  · rw [h.out hclosed]
    exact .inl ⟨hclosed, hunread⟩
  · exact .inr (lt_of_lt_of_le hover h.written)

theorem Acted.inv (h : Acted s s') (hinv : s.Inv limit) : s'.Inv limit := by
  refine ⟨h.outInv hinv.out, ?_⟩
  obtain ⟨o, e, x, rfl⟩ := h.frame
  exact fun hs => h.err (hinv.err hs)

def OutReady (s : ExecState) : Prop :=
  s.outPipe.writers = false ∨ s.outPipe.taken.length < s.outPipe.written.length

theorem outReady_spec (h : s.outReady = true) : OutReady s := by
  rcases or_eq_true_iff.mp h with h | h
  · refine .inr ?_
    cases hunread : s.outPipe.unread with
    | nil => simp [readable, hunread] at h
    | cons b bs => simp [written, hunread]
  · exact .inl (by simpa [hangup] using h)

theorem Acted.outReady (h : Acted s s') (hready : OutReady s) : OutReady s' :=
  hready.imp (fun hw => (h.out hw).symm ▸ hw) fun hlt => by
    rw [h.taken]
    exact lt_of_lt_of_le hlt h.written

theorem writeStdin_frame (stdinLen : ℕ) (t : ExecTurn) :
    ∃ stdinOff sin, s.writeStdin stdinLen t = { s with stdinOff := stdinOff, sin := sin } ∧
      (sin = true → s.sin = true) := by
  unfold ExecState.writeStdin
  split
  · rename_i h
    have hsin := (and_eq_true_iff.mp h).1
    split
    · exact ⟨_, _, rfl, fun _ => hsin⟩
    · exact ⟨s.stdinOff, s.sin, rfl, id⟩
    · exact ⟨s.stdinOff, false, rfl, fun h => nomatch h⟩
  · exact ⟨s.stdinOff, s.sin, rfl, id⟩

theorem readOut_outInv {ready fault : Bool} (hfault : clean → fault = false)
    (hready : ready = true → OutReady s) (hinv : s.OutInv limit clean) :
    (s.readOut limit ready fault).OutInv limit clean := by
  simp only [ExecState.readOut]
  split
  · rename_i h
    obtain ⟨hopen, hout⟩ := and_eq_true_iff.mp h
    split
    · rename_i hroom
      split
      · rename_i hbroken
        refine ⟨hinv.taken, hinv.fits, fun hclean => ?_⟩
        rw [hfault hclean] at hbroken
        cases hbroken
      split
      · refine ⟨congrArg (· ++ _) hinv.taken, ?_, fun _ hs => ?_⟩
        · simp only [length_append, length_take]
          omega
        · exact absurd (hs.symm.trans hopen) false_ne_true
      rename_i hnil
      split
      · rename_i hup
        have hunread : s.outPipe.unread = [] := by
          simpa [sub_ne_zero_of_lt hroom] using hnil
        exact ⟨hinv.taken, hinv.fits, fun _ _ => .inl ⟨by simpa [hangup] using hup, hunread⟩⟩
      · exact hinv
    · -- the buffer is full
      rename_i hfull
      refine ⟨hinv.taken, hinv.fits, fun _ _ => ?_⟩
      rw [hinv.taken] at hfull
      by_cases hunread : s.outPipe.unread = []
      · refine (hready hout).imp (fun hw => ⟨hw, hunread⟩) fun hlt => ?_
        exact Nat.lt_of_le_of_lt (Nat.le_of_not_lt hfull) hlt
      have := length_pos_iff.mpr hunread
      refine .inr ?_
      simp only [written, length_append]
      omega
  · exact hinv

theorem readOut_err (ready fault : Bool) : (s.readOut limit ready fault).serr = s.serr ∧
    (s.readOut limit ready fault).errPipe = s.errPipe := by
  simp only [ExecState.readOut]
  split_ifs <;> exact ⟨rfl, rfl⟩

theorem readErr_out (ready fault : Bool) : ∃ errBuf errPipe serr,
    s.readErr ready fault = { s with errBuf := errBuf, errPipe := errPipe, serr := serr } := by
  simp only [ExecState.readErr]
  split_ifs <;> exact ⟨_, _, _, rfl⟩

theorem readErr_outInv (ready fault : Bool) (hinv : s.OutInv limit clean) :
    (s.readErr ready fault).OutInv limit clean := by
  obtain ⟨errBuf, errPipe, serr, heq⟩ := @readErr_out s ready fault
  rw [heq]
  exact ⟨hinv.taken, hinv.fits, hinv.out⟩

theorem readErr_err {ready : Bool} (h : s.serr = false → s.errPipe.writers = false) :
    (s.readErr ready false).serr = false → (s.readErr ready false).errPipe.writers = false := by
  simp only [ExecState.readErr]
  split
  · split
    · contradiction
    split
    · exact h
    split
    · rename_i hup
      exact fun _ => by simpa [hangup] using hup
    · exact h
  · exact h

theorem transfer_outInv (hout : clean → t.outFault = false)
    (hinv : s.OutInv tool.maxOutputBytes clean) :
    (s.transfer tool stdinLen t).OutInv tool.maxOutputBytes clean := by
  obtain ⟨off, sin, hstdin, -⟩ := writeStdin_frame (s := s) stdinLen t
  unfold ExecState.transfer
  rw [hstdin]
  have hacted := acted_acts (s := { s with stdinOff := off, sin := sin }) t.between
  refine readErr_outInv _ _ (readOut_outInv hout (fun h => hacted.outReady ?_) (hacted.outInv ?_))
  · exact outReady_spec h
  · exact ⟨hinv.taken, hinv.fits, hinv.out⟩

theorem transfer_inv (hout : t.outFault = false) (herr : t.errFault = false)
    (hinv : s.Inv tool.maxOutputBytes) :
    (s.transfer tool stdinLen t).Inv tool.maxOutputBytes := by
  refine ⟨transfer_outInv (fun _ => hout) hinv.out, ?_⟩
  obtain ⟨off, sin, hstdin, -⟩ := writeStdin_frame (s := s) stdinLen t
  unfold ExecState.transfer
  rw [herr, hstdin]
  refine readErr_err ?_
  have hacted := acted_acts (s := { s with stdinOff := off, sin := sin }) t.between
  rw [(readOut_err _ _).1, (readOut_err _ _).2]
  obtain ⟨o, e, x, heq⟩ := hacted.frame
  intro hserr
  refine hacted.err (hinv.err ?_)
  rwa [heq] at hserr

theorem execTurn_again (h : execTurn tool stdinLen s t = .again s') :
    ((s.childActs t.before).sin = true ∧ s' = { s.childActs t.before with sin := false }) ∨
    ((s.childActs t.before).killedTerm = false ∧ s' = { s.childActs t.before with
      timedOut := true, killedTerm := true, deadline := t.now + killGraceMs }) ∨
    (t.now < (s.childActs t.before).deadline ∧ (s' = (s.childActs t.before).childActs t.waiting ∨
        s' = ((s.childActs t.before).childActs t.waiting).transfer tool stdinLen t)) := by
  simp only [execTurn] at h
  split at h
  · cases h
  split at h
  · rename_i hdrained
    cases h
    exact .inl ⟨(and_eq_true_iff.mp hdrained).1, rfl⟩
  split at h
  · split at h
    · cases h
    · rename_i hterm
      cases h
      exact .inr (.inl ⟨by simpa using hterm, rfl⟩)
  rename_i hlate
  refine .inr (.inr ⟨Int.not_le.mp hlate, ?_⟩)
  split at h
  · cases h
    exact .inl rfl
  · cases h
    exact .inl rfl
  · cases h
  · cases h
    exact .inr rfl

theorem execTurn_wait (h : execTurn tool stdinLen s t = .stop (.wait s')) :
    s'.killedKill = true ∧ s'.timedOut = true ∨
      s' = s.childActs t.before ∧ s'.sout = false ∧ s'.serr = false := by
  simp only [execTurn] at h
  split at h
  · rename_i hclosed
    cases h
    simp only [and_eq_true_iff, not_eq_true'] at hclosed
    exact .inr ⟨rfl, hclosed.1.2, hclosed.2⟩
  split at h
  · cases h
  split at h
  · split at h
    · cases h
      exact .inl ⟨rfl, rfl⟩
    · cases h
  · split at h <;> cases h

theorem execTurn_outInv (hout : clean → t.outFault = false)
    (hinv : s.OutInv tool.maxOutputBytes clean) (h : execTurn tool stdinLen s t = .again s') :
    s'.OutInv tool.maxOutputBytes clean := by
  have hbefore := (acted_acts t.before).outInv hinv
  have hwaiting := (acted_acts t.waiting).outInv hbefore
  rcases execTurn_again h with ⟨-, rfl⟩ | ⟨-, rfl⟩ | ⟨-, rfl | rfl⟩
  · exact ⟨hbefore.taken, hbefore.fits, hbefore.out⟩
  · exact ⟨hbefore.taken, hbefore.fits, hbefore.out⟩
  · exact hwaiting
  · exact transfer_outInv hout hwaiting

theorem execTurn_inv (hout : t.outFault = false) (herr : t.errFault = false)
    (hinv : s.Inv tool.maxOutputBytes) (h : execTurn tool stdinLen s t = .again s') :
    s'.Inv tool.maxOutputBytes := by
  refine ⟨execTurn_outInv (fun _ => hout) hinv.out h, ?_⟩
  have hbefore := (acted_acts t.before).inv hinv
  have hwaiting := (acted_acts t.waiting).inv hbefore
  rcases execTurn_again h with ⟨-, rfl⟩ | ⟨-, rfl⟩ | ⟨-, rfl | rfl⟩
  · exact hbefore.err
  · exact hbefore.err
  · exact hwaiting.err
  · exact (transfer_inv hout herr hwaiting).err

end

/-! ## The wait -/

/-- The child has exited, or stderr is held open, or stdout is held open and keeps to the limit. -/
def ExecState.Held (limit : ℕ) (s : ExecState) : Prop :=
  s.exited = true ∨ s.errPipe.writers = true ∨
    s.outPipe.writers = true ∧ s.outPipe.written.length ≤ limit

/-- The condition on a turn: the child meets `Held` where the turn begins, and no read fails. -/
structure Behaves (tool : ExecMeta) (s : ExecState) (t : ExecTurn) : Prop where
  held : (s.childActs t.before).Held tool.maxOutputBytes
  outFault : t.outFault = false
  errFault : t.errFault = false

theorem ExecState.Held.exited {limit : ℕ} {s : ExecState} (h : s.Held limit) (hinv : s.Inv limit)
    (hout : s.sout = false) (herr : s.serr = false) : s.exited = true := by
  rcases h with h | h | ⟨h, hlimit⟩
  · exact h
  · rw [hinv.err herr] at h
    cases h
  rcases hinv.out.out trivial hout with ⟨hclosed, -⟩ | hover
  · rw [hclosed] at h
    cases h
  · exact absurd hlimit (not_le.mpr hover)

theorem ExecState.init_outInv (limit : ℕ) (clean : Prop) (deadline : Int) :
    (ExecState.init deadline).OutInv limit clean :=
  ⟨rfl, zero_le _, nofun⟩

theorem ExecState.init_inv (limit : ℕ) (deadline : Int) : (ExecState.init deadline).Inv limit :=
  ⟨init_outInv limit True deadline, nofun⟩

theorem execLoop_wait {tool : ExecMeta} {stdinLen : ℕ} {sched : ExecSchedule}
    (hbehaves : During (execTurn tool stdinLen) (Behaves tool) sched.turns
      (.init (sched.start + tool.timeoutMs))) {s : ExecState}
    (h : execLoop tool stdinLen sched = some (.wait s)) :
    s.exited = true ∨ s.killedKill = true := by
  refine loop_induct (I := ExecState.Inv tool.maxOutputBytes)
    (Q := fun r => ∀ s, r = .wait s → s.exited = true ∨ s.killedKill = true) ?_ ?_
    (ExecState.init_inv _ _) hbehaves h s rfl
  · intro s t s' hinv hb hturn
    exact execTurn_inv hb.outFault hb.errFault hinv hturn
  rintro s t r hinv hb hturn s' rfl
  rcases execTurn_wait hturn with ⟨hkill, -⟩ | ⟨rfl, hout, herr⟩
  · exact .inr hkill
  · exact .inl (hb.held.exited ((acted_acts t.before).inv hinv) hout herr)

/-! ## The deadline -/

/-- What can still delay the end of the loop after the deadline: stdin to be closed, and SIGTERM to
be sent. -/
def ExecState.rank (s : ExecState) : ℕ := s.sin.toNat + (!s.killedTerm).toNat

structure NoLater (s s' : ExecState) : Prop where
  deadline : s'.deadline = s.deadline
  sin : s'.sin = true → s.sin = true
  killedTerm : s.killedTerm = true → s'.killedTerm = true

section

variable {tool : ExecMeta} {stdinLen : ℕ} {s s' : ExecState} {t : ExecTurn}

theorem NoLater.trans {s₁ s₂ : ExecState} (h : NoLater s s₁) (h' : NoLater s₁ s₂) :
    NoLater s s₂ :=
  ⟨h'.deadline.trans h.deadline, fun hs => h.sin (h'.sin hs),
    fun hs => h'.killedTerm (h.killedTerm hs)⟩

theorem NoLater.rank_le (h : NoLater s s') : s'.rank ≤ s.rank := by
  refine Nat.add_le_add ?_ ?_
  · cases hsin : s'.sin with
    | false => exact zero_le _
    | true => rw [h.sin hsin]
  · cases hterm : s.killedTerm with
    | true => rw [h.killedTerm hterm]
    | false => exact toNat_le _

theorem Acted.noLater (h : Acted s s') : NoLater s s' := by
  obtain ⟨o, e, x, rfl⟩ := h.frame
  exact ⟨rfl, id, id⟩

theorem readOut_noLater (limit : ℕ) (ready fault : Bool) :
    NoLater s (s.readOut limit ready fault) := by
  simp only [ExecState.readOut]
  split_ifs <;> exact ⟨rfl, id, fun h => by first | exact h | rfl⟩

theorem readErr_noLater (ready fault : Bool) : NoLater s (s.readErr ready fault) := by
  simp only [ExecState.readErr]
  split_ifs <;> exact ⟨rfl, id, id⟩

theorem transfer_noLater : NoLater s (s.transfer tool stdinLen t) := by
  obtain ⟨off, sin, hstdin, hsin⟩ := writeStdin_frame (s := s) stdinLen t
  have hwrite : NoLater s (s.writeStdin stdinLen t) := by
    rw [hstdin]
    exact ⟨rfl, hsin, id⟩
  exact ((hwrite.trans (acted_acts t.between).noLater).trans (readOut_noLater _ _ _)).trans
    (readErr_noLater _ _)

theorem execTurn_progress (h : execTurn tool stdinLen s t = .again s') :
    s'.deadline ≤ max s.deadline (t.now + killGraceMs) ∧ s'.rank ≤ s.rank ∧
      (s.deadline ≤ t.now → s'.rank < s.rank) := by
  have hbefore := (acted_acts (s := s) t.before).noLater
  have hwaiting := hbefore.trans (acted_acts t.waiting).noLater
  rcases execTurn_again h with ⟨hsin, rfl⟩ | ⟨hterm, rfl⟩ | ⟨hnow, hs'⟩
  · have hlt : ({ s.childActs t.before with sin := false } : ExecState).rank < s.rank := by
      refine lt_of_lt_of_le ?_ hbefore.rank_le
      simp [ExecState.rank, hsin]
    exact ⟨hbefore.deadline ▸ le_max_left _ _, hlt.le, fun _ => hlt⟩
  · have hlt : ({ s.childActs t.before with
        timedOut := true, killedTerm := true, deadline := t.now + killGraceMs } : ExecState).rank <
        s.rank := by
      refine lt_of_lt_of_le ?_ hbefore.rank_le
      simp [ExecState.rank, hterm]
    exact ⟨le_max_right _ _, hlt.le, fun _ => hlt⟩
  · have hlater : NoLater s s' := by
      rcases hs' with rfl | rfl
      · exact hwaiting
      · exact hwaiting.trans transfer_noLater
    rw [hbefore.deadline] at hnow
    exact ⟨hlater.deadline ▸ le_max_left _ _, hlater.rank_le, fun h => absurd hnow (not_lt.mpr h)⟩

/-- The clock passes a deadline `n` times: there are `n` turns that begin at or after `deadline`,
and the grace period or more after every turn before them. -/
def Passes : ℕ → Int → List ExecTurn → Prop
  | 0, _, _ => True
  | _ + 1, _, [] => False
  | n + 1, deadline, t :: ts =>
    deadline ≤ t.now ∧ Passes n (max deadline (t.now + killGraceMs)) ts ∨
      Passes (n + 1) (max deadline (t.now + killGraceMs)) ts

theorem loop_isSome_of_passes {n : ℕ} {deadline : Int} {ts : List ExecTurn}
    (hpass : Passes n deadline ts) (hrank : s.rank < n) (hdeadline : s.deadline ≤ deadline) :
    ∃ r, loop (execTurn tool stdinLen) ts s = some r := by
  induction ts generalizing n s deadline with
  | nil =>
    cases n with
    | zero => exact absurd hrank (not_lt_zero _)
    | succ n => cases hpass
  | cons t ts ih =>
    cases hturn : execTurn tool stdinLen s t with
    | stop r => exact ⟨r, loop_of_stop hturn⟩
    | again s' =>
      rw [loop_of_again hturn]
      obtain ⟨hmax, hle, hlt⟩ := execTurn_progress hturn
      have hdeadline' : s'.deadline ≤ max deadline (t.now + killGraceMs) := by omega
      cases n with
      | zero => exact absurd hrank (not_lt_zero _)
      | succ n =>
        rcases hpass with ⟨hlate, hpass⟩ | hpass
        · exact ih hpass (by have := hlt (hdeadline.trans hlate); omega) hdeadline'
        · exact ih hpass (by omega) hdeadline'

end

/-! ## The call -/

/-- **The wait.** If the child behaves in every turn of the run, the wait is entered only for a
child that has exited or was sent SIGKILL. If such a child has an exit status and the clock passes
the deadline, the call has returned. -/
theorem runChild_waits (tool : ExecMeta) (stdinLen : ℕ) (sched : ExecSchedule)
    (hbehaves : During (execTurn tool stdinLen) (Behaves tool) sched.turns
      (.init (sched.start + tool.timeoutMs))) :
    (∀ s, execLoop tool stdinLen sched = some (.wait s) → s.exited = true ∨ s.killedKill = true) ∧
    ((∀ s, execLoop tool stdinLen sched = some (.wait s) →
        s.exited = true ∨ s.killedKill = true → sched.status.isSome) →
      Passes 3 (sched.start + tool.timeoutMs) sched.turns →
      (runChild tool stdinLen sched).isSome) := by
  refine ⟨fun s hs => execLoop_wait hbehaves hs, fun hexits hpass => ?_⟩
  obtain ⟨r, hr⟩ : ∃ r, execLoop tool stdinLen sched = some r :=
    loop_isSome_of_passes hpass (lt_succ_self 2) le_rfl
  unfold runChild
  split
  · rfl
  rw [hr, Option.bind_some]
  cases r with
  | ioError => rfl
  | wait s =>
    rw [Option.isSome_map]
    exact hexits s hr (execLoop_wait hbehaves hr)

/-- A turn in which `select` returns at once and stdin takes everything. -/
def readyTurn (now : Int) (before : List ChildAct) : ExecTurn :=
  ⟨before, now, [], .ready, true, .accepted 4096, [], false, false⟩

def closeBoth : List ChildAct := [.out .close, .err .close]

def quickTool : ExecMeta := ⟨1000, 64⟩

/-- The child does `acts` and then nothing; the clock goes on. -/
def idleSchedule (acts : List ChildAct) (status : Option ExitStatus) : ExecSchedule where
  started := true
  start := 0
  turns := (range 6).map fun i => readyTurn (1000 * i) acts
  status := status

theorem runChild_waits_exit :
    During (execTurn quickTool 10) (Behaves quickTool)
      (idleSchedule (.exit :: closeBoth) (some (.exited 0))).turns (.init (0 + 1000)) ∧
    (runChild quickTool 10 (idleSchedule (.exit :: closeBoth) (some (.exited 0)))).isSome := by
  have hbehaves : During (execTurn quickTool 10) (Behaves quickTool)
      (idleSchedule (.exit :: closeBoth) (some (.exited 0))).turns (.init (0 + 1000)) := by
    refine during_of_forall fun s t ht => ?_
    obtain ⟨i, -, rfl⟩ := mem_map.mp ht
    exact ⟨.inl rfl, rfl, rfl⟩
  refine ⟨hbehaves, (runChild_waits quickTool 10 _ hbehaves).2 (fun _ _ _ => rfl) ?_⟩
  simp [idleSchedule, range_succ, Passes, readyTurn, quickTool, killGraceMs]

/-- A child that closes its outputs and stays: the wait is entered before the deadline, without a
signal, and returns only if the child exits. -/
theorem runChild_hangs :
    (∃ s, execLoop quickTool 10 (idleSchedule closeBoth none) = some (.wait s) ∧
      s.exited = false ∧ s.killedTerm = false ∧ s.killedKill = false) ∧
    runChild quickTool 10 (idleSchedule closeBoth none) = none :=
  ⟨⟨_, rfl, rfl, rfl, rfl⟩, rfl⟩

end MaluDb.Mc2dbd
