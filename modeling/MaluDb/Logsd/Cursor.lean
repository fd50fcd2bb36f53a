import MaluDb.Lib.Run
import MaluDb.Logsd.Delivery

/-!
# Concurrent calls of `log_drain_advance_cursor`

A call reads the cursor without a lock, and later writes the larger of what it read and its own id.
The calls interleave by statements.

* An `UPDATE` and the commit after it are one step: until the commit another call reads the old
  cursor, as it would before the `UPDATE`, and its own `UPDATE` waits.
* The `UPDATE` sets one key of the row as it then is, so a call never writes another stream.
-/

namespace MaluDb.Logsd

open MaluDb.Lib

/-- The arguments of a call, next to the drain. -/
structure Advance where
  stream : String
  lastId : Int
  deriving DecidableEq

/-- The statements of the call with a number. -/
inductive Statement where
  | select (i : ℕ)
  | update (i : ℕ)

/-- `reads` are the calls between their statements, with `v_existing`; `ended` are the calls that
have returned. -/
structure Calls (P : Type) where
  db : Db P
  reads : ℕ → Option Int
  ended : List Advance

section

variable {P : Type} (drainId : ℕ) (call : ℕ → Advance)

def Calls.start (db : Db P) : Calls P := ⟨db, fun _ => none, []⟩

/-- One statement. A call whose drain is missing raises, and has no second statement. -/
def advanceStep (w : Calls P) : Statement → Calls P
  | .select i =>
    { w with reads := Function.update w.reads i (w.db.cursor? drainId (call i).stream) }
  | .update i =>
    match w.reads i with
    | none => w
    | some existing =>
      { db := w.db.setCursor drainId (call i).stream (max existing (call i).lastId)
        reads := Function.update w.reads i none
        ended := w.ended ++ [call i] }

/-- The cursor that a call writes over is the one that it read. -/
def Undisturbed (w : Calls P) : Statement → Prop
  | .select _ => True
  | .update i => ∀ existing ∈ w.reads i, w.db.cursor? drainId (call i).stream = some existing

/-- The largest of the first cursor of a stream and the ids that calls have advanced it to. -/
def advancedTo (first : String → Int) (ended : List Advance) (stream : String) : Int :=
  ((ended.filter (·.stream = stream)).map Advance.lastId).foldl max (first stream)

/-! ## Steps -/

variable {drainId call} {w : Calls P} {first : String → Int}

theorem advancedTo_concat (ended : List Advance) (a : Advance) (stream : String) :
    advancedTo first (ended ++ [a]) stream =
      if a.stream = stream then max (advancedTo first ended stream) a.lastId
      else advancedTo first ended stream := by
  by_cases h : a.stream = stream <;> simp [advancedTo, h]

/-- A statement changes the cursors only if it is the `UPDATE` of a call that has read. -/
theorem advanceStep_cases (drainId : ℕ) (call : ℕ → Advance) (w : Calls P) (e : Statement) :
    ((advanceStep drainId call w e).db = w.db ∧ (advanceStep drainId call w e).ended = w.ended) ∨
    ∃ i existing, e = .update i ∧ w.reads i = some existing ∧ (advanceStep drainId call w e).db =
        w.db.setCursor drainId (call i).stream (max existing (call i).lastId) ∧
      (advanceStep drainId call w e).ended = w.ended ++ [call i] := by
  cases e with
  | select i => exact .inl ⟨rfl, rfl⟩
  | update i =>
    cases h : w.reads i with
    | none => exact .inl (by simp [advanceStep, h])
    | some existing => exact .inr ⟨i, existing, rfl, h, by simp [advanceStep, h],
        by simp [advanceStep, h]⟩

/-- Every stream is where the calls that have returned left it. -/
def Exact (drainId : ℕ) (first : String → Int) (w : Calls P) : Prop :=
  ∀ stream, w.db.cursor? drainId stream = some (advancedTo first w.ended stream)

section

variable (hw : Exact drainId first w) {e : Statement} (he : Undisturbed drainId call w e)
include hw he

theorem Exact.step : Exact drainId first (advanceStep drainId call w e) := by
  obtain ⟨hdb, hended⟩ | ⟨i, existing, rfl, hread, hdb, hended⟩ :=
    advanceStep_cases drainId call w e
  · intro stream
    rw [hdb, hended, hw stream]
  intro stream
  have hnow : some (advancedTo first w.ended (call i).stream) = some existing :=
    (hw _).symm.trans (he existing hread)
  rw [hdb, hended, advancedTo_concat]
  by_cases hs : (call i).stream = stream
  · subst hs
    rw [if_pos rfl, Option.some.inj hnow]
    exact cursor?_setCursor_self (hw (call i).stream) _
  · rw [if_neg hs, cursor?_setCursor_of_ne _ (.inr (Ne.symm hs)), hw stream]

theorem Exact.mono (stream : String) :
    ∀ c ∈ w.db.cursor? drainId stream,
      ∀ c' ∈ (advanceStep drainId call w e).db.cursor? drainId stream, c ≤ c' := by
  intro c hc c' hc'
  rw [hw stream] at hc
  rw [hw.step he stream] at hc'
  cases hc
  cases hc'
  obtain ⟨-, hended⟩ | ⟨i, _, -, -, -, hended⟩ :=
    advanceStep_cases drainId call w e
  · rw [hended]
  rw [hended, advancedTo_concat]
  split
  · exact le_max_left _ _
  · exact le_rfl

end

/-- A stream that no returned call has advanced is as it was. -/
theorem cursor?_run_of_untouched {stream : String} (statements : List Statement) :
    (∀ a ∈ (run (advanceStep drainId call) w statements).ended, a.stream ≠ stream) →
    (run (advanceStep drainId call) w statements).db.cursor? drainId stream =
      w.db.cursor? drainId stream := by
  induction statements using List.reverseRecOn with
  | nil => exact fun _ => rfl
  | append_singleton before e ih =>
    rw [run_append, run_cons, run_nil]
    obtain ⟨hdb, hended⟩ | ⟨i, _, -, -, hdb, hended⟩ :=
      advanceStep_cases drainId call
        (run (advanceStep drainId call) w before) e
    · rw [hdb, hended]
      exact ih
    rw [hdb, hended]
    intro h
    have hi := h (call i) (List.mem_append_right _ List.mem_cons_self)
    rw [cursor?_setCursor_of_ne _ (.inr hi.symm)]
    exact ih fun a ha => h a (List.mem_append_left _ ha)

variable (drainId call)

/-- **Undisturbed calls only move the cursors forward.** If no cursor changes between the two
statements of a call that advances it, then no statement moves a cursor back, and every cursor ends
at the largest of its first value and the ids of the calls that have returned. In every
interleaving, the cursors of the other streams stay. -/
theorem advance_forward (db : Db P) (statements : List Statement)
    (hfirst : ∀ stream, db.cursor? drainId stream = some (first stream))
    (hcalls : Along (advanceStep drainId call) (Undisturbed drainId call) (.start db) statements) :
    Along (advanceStep drainId call) (fun w e => ∀ stream, ∀ c ∈ w.db.cursor? drainId stream,
      ∀ c' ∈ (advanceStep drainId call w e).db.cursor? drainId stream, c ≤ c')
      (.start db) statements ∧
    (∀ stream, (run (advanceStep drainId call) (.start db) statements).db.cursor? drainId stream =
        some (advancedTo first (run (advanceStep drainId call) (.start db) statements).ended
          stream)) ∧
    ∀ (others : List Statement) (stream : String),
      (∀ a ∈ (run (advanceStep drainId call) (.start db) others).ended, a.stream ≠ stream) →
      (run (advanceStep drainId call) (.start db) others).db.cursor? drainId stream =
        db.cursor? drainId stream := by
  have hstart : Exact drainId first (Calls.start db) := hfirst
  refine ⟨?_, ?_, fun others stream => cursor?_run_of_untouched others⟩
  · exact along_induct (fun w e hw he => ⟨hw.mono he, hw.step he⟩) _ statements hstart hcalls
  · exact run_induct (I := Exact drainId first) (fun w e hw he => hw.step he) _ statements hstart
      hcalls

end

/-! ## Two calls -/

/-- One call with 10, and calls with 5. -/
def twoAdvances (i : ℕ) : Advance := if i = 0 then ⟨"audit", 10⟩ else ⟨"audit", 5⟩

theorem advance_forward_serial :
    (run (advanceStep 1 twoAdvances) (.start twoDrains)
      [.select 0, .update 0, .select 1, .update 1]).db.cursor? 1 "audit" =
        some (advancedTo (fun _ => 0) [⟨"audit", 10⟩, ⟨"audit", 5⟩] "audit") := by
  have hfirst (stream : String) : twoDrains.cursor? 1 stream = some 0 := rfl
  refine (advance_forward 1 twoAdvances twoDrains [.select 0, .update 0, .select 1, .update 1]
    hfirst ⟨trivial, ?_, trivial, ?_, trivial⟩).2.1 "audit"
  · rintro existing ⟨⟩
    rfl
  · rintro existing ⟨⟩
    decide

/-- **Two calls that read before either writes move the cursor back.** Both read 0; the one writes
10, and the other then writes 5. -/
theorem advance_backward :
    (run (advanceStep 1 twoAdvances) (.start twoDrains)
      [.select 0, .select 1, .update 0]).db.cursor? 1 "audit" = some 10 ∧
    (run (advanceStep 1 twoAdvances) (.start twoDrains)
      [.select 0, .select 1, .update 0, .update 1]).db.cursor? 1 "audit" = some 5 := by
  decide

end MaluDb.Logsd
