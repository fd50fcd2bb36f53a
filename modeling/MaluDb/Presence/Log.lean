import Mathlib.Data.Int.Notation
import MaluDb.Lib.Run

/-!
# Presence in a pool

`presence_update`, `presence_leave`, `presence_sweep` and `presence_list`.

* A participant of a pool has at most one row (`UNIQUE (pool_id, participant_kind,
  participant_ref)`), so rows are kept by participant, each with the events of its `presence_id`
  in order.
* A session sees the pools and the rows that the policies `tenant_owner` and `principal_scope` let
  it see; one with `BYPASSRLS` sees all.
* `role`, `declared_task` and `cursor_jsonb`, which are only copied out, are left out.
-/

namespace MaluDb.Presence

open MaluDb.Lib

/-! ## Tables -/

inductive ParticipantKind where
  | human
  | agent
  | tool
  deriving DecidableEq

structure Participant where
  poolId : ℕ
  kind : ParticipantKind
  ref : String
  deriving DecidableEq

inductive EventKind where
  | join
  | update
  | leave
  deriving DecidableEq

structure Row where
  ownerSchema : String
  lastSeenAt : ℤ
  ttlSeconds : Option ℤ
  leftAt : Option ℤ
  events : List EventKind

structure Pool where
  ownerSchema : String
  scope : Option String

structure Store where
  pools : ℕ → Option Pool
  rows : Participant → Option Row

inductive PresenceError where
  | poolNotFound (id : ℕ)
  | badTtl
  | uniqueViolation

def PresenceError.message : PresenceError → String
  | .poolNotFound id => s!"presence_update: pool {id} not found or not visible to caller"
  | .badTtl => "presence_update: ttl_seconds must be > 0"
  | .uniqueViolation => "duplicate key value violates unique constraint"

/-- `scopes` are those the principal may read, if one is set, and `now` is the time of the
transaction in microseconds. -/
structure Session where
  schema : String
  scopes : Option (List String)
  bypassRls : Bool
  now : ℤ

/-! ## Functions -/

section

variable (s : Store) (ses : Session) (p : Participant) (r : Row)

def Store.poolVisible (id : ℕ) : Bool :=
  (s.pools id).any fun pool => ses.bypassRls || pool.ownerSchema == ses.schema &&
    ses.scopes.all fun scopes => scopes.contains (pool.scope.getD "default")

def Store.rowVisible : Bool :=
  ses.bypassRls || r.ownerSchema == ses.schema && (ses.scopes.isNone || s.poolVisible ses p.poolId)

def Store.visible? : Option Row := (s.rows p).filter (s.rowVisible ses p)

def Store.put : Store := { s with rows := Function.update s.rows p (some r) }

def Row.log (k : EventKind) : Row := { r with events := r.events ++ [k] }

def presenceUpdate (ttl : Option ℤ) : Except PresenceError Store :=
  if !s.poolVisible ses p.poolId then .error (.poolNotFound p.poolId)
  else if ttl.any (· ≤ 0) then .error .badTtl
  else
    match s.visible? ses p with
    | some r =>
      let r' := { r with lastSeenAt := ses.now, ttlSeconds := ttl.or r.ttlSeconds, leftAt := none }
      .ok (s.put p (r'.log (if r.leftAt.isNone then .update else .join)))
    | none =>
      -- the key of a row that is not seen is taken
      if (s.rows p).isSome then .error .uniqueViolation
      else .ok (s.put p ⟨ses.schema, ses.now, ttl, none, [.join]⟩)

def Row.leave : Row := Row.log { r with leftAt := some ses.now } .leave

/-- The result is whether the participant was there. -/
def presenceLeave : Store × Bool :=
  match (s.visible? ses p).filter fun r => r.leftAt.isNone with
  | none => (s, false)
  | some r => (s.put p (r.leave ses), true)

/-- The rows that `presence_sweep` marks as left. -/
def Store.expired : Bool :=
  s.rowVisible ses p r && r.leftAt.isNone &&
    r.ttlSeconds.any fun ttl => r.lastSeenAt + ttl * 1000000 < ses.now

def presenceSweep : Store :=
  { s with rows := fun p => (s.rows p).map fun r => if s.expired ses p r then r.leave ses else r }

/-- Whether `presence_list` of the participant's pool shows the participant. -/
def presenceListed (includeLeft : Bool) : Bool :=
  (s.visible? ses p).any fun r => includeLeft || r.leftAt.isNone

/-- The events of the participant that the session sees. -/
def eventLog : List EventKind := (s.visible? ses p).elim [] Row.events

end

inductive Op where
  | update (p : Participant) (ttl : Option ℤ)
  | leave (p : Participant)
  | sweep

def step (s : Store) : Session × Op → Store
  | (ses, .update p ttl) => commitOr s (presenceUpdate s ses p ttl)
  | (ses, .leave p) => (presenceLeave s ses p).1
  | (ses, .sweep) => presenceSweep s ses

/-! ## The language of the logs -/

/-- A stay that is not over, with its number of updates. -/
def began (updates : ℕ) : List EventKind := .join :: List.replicate updates .update

/-- The events are those of some finished stays and, if the participant is present, of one that is
not over. -/
def Word (present : Bool) (events : List EventKind) : Prop :=
  ∃ (stays : List ℕ) (current : Option ℕ), current.isSome = present ∧
    events = stays.flatMap (fun n => began n ++ [.leave]) ++ current.elim [] began

variable {s : Store} {ses : Session} {present : Bool} {events : List EventKind} {r : Row}

theorem Word.join (h : Word false events) : Word true (events ++ [.join]) := by
  obtain ⟨stays, _ | n, hnone, rfl⟩ := h
  · exact ⟨stays, some 0, rfl, by simp [began]⟩
  · cases hnone

theorem Word.update (h : Word true events) : Word true (events ++ [.update]) := by
  obtain ⟨stays, _ | n, hsome, rfl⟩ := h
  · cases hsome
  · exact ⟨stays, some (n + 1), rfl, by simp [began, List.replicate_succ']⟩

theorem Word.leave (h : Word true events) : Word false (events ++ [.leave]) := by
  obtain ⟨stays, _ | n, hsome, rfl⟩ := h
  · cases hsome
  · exact ⟨stays ++ [n], none, rfl, by simp⟩

theorem getLast?_began (n : ℕ) : ∃ k, (began n).getLast? = some k ∧ k ≠ .leave := by
  cases n with
  | zero => exact ⟨.join, rfl, nofun⟩
  | succ n => exact ⟨.update, by simp [began, List.getLast?_cons, List.getLast?_replicate], nofun⟩

theorem Word.present_iff (h : Word present events) :
    present = true ↔ ∃ k, events.getLast? = some k ∧ k ≠ .leave := by
  obtain ⟨stays, _ | n, rfl, rfl⟩ := h
  · -- the last event, if there is one, is the leave of the last finished stay
    refine iff_of_false nofun ?_
    rintro ⟨k, hk, hne⟩
    obtain rfl | ⟨stays, n, rfl⟩ := stays.eq_nil_or_concat
    · cases hk
    · exact hne (by simpa using hk.symm)
  · obtain ⟨k, hk, hne⟩ := getLast?_began n
    exact iff_of_true rfl ⟨k, by simp [hk], hne⟩

/-- The log of a row follows its `left_at`. -/
def Row.Sound (r : Row) : Prop := Word r.leftAt.isNone r.events

def Sound (s : Store) : Prop := ∀ p r, s.rows p = some r → r.Sound

theorem Row.Sound.leave (h : r.Sound) (hin : r.leftAt.isNone = true) : (r.leave ses).Sound :=
  Word.leave (hin ▸ h)

theorem Sound.visible (h : Sound s) {p : Participant} (hr : s.visible? ses p = some r) : r.Sound :=
  h p r (Option.filter_eq_some_iff.mp hr).1

theorem Sound.put (h : Sound s) {p : Participant} (hr : r.Sound) : Sound (s.put p r) := by
  intro p' r' hp'
  by_cases hp : p' = p
  · subst hp
    obtain rfl : r = r' := by simpa [Store.put] using hp'
    exact hr
  · exact h p' r' (by simpa [Store.put, hp] using hp')

theorem Sound.step (h : Sound s) (c : Session × Op) : Sound (step s c) := by
  obtain ⟨ses, op⟩ := c
  cases op with
  | update p ttl =>
    refine commitOr_of h fun s' hs' => ?_
    unfold presenceUpdate at hs'
    cases hrow : s.visible? ses p with
    | some r =>
      have hword := h.visible hrow
      simp only [hrow] at hs'
      split_ifs at hs' with _ _ hleft
      · cases hs'
        exact h.put (hleft ▸ hword : Word true r.events).update
      · cases hs'
        exact h.put (Bool.eq_false_iff.mpr hleft ▸ hword : Word false r.events).join
    | none =>
      simp only [hrow] at hs'
      split_ifs at hs'
      cases hs'
      exact h.put ⟨[], some 0, rfl, rfl⟩
  | leave p =>
    show Sound (presenceLeave s ses p).1
    unfold presenceLeave
    split
    · exact h
    · rename_i r hr
      obtain ⟨hr, hin⟩ := Option.filter_eq_some_iff.mp hr
      exact h.put ((h.visible hr).leave hin)
  | sweep =>
    intro p r hr
    obtain ⟨r₀, hr₀, rfl⟩ := Option.map_eq_some_iff.mp hr
    have hword := h p r₀ hr₀
    split
    · rename_i hexp
      simp only [Store.expired, Bool.and_eq_true] at hexp
      exact hword.leave hexp.1.2
    · exact hword

/-- **The log of a participant is a sequence of stays**, and the participant is listed as present
exactly when the last event is not a leave. -/
theorem eventLog_word (pools : ℕ → Option Pool) (calls : List (Session × Op)) (ses : Session)
    (p : Participant) :
    let s := run step ⟨pools, fun _ => none⟩ calls
    Word (presenceListed s ses p false) (eventLog s ses p) ∧ (presenceListed s ses p false = true ↔
        ∃ k, (eventLog s ses p).getLast? = some k ∧ k ≠ .leave) := by
  intro s
  have hsound : Sound s := run_inv (fun _ c h => h.step c) calls nofun
  have hword : Word (presenceListed s ses p false) (eventLog s ses p) := by
    unfold presenceListed eventLog
    cases hrow : s.visible? ses p with
    | none => exact ⟨[], none, rfl, rfl⟩
    | some r => exact hsound.visible hrow
  exact ⟨hword, hword.present_iff⟩

end MaluDb.Presence
