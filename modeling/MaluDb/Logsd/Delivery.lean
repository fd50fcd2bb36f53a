import MaluDb.Logsd.Worker

/-!
# What a pass of the log drain worker delivers

A stream whose batch was shipped should have its cursor past the batch when the pass is over, and
stay so. The cursors of all drains are part of one transaction.

* `attempt` is what comes of one stream: nothing to ship, a delivery, a `SinkError`, or another
  exception, which leaves the pass. `plan` is the list of attempts of all drains.
-/

namespace MaluDb.Logsd

open MaluDb.Lib List Function

variable {P : Type} {env : Env P} {db db₀ : Db P} {s : St P} {sink : Sink}
  {drainId position limit default : ℕ} {stream : String} {cursor : Int}

/-! ## The plan -/

/-- What comes of a stream. -/
inductive Attempt (P : Type) where
  | nothing
  | delivers (e : Delivery P)
  | fails
  | breaks

def Delivery.lastId (e : Delivery P) : Int := (e.rows.getLast?.map Record.recordId).getD 0

def attempt (env : Env P) (db : Db P) (sink : Sink) (drainId limit position : ℕ) (stream : String)
    (cursor : Int) : Attempt P :=
  if limit = 0 then .breaks
  else match db.stream? stream with
    | none => .breaks
    | some rows =>
      match nextBatch cursor limit rows with
      | [] => .nothing
      | r :: rs =>
        match ship env sink drainId position ((r :: rs).map Record.payload) with
        | .error (.sinkError _) => .fails
        | .error (.other _) => .breaks
        | .ok _ => .delivers ⟨drainId, stream, r :: rs⟩

def cursorsAfter (cursors : String → Int) : Attempt P → String → Int
  | .delivers e => update cursors e.stream (max (cursors e.stream) e.lastId)
  | _ => cursors

def planStreams (env : Env P) (db : Db P) (sink : Sink) (drainId limit : ℕ) :
    ℕ → (String → Int) → List String → List (Attempt P)
  | _, _, [] => []
  | position, cursors, stream :: streams =>
    let a := attempt env db sink drainId limit position stream (cursors stream)
    a :: planStreams env db sink drainId limit (position + 1) (cursorsAfter cursors a) streams

/-- The attempts of a drain. -/
def planDrain (env : Env P) (default : ℕ) (db : Db P) (d : Drain) : List (Attempt P) :=
  match setup env d with
  | .error (.other _) => [.breaks]
  | .error (.sinkError _) => [.fails]
  | .ok sink =>
    planStreams env db sink d.drainId (batchSizeOf default d) 0 (fun s => (d.cursor s).getD 0)
      d.sourceStreams

def plan (env : Env P) (default : ℕ) (db : Db P) : List (Attempt P) :=
  (enabledDrains db).flatMap (planDrain env default db)

def outcome : List (Attempt P) → List (Delivery P) × Bool
  | [] => ([], false)
  | .breaks :: _ => ([], true)
  | .delivers e :: p => (e :: (outcome p).1, (outcome p).2)
  | .nothing :: p => outcome p
  | .fails :: p => outcome p

def LateBreak (p : List (Attempt P)) : Prop :=
  ∃ before after e, p = before ++ .breaks :: after ∧ .breaks ∉ before ∧ .delivers e ∈ before

def Advanced (db : Db P) (e : Delivery P) : Prop :=
  ∃ c, db.cursor? e.drainId e.stream = some c ∧ ∀ r ∈ e.rows, r.recordId ≤ c

variable {p : List (Attempt P)} {e : Delivery P}

theorem outcome_append_of_breaks (h : (outcome p).2 = true) (q : List (Attempt P)) :
    outcome (p ++ q) = outcome p := by
  induction p with
  | nil => cases h
  | cons a p ih =>
    cases a with
    | breaks => rfl
    | delivers e => rw [cons_append, outcome, outcome, ih h]
    | nothing => exact ih h
    | fails => exact ih h

theorem outcome_append (h : (outcome p).2 = false) (q : List (Attempt P)) :
    outcome (p ++ q) = ((outcome p).1 ++ (outcome q).1, (outcome q).2) := by
  induction p with
  | nil => rfl
  | cons a p ih =>
    cases a with
    | breaks => cases h
    | delivers e =>
      rw [cons_append, outcome, outcome, ih h]
      rfl
    | nothing => exact ih h
    | fails => exact ih h

theorem outcome_of_not_mem (h : .breaks ∉ p) : (outcome p).2 = false := by
  induction p with
  | nil => rfl
  | cons a p ih =>
    rw [mem_cons, not_or] at h
    cases a with
    | breaks => exact absurd rfl h.1
    | delivers e => exact ih h.2
    | nothing => exact ih h.2
    | fails => exact ih h.2

theorem mem_outcome (h : .breaks ∉ p) : e ∈ (outcome p).1 ↔ .delivers e ∈ p := by
  induction p with
  | nil => simp [outcome]
  | cons a p ih =>
    rw [mem_cons, not_or] at h
    cases a with
    | breaks => exact absurd rfl h.1
    | delivers e' => simp [outcome, ih h.2]
    | nothing => simp [outcome, ih h.2]
    | fails => simp [outcome, ih h.2]

theorem exists_first_break (h : .breaks ∈ p) :
    ∃ before after, p = before ++ .breaks :: after ∧ .breaks ∉ before := by
  induction p with
  | nil => cases h
  | cons a p ih =>
    by_cases ha : .breaks = a
    · exact ⟨[], p, by rw [← ha]; rfl, not_mem_nil⟩
    · obtain ⟨before, after, rfl, hb⟩ := ih ((mem_cons.mp h).resolve_left ha)
      exact ⟨a :: before, after, rfl, by simp [ha, hb]⟩

theorem outcome_break {before after : List (Attempt P)} (h : .breaks ∉ before) :
    outcome (before ++ .breaks :: after) = ((outcome before).1, true) := by
  rw [outcome_append (outcome_of_not_mem h), outcome, append_nil]

theorem lateBreak_iff : LateBreak p ↔ (outcome p).2 = true ∧ ∃ e, e ∈ (outcome p).1 := by
  constructor
  · rintro ⟨before, after, e, rfl, hb, he⟩
    rw [outcome_break hb]
    exact ⟨rfl, e, (mem_outcome hb).mpr he⟩
  rintro ⟨hbreak, e, he⟩
  have hmem : .breaks ∈ p := by
    by_contra hnot
    rw [outcome_of_not_mem hnot] at hbreak
    cases hbreak
  obtain ⟨before, after, rfl, hb⟩ := exists_first_break hmem
  rw [outcome_break hb] at he
  exact ⟨before, after, e, rfl, hb, (mem_outcome hb).mp he⟩

/-! ## Cursors -/

theorem cursor?_setCursor_self (h : db.cursor? drainId stream = some cursor) (id : Int) :
    (db.setCursor drainId stream id).cursor? drainId stream = some id := by
  obtain ⟨d, hd, -⟩ := Option.map_eq_some_iff.mp h
  have hkey := (Serial.get?_eq_some.mp hd).2
  unfold Db.cursor? Db.setCursor
  rw [Serial.get?_update, hd]
  simp [hkey]

theorem cursor?_setCursor_of_ne {drainId' : ℕ} {stream' : String} (id : Int)
    (h : drainId' ≠ drainId ∨ stream' ≠ stream) :
    (db.setCursor drainId stream id).cursor? drainId' stream' = db.cursor? drainId' stream' := by
  unfold Db.cursor? Db.setCursor
  rw [Serial.get?_update, Option.map_map]
  refine Option.map_congr fun d hd => ?_
  have hkey : d.drainId = drainId' := (Serial.get?_eq_some.mp hd).2
  simp only [comp_apply]
  split
  · rename_i heq
    have hne : stream' ≠ stream := h.resolve_left fun hne => hne (hkey ▸ by simpa using heq)
    simp [update_of_ne hne]
  · rfl

theorem mem_nextBatch {rows : List (Record P)} {r : Record P}
    (h : r ∈ nextBatch cursor limit rows) : cursor < r.recordId := by
  have hmem := (mem_insertionSort _).mp (mem_of_mem_take h)
  exact of_decide_eq_true (mem_filter.mp hmem).2

theorem le_last_nextBatch {rows : List (Record P)} {r : Record P}
    (he : e.rows = nextBatch cursor limit rows) (h : r ∈ e.rows) : r.recordId ≤ e.lastId := by
  have hsorted : e.rows.Pairwise fun a b => a.recordId ≤ b.recordId := by
    rw [he]
    refine List.Pairwise.sublist (take_sublist _ _) ?_
    have : Std.Total fun a b : Record P => a.recordId ≤ b.recordId := ⟨fun a b => by omega⟩
    have : IsTrans (Record P) fun a b => a.recordId ≤ b.recordId := ⟨fun a b c => by omega⟩
    exact pairwise_insertionSort _ _
  rcases eq_nil_or_concat' e.rows with hnil | ⟨front, last, hrows⟩
  · rw [hnil] at h
    cases h
  have hlast : e.lastId = last.recordId := by
    unfold Delivery.lastId
    rw [hrows, getLast?_concat]
    rfl
  rw [hrows, pairwise_append] at hsorted
  rw [hrows, mem_append, mem_singleton] at h
  rw [hlast]
  rcases h with h | rfl
  · exact hsorted.2.2 r h _ (mem_singleton_self _)
  · exact Int.le_refl _

/-! ## One stream -/

/-- A delivery of a drain's stream, made from rows past a cursor. -/
structure Delivery.From (e : Delivery P) (drainId : ℕ) (stream : String) (cursor : Int) : Prop where
  drainId : e.drainId = drainId
  stream : e.stream = stream
  rows : e.rows ≠ []
  past : ∀ r ∈ e.rows, cursor < r.recordId
  last : ∀ r ∈ e.rows, r.recordId ≤ e.lastId

theorem attempt_delivers
    (h : attempt env db sink drainId limit position stream cursor = .delivers e) :
    e.From drainId stream cursor := by
  unfold attempt at h
  split at h
  · cases h
  split at h
  · cases h
  rename_i rows _
  split at h
  · cases h
  rename_i r rs hbatch
  split at h
  · cases h
  · cases h
  · cases h
    refine ⟨rfl, rfl, cons_ne_nil r rs, fun r' hr' => mem_nextBatch (hbatch ▸ hr'),
      fun r' hr' => le_last_nextBatch (e := ⟨drainId, stream, r :: rs⟩) hbatch.symm hr'⟩

def stateAfter (drainId : ℕ) (stream : String) (cursor : Int) (s : St P) : Attempt P → St P
  | .delivers e => ⟨s.db.setCursor drainId stream (max cursor e.lastId), s.delivered ++ [e]⟩
  | _ => s

/-- **What `_drain_one_stream` does is its attempt**: the state it leaves, and how it ends. -/
theorem drainOneStream_spec (env : Env P) (sink : Sink) (limit position : ℕ)
    (hc : s.db.cursor? drainId stream = some cursor) :
    let a := attempt env s.db sink drainId limit position stream cursor
    let r := drainOneStream env sink drainId position stream limit s
    r.state = stateAfter drainId stream cursor s a ∧ match r with
      | .returned _ _ => a = .nothing ∨ ∃ e, a = .delivers e
      | .raised _ (.sinkError _) => a = .fails
      | .raised _ (.other _) => a = .breaks := by
  unfold attempt drainOneStream logDrainFetchBatch
  rw [hc]
  by_cases hlimit : limit = 0
  · simp only [if_pos hlimit]
    exact ⟨rfl, trivial⟩
  simp only [if_neg hlimit]
  cases hrows : s.db.stream? stream with
  | none => exact ⟨rfl, rfl⟩
  | some rows =>
    simp only
    cases hbatch : nextBatch cursor limit rows with
    | nil => exact ⟨rfl, .inl rfl⟩
    | cons r rs =>
      simp only
      rcases hship : ship env sink drainId position ((r :: rs).map Record.payload) with
        (text | text) | ⟨batches, bytes⟩
      · exact ⟨rfl, rfl⟩
      · exact ⟨rfl, rfl⟩
      simp only [logDrainAdvanceCursor, hc]
      refine ⟨?_, .inr ⟨_, rfl⟩⟩
      have hlast : ((r :: rs).getLast (cons_ne_nil r rs)).recordId =
          Delivery.lastId ⟨drainId, stream, r :: rs⟩ := by
        unfold Delivery.lastId
        rw [getLast?_eq_getLast_of_ne_nil (cons_ne_nil r rs)]
        rfl
      simp only [state_returned, stateAfter, hlast]

/-! ## While the transaction lasts -/

/-- Between the start of a pass, where the tables are `db₀`, and its end. -/
structure Inv (db₀ : Db P) (s : St P) : Prop where
  audit : s.db.auditEvent = db₀.auditEvent
  event : s.db.event = db₀.event
  grows : ∀ id stream c₀, db₀.cursor? id stream = some c₀ →
    ∃ c, s.db.cursor? id stream = some c ∧ c₀ ≤ c
  advanced : ∀ e ∈ s.delivered, Advanced s.db e
  fresh : ∀ e ∈ s.delivered, ¬ Advanced db₀ e

theorem inv_start (db : Db P) : Inv db ⟨db, []⟩ :=
  ⟨rfl, rfl, fun _ _ c₀ h => ⟨c₀, h, Int.le_refl c₀⟩, by simp,
    by simp⟩

theorem Inv.recordRun (h : Inv db₀ s) (drainId : ℕ) (t : Tally) :
    Inv db₀ (recordRun drainId t s) :=
  ⟨h.audit, h.event, h.grows, h.advanced, h.fresh⟩

theorem Advanced.setCursor (h : Advanced db e) (hc : db.cursor? drainId stream = some cursor)
    (id : Int) : Advanced (db.setCursor drainId stream (max cursor id)) e := by
  obtain ⟨c, hcur, hle⟩ := h
  by_cases hsame : e.drainId = drainId ∧ e.stream = stream
  · obtain ⟨rfl, rfl⟩ := hsame
    obtain rfl : c = cursor := Option.some.inj (hcur.symm.trans hc)
    exact ⟨_, cursor?_setCursor_self hc _, fun r hr => by have := hle r hr; omega⟩
  · rw [not_and_or] at hsame
    exact ⟨c, (cursor?_setCursor_of_ne _ hsame).trans hcur, hle⟩

/-- **A delivery keeps the invariant.** -/
theorem Inv.delivers (h : Inv db₀ s) (hc : s.db.cursor? drainId stream = some cursor)
    (he : e.From drainId stream cursor) :
    Inv db₀ (stateAfter drainId stream cursor s (.delivers e)) where
  audit := h.audit
  event := h.event
  grows id stream' c₀ hc₀ := by
    obtain ⟨c, hcur, hle⟩ := h.grows id stream' c₀ hc₀
    by_cases hsame : id = drainId ∧ stream' = stream
    · obtain ⟨rfl, rfl⟩ := hsame
      obtain rfl : c = cursor := Option.some.inj (hcur.symm.trans hc)
      exact ⟨_, cursor?_setCursor_self hc _, by omega⟩
    · rw [not_and_or] at hsame
      exact ⟨c, (cursor?_setCursor_of_ne _ hsame).trans hcur, hle⟩
  advanced e' he' := by
    rcases mem_append.mp he' with hold | hnew
    · exact (h.advanced e' hold).setCursor hc _
    obtain rfl := mem_singleton.mp hnew
    refine ⟨max cursor e'.lastId, ?_, fun r hr => by have := he.last r hr; omega⟩
    rw [he.drainId, he.stream]
    exact cursor?_setCursor_self hc _
  fresh e' he' := by
    rcases mem_append.mp he' with hold | hnew
    · exact h.fresh e' hold
    obtain rfl := mem_singleton.mp hnew
    rintro ⟨c₀, hc₀, hle⟩
    obtain ⟨c, hcur, hc₀le⟩ := h.grows _ _ c₀ hc₀
    rw [he.drainId, he.stream, hc] at hcur
    obtain rfl := Option.some.inj hcur
    obtain ⟨r, hr⟩ := exists_mem_of_ne_nil _ he.rows
    have := hle r hr
    have := he.past r hr
    omega

theorem Inv.stateAfter (h : Inv db₀ s) (hc : s.db.cursor? drainId stream = some cursor)
    {a : Attempt P} (ha : ∀ e, a = .delivers e → e.From drainId stream cursor) :
    Inv db₀ (stateAfter drainId stream cursor s a) := by
  cases a with
  | delivers e => exact h.delivers hc (ha e rfl)
  | nothing => exact h
  | fails => exact h
  | breaks => exact h

/-! ## The pass carries out the plan -/

theorem attempt_congr (haudit : db.auditEvent = db₀.auditEvent) (hevent : db.event = db₀.event) :
    attempt env db sink drainId limit position stream cursor =
      attempt env db₀ sink drainId limit position stream cursor := by
  unfold attempt Db.stream?
  rw [haudit, hevent]

def Cursors (db : Db P) (drainId : ℕ) (cursors : String → Int) : Prop :=
  ∀ stream, db.cursor? drainId stream = some (cursors stream)

theorem Cursors.stateAfter {cursors : String → Int} (h : Cursors s.db drainId cursors)
    {a : Attempt P} (ha : ∀ e, a = .delivers e → e.From drainId stream (cursors stream)) :
    Cursors (stateAfter drainId stream (cursors stream) s a).db drainId
      (cursorsAfter cursors a) := by
  cases a with
  | delivers e =>
    intro stream'
    rw [cursorsAfter, (ha e rfl).stream]
    by_cases hs : stream' = stream
    · subst hs
      rw [update_self]
      exact cursor?_setCursor_self (h stream') _
    · rw [update_of_ne hs]
      exact (cursor?_setCursor_of_ne _ (.inr hs)).trans (h stream')
  | nothing => exact h
  | fails => exact h
  | breaks => exact h

theorem cursor?_stateAfter {drainId' : ℕ} (hne : drainId' ≠ drainId) (a : Attempt P)
    (stream' : String) :
    (stateAfter drainId stream cursor s a).db.cursor? drainId' stream' =
      s.db.cursor? drainId' stream' := by
  cases a with
  | delivers e => exact cursor?_setCursor_of_ne _ (.inl hne)
  | nothing => rfl
  | fails => rfl
  | breaks => rfl

/-- What a part of the pass does with its part `p` of the plan. -/
structure Follows {α : Type} (db₀ : Db P) (mine : ℕ → Prop) (s : St P) (p : List (Attempt P))
    (r : Ended (St P) Exn α) : Prop where
  inv : Inv db₀ r.state
  delivered : r.state.delivered = s.delivered ++ (outcome p).1
  raised : r.isRaised = (outcome p).2
  others : ∀ id, ¬ mine id → ∀ stream, r.state.db.cursor? id stream = s.db.cursor? id stream

/-- What an attempt delivers. -/
def Attempt.deliveries : Attempt P → List (Delivery P)
  | .delivers e => [e]
  | _ => []

theorem outcome_cons {a : Attempt P} (ha : a ≠ .breaks) (p : List (Attempt P)) :
    outcome (a :: p) = (a.deliveries ++ (outcome p).1, (outcome p).2) := by
  cases a with
  | breaks => exact absurd rfl ha
  | delivers e => rfl
  | nothing => rfl
  | fails => rfl

theorem delivered_stateAfter (a : Attempt P) :
    (stateAfter drainId stream cursor s a).delivered = s.delivered ++ a.deliveries := by
  cases a with
  | delivers e => rfl
  | nothing => exact (append_nil _).symm
  | fails => exact (append_nil _).symm
  | breaks => exact (append_nil _).symm

theorem drainStreams_cons (env : Env P) (sink : Sink) (limit position : ℕ)
    (streams : List String) (t : Tally) (hc : s.db.cursor? drainId stream = some cursor) :
    let a := attempt env s.db sink drainId limit position stream cursor
    (a = .breaks ∧ ∃ text, drainStreams env sink drainId limit position (stream :: streams) t s =
      .raised s (.other text)) ∨
    (a ≠ .breaks ∧ ∃ t', drainStreams env sink drainId limit position (stream :: streams) t s =
      drainStreams env sink drainId limit (position + 1) streams t'
        (stateAfter drainId stream cursor s a)) := by
  obtain ⟨hstate, hend⟩ := drainOneStream_spec env sink limit position hc
  rcases hr : drainOneStream env sink drainId position stream limit s with
    ⟨s', n, c, batches, bytes⟩ | ⟨s', (text | text)⟩
  · rw [hr] at hstate hend
    obtain rfl : s' = _ := hstate
    refine .inr ⟨?_, ⟨t.records + n, t.bytes + bytes, t.batches + batches, t.errors,
      t.lastError⟩, by rw [drainStreams, hr]⟩
    rcases hend with hend | ⟨e, hend⟩ <;> simp [hend]
  · rw [hr] at hstate hend
    obtain rfl : s' = _ := hstate
    refine .inr ⟨?_, ⟨t.records, t.bytes, t.batches, t.errors + 1, some text⟩,
      by rw [drainStreams, hr]⟩
    have hfails : attempt env s.db sink drainId limit position stream cursor = .fails := hend
    simp [hfails]
  · rw [hr] at hstate hend
    have hbreaks : attempt env s.db sink drainId limit position stream cursor = .breaks := hend
    rw [hbreaks] at hstate
    obtain rfl : s' = s := hstate
    exact .inl ⟨hbreaks, text, by rw [drainStreams, hr]⟩

theorem drainStreams_plan (env : Env P) (sink : Sink) (limit : ℕ) (streams : List String)
    (position : ℕ) (cursors : String → Int) (t : Tally) (s : St P) (hinv : Inv db₀ s)
    (hc : Cursors s.db drainId cursors) :
    Follows db₀ (· = drainId) s (planStreams env db₀ sink drainId limit position cursors streams)
      (drainStreams env sink drainId limit position streams t s) := by
  induction streams generalizing position cursors t s with
  | nil => exact ⟨hinv, (append_nil _).symm, rfl, fun _ _ _ => rfl⟩
  | cons stream streams ih =>
    have hplan : attempt env s.db sink drainId limit position stream (cursors stream) =
        attempt env db₀ sink drainId limit position stream (cursors stream) :=
      attempt_congr hinv.audit hinv.event
    have hcons := drainStreams_cons env sink limit position streams t (hc stream)
    rw [planStreams]
    rw [hplan] at hcons
    obtain ⟨a, ha⟩ : ∃ a, attempt env db₀ sink drainId limit position stream (cursors stream) = a :=
      ⟨_, rfl⟩
    have hfrom : ∀ e, a = .delivers e → e.From drainId stream (cursors stream) := fun e he =>
      attempt_delivers (ha.trans he)
    rw [ha] at hcons ⊢
    rcases hcons with ⟨hbreaks, text, hr⟩ | ⟨hbreaks, t', hr⟩
    · rw [hr, hbreaks]
      exact ⟨hinv, (append_nil _).symm, rfl, fun _ _ _ => rfl⟩
    have hrest := ih (position + 1) (cursorsAfter cursors a) t'
      (stateAfter drainId stream (cursors stream) s a) (hinv.stateAfter (hc stream) hfrom)
      (hc.stateAfter hfrom)
    rw [hr]
    refine ⟨hrest.inv, ?_, ?_, fun id hne stream' => ?_⟩
    · rw [hrest.delivered, delivered_stateAfter, outcome_cons hbreaks, append_assoc]
    · rw [hrest.raised, outcome_cons hbreaks]
    · exact (hrest.others id hne stream').trans (cursor?_stateAfter hne a stream')

theorem cursor?_of_mem {d : Drain} (h : d ∈ db.drains.rows) :
    Cursors db d.drainId fun stream => (d.cursor stream).getD 0 := by
  intro stream
  unfold Db.cursor?
  rw [Serial.get?_eq_some.mpr ⟨h, rfl⟩]
  rfl

theorem drainOne_plan (env : Env P) (default : ℕ) (d : Drain) (sum : Summary) (s : St P)
    (hinv : Inv db₀ s)
    (hc : Cursors s.db d.drainId fun stream => (d.cursor stream).getD 0) :
    Follows db₀ (· = d.drainId) s (planDrain env default db₀ d)
      (drainOne env default d sum s) := by
  unfold planDrain drainOne
  rcases setup env d with (text | text) | sink
  · exact ⟨hinv.recordRun _ _, (append_nil _).symm, rfl, fun _ _ _ => rfl⟩
  · exact ⟨hinv, (append_nil _).symm, rfl, fun _ _ _ => rfl⟩
  have h := drainStreams_plan env sink (batchSizeOf default d) d.sourceStreams 0 _
    ⟨0, 0, 0, 0, none⟩ s hinv hc
  simp only
  cases hr : drainStreams env sink d.drainId (batchSizeOf default d) 0 d.sourceStreams
      ⟨0, 0, 0, 0, none⟩ s with
  | returned s' t =>
    rw [hr] at h
    rw [andThen_returned]
    -- recording the run changes neither the cursors nor what was delivered
    split
    · exact ⟨h.inv.recordRun _ _, h.delivered, h.raised, h.others⟩
    · exact ⟨h.inv, h.delivered, h.raised, h.others⟩
  | raised s' e =>
    rw [hr] at h
    exact ⟨h.inv, h.delivered, h.raised, h.others⟩

/-- **The pass carries out the plan**, by induction on the drains: a drain that has not had its turn
still has the cursors of its row. -/
theorem drainAll_plan (env : Env P) (default : ℕ) (ds : List Drain)
    (hnodup : (ds.map Drain.drainId).Nodup) (sum : Summary) (s : St P) (hinv : Inv db₀ s)
    (hc : ∀ d ∈ ds, Cursors s.db d.drainId fun stream => (d.cursor stream).getD 0) :
    Follows db₀ (· ∈ ds.map Drain.drainId) s (ds.flatMap (planDrain env default db₀))
      (drainAll env default ds sum s) := by
  induction ds generalizing sum s with
  | nil => exact ⟨hinv, (append_nil _).symm, rfl, fun _ _ _ => rfl⟩
  | cons d ds ih =>
    rw [map_cons, nodup_cons] at hnodup
    have h := drainOne_plan env default d sum s hinv (hc d mem_cons_self)
    rw [flatMap_cons, drainAll]
    cases hr : drainOne env default d sum s with
    | raised s' e =>
      rw [hr] at h
      have hbreak : (outcome (planDrain env default db₀ d)).2 = true := h.raised.symm
      rw [andThen_raised]
      refine ⟨h.inv, ?_, ?_, fun id hne stream => h.others id (fun hid => hne ?_) stream⟩
      · rw [outcome_append_of_breaks hbreak]
        exact h.delivered
      · rw [outcome_append_of_breaks hbreak]
        exact h.raised
      · exact hid ▸ mem_cons_self
    | returned s' sum' =>
      rw [hr] at h
      have hruns : (outcome (planDrain env default db₀ d)).2 = false := h.raised.symm
      have hrest := ih hnodup.2 sum' s' h.inv fun d' hd' stream => by
        have hne : d'.drainId ≠ d.drainId := fun heq =>
          hnodup.1 (heq ▸ mem_map_of_mem hd')
        exact (h.others d'.drainId hne stream).trans (hc d' (mem_cons_of_mem d hd') stream)
      rw [andThen_returned]
      refine ⟨hrest.inv, ?_, ?_, fun id hne stream => ?_⟩
      · rw [hrest.delivered, outcome_append hruns]
        exact (congrArg (· ++ _) h.delivered).trans (append_assoc _ _ _)
      · rw [hrest.raised, outcome_append hruns]
      · rw [map_cons, mem_cons, not_or] at hne
        exact (hrest.others id hne.2 stream).trans (h.others id hne.1 stream)

theorem nodup_enabledDrains (db : Db P) : ((enabledDrains db).map Drain.drainId).Nodup := by
  refine ((perm_insertionSort _ _).map Drain.drainId).nodup_iff.mpr ?_
  exact db.drains.nodup.sublist (filter_sublist.map Drain.drainId)

theorem mem_of_mem_enabledDrains {d : Drain} (h : d ∈ enabledDrains db) : d ∈ db.drains.rows :=
  (mem_filter.mp ((mem_insertionSort _).mp h)).1

/-- **A pass leaves every delivery durably past its cursor if and only if no exception leaves it
after a delivery.** -/
theorem iterateOnce_iff (env : Env P) (default : ℕ) (db : Db P) :
    (∀ e ∈ (iterateOnce env default db).delivered, Advanced (iterateOnce env default db).db e) ↔
      ¬ LateBreak (plan env default db) := by
  have h := drainAll_plan env default (enabledDrains db) (nodup_enabledDrains db) ⟨0, 0, 0⟩
    ⟨db, []⟩ (inv_start db)
    fun d hd => cursor?_of_mem (mem_of_mem_enabledDrains hd)
  rw [lateBreak_iff]
  unfold iterateOnce plan
  cases hr : drainAll env default (enabledDrains db) ⟨0, 0, 0⟩ ⟨db, []⟩ with
  | returned s sum =>
    rw [hr] at h
    have hruns : (outcome ((enabledDrains db).flatMap (planDrain env default db))).2 = false :=
      h.raised.symm
    refine iff_of_true h.inv.advanced fun hlate => ?_
    rw [hruns] at hlate
    cases hlate.1
  | raised s e =>
    rw [hr] at h
    have hdelivered : s.delivered =
        (outcome ((enabledDrains db).flatMap (planDrain env default db))).1 := h.delivered
    constructor
    · rintro hadvanced ⟨-, e', he'⟩
      rw [← hdelivered] at he'
      exact h.inv.fresh e' he' (hadvanced e' he')
    · intro hlate e' he'
      exact absurd ⟨h.raised.symm, e', hdelivered ▸ he'⟩ hlate

/-- An enabled drain of the stream `audit` to a file, with no cursor yet. -/
def auditDrain (id : ℕ) (path : String) : Drain where
  drainId := id
  kind := "file"
  destination := .ok ⟨some path, none, .ok ()⟩
  destinationSecretRef := none
  sourceStreams := ["audit"]
  enabled := true
  batchSize := 100
  retired := false
  cursor := fun _ => none

def twoDrains : Db Unit where
  drains := ⟨[auditDrain 1 "/log/a", auditDrain 2 "/full/b"], 3, by decide, by decide⟩
  runs := []
  auditEvent := [⟨7, ()⟩]
  event := []

def diskFull : Env Unit where
  isDir := fun _ => true
  secretGetInline := fun _ => .ok none
  write := fun drainId _ => if drainId = 2 then some "OSError: No space left on device" else none
  urlopen := fun _ _ => .responds 200
  fileBytes := length
  httpBytes := length

/-- **One drain's failure makes another drain's records be shipped again.** The first drain ships
event 7; the second one raises an exception that is not a `SinkError`, and the cursor of the first
one is still 0. -/
theorem iterateOnce_redelivers :
    (∃ e ∈ (iterateOnce diskFull 100 twoDrains).delivered, e.drainId = 1 ∧ e.stream = "audit" ∧
      e.rows.map Record.recordId = [7]) ∧
      (iterateOnce diskFull 100 twoDrains).db.cursor? 1 "audit" = some 0 := by
  refine ⟨⟨⟨1, "audit", [⟨7, ()⟩]⟩, ?_, rfl, rfl, rfl⟩, ?_⟩
  · have h : (iterateOnce diskFull 100 twoDrains).delivered = [⟨1, "audit", [⟨7, ()⟩]⟩] := by
      decide +kernel
    rw [h]
    exact mem_singleton_self _
  · decide +kernel

end MaluDb.Logsd
