import MaluDb.Event.Model

/-!
# What subscribers are handed

A cursor is one number: acknowledging an event also gives up every event with a smaller id, which
may commit later.

* `AtLeastOnce`: a committed event between a subscription's start and its cursor that the
  subscription accepts was handed to it.
-/

namespace MaluDb.Event

open MaluDb.Lib List Function Serial

variable {Body : Type} {s : System Body}

/-- Delivery at least once. -/
def AtLeastOnce (s : System Body) : Prop :=
  ∀ sub ∈ s.store.subscriptions.rows, ∀ e ∈ s.store.events.rows, e.writer = none →
    sub.accepts e = true → s.start sub.subscriptionId < e.eventId →
      (e.eventId : Int) ≤ sub.cursor → e.eventId ∈ s.received sub.subscriptionId

/-- A transaction commits no event behind one that was handed out. -/
def InOrder (s : System Body) : Op Body → Prop
  | .commit txn => ∀ e ∈ s.store.events.rows, e.writer = some txn →
    ∀ sub ∈ s.store.subscriptions.rows, sub.accepts e = true →
      ∀ id ∈ s.received sub.subscriptionId, id < e.eventId
  | _ => True

instance decidableInOrder (s : System Body) : (op : Op Body) → Decidable (InOrder s op)
  | .commit txn => inferInstanceAs (Decidable (∀ e ∈ s.store.events.rows, e.writer = some txn →
    ∀ sub ∈ s.store.subscriptions.rows, sub.accepts e = true →
      ∀ id ∈ s.received sub.subscriptionId, id < e.eventId))
  | .emit _ _ => isTrue trivial
  | .rollback _ => isTrue trivial
  | .subscribe _ _ _ _ _ _ => isTrue trivial
  | .fetch _ _ => isTrue trivial
  | .ack _ _ => isTrue trivial

/-! ## Invariant -/

/-- The committed events that a subscription should be handed, from its start on. -/
structure Wanted (s : System Body) (sub : Subscription) (e : EventRow Body) : Prop where
  mem : e ∈ s.store.events.rows
  committed : e.writer = none
  accepted : sub.accepts e = true
  started : s.start sub.subscriptionId < e.eventId

/-- What was handed out has no gaps, and a cursor that has moved stands on it. -/
structure Inv (s : System Body) : Prop where
  noGap : ∀ sub ∈ s.store.subscriptions.rows, ∀ id ∈ s.received sub.subscriptionId,
    ∀ e, Wanted s sub e → e.eventId ≤ id → e.eventId ∈ s.received sub.subscriptionId
  cursor : ∀ sub ∈ s.store.subscriptions.rows, sub.cursor ≤ s.start sub.subscriptionId ∨
    ∃ id ∈ s.received sub.subscriptionId, sub.cursor ≤ id

theorem inv_empty : Inv (System.empty : System Body) :=
  ⟨forall_mem_nil _, forall_mem_nil _⟩

theorem Inv.received_of_le_cursor (h : Inv s) {sub : Subscription}
    (hsub : sub ∈ s.store.subscriptions.rows) {e : EventRow Body} (he : Wanted s sub e)
    (hle : (e.eventId : Int) ≤ sub.cursor) : e.eventId ∈ s.received sub.subscriptionId := by
  rcases h.cursor sub hsub with hstart | ⟨id, hid, hcur⟩
  · have := he.started
    omega
  · exact h.noGap sub hsub id hid e he (by omega)

theorem Inv.atLeastOnce (h : Inv s) : AtLeastOnce s :=
  fun _ hsub _ he hcommitted haccepted hstarted hle =>
    h.received_of_le_cursor hsub ⟨he, hcommitted, haccepted, hstarted⟩ hle

/-! ## Steps -/

theorem Inv.events (h : Inv s) {events : Serial (EventRow Body) EventRow.eventId}
    (hevents : ∀ sub ∈ s.store.subscriptions.rows, ∀ e ∈ events.rows, e.writer = none →
      sub.accepts e = true →
        e ∈ s.store.events.rows ∨ ∀ id ∈ s.received sub.subscriptionId, id < e.eventId) :
    Inv { s with store := { s.store with events := events } } where
  noGap sub hsub id hid e he hle := by
    rcases hevents sub hsub e he.mem he.committed he.accepted with hold | hahead
    · exact h.noGap sub hsub id hid e ⟨hold, he.committed, he.accepted, he.started⟩ hle
    · have := hahead id hid
      omega
  cursor := h.cursor

theorem inv_emit (h : Inv s) (txn : ℕ) (args : EventArgs Body) : Inv (s.step (.emit txn args)) := by
  refine h.events fun sub hsub e he hcommitted haccepted => ?_
  rcases mem_insert.mp he with hold | rfl
  · exact .inl hold
  · cases hcommitted

theorem inv_commit (h : Inv s) {txn : ℕ} (horder : InOrder s (.commit txn)) :
    Inv (s.step (.commit txn)) := by
  refine h.events fun sub hsub e he hcommitted haccepted => ?_
  obtain ⟨e₀, he₀, rfl⟩ := mem_update.mp he
  split at haccepted
  · rename_i hwriter
    rw [if_pos hwriter]
    exact .inr (horder e₀ he₀ (by simpa using hwriter) sub hsub haccepted)
  · rename_i hwriter
    rw [if_neg hwriter]
    exact .inl he₀

theorem inv_rollback (h : Inv s) (txn : ℕ) : Inv (s.step (.rollback txn)) :=
  h.events fun _ _ _ he _ _ => .inl (mem_delete.mp he).1

theorem inv_subscribe (h : Inv s) (name : Option String) (accountId : Option ℕ)
    (kinds partitions : List String) (activePoolId : Option Int) (startCursor : Int) :
    Inv (s.step (.subscribe name accountId kinds partitions activePoolId startCursor)) := by
  have hold : ∀ sub ∈ s.store.subscriptions.rows,
      sub.subscriptionId ≠ s.store.subscriptions.next := fun sub hsub =>
    Nat.ne_of_lt (s.store.subscriptions.below sub hsub)
  constructor
  · intro sub hsub id hid e he hle
    rcases mem_insert.mp hsub with hsub | rfl
    · have hne := hold sub hsub
      simp only [System.step, eventSubscribe, update_of_ne hne] at hid ⊢
      refine h.noGap sub hsub id hid e ⟨he.mem, he.committed, he.accepted, ?_⟩ hle
      have hstarted := he.started
      simpa only [System.step, eventSubscribe, update_of_ne hne] using hstarted
    · simp [System.step, eventSubscribe] at hid
  · intro sub hsub
    rcases mem_insert.mp hsub with hsub | rfl
    · have hne := hold sub hsub
      simp only [System.step, eventSubscribe, update_of_ne hne]
      exact h.cursor sub hsub
    · exact .inl (by simp [System.step, eventSubscribe])

theorem mem_batch {sub : Subscription} {e : EventRow Body} (he : Wanted s sub e) {n : ℕ}
    {a : EventRow Body} (ha : a ∈ (pendingEvents s.store sub).take n)
    (hcursor : sub.cursor < e.eventId) (hle : e.eventId ≤ a.eventId) :
    e ∈ (pendingEvents s.store sub).take n := by
  have htotal : Std.Total fun a b : EventRow Body => a.eventId ≤ b.eventId :=
    ⟨fun a b => Nat.le_total a.eventId b.eventId⟩
  have htrans : IsTrans (EventRow Body) fun a b => a.eventId ≤ b.eventId :=
    ⟨fun _ _ _ => Nat.le_trans⟩
  refine mem_take_of_key_le (pairwise_insertionSort _ _) ?_ ha ?_ hle
  · refine ((perm_insertionSort _ _).map EventRow.eventId).nodup_iff.mpr ?_
    exact s.store.events.nodup.sublist (filter_sublist.map EventRow.eventId)
  · refine (mem_insertionSort _).mpr (mem_filter.mpr ⟨he.mem, ?_⟩)
    simp [he.committed, he.accepted, hcursor]

theorem step_fetch (s : System Body) (subscriptionId : ℕ) (limit : Int) :
    s.step (.fetch subscriptionId limit) = s ∨
      ∃ sub ∈ s.store.subscriptions.rows, sub.subscriptionId = subscriptionId ∧
        ∃ n, s.step (.fetch subscriptionId limit) =
          { s with received := update s.received subscriptionId
                    (s.received subscriptionId ++
                      ((pendingEvents s.store sub).take n).map EventRow.eventId) } := by
  simp only [System.step, eventFetchBatch]
  cases hget : s.store.subscriptions.get? subscriptionId with
  | none => exact .inl rfl
  | some sub =>
    obtain ⟨hsub, hid⟩ := get?_eq_some.mp hget
    exact .inr ⟨sub, hsub, hid, _, rfl⟩

theorem inv_fetch (h : Inv s) (subscriptionId : ℕ) (limit : Int) :
    Inv (s.step (.fetch subscriptionId limit)) := by
  rcases step_fetch s subscriptionId limit with hstep | ⟨sub, hsub, rfl, n, hstep⟩
  · rw [hstep]
    exact h
  rw [hstep]
  have hother : ∀ sub' ∈ s.store.subscriptions.rows, sub' ≠ sub →
      sub'.subscriptionId ≠ sub.subscriptionId := fun sub' hsub' hne hid =>
    hne (eq_of_key hsub' hsub hid)
  refine ⟨fun sub' hsub' id hid e he hle => ?_, fun sub' hsub' => ?_⟩
  · have hwanted : Wanted s sub' e := ⟨he.mem, he.committed, he.accepted, he.started⟩
    by_cases hsame : sub' = sub
    · subst hsame
      simp only [update_self, mem_append, mem_map] at hid ⊢
      rcases hid with hid | ⟨a, ha, rfl⟩
      · exact .inl (h.noGap sub' hsub' id hid e hwanted hle)
      · by_cases hcursor : sub'.cursor < e.eventId
        · exact .inr ⟨e, mem_batch hwanted ha hcursor hle, rfl⟩
        · exact .inl (h.received_of_le_cursor hsub' hwanted (by omega))
    · simp only [update_of_ne (hother sub' hsub' hsame)] at hid ⊢
      exact h.noGap sub' hsub' id hid e hwanted hle
  · by_cases hsame : sub' = sub
    · subst hsame
      simp only [update_self]
      refine (h.cursor sub' hsub').imp_right fun ⟨id, hid, hle⟩ => ?_
      exact ⟨id, mem_append_left _ hid, hle⟩
    · simp only [update_of_ne (hother sub' hsub' hsame)]
      exact h.cursor sub' hsub'

theorem step_ack (s : System Body) (subscriptionId through : ℕ) :
    s.step (.ack subscriptionId through) = s ∨
      through ∈ s.received subscriptionId ∧ ∃ deliveries, s.step (.ack subscriptionId through) =
        ⟨⟨s.store.events, setCursor s.store.subscriptions subscriptionId through, deliveries⟩,
          s.start, s.received⟩ := by
  simp only [System.step, eventAck]
  by_cases hreceived : through ∈ s.received subscriptionId
  · rw [if_pos hreceived]
    cases s.store.subscriptions.get? subscriptionId with
    | none => exact .inl rfl
    | some sub =>
      by_cases hle : (through : Int) ≤ sub.cursor
      · simp only [if_pos hle]
        exact .inl trivial
      · simp only [if_neg hle]
        exact .inr ⟨hreceived, _, rfl⟩
  · exact .inl (if_neg hreceived)

theorem mem_setCursor {subs : Serial Subscription Subscription.subscriptionId}
    {subscriptionId : ℕ} {through : Int} {sub' : Subscription}
    (h : sub' ∈ (setCursor subs subscriptionId through).rows) :
    ∃ sub ∈ subs.rows, sub' = { sub with cursor := sub'.cursor } ∧
      (sub' = sub ∨ sub'.subscriptionId = subscriptionId ∧ sub'.cursor = through) := by
  obtain ⟨sub, hsub, rfl⟩ := mem_update.mp h
  refine ⟨sub, hsub, ?_⟩
  split
  · rename_i hmine
    exact ⟨rfl, .inr ⟨by simpa using hmine, rfl⟩⟩
  · exact ⟨rfl, .inl rfl⟩

theorem inv_ack (h : Inv s) (subscriptionId through : ℕ) :
    Inv (s.step (.ack subscriptionId through)) := by
  rcases step_ack s subscriptionId through with hstep | ⟨hreceived, deliveries, hstep⟩
  · rw [hstep]
    exact h
  rw [hstep]
  refine ⟨fun sub' hsub' id hid e he hle => ?_, fun sub' hsub' => ?_⟩
  · obtain ⟨sub, hsub, hrow, -⟩ := mem_setCursor hsub'
    rw [hrow] at he hid ⊢
    exact h.noGap sub hsub id hid e ⟨he.mem, he.committed, he.accepted, he.started⟩ hle
  · obtain ⟨sub, hsub, -, rfl | ⟨hid, hcursor⟩⟩ := mem_setCursor hsub'
    · exact h.cursor sub' hsub
    · exact .inr ⟨through, hid ▸ hreceived, Int.le_of_eq hcursor⟩

/-- **Every step in order keeps the invariant.** -/
theorem inv_step (s : System Body) (op : Op Body) (h : Inv s) (horder : InOrder s op) :
    Inv (s.step op) := by
  cases op with
  | emit txn args => exact inv_emit h txn args
  | commit txn => exact inv_commit h horder
  | rollback txn => exact inv_rollback h txn
  | subscribe name accountId kinds partitions activePoolId startCursor =>
    exact inv_subscribe h name accountId kinds partitions activePoolId startCursor
  | fetch subscriptionId limit => exact inv_fetch h subscriptionId limit
  | ack subscriptionId through => exact inv_ack h subscriptionId through

/-- **Delivery is at least once in every run whose commits are in order.** -/
theorem event_at_least_once (ops : List (Op Body))
    (horder : Along System.step InOrder System.empty ops) :
    AtLeastOnce (run System.step System.empty ops) :=
  (run_induct inv_step System.empty ops inv_empty horder).atLeastOnce

/-- An event of a kind. -/
def ofKind (kind : String) : EventArgs Unit := ⟨kind, none, none, none, ()⟩

def orderedRun : List (Op Unit) :=
  [.subscribe none none ["a"] [] none 0, .emit 1 (ofKind "a"), .emit 2 (ofKind "a"), .commit 1,
    .fetch 1 100, .ack 1 1, .commit 2, .fetch 1 100, .ack 1 2]

theorem event_at_least_once_orderedRun :
    Along System.step InOrder System.empty orderedRun ∧
      AtLeastOnce (run System.step System.empty orderedRun) ∧
      (run System.step System.empty orderedRun).received 1 = [1, 2] :=
  ⟨by decide, event_at_least_once orderedRun (by decide), by decide⟩

def lateRun : List (Op Unit) :=
  [.subscribe none none ["a"] [] none 0, .emit 1 (ofKind "a"), .emit 2 (ofKind "a"), .commit 2,
    .fetch 1 100, .ack 1 2, .commit 1, .fetch 1 100]

/-- **An event that commits late is skipped.** Its id is below the cursor, it is accepted, and it
was never handed out. -/
theorem event_skipped :
    let s := run System.step System.empty lateRun
    ∃ sub ∈ s.store.subscriptions.rows, ∃ e ∈ s.store.events.rows, e.writer = none ∧
      sub.accepts e = true ∧ s.start sub.subscriptionId < e.eventId ∧
      (e.eventId : Int) ≤ sub.cursor ∧ e.eventId ∉ s.received sub.subscriptionId := by
  decide

end MaluDb.Event
