import Mathlib.Data.List.Sort
import MaluDb.Lib.Run
import MaluDb.Lib.Serial

/-!
# The event stream

`emit_event`, `event_subscribe`, `event_fetch_batch` and `event_ack` over their three tables.

* An event gets its id when it is inserted and is seen by others when its transaction (`writer`)
  commits.
* `event_fetch_batch` and `event_ack` see what is committed when they start. The row lock of
  `event_ack` orders the acknowledgements of a subscription.
* `System` adds what the subscribers were handed and where they started. A subscriber acknowledges
  ids that it was handed.
-/

namespace MaluDb.Event

open MaluDb.Lib

/-! ## Tables -/

/-- A row of `malu$event`. -/
structure EventRow (Body : Type) where
  eventId : ℕ
  eventKind : String
  accountId : Option ℕ
  partition : Option String
  activePoolId : Option Int
  body : Body
  writer : Option ℕ

structure Subscription where
  subscriptionId : ℕ
  name : Option String
  accountId : Option ℕ
  kinds : List String
  partitions : List String
  activePoolId : Option Int
  cursor : Int

structure DeliveryRow where
  subscriptionId : ℕ
  eventId : ℕ
  status : String
  deriving DecidableEq

/-- The tables. -/
structure Store (Body : Type) where
  events : Serial (EventRow Body) EventRow.eventId
  subscriptions : Serial Subscription Subscription.subscriptionId
  deliveries : List DeliveryRow

structure EventError where
  function : String
  subscriptionId : Int

def EventError.message (e : EventError) : String :=
  s!"{e.function}: subscription {e.subscriptionId} not found"

section

variable {Body : Type}

structure EventArgs (Body : Type) where
  eventKind : String
  accountId : Option ℕ
  partition : Option String
  activePoolId : Option Int
  body : Body

section

variable (s : Store Body) (subscriptionId : ℕ) (through : Int) (txn : ℕ)

/-- `emit_event` in transaction `txn`. -/
def emitEvent (a : EventArgs Body) : Store Body × ℕ :=
  let events := s.events.insert
    (fun id => ⟨id, a.eventKind, a.accountId, a.partition, a.activePoolId, a.body, some txn⟩)
    fun _ => rfl
  ({ s with events := events }, s.events.next)

def commitTxn : Store Body :=
  let events := s.events.update (·.writer == some txn)
    (fun e => { e with writer := none }) fun _ => rfl
  { s with events := events }

def rollbackTxn : Store Body :=
  { s with events := s.events.delete fun e => e.writer == some txn }

def eventSubscribe (name : Option String) (accountId : Option ℕ) (kinds partitions : List String)
    (activePoolId : Option Int) (startCursor : Int) : Store Body × ℕ :=
  let subscriptions := s.subscriptions.insert
    (fun id => ⟨id, name, accountId, kinds, partitions, activePoolId, startCursor⟩) fun _ => rfl
  ({ s with subscriptions := subscriptions }, s.subscriptions.next)

def Subscription.accepts (sub : Subscription) (e : EventRow Body) : Bool :=
  (sub.kinds.isEmpty || sub.kinds.contains e.eventKind) &&
    (sub.partitions.isEmpty || e.partition.any sub.partitions.contains) &&
    (sub.activePoolId.isNone || e.activePoolId == sub.activePoolId) &&
    (sub.accountId.isNone || e.accountId == sub.accountId || e.accountId.isNone)

def pendingEvents (sub : Subscription) : List (EventRow Body) :=
  (s.events.rows.filter fun e =>
    e.writer.isNone && decide (sub.cursor < e.eventId) && sub.accepts e).insertionSort
      fun a b => a.eventId ≤ b.eventId

def eventFetchBatch (limit : Int) : Except EventError (List (EventRow Body)) :=
  match s.subscriptions.get? subscriptionId with
  | none => .error ⟨"event_fetch_batch", subscriptionId⟩
  | some sub => .ok ((pendingEvents s sub).take (max limit 1).toNat)

/-- The delivery rows with one more acknowledged event, or with the row it has set to `acked`. -/
def recordDelivery (rows : List DeliveryRow) (eventId : ℕ) : List DeliveryRow :=
  let mine := fun r : DeliveryRow => r.subscriptionId == subscriptionId && r.eventId == eventId
  if rows.any mine then updateWhere mine (fun r => { r with status := "acked" }) rows
  else rows ++ [⟨subscriptionId, eventId, "acked"⟩]

/-- `UPDATE … SET cursor = p_through_event_id` of a subscription. -/
def setCursor (subs : Serial Subscription Subscription.subscriptionId) (subscriptionId : ℕ)
    (through : Int) : Serial Subscription Subscription.subscriptionId :=
  subs.update (·.subscriptionId == subscriptionId)
    (fun r => { r with cursor := through }) fun _ => rfl

/-- `event_ack`. The delivery rows are for all events up to the new cursor, whatever the filter. -/
def eventAck : Except EventError (Store Body × ℕ) :=
  match s.subscriptions.get? subscriptionId with
  | none => .error ⟨"event_ack", subscriptionId⟩
  | some sub =>
    if through ≤ sub.cursor then .ok (s, 0)
    else
      let passed := s.events.rows.filter fun e =>
        e.writer.isNone && decide (sub.cursor < e.eventId) && decide ((e.eventId : Int) ≤ through)
      let deliveries :=
        (passed.map EventRow.eventId).foldl (recordDelivery subscriptionId) s.deliveries
      .ok (⟨s.events, setCursor s.subscriptions subscriptionId through, deliveries⟩, passed.length)

end

end

/-! ## Runs -/

structure System (Body : Type) where
  store : Store Body
  start : ℕ → Int
  received : ℕ → List ℕ

inductive Op (Body : Type) where
  | emit (txn : ℕ) (args : EventArgs Body)
  | commit (txn : ℕ)
  | rollback (txn : ℕ)
  | subscribe (name : Option String) (accountId : Option ℕ) (kinds partitions : List String)
    (activePoolId : Option Int) (startCursor : Int)
  | fetch (subscriptionId : ℕ) (limit : Int)
  | ack (subscriptionId : ℕ) (through : ℕ)

variable {Body : Type}

def System.empty : System Body := ⟨⟨Serial.empty, Serial.empty, []⟩, fun _ => 0, fun _ => []⟩

/-- One step. -/
def System.step (s : System Body) : Op Body → System Body
  | .emit txn args => { s with store := (emitEvent s.store txn args).1 }
  | .commit txn => { s with store := commitTxn s.store txn }
  | .rollback txn => { s with store := rollbackTxn s.store txn }
  | .subscribe name accountId kinds partitions activePoolId startCursor =>
    let (store, id) :=
      eventSubscribe s.store name accountId kinds partitions activePoolId startCursor
    ⟨store, Function.update s.start id startCursor, Function.update s.received id []⟩
  | .fetch subscriptionId limit =>
    match eventFetchBatch s.store subscriptionId limit with
    | .error _ => s
    | .ok batch =>
      let received := s.received subscriptionId ++ batch.map EventRow.eventId
      { s with received := Function.update s.received subscriptionId received }
  | .ack subscriptionId through =>
    if through ∈ s.received subscriptionId then
      match eventAck s.store subscriptionId through with
      | .error _ => s
      | .ok (store, _) => { s with store := store }
    else s

end MaluDb.Event
