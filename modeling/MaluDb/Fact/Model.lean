import MaluDb.Grant.Model

/-!
# Facts

The table `malu$fact`, and `register_fact`, `correct_fact`, `retract_fact` and `fact_as_of`, called
in a session.

* A timestamp is a number of microseconds. A text may be NULL; `J` is jsonb.
* `valid_time_range` is `[valid_time_start, valid_time_end)`, NULL being no bound, and an error if
  its end is before its start.
* The exclusion constraint and foreign keys lie below row level security (`conflicts`); the one on
  `(owner_schema, supersedes_fact_id)` makes a correction fail when the caller is not the owner.
* `validate` gives the errors that `validate_payload('fact', NULL, …)` finds in a statement.
-/

namespace MaluDb.Fact

open MaluDb.Lib MaluDb.Grant

/-! ## Tables -/

inductive LifecycleState where
  | active
  | consolidated
  | superseded
  | archived
  | retired
  | legalHold
  | tombstoned
  deriving DecidableEq, Repr

/-- A state as text. -/
def LifecycleState.name : LifecycleState → String
  | .active => "active"
  | .consolidated => "consolidated"
  | .superseded => "superseded"
  | .archived => "archived"
  | .retired => "retired"
  | .legalHold => "legal_hold"
  | .tombstoned => "tombstoned"

inductive Sensitivity where
  | public_
  | internal
  | restricted
  | prohibited
  deriving DecidableEq, Repr

/-- A sensitivity as text. -/
def Sensitivity.name : Sensitivity → String
  | .public_ => "public"
  | .internal => "internal"
  | .restricted => "restricted"
  | .prohibited => "prohibited"

def Sensitivity.ofName? (name : String) : Option Sensitivity :=
  [Sensitivity.public_, .internal, .restricted, .prohibited].find? (·.name == name)

inductive SupersessionKind where
  | correction
  | refinement
  | retraction
  | consolidation
  | merge
  | split
  deriving DecidableEq, Repr

/-- A kind as text. -/
def SupersessionKind.name : SupersessionKind → String
  | .correction => "correction"
  | .refinement => "refinement"
  | .retraction => "retraction"
  | .consolidation => "consolidation"
  | .merge => "merge"
  | .split => "split"

/-- The kind a text names. -/
def SupersessionKind.ofName? (name : String) : Option SupersessionKind :=
  [SupersessionKind.correction, .refinement, .retraction, .consolidation, .merge, .split].find?
    (·.name == name)

/-- What a fact says. -/
structure Statement (J : Type) where
  subject : Option String
  verb : Option String
  predicate : Option String
  objectValue : Option String
  relationship : Option String
  statementText : Option String
  statementJsonb : Option J
  verificationScope : Option String
  verificationMethod : Option String
  deriving DecidableEq, Repr

/-- A row of `malu$fact`. -/
structure FactRow (J : Type) where
  factId : Nat
  ownerSchema : String
  statement : Statement J
  supersedesFactId : Option Nat
  supersededAt : Option Int
  sensitivity : Sensitivity
  lifecycleState : LifecycleState
  validTimeStart : Option Int
  validTimeEnd : Option Int
  transactionTimeStart : Int
  transactionTimeEnd : Option Int
  deriving DecidableEq, Repr

/-- A row of `malu$supersession_edge` between facts. -/
structure SupersessionEdge where
  ownerSchema : String
  predecessorId : Nat
  successorId : Option Nat
  kind : SupersessionKind
  reason : Option String
  supersededAt : Int
  deriving DecidableEq, Repr

/-- The tables; of `malu$claim` the ids. -/
structure FactStore (J : Type) where
  facts : Serial (FactRow J) FactRow.factId
  claims : List Nat
  factClaims : List (Nat × Nat)
  edges : List SupersessionEdge

inductive FactError where
  | reasonRequired
  | unknownFact (id : Nat)
  | alreadySuperseded (function : String) (id : Nat) (at_ : Int)
  | notActive (id : Nat) (state : LifecycleState)
  | payloadInvalid (id : Nat) (errors : List String)
  | rowSecurity
  | rangeBounds
  | nullColumn (column : String)
  | checkViolation (constraint : String)
  | exclusionViolation
  | foreignKeyViolation (constraint : String)
  | uniqueViolation (constraint : String)
  deriving DecidableEq, Repr

/-- The text of an error. -/
def FactError.message : FactError → String
  | .reasonRequired => "retract_fact: reason required"
  | .unknownFact id => s!"unknown fact_id: {id}"
  | .alreadySuperseded function id at_ =>
    "fact_id=" ++ toString id ++ (if function = "correct_fact" then " is" else "") ++
      " already superseded at " ++ toString at_
  | .notActive id state => "fact_id=" ++ toString id ++ " lifecycle_state=" ++ state.name ++
      "; only active facts may be corrected"
  | .payloadInvalid id errors => "PAYLOAD_VALIDATION_FAILED: fact_id=" ++ toString id ++
      " errors=[" ++ "; ".intercalate errors ++ "]"
  | .rowSecurity => "new row violates row-level security policy for table malu$fact"
  | .rangeBounds => "range lower bound must be less than or equal to range upper bound"
  | .nullColumn column => s!"null value in column {column} violates not-null constraint"
  | .checkViolation constraint => s!"new row violates check constraint {constraint}"
  | .exclusionViolation =>
    "conflicting key value violates exclusion constraint malu$fact_active_window_excl"
  | .foreignKeyViolation constraint => s!"insert violates foreign key constraint {constraint}"
  | .uniqueViolation constraint => s!"duplicate key value violates unique constraint {constraint}"

section

variable {J : Type}

/-! ## Constraints -/

/-- `a < b` for the bounds of a range, NULL being infinite. -/
def boundLt (a b : Option Int) : Bool :=
  match a, b with
  | some a, some b => decide (a < b)
  | _, _ => true

/-- The bounds `[lower, upper)`. -/
structure TimeRange where
  lower : Option Int
  upper : Option Int
  deriving DecidableEq, Repr

/-- `isempty`. -/
def TimeRange.isEmpty (r : TimeRange) : Bool := !boundLt r.lower r.upper

/-- `&&`. -/
def TimeRange.overlaps (a b : TimeRange) : Bool :=
  !a.isEmpty && !b.isEmpty && boundLt a.lower b.upper && boundLt b.lower a.upper

/-- `valid_time_range`. -/
def FactRow.validTimeRange (f : FactRow J) : TimeRange := ⟨f.validTimeStart, f.validTimeEnd⟩

def FactRow.rangeOk (f : FactRow J) : Bool :=
  match f.validTimeStart, f.validTimeEnd with
  | some s, some e => decide (s ≤ e)
  | _, _ => true

def FactRow.isOpen (f : FactRow J) : Bool :=
  f.lifecycleState == .active && f.supersededAt.isNone

/-- The columns the exclusion constraint compares with `=`. -/
def Statement.key (s : Statement J) : String × String × String :=
  (s.subject.getD "", s.verb.getD "", s.predicate.getD "")

def FactRow.excludes (f g : FactRow J) : Bool :=
  f.isOpen && g.isOpen && f.statement.key == g.statement.key &&
    f.validTimeRange.overlaps g.validTimeRange

/-- A fact of the table that the constraint does not admit together with `f`. -/
def conflicts (facts : Serial (FactRow J) FactRow.factId) (f : FactRow J) : Bool :=
  facts.rows.any fun g => f.excludes g

/-! ## Functions -/

def FactRow.object (f : FactRow J) : Object := ⟨.fact, f.factId⟩

section

variable (ses : Session) (validate : J → List String) (σ : FactStore J) (claims : List Nat)
  (now : Int)

/-- `SELECT * FROM malu$fact WHERE fact_id = …`, in a session. -/
def FactStore.visibleFact? (ses : Session) (id : Nat) : Option (FactRow J) :=
  (σ.facts.get? id).filter fun f => ses.sees f.ownerSchema f.object

def newFact (statement : Statement J) (sensitivity : Sensitivity) (supersedes : Option Nat)
    (id : Nat) : FactRow J :=
  { factId := id, ownerSchema := ses.schema, statement, supersedesFactId := supersedes
    supersededAt := none, sensitivity, lifecycleState := .active, validTimeStart := some ses.now
    validTimeEnd := none, transactionTimeStart := ses.now, transactionTimeEnd := none }

@[simp] theorem factId_newFact (statement : Statement J) (sensitivity : Sensitivity)
    (supersedes : Option Nat) (id : Nat) :
    (newFact ses statement sensitivity supersedes id).factId = id := rfl

/-- The trigger `fact_payload_validate_tg`. -/
def checkPayload (id : Nat) (statement : Statement J) : Except FactError Unit :=
  let errors := (statement.statementJsonb.map validate).getD []
  if errors = [] then .ok () else .error (.payloadInvalid id errors)

/-- `INSERT INTO malu$fact`, after the trigger: the exclusion constraint. -/
def insertFact (facts : Serial (FactRow J) FactRow.factId) (ses : Session)
    (statement : Statement J) (sensitivity : Sensitivity) (supersedes : Option Nat) :
    Except FactError (Serial (FactRow J) FactRow.factId) :=
  if conflicts facts (newFact ses statement sensitivity supersedes facts.next) then
    .error .exclusionViolation
  else .ok (facts.insert _ (factId_newFact ses statement sensitivity supersedes))

/-- The arguments of `register_fact`. -/
structure RegisterArgs (J : Type) where
  claimIds : Option (List (Option Nat))
  statement : Statement J
  sensitivity : Option String
  deriving DecidableEq, Repr

def checkSensitivity (sensitivity : Option String) : Except FactError Sensitivity :=
  match sensitivity with
  | none => .error (.nullColumn "sensitivity")
  | some s =>
    match Sensitivity.ofName? s with
    | none => .error (.checkViolation "malu$fact_sensitivity_check")
    | some s => .ok s

/-- `INSERT INTO malu$fact_claim` for one element of the array. -/
def insertFactClaim (factId : Nat) (rows : List (Nat × Nat)) (claim : Option Nat) :
    Except FactError (List (Nat × Nat)) :=
  match claim with
  | none => .error (.nullColumn "claim_id")
  | some c =>
    if rows.contains (factId, c) then .error (.uniqueViolation "malu$fact_claim_pkey")
    else if claims.contains c then .ok (rows ++ [(factId, c)])
    else .error (.foreignKeyViolation "malu$fact_claim_claim_id_fkey")

def registerFact (ses : Session) (a : RegisterArgs J) : Except FactError (FactStore J) :=
  (checkPayload validate σ.facts.next a.statement).bind fun _ =>
  (checkSensitivity a.sensitivity).bind fun sensitivity =>
  (insertFact σ.facts ses a.statement sensitivity none).bind fun facts =>
  ((a.claimIds.getD []).foldlM (insertFactClaim σ.claims σ.facts.next) σ.factClaims).map
    fun factClaims => { σ with facts, factClaims }

def FactRow.close (state : LifecycleState) (f : FactRow J) : FactRow J :=
  { f with validTimeEnd := some now, supersededAt := some now, lifecycleState := state }

@[simp] theorem factId_close (state : LifecycleState) (f : FactRow J) :
    (f.close now state).factId = f.factId := rfl

/-- `UPDATE malu$fact SET … WHERE fact_id = …`, once the row has been found. -/
def closeFact (facts : Serial (FactRow J) FactRow.factId) (ses : Session) (old : FactRow J)
    (state : LifecycleState) : Except FactError (Serial (FactRow J) FactRow.factId) :=
  if !ses.mayWrite old.ownerSchema old.object then .error .rowSecurity
  else if !(old.close ses.now state).rangeOk then .error .rangeBounds
  else .ok (facts.update (·.factId == old.factId) (FactRow.close ses.now state)
    (factId_close ses.now state))

/-- The arguments of `correct_fact`. -/
structure CorrectArgs (J : Type) where
  factId : Nat
  newObjectValue : Option String
  newStatement : Option String
  newStatementJsonb : Option J
  reason : Option String
  supersessionKind : Option String
  deriving DecidableEq, Repr

def CorrectArgs.corrected (a : CorrectArgs J) (old : Statement J) : Statement J :=
  { old with
    objectValue := a.newObjectValue.or old.objectValue
    statementText := a.newStatement.or old.statementText
    statementJsonb := a.newStatementJsonb.or old.statementJsonb }

def checkKind (kind : Option String) : Except FactError SupersessionKind :=
  match kind with
  | none => .error (.nullColumn "supersession_kind")
  | some k =>
    match SupersessionKind.ofName? k with
    | none => .error (.checkViolation "malu$supersession_edge_supersession_kind_check")
    | some k => .ok k

/-- The composite foreign key of `supersedes_fact_id`. -/
def checkSupersedes (facts : Serial (FactRow J) FactRow.factId) (ses : Session) (id : Nat) :
    Except FactError Unit :=
  if facts.rows.any fun f => f.factId == id && f.ownerSchema == ses.schema then .ok ()
  else .error (.foreignKeyViolation "malu$fact_owner_supersedes_fact_fk")

def correctFact (ses : Session) (a : CorrectArgs J) : Except FactError (FactStore J) :=
  match σ.visibleFact? ses a.factId with
  | none => .error (.unknownFact a.factId)
  | some old =>
    match old.supersededAt with
    | some at_ => .error (.alreadySuperseded "correct_fact" a.factId at_)
    | none =>
      if old.lifecycleState ≠ .active then .error (.notActive a.factId old.lifecycleState)
      else
        (closeFact σ.facts ses old .superseded).bind fun closed =>
        (checkPayload validate closed.next (a.corrected old.statement)).bind fun _ =>
        (insertFact closed ses (a.corrected old.statement) old.sensitivity
          (some a.factId)).bind fun facts =>
        (checkSupersedes facts ses a.factId).bind fun _ =>
        (checkKind a.supersessionKind).map fun kind =>
          { σ with
            facts
            edges := σ.edges ++
              [⟨ses.schema, a.factId, some closed.next, kind, a.reason, ses.now⟩] }

def retractFact (ses : Session) (id : Nat) (reason : Option String) :
    Except FactError (FactStore J) :=
  if reason.getD "" = "" then .error .reasonRequired
  else
    match σ.visibleFact? ses id with
    | none => .error (.unknownFact id)
    | some old =>
      match old.supersededAt with
      | some at_ => .error (.alreadySuperseded "retract_fact" id at_)
      | none =>
        (closeFact σ.facts ses old .retired).map fun facts =>
          { σ with
            facts
            edges := σ.edges ++ [⟨ses.schema, id, none, .retraction, reason, ses.now⟩] }

/-- `is_valid_at`. -/
def isValidAt (start end_ : Option Int) (at_ : Int) : Bool :=
  (start.all fun s => decide (s ≤ at_)) && end_.all fun e => decide (at_ < e)

/-- `fact_as_of`, in a session. -/
def factAsOf (ses : Session) (at_ : Int) : List (FactRow J) :=
  σ.facts.rows.filter fun f => ses.sees f.ownerSchema f.object &&
    isValidAt f.validTimeStart f.validTimeEnd at_ && decide (f.transactionTimeStart ≤ at_) &&
    (f.transactionTimeEnd.all fun e => decide (at_ < e)) && f.lifecycleState == .active

/-! ## Calls -/

inductive FactOp (J : Type) where
  | register (args : RegisterArgs J)
  | correct (args : CorrectArgs J)
  | retract (id : Nat) (reason : Option String)
  deriving DecidableEq, Repr

def factCall (ses : Session) :
    FactOp J → Except FactError (FactStore J)
  | .register a => registerFact validate σ ses a
  | .correct a => correctFact validate σ ses a
  | .retract id reason => retractFact σ ses id reason

def factStep (c : Session × FactOp J) : FactStore J :=
  commitOr σ (factCall validate σ c.1 c.2)

def noFacts : FactStore J := ⟨Serial.empty, claims, [], []⟩

end

end

end MaluDb.Fact
