import MaluDb.Access.Model
import MaluDb.Lib.Except
import MaluDb.Lib.Run

/-!
# Reviewing skills

The review columns of `malu$skill_package`, the trigger `_skill_review_guard_tg`, the two ways a
skill is inserted (a plain `INSERT` and `register_skill`) and `_skill_review_for_schema`.

A principal does not review its own proposals: the function and the trigger compare the reviewer
with `proposed_by_principal`. But reviewing a skill as `proposed` writes the reviewer into it.

* An insertion gives values for all review columns; their defaults are in `newSkill`.
* Row level security and the columns that are not about reviewing are not modelled.
-/

namespace MaluDb.Skill

open MaluDb.Lib MaluDb.Access List

/-! ## The table -/

/-- `review_state`. -/
inductive ReviewState where
  | proposed
  | approved
  | rejected
  deriving DecidableEq, Repr

/-- A state as text. -/
def ReviewState.name : ReviewState → String
  | .proposed => "proposed"
  | .approved => "approved"
  | .rejected => "rejected"

/-- The state a text names. -/
def ReviewState.ofName? (name : String) : Option ReviewState :=
  [ReviewState.approved, .rejected, .proposed].find? (·.name == name)

structure SkillPackage where
  skillId : Nat
  ownerSchema : String
  skillName : String
  version : String
  enabled : Bool
  reviewState : ReviewState
  proposedByPrincipal : Option String
  reviewedBy : Option String
  reviewedAt : Option Int
  reviewNote : Option String
  deriving DecidableEq, Repr

/-- `malu$skill_package`. -/
abbrev Skills := Serial SkillPackage SkillPackage.skillId

inductive SkillError where
  | access (e : PrincipalError)
  | badDecision
  | noSkill (skillId : Nat) (schema : String)
  | cannotReview (reviewer skillName : String)
  | guarded (ref skillName : String)
  | uniqueViolation
  deriving DecidableEq, Repr

/-- The text of an error. -/
def SkillError.message : SkillError → String
  | .access e => e.message
  | .badDecision => "skill_review: decision must be approved, rejected or proposed"
  | .noSkill skillId schema => "skill_review: no skill " ++ toString skillId ++ " in " ++ schema
  | .cannotReview reviewer skillName =>
    "skill_review: " ++ reviewer ++ " proposed skill " ++ skillName ++ " and cannot review it"
  | .guarded ref skillName =>
    "principal " ++ ref ++ " proposed skill " ++ skillName ++ " and cannot review it"
  | .uniqueViolation => "duplicate key value violates unique constraint"

/-! ## Writing -/

/-- `_skill_review_guard_tg` on an insertion. -/
def guardInsert (ses : Session) (new : SkillPackage) : SkillPackage :=
  match ses.currentPrincipalRef with
  | none => new
  | some ref =>
    { new with
      proposedByPrincipal := some ref
      reviewState := .proposed
      reviewedBy := none
      reviewedAt := none }

/-- `_skill_review_guard_tg` on an update. -/
def guardUpdate (ses : Session) (old new : SkillPackage) : Except SkillError Unit :=
  match ses.currentPrincipalRef with
  | none => .ok ()
  | some ref =>
    if new.reviewState ≠ old.reviewState ∧ old.proposedByPrincipal = some ref then
      .error (.guarded ref old.skillName)
    else .ok ()

/-- The row with the key of `UNIQUE (owner_schema, skill_name, version)`. -/
def sameSkill (a b : SkillPackage) : Bool :=
  a.ownerSchema == b.ownerSchema && a.skillName == b.skillName && a.version == b.version

theorem guardInsert_skillId (ses : Session) (new : SkillPackage) :
    (guardInsert ses new).skillId = new.skillId := by
  unfold guardInsert
  split <;> rfl

/-- `INSERT INTO malu$skill_package`: the table and the new id. -/
def insertSkill (ses : Session) (new : SkillPackage) (t : Skills) :
    Except SkillError (Skills × Nat) :=
  if t.rows.any (sameSkill new) then .error .uniqueViolation
  else
    .ok (t.insert (fun id => guardInsert ses { new with skillId := id }) fun _ =>
      guardInsert_skillId ses _, t.next)

def newSkill (schema name version : String) : SkillPackage where
  skillId := 0
  ownerSchema := schema
  skillName := name
  version := version
  enabled := true
  reviewState := .approved
  proposedByPrincipal := none
  reviewedBy := none
  reviewedAt := none
  reviewNote := none

/-- `register_skill`. -/
def registerSkill (ses : Session) (schema name version : String) (t : Skills) :
    Except SkillError (Skills × Nat) :=
  match t.rows.find? (sameSkill (newSkill schema name version)) with
  | none => insertSkill ses (newSkill schema name version) t
  | some old => (guardUpdate ses old old).map fun _ => (t, old.skillId)

/-- `v_reviewer`: the session's principal, or else the name given. -/
def reviewerOf (ses : Session) (reviewer : Option String) : Option String :=
  ses.currentPrincipalRef <|> nonBlank reviewer

/-- The row after a review. -/
def reviewed (decision : ReviewState) (reviewer note : Option String) (now : Int)
    (s : SkillPackage) : SkillPackage :=
  { s with
    reviewState := decision
    proposedByPrincipal :=
      if decision = .proposed then reviewer <|> s.proposedByPrincipal else s.proposedByPrincipal
    reviewedBy := if decision = .proposed then none else reviewer
    reviewedAt := if decision = .proposed then none else some now
    reviewNote := note }

/-- The arguments of `_skill_review_for_schema`. -/
structure ReviewCall where
  ses : Session
  schema : Option String
  skillId : Nat
  decision : Option String
  reviewer : Option String
  note : Option String
  now : Int

/-- `v_decision`. -/
def ReviewCall.decision? (c : ReviewCall) : Option ReviewState :=
  ReviewState.ofName? (lower (btrim (c.decision.getD "")))

/-- The reviewer of a call. -/
def ReviewCall.madeAs (c : ReviewCall) : Option String := reviewerOf c.ses c.reviewer

/-- The row a call is about. -/
def ReviewCall.row? (c : ReviewCall) (t : Skills) : Option SkillPackage :=
  t.rows.find? fun s => s.ownerSchema == c.schema.getD "" && s.skillId == c.skillId

/-- `_skill_review_for_schema`: the table and the row, of which it returns the columns. -/
def skillReviewForSchema (c : ReviewCall) (t : Skills) :
    Except SkillError (Skills × SkillPackage) :=
  match memorySchemaAssertManageable c.ses c.schema with
  | .error e => .error (.access e)
  | .ok _ =>
    match c.decision? with
    | none => .error .badDecision
    | some decision =>
      match c.row? t with
      | none => .error (.noSkill c.skillId (c.schema.getD ""))
      | some row =>
        if decision ≠ .proposed ∧ c.madeAs.isSome ∧ row.proposedByPrincipal = c.madeAs then
          .error (.cannotReview (c.madeAs.getD "") row.skillName)
        else
          let new := reviewed decision c.madeAs c.note c.now row
          (guardUpdate c.ses row new).map fun _ =>
            (t.update (fun s => s.ownerSchema == c.schema.getD "" && s.skillId == c.skillId)
              (reviewed decision c.madeAs c.note c.now) fun _ => rfl, new)

/-! ## Runs -/

/-- The operations of a run. -/
inductive SkillOp where
  | insert (ses : Session) (new : SkillPackage)
  | register (ses : Session) (schema name version : String)
  | review (call : ReviewCall)

def skillStep (t : Skills) : SkillOp → Skills
  | .insert ses new => commitOr t ((insertSkill ses new t).map Prod.fst)
  | .register ses schema name version =>
    commitOr t ((registerSkill ses schema name version t).map Prod.fst)
  | .review call => commitOr t ((skillReviewForSchema call t).map Prod.fst)

/-- What an operation did. -/
inductive Effect (t : Skills) : SkillOp → Skills → Prop
  | unchanged {op : SkillOp} : Effect t op t
  | inserted {op : SkillOp} {t' : Skills} {row : SkillPackage} (hrow : row.skillId = t.next)
      (h : t'.rows = t.rows ++ [row]) : Effect t op t'
  | reviewed {call : ReviewCall} {t' : Skills} {row : SkillPackage}
      (h : skillReviewForSchema call t = .ok (t', row)) : Effect t (.review call) t'

variable {t t' : Skills} {id : Nat} {c : ReviewCall} {ref : String}

theorem insertSkill_effect {op : SkillOp} {ses : Session} {new : SkillPackage}
    (h : insertSkill ses new t = .ok (t', id)) : Effect t op t' := by
  unfold insertSkill at h
  split at h
  · cases h
  · cases h
    exact .inserted (guardInsert_skillId ses _) rfl

theorem skillStep_effect (t : Skills) (op : SkillOp) : Effect t op (skillStep t op) := by
  cases op with
  | insert ses new =>
    simp only [skillStep]
    cases h : insertSkill ses new t with
    | error e => exact .unchanged
    | ok r => exact insertSkill_effect h
  | register ses schema name version =>
    simp only [skillStep]
    cases h : registerSkill ses schema name version t with
    | error e => exact .unchanged
    | ok r =>
      unfold registerSkill at h
      split at h
      · exact insertSkill_effect h
      · obtain ⟨-, -, rfl⟩ := map_eq_ok.mp h
        exact .unchanged
  | review call =>
    simp only [skillStep]
    cases h : skillReviewForSchema call t with
    | error e => exact .unchanged
    | ok r => exact .reviewed h

theorem skillReviewForSchema_spec {row' : SkillPackage}
    (h : skillReviewForSchema c t = .ok (t', row')) :
    ∃ decision row, c.decision? = some decision ∧ c.row? t = some row ∧
      row' = reviewed decision c.madeAs c.note c.now row ∧
      (decision ≠ .proposed → c.madeAs.isSome → row.proposedByPrincipal ≠ c.madeAs) ∧
      t'.rows = updateWhere
        (fun s => s.ownerSchema == c.schema.getD "" && s.skillId == c.skillId)
        (reviewed decision c.madeAs c.note c.now) t.rows := by
  unfold skillReviewForSchema at h
  split at h
  · cases h
  split at h
  · cases h
  rename_i decision hdecision
  split at h
  · cases h
  rename_i row hrow
  split at h
  · cases h
  rename_i hself
  obtain ⟨-, -, heq⟩ := map_eq_ok.mp h
  cases heq
  exact ⟨decision, row, hdecision, hrow, rfl, fun hd hr hp => hself ⟨hd, hr, hp⟩, rfl⟩

/-! ## The proposer of a skill -/

/-- The skill is in the table and `ref` is recorded as its proposer. -/
def ProposedBy (t : Skills) (id : Nat) (ref : String) : Prop :=
  ∃ row ∈ t.rows, row.skillId = id ∧ row.proposedByPrincipal = some ref

/-- The operation does not name another proposer: a review of the skill as proposed is made as
nobody, or as its proposer if it has one. -/
def KeepsProposer (id : Nat) (t : Skills) : SkillOp → Prop
  | .review c => c.skillId = id → c.decision? = some .proposed → ∀ row, c.row? t = some row →
      c.madeAs = none ∨ row.proposedByPrincipal = none ∨ c.madeAs = row.proposedByPrincipal
  | _ => True

theorem row?_spec {row : SkillPackage} (h : c.row? t = some row) :
    row ∈ t.rows ∧ row.ownerSchema = c.schema.getD "" ∧ row.skillId = c.skillId := by
  have hp := List.find?_some h
  simp only [Bool.and_eq_true, beq_iff_eq] at hp
  exact ⟨mem_of_find?_eq_some h, hp⟩

theorem reviewed_proposer {decision : ReviewState} {reviewer note : Option String} {now : Int}
    {row : SkillPackage} (hrow : row.proposedByPrincipal = some ref)
    (h : decision = .proposed → reviewer = none ∨ reviewer = some ref) :
    (reviewed decision reviewer note now row).proposedByPrincipal = some ref := by
  unfold reviewed
  dsimp only
  split
  · rename_i hd
    rcases h hd with h | h
    · rw [h, hrow]
      rfl
    · rw [h]
      rfl
  · exact hrow

theorem skillStep_proposer (op : SkillOp) (h : ProposedBy t id ref) (hop : KeepsProposer id t op) :
    ProposedBy (skillStep t op) id ref := by
  obtain ⟨row, hmem, rfl, href⟩ := h
  have heffect := skillStep_effect t op
  generalize skillStep t op = t' at heffect
  cases heffect with
  | unchanged => exact ⟨row, hmem, rfl, href⟩
  | inserted hnew hrows =>
    exact ⟨row, by rw [hrows]; exact mem_append_left _ hmem, rfl, href⟩
  | @reviewed c _ row' hreview =>
    obtain ⟨decision, found, hdecision, hfound, -, -, hrows⟩ := skillReviewForSchema_spec hreview
    refine ⟨_, by rw [hrows]; exact mem_updateWhere.mpr ⟨row, hmem, rfl⟩, ?_⟩
    split
    · rename_i hit
      simp only [Bool.and_eq_true, beq_iff_eq] at hit
      refine ⟨rfl, reviewed_proposer href fun hd => ?_⟩
      -- the row that is updated is the one that was looked up
      obtain ⟨hmem', -, hid'⟩ := row?_spec hfound
      obtain rfl : found = row := Serial.eq_of_key hmem' hmem (hid'.trans hit.2.symm)
      rcases hop hit.2.symm (hdecision.trans (congrArg some hd)) found hfound with h | h | h
      · exact Or.inl h
      · rw [href] at h
        cases h
      · exact Or.inr (h.trans href)
    · exact ⟨rfl, href⟩

theorem insertSkill_proposer {ses : Session} {new : SkillPackage}
    (href : ses.currentPrincipalRef = some ref) (h : insertSkill ses new t = .ok (t', id)) :
    ProposedBy t' id ref := by
  unfold insertSkill at h
  split at h
  · cases h
  cases h
  refine ⟨guardInsert ses { new with skillId := t.next },
    mem_append_right _ (mem_singleton.mpr rfl), guardInsert_skillId ses _, ?_⟩
  unfold guardInsert
  rw [href]

theorem not_approved_by_proposer {row' : SkillPackage} (hprop : ProposedBy t c.skillId ref)
    (has : c.madeAs = some ref) (h : skillReviewForSchema c t = .ok (t', row')) :
    row'.reviewState ≠ .approved := by
  obtain ⟨decision, found, -, hfound, rfl, hself, -⟩ := skillReviewForSchema_spec h
  obtain ⟨row, hmem, hid, href⟩ := hprop
  obtain ⟨hmem', -, hid'⟩ := row?_spec hfound
  obtain rfl : found = row := Serial.eq_of_key hmem' hmem (hid'.trans hid.symm)
  intro happroved
  have hd : decision = .approved := happroved
  exact hself (by rw [hd]; decide) (by rw [has]; rfl) (href.trans has.symm)

/-- **The author of a skill never approves it**, in a run that names no other proposer: after any
operations from its insertion on, no call made as the principal that inserted the skill leaves it
approved. -/
theorem author_never_approves (t₀ : Skills) (before after : List SkillOp) (ses : Session)
    (new : SkillPackage) (ref : String) (href : ses.currentPrincipalRef = some ref) (t₁ : Skills)
    (id : Nat) (hinsert : insertSkill ses new (run skillStep t₀ before) = .ok (t₁, id))
    (hafter : Along skillStep (KeepsProposer id) t₁ after) (call : ReviewCall)
    (hid : call.skillId = id) (has : call.madeAs = some ref) (t₂ : Skills) (row : SkillPackage)
    (hreview : skillReviewForSchema call (run skillStep t₁ after) = .ok (t₂, row)) :
    row.reviewState ≠ .approved := by
  have hprop : ProposedBy (run skillStep t₁ after) id ref :=
    run_induct (I := fun t => ProposedBy t id ref) (fun t op h hop => skillStep_proposer op h hop)
      t₁ after (insertSkill_proposer href hinsert) hafter
  exact not_approved_by_proposer (hid ▸ hprop) has hreview

/-- A session of schema `a`, with a principal or without. -/
def sessionOf (ref : Option String) : Session where
  principalRef := ref
  principalScopes := none
  principalReadonly := none
  user := "u"
  rights schema := if schema = "a" then some ⟨true, true⟩ else none

def reviewAs (ref decision : String) : ReviewCall :=
  ⟨sessionOf (some ref), some "a", 1, some decision, none, none, 0⟩

/-- The tenant proposes skill 1 again in the name of `p`. -/
def reproposedForP : ReviewCall :=
  ⟨sessionOf none, some "a", 1, some "proposed", some "p", none, 0⟩

/-- The table after `p` has inserted a skill. -/
def insertedByP : Skills :=
  run skillStep Serial.empty [.insert (sessionOf (some "p")) (newSkill "a" "x" "1.0.0")]

theorem author_never_approves_reproposed :
    ∃ t₂ row, skillReviewForSchema reproposedForP
        (run skillStep insertedByP [.review (reviewAs "q" "rejected")]) = .ok (t₂, row) ∧
      row.reviewState ≠ .approved :=
  ⟨_, _, rfl, author_never_approves Serial.empty [] [.review (reviewAs "q" "rejected")]
    (sessionOf (some "p")) (newSkill "a" "x" "1.0.0") "p" rfl insertedByP 1 rfl
    ⟨fun _ h => absurd h (by decide), trivial⟩ reproposedForP rfl rfl _ _ rfl⟩

/-- `p` inserts a skill, `q` proposes it again, and `p` approves it. -/
theorem author_approves :
    insertSkill (sessionOf (some "p")) (newSkill "a" "x" "1.0.0") Serial.empty =
        .ok (insertedByP, 1) ∧
      ∃ t₂ row, skillReviewForSchema (reviewAs "p" "approved")
          (run skillStep insertedByP [.review (reviewAs "q" "proposed")]) = .ok (t₂, row) ∧
        row.skillId = 1 ∧ row.reviewState = .approved :=
  ⟨rfl, _, _, rfl, rfl, rfl⟩

end MaluDb.Skill
