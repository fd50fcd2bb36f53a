import MaluDb.Lib.Except
import MaluDb.Fact.Model

/-!
# What the fact functions do

When each function succeeds (`Registers`, `Corrects`, `Retracts`), and what the store is then.
-/

namespace MaluDb.Fact

open MaluDb.Lib MaluDb.Grant Serial

variable {J : Type} {validate : J → List String} {σ σ' : FactStore J} {ses : Session}

/-! ## The stores -/

def closedFacts (facts : Serial (FactRow J) FactRow.factId) (now : Int) (id : Nat)
    (state : LifecycleState) : Serial (FactRow J) FactRow.factId :=
  facts.update (·.factId == id) (FactRow.close now state) (factId_close now state)

section

variable (σ : FactStore J) (ses : Session) (id : Nat)

/-- The store after `register_fact`. -/
def FactStore.registered (a : RegisterArgs J) (sensitivity : Sensitivity)
    (factClaims : List (Nat × Nat)) : FactStore J :=
  { σ with
    facts := σ.facts.insert _ (factId_newFact ses a.statement sensitivity none)
    factClaims }

/-- The store after `correct_fact`. -/
def FactStore.corrected (a : CorrectArgs J) (old : FactRow J) (kind : SupersessionKind) :
    FactStore J :=
  { σ with
    facts := (closedFacts σ.facts ses.now a.factId .superseded).insert _
      (factId_newFact ses (a.corrected old.statement) old.sensitivity (some a.factId))
    edges := σ.edges ++ [⟨ses.schema, a.factId, some σ.facts.next, kind, a.reason, ses.now⟩] }

/-- The store after `retract_fact`. -/
def FactStore.retracted (reason : Option String) : FactStore J :=
  { σ with
    facts := closedFacts σ.facts ses.now id .retired
    edges := σ.edges ++ [⟨ses.schema, id, none, .retraction, reason, ses.now⟩] }

end

variable {facts : Serial (FactRow J) FactRow.factId} {now : Int} {id : Nat} {state : LifecycleState}
  {f old : FactRow J}

theorem mem_closedFacts :
    f ∈ (closedFacts facts now id state).rows ↔
      ∃ f₀ ∈ facts.rows, (if f₀.factId = id then f₀.close now state else f₀) = f := by
  unfold closedFacts
  rw [mem_update]
  simp only [beq_iff_eq]

theorem mem_registered {a : RegisterArgs J} {sensitivity : Sensitivity}
    {factClaims : List (Nat × Nat)} :
    f ∈ (σ.registered ses a sensitivity factClaims).facts.rows ↔
      f ∈ σ.facts.rows ∨ f = newFact ses a.statement sensitivity none σ.facts.next := by
  rw [FactStore.registered, mem_insert]

theorem mem_corrected {a : CorrectArgs J} {kind : SupersessionKind} :
    f ∈ (σ.corrected ses a old kind).facts.rows ↔
      f ∈ (closedFacts σ.facts ses.now a.factId .superseded).rows ∨
        f = newFact ses (a.corrected old.statement) old.sensitivity (some a.factId)
          σ.facts.next := by
  rw [FactStore.corrected, mem_insert]
  rfl

/-! ## The conditions -/

def PayloadOk (validate : J → List String) (statement : Statement J) : Prop :=
  (statement.statementJsonb.map validate).getD [] = []

/-- When `register_fact` succeeds. -/
structure Registers (validate : J → List String) (σ : FactStore J) (ses : Session)
    (a : RegisterArgs J) (sensitivity : Sensitivity) (factClaims : List (Nat × Nat)) : Prop where
  payload : PayloadOk validate a.statement
  checked : checkSensitivity a.sensitivity = .ok sensitivity
  claims : (a.claimIds.getD []).foldlM (insertFactClaim σ.claims σ.facts.next) σ.factClaims =
    .ok factClaims
  noConflict : conflicts σ.facts (newFact ses a.statement sensitivity none σ.facts.next) = false

structure Closes (σ : FactStore J) (ses : Session) (id : Nat) (old : FactRow J) : Prop where
  mem : old ∈ σ.facts.rows
  id : old.factId = id
  visible : ses.sees old.ownerSchema old.object = true
  notSuperseded : old.supersededAt = none
  mayWrite : ses.mayWrite old.ownerSchema old.object = true
  started : ∀ s, old.validTimeStart = some s → s ≤ ses.now

/-- When `correct_fact` succeeds. -/
structure Corrects (validate : J → List String) (σ : FactStore J) (ses : Session)
    (a : CorrectArgs J) (old : FactRow J) (kind : SupersessionKind) : Prop where
  closes : Closes σ ses a.factId old
  active : old.lifecycleState = .active
  payload : PayloadOk validate (a.corrected old.statement)
  noConflict : conflicts (closedFacts σ.facts ses.now a.factId .superseded)
    (newFact ses (a.corrected old.statement) old.sensitivity (some a.factId) σ.facts.next) = false
  own : old.ownerSchema = ses.schema
  kind : checkKind a.supersessionKind = .ok kind

/-- When `retract_fact` succeeds. -/
structure Retracts (σ : FactStore J) (ses : Session) (id : Nat) (reason : Option String)
    (old : FactRow J) : Prop where
  reason : reason.getD "" ≠ ""
  closes : Closes σ ses id old

/-! ## The functions -/

section

variable {facts' : Serial (FactRow J) FactRow.factId} {statement : Statement J}

theorem checkPayload_eq_ok :
    checkPayload validate id statement = .ok () ↔ PayloadOk validate statement := by
  unfold checkPayload PayloadOk
  dsimp only
  split <;> simp_all

theorem insertFact_eq_ok {sensitivity : Sensitivity} {supersedes : Option Nat} :
    insertFact facts ses statement sensitivity supersedes = .ok facts' ↔
      conflicts facts (newFact ses statement sensitivity supersedes facts.next) = false ∧
        facts' = facts.insert _ (factId_newFact ses statement sensitivity supersedes) := by
  unfold insertFact
  split
  · rename_i h
    simp [h]
  · rename_i h
    simp [h, eq_comm]

theorem rangeOk_close (state : LifecycleState) :
    (f.close now state).rangeOk = true ↔ ∀ s, f.validTimeStart = some s → s ≤ now := by
  unfold FactRow.rangeOk FactRow.close
  cases f.validTimeStart <;> simp

theorem closeFact_eq_ok :
    closeFact facts ses old state = .ok facts' ↔ ses.mayWrite old.ownerSchema old.object = true ∧
        (∀ s, old.validTimeStart = some s → s ≤ ses.now) ∧
          facts' = closedFacts facts ses.now old.factId state := by
  unfold closeFact
  rw [← rangeOk_close state]
  cases ses.mayWrite old.ownerSchema old.object <;>
    cases (old.close ses.now state).rangeOk <;> simp [closedFacts, eq_comm]

end

theorem visibleFact?_eq_some :
    σ.visibleFact? ses id = some f ↔
      f ∈ σ.facts.rows ∧ f.factId = id ∧ ses.sees f.ownerSchema f.object = true := by
  unfold FactStore.visibleFact?
  rw [Option.filter_eq_some_iff, get?_eq_some, and_assoc]

theorem checkSupersedes_eq_ok (hf : f ∈ facts.rows) :
    checkSupersedes facts ses f.factId = .ok () ↔ f.ownerSchema = ses.schema := by
  have hany : (facts.rows.any fun g => g.factId == f.factId && g.ownerSchema == ses.schema) = true ↔
      f.ownerSchema = ses.schema := by
    rw [List.any_eq_true]
    constructor
    · rintro ⟨g, hg, h⟩
      rw [Bool.and_eq_true, beq_iff_eq, beq_iff_eq] at h
      rw [← eq_of_key hg hf h.1]
      exact h.2
    · intro h
      exact ⟨f, hf, by simp [h]⟩
  unfold checkSupersedes
  split <;> simp_all

/-- **`register_fact`**. -/
theorem registerFact_eq_ok {a : RegisterArgs J} :
    registerFact validate σ ses a = .ok σ' ↔
      ∃ sensitivity factClaims, Registers validate σ ses a sensitivity factClaims ∧
        σ' = σ.registered ses a sensitivity factClaims := by
  unfold registerFact
  constructor
  · intro h
    obtain ⟨_, hp, h⟩ := bind_eq_ok.mp h
    obtain ⟨sensitivity, hs, h⟩ := bind_eq_ok.mp h
    obtain ⟨facts, hi, h⟩ := bind_eq_ok.mp h
    obtain ⟨factClaims, hc, rfl⟩ := map_eq_ok.mp h
    obtain ⟨hn, rfl⟩ := insertFact_eq_ok.mp hi
    exact ⟨sensitivity, factClaims, ⟨checkPayload_eq_ok.mp hp, hs, hc, hn⟩, rfl⟩
  · rintro ⟨sensitivity, factClaims, h, rfl⟩
    exact bind_eq_ok.mpr ⟨_, checkPayload_eq_ok.mpr h.payload, bind_eq_ok.mpr
      ⟨_, h.checked, bind_eq_ok.mpr ⟨_, insertFact_eq_ok.mpr ⟨h.noConflict, rfl⟩,
        map_eq_ok.mpr ⟨_, h.claims, rfl⟩⟩⟩⟩

theorem checkSupersedes_corrected {mk : Nat → FactRow J} {hmk : ∀ k, (mk k).factId = k}
    (h : old ∈ σ.facts.rows) (hid : old.factId = id) :
    checkSupersedes ((closedFacts σ.facts now id state).insert mk hmk) ses id = .ok () ↔
      old.ownerSchema = ses.schema := by
  subst hid
  exact checkSupersedes_eq_ok (f := old.close now state)
    (mem_insert.mpr (.inl (mem_update.mpr ⟨old, h, by simp⟩)))

/-- **`correct_fact`**. -/
theorem correctFact_eq_ok {a : CorrectArgs J} :
    correctFact validate σ ses a = .ok σ' ↔
      ∃ old kind, Corrects validate σ ses a old kind ∧ σ' = σ.corrected ses a old kind := by
  unfold correctFact
  constructor
  · intro h
    split at h
    · cases h
    rename_i old hold
    obtain ⟨hmem, hid, hsees⟩ := visibleFact?_eq_some.mp hold
    split at h
    · cases h
    rename_i hnone
    split at h
    · cases h
    rename_i hact
    obtain ⟨closed, hcl, h⟩ := bind_eq_ok.mp h
    obtain ⟨_, hp, h⟩ := bind_eq_ok.mp h
    obtain ⟨facts, hi, h⟩ := bind_eq_ok.mp h
    obtain ⟨_, hfk, h⟩ := bind_eq_ok.mp h
    obtain ⟨kind, hk, rfl⟩ := map_eq_ok.mp h
    obtain ⟨hw, hst, hclosed⟩ := closeFact_eq_ok.mp hcl
    obtain ⟨hn, rfl⟩ := insertFact_eq_ok.mp hi
    rw [hid] at hclosed
    subst hclosed
    exact ⟨old, kind, ⟨⟨hmem, hid, hsees, hnone, hw, hst⟩, not_not.mp hact,
      checkPayload_eq_ok.mp hp, hn, (checkSupersedes_corrected hmem hid).mp hfk, hk⟩, rfl⟩
  · rintro ⟨old, kind, h, rfl⟩
    have hc := h.closes
    rw [visibleFact?_eq_some.mpr ⟨hc.mem, hc.id, hc.visible⟩]
    dsimp only
    rw [hc.notSuperseded]
    dsimp only
    rw [if_neg (not_not.mpr h.active)]
    refine bind_eq_ok.mpr ⟨_, closeFact_eq_ok.mpr ⟨hc.mayWrite, hc.started, rfl⟩, ?_⟩
    rw [hc.id]
    exact bind_eq_ok.mpr ⟨_, checkPayload_eq_ok.mpr h.payload, bind_eq_ok.mpr
      ⟨_, insertFact_eq_ok.mpr ⟨h.noConflict, rfl⟩, bind_eq_ok.mpr
        ⟨(), (checkSupersedes_corrected hc.mem hc.id).mpr h.own, map_eq_ok.mpr ⟨_, h.kind, rfl⟩⟩⟩⟩

/-- **`retract_fact`**. -/
theorem retractFact_eq_ok {reason : Option String} :
    retractFact σ ses id reason = .ok σ' ↔
      ∃ old, Retracts σ ses id reason old ∧ σ' = σ.retracted ses id reason := by
  unfold retractFact
  constructor
  · intro h
    split at h
    · cases h
    rename_i hreason
    split at h
    · cases h
    rename_i old hold
    obtain ⟨hmem, hid, hsees⟩ := visibleFact?_eq_some.mp hold
    split at h
    · cases h
    rename_i hnone
    obtain ⟨facts, hcl, rfl⟩ := map_eq_ok.mp h
    obtain ⟨hw, hst, hclosed⟩ := closeFact_eq_ok.mp hcl
    rw [hid] at hclosed
    subst hclosed
    exact ⟨old, ⟨hreason, hmem, hid, hsees, hnone, hw, hst⟩, rfl⟩
  · rintro ⟨old, h, rfl⟩
    have hc := h.closes
    rw [if_neg h.reason, visibleFact?_eq_some.mpr ⟨hc.mem, hc.id, hc.visible⟩]
    dsimp only
    rw [hc.notSuperseded]
    refine map_eq_ok.mpr ⟨_, closeFact_eq_ok.mpr ⟨hc.mayWrite, hc.started, rfl⟩, ?_⟩
    rw [hc.id]
    rfl

end MaluDb.Fact
