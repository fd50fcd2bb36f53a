import MaluDb.Fact.Spec

/-!
# Tenants do not share facts

The exclusion constraint on `malu$fact` compares the active facts of all owners: a call is refused
when another tenant has an active fact with the same subject, verb and predicate.

`Accepted` are the conditions on the arguments and the tenant's own rows.
-/

namespace MaluDb.Fact

open MaluDb.Lib MaluDb.Grant

variable {J : Type} {validate : J → List String} {σ σ' : FactStore J} {ses : Session}

/-! ## Own rows -/

/-- The facts of a tenant. -/
def ownFacts (σ : FactStore J) (schema : String) : List (FactRow J) :=
  σ.facts.rows.filter (·.ownerSchema == schema)

/-- The stores differ only in the facts of tenants other than `schema`. -/
structure SameOwn (schema : String) (σ σ' : FactStore J) : Prop where
  facts : ownFacts σ schema = ownFacts σ' schema
  next : σ.facts.next = σ'.facts.next
  claims : σ.claims = σ'.claims
  factClaims : σ.factClaims = σ'.factClaims
  edges : σ.edges = σ'.edges

def FactOp.IsWrite : FactOp J → Prop
  | .register _ | .correct _ => True
  | .retract .. => False

/-- The fact has the key and is active at some time from now on. -/
def FactRow.inTheWay (ses : Session) (key : String × String × String) (g : FactRow J) : Prop :=
  g.isOpen = true ∧ g.statement.key = key ∧
    TimeRange.overlaps ⟨some ses.now, none⟩ g.validTimeRange = true

def Accepted (validate : J → List String) (σ : FactStore J) (ses : Session) : FactOp J → Prop
  | .register a => PayloadOk validate a.statement ∧
      (∃ sensitivity, checkSensitivity a.sensitivity = .ok sensitivity) ∧
      (∃ factClaims, (a.claimIds.getD []).foldlM (insertFactClaim σ.claims σ.facts.next)
        σ.factClaims = .ok factClaims) ∧
      ∀ g ∈ ownFacts σ ses.schema, ¬ g.inTheWay ses a.statement.key
  | .correct a => ∃ old ∈ ownFacts σ ses.schema, old.factId = a.factId ∧
      old.supersededAt = none ∧ old.lifecycleState = .active ∧
      (∀ s, old.validTimeStart = some s → s ≤ ses.now) ∧
      PayloadOk validate (a.corrected old.statement) ∧
      (∃ kind, checkKind a.supersessionKind = .ok kind) ∧
      ∀ g ∈ ownFacts σ ses.schema, g.factId ≠ a.factId → ¬ g.inTheWay ses old.statement.key
  | .retract .. => False

/-- The subject, verb and predicate of the row the call inserts. -/
def Writes (σ : FactStore J) (ses : Session) : FactOp J → String × String × String → Prop
  | .register a, key => a.statement.key = key
  | .correct a, key => ∃ old ∈ ownFacts σ ses.schema, old.factId = a.factId ∧
      old.statement.key = key
  | .retract .., _ => False

/-- Another tenant has an active fact in the way of the row the call inserts. -/
def Blocked (σ : FactStore J) (ses : Session) (op : FactOp J) : Prop :=
  ∃ key, Writes σ ses op key ∧ ∃ g ∈ σ.facts.rows, g.ownerSchema ≠ ses.schema ∧ g.inTheWay ses key

/-- The call does not raise. -/
def Succeeds (validate : J → List String) (σ : FactStore J) (ses : Session) (op : FactOp J) :
    Prop :=
  ∃ σ', factCall validate σ ses op = .ok σ'

/-! ## When a call succeeds -/

theorem mem_ownFacts {schema : String} {f : FactRow J} :
    f ∈ ownFacts σ schema ↔ f ∈ σ.facts.rows ∧ f.ownerSchema = schema := by
  simp [ownFacts]

variable {sensitivity : Sensitivity} {id : Nat} {a : RegisterArgs J}

section

variable {statement : Statement J} {supersedes : Option Nat} {op : FactOp J} {old : FactRow J}

theorem excludes_newFact {g : FactRow J} :
    (newFact ses statement sensitivity supersedes id).excludes g = true ↔
      g.inTheWay ses statement.key := by
  unfold FactRow.excludes FactRow.inTheWay
  have hopen : (newFact ses statement sensitivity supersedes id).isOpen = true := rfl
  rw [hopen, Bool.true_and, Bool.and_eq_true, Bool.and_eq_true, beq_iff_eq, and_assoc]
  exact and_congr Iff.rfl (and_congr eq_comm Iff.rfl)

theorem conflicts_eq_false {facts : Serial (FactRow J) FactRow.factId} :
    conflicts facts (newFact ses statement sensitivity supersedes id) = false ↔
      ∀ g ∈ facts.rows, ¬ g.inTheWay ses statement.key := by
  unfold conflicts
  rw [List.any_eq_false]
  exact forall₂_congr fun g _ => not_congr excludes_newFact

theorem forall_closedFacts {key : String × String × String} {now : Int} {state : LifecycleState} :
    (∀ g ∈ (closedFacts σ.facts now id state).rows, ¬ g.inTheWay ses key) ↔
      ∀ g ∈ σ.facts.rows, g.factId ≠ id → ¬ g.inTheWay ses key := by
  constructor
  · intro h g hg hid
    exact h g (mem_closedFacts.mpr ⟨g, hg, if_neg hid⟩)
  intro h g hg
  obtain ⟨g₀, hg₀, rfl⟩ := mem_closedFacts.mp hg
  split
  · rintro ⟨hopen, -⟩
    simp [FactRow.isOpen, FactRow.close] at hopen
  · exact h g₀ hg₀ ‹_›

theorem forall_facts_iff {P : FactRow J → Prop} {schema : String} :
    (∀ g ∈ σ.facts.rows, P g) ↔
      (∀ g ∈ ownFacts σ schema, P g) ∧ ∀ g ∈ σ.facts.rows, g.ownerSchema ≠ schema → P g := by
  constructor
  · intro h
    exact ⟨fun g hg => h g (mem_ownFacts.mp hg).1, fun g hg _ => h g hg⟩
  rintro ⟨hown, hother⟩ g hg
  by_cases hs : g.ownerSchema = schema
  · exact hown g (mem_ownFacts.mpr ⟨hg, hs⟩)
  · exact hother g hg hs

theorem not_blocked_register :
    ¬ Blocked σ ses (.register a) ↔
      ∀ g ∈ σ.facts.rows, g.ownerSchema ≠ ses.schema → ¬ g.inTheWay ses a.statement.key := by
  constructor
  · intro h g hg hs hway
    exact h ⟨_, rfl, g, hg, hs, hway⟩
  · rintro h ⟨_, rfl, g, hg, hs, hway⟩
    exact h g hg hs hway

theorem not_blocked_correct {a : CorrectArgs J} (hold : old ∈ ownFacts σ ses.schema)
    (hid : old.factId = a.factId) :
    ¬ Blocked σ ses (.correct a) ↔
      ∀ g ∈ σ.facts.rows, g.ownerSchema ≠ ses.schema → ¬ g.inTheWay ses old.statement.key := by
  constructor
  · intro h g hg hs hway
    exact h ⟨_, ⟨old, hold, hid, rfl⟩, g, hg, hs, hway⟩
  rintro h ⟨_, ⟨old', hold', hid', rfl⟩, g, hg, hs, hway⟩
  obtain rfl : old' = old := Serial.eq_of_key (mem_ownFacts.mp hold').1 (mem_ownFacts.mp hold).1
    (hid'.trans hid.symm)
  exact h g hg hs hway

theorem succeeds_register_iff :
    Succeeds validate σ ses (.register a) ↔
      Accepted validate σ ses (.register a) ∧ ¬ Blocked σ ses (.register a) := by
  rw [not_blocked_register]
  constructor
  · rintro ⟨σ', h⟩
    obtain ⟨sensitivity, factClaims, hr, -⟩ := registerFact_eq_ok.mp h
    obtain ⟨hown, hother⟩ := forall_facts_iff.mp (conflicts_eq_false.mp hr.noConflict)
    exact ⟨⟨hr.payload, ⟨_, hr.checked⟩, ⟨_, hr.claims⟩, hown⟩, hother⟩
  · rintro ⟨⟨hp, ⟨sensitivity, hs⟩, ⟨factClaims, hc⟩, hown⟩, hother⟩
    exact ⟨_, registerFact_eq_ok.mpr ⟨sensitivity, factClaims, ⟨hp, hs, hc,
      conflicts_eq_false.mpr (forall_facts_iff.mpr ⟨hown, hother⟩)⟩, rfl⟩⟩

theorem succeeds_correct_iff {a : CorrectArgs J} :
    Succeeds validate σ ses (.correct a) ↔
      Accepted validate σ ses (.correct a) ∧ ¬ Blocked σ ses (.correct a) := by
  constructor
  · rintro ⟨σ', h⟩
    obtain ⟨old, kind, hc, -⟩ := correctFact_eq_ok.mp h
    have hold : old ∈ ownFacts σ ses.schema := mem_ownFacts.mpr ⟨hc.closes.mem, hc.own⟩
    obtain ⟨hown, hother⟩ := forall_facts_iff.mp
      (forall_closedFacts.mp (conflicts_eq_false.mp hc.noConflict))
    refine ⟨⟨old, hold, hc.closes.id, hc.closes.notSuperseded, hc.active, hc.closes.started,
      hc.payload, ⟨kind, hc.kind⟩, hown⟩, ?_⟩
    refine (not_blocked_correct hold hc.closes.id).mpr fun g hg hs => hother g hg hs fun hid => ?_
    -- the fact of that id is the tenant's own
    exact hs ((Serial.eq_of_key hg hc.closes.mem (hid.trans hc.closes.id.symm)) ▸ hc.own)
  · rintro ⟨⟨old, hold, hid, hn, ha, hst, hp, ⟨kind, hk⟩, hown⟩, hb⟩
    obtain ⟨hmem, hschema⟩ := mem_ownFacts.mp hold
    have hother := (not_blocked_correct hold hid).mp hb
    refine ⟨_, correctFact_eq_ok.mpr ⟨old, kind, ⟨⟨hmem, hid, by simp [hschema], hn,
      by simp [hschema], hst⟩, ha, hp, ?_, hschema, hk⟩, rfl⟩⟩
    exact conflicts_eq_false.mpr (forall_closedFacts.mpr (forall_facts_iff.mpr
      ⟨hown, fun g hg hs _ => hother g hg hs⟩))

/-- **When a registration or a correction succeeds.** -/
theorem succeeds_iff (hop : op.IsWrite) :
    Succeeds validate σ ses op ↔ Accepted validate σ ses op ∧ ¬ Blocked σ ses op := by
  cases op with
  | register a => exact succeeds_register_iff
  | correct a => exact succeeds_correct_iff
  | retract => exact hop.elim

/-! ## Two stores -/

theorem SameOwn.accepted (h : SameOwn ses.schema σ σ') (op : FactOp J) :
    Accepted validate σ ses op ↔ Accepted validate σ' ses op := by
  cases op with
  | register a => simp only [Accepted, h.facts, h.claims, h.next, h.factClaims]
  | correct a => simp only [Accepted, h.facts]
  | retract => exact Iff.rfl

theorem ownFacts_registered {factClaims : List (Nat × Nat)} :
    ownFacts (σ.registered ses a sensitivity factClaims) ses.schema =
      ownFacts σ ses.schema ++ [newFact ses a.statement sensitivity none σ.facts.next] := by
  simp [ownFacts, FactStore.registered, Serial.insert, newFact]

theorem ownFacts_corrected {a : CorrectArgs J} {kind : SupersessionKind} :
    ownFacts (σ.corrected ses a old kind) ses.schema =
      updateWhere (·.factId == a.factId) (FactRow.close ses.now .superseded)
        (ownFacts σ ses.schema) ++
      [newFact ses (a.corrected old.statement) old.sensitivity (some a.factId) σ.facts.next] := by
  unfold ownFacts
  rw [← filter_updateWhere (f := FactRow.close ses.now .superseded) fun _ => rfl]
  simp [FactStore.corrected, Serial.insert, closedFacts, Serial.update, newFact]

theorem SameOwn.after (h : SameOwn ses.schema σ σ') (hop : op.IsWrite) {τ τ' : FactStore J}
    (hτ : factCall validate σ ses op = .ok τ) (hτ' : factCall validate σ' ses op = .ok τ') :
    SameOwn ses.schema τ τ' := by
  cases op with
  | register a =>
    obtain ⟨sensitivity, factClaims, hr, rfl⟩ := registerFact_eq_ok.mp hτ
    obtain ⟨sensitivity', factClaims', hr', rfl⟩ := registerFact_eq_ok.mp hτ'
    obtain rfl : sensitivity = sensitivity' :=
      Except.ok.inj (hr.checked.symm.trans hr'.checked)
    have hclaims := hr'.claims
    rw [← h.claims, ← h.next, ← h.factClaims] at hclaims
    obtain rfl : factClaims = factClaims' := Except.ok.inj (hr.claims.symm.trans hclaims)
    refine ⟨?_, congrArg (· + 1) h.next, h.claims, rfl, h.edges⟩
    rw [ownFacts_registered, ownFacts_registered, h.facts, h.next]
  | correct a =>
    obtain ⟨old, kind, hc, rfl⟩ := correctFact_eq_ok.mp hτ
    obtain ⟨old', kind', hc', rfl⟩ := correctFact_eq_ok.mp hτ'
    obtain rfl : kind = kind' := Except.ok.inj (hc.kind.symm.trans hc'.kind)
    have hold : old ∈ ownFacts σ' ses.schema :=
      h.facts ▸ mem_ownFacts.mpr ⟨hc.closes.mem, hc.own⟩
    obtain rfl : old = old' := Serial.eq_of_key (mem_ownFacts.mp hold).1 hc'.closes.mem
      (hc.closes.id.trans hc'.closes.id.symm)
    refine ⟨?_, congrArg (· + 1) h.next, h.claims, h.factClaims, ?_⟩
    · rw [ownFacts_corrected, ownFacts_corrected, h.facts, h.next]
    · simp only [FactStore.corrected, h.edges, h.next]
  | retract => exact hop.elim

end

/-- **A tenant's registration or correction has the same outcome in two stores that differ only in
other tenants' facts** exactly if its own rows or arguments refuse it, or other tenants' facts are
in the way in both stores or in neither. -/
theorem write_isolated_iff (validate : J → List String) (σ σ' : FactStore J) (ses : Session)
    (op : FactOp J) (hop : op.IsWrite) (h : SameOwn ses.schema σ σ') :
    ((Succeeds validate σ ses op ↔ Succeeds validate σ' ses op) ∧
        SameOwn ses.schema (factStep validate σ (ses, op)) (factStep validate σ' (ses, op))) ↔
      (¬ Accepted validate σ ses op ∨ (Blocked σ ses op ↔ Blocked σ' ses op)) := by
  have hoc : (Succeeds validate σ ses op ↔ Succeeds validate σ' ses op) ↔
      (¬ Accepted validate σ ses op ∨ (Blocked σ ses op ↔ Blocked σ' ses op)) := by
    rw [succeeds_iff hop, succeeds_iff hop, ← h.accepted op]
    tauto
  rw [← hoc, and_iff_left_iff_imp]
  intro hiff
  unfold factStep
  cases hτ : factCall validate σ ses op with
  | error e =>
    cases hτ' : factCall validate σ' ses op with
    | error e' => exact h
    | ok τ' =>
      obtain ⟨τ, hok⟩ := hiff.mpr ⟨τ', hτ'⟩
      cases hτ.symm.trans hok
  | ok τ =>
    obtain ⟨τ', hτ'⟩ := hiff.mp ⟨τ, hτ⟩
    rw [hτ']
    exact h.after hop hτ hτ'

def doorIs (value : String) : FactOp Unit :=
  .register ⟨none, ⟨some "door", some "is", none, some value, none, none, none, none, none⟩,
    some "internal"⟩

/-- Tenant `b` has a fact about the door. -/
def withFactOfB : FactStore Unit :=
  factStep (fun _ => []) (noFacts []) (⟨"b", 1, Serial.empty, false⟩, doorIs "open")

/-- The same without it. -/
def withoutFactOfB : FactStore Unit :=
  { withFactOfB with facts := withFactOfB.facts.delete fun f => f.ownerSchema == "b" }

/-- A session of tenant `a`. -/
def tenantA : Session := ⟨"a", 2, Serial.empty, false⟩

theorem write_isolated_iff_doorIs :
    ((Succeeds (fun _ => []) withFactOfB tenantA (doorIs "shut") ↔
          Succeeds (fun _ => []) withoutFactOfB tenantA (doorIs "shut")) ∧
        SameOwn "a" (factStep (fun _ => []) withFactOfB (tenantA, doorIs "shut"))
          (factStep (fun _ => []) withoutFactOfB (tenantA, doorIs "shut"))) ↔
      (¬ Accepted (fun _ => []) withFactOfB tenantA (doorIs "shut") ∨
        (Blocked withFactOfB tenantA (doorIs "shut") ↔
          Blocked withoutFactOfB tenantA (doorIs "shut"))) :=
  write_isolated_iff _ withFactOfB withoutFactOfB tenantA (doorIs "shut") trivial
    ⟨rfl, rfl, rfl, rfl, rfl⟩

/-- Tenant `a` cannot register a fact about the door because tenant `b` has one. -/
theorem tenant_blocks_tenant :
    SameOwn "a" withFactOfB withoutFactOfB ∧
      ¬ Succeeds (fun _ => []) withFactOfB tenantA (doorIs "shut") ∧
      Succeeds (fun _ => []) withoutFactOfB tenantA (doorIs "shut") := by
  refine ⟨⟨rfl, rfl, rfl, rfl, rfl⟩, ?_, ⟨_, rfl⟩⟩
  rintro ⟨τ, h⟩
  cases h

end MaluDb.Fact
