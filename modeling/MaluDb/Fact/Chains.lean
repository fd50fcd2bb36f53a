import MaluDb.Fact.Tenant
import MaluDb.Lib.Chain

/-!
# Chains of corrections

`reopen_valid_window` beside `correct_fact` and `retract_fact`, and the edges of
`malu$supersession_edge` after any run of them.

* Reopening a fact leaves the edges. The exclusion constraint keeps it from succeeding while another
  fact with the same key is open, but not once the last version of a chain is retracted.
* Reopening an object of another type leaves the facts and their edges alone.
-/

namespace MaluDb.Fact

open MaluDb.Lib MaluDb.Grant List

variable {J : Type} {validate : J → List String} {σ σ' : FactStore J} {ses : Session}

/-! ## Reopening -/

/-- What reopening a fact sets. -/
def FactRow.reopen (f : FactRow J) : FactRow J :=
  { f with validTimeEnd := none, supersededAt := none, lifecycleState := .active }

@[simp] theorem factId_reopen (f : FactRow J) : f.reopen.factId = f.factId := rfl

/-- `UPDATE malu$fact SET valid_time_end = NULL, … WHERE fact_id = …`. A fact the session does not
see is not updated. -/
def reopenFact (σ : FactStore J) (ses : Session) (id : Nat) : Except FactError (FactStore J) :=
  match σ.visibleFact? ses id with
  | none => .ok σ
  | some old =>
    if !ses.mayWrite old.ownerSchema old.object then .error .rowSecurity
    else if σ.facts.rows.any fun g => g.factId != id && old.reopen.excludes g then
      .error .exclusionViolation
    else .ok { σ with
      facts := σ.facts.update (·.factId == id) FactRow.reopen factId_reopen }

/-- The errors of `reopen_valid_window`. -/
inductive ReopenError where
  | reasonRequired
  | unsupportedObjectType (objectType : Option String)
  | fact (e : FactError)
  deriving DecidableEq, Repr

/-- The text of an error. -/
def ReopenError.message : ReopenError → String
  | .reasonRequired => "reopen_valid_window: reason required"
  | .unsupportedObjectType t =>
    "reopen_valid_window: unsupported object_type " ++ t.getD "<NULL>"
  | .fact e => e.message

/-- `reopen_valid_window`. -/
def reopenValidWindow (σ : FactStore J) (ses : Session) (objectType : Option String) (id : Nat)
    (reason : Option String) : Except ReopenError (FactStore J) :=
  if reason.getD "" = "" then .error .reasonRequired
  else if objectType = some "fact" then
    match reopenFact σ ses id with
    | .error e => .error (.fact e)
    | .ok σ' => .ok σ'
  else if objectType = some "memory" ∨ objectType = some "episode_object" ∨
      objectType = some "claim" then .ok σ
  else .error (.unsupportedObjectType objectType)

inductive ChainOp (J : Type) where
  | call (op : FactOp J)
  | reopen (objectType : Option String) (id : Nat) (reason : Option String)
  deriving DecidableEq, Repr

def chainStep (validate : J → List String) (σ : FactStore J) (c : Session × ChainOp J) :
    FactStore J :=
  match c.2 with
  | .call op => factStep validate σ (c.1, op)
  | .reopen objectType id reason => commitOr σ (reopenValidWindow σ c.1 objectType id reason)

/-! ## Chains -/

/-- A correction edge. -/
def Corrected (σ : FactStore J) (a b : Nat) : Prop :=
  ∃ e ∈ σ.edges, e.predecessorId = a ∧ e.successorId = some b

def Retracted (σ : FactStore J) (a : Nat) : Prop :=
  ∃ e ∈ σ.edges, e.predecessorId = a ∧ e.successorId = none

/-- The versions of a fact. -/
def InChain (σ : FactStore J) (id : Nat) (g : FactRow J) : Prop :=
  g ∈ σ.facts.rows ∧ Relation.EqvGen (Corrected σ) id g.factId

/-- There is no cycle, a fact has at most one predecessor, and the chain of a fact has exactly one
version that is neither superseded nor retracted, or none and was retracted. -/
structure Forest (σ : FactStore J) : Prop where
  acyclic : ∀ a, ¬ Relation.TransGen (Corrected σ) a a
  predecessor : ∀ a a' b, Corrected σ a b → Corrected σ a' b → a = a'
  head : ∀ f ∈ σ.facts.rows, (∃! g, InChain σ f.factId g ∧ g.isOpen = true) ∨
    (∀ g, InChain σ f.factId g → g.isOpen = false) ∧
      ∃ g, InChain σ f.factId g ∧ Retracted σ g.factId

def OneSuccessor (σ : FactStore J) : Prop :=
  ∀ a b b', Corrected σ a b → Corrected σ a b' → b = b'

/-- The condition on a call: a fact that has a successor is not reopened. -/
def ReopensLast (σ : FactStore J) (c : Session × ChainOp J) : Prop :=
  match c.2 with
  | .reopen (some "fact") id _ => ∀ e ∈ σ.edges, e.predecessorId = id → e.successorId = none
  | _ => True

/-! ## What a call does -/

/-- When `reopen_valid_window` reopens a fact. -/
structure Reopens (σ : FactStore J) (id : Nat) (old : FactRow J) : Prop where
  mem : old ∈ σ.facts.rows
  id : old.factId = id
  noConflict : ∀ g ∈ σ.facts.rows, g.factId ≠ old.factId → old.reopen.excludes g = false

def FactStore.reopened (σ : FactStore J) (id : Nat) : FactStore J :=
  { σ with facts := σ.facts.update (·.factId == id) FactRow.reopen factId_reopen }

inductive ChainEffect (validate : J → List String) (σ : FactStore J) (ses : Session) :
    ChainOp J → FactStore J → Prop
  | unchanged {op : ChainOp J} : ChainEffect validate σ ses op σ
  | registered {a : RegisterArgs J} {sensitivity : Sensitivity} {factClaims : List (Nat × Nat)}
    (h : Registers validate σ ses a sensitivity factClaims) :
    ChainEffect validate σ ses (.call (.register a)) (σ.registered ses a sensitivity factClaims)
  | corrected {a : CorrectArgs J} {old : FactRow J} {kind : SupersessionKind}
    (h : Corrects validate σ ses a old kind) :
    ChainEffect validate σ ses (.call (.correct a)) (σ.corrected ses a old kind)
  | retracted {id : Nat} {reason : Option String} {old : FactRow J}
    (h : Retracts σ ses id reason old) :
    ChainEffect validate σ ses (.call (.retract id reason)) (σ.retracted ses id reason)
  | reopened {id : Nat} {reason : Option String} {old : FactRow J} (h : Reopens σ id old) :
    ChainEffect validate σ ses (.reopen (some "fact") id reason) (σ.reopened id)

variable {id x b : Nat} {facts : Serial (FactRow J) FactRow.factId} {f old : FactRow J}

theorem reopenFact_eq_ok (h : reopenFact σ ses id = .ok σ') :
    σ' = σ ∨ ∃ old, Reopens σ id old ∧ σ' = σ.reopened id := by
  unfold reopenFact at h
  split at h
  · exact .inl (Except.ok.inj h).symm
  rename_i old hold
  obtain ⟨hmem, hid, -⟩ := visibleFact?_eq_some.mp hold
  split at h
  · cases h
  split at h
  · cases h
  rename_i hnone
  refine .inr ⟨old, ⟨hmem, hid, fun g hg hne => ?_⟩, (Except.ok.inj h).symm⟩
  have hg' := any_eq_false.mp (Bool.eq_false_iff.mpr hnone) g hg
  simpa [hid ▸ hne] using hg'

theorem chainStep_effect (validate : J → List String) (σ : FactStore J)
    (c : Session × ChainOp J) : ChainEffect validate σ c.1 c.2 (chainStep validate σ c) := by
  obtain ⟨ses, op⟩ := c
  cases op with
  | call op =>
    refine commitOr_of .unchanged fun σ' h => ?_
    cases op with
    | register a =>
      obtain ⟨_, _, hr, rfl⟩ := registerFact_eq_ok.mp h
      exact .registered hr
    | correct a =>
      obtain ⟨_, _, hc, rfl⟩ := correctFact_eq_ok.mp h
      exact .corrected hc
    | retract id reason =>
      obtain ⟨_, hr, rfl⟩ := retractFact_eq_ok.mp h
      exact .retracted hr
  | reopen objectType id reason =>
    refine commitOr_of .unchanged fun σ' h => ?_
    unfold reopenValidWindow at h
    split at h
    · cases h
    split at h
    · rename_i hfact
      subst hfact
      split at h
      · cases h
      rename_i hr
      cases h
      rcases reopenFact_eq_ok hr with rfl | ⟨old, hopens, rfl⟩
      · exact .unchanged
      · exact .reopened hopens
    · split at h
      · cases h
        exact .unchanged
      · cases h

/-! ## The invariant -/

def HasKey (σ : FactStore J) (id : Nat) (key : String × String × String) : Prop :=
  ∃ f ∈ σ.facts.rows, f.factId = id ∧ f.statement.key = key

/-- What every run keeps: edges go to later facts of the same key, a fact has one edge into it, an
open fact has no end and is the only one with its key, and a fact that is not open has an edge. -/
structure Linked (σ : FactStore J) : Prop where
  edge : ∀ a b, Corrected σ a b → a < b ∧ ∃ key, HasKey σ a key ∧ HasKey σ b key
  predecessor : ∀ a a' b, Corrected σ a b → Corrected σ a' b → a = a'
  unending : ∀ f ∈ σ.facts.rows, f.isOpen = true → f.validTimeEnd = none
  alone : ∀ f ∈ σ.facts.rows, ∀ g ∈ σ.facts.rows, f.isOpen = true → g.isOpen = true →
    f.statement.key = g.statement.key → f.factId = g.factId
  closed : ∀ f ∈ σ.facts.rows, f.isOpen = false →
    (∃ b, Corrected σ f.factId b) ∨ Retracted σ f.factId

theorem HasKey.lt_next {key : String × String × String} (h : HasKey σ id key) :
    id < σ.facts.next := by
  obtain ⟨f, hf, rfl, -⟩ := h
  exact σ.facts.below f hf

theorem overlaps_unending {a b : TimeRange} (ha : a.upper = none) (hb : b.upper = none) :
    a.overlaps b = true := by
  obtain ⟨la, ua⟩ := a
  obtain ⟨lb, ub⟩ := b
  subst ha hb
  cases la <;> cases lb <;> rfl

section

variable {u : FactRow J → FactRow J} (hu : ∀ f, (u f).factId = f.factId) {sensitivity : Sensitivity}
  {kind : SupersessionKind} {state : LifecycleState} (now : Int)

theorem mem_replaced :
    f ∈ (facts.update (·.factId == id) u hu).rows ↔
      (f ∈ facts.rows ∧ f.factId ≠ id) ∨ ∃ f₀ ∈ facts.rows, f₀.factId = id ∧ f = u f₀ := by
  rw [Serial.mem_update]
  constructor
  · rintro ⟨f₀, hf₀, rfl⟩
    by_cases hid : f₀.factId = id
    · exact .inr ⟨f₀, hf₀, hid, by simp [hid]⟩
    · exact .inl ⟨by simpa [hid] using hf₀, by simp [hid]⟩
  · rintro (⟨hf, hid⟩ | ⟨f₀, hf₀, hid, rfl⟩)
    · exact ⟨f, hf, by simp [hid]⟩
    · exact ⟨f₀, hf₀, by simp [hid]⟩

theorem mem_closed {now : Int} :
    f ∈ (closedFacts facts now id state).rows ↔ (f ∈ facts.rows ∧ f.factId ≠ id) ∨
        ∃ f₀ ∈ facts.rows, f₀.factId = id ∧ f = f₀.close now state :=
  mem_replaced (factId_close now state)

theorem mem_reopened :
    f ∈ (σ.reopened id).facts.rows ↔
      (f ∈ σ.facts.rows ∧ f.factId ≠ id) ∨ ∃ f₀ ∈ σ.facts.rows, f₀.factId = id ∧ f = f₀.reopen :=
  mem_replaced factId_reopen

theorem mem_replaced_of_mem (hkey : ∀ f, (u f).statement = f.statement) (hf : f ∈ facts.rows) :
    ∃ g ∈ (facts.update (·.factId == id) u hu).rows,
      g.factId = f.factId ∧ g.statement.key = f.statement.key := by
  by_cases hid : f.factId = id
  · exact ⟨u f, (mem_replaced hu).mpr (.inr ⟨f, hf, hid, rfl⟩), hu f, by rw [hkey]⟩
  · exact ⟨f, (mem_replaced hu).mpr (.inl ⟨hf, hid⟩), rfl, rfl⟩

theorem corrected_corrected {a : CorrectArgs J} :
    Corrected (σ.corrected ses a old kind) x b ↔
      Corrected σ x b ∨ x = a.factId ∧ b = σ.facts.next := by
  unfold Corrected FactStore.corrected
  simp only [mem_append, mem_singleton]
  constructor
  · rintro ⟨e, he | rfl, hpred, hsucc⟩
    · exact .inl ⟨e, he, hpred, hsucc⟩
    · exact .inr ⟨hpred.symm, (Option.some.inj hsucc).symm⟩
  · rintro (⟨e, he, hpred, hsucc⟩ | ⟨rfl, rfl⟩)
    · exact ⟨e, .inl he, hpred, hsucc⟩
    · exact ⟨_, .inr rfl, rfl, rfl⟩

theorem corrected_retracted {reason : Option String} :
    Corrected (σ.retracted ses id reason) x b ↔ Corrected σ x b := by
  unfold Corrected FactStore.retracted
  simp only [mem_append, mem_singleton]
  constructor
  · rintro ⟨e, he | rfl, hpred, hsucc⟩
    · exact ⟨e, he, hpred, hsucc⟩
    · cases hsucc
  · rintro ⟨e, he, hpred, hsucc⟩
    exact ⟨e, .inl he, hpred, hsucc⟩

def OpensAlone (σ : FactStore J) (f : FactRow J) : Prop :=
  f.isOpen = true ∧ f.validTimeEnd = none ∧ ∀ g ∈ σ.facts.rows, g.isOpen = true →
    g.statement.key = f.statement.key → g.factId = f.factId

/-- A row that a call closes. -/
def ClosesLinked (σ : FactStore J) (f : FactRow J) : Prop :=
  f.isOpen = false ∧ ((∃ b, Corrected σ f.factId b) ∨ Retracted σ f.factId)

/-- **The step lemma**: a call keeps the invariant if it keeps the keys and the edges, adds at most
an edge from `x` to the next id, and each row is an old one, one it closes or one it leaves open. -/
theorem Linked.of_rows (h : Linked σ) (hkey : ∀ a key, HasKey σ a key → HasKey σ' a key)
    (hedges : ∀ e ∈ σ.edges, e ∈ σ'.edges) (hedge : ∀ a b, Corrected σ' a b → Corrected σ a b ∨
      a = x ∧ b = σ.facts.next ∧ ∃ key, HasKey σ a key ∧ HasKey σ' b key)
    (hrows : ∀ f ∈ σ'.facts.rows, f ∈ σ.facts.rows ∨ ClosesLinked σ' f ∨ OpensAlone σ' f) :
    Linked σ' where
  edge a b hab := by
    rcases hedge a b hab with hold | ⟨-, rfl, key, ha, hb⟩
    · obtain ⟨hlt, key, ha, hb⟩ := h.edge a b hold
      exact ⟨hlt, key, hkey a key ha, hkey b key hb⟩
    · exact ⟨ha.lt_next, key, hkey a key ha, hb⟩
  predecessor a a' b hab hab' := by
    -- no old edge goes to the next id
    have hnew : ∀ c, ¬ Corrected σ c σ.facts.next := fun c hc => by
      obtain ⟨-, key, -, hb⟩ := h.edge c _ hc
      exact Nat.lt_irrefl _ hb.lt_next
    rcases hedge a b hab with hold | ⟨rfl, rfl, -⟩ <;>
      rcases hedge a' _ hab' with hold' | ⟨rfl, hb, -⟩
    · exact h.predecessor a a' b hold hold'
    · exact absurd (hb ▸ hold) (hnew a)
    · exact absurd hold' (hnew a')
    · rfl
  unending f hf hopen := by
    rcases hrows f hf with hold | ⟨hclosed, -⟩ | ⟨-, hend, -⟩
    · exact h.unending f hold hopen
    · simp [hclosed] at hopen
    · exact hend
  alone f hf g hg hfo hgo hk := by
    rcases hrows f hf with hold | ⟨hclosed, -⟩ | ⟨-, -, hf'⟩
    · rcases hrows g hg with hold' | ⟨hclosed, -⟩ | ⟨-, -, hg'⟩
      · exact h.alone f hold g hold' hfo hgo hk
      · simp [hclosed] at hgo
      · exact hg' f hf hfo hk
    · simp [hclosed] at hfo
    · exact (hf' g hg hgo hk.symm).symm
  closed f hf hclosed := by
    rcases hrows f hf with hold | ⟨-, hlink⟩ | ⟨hopen, -⟩
    · refine (h.closed f hold hclosed).imp ?_ ?_
      · rintro ⟨b, e, he, hpred⟩
        exact ⟨b, e, hedges e he, hpred⟩
      · rintro ⟨e, he, hpred⟩
        exact ⟨e, hedges e he, hpred⟩
    · exact hlink
    · simp [hclosed] at hopen

theorem eq_newFact_of_open {statement : Statement J} {supersedes : Option Nat}
    (hnone : conflicts facts (newFact ses statement sensitivity supersedes id) = false)
    (hend : ∀ g ∈ facts.rows, g.isOpen = true → g.validTimeEnd = none) {g : FactRow J}
    (hg : g ∈ facts.rows) (hopen : g.isOpen = true) : g.statement.key ≠ statement.key := fun hk =>
  conflicts_eq_false.mp hnone g hg ⟨hopen, hk, overlaps_unending rfl (hend g hg hopen)⟩

theorem Linked.registered (h : Linked σ) {a : RegisterArgs J} {factClaims : List (Nat × Nat)}
    (hr : Registers validate σ ses a sensitivity factClaims) :
    Linked (σ.registered ses a sensitivity factClaims) := by
  refine h.of_rows (x := 0) (fun b key hb => ?_) (fun e he => he) (fun b c hbc => .inl hbc)
    fun f hf => ?_
  · obtain ⟨f, hf, hid, hk⟩ := hb
    exact ⟨f, mem_registered.mpr (.inl hf), hid, hk⟩
  rcases mem_registered.mp hf with hold | rfl
  · exact .inl hold
  refine .inr (.inr ⟨rfl, rfl, fun g hg hopen hk => ?_⟩)
  rcases mem_registered.mp hg with hg | rfl
  · exact absurd hk (eq_newFact_of_open hr.noConflict h.unending hg hopen)
  · rfl

theorem mem_closedFacts_open {now : Int} (hf : f ∈ (closedFacts facts now id state).rows)
    (hopen : f.isOpen = true) : f ∈ facts.rows := by
  rcases mem_closed.mp hf with ⟨hf, -⟩ | ⟨f₀, -, -, rfl⟩
  · exact hf
  · simp [FactRow.isOpen, FactRow.close] at hopen

theorem isOpen_close (state : LifecycleState) (f : FactRow J) :
    (f.close now state).isOpen = false := by
  simp [FactRow.isOpen, FactRow.close]

theorem Linked.corrected (h : Linked σ) {a : CorrectArgs J}
    (hc : Corrects validate σ ses a old kind) : Linked (σ.corrected ses a old kind) := by
  have hold : HasKey σ a.factId old.statement.key := ⟨old, hc.closes.mem, hc.closes.id, rfl⟩
  refine h.of_rows (x := a.factId) (fun b key hb => ?_)
    (fun e he => mem_append_left _ he) (fun b c hbc => ?_) fun f hf => ?_
  · obtain ⟨f, hf, rfl, rfl⟩ := hb
    obtain ⟨g, hg, hid, hk⟩ := mem_replaced_of_mem (factId_close ses.now .superseded)
      (fun _ => rfl) hf
    exact ⟨g, mem_corrected.mpr (.inl hg), hid, hk⟩
  · rcases corrected_corrected.mp hbc with hbc | ⟨rfl, rfl⟩
    · exact .inl hbc
    · exact .inr ⟨rfl, rfl, _, hold, _, mem_corrected.mpr (.inr rfl), rfl, rfl⟩
  rcases mem_corrected.mp hf with hf | rfl
  · rcases mem_closed.mp hf with ⟨hf, -⟩ | ⟨f₀, -, hid, rfl⟩
    · exact .inl hf
    · exact .inr (.inl ⟨isOpen_close _ _ f₀, .inl ⟨σ.facts.next,
        corrected_corrected.mpr (.inr ⟨hid, rfl⟩)⟩⟩)
  refine .inr (.inr ⟨rfl, rfl, fun g hg hopen hk => ?_⟩)
  rcases mem_corrected.mp hg with hg | rfl
  · refine absurd hk (eq_newFact_of_open hc.noConflict (fun g hg hopen => ?_) hg hopen)
    exact h.unending g (mem_closedFacts_open hg hopen) hopen
  · rfl

theorem Linked.retracted (h : Linked σ) (id : Nat) (reason : Option String) :
    Linked (σ.retracted ses id reason) := by
  refine h.of_rows (x := 0) (fun b key hb => ?_) (fun e he => mem_append_left _ he)
    (fun b c hbc => .inl (corrected_retracted.mp hbc)) fun f hf => ?_
  · obtain ⟨f, hf, rfl, rfl⟩ := hb
    exact mem_replaced_of_mem (factId_close ses.now .retired) (fun _ => rfl) hf
  rcases mem_closed.mp hf with ⟨hf, -⟩ | ⟨f₀, -, hid, rfl⟩
  · exact .inl hf
  · refine .inr (.inl ⟨isOpen_close _ _ f₀, .inr ⟨_,
      mem_append_right _ (mem_singleton_self _), ?_, rfl⟩⟩)
    exact hid.symm

theorem Linked.reopened (h : Linked σ) (hr : Reopens σ id old) : Linked (σ.reopened id) := by
  refine h.of_rows (x := 0) (fun b key hb => ?_) (fun e he => he) (fun b c hbc => .inl hbc)
    fun f hf => ?_
  · obtain ⟨f, hf, rfl, rfl⟩ := hb
    exact mem_replaced_of_mem factId_reopen (fun _ => rfl) hf
  rcases mem_reopened.mp hf with ⟨hf, -⟩ | ⟨f₀, hf₀, hid, rfl⟩
  · exact .inl hf
  obtain rfl := Serial.eq_of_key hf₀ hr.mem (hid.trans hr.id.symm)
  refine .inr (.inr ⟨rfl, rfl, fun g hg hopen hk => ?_⟩)
  rcases mem_reopened.mp hg with ⟨hg, hne⟩ | ⟨g₀, -, hid', rfl⟩
  · have hnone := hr.noConflict g hg (by rwa [hid])
    have hover := overlaps_unending (a := f₀.reopen.validTimeRange) (b := g.validTimeRange) rfl
      (h.unending g hg hopen)
    unfold FactRow.excludes at hnone
    rw [hopen, hover, hk] at hnone
    simp [FactRow.isOpen, FactRow.reopen] at hnone
  · exact hid'.trans hid.symm

theorem Linked.step (h : Linked σ) (c : Session × ChainOp J) : Linked (chainStep validate σ c) := by
  obtain ⟨ses, op⟩ := c
  have heff := chainStep_effect validate σ (ses, op)
  generalize chainStep validate σ (ses, op) = σ' at heff
  cases heff with
  | unchanged => exact h
  | registered hr => exact h.registered hr
  | corrected hc => exact h.corrected hc
  | retracted => exact h.retracted _ _
  | reopened hr => exact h.reopened hr

theorem linked_run (validate : J → List String) (claims : List Nat)
    (calls : List (Session × ChainOp J)) :
    Linked (run (chainStep validate) (noFacts claims) calls) := by
  refine run_inv (fun σ c h => h.step c) calls ⟨?_, ?_, ?_, ?_, ?_⟩
  · rintro a b ⟨e, he, -⟩
    cases he
  · rintro a a' b ⟨e, he, -⟩
    cases he
  · exact forall_mem_nil _
  · exact forall_mem_nil _
  · exact forall_mem_nil _

/-! ## Chains after a run -/

/-- The key of a fact. -/
def keyAt (σ : FactStore J) (id : Nat) : Option (String × String × String) :=
  (σ.facts.get? id).map (·.statement.key)

theorem keyAt_of_mem (hf : f ∈ σ.facts.rows) : keyAt σ f.factId = some f.statement.key := by
  unfold keyAt
  rw [Serial.get?_eq_some.mpr ⟨hf, rfl⟩]
  rfl

theorem Linked.keyAt_eq (h : Linked σ) {a : Nat} (hab : Corrected σ a b) :
    keyAt σ a = keyAt σ b := by
  obtain ⟨-, key, ⟨f, hf, rfl, rfl⟩, ⟨g, hg, rfl, hk⟩⟩ := h.edge a b hab
  rw [keyAt_of_mem hf, keyAt_of_mem hg, hk]

theorem Linked.key_of_inChain (h : Linked σ) {g : FactRow J} (hf : f ∈ σ.facts.rows)
    (hg : InChain σ f.factId g) : g.statement.key = f.statement.key := by
  have hkeys := eq_of_eqvGen (f := keyAt σ) (fun a b hab => h.keyAt_eq hab) hg.2
  rw [keyAt_of_mem hf, keyAt_of_mem hg.1] at hkeys
  exact (Option.some.inj hkeys).symm

theorem Linked.exists_last (h : Linked σ) (hf : f ∈ σ.facts.rows) :
    ∃ g, InChain σ f.factId g ∧ ∀ b, ¬ Corrected σ g.factId b := by
  obtain ⟨b, hfb, hend⟩ := exists_end (r := Corrected σ) (n := σ.facts.next)
    (fun a b hab => by
      obtain ⟨hlt, key, -, hb⟩ := h.edge a b hab
      exact ⟨hlt, hb.lt_next⟩) f.factId
  obtain ⟨g, hg, rfl⟩ : ∃ g ∈ σ.facts.rows, g.factId = b := by
    rcases hfb.cases_tail with rfl | ⟨c, -, hcb⟩
    · exact ⟨f, hf, rfl⟩
    · obtain ⟨-, key, -, g, hg, hid, -⟩ := h.edge c b hcb
      exact ⟨g, hg, hid⟩
  exact ⟨g, ⟨hg, Relation.EqvGen.reflTransGen_le_eqvGen _ _ _ hfb⟩, hend⟩

theorem Linked.forest (h : Linked σ) : Forest σ where
  acyclic := not_transGen_self fun a b hab => (h.edge a b hab).1
  predecessor := h.predecessor
  head f hf := by
    by_cases hopen : ∃ g, InChain σ f.factId g ∧ g.isOpen = true
    · obtain ⟨g, hg, hgo⟩ := hopen
      refine .inl ⟨g, ⟨hg, hgo⟩, fun g' ⟨hg', hgo'⟩ => ?_⟩
      refine Serial.eq_of_key hg'.1 hg.1 (h.alone g' hg'.1 g hg.1 hgo' hgo ?_)
      rw [h.key_of_inChain hf hg, h.key_of_inChain hf hg']
    have hclosed : ∀ g, InChain σ f.factId g → g.isOpen = false := fun g hg =>
      Bool.eq_false_iff.mpr fun hgo => hopen ⟨g, hg, hgo⟩
    obtain ⟨g, hg, hlast⟩ := h.exists_last hf
    refine .inr ⟨hclosed, g, hg, ?_⟩
    rcases h.closed g hg.1 (hclosed g hg) with ⟨b, hb⟩ | hr
    · exact absurd hb (hlast b)
    · exact hr

/-- A fact that has a successor is superseded or retracted, and has no other successor. -/
structure Simple (σ : FactStore J) : Prop where
  one : OneSuccessor σ
  superseded : ∀ f ∈ σ.facts.rows, ∀ b, Corrected σ f.factId b → f.supersededAt ≠ none

theorem Simple.step (h : Simple σ) (hl : Linked σ) {c : Session × ChainOp J}
    (hc : ReopensLast σ c) : Simple (chainStep validate σ c) := by
  obtain ⟨ses, op⟩ := c
  have heff := chainStep_effect validate σ (ses, op)
  generalize chainStep validate σ (ses, op) = σ' at heff
  cases heff with
  | unchanged => exact h
  | registered hr =>
    refine ⟨h.one, fun f hf b hb => ?_⟩
    rcases mem_registered.mp hf with hf | rfl
    · exact h.superseded f hf b hb
    · obtain ⟨-, key, ha, -⟩ := hl.edge _ b hb
      exact absurd ha.lt_next (Nat.lt_irrefl _)
  | @corrected a old kind hcor =>
    have hfresh : ∀ b, ¬ Corrected σ a.factId b := fun b hb =>
      h.superseded old hcor.closes.mem b (by rwa [hcor.closes.id]) hcor.closes.notSuperseded
    have hnext : a.factId < σ.facts.next := by
      rw [← hcor.closes.id]
      exact σ.facts.below old hcor.closes.mem
    refine ⟨fun x b b' hb hb' => ?_, fun f hf b hb => ?_⟩
    · rcases corrected_corrected.mp hb with hb | ⟨rfl, rfl⟩ <;>
        rcases corrected_corrected.mp hb' with hb' | ⟨hx, rfl⟩
      · exact h.one x b b' hb hb'
      · exact absurd (hx ▸ hb) (hfresh b)
      · exact absurd hb' (hfresh b')
      · rfl
    rcases mem_corrected.mp hf with hf | rfl
    · rcases mem_closed.mp hf with ⟨hf, hne⟩ | ⟨f₀, -, -, rfl⟩
      · rcases corrected_corrected.mp hb with hb | ⟨hid, -⟩
        · exact h.superseded f hf b hb
        · exact absurd hid hne
      · exact Option.some_ne_none _
    · rcases corrected_corrected.mp hb with hb | ⟨hid, -⟩
      · obtain ⟨-, key, ha, -⟩ := hl.edge _ b hb
        exact absurd ha.lt_next (Nat.lt_irrefl _)
      · exact absurd hid (Nat.ne_of_gt hnext)
  | @retracted id reason old hr =>
    refine ⟨fun x b b' hb hb' => h.one x b b' (corrected_retracted.mp hb)
      (corrected_retracted.mp hb'), fun f hf b hb => ?_⟩
    rcases mem_closed.mp hf with ⟨hf, -⟩ | ⟨f₀, -, -, rfl⟩
    · exact h.superseded f hf b (corrected_retracted.mp hb)
    · exact Option.some_ne_none _
  | @reopened id reason old hr =>
    refine ⟨h.one, fun f hf b hb => ?_⟩
    rcases mem_reopened.mp hf with ⟨hf, -⟩ | ⟨f₀, -, hid, rfl⟩
    · exact h.superseded f hf b hb
    · obtain ⟨e, he, hpred, hsucc⟩ := hb
      cases (hc e he (hpred.trans hid)).symm.trans hsucc

/-- **The corrections of a fact form a chain.** After every run the edges have no cycle, no fact has
two predecessors, and the versions of a fact have exactly one that is neither superseded nor
retracted, or none and the fact was retracted. If no fact that has a successor was reopened, no fact
has two successors either. -/
theorem correction_chains (validate : J → List String) (claims : List Nat)
    (calls : List (Session × ChainOp J)) :
    Forest (run (chainStep validate) (noFacts claims) calls) ∧
      (Along (chainStep validate) ReopensLast (noFacts claims) calls →
        OneSuccessor (run (chainStep validate) (noFacts claims) calls)) := by
  refine ⟨(linked_run validate claims calls).forest, fun halong => ?_⟩
  have hstart : Linked (noFacts (J := J) claims) := linked_run validate claims []
  refine (run_induct (I := fun σ => Linked σ ∧ Simple σ) (fun σ c h hc => ⟨h.1.step c, ?_⟩) _ calls
    ⟨hstart, ?_, forall_mem_nil _⟩ halong).2.one
  · exact h.2.step h.1 hc
  · rintro a b b' ⟨e, he, -⟩
    cases he

/-- A call by the owner, at the time `now`. -/
def ownerCall (op : ChainOp Unit) : Session × ChainOp Unit :=
  (⟨"a", now, Serial.empty, false⟩, op)

def correctDoor (id : Nat) : Session × ChainOp Unit :=
  ownerCall now (.call (.correct ⟨id, some "closed", none, none, none, some "correction"⟩))

end

def correctedAndRetracted : List (Session × ChainOp Unit) :=
  [ownerCall 1 (.call (doorIs "open")),
    correctDoor 2 1,
    ownerCall 3 (.call (.retract 2 (some "wrong")))]

/-- The retraction is undone, and the fact corrected again. -/
theorem correction_chains_reopened :
    Along (chainStep fun _ => []) ReopensLast (noFacts []) (correctedAndRetracted ++
        [ownerCall 4 (.reopen (some "fact") 2 (some "right after all")), correctDoor 5 2]) ∧
      OneSuccessor (run (chainStep fun _ => []) (noFacts []) (correctedAndRetracted ++
        [ownerCall 4 (.reopen (some "fact") 2 (some "right after all")), correctDoor 5 2])) := by
  have halong : Along (chainStep fun _ => []) ReopensLast (noFacts []) (correctedAndRetracted ++
      [ownerCall 4 (.reopen (some "fact") 2 (some "right after all")), correctDoor 5 2]) := by
    refine ⟨trivial, trivial, trivial, ?_, trivial, trivial⟩
    change ∀ e ∈ (run (chainStep fun _ => []) (noFacts []) correctedAndRetracted).edges,
      e.predecessorId = 2 → e.successorId = none
    decide
  exact ⟨halong, (correction_chains (fun _ => []) [] _).2 halong⟩

/-- The first version is reopened instead, and then has two successors. -/
theorem reopened_branches :
    Corrected (run (chainStep fun _ => []) (noFacts []) (correctedAndRetracted ++
        [ownerCall 4 (.reopen (some "fact") 1 (some "it was right")), correctDoor 5 1])) 1 2 ∧
      Corrected (run (chainStep fun _ => []) (noFacts []) (correctedAndRetracted ++
        [ownerCall 4 (.reopen (some "fact") 1 (some "it was right")), correctDoor 5 1])) 1 3 := by
  unfold Corrected
  decide

end MaluDb.Fact
