import MaluDb.Fact.Spec

/-!
# What the database believed at an earlier time

`fact_as_of(t)` asks for the facts whose transaction time contains `t`. A fact that is corrected or
retracted later keeps its open transaction time, but its `lifecycle_state`, on which `fact_as_of`
selects, is overwritten.
-/

namespace MaluDb.Fact

open MaluDb.Lib MaluDb.Grant List

variable {J : Type} {validate : J → List String} {σ σ' : FactStore J}

/-! ## Histories -/

def FactRow.current (f : FactRow J) : Bool := f.isOpen && f.transactionTimeEnd.isNone

def currentFacts (σ : FactStore J) (ses : Session) : List (FactRow J) :=
  σ.facts.rows.filter fun f => ses.sees f.ownerSchema f.object && f.current

/-- The state after the calls of a history up to time `t`. -/
def stateAt (validate : J → List String) (claims : List Nat) (hist : List (Session × FactOp J))
    (t : Int) : FactStore J :=
  run (factStep validate) (noFacts claims) (hist.filter fun c => decide (c.1.now ≤ t))

/-- The calls of a history after `t` and up to `s`. -/
def between (hist : List (Session × FactOp J)) (t s : Int) : List (Session × FactOp J) :=
  hist.filter fun c => decide (t < c.1.now) && decide (c.1.now ≤ s)

/-- The call closes the fact `id`. -/
def Ends (validate : J → List String) (σ : FactStore J) (c : Session × FactOp J) (id : Nat) :
    Prop :=
  match c.2 with
  | .register _ => False
  | .correct a => a.factId = id ∧ ∃ old kind, Corrects validate σ c.1 a old kind
  | .retract i reason => i = id ∧ ∃ old, Retracts σ c.1 i reason old

section

variable {hist : List (Session × FactOp J)} (hsorted : hist.Pairwise fun a b => a.1.now ≤ b.1.now)
  {t s : Int} (hts : t ≤ s)
include hsorted hts

theorem filter_between :
    hist.filter (fun c => decide (c.1.now ≤ s)) =
      hist.filter (fun c => decide (c.1.now ≤ t)) ++ between hist t s := by
  induction hist with
  | nil => rfl
  | cons c hist ih =>
    have ih := ih (pairwise_cons.mp hsorted).2
    have hle := (pairwise_cons.mp hsorted).1
    unfold between at ih ⊢
    by_cases hc : c.1.now ≤ t
    · have hcs : c.1.now ≤ s := by omega
      simp only [filter_cons, hc, hcs, Int.not_lt.mpr hc, decide_true, decide_false,
        Bool.false_and, if_true, cons_append, ih, Bool.false_eq_true, if_false]
    -- no later call is up to `t` either
    have hnone : hist.filter (fun c => decide (c.1.now ≤ t)) = [] :=
      filter_eq_nil_iff.mpr fun c' hc' => by
        have := hle c' hc'
        simp only [decide_eq_true_eq]
        omega
    rw [hnone, nil_append] at ih
    simp only [filter_cons, hc, Int.not_le.mp hc, decide_true, decide_false, Bool.true_and,
      hnone, ih, nil_append, Bool.false_eq_true, if_false]

theorem stateAt_eq_run {claims : List Nat} :
    stateAt validate claims hist s =
      run (factStep validate) (stateAt validate claims hist t) (between hist t s) := by
  unfold stateAt
  rw [filter_between hsorted hts, run_append]

end

/-! ## What a call does to the facts -/

inductive Effect (validate : J → List String) (σ : FactStore J) (c : Session × FactOp J) :
    FactStore J → Prop
  | raised : Effect validate σ c σ
  | registered {a : RegisterArgs J} {sensitivity : Sensitivity} {factClaims : List (Nat × Nat)}
    (hop : c.2 = .register a) :
    Effect validate σ c (σ.registered c.1 a sensitivity factClaims)
  | corrected {a : CorrectArgs J} {old : FactRow J} {kind : SupersessionKind}
    (hop : c.2 = .correct a) (h : Corrects validate σ c.1 a old kind) :
    Effect validate σ c (σ.corrected c.1 a old kind)
  | retracted {id : Nat} {reason : Option String} {old : FactRow J} (hop : c.2 = .retract id reason)
    (h : Retracts σ c.1 id reason old) : Effect validate σ c (σ.retracted c.1 id reason)

theorem factStep_effect (validate : J → List String) (σ : FactStore J) (c : Session × FactOp J) :
    Effect validate σ c (factStep validate σ c) := by
  obtain ⟨ses, op⟩ := c
  unfold factStep
  cases h : factCall validate σ ses op with
  | error e => exact .raised
  | ok σ' =>
    rw [commitOr_ok]
    cases op with
    | register a =>
      obtain ⟨_, _, -, rfl⟩ := registerFact_eq_ok.mp h
      exact .registered rfl
    | correct a =>
      obtain ⟨_, _, hc, rfl⟩ := correctFact_eq_ok.mp h
      exact .corrected rfl hc
    | retract id reason =>
      obtain ⟨_, hr, rfl⟩ := retractFact_eq_ok.mp h
      exact .retracted rfl hr

def Closed (σ : FactStore J) (id : Nat) : Prop :=
  ∃ f ∈ σ.facts.rows, f.factId = id ∧ f.supersededAt ≠ none

variable {c : Session × FactOp J} {id : Nat}

theorem Ends.closed (h : Ends validate σ c id) : Closed (factStep validate σ c) id := by
  obtain ⟨ses, op⟩ := c
  unfold Ends at h
  split at h
  · exact h.elim
  · rename_i a hop
    obtain ⟨rfl, old, kind, hc⟩ := h
    cases hop
    rw [factStep, factCall, correctFact_eq_ok.mpr ⟨old, kind, hc, rfl⟩, commitOr_ok]
    exact ⟨old.close ses.now .superseded, mem_corrected.mpr (.inl (mem_closedFacts.mpr
      ⟨old, hc.closes.mem, if_pos hc.closes.id⟩)), hc.closes.id, Option.some_ne_none _⟩
  · rename_i i reason hop
    obtain ⟨rfl, old, hr⟩ := h
    cases hop
    rw [factStep, factCall, retractFact_eq_ok.mpr ⟨old, hr, rfl⟩, commitOr_ok]
    exact ⟨old.close ses.now .retired, mem_closedFacts.mpr
      ⟨old, hr.closes.mem, if_pos hr.closes.id⟩, hr.closes.id, Option.some_ne_none _⟩

theorem Effect.closed (heff : Effect validate σ c σ') (h : Closed σ id) : Closed σ' id := by
  obtain ⟨f, hf, hid, hs⟩ := h
  have hclosed : ∀ i state, ∃ f ∈ (closedFacts σ.facts c.1.now i state).rows,
      f.factId = id ∧ f.supersededAt ≠ none := by
    intro i state
    by_cases hi : f.factId = i
    · exact ⟨_, mem_closedFacts.mpr ⟨f, hf, if_pos hi⟩, hid, Option.some_ne_none _⟩
    · exact ⟨f, mem_closedFacts.mpr ⟨f, hf, if_neg hi⟩, hid, hs⟩
  cases heff with
  | raised => exact ⟨f, hf, hid, hs⟩
  | registered => exact ⟨f, mem_registered.mpr (.inl hf), hid, hs⟩
  | corrected =>
    obtain ⟨g, hg, h⟩ := hclosed _ .superseded
    exact ⟨g, mem_corrected.mpr (.inl hg), h⟩
  | retracted => exact hclosed _ .retired

theorem Effect.mem (h : Effect validate σ c σ') {f : FactRow J} (hf : f ∈ σ'.facts.rows) :
    f ∈ σ.facts.rows ∨ (f.lifecycleState ≠ .active ∧
        ∃ f₀ ∈ σ.facts.rows, f.transactionTimeStart = f₀.transactionTimeStart) ∨
      ∃ statement sensitivity supersedes,
        f = newFact c.1 statement sensitivity supersedes σ.facts.next := by
  have hclosed : ∀ {i state}, state ≠ LifecycleState.active →
      f ∈ (closedFacts σ.facts c.1.now i state).rows → f ∈ σ.facts.rows ∨
        (f.lifecycleState ≠ .active ∧
          ∃ f₀ ∈ σ.facts.rows, f.transactionTimeStart = f₀.transactionTimeStart) := by
    intro i state hstate hf
    obtain ⟨f₀, hf₀, rfl⟩ := mem_closedFacts.mp hf
    split
    · exact .inr ⟨hstate, f₀, hf₀, rfl⟩
    · exact .inl hf₀
  cases h with
  | raised => exact .inl hf
  | registered =>
    rcases mem_registered.mp hf with hf | hf
    · exact .inl hf
    · exact .inr (.inr ⟨_, _, _, hf⟩)
  | corrected =>
    rcases mem_corrected.mp hf with hf | hf
    · exact or_assoc.mp (.inl (hclosed (by decide) hf))
    · exact .inr (.inr ⟨_, _, _, hf⟩)
  | retracted => exact or_assoc.mp (.inl (hclosed (by decide) hf))

theorem Effect.keeps (h : Effect validate σ c σ') {f : FactRow J} (hf : f ∈ σ.facts.rows)
    (hends : ¬ Ends validate σ c f.factId) : f ∈ σ'.facts.rows := by
  cases h with
  | raised => exact hf
  | registered => exact mem_registered.mpr (.inl hf)
  | @corrected a old kind hop hc =>
    refine mem_corrected.mpr (.inl (mem_closedFacts.mpr ⟨f, hf, if_neg fun hid => hends ?_⟩))
    unfold Ends
    rw [hop]
    exact ⟨hid.symm, old, kind, hc⟩
  | @retracted i reason old hop hr =>
    refine mem_closedFacts.mpr ⟨f, hf, if_neg fun hid => hends ?_⟩
    unfold Ends
    rw [hop]
    exact ⟨hid.symm, old, hr⟩

/-! ## Active facts -/

def Fresh (σ : FactStore J) : Prop :=
  ∀ f ∈ σ.facts.rows, f.lifecycleState = .active → f.supersededAt = none ∧
    f.transactionTimeEnd = none ∧ f.validTimeStart = some f.transactionTimeStart ∧
      f.validTimeEnd = none

theorem Fresh.step (h : Fresh σ) (c : Session × FactOp J) : Fresh (factStep validate σ c) := by
  intro f hf ha
  rcases (factStep_effect validate σ c).mem hf with hf | ⟨hna, -⟩ | ⟨_, _, _, rfl⟩
  · exact h f hf ha
  · exact absurd ha hna
  · exact ⟨rfl, rfl, rfl, rfl⟩

theorem mem_currentFacts (h : Fresh σ) {ses : Session} {f : FactRow J} :
    f ∈ currentFacts σ ses ↔
      f ∈ σ.facts.rows ∧ ses.sees f.ownerSchema f.object = true ∧ f.lifecycleState = .active := by
  simp only [currentFacts, mem_filter, FactRow.current, FactRow.isOpen, Bool.and_eq_true,
    beq_iff_eq, Option.isNone_iff_eq_none]
  constructor
  · rintro ⟨hf, hs, ⟨ha, -⟩, -⟩
    exact ⟨hf, hs, ha⟩
  · rintro ⟨hf, hs, ha⟩
    obtain ⟨h₁, h₂, -, -⟩ := h f hf ha
    exact ⟨hf, hs, ⟨ha, h₁⟩, h₂⟩

theorem mem_factAsOf (h : Fresh σ) {ses : Session} {t : Int} {f : FactRow J} :
    f ∈ factAsOf σ ses t ↔ f ∈ σ.facts.rows ∧ ses.sees f.ownerSchema f.object = true ∧
      f.lifecycleState = .active ∧ f.transactionTimeStart ≤ t := by
  simp only [factAsOf, mem_filter, Bool.and_eq_true, beq_iff_eq, decide_eq_true_eq]
  constructor
  · rintro ⟨hf, ⟨⟨⟨hs, -⟩, ht⟩, -⟩, ha⟩
    exact ⟨hf, hs, ha, ht⟩
  rintro ⟨hf, hs, ha, ht⟩
  obtain ⟨-, h₂, h₃, h₄⟩ := h f hf ha
  refine ⟨hf, ⟨⟨⟨hs, ?_⟩, ht⟩, by rw [h₂]; rfl⟩, ha⟩
  rw [h₃, h₄]
  simpa [isValidAt] using ht

theorem stateAt_started (validate : J → List String) (claims : List Nat)
    (hist : List (Session × FactOp J)) (t : Int) :
    Fresh (stateAt validate claims hist t) ∧
      ∀ f ∈ (stateAt validate claims hist t).facts.rows, f.transactionTimeStart ≤ t := by
  refine run_induct (P := fun _ c => c.1.now ≤ t)
    (I := fun σ => Fresh σ ∧ ∀ f ∈ σ.facts.rows, f.transactionTimeStart ≤ t) ?_ _ _ ?_ ?_
  · rintro σ c ⟨hfresh, hle⟩ hc
    refine ⟨hfresh.step c, fun f hf => ?_⟩
    rcases (factStep_effect validate σ c).mem hf with hf | ⟨-, f₀, hf₀, heq⟩ | ⟨_, _, _, rfl⟩
    · exact hle f hf
    · rw [heq]
      exact hle f₀ hf₀
    · exact hc
  · exact ⟨forall_mem_nil _, forall_mem_nil _⟩
  · exact along_of_forall_mem _ _ fun _ c hc => by simpa using (mem_filter.mp hc).2

/-! ## Later calls -/

variable {q : Session} {t : Int} {C : List (FactRow J)}

/-- `C` is the active facts, visible to `q`, that began by `t`. -/
structure Remembers (σ : FactStore J) (q : Session) (t : Int) (C : List (FactRow J)) : Prop where
  fresh : Fresh σ
  mem : ∀ f, f ∈ C ↔ f ∈ σ.facts.rows ∧ q.sees f.ownerSchema f.object = true ∧
    f.lifecycleState = .active ∧ f.transactionTimeStart ≤ t

theorem Remembers.step (h : Remembers σ q t C) (hc : t < c.1.now)
    (hends : ∀ f ∈ C, ¬ Ends validate σ c f.factId) :
    Remembers (factStep validate σ c) q t C := by
  have heff := factStep_effect validate σ c
  refine ⟨h.fresh.step c, fun f => ⟨fun hf => ?_, fun ⟨hf, hs, ha, hle⟩ => ?_⟩⟩
  · obtain ⟨hmem, hrest⟩ := (h.mem f).mp hf
    exact ⟨heff.keeps hmem (hends f hf), hrest⟩
  rcases heff.mem hf with hf | ⟨hna, -⟩ | ⟨_, _, _, rfl⟩
  · exact (h.mem f).mpr ⟨hf, hs, ha, hle⟩
  · exact absurd ha hna
  · exact absurd hle (Int.not_le.mpr hc)

/-- **Later calls leave the answer for `t` alone exactly if they close none of its facts.** -/
theorem remembers_run_iff : ∀ {calls : List (Session × FactOp J)} {σ : FactStore J},
    (∀ c ∈ calls, t < c.1.now) → Remembers σ q t C →
      (Remembers (run (factStep validate) σ calls) q t C ↔
        Along (factStep validate) (fun σ c => ∀ f ∈ C, ¬ Ends validate σ c f.factId) σ calls)
  | [], σ, _, h => by simpa [Along] using h
  | c :: calls, σ, hlater, h => by
    rw [run_cons]
    constructor
    · intro hend
      -- a fact of `C` that this call closes is closed at the end and active there
      have hends : ∀ f ∈ C, ¬ Ends validate σ c f.factId := by
        intro f hf he
        obtain ⟨g, hg, hid, hs⟩ := run_inv (I := fun σ => Closed σ f.factId)
          (fun σ c h => (factStep_effect validate σ c).closed h) calls he.closed
        obtain ⟨hmem, -, ha, -⟩ := (hend.mem f).mp hf
        obtain rfl := Serial.eq_of_key hg hmem hid
        exact hs (hend.fresh g hg ha).1
      exact ⟨hends, (remembers_run_iff (fun c' hc' => hlater c' (mem_cons_of_mem c hc'))
        (h.step (hlater c mem_cons_self) hends)).mp hend⟩
    · rintro ⟨hends, hrest⟩
      exact (remembers_run_iff (fun c' hc' => hlater c' (mem_cons_of_mem c hc'))
        (h.step (hlater c mem_cons_self) hends)).mpr hrest

/-- **`fact_as_of(t)` at a later time returns the facts that were current at `t`** exactly if no
call in between closes one of them. -/
theorem factAsOf_eq_current_iff (validate : J → List String) (claims : List Nat)
    (hist : List (Session × FactOp J)) (hsorted : hist.Pairwise fun a b => a.1.now ≤ b.1.now)
    (q : Session) (t s : Int) (hts : t ≤ s) :
    (∀ f, f ∈ factAsOf (stateAt validate claims hist s) q t ↔
        f ∈ currentFacts (stateAt validate claims hist t) q) ↔
      Along (factStep validate)
        (fun σ c => ∀ f ∈ currentFacts (stateAt validate claims hist t) q,
          ¬ Ends validate σ c f.factId)
        (stateAt validate claims hist t) (between hist t s) := by
  obtain ⟨hfresh, hle⟩ := stateAt_started validate claims hist t
  obtain ⟨hfresh', -⟩ := stateAt_started validate claims hist s
  have hstart : Remembers (stateAt validate claims hist t) q t
      (currentFacts (stateAt validate claims hist t) q) := by
    refine ⟨hfresh, fun f => (mem_currentFacts hfresh).trans ⟨?_, ?_⟩⟩
    · rintro ⟨hf, hs, ha⟩
      exact ⟨hf, hs, ha, hle f hf⟩
    · rintro ⟨hf, hs, ha, -⟩
      exact ⟨hf, hs, ha⟩
  have hlater : ∀ c ∈ between hist t s, t < c.1.now := fun c hc => by
    have := (mem_filter.mp hc).2
    simp only [Bool.and_eq_true, decide_eq_true_eq] at this
    exact this.1
  rw [← remembers_run_iff hlater hstart, ← stateAt_eq_run hsorted hts]
  constructor
  · intro h
    exact ⟨hfresh', fun f => (h f).symm.trans (mem_factAsOf hfresh')⟩
  · intro h f
    exact (mem_factAsOf hfresh').trans (h.mem f).symm

/-- A session of schema `a` at a time. -/
def sessionOfA (now : Int) : Session := ⟨"a", now, Serial.empty, false⟩

def correctedOnce : List (Session × FactOp Unit) :=
  [(sessionOfA 1, .register ⟨none, ⟨some "door", some "is", none, some "open", none, none, none,
      none, none⟩, some "internal"⟩),
    (sessionOfA 2, .correct ⟨1, some "shut", none, none, none, some "correction"⟩)]

theorem factAsOf_eq_current_iff_correctedOnce :
    (∀ f, f ∈ factAsOf (stateAt (fun _ => []) [] correctedOnce 2) (sessionOfA 2) 1 ↔
        f ∈ currentFacts (stateAt (fun _ => []) [] correctedOnce 1) (sessionOfA 2)) ↔
      Along (factStep fun _ => [])
        (fun σ c => ∀ f ∈ currentFacts (stateAt (fun _ => []) [] correctedOnce 1) (sessionOfA 2),
          ¬ Ends (fun _ => []) σ c f.factId)
        (stateAt (fun _ => []) [] correctedOnce 1) (between correctedOnce 1 2) :=
  factAsOf_eq_current_iff _ [] correctedOnce (by decide) (sessionOfA 2) 1 2 (by decide)

/-- The fact that was current at 1 is not in the answer for 1 once it has been corrected. -/
theorem correction_rewrites_history :
    (currentFacts (stateAt (fun _ => []) [] correctedOnce 1) (sessionOfA 2)).map FactRow.factId =
        [1] ∧
      factAsOf (stateAt (fun _ => []) [] correctedOnce 2) (sessionOfA 2) 1 = [] := by
  decide

end MaluDb.Fact
