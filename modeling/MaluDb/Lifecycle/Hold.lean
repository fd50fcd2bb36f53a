import MaluDb.Fact.Spec
import MaluDb.Lifecycle.Model

/-!
# What a legal hold protects

`apply_lifecycle_state` looks at the hold rows the session sees; `tombstone_source_package` and
`forget_document` look at the column of the source package; `retract_fact` and `forget_chunk` look
at neither.

* `Effect` says what a call can do to the store, with the checks it has passed.
* `HeldPackage`: a package with the column set is there with its content. It may be stamped
  `tombstoned_at`, which is how `tombstone_source_package` treats a package on hold.
-/

namespace MaluDb.Lifecycle

open MaluDb.Lib MaluDb.Grant MaluDb.Fact List Serial

variable {J : Type} {cat : Catalog} {s s' : LifecycleStore J} {ses : Session}

/-! ## What a call does -/

def rowsWithState (t : Serial (GovernedRow J) GovernedRow.id) (id : Nat) (st : LifecycleState) :
    Serial (GovernedRow J) GovernedRow.id :=
  t.update (·.id == id) (GovernedRow.withState st) (id_withState st)

def factsWithState (facts : Serial (FactRow J) FactRow.factId) (id : Nat) (st : LifecycleState) :
    Serial (FactRow J) FactRow.factId :=
  facts.update (·.factId == id) (factWithState st) (factId_factWithState st)

/-- A state that may be set on an object although it is on a hold that the session sees. -/
def Permitted (s : LifecycleStore J) (ses : Session) (o : Object) (st : LifecycleState) : Prop :=
  isUnderLegalHold s.holds ses o = true → st ∉ finalStates

inductive Effect (s : LifecycleStore J) : Session × LifecycleOp → LifecycleStore J → Prop
  | unchanged {c : Session × LifecycleOp} : Effect s c s
  | fact {ses : Session} {type state reason : Option String} {id : Nat} {st : LifecycleState}
      (htype : type.bind ObjectType.ofName? = some .fact) (hst : Permitted s ses ⟨.fact, id⟩ st) :
      Effect s (ses, .applyLifecycleState type id state reason)
        { s with facts := { s.facts with facts := factsWithState s.facts.facts id st } }
  | memory {ses : Session} {type state reason : Option String} {id : Nat} {st : LifecycleState}
      (htype : type.bind ObjectType.ofName? = some .memory)
      (hst : Permitted s ses ⟨.memory, id⟩ st) :
      Effect s (ses, .applyLifecycleState type id state reason)
        { s with memories := rowsWithState s.memories id st }
  | episode {ses : Session} {type state reason : Option String} {id : Nat} {st : LifecycleState}
      (htype : type.bind ObjectType.ofName? = some .episodeObject)
      (hst : Permitted s ses ⟨.episodeObject, id⟩ st) :
      Effect s (ses, .applyLifecycleState type id state reason)
        { s with episodes := rowsWithState s.episodes id st }
  | retracted {ses : Session} {id : Nat} {reason : Option String} :
      Effect s (ses, .retractFact id reason) { s with facts := s.facts.retracted ses id reason }
  | tombstoned {ses : Session} {id : Nat} {reason : Option String}
      {archives : List VerbatimArchive} :
      Effect s (ses, .tombstoneSourcePackage id reason)
        { s with
          packages := s.packages.update (·.sourcePackageId == id)
            (SourcePackage.tombstoned ses.now) (sourcePackageId_tombstoned ses.now)
          archives }
  | documentForgotten {ses : Session} {schema : String} {id : Nat} :
      Effect s (ses, .forgetDocument schema id) (deleteDocument s schema id)
  | packageForgotten {ses : Session} {schema : String} {id package : Nat}
      (hfree : packageOnHold s schema package = false) :
      Effect s (ses, .forgetDocument schema id)
        (deletePackage (deleteDocument s schema id) schema package).1
  | chunks {c : Session × LifecycleOp} {chunks : Serial VectorChunk VectorChunk.chunkId} :
      Effect s c { s with chunks }
  | holds {c : Session × LifecycleOp} {holds : Serial LegalHold LegalHold.holdId} :
      Effect s c { s with holds }

variable {state type reason : Option String} {st : LifecycleState} {o : Object} {id id' : Nat}
  {schema : String} {c : Session × LifecycleOp}

theorem checkState_eq_ok {table : String} {allowed : LifecycleState → Bool}
    (h : checkState table allowed state = .ok st) : state = some st.name := by
  unfold checkState at h
  split at h
  · cases h
  split at h
  · cases h
  rename_i hfind
  cases h
  have hname := List.find?_some (Option.eq_some_of_filter_eq_some hfind)
  rw [eq_of_beq hname]

theorem permitted_of_not_blocked (h : ¬ (isUnderLegalHold s.holds ses o &&
      (finalStates.map fun st => some st.name).contains (some st.name)) = true) :
    Permitted s ses o st := by
  intro hheld hfinal
  refine h ?_
  rw [hheld, Bool.true_and, contains_iff_mem]
  exact mem_map_of_mem hfinal

theorem setState_eq_ok {table : String} {type : ObjectType}
    {t t' : Serial (GovernedRow J) GovernedRow.id}
    (h : setState table type t ses id state = .ok t') :
    t' = t ∨ ∃ st, state = some st.name ∧ t' = rowsWithState t id st := by
  unfold setState at h
  split at h
  · cases h
    exact .inl rfl
  split at h
  · cases h
  · obtain ⟨st, hst, rfl⟩ := map_eq_ok.mp h
    exact .inr ⟨st, checkState_eq_ok hst, rfl⟩

theorem setFactState_eq_ok {facts facts' : Serial (FactRow J) FactRow.factId}
    (h : setFactState facts ses id state = .ok facts') :
    facts' = facts ∨ ∃ st, state = some st.name ∧ facts' = factsWithState facts id st := by
  unfold setFactState at h
  split at h
  · cases h
    exact .inl rfl
  split at h
  · cases h
  obtain ⟨st, hst, h⟩ := bind_eq_ok.mp h
  split at h
  · cases h
  · cases h
    exact .inr ⟨st, checkState_eq_ok hst, rfl⟩

theorem applyLifecycleState_effect (h : applyLifecycleState s ses type id state = .ok s') :
    Effect s (ses, .applyLifecycleState type id state reason) s' := by
  unfold applyLifecycleState at h
  dsimp only at h
  split at h
  · rename_i htype
    split at h
    · cases h
    rename_i hfree
    obtain ⟨facts, hset, rfl⟩ := map_eq_ok.mp h
    rcases setFactState_eq_ok hset with rfl | ⟨st, rfl, rfl⟩
    · exact .unchanged
    · exact .fact htype (permitted_of_not_blocked hfree)
  · rename_i htype
    split at h
    · cases h
    rename_i hfree
    obtain ⟨memories, hset, rfl⟩ := map_eq_ok.mp h
    rcases setState_eq_ok hset with rfl | ⟨st, rfl, rfl⟩
    · exact .unchanged
    · exact .memory htype (permitted_of_not_blocked hfree)
  · rename_i htype
    split at h
    · cases h
    rename_i hfree
    obtain ⟨episodes, hset, rfl⟩ := map_eq_ok.mp h
    rcases setState_eq_ok hset with rfl | ⟨st, rfl, rfl⟩
    · exact .unchanged
    · exact .episode htype (permitted_of_not_blocked hfree)
  · cases h

theorem tombstoneSourcePackage_effect (h : tombstoneSourcePackage s ses id reason = .ok s') :
    Effect s (ses, .tombstoneSourcePackage id reason) s' := by
  unfold tombstoneSourcePackage at h
  split at h
  · cases h
  split at h
  · cases h
  split at h
  · cases h
  · cases h
    exact .tombstoned

theorem forgetDocument_effect {result : Forgotten}
    (h : forgetDocument cat s ses schema id = .ok (s', result)) :
    Effect s (ses, .forgetDocument schema id) s' := by
  unfold forgetDocument at h
  obtain ⟨_, -, h⟩ := bind_eq_ok.mp h
  split at h
  · cases h
  rename_i d hd
  split at h
  · cases h
  rename_i hfree
  cases hp : d.sourcePackageId with
  | none =>
    rw [hp] at h
    cases h
    exact .documentForgotten
  | some package =>
    rw [hp] at h hfree
    obtain rfl : (deletePackage (deleteDocument s schema id) schema package).1 = s' :=
      congrArg Prod.fst (Except.ok.inj h)
    exact .packageForgotten (Bool.eq_false_iff.mpr hfree)

theorem forgetChunk_effect {result : Bool}
    (h : forgetChunk cat s ses schema id = .ok (s', result)) :
    Effect s (ses, .forgetChunk schema id) s' := by
  unfold forgetChunk at h
  obtain ⟨_, -, h⟩ := map_eq_ok.mp h
  dsimp only at h
  split at h
  · cases h
    exact .chunks
  · cases h
    exact .unchanged

theorem legalHoldApply_effect {n : Nat} (h : legalHoldApply s ses type id reason = .ok (s', n)) :
    Effect s c s' := by
  unfold legalHoldApply at h
  split at h
  · cases h
  split at h
  · cases h
  split at h
  · cases h
  · cases h
    exact .holds

theorem legalHoldRelease_effect (h : legalHoldRelease s ses id reason = .ok s') :
    Effect s c s' := by
  unfold legalHoldRelease at h
  dsimp only at h
  split at h
  · cases h
  split at h
  · cases h
    exact .holds
  · cases h

/-- **What a call does**, one case for each function. -/
theorem lifecycleStep_effect (cat : Catalog) (s : LifecycleStore J) (c : Session × LifecycleOp) :
    Effect s c (lifecycleStep cat s c) := by
  obtain ⟨ses, op⟩ := c
  unfold lifecycleStep
  cases h : lifecycleCall cat s ses op with
  | error e => exact .unchanged
  | ok s' =>
    rw [commitOr_ok]
    cases op with
    | applyLifecycleState type id state reason => exact applyLifecycleState_effect h
    | retractFact id reason =>
      obtain ⟨facts, hfacts, rfl⟩ := map_eq_ok.mp h
      cases hret : retractFact s.facts ses id reason with
      | error e =>
        rw [hret] at hfacts
        cases hfacts
      | ok facts' =>
        rw [hret] at hfacts
        cases hfacts
        obtain ⟨-, -, rfl⟩ := retractFact_eq_ok.mp hret
        exact .retracted
    | tombstoneSourcePackage id reason => exact tombstoneSourcePackage_effect h
    | forgetDocument schema id =>
      obtain ⟨result, h⟩ := map_fst_eq_ok.mp h
      exact forgetDocument_effect h
    | forgetChunk schema id =>
      obtain ⟨result, h⟩ := map_fst_eq_ok.mp h
      exact forgetChunk_effect h
    | legalHoldApply type id reason =>
      obtain ⟨holdId, h⟩ := map_fst_eq_ok.mp h
      exact legalHoldApply_effect h
    | legalHoldRelease id reason => exact legalHoldRelease_effect h

/-! ## Source packages -/

/-- The content columns. -/
def SourcePackage.content (p : SourcePackage J) :
    Option (List UInt8) × Option String × Option J :=
  (p.contentBytes, p.contentText, p.contentJsonb)

/-- The package is there, on hold by its column, with a content. -/
def HeldPackage (s : LifecycleStore J) (id : Nat)
    (content : Option (List UInt8) × Option String × Option J) : Prop :=
  ∃ p ∈ s.packages.rows, p.sourcePackageId = id ∧ p.legalHold = true ∧ p.content = content

theorem mem_deletePackage {p : SourcePackage J} (hp : p ∈ s.packages.rows)
    (hne : ¬ (p.ownerSchema = schema ∧ p.sourcePackageId = id)) :
    p ∈ (deletePackage s schema id).1.packages.rows := by
  unfold deletePackage
  dsimp only
  split
  · split
    · exact hp
    refine mem_delete.mpr ⟨hp, ?_⟩
    rw [Bool.and_eq_false_imp]
    intro ho
    rw [beq_eq_false_iff_ne]
    exact fun hid => hne ⟨eq_of_beq ho, hid⟩
  · exact hp

/-- **A package on hold by its column keeps its content**, whatever is called. -/
theorem HeldPackage.after {content : Option (List UInt8) × Option String × Option J}
    (h : HeldPackage s id content) (heff : Effect s c s') : HeldPackage s' id content := by
  obtain ⟨p, hp, hid, hheld, hcontent⟩ := h
  cases heff with
  | tombstoned =>
    refine ⟨_, mem_update_of_mem (sourcePackageId_tombstoned _) hp, ?_⟩
    -- the content goes only if the column is not set
    split
    · unfold SourcePackage.tombstoned
      rw [if_pos hheld]
      exact ⟨hid, hheld, hcontent⟩
    · exact ⟨hid, hheld, hcontent⟩
  | @packageForgotten ses schema documentId package hfree =>
    refine ⟨p, mem_deletePackage hp ?_, hid, hheld, hcontent⟩
    rintro ⟨ho, rfl⟩
    have hany := any_eq_false.mp hfree p hp
    simp [ho, hheld] at hany
  | _ => exact ⟨p, hp, hid, hheld, hcontent⟩

/-! ## The other objects -/

/-- The memory or episode is in its table with its content, in no final state. -/
def AliveRow (t : Serial (GovernedRow J) GovernedRow.id) (id : Nat) (content : J) : Prop :=
  ∃ r ∈ t.rows, r.id = id ∧ r.content = content ∧ r.lifecycleState ∉ finalStates

/-- The fact is in its table with its statement, in no final state. -/
def AliveFact (facts : Serial (FactRow J) FactRow.factId) (id : Nat) (statement : Statement J) :
    Prop :=
  ∃ f ∈ facts.rows, f.factId = id ∧ f.statement = statement ∧ f.lifecycleState ∉ finalStates

/-- An object is there with its content, and in no final state. -/
inductive Stands (s : LifecycleStore J) : Object → Statement J ⊕ J → Prop
  | fact {id : Nat} {statement : Statement J} (h : AliveFact s.facts.facts id statement) :
      Stands s ⟨.fact, id⟩ (.inl statement)
  | memory {id : Nat} {content : J} (h : AliveRow s.memories id content) :
      Stands s ⟨.memory, id⟩ (.inr content)
  | episode {id : Nat} {content : J} (h : AliveRow s.episodes id content) :
      Stands s ⟨.episodeObject, id⟩ (.inr content)
  | claim {c : ClaimRow J} (h : c ∈ s.claims.rows) : Stands s ⟨.claim, c.claimId⟩ (.inr c.content)
  | detail {d : DetailRow J} (h : d ∈ s.details.rows) :
      Stands s ⟨.memoryDetailObject, d.mdoId⟩ (.inr d.content)

/-- The call is made while the object is on hold: if it sets the object's state, it sees a hold, and
it does not retract it. -/
def Guarded (o : Object) (s : LifecycleStore J) (c : Session × LifecycleOp) : Prop :=
  (∃ h ∈ s.holds.rows, h.activeOn o = true) ∧ match c.2 with
    | .applyLifecycleState type id _ _ =>
      type.bind ObjectType.ofName? = some o.type → id = o.id →
        ∃ h ∈ s.holds.rows, ownRow c.1 h.ownerSchema = true ∧ h.activeOn o = true
    | .retractFact id _ => o ≠ ⟨.fact, id⟩
    | _ => True

theorem Guarded.not_final (hg : Guarded o s (ses, .applyLifecycleState type id state reason))
    (htype : type.bind ObjectType.ofName? = some o.type) (hst : Permitted s ses ⟨o.type, id⟩ st)
    (hid : o.id = id) : st ∉ finalStates := by
  obtain ⟨h, hh, hown, hactive⟩ := hg.2 htype hid.symm
  subst hid
  refine hst (any_eq_true.mpr ⟨h, hh, ?_⟩)
  rw [hown, hactive, Bool.and_self]

theorem AliveRow.withState {t : Serial (GovernedRow J) GovernedRow.id} {content : J}
    (h : AliveRow t id content) (hst : id = id' → st ∉ finalStates) :
    AliveRow (rowsWithState t id' st) id content := by
  obtain ⟨r, hr, rfl, rfl, hlive⟩ := h
  refine ⟨_, mem_update_of_mem (id_withState st) hr, ?_⟩
  split
  · rename_i hid
    exact ⟨rfl, rfl, hst (eq_of_beq hid)⟩
  · exact ⟨rfl, rfl, hlive⟩

theorem AliveFact.withState {facts : Serial (FactRow J) FactRow.factId} {statement : Statement J}
    (h : AliveFact facts id statement) (hst : id = id' → st ∉ finalStates) :
    AliveFact (factsWithState facts id' st) id statement := by
  obtain ⟨f, hf, rfl, rfl, hlive⟩ := h
  refine ⟨_, mem_update_of_mem (factId_factWithState st) hf, ?_⟩
  split
  · rename_i hid
    exact ⟨rfl, rfl, hst (eq_of_beq hid)⟩
  · exact ⟨rfl, rfl, hlive⟩

theorem AliveFact.retracted {σ : FactStore J} {statement : Statement J}
    (h : AliveFact σ.facts id statement) (hne : id ≠ id') :
    AliveFact (σ.retracted ses id' reason).facts id statement := by
  obtain ⟨f, hf, rfl, rfl, hlive⟩ := h
  exact ⟨f, mem_closedFacts.mpr ⟨f, hf, if_neg hne⟩, rfl, rfl, hlive⟩

theorem deletePackage_same (s : LifecycleStore J) (schema : String) (id : Nat) :
    (deletePackage s schema id).1.facts = s.facts ∧
      (deletePackage s schema id).1.memories = s.memories ∧
      (deletePackage s schema id).1.episodes = s.episodes ∧
      (deletePackage s schema id).1.details = s.details := by
  unfold deletePackage
  dsimp only
  split
  · split <;> exact ⟨rfl, rfl, rfl, rfl⟩
  · exact ⟨rfl, rfl, rfl, rfl⟩

theorem claim_deletePackage {c : ClaimRow J} (hc : c ∈ s.claims.rows) :
    ∃ c' ∈ (deletePackage s schema id).1.claims.rows,
      c'.claimId = c.claimId ∧ c'.content = c.content := by
  unfold deletePackage
  dsimp only
  split
  · split
    · exact ⟨c, hc, rfl, rfl⟩
    · exact ⟨_, mem_update_of_mem (claimId_dropPackage id) hc, rfl, rfl⟩
  · exact ⟨c, hc, rfl, rfl⟩

theorem Stands.mono {content : Statement J ⊕ J} (h : Stands s o content)
    (hfact : ∀ id statement, o = ⟨.fact, id⟩ → AliveFact s.facts.facts id statement →
      AliveFact s'.facts.facts id statement)
    (hmemory : ∀ id content, o = ⟨.memory, id⟩ → AliveRow s.memories id content →
      AliveRow s'.memories id content)
    (hepisode : ∀ id content, o = ⟨.episodeObject, id⟩ → AliveRow s.episodes id content →
      AliveRow s'.episodes id content) (hclaim : ∀ c ∈ s.claims.rows, ∃ c' ∈ s'.claims.rows,
      c'.claimId = c.claimId ∧ c'.content = c.content)
    (hdetail : ∀ d ∈ s.details.rows, d ∈ s'.details.rows) : Stands s' o content := by
  cases h with
  | fact h => exact .fact (hfact _ _ rfl h)
  | memory h => exact .memory (hmemory _ _ rfl h)
  | episode h => exact .episode (hepisode _ _ rfl h)
  | claim h =>
    obtain ⟨c', hc', hid, hcontent⟩ := hclaim _ h
    rw [← hid, ← hcontent]
    exact .claim hc'
  | detail h => exact .detail (hdetail _ h)

/-- **An object on hold stands**, whatever is called in a guarded way. -/
theorem Stands.after {content : Statement J ⊕ J} (h : Stands s o content) (hg : Guarded o s c)
    (heff : Effect s c s') : Stands s' o content := by
  have hclaim : ∀ c ∈ s.claims.rows, ∃ c' ∈ s.claims.rows,
      c'.claimId = c.claimId ∧ c'.content = c.content := fun c hc => ⟨c, hc, rfl, rfl⟩
  cases heff with
  | unchanged => exact h
  | fact htype hst =>
    refine h.mono (fun id statement ho hfact => hfact.withState ?_) (fun _ _ _ h => h)
      (fun _ _ _ h => h) hclaim (fun _ h => h)
    subst ho
    exact hg.not_final htype hst
  | memory htype hst =>
    refine h.mono (fun _ _ _ h => h) (fun id content ho hrow => hrow.withState ?_)
      (fun _ _ _ h => h) hclaim (fun _ h => h)
    subst ho
    exact hg.not_final htype hst
  | episode htype hst =>
    refine h.mono (fun _ _ _ h => h) (fun _ _ _ h => h)
      (fun id content ho hrow => hrow.withState ?_) hclaim (fun _ h => h)
    subst ho
    exact hg.not_final htype hst
  | retracted =>
    refine h.mono (fun id statement ho hfact => hfact.retracted ?_) (fun _ _ _ h => h)
      (fun _ _ _ h => h) hclaim (fun _ h => h)
    rintro rfl
    exact hg.2 ho
  | @packageForgotten ses schema documentId package hfree =>
    obtain ⟨hf, hm, he, hd⟩ :=
      deletePackage_same (deleteDocument s schema documentId) schema package
    refine h.mono (fun _ _ _ h => ?_) (fun _ _ _ h => ?_) (fun _ _ _ h => ?_)
      (fun c hc => claim_deletePackage hc) (fun _ h => ?_)
    · rw [hf]
      exact h
    · rw [hm]
      exact h
    · rw [he]
      exact h
    · rw [hd]
      exact h
  | tombstoned | documentForgotten | chunks | holds =>
    exact h.mono (fun _ _ _ h => h) (fun _ _ _ h => h) (fun _ _ _ h => h) hclaim (fun _ h => h)

/-! ## Runs -/

/-- **A legal hold protects in every run**: a source package on hold by its column keeps its row and
its content, and any other object keeps its row and its content and gets into no final state while
it is on hold and the calls are guarded. -/
theorem held_objects_stand (cat : Catalog) (s : LifecycleStore J)
    (calls : List (Session × LifecycleOp)) :
    (∀ id content, HeldPackage s id content →
        HeldPackage (run (lifecycleStep cat) s calls) id content) ∧
      ∀ o content, Stands s o content → Along (lifecycleStep cat) (Guarded o) s calls →
        Stands (run (lifecycleStep cat) s calls) o content := by
  constructor
  · intro id content h
    exact run_inv (I := fun s => HeldPackage s id content)
      (fun s c h => h.after (lifecycleStep_effect cat s c)) calls h
  · intro o content h hcalls
    exact run_induct (I := fun s => Stands s o content)
      (fun s c h hg => h.after hg (lifecycleStep_effect cat s c)) s calls h hcalls

/-- A session of schema `a`, with or without BYPASSRLS. -/
def sessionOfA (now : Int) (bypassRls : Bool) : Session := ⟨"a", now, empty, bypassRls⟩

/-- A catalog with the schema `a`. -/
def catalogOfA : Catalog := ⟨["a"], fun _ => "a", fun _ _ => true⟩

/-- A source package on hold by its column and a memory with a hold row, both of schema `a`. -/
def heldStore : LifecycleStore Unit where
  facts := noFacts []
  memories := empty.insert (fun id => ⟨id, "a", (), .active⟩) fun _ => rfl
  episodes := empty
  details := empty
  claims := empty
  packages :=
    empty.insert (fun id => ⟨id, "a", none, some "text", none, "h", true, some 0, none⟩)
      fun _ => rfl
  archives := []
  skillFiles := []
  documents := empty
  statements := empty
  chunks := empty
  holds := empty.insert _ (holdId_newHold (sessionOfA 1 false) ⟨.memory, 1⟩ "case")

def retireAndTombstone : List (Session × LifecycleOp) :=
  [(sessionOfA 2 false, .applyLifecycleState (some "memory") 1 (some "retired") none),
    (sessionOfA 3 true, .tombstoneSourcePackage 1 (some "expired"))]

theorem held_objects_stand_heldStore :
    HeldPackage (run (lifecycleStep catalogOfA) heldStore retireAndTombstone) 1
        (none, some "text", none) ∧
      Stands (run (lifecycleStep catalogOfA) heldStore retireAndTombstone) ⟨.memory, 1⟩
        (.inr ()) := by
  obtain ⟨hpackage, hobject⟩ := held_objects_stand catalogOfA heldStore retireAndTombstone
  refine ⟨hpackage 1 _ ⟨_, mem_singleton_self _, rfl, rfl, rfl⟩,
    hobject ⟨.memory, 1⟩ _ (.memory ⟨_, mem_singleton_self _, rfl, rfl, by decide⟩) ?_⟩
  exact ⟨⟨by decide, fun _ _ => by decide⟩, ⟨by decide, trivial⟩, trivial⟩

/-- A package on hold by its column is marked tombstoned all the same. -/
theorem held_package_tombstoned :
    (heldStore.packages.rows.map fun p => (p.legalHold, p.tombstonedAt)) = [(true, none)] ∧
      ((lifecycleStep catalogOfA heldStore
          (sessionOfA 3 true, .tombstoneSourcePackage 1 (some "expired"))).packages.rows.map
        fun p => (p.legalHold, p.tombstonedAt)) = [(true, some 3)] := by
  decide

end MaluDb.Lifecycle
