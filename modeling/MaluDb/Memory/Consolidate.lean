import Mathlib.Data.List.Dedup
import Mathlib.Data.List.ReduceOption
import MaluDb.Fact.Model
import MaluDb.Lib.ReadCommitted

/-!
# Consolidating memories

`consolidate_memories` as transactions that interleave statement by statement under READ COMMITTED.

* The rows are those of `malu$memory`, the consolidation edges of `malu$supersession_edge` and the
  events of `malu$reinforcement_event` (`Key`). An inserted row has an id that no row has.
* `array_length(a, 1)` is the length of the first dimension of a `bigint[]` (`IdArray`), while
  `= ANY` and `FOREACH` go over all elements.
* `Env.visible` is what the policies of `malu$memory` let a session of a schema see. The row that
  the UPDATE writes must also be of the session's schema, because of the foreign key
  `malu$memory_owner_consolidated_into_fk`.
* A `Frame` says which statement comes next. A transaction may make several calls (`Stmt.call`).
-/

namespace MaluDb.Consolidate

open MaluDb.Lib.ReadCommitted MaluDb.Fact Txn State

/-! ## Rows -/

/-- The rows. -/
inductive Key where
  | memory (id : Int)
  | edge (id : Int)
  | reinforcement (id : Int)
  deriving DecidableEq

/-- A row of `malu$memory`. -/
structure Memory (J : Type) where
  ownerSchema : String
  memoryKind : String
  title : Option String
  summary : Option String
  payload : J
  lifecycleState : LifecycleState
  consolidatedIntoMemoryId : Option Int
  deriving DecidableEq, Repr

/-- A row of `malu$supersession_edge` from a memory to a memory, of the kind `consolidation`. -/
structure ConsolidationEdge where
  ownerSchema : String
  predecessorId : Int
  successorId : Int
  reason : Option String
  deriving DecidableEq, Repr

/-- A row of `malu$reinforcement_event` for a memory, of the kind `consolidation` and weight 1. -/
structure Reinforcement where
  ownerSchema : String
  targetObjectId : Int
  consolidatedInto : Int
  deriving DecidableEq, Repr

/-- The type of each row. -/
abbrev RowType (J : Type) : Key → Type
  | .memory _ => Memory J
  | .edge _ => ConsolidationEdge
  | .reinforcement _ => Reinforcement

/-! ## Calls -/

/-- A `bigint[]`: its elements, the length of its first dimension and how many elements there are
for each index of it. -/
structure IdArray where
  elements : List (Option Int)
  length : Nat
  width : Nat
  width_pos : 0 < width
  size : elements.length = length * width
  deriving Repr

/-- The session's schema and the arguments of `consolidate_memories`. -/
structure Args (J : Type) where
  schema : String
  sourceMemoryIds : Option IdArray
  consolidatedKind : Option String
  title : Option String
  summary : Option String
  payload : Option J
  reason : Option String

structure Env (J : Type) where
  visible : String → Int → Memory J → Bool
  emptyObject : J

variable {J : Type}

/-- `SELECT count(*) … WHERE memory_id = ANY(ids) AND lifecycle_state = 'active'`. -/
def countActive (env : Env J) (schema : String) (view : Rows (RowType J)) (ids : IdArray) : Nat :=
  (ids.elements.reduceOption.dedup.filter fun id =>
    (view (.memory id)).any fun m => env.visible schema id m && m.lifecycleState == .active).length

/-- The consolidated memory. -/
def newMemory (env : Env J) (a : Args J) (kind : String) : Memory J where
  ownerSchema := a.schema
  memoryKind := kind
  title := a.title
  summary := a.summary
  payload := a.payload.getD env.emptyObject
  lifecycleState := .active
  consolidatedIntoMemoryId := none

/-- The UPDATE of a source. -/
def Memory.consolidate (new : Int) (m : Memory J) : Memory J :=
  { m with lifecycleState := .consolidated, consolidatedIntoMemoryId := some new }

/-- Where a transaction stands: before the count, before the INSERT of the new memory, before an
iteration of the loop over `todo`, and in the iteration for `id` before the INSERT of the edge and
before `record_reinforcement`. -/
inductive Frame (J : Type) where
  | count (a : Args J)
  | insert (a : Args J) (ids : IdArray)
  | loop (a : Args J) (new : Int) (todo : List (Option Int))
  | edge (a : Args J) (new id : Int) (todo : List (Option Int))
  | reinforce (a : Args J) (new id : Int) (todo : List (Option Int))
  | returned (new : Int)

/-- The statements. An element that is NULL raises at the INSERT of the edge, a call without a
single id before the count. -/
inductive Stmt (env : Env J) (view : Rows (RowType J)) :
    Frame J → Effect (RowType J) (Frame J) → Prop
  | call {r : Int} {a : Args J} : Stmt env view (.returned r) (.read (.count a))
  | count {a : Args J} {ids : IdArray} (hids : a.sourceMemoryIds = some ids)
    (hne : ids.length ≠ 0) (hcount : countActive env a.schema view ids = ids.length) :
    Stmt env view (.count a) (.read (.insert a ids))
  | insert {a : Args J} {ids : IdArray} {kind : String} {n : Int}
    (hkind : a.consolidatedKind = some kind) (hn : view (.memory n) = none) :
    Stmt env view (.insert a ids)
      (.write (.single (.memory n) (some (newMemory env a kind))) (.loop a n ids.elements))
  | update {a : Args J} {new id : Int} {todo : List (Option Int)} {m : Memory J}
    (hm : view (.memory id) = some m) (hv : env.visible a.schema id m = true)
    (hown : m.ownerSchema = a.schema) :
    Stmt env view (.loop a new (some id :: todo))
      (.write (.single (.memory id) (some (m.consolidate new))) (.edge a new id todo))
  | updateNothing {a : Args J} {new id : Int} {todo : List (Option Int)}
    (hm : ∀ m, view (.memory id) = some m → env.visible a.schema id m = false) :
    Stmt env view (.loop a new (some id :: todo)) (.read (.edge a new id todo))
  | edge {a : Args J} {new id n : Int} {todo : List (Option Int)} (hne : id ≠ new)
    (hn : view (.edge n) = none) :
    Stmt env view (.edge a new id todo)
      (.write (.single (.edge n) (some ⟨a.schema, id, new, a.reason⟩)) (.reinforce a new id todo))
  | reinforce {a : Args J} {new id n : Int} {todo : List (Option Int)}
    (hn : view (.reinforcement n) = none) :
    Stmt env view (.reinforce a new id todo)
      (.write (.single (.reinforcement n) (some ⟨a.schema, id, new⟩)) (.loop a new todo))
  | finish {a : Args J} {new : Int} : Stmt env view (.loop a new []) (.read (.returned new))

/-- The calls of `consolidate_memories`. -/
def consolidateProgram (env : Env J) : Program (RowType J) (Frame J) where
  init l := ∃ a, l = .count a
  stmt _ view l e := Stmt env view l e
  done l := ∃ r, l = .returned r

/-! ## The outline -/

/-- The memory is consolidated into the memory `new`. -/
def Memory.Into (m : Memory J) (new : Int) : Prop :=
  m.lifecycleState = .consolidated ∧ m.consolidatedIntoMemoryId = some new

/-- The rows hold the edge, which is not one of `db₀`. -/
def Added (db₀ rows : Rows (RowType J)) (n : Int) (e : ConsolidationEdge) : Prop :=
  db₀ (.edge n) = none ∧ rows (.edge n) = some e

/-- The rows have one edge from a source, and the source points where the edge points. The edges
of `db₀` do not count. -/
structure Once (db₀ rows : Rows (RowType J)) : Prop where
  unique : ∀ n n' e e', Added db₀ rows n e → Added db₀ rows n' e' →
    e.predecessorId = e'.predecessorId → n = n'
  into : ∀ n e, Added db₀ rows n e →
    ∃ m : Memory J, rows (.memory e.predecessorId) = some m ∧ m.Into e.successorId

def Unlinked (db₀ rows : Rows (RowType J)) (id : Int) : Prop :=
  ∀ n e, Added db₀ rows n e → e.predecessorId ≠ id

def Frame.linking : Frame J → Option (Int × Int)
  | .edge _ new id _ => some (id, new)
  | _ => none

def Frame.updating : Frame J → Option (Args J × Int)
  | .loop a _ (some id :: _) => some (a, id)
  | _ => none

def ActiveIn (env : Env J) (a : Args J) (rows : Rows (RowType J)) (id : Int) : Prop :=
  ∃ m : Memory J, rows (.memory id) = some m ∧ env.visible a.schema id m = true ∧
    m.lifecycleState = .active

/-- The condition on a step: the UPDATE of a source finds it active. -/
def StillActive (env : Env J) (s : State (RowType J) (Frame J)) (i : Nat) (_ : Act) : Prop :=
  ∀ t a id, s.txns i = some t → t.loc.updating = some (a, id) → ActiveIn env a (t.view s.db) id

structure At (db₀ db : Rows (RowType J)) (t : Txn (RowType J) (Frame J)) : Prop where
  once : Once db₀ (t.view db)
  owned : ∀ n e, t.writes (.edge n) = some (some e) → t.writes (.memory e.predecessorId) ≠ none
  linking : ∀ id new, t.loc.linking = some (id, new) → t.writes (.memory id) ≠ none ∧
    Unlinked db₀ (t.view db) id ∧ ∃ m : Memory J, t.view db (.memory id) = some m ∧ m.Into new

variable {db₀ db : Rows (RowType J)} {t : Txn (RowType J) (Frame J)}

variable {rows : Rows (RowType J)} {id : Int} {e : Effect (RowType J) (Frame J)} {l : Frame J}
  {a : Args J} {env : Env J}

theorem Once.unlinked (h : Once db₀ rows)
    (hid : ∀ m : Memory J, rows (.memory id) = some m → m.lifecycleState ≠ .consolidated) :
    Unlinked db₀ rows id := by
  rintro n e hne rfl
  obtain ⟨m, hm, hinto⟩ := h.into n e hne
  exact hid m hm hinto.1

theorem Once.congr {rows' : Rows (RowType J)} (h : Once db₀ rows)
    (hedge : ∀ n, rows' (.edge n) = rows (.edge n))
    (hmem : ∀ id, rows' (.memory id) ≠ rows (.memory id) → Unlinked db₀ rows id) :
    Once db₀ rows' := by
  have hadded : ∀ {n e}, Added db₀ rows' n e → Added db₀ rows n e :=
    fun ha => ⟨ha.1, (hedge _).symm.trans ha.2⟩
  refine ⟨fun n n' e e' ha ha' => h.unique n n' e e' (hadded ha) (hadded ha'), fun n e ha => ?_⟩
  have hsame : rows' (.memory e.predecessorId) = rows (.memory e.predecessorId) := by
    by_contra hne
    exact hmem _ hne n e (hadded ha) rfl
  rw [hsame]
  exact h.into n e (hadded ha)

theorem At.keep (h : At db₀ db t) (hm : ∀ id, e.sets (.memory id) = none)
    (hedge : ∀ n, e.sets (.edge n) = none) (hl : e.loc.linking = none) : At db₀ db (t.exec e) where
  once := h.once.congr (fun n => view_exec_of_none (hedge n) db)
    fun id hne => absurd (view_exec_of_none (hm id) db) hne
  owned n e' := by
    rw [exec_writes_of_none (hedge n), exec_writes_of_none (hm _)]
    exact h.owned n e'
  linking id new hloc := absurd (hl.symm.trans hloc) (by simp)

theorem At.writeMemory (h : At db₀ db t) {m : Memory J} (hid : Unlinked db₀ (t.view db) id)
    (hl : ∀ id' new, l.linking = some (id', new) → id' = id ∧ m.Into new) :
    At db₀ db (t.exec (.write (.single (.memory id) (some m)) l)) := by
  have hedge : ∀ n, (Effect.write (V := RowType J) (.single (.memory id) (some m)) l).sets (.edge n)
      = none := fun n => by simp
  have hself : (Effect.write (V := RowType J) (.single (.memory id) (some m)) l).sets (.memory id)
      = some (some m) := by simp
  have hother : ∀ id', id' ≠ id → (Effect.write (V := RowType J) (.single (.memory id) (some m))
      l).sets (.memory id') = none := fun id' hne => by simp [hne]
  refine ⟨h.once.congr (fun n => view_exec_of_none (hedge n) db) fun id' hne => ?_,
    fun n e hn => ?_, fun id' new hloc => ?_⟩
  · have heq : id' = id := by
      by_contra hne'
      exact hne (view_exec_of_none (hother id' hne') db)
    exact heq ▸ hid
  · rw [exec_writes_of_none (hedge n)] at hn
    by_cases hp : e.predecessorId = id
    · rw [hp, exec_writes_of_some hself]
      simp
    · rw [exec_writes_of_none (hother _ hp)]
      exact h.owned n e hn
  · obtain ⟨rfl, hinto⟩ := hl id' new hloc
    refine ⟨?_, fun n e hn => hid n e ⟨hn.1, ?_⟩, m, view_exec_of_some hself db, hinto⟩
    · rw [exec_writes_of_some hself]
      simp
    · rw [← view_exec_of_none (hedge n)]
      exact hn.2

theorem At.link (h : At db₀ db t) {new n : Int} {todo : List (Option Int)}
    (hloc : t.loc = .edge a new id todo) (l : Frame J) (hl : l.linking = none) :
    At db₀ db (t.exec (.write (.single (.edge n) (some ⟨a.schema, id, new, a.reason⟩)) l)) := by
  obtain ⟨hw, hun, m, hm, hinto⟩ := h.linking id new (by rw [hloc]; rfl)
  have hmem : ∀ k, (Effect.write (V := RowType J) (.single (.edge n)
      (some ⟨a.schema, id, new, a.reason⟩)) l).sets (.memory k) = none := fun k => by simp
  -- an added edge is the one inserted here or was there before
  have hadded : ∀ {n' e}, Added db₀ ((t.exec (.write (.single (.edge n)
      (some ⟨a.schema, id, new, a.reason⟩)) l)).view db) n' e →
      n' = n ∧ e = ⟨a.schema, id, new, a.reason⟩ ∨ Added db₀ (t.view db) n' e := by
    rintro n' e ⟨hnew, hn'⟩
    by_cases heq : n' = n
    · subst heq
      rw [view_exec_of_some (Writes.single_self _ _)] at hn'
      exact Or.inl ⟨rfl, (Option.some.inj hn').symm⟩
    · rw [view_exec_of_none (by simp [heq])] at hn'
      exact Or.inr ⟨hnew, hn'⟩
  refine ⟨⟨fun n₁ n₂ e₁ e₂ h₁ h₂ hp => ?_, fun n' e hn' => ?_⟩, fun n' e hn' => ?_,
    fun _ _ hlink => absurd (hl.symm.trans hlink) (by simp)⟩
  · rcases hadded h₁ with ⟨rfl, rfl⟩ | h₁' <;> rcases hadded h₂ with ⟨rfl, rfl⟩ | h₂'
    · rfl
    · exact absurd hp.symm (hun n₂ e₂ h₂')
    · exact absurd hp (hun n₁ e₁ h₁')
    · exact h.once.unique n₁ n₂ e₁ e₂ h₁' h₂' hp
  · rw [view_exec_of_none (hmem _)]
    rcases hadded hn' with ⟨rfl, rfl⟩ | hn''
    · exact ⟨m, hm, hinto⟩
    · exact h.once.into n' e hn''
  · rw [exec_writes_of_none (hmem _)]
    by_cases heq : n' = n
    · subst heq
      rw [exec_writes_of_some (Writes.single_self _ _)] at hn'
      cases Option.some.inj (Option.some.inj hn')
      exact hw
    · rw [exec_writes_of_none (by simp [heq])] at hn'
      exact h.owned n' e hn'

theorem At.stmt (h : At db₀ db t) (hl : t.loc = l) (he : Stmt env (t.view db) l e)
    (hc : ∀ a id, l.updating = some (a, id) → ActiveIn env a (t.view db) id) :
    At db₀ db (t.exec e) := by
  cases he with
  | call | count | finish => exact h.keep (fun _ => rfl) (fun _ => rfl) rfl
  | insert hkind hn =>
    refine h.writeMemory (h.once.unlinked fun m hm => ?_) fun _ _ hlink => ?_
    · exact absurd (hn.symm.trans hm) (by simp)
    · exact absurd hlink (by simp [Frame.linking])
  | @update a new id todo m hm hv hown =>
    obtain ⟨m', hm', _, hactive⟩ := hc a id rfl
    cases hm.symm.trans hm'
    refine h.writeMemory (h.once.unlinked fun m' hm' => ?_) fun id' new' hlink => ?_
    · cases hm.symm.trans hm'
      simp [hactive]
    · cases hlink
      exact ⟨rfl, rfl, rfl⟩
  | @updateNothing a new id todo hm =>
    obtain ⟨m, hm', hv, _⟩ := hc a id rfl
    exact absurd (hm m hm') (by simp [hv])
  | edge hne hn => exact h.link hl _ rfl
  | reinforce hn => exact h.keep (by simp) (by simp) rfl

theorem At.stable {t' : Txn (RowType J) (Frame J)} (h : At db₀ db t) (h' : At db₀ db t')
    (hx : Apart t.locks t'.locks) : At db₀ (t'.writes.over db) t := by
  have happart : ∀ k, t.writes k ≠ none → t'.writes k = none := fun k hk => by
    by_contra hne
    exact hx k (t.covers k hk) (t'.covers k hne)
  have hview : ∀ {k}, t.writes k ≠ none → t.view (t'.writes.over db) k = t.view db k := by
    intro k hk
    exact congrArg (Option.getD _) (Writes.over_of_none (happart k hk) db)
  have hrest : ∀ {k}, t.writes k = none → t.view (t'.writes.over db) k = t'.view db k :=
    fun hk => Writes.over_of_none hk _
  -- which side of the commit an edge is seen on is decided by who has written its memory
  have hmine : ∀ {n e}, Added db₀ (t.view (t'.writes.over db)) n e →
      t.writes (.memory e.predecessorId) ≠ none → Added db₀ (t.view db) n e := by
    rintro n e ⟨hnew, hn⟩ hp
    refine ⟨hnew, ?_⟩
    by_cases hw : t.writes (.edge n) = none
    · rw [hrest hw] at hn
      cases hw' : t'.writes (.edge n) with
      | none => exact (Writes.over_of_none hw db).trans ((Writes.over_of_none hw' db).symm.trans hn)
      | some v =>
        cases (Writes.over_of_some hw' db).symm.trans hn
        exact absurd (happart _ hp) (h'.owned n e hw')
    · exact (hview hw).symm.trans hn
  have htheirs : ∀ {n e}, Added db₀ (t.view (t'.writes.over db)) n e →
      t.writes (.memory e.predecessorId) = none → Added db₀ (t'.view db) n e := by
    rintro n e ⟨hnew, hn⟩ hp
    refine ⟨hnew, ?_⟩
    cases hw : t.writes (.edge n) with
    | none => exact (hrest hw).symm.trans hn
    | some v =>
      cases (Writes.over_of_some hw _).symm.trans hn
      exact absurd hp (h.owned n e hw)
  refine ⟨⟨fun n n' e e' hn hn' hp => ?_, fun n e hn => ?_⟩, h.owned, fun id new hlink => ?_⟩
  · by_cases hw : t.writes (.memory e.predecessorId) = none
    · exact h'.once.unique n n' e e' (htheirs hn hw) (htheirs hn' (hp ▸ hw)) hp
    · exact h.once.unique n n' e e' (hmine hn hw) (hmine hn' (hp ▸ hw)) hp
  · by_cases hw : t.writes (.memory e.predecessorId) = none
    · rw [hrest hw]
      exact h'.once.into n e (htheirs hn hw)
    · rw [hview hw]
      exact h.once.into n e (hmine hn hw)
  · obtain ⟨hw, hun, hm⟩ := h.linking id new hlink
    refine ⟨hw, fun n e hn hp => ?_, by rwa [hview hw]⟩
    exact hun n e (hmine hn (hp ▸ hw)) hp

theorem consolidationOutline (env : Env J) (db₀ : Rows (RowType J)) :
    Outline (consolidateProgram env) (StillActive env) (Once db₀) (At db₀) where
  start db l hg hl := by
    obtain ⟨a, rfl⟩ := hl
    exact ⟨hg, fun _ _ h => absurd h (by simp [begin, Writes.none]), fun _ _ h =>
      absurd h (by simp [begin, Frame.linking])⟩
  stmt s i t e ht _ ha hc he :=
    ha.stmt rfl he fun a id hl => hc t a id ht hl
  commit _ _ _ ha _ := ha.once
  stable _ _ _ _ ha ha' _ hx := ha.stable ha' hx

/-- **A source is consolidated once**, in every run in which each UPDATE of a source finds it still
active. Of the edges that the run has added there is one from a source, to the memory that its row
names. -/
theorem consolidated_once (env : Env J) (db₀ : Rows (RowType J)) (s : State (RowType J) (Frame J))
    (hr : Reach (consolidateProgram env) (StillActive env) (idle db₀) s) (n n' : Int)
    (e e' : ConsolidationEdge) (he : Added db₀ s.db n e) (he' : Added db₀ s.db n' e')
    (hp : e.predecessorId = e'.predecessorId) :
    n = n' ∧ e.successorId = e'.successorId ∧
      ∃ m : Memory J, s.db (.memory e.predecessorId) = some m ∧
        m.lifecycleState = .consolidated ∧ m.consolidatedIntoMemoryId = some e.successorId := by
  have hidle : Once db₀ db₀ :=
    ⟨fun _ _ _ _ ha => absurd (ha.1.symm.trans ha.2) (by simp),
      fun _ _ ha => absurd (ha.1.symm.trans ha.2) (by simp)⟩
  have honce := ((consolidationOutline env db₀).reach (good_idle hidle) hr).rows
  obtain rfl := honce.unique n n' e e' he he' hp
  cases he.2.symm.trans he'.2
  exact ⟨rfl, rfl, honce.into n e he⟩

def justOne : IdArray := ⟨[some 1], 1, 1, Nat.one_pos, rfl⟩

/-- A call on it. -/
def consolidateOne : Args Unit where
  schema := "app"
  sourceMemoryIds := some justOne
  consolidatedKind := some "lesson"
  title := none
  summary := none
  payload := none
  reason := none

def seesAll : Env Unit := ⟨fun _ _ _ => true, ()⟩

def oneMemory : Rows (RowType Unit)
  | .memory id => if id = 1 then some ⟨"app", "event", none, none, (), .active, none⟩ else none
  | .edge _ => none
  | .reinforcement _ => none

/-- The call of `consolidateOne` up to the loop. -/
def countedTxn : Txn (RowType Unit) (Frame Unit) :=
  (begin (.count consolidateOne)).exec (.read (.insert consolidateOne justOne))

theorem consolidated_once_oneMemory :
    ∃ s, Reach (consolidateProgram seesAll) (StillActive seesAll) (idle oneMemory) s ∧
      Added oneMemory s.db 2 ⟨"app", 1, 2, none⟩ ∧
      ∃ m : Memory Unit, s.db (.memory 1) = some m ∧ m.lifecycleState = .consolidated ∧
        m.consolidatedIntoMemoryId = some 2 := by
  have hsteady : ∀ {t a}, t.loc.updating = none →
      StillActive seesAll (only oneMemory t) 0 a := by
    intro t a hl t' args id ht hl'
    cases (show (only oneMemory t).txns 0 = some t from rfl).symm.trans ht
    exact absurd (hl.symm.trans hl') (by simp)
  have h₀ : Reach (consolidateProgram seesAll) (StillActive seesAll) (idle oneMemory)
      (only oneMemory (begin (.count consolidateOne))) :=
    .step .refl (fun _ _ _ h => absurd h (by simp [idle])) (.start _ rfl ⟨_, rfl⟩)
  have h₁ := h₀.only_stmt (hsteady rfl) (.count rfl Nat.one_ne_zero rfl)
  have h₂ := h₁.only_stmt (hsteady rfl) (.insert (n := 2) rfl rfl)
  have h₃ := h₂.only_stmt (by
    rintro _ _ _ ⟨⟩ ⟨⟩
    exact ⟨_, rfl, rfl, rfl⟩) (.update rfl rfl rfl)
  have h₄ := h₃.only_stmt (hsteady rfl) (.edge (n := 2) (by decide) rfl)
  have h₅ := h₄.only_stmt (hsteady rfl) (.reinforce (n := 2) rfl)
  have h₆ := h₅.only_stmt (hsteady rfl) .finish
  have h₇ := h₆.step (hsteady rfl) (.commit _ rfl ⟨2, rfl⟩)
  refine ⟨_, h₇, ⟨rfl, rfl⟩, ?_⟩
  exact (consolidated_once seesAll oneMemory _ h₇ 2 2 _ _ ⟨rfl, rfl⟩ ⟨rfl, rfl⟩ rfl).2.2

/-- Two calls on one memory that both count before either has written: the second waits for the
first at the UPDATE, then consolidates the memory again, into another one. -/
theorem consolidated_twice :
    ∃ s, Reach (consolidateProgram seesAll) AnyStep (idle oneMemory) s ∧
      Added oneMemory s.db 2 ⟨"app", 1, 2, none⟩ ∧ Added oneMemory s.db 3 ⟨"app", 1, 3, none⟩ := by
  have hcounted : Reach (consolidateProgram seesAll) AnyStep (idle oneMemory)
      (only oneMemory countedTxn) :=
    .begin_alone (l := Frame.count consolidateOne) (free_anyStep _ _) (quiet_idle oneMemory 0) rfl
      ⟨_, rfl⟩ (.stmt .refl (.count rfl Nat.one_ne_zero rfl))
  have hfirst : Reach (consolidateProgram seesAll) AnyStep (only oneMemory countedTxn) _ :=
    .call_alone (i := 1) (l := Frame.count consolidateOne) (free_anyStep _ _)
      (quiet_only (locks_exec_read _ _) _ _) rfl ⟨_, rfl⟩
      (.stmt (.stmt (.stmt (.stmt (.stmt (.stmt .refl (.count rfl Nat.one_ne_zero rfl))
        (.insert (n := 2) rfl rfl)) (.update rfl rfl rfl)) (.edge (n := 2) (by decide) rfl))
        (.reinforce (n := 2) rfl)) .finish) ⟨2, rfl⟩
  refine ⟨_, hcounted.trans (hfirst.trans (.commit_alone (i := 0) (t := countedTxn)
    (free_anyStep _ _) ((quiet_idle oneMemory 0).update _ _) rfl
    (.stmt (.stmt (.stmt (.stmt (.stmt .refl (.insert (n := 3) rfl rfl)) (.update rfl rfl rfl))
      (.edge (n := 3) (by decide) rfl)) (.reinforce (n := 3) rfl)) .finish) ⟨3, rfl⟩)),
    ⟨rfl, rfl⟩, ⟨rfl, rfl⟩⟩

end MaluDb.Consolidate
