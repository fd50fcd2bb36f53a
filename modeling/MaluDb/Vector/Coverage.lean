import MaluDb.Lib.ReadCommitted
import MaluDb.Vector.Store

/-!
# Concurrent registration and building

`register_vector_chunk`, `ann_build` and `ann_rebuild` on one compartment as transactions that
interleave statement by statement under READ COMMITTED.

* The rows are those of the compartment: its own row, its chunks, its index, its delta rows and
  the tombstones of its chunks (`Key`).
* A `Frame` says which statement of which procedure comes next.
* `INSERT INTO malu$vector_chunk` takes an id that no visible row has.
* The graph scan reads with the snapshot of its own statement: `maludb_ann_build_c` is STABLE and
  runs inside an assignment of the VOLATILE `ann_build`.

Both procedures update the compartment row before they look at the other's data. A builder sees
every chunk committed so far and no chunk can be committed until it is done; a registration that
finds no index holds the lock that would be needed to commit one.
-/

namespace MaluDb.Vector.Coverage

open MaluDb.Lib.ReadCommitted Txn.WritesOnly Txn

/-! ## Rows and frames -/

inductive Key where
  | compartment
  | chunk (id : Int)
  | annIndex
  | delta (id : Int)
  | tombstone (id : Int)
  deriving DecidableEq

/-- The type of each row. -/
abbrev RowType (F D : Type) : Key → Type
  | .compartment => Compartment
  | .chunk _ => Chunk F D
  | .annIndex => AnnIndex F
  | .delta _ => Unit
  | .tombstone _ => Unit

/-- The arguments of `register_vector_chunk`. -/
structure RegisterArgs (F : Type) where
  sourceText : Option String
  embedding : Vec F
  model : Option String

/-- The arguments of `ann_build`; `rebuild` if it was called by `ann_rebuild`. -/
structure BuildArgs where
  m : Int
  ef : Int
  efSearch : Int
  rebuild : Bool

inductive Frame (F : Type) where
  | register (a : RegisterArgs F)
  | insertChunk (a : RegisterArgs F) (compart : Compartment)
  | countChunk (id : Int)
  | hasAnn (id : Int)
  | insertDelta (id : Int)
  | markStale (id : Int)
  | registered (id : Int)
  | rebuild
  | build (a : BuildArgs)
  | markBuilding (a : BuildArgs) (compart : Compartment)
  | scan (a : BuildArgs) (compart : Compartment)
  | countLive (a : BuildArgs) (compart : Compartment) (graph : AnnGraph F)
  | upsertIndex (a : BuildArgs) (compart : Compartment) (graph : AnnGraph F) (count : Nat)
  | drainDelta (a : BuildArgs) (graph : AnnGraph F)
  | markReady (a : BuildArgs) (graph : AnnGraph F)
  | clearTombstones (graph : AnnGraph F)
  | built (graph : AnnGraph F)

section

variable {F D : Type}

/-- The rows of the graph scan: chunks without a tombstone, `ORDER BY chunk_id`. -/
structure LiveRows (view : Rows (RowType F D)) (rows : List (Int × Vec F)) : Prop where
  sorted : rows.Pairwise fun a b => a.1 < b.1
  mem : ∀ id emb, (id, emb) ∈ rows ↔
    (∃ c : Chunk F D, view (.chunk id) = some c ∧ c.embedding = emb) ∧ view (.tombstone id) = none

/-- `DELETE FROM malu$ann_delta WHERE compartment_id = …`. -/
def drainedDeltas (view : Rows (RowType F D)) : Writes (RowType F D)
  | .delta id => if (view (.delta id)).isSome then some none else none
  | _ => none

/-- `DELETE FROM malu$vector_tombstone WHERE chunk_id IN (…)`. -/
def clearedTombstones (view : Rows (RowType F D)) : Writes (RowType F D)
  | .tombstone id =>
    if (view (.tombstone id)).isSome ∧ (view (.chunk id)).isSome then some none else none
  | _ => none

theorem over_drainedDeltas (view : Rows (RowType F D)) (id : Int) :
    (drainedDeltas view).over view (.delta id) = none := by
  simp only [Writes.over, drainedDeltas]
  split
  · rfl
  · exact Option.not_isSome_iff_eq_none.mp ‹_›

theorem over_clearedTombstones (view : Rows (RowType F D)) (id : Int) :
    (clearedTombstones view).over view (.tombstone id) =
      if (view (.chunk id)).isSome then none else view (.tombstone id) := by
  simp only [Writes.over, clearedTombstones]
  split_ifs with h hc hc
  · rfl
  · exact absurd h.2 hc
  · exact Option.not_isSome_iff_eq_none.mp fun ht => h ⟨ht, hc⟩
  · rfl

variable [LT D] [DecidableLT D] [BEq D]

/-- The statements; `cid` is the compartment's id. -/
inductive Stmt (ar : Arith F D) (cid : Int) (view : Rows (RowType F D)) :
    Frame F → Effect (RowType F D) (Frame F) → Prop
  | register {a : RegisterArgs F} {c : Compartment} (hc : view .compartment = some c)
    (hdim : a.embedding.length = c.embeddingDim) :
    Stmt ar cid view (.register a) (.read (.insertChunk a c))
  | insertChunk {a : RegisterArgs F} {c : Compartment} {id : Int} {text : String}
    (hid : view (.chunk id) = none) (htext : a.sourceText = some text)
    (hpos : a.embedding.length ≠ 0) :
    Stmt ar cid view (.insertChunk a c) (.write (.single (.chunk id) (some
      { chunkId := id, compartmentId := cid, sourceText := text
        embedding := vectorNormalize ar a.embedding, embeddingDim := a.embedding.length
        embeddingModel := a.model.getD c.embeddingModel
        embeddingNorm := vectorNorm ar a.embedding })) (.countChunk id))
  | countChunk {id : Int} {c : Compartment} (hc : view .compartment = some c) :
    Stmt ar cid view (.countChunk id) (.write
      (.single .compartment (some { c with vectorCount := c.vectorCount + 1 })) (.hasAnn id))
  | hasAnn {id : Int} {idx : AnnIndex F} (hi : view .annIndex = some idx) :
    Stmt ar cid view (.hasAnn id) (.read (.insertDelta id))
  | hasNoAnn {id : Int} (hi : view .annIndex = none) :
    Stmt ar cid view (.hasAnn id) (.read (.registered id))
  | insertDelta {id : Int} (hd : view (.delta id) = none) :
    Stmt ar cid view (.insertDelta id) (.write (.single (.delta id) (some ())) (.markStale id))
  | insertDeltaConflict {id : Int} (hd : view (.delta id) = some ()) :
    Stmt ar cid view (.insertDelta id) (.read (.markStale id))
  | markStale {id : Int} {c : Compartment} (hc : view .compartment = some c) :
    Stmt ar cid view (.markStale id) (.write
      (.single .compartment (some { c with annIndexStatus := .stale })) (.registered id))
  | rebuild {idx : AnnIndex F} (hi : view .annIndex = some idx) :
    Stmt ar cid view .rebuild
      (.read (.build ⟨idx.m, idx.efConstruction, idx.efSearchDefault, true⟩))
  | build {a : BuildArgs} {c : Compartment} (hc : view .compartment = some c) :
    Stmt ar cid view (.build a) (.read (.markBuilding a c))
  | markBuilding {a : BuildArgs} {c c' : Compartment} (hc : view .compartment = some c') :
    Stmt ar cid view (.markBuilding a c) (.write
      (.single .compartment (some { c' with annIndexStatus := .building })) (.scan a c))
  | scan {a : BuildArgs} {c : Compartment} {rows : List (Int × Vec F)} {g : AnnGraph F}
    (hrows : LiveRows view rows)
    (hg : annBuildC ar rows a.m a.ef c.distanceMetric.name = .ok g) :
    Stmt ar cid view (.scan a c) (.read (.countLive a c g))
  | countLive {a : BuildArgs} {c : Compartment} {g : AnnGraph F} {rows : List (Int × Vec F)}
    (hrows : LiveRows view rows) :
    Stmt ar cid view (.countLive a c g) (.read (.upsertIndex a c g rows.length))
  | upsertIndex {a : BuildArgs} {c : Compartment} {g : AnnGraph F} {n : Nat}
    (hchecks : annIndexChecks a.m a.ef a.efSearch = .ok ()) :
    Stmt ar cid view (.upsertIndex a c g n) (.write (.single .annIndex (some
      { compartmentId := cid, distanceMetric := c.distanceMetric, m := a.m
        efConstruction := a.ef, efSearchDefault := a.efSearch, embeddingDim := c.embeddingDim
        graph := g, vectorCountAtBuild := n, status := .ready })) (.drainDelta a g))
  | drainDelta {a : BuildArgs} {g : AnnGraph F} :
    Stmt ar cid view (.drainDelta a g) (.write (drainedDeltas view) (.markReady a g))
  | markReady {a : BuildArgs} {g : AnnGraph F} {c : Compartment}
    (hc : view .compartment = some c) :
    Stmt ar cid view (.markReady a g) (.write (.single .compartment
      (some { c with searchMode := .localAnn, annIndexStatus := .ready }))
      (if a.rebuild then .clearTombstones g else .built g))
  | clearTombstones {g : AnnGraph F} :
    Stmt ar cid view (.clearTombstones g) (.write (clearedTombstones view) (.built g))

def IsCall : Frame F → Prop
  | .register _ => True
  | .rebuild => True
  | .build a => a.rebuild = false
  | _ => False

def Returned : Frame F → Prop
  | .registered _ => True
  | .built _ => True
  | _ => False

/-- The transactions on compartment `cid`. None of them skips locked rows, so what they do does
not depend on the locks of others. -/
def vectorProgram (ar : Arith F D) (cid : Int) : Program (RowType F D) (Frame F) where
  init := IsCall
  stmt _ := Stmt ar cid
  done := Returned

end

/-! ## The outline -/

section

variable {F D : Type}

/-- Every chunk not in `T` is in the graph. -/
def Lists (T : Set Int) (db : Rows (RowType F D)) (g : AnnGraph F) : Prop :=
  ∀ id, (db (.chunk id)).isSome → id ∉ T → id ∈ g.chunkIds

/-- The invariant of the committed rows: with an index, a chunk not in `T` is in the graph or in
the delta; and tombstones are in `T`. -/
structure Covered (T : Set Int) (db : Rows (RowType F D)) : Prop where
  chunks : ∀ idx : AnnIndex F, db .annIndex = some idx → ∀ id, (db (.chunk id)).isSome → id ∉ T →
    id ∈ idx.graph.chunkIds ∨ (db (.delta id)).isSome
  tombstones : ∀ id, (db (.tombstone id)).isSome → id ∈ T

structure Indexed (T : Set Int) (db : Rows (RowType F D)) (t : Txn (RowType F D) (Frame F))
    (g : AnnGraph F) : Prop where
  lists : Lists T db g
  index : ∃ idx : AnnIndex F, t.writes .annIndex = some (some idx) ∧ idx.graph = g
  deletes : ∀ id, t.writes (.tombstone id) ≠ some (some ())

def registrationRows (id : Int) : Set Key := {.chunk id, .compartment, .delta id}

/-- The rows a builder writes. -/
def builderRows : Set Key := {k | k = .compartment ∨ k = .annIndex ∨ (∃ id, k = .delta id) ∨
  ∃ id, k = .tombstone id}

def At (T : Set Int) (db : Rows (RowType F D)) (t : Txn (RowType F D) (Frame F)) : Prop :=
  match t.loc with
  | .register _ | .insertChunk _ _ | .rebuild | .build _ | .markBuilding _ _ => t.WritesOnly ∅
  | .countChunk id => t.WritesOnly {.chunk id}
  | .hasAnn id | .insertDelta id =>
    .compartment ∈ t.locks ∧ t.WritesOnly {.chunk id, .compartment}
  | .markStale id =>
    .compartment ∈ t.locks ∧ t.WritesOnly (registrationRows id) ∧ (t.view db (.delta id)).isSome
  | .registered id =>
    .compartment ∈ t.locks ∧ t.WritesOnly (registrationRows id) ∧
      ((t.view db (.delta id)).isSome ∨ db .annIndex = none)
  | .scan _ _ => .compartment ∈ t.locks ∧ t.WritesOnly {.compartment}
  | .countLive _ _ g | .upsertIndex _ _ g _ =>
    .compartment ∈ t.locks ∧ t.WritesOnly {.compartment} ∧ Lists T db g
  | .drainDelta _ g | .markReady _ g | .clearTombstones g | .built g =>
    .compartment ∈ t.locks ∧ t.WritesOnly builderRows ∧ Indexed T db t g

variable {T : Set Int} {db : Rows (RowType F D)} {t : Txn (RowType F D) (Frame F)}

theorem At.locks_of_returned (h : At T db t) (hd : Returned t.loc) : .compartment ∈ t.locks := by
  obtain ⟨loc, writes, locks, covers⟩ := t
  cases loc <;> first | exact hd.elim | exact h.1

theorem Indexed.exec {g : AnnGraph F} (h : Indexed T db t g)
    {e : Effect (RowType F D) (Frame F)} (hi : e.sets .annIndex = none)
    (ht : ∀ id, e.sets (.tombstone id) ≠ some (some ())) : Indexed T db (t.exec e) g := by
  obtain ⟨idx, hw, hg⟩ := h.index
  refine ⟨h.lists, ⟨idx, (exec_writes_of_none hi).trans hw, hg⟩, fun id => ?_⟩
  cases he : e.sets (.tombstone id) with
  | none =>
    rw [exec_writes_of_none he]
    exact h.deletes id
  | some v =>
    rw [exec_writes_of_some he, ← he]
    exact ht id

theorem Indexed.exec_compartment {g : AnnGraph F} (h : Indexed T db t g)
    (c : Option (RowType F D .compartment)) (l : Frame F) :
    Indexed T db (t.exec (.write (.single .compartment c) l)) g :=
  h.exec (by simp) fun id => by simp

variable [LT D] [DecidableLT D] [BEq D] {ar : Arith F D} {cid : Int}

theorem lists_of_scan {rows : List (Int × Vec F)} {g : AnnGraph F} {a : BuildArgs} {m : String}
    (hG : Covered T db) (hw : t.WritesOnly {.compartment}) (hrows : LiveRows (t.view db) rows)
    (hg : annBuildC ar rows a.m a.ef m = .ok g) : Lists T db g := by
  intro id hid hT
  obtain ⟨c, hc⟩ := Option.isSome_iff_exists.mp hid
  have hchunk : t.view db (.chunk id) = some c :=
    (Writes.over_of_none (hw.eq_none (by simp)) db).trans hc
  have htomb : t.view db (.tombstone id) = none := by
    refine (Writes.over_of_none (hw.eq_none (by simp)) db).trans ?_
    exact Option.not_isSome_iff_eq_none.mp fun h => hT (hG.tombstones id h)
  rw [annBuildC_chunkIds hg]
  exact List.mem_map.mpr ⟨(id, c.embedding), (hrows.mem _ _).mpr ⟨⟨c, hchunk, rfl⟩, htomb⟩, rfl⟩

theorem At.exec {e : Effect (RowType F D) (Frame F)} (hG : Covered T db) (h : At T db t)
    (he : Stmt ar cid (t.view db) t.loc e) : At T db (t.exec e) := by
  obtain ⟨loc, writes, locks, covers⟩ := t
  cases he with
  | register hc hdim => exact exec_read h _
  | insertChunk hid htext hpos =>
    exact exec_single (k := Key.chunk _) (h.mono (Set.empty_subset _))
      (Set.mem_singleton _) _
  | countChunk hc =>
    exact ⟨mem_locks_exec_single _ Key.compartment _ _,
      exec_single (k := Key.compartment) (h.mono (by simp)) (by simp) _⟩
  | hasAnn hi => exact ⟨.inl h.1, h.2.exec_read _⟩
  | hasNoAnn hi =>
    obtain ⟨hl, hw⟩ := h
    refine ⟨.inl hl, (hw.mono ?_).exec_read _, .inr ?_⟩
    · simp [registrationRows, Set.insert_subset_iff]
    · exact (Writes.over_of_none (hw.eq_none (by simp)) db).symm.trans hi
  | insertDelta hd =>
    obtain ⟨hl, hw⟩ := h
    refine ⟨.inl hl, exec_single (k := .delta _) (hw.mono ?_) ?_ _, ?_⟩
    · simp [registrationRows, Set.insert_subset_iff]
    · simp [registrationRows]
    · rw [view_exec_of_some (v := some ()) (by simp)]
      rfl
  | insertDeltaConflict hd =>
    obtain ⟨hl, hw⟩ := h
    refine ⟨.inl hl, (hw.mono ?_).exec_read _, ?_⟩
    · simp [registrationRows, Set.insert_subset_iff]
    · rw [view_exec_of_none rfl, hd]
      rfl
  | markStale hc =>
    obtain ⟨hl, hw, hv⟩ := h
    refine ⟨.inl hl, exec_single (k := .compartment) hw ?_ _, .inl ?_⟩
    · simp [registrationRows]
    · rwa [view_exec_of_none (by simp)]
  | rebuild hi => exact exec_read h _
  | build hc => exact exec_read h _
  | markBuilding hc =>
    exact ⟨mem_locks_exec_single _ Key.compartment _ _,
      exec_single (k := Key.compartment) (h.mono (by simp)) (by simp) _⟩
  | scan hrows hg =>
    exact ⟨.inl h.1, h.2.exec_read _, lists_of_scan hG h.2 hrows hg⟩
  | countLive hrows => exact ⟨.inl h.1, h.2.1.exec_read _, h.2.2⟩
  | upsertIndex hchecks =>
    obtain ⟨hl, hw, hg⟩ := h
    refine ⟨.inl hl, exec_single (k := Key.annIndex) (hw.mono ?_) ?_ _, hg,
      ⟨_, exec_writes_of_some (Writes.single_self Key.annIndex _), rfl⟩, fun id => ?_⟩
    · simp [builderRows]
    · simp [builderRows]
    · rw [exec_writes_of_none (by simp), hw.eq_none (by simp)]
      simp
  | drainDelta =>
    obtain ⟨hl, hw, hi⟩ := h
    refine ⟨.inl hl, hw.exec fun k hk => ?_, hi.exec rfl fun id => by simp [drainedDeltas]⟩
    cases k with
    | delta id => exact .inr (.inr (.inl ⟨id, rfl⟩))
    | _ => exact absurd rfl hk
  | markReady hc =>
    rename_i a g c
    obtain ⟨hl, hw, hi⟩ := h
    obtain ⟨m, ef, efs, rebuild⟩ := a
    -- the next frame differs, what holds there does not
    cases rebuild <;>
    exact ⟨.inl hl, exec_single (k := Key.compartment) hw (.inl rfl) _,
      hi.exec_compartment _ _⟩
  | clearTombstones =>
    obtain ⟨hl, hw, hi⟩ := h
    refine ⟨.inl hl, hw.exec fun k hk => ?_, hi.exec rfl fun id => ?_⟩
    · cases k with
      | tombstone id => exact .inr (.inr (.inr ⟨id, rfl⟩))
      | _ => exact absurd rfl hk
    · simp [clearedTombstones]

omit [LT D] [DecidableLT D] [BEq D] in
theorem Covered.commit (hG : Covered T db) (h : At T db t) (hd : Returned t.loc) :
    Covered T (t.writes.over db) := by
  obtain ⟨loc, writes, locks, covers⟩ := t
  cases loc with
  | registered id =>
    obtain ⟨-, hw, hdelta⟩ := h
    have hsame : ∀ k, k ∉ registrationRows id → writes.over db k = db k := fun k hk =>
      Writes.over_of_none (hw.eq_none hk) db
    constructor
    · intro idx hidx x hx hT
      rw [hsame .annIndex (by simp [registrationRows])] at hidx
      by_cases hxid : x = id
      · subst hxid
        exact .inr (hdelta.resolve_right (by rw [hidx]; simp))
      · rw [hsame (.chunk x) (by simp [registrationRows, hxid])] at hx
        rw [hsame (.delta x) (by simp [registrationRows, hxid])]
        exact hG.chunks idx hidx x hx hT
    · intro x hx
      rw [hsame (.tombstone x) (by simp [registrationRows])] at hx
      exact hG.tombstones x hx
  | built g =>
    obtain ⟨-, hw, hlists, ⟨idx, hidx, hg⟩, hdel⟩ := h
    constructor
    · intro idx' hidx' x hx hT
      have hidx' : some idx = some idx' := (Writes.over_of_some hidx db).symm.trans hidx'
      cases hidx'
      have hchunk : writes.over db (.chunk x) = db (.chunk x) :=
        Writes.over_of_none (hw.eq_none (by simp [builderRows])) db
      rw [hchunk] at hx
      exact .inl (hg ▸ hlists x hx hT)
    intro x hx
    cases hwx : writes (.tombstone x) with
    | none =>
      rw [Writes.over_of_none hwx] at hx
      exact hG.tombstones x hx
    | some v =>
      rw [Writes.over_of_some hwx] at hx
      obtain ⟨⟨⟩, rfl⟩ := Option.isSome_iff_exists.mp hx
      exact absurd hwx (hdel x)
  | _ => exact hd.elim

theorem vectorOutline (ar : Arith F D) (cid : Int) (T : Set Int) :
    Outline (vectorProgram ar cid) AnyStep (Covered T) (At T) where
  start db l _ hl := by
    cases l with
    | register a => exact writesOnly_begin _
    | rebuild => exact writesOnly_begin _
    | build a => exact writesOnly_begin _
    | _ => exact hl.elim
  stmt s i t e _ hG hA _ he := hA.exec hG he
  commit db t hG hA hd := hG.commit hA hd
  stable db t t' _ hA hA' hd hdis := by
    have hother : Key.compartment ∉ t.locks := fun hl =>
      hdis _ hl (hA'.locks_of_returned hd)
    obtain ⟨loc, writes, locks, covers⟩ := t
    cases loc <;> first | exact absurd hA.1 hother | exact hA

/-- With an index, every chunk without a tombstone is in the graph or in the delta. -/
def Visible (db : Rows (RowType F D)) : Prop :=
  ∀ idx : AnnIndex F, db .annIndex = some idx → ∀ id, (db (.chunk id)).isSome →
    db (.tombstone id) = none → id ∈ idx.graph.chunkIds ∨ (db (.delta id)).isSome

/-- A rebuild comes to delete tombstones only when it sees none of a chunk of the compartment. -/
def RebuildsClean (s : State (RowType F D) (Frame F)) (i : Nat) (_ : Act) : Prop :=
  ∀ t g, s.txns i = some t → t.loc = .clearTombstones g → ∀ id,
    (t.view s.db (.chunk id)).isSome → t.view s.db (.tombstone id) = none

/-- Nothing is written to the tombstones if rebuilds find none to delete. -/
theorem tombstoneOutline (ar : Arith F D) (cid : Int) (tombs : Int → Option Unit)
    {C : State (RowType F D) (Frame F) → Nat → Act → Prop}
    (hC : ∀ s i, C s i .stmt → (∀ id, tombs id = none) ∨ RebuildsClean s i .stmt) :
    Outline (vectorProgram ar cid) C (fun db => ∀ id, db (.tombstone id) = tombs id)
      (fun _ t => ∀ id, t.writes (.tombstone id) = none) where
  start _ _ _ _ _ := rfl
  stmt s i t e ht hG hA hc he id := by
    have hkeep : e.sets (.tombstone id) = none := by
      generalize hloc : t.loc = loc at he
      cases he with
      | clearTombstones =>
        have hview : (t.view s.db (.chunk id)).isSome → t.view s.db (.tombstone id) = none := by
          rcases hC s i hc with hnone | hclean
          · intro _
            unfold Txn.view
            rw [Writes.over_of_none (hA id), hG id, hnone id]
          · exact hclean t _ ht hloc id
        refine if_neg fun h => ?_
        rw [hview h.2] at h
        cases h.1
      | _ => rfl
    rw [exec_writes_of_none hkeep]
    exact hA id
  commit db t hG hA _ id := by rw [Writes.over_of_none (hA id), hG id]
  stable _ _ _ _ hA _ _ _ := hA

/-- **No registered vector is invisible to `local_ann` search** in any interleaving of transactions
that register, build and rebuild, as long as no rebuild deletes a tombstone. -/
theorem local_ann_coverage (ar : Arith F D) (cid : Int) (db₀ : Rows (RowType F D))
    (h₀ : Visible db₀) (s : State (RowType F D) (Frame F))
    (hr : Reach (vectorProgram ar cid) RebuildsClean (State.idle db₀) s) : Visible s.db := by
  intro idx hidx id hchunk htomb
  have htombs := (tombstoneOutline ar cid (fun id => db₀ (.tombstone id))
    fun s i h => .inr h).reach (good_idle fun _ => rfl) hr
  -- the chunks tombstoned at the start are those tombstoned now
  have hcovered : Covered {id | (db₀ (.tombstone id)).isSome} db₀ :=
    ⟨fun idx hidx id hchunk hid =>
      h₀ idx hidx id hchunk (Option.not_isSome_iff_eq_none.mp hid), fun _ h => h⟩
  have hany := (vectorOutline ar cid {id | (db₀ (.tombstone id)).isSome}).reach
    (good_idle hcovered) (hr.mono fun _ _ _ _ => trivial)
  refine hany.rows.chunks idx hidx id hchunk fun hid => ?_
  have hsome : (db₀ (.tombstone id)).isSome := hid
  rw [← htombs.rows id, htomb] at hsome
  cases hsome

end

/-- An index without nodes. -/
def emptyIndex : AnnIndex Int :=
  ⟨1, .l2, 16, 64, 32, 1, ⟨.l2, 0, 16, 64, -1, [], [], []⟩, 0, .ready⟩

/-- Chunk 1 was registered after the index was built. -/
def deltaRows : Rows (RowType Int Int)
  | .compartment => some ⟨1, 1, "m", .l2, 1, .localAnn, .stale⟩
  | .chunk id => if id = 1 then some ⟨1, 1, "t", [1], 1, "m", 1⟩ else none
  | .annIndex => some emptyIndex
  | .delta id => if id = 1 then some () else none
  | .tombstone _ => none

/-- Chunk 2 was registered too. -/
def twoDeltaRows : Rows (RowType Int Int)
  | .compartment => some ⟨1, 1, "m", .l2, 2, .localAnn, .stale⟩
  | .chunk id => if id = 2 then some ⟨2, 1, "u", [1], 1, "m", 1⟩ else deltaRows (.chunk id)
  | .annIndex => some emptyIndex
  | .delta id => if id = 2 then some () else deltaRows (.delta id)
  | .tombstone _ => none

theorem register_second :
    Solo (vectorProgram intArith 1) deltaRows (.register ⟨some "u", [1], none⟩) twoDeltaRows := by
  refine .stmt (Stmt.register rfl rfl) ?_
  refine .stmt (@Stmt.insertChunk _ _ _ _ _ _ _ _ _ _ 2 _ rfl rfl (by decide)) ?_
  refine .stmt (Stmt.countChunk rfl) ?_
  refine .stmt (Stmt.hasAnn rfl) ?_
  refine .stmt (Stmt.insertDelta rfl) ?_
  refine .stmt (Stmt.markStale rfl) (.of_eq trivial ?_)
  funext k
  cases k with
  | compartment => rfl
  | annIndex => rfl
  | tombstone id => rfl
  | chunk id =>
    by_cases hid : id = 2
    · subst hid
      rfl
    · simp [twoDeltaRows, Writes.over, hid]
  | delta id =>
    by_cases hid : id = 2
    · subst hid
      rfl
    · simp [twoDeltaRows, Writes.over, hid]

/-- A registration commits a chunk and its delta row. -/
theorem local_ann_coverage_registered :
    Visible deltaRows ∧
      Reach (vectorProgram intArith 1) RebuildsClean (State.idle deltaRows)
        (State.idle twoDeltaRows) ∧ Visible twoDeltaRows := by
  have hvisible : Visible deltaRows := by
    intro idx _ id hchunk _
    have hid : id = 1 := by
      by_contra hne
      simp [deltaRows, hne] at hchunk
    exact .inr (by simp [deltaRows, hid])
  have hreach : Reach (vectorProgram intArith 1) AnyStep (State.idle deltaRows)
      (State.idle twoDeltaRows) :=
    Reach.solo (l := Frame.register ⟨some "u", [1], none⟩) trivial register_second
  have hclean : Reach (vectorProgram intArith 1) RebuildsClean (State.idle deltaRows)
      (State.idle twoDeltaRows) := (tombstoneOutline intArith 1 (fun _ => none) (C := AnyStep)
    fun _ _ _ => .inl fun _ => rfl).reach_of_good (good_idle fun _ => rfl)
      (fun s i a hgood _ t g ht _ id _ => by
        unfold Txn.view
        rw [Writes.over_of_none (hgood.txns i t ht id), hgood.rows id]) hreach
  exact ⟨hvisible, hclean, local_ann_coverage intArith 1 deltaRows hvisible _ hclean⟩

/-- The rows with chunk 1 tombstoned. -/
def tombstonedRows : Rows (RowType Int Int) :=
  Function.update deltaRows (.tombstone 1) (some ())

/-- The same compartment after a rebuild: the graph is empty, the delta is drained and the
tombstone is deleted. -/
def rebuiltRows : Rows (RowType Int Int)
  | .compartment => some ⟨1, 1, "m", .l2, 1, .localAnn, .ready⟩
  | .chunk id => deltaRows (.chunk id)
  | .annIndex => some emptyIndex
  | .delta _ => none
  | .tombstone _ => none

theorem liveRows_tombstoned {view : Rows (RowType Int Int)}
    (hc : ∀ id, view (.chunk id) = deltaRows (.chunk id))
    (ht : view (.tombstone 1) = some ()) : LiveRows view [] := by
  refine ⟨List.Pairwise.nil, fun id emb => ⟨by simp, ?_⟩⟩
  rintro ⟨⟨c, hchunk, -⟩, hnone⟩
  rw [hc] at hchunk
  by_cases hid : id = 1
  · subst hid
    exact absurd (ht.symm.trans hnone) (by simp)
  · simp [deltaRows, hid] at hchunk

theorem rebuild_tombstoned :
    Solo (vectorProgram intArith 1) tombstonedRows .rebuild rebuiltRows := by
  refine .stmt (Stmt.rebuild (show tombstonedRows .annIndex = some emptyIndex from rfl)) ?_
  refine .stmt (Stmt.build rfl) ?_
  refine .stmt (Stmt.markBuilding rfl) ?_
  refine .stmt (Stmt.scan (liveRows_tombstoned (fun _ => rfl) rfl) rfl) ?_
  refine .stmt (Stmt.countLive (liveRows_tombstoned (fun _ => rfl) rfl)) ?_
  refine .stmt (Stmt.upsertIndex rfl) ?_
  refine .stmt Stmt.drainDelta ?_
  refine .stmt (Stmt.markReady rfl) ?_
  refine .stmt Stmt.clearTombstones (.of_eq trivial ?_)
  funext k
  cases k with
  | compartment => rfl
  | chunk id => rfl
  | annIndex => rfl
  | delta id => exact over_drainedDeltas _ id
  | tombstone id =>
    refine (over_clearedTombstones _ id).trans ?_
    by_cases hid : id = 1
    · subst hid
      rfl
    · have hc : ¬ (deltaRows (.chunk id)).isSome := by simp [deltaRows, hid]
      have ht : tombstonedRows (.tombstone id) = none := by simp [tombstonedRows, deltaRows, hid]
      exact (if_neg hc).trans ht

/-- After that rebuild the chunk has no tombstone and is neither in the graph nor in the delta. -/
theorem rebuild_uncovers :
    Visible tombstonedRows ∧
      ∃ s, Reach (vectorProgram intArith 1) AnyStep (State.idle tombstonedRows) s ∧
        s.db .annIndex = some emptyIndex ∧ (s.db (.chunk 1)).isSome ∧
        s.db (.tombstone 1) = none ∧ s.db (.delta 1) = none ∧ ¬ Visible s.db := by
  refine ⟨fun idx _ id hchunk htomb => ?_, State.idle rebuiltRows, ?_, rfl, rfl, rfl, rfl,
    fun hvisible => ?_⟩
  · have hid : id = 1 := by
      by_contra hne
      simp [tombstonedRows, deltaRows, hne] at hchunk
    subst hid
    exact absurd htomb (by simp [tombstonedRows])
  · exact Reach.solo (l := Frame.rebuild) trivial rebuild_tombstoned
  · rcases hvisible emptyIndex rfl 1 rfl rfl with hmem | hdelta
    · exact List.not_mem_nil hmem
    · cases hdelta

end MaluDb.Vector.Coverage
