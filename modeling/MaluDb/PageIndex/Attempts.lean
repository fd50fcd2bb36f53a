import MaluDb.Lib.Run
import MaluDb.PageIndex.Builder

/-!
# Trees that are ready

An attempt that fails keeps the nodes that it has recorded, and the next attempt starts with the
first entry again.
-/

namespace MaluDb.PageIndex

open MaluDb.Lib Function Option Session
open List hiding beq_eq_decide

/-! ## Trees of an outline -/

def NodeRow.entry (n : NodeRow) : OutlineEntry :=
  ⟨n.title, n.anchor.level, n.anchor.first, n.anchor.last, n.anchor.ordinal⟩

def parentOf? (outline : List OutlineEntry) (entry : OutlineEntry) : Option OutlineEntry :=
  if entry.level = 0 then none
  else ((outline.takeWhile (· ≠ entry)).filter fun e => e.level = entry.level - 1).getLast?

/-- The node of an entry. -/
def nodeOf? (nodes : List NodeRow) (entry : OutlineEntry) : Option NodeRow :=
  nodes.find? (·.entry = entry)

/-- One node for each entry, with the node of the parent entry as its parent. -/
structure Matches (outline : List OutlineEntry) (nodes : List NodeRow) : Prop where
  entries : nodes.map NodeRow.entry = outline
  parents : ∀ n ∈ nodes, n.parentMdoId =
    ((parentOf? outline n.entry).bind (nodeOf? nodes)).map NodeRow.mdoId

/-- The trees that are ready match the outlines of their sources. -/
def Good (jobs : ℕ → Job) (db : Db) : Prop :=
  ∀ t, ∀ source ∈ (jobs t).source, db.status? t = some .ready →
    Matches source.outline (db.nodesOf t)

/-- An attempt for a tree without nodes, of an outline with distinct ordinals. -/
def Clean (jobs : ℕ → Job) (s : Session Db) : Op → Prop
  | .attempt t _ =>
    (∀ source ∈ (jobs t).source, (source.outline.map OutlineEntry.ordinal).Nodup) ∧
      ∀ db ∈ s.view?, db.status? t = some .pending ∨ db.status? t = some .failed → db.nodesOf t = []
  | _ => True

instance decidableClean (jobs : ℕ → Job) (s : Session Db) : (op : Op) → Decidable (Clean jobs s op)
  | .attempt t _ => inferInstanceAs (Decidable (
    (∀ source ∈ (jobs t).source, (source.outline.map OutlineEntry.ordinal).Nodup) ∧
      ∀ db ∈ s.view?, db.status? t = some .pending ∨ db.status? t = some .failed →
        db.nodesOf t = []))
  | .crash => isTrue trivial
  | .commit => isTrue trivial

/-! ## Parents -/

theorem resolveParent_eq (entry : OutlineEntry) (outline : List OutlineEntry) :
    resolveParent entry outline = parentOf? outline entry := by
  unfold resolveParent parentOf?
  split
  · rfl
  · rw [getLast?_filter, takeWhile_eq_take_findIdx_not]
    simp [idxOf, beq_eq_decide]

theorem mem_of_mem_takeWhile {x y : OutlineEntry} {rest : List OutlineEntry} :
    ∀ {done : List OutlineEntry}, x ∈ done ∨ rest.head? = some x →
      y ∈ (done ++ rest).takeWhile (· ≠ x) → y ∈ done
  | [], hx, hy => by
    obtain ⟨rest', rfl⟩ := head?_eq_some_iff.mp (hx.resolve_left not_mem_nil)
    simp at hy
  | d :: done, hx, hy => by
    rw [cons_append, takeWhile_cons] at hy
    split at hy
    · rename_i hne
      rcases mem_cons.mp hy with rfl | hy
      · exact mem_cons_self
      · refine mem_cons_of_mem d (mem_of_mem_takeWhile (hx.imp_left fun hx => ?_) hy)
        exact (mem_cons.mp hx).resolve_left fun heq => by simp [heq] at hne
    · cases hy

theorem parentOf?_mem {x y : OutlineEntry} {done rest : List OutlineEntry}
    (hx : x ∈ done ∨ rest.head? = some x) (h : parentOf? (done ++ rest) x = some y) :
    y ∈ done := by
  unfold parentOf? at h
  split at h
  · cases h
  · exact mem_of_mem_takeWhile hx (mem_of_mem_filter (mem_of_getLast? h))

/-! ## The loop -/

/-- The nodes of the entries so far, and the ids that the loop keeps of them. -/
structure Partial (outline done : List OutlineEntry) (mdoForEntry : Int → Option ℕ)
    (nodes : List NodeRow) : Prop where
  entries : nodes.map NodeRow.entry = done
  parents : ∀ n ∈ nodes, n.parentMdoId =
    ((parentOf? outline n.entry).bind (nodeOf? nodes)).map NodeRow.mdoId
  ids : ∀ n ∈ nodes, mdoForEntry n.entry.ordinal = some n.mdoId

theorem nodeOf?_isSome {nodes : List NodeRow} {x : OutlineEntry} (h : x ∈ nodes.map NodeRow.entry) :
    ∃ n ∈ nodes, n.entry = x ∧ nodeOf? nodes x = some n := by
  obtain ⟨n, hn, rfl⟩ := mem_map.mp h
  have hsome : (nodeOf? nodes n.entry).isSome := find?_isSome.mpr ⟨n, hn, by simp⟩
  obtain ⟨m, hm⟩ := isSome_iff_exists.mp hsome
  exact ⟨m, mem_of_find?_eq_some hm, by simpa using find?_some hm, hm⟩

section

variable {done rest : List OutlineEntry} {e : OutlineEntry} {mdoForEntry : Int → Option ℕ}
  {nodes : List NodeRow}

theorem Partial.parent_found {x y : OutlineEntry}
    (h : Partial (done ++ e :: rest) done mdoForEntry nodes) (hx : x ∈ done ∨ x = e)
    (hy : parentOf? (done ++ e :: rest) x = some y) (n : NodeRow) :
    ∃ m ∈ nodes, m.entry = y ∧ nodeOf? nodes y = some m ∧ nodeOf? (nodes ++ [n]) y = some m := by
  have hmem := parentOf?_mem (hx.imp_right fun hx => by simp [hx]) hy
  obtain ⟨m, hm, hentry, hfind⟩ := nodeOf?_isSome (h.entries ▸ hmem)
  refine ⟨m, hm, hentry, hfind, ?_⟩
  unfold nodeOf? at hfind ⊢
  rw [find?_append, hfind, some_or]

theorem Partial.append {n : NodeRow}
    (h : Partial (done ++ e :: rest) done mdoForEntry nodes)
    (hnodup : ((done ++ e :: rest).map OutlineEntry.ordinal).Nodup) (hentry : n.entry = e)
    (hparent : n.parentMdoId = resolveParentMdo e (done ++ e :: rest) mdoForEntry) :
    Partial (done ++ e :: rest) (done ++ [e])
      (update mdoForEntry e.ordinal (some n.mdoId)) (nodes ++ [n]) := by
  refine ⟨by rw [map_append, h.entries, map_singleton, hentry], ?_, ?_⟩
  · intro m hm
    rcases mem_append.mp hm with hm | hm
    · have hdone : m.entry ∈ done := h.entries ▸ mem_map_of_mem hm
      rw [h.parents m hm]
      cases hp : parentOf? (done ++ e :: rest) m.entry with
      | none => rfl
      | some y =>
        obtain ⟨m', -, -, hold, hnew⟩ := h.parent_found (.inl hdone) hp n
        rw [bind_some, bind_some, hold, hnew]
    obtain rfl := mem_singleton.mp hm
    rw [hparent, resolveParentMdo, resolveParent_eq, hentry]
    cases hp : parentOf? (done ++ e :: rest) e with
    | none => rfl
    | some y =>
      obtain ⟨m', hm', rfl, -, hnew⟩ := h.parent_found (.inr rfl) hp m
      rw [bind_some, bind_some, hnew, h.ids m' hm', map_some]
  · intro m hm
    rcases mem_append.mp hm with hm | hm
    · have hdone : m.entry ∈ done := h.entries ▸ mem_map_of_mem hm
      have hne : m.entry.ordinal ≠ e.ordinal := by
        intro heq
        rw [map_append, map_cons] at hnodup
        exact (nodup_append.mp hnodup).2.2 _ (mem_map_of_mem hdone) _
          mem_cons_self heq
      rw [update_of_ne hne, h.ids m hm]
    · obtain rfl := mem_singleton.mp hm
      rw [hentry, update_self]

end

/-! ## Blocks -/

section

variable {A : Type} {faults : Faults} {p : Point} {body : Db → Except String (Db × A)}
  {s : Session Db} {P : Db → Prop}

theorem block_cases (faults : Faults) (p : Point) (body : Db → Except String (Db × A))
    (s : Session Db) :
    (∃ v d a, s.view? = some v ∧ body v = .ok (d, a) ∧ block faults p body s = (s.write d, .ok a)) ∨
      (∃ text, block faults p body s = (s, .raised text)) ∨
      block faults p body s = (s.reset, .crashed) := by
  unfold block
  cases faults.fate p with
  | crash => exact .inr (.inr rfl)
  | raises text =>
    refine .inr (.inl ?_)
    unfold transaction
    cases s.view? with
    | none => exact ⟨abortedText, rfl⟩
    | some v => exact ⟨text, rfl⟩
  | fine =>
    rcases ht : s.transaction abortedText body with ⟨s', e | a⟩
    · obtain rfl := transaction_eq_error ht
      exact .inr (.inl ⟨e, rfl⟩)
    · obtain ⟨v, d, hv, hbody, rfl⟩ := transaction_eq_ok ht
      exact .inl ⟨v, d, a, hv, hbody, rfl⟩

theorem holds_block (h : s.Holds P)
    (hbody : ∀ v d a, s.view? = some v → body v = .ok (d, a) → P d) :
    (block faults p body s).1.Holds P := by
  rcases block_cases faults p body s with ⟨v, d, a, hv, hok, hblock⟩ | ⟨text, hblock⟩ | hblock
  · rw [hblock]
    exact h.write (hbody v d a hv hok)
  · rw [hblock]
    exact h
  · rw [hblock]
    exact h.reset

end

/-! ## Ready trees -/

variable {jobs : ℕ → Job} {t : ℕ} {db d : Db}

theorem markTree_eq_ok {function states : String} {allowed : List BuildStatus}
    {change : TreeRow → TreeRow} {u : Unit}
    (h : markTree function states allowed change t db = .ok (d, u)) :
    ∃ row, db.trees t = some row ∧ row.buildStatus ∈ allowed ∧
      d = { db with trees := update db.trees t (some (change row)) } := by
  unfold markTree at h
  split at h
  · rename_i row hrow
    split at h
    · rename_i hallowed
      cases h
      exact ⟨row, hrow, by simpa using hallowed, rfl⟩
    · cases h
  · cases h

theorem good_update (h : Good jobs db) {row : TreeRow}
    (hready : ∀ source ∈ (jobs t).source, row.buildStatus = .ready →
      Matches source.outline (db.nodesOf t)) :
    Good jobs { db with trees := update db.trees t (some row) } := by
  intro t' source hsource hstatus
  by_cases ht : t' = t
  · subst ht
    refine hready source hsource ?_
    simpa [Db.status?] using hstatus
  · refine h t' source hsource ?_
    simpa [Db.status?, update_of_ne ht] using hstatus

theorem nodesOf_insert (nodes : Serial NodeRow NodeRow.mdoId) (mk : ℕ → NodeRow)
    (hmk : ∀ id, (mk id).mdoId = id) (t : ℕ) (trees : ℕ → Option TreeRow)
    (passes : List StructurePass) :
    Db.nodesOf ⟨trees, nodes.insert mk hmk, passes⟩ t = Db.nodesOf ⟨trees, nodes, passes⟩ t ++
        if (mk nodes.next).treeId = t then [mk nodes.next] else [] := by
  unfold Db.nodesOf Serial.insert
  rw [filter_append, filter_singleton]
  simp

section

variable {mdoForEntry : Int → Option ℕ} {entry : OutlineEntry} {faults : Faults}

theorem recordEntry_eq_ok {source : Source} {id : ℕ}
    (h : recordEntry faults t source mdoForEntry entry db = .ok (d, id)) :
    ∃ n : NodeRow, n.mdoId = id ∧ n.treeId = t ∧ n.entry = entry ∧
      n.parentMdoId = resolveParentMdo entry source.outline mdoForEntry ∧ d.trees = db.trees ∧
      ∀ t', d.nodesOf t' = db.nodesOf t' ++ if n.treeId = t' then [n] else [] := by
  cases h
  exact ⟨_, rfl, rfl, rfl, rfl, rfl, fun t' => nodesOf_insert _ _ _ t' _ _⟩

theorem good_recordEntry {source : Source} {id : ℕ} (h : Good jobs db)
    (hstatus : db.status? t ≠ some .ready)
    (hok : recordEntry faults t source mdoForEntry entry db = .ok (d, id)) : Good jobs d := by
  obtain ⟨n, -, htree, -, -, htrees, hnodes⟩ := recordEntry_eq_ok hok
  intro t' source' hsource' hready
  have hready : db.status? t' = some .ready := by
    unfold Db.status? at hready ⊢
    rwa [htrees] at hready
  have hne : n.treeId ≠ t' := by
    rintro rfl
    exact hstatus (htree ▸ hready)
  rw [hnodes t', if_neg hne, append_nil]
  exact h t' source' hsource' hready

end

/-! ## An attempt -/

section

variable {faults : Faults} {s : Session Db} {source : Source}

structure Looping (t : ℕ) (outline done : List OutlineEntry) (mdoForEntry : Int → Option ℕ)
    (s : Session Db) (db : Db) : Prop where
  view : s.view? = some db
  status : db.status? t = some .building
  nodes : Partial outline done mdoForEntry (db.nodesOf t)

/-- **The loop keeps ready trees, and when it ends well the tree has the nodes of the outline.** -/
theorem recordNodes_spec (faults : Faults)
    (hnodup : (source.outline.map OutlineEntry.ordinal).Nodup) :
    ∀ (rest : List OutlineEntry) (i : ℕ) (done : List OutlineEntry) (mdoForEntry : Int → Option ℕ)
      (s : Session Db) (db : Db), source.outline = done ++ rest → s.Holds (Good jobs) →
      Looping t source.outline done mdoForEntry s db →
      (recordNodes faults t source i rest mdoForEntry s).1.Holds (Good jobs) ∧
        ((recordNodes faults t source i rest mdoForEntry s).2 = .ok () →
          ∃ db', (recordNodes faults t source i rest mdoForEntry s).1.view? = some db' ∧
            Matches source.outline (db'.nodesOf t))
  | [], _, done, _, s, db, hout, hgood, hloop => by
    refine ⟨hgood, fun _ => ⟨db, hloop.view, ?_, hloop.nodes.parents⟩⟩
    rw [hloop.nodes.entries, hout, append_nil]
  | e :: rest, i, done, mdoForEntry, s, db, hout, hgood, hloop => by
    have hready : db.status? t ≠ some .ready := by simp [hloop.status]
    simp only [recordNodes]
    cases faults.fate (.summarize i) with
    | crash => exact ⟨hgood.reset, by simp⟩
    | raises text => exact ⟨hgood, by simp⟩
    | fine =>
      rcases block_cases faults (.recordNode i) (recordEntry faults t source mdoForEntry e) s with
        ⟨v, d, id, hv, hok, hblock⟩ | ⟨text, hblock⟩ | hblock
      · obtain rfl : db = v := some.inj (hloop.view.symm.trans hv)
        obtain ⟨n, rfl, htree, hentry, hparent, htrees, hnodes⟩ := recordEntry_eq_ok hok
        simp only [hblock]
        refine recordNodes_spec faults hnodup rest (i + 1) (done ++ [e]) _ (s.write d) d
          (by rw [hout, append_assoc]; rfl)
          (hgood.write (good_recordEntry (hgood.view db hv) hready hok))
          ⟨view?_write hv d, ?_, ?_⟩
        · unfold Db.status?
          rw [htrees]
          exact hloop.status
        rw [hnodes t, if_pos htree]
        have hpartial := hloop.nodes
        rw [hout] at hpartial hnodup hparent ⊢
        exact hpartial.append hnodup hentry hparent
      · simp only [hblock]
        exact ⟨hgood, by simp⟩
      · simp only [hblock]
        exact ⟨hgood.reset, by simp⟩

theorem holds_failTree {reason text : String} {count leaves : ℕ} (h : s.Holds (Good jobs)) :
    (failTree faults t reason count leaves text s).1.Holds (Good jobs) := by
  have hblock : (block faults .markFailed (pageIndexTreeMarkFailed reason t) s).1.Holds
      (Good jobs) := by
    refine holds_block h fun v d _ hv hok => ?_
    obtain ⟨row, -, -, rfl⟩ := markTree_eq_ok hok
    exact good_update (h.view v hv) fun _ _ hready => by cases hready
  unfold failTree
  rcases hres : block faults .markFailed (pageIndexTreeMarkFailed reason t) s with ⟨s', reply⟩
  rw [hres] at hblock
  cases reply <;> exact hblock

theorem fetchSource_spec (faults : Faults) (job : Job) (h : s.Holds (Good jobs)) :
    (fetchSource faults job s).1.Holds (Good jobs) ∧
      ∀ source, (fetchSource faults job s).2 = .ok source →
        job.source = some source ∧ (fetchSource faults job s).1.view? = s.view? := by
  unfold fetchSource
  cases faults.fate .fetch with
  | crash => exact ⟨h.reset, by simp⟩
  | raises text =>
    refine ⟨h.query abortedText _, ?_⟩
    unfold query
    cases s.view? <;> simp [Reply.ofExcept]
  | fine =>
    have hquery := h.query abortedText fun _ => (Except.ok job.source : Except String _)
    rcases hres : s.query abortedText fun _ => (Except.ok job.source : Except String _) with
      ⟨s', e | found⟩
    · rw [hres] at hquery
      exact ⟨hquery, by simp⟩
    rw [hres] at hquery
    have hview := query_eq_ok hres
    obtain rfl : job.source = found := by
      unfold query at hres
      split at hres
      · cases hres
      · cases hres
        rfl
    cases hsource : job.source with
    | none => exact ⟨hquery, by simp⟩
    | some source =>
      exact ⟨hquery, fun source' heq => ⟨by cases heq; rfl, hview⟩⟩

theorem holds_markReady (faults : Faults) (h : s.Holds (Good jobs))
    (hsource : (jobs t).source = some source)
    (hview : ∃ db, s.view? = some db ∧ Matches source.outline (db.nodesOf t)) :
    (block faults .markReady (pageIndexTreeMarkReady t) s).1.Holds (Good jobs) := by
  obtain ⟨db, hdb, hmatches⟩ := hview
  refine holds_block h fun v d _ hv hok => ?_
  obtain rfl : db = v := some.inj (hdb.symm.trans hv)
  obtain ⟨row, -, -, rfl⟩ := markTree_eq_ok hok
  refine good_update (h.view db hv) fun source' hsource' _ => ?_
  obtain rfl : source = source' := some.inj (hsource.symm.trans hsource')
  exact hmatches

theorem holds_buildFrom (hsource : (jobs t).source = some source)
    (hnodup : (source.outline.map OutlineEntry.ordinal).Nodup) (h : s.Holds (Good jobs))
    (hdb : s.view? = some db) (hstatus : db.status? t = some .building)
    (hempty : db.nodesOf t = []) : (buildFrom faults t source s).1.Holds (Good jobs) := by
  simp only [buildFrom]
  rcases block_cases faults .structurePass (pageIndexRecordStructurePass ⟨t, source.parserKind,
    source.parserVersion, source.outline.length, (source.outline.filter fun e =>
      isLeafInOutline e source.outline).length, source.inputsHash⟩) s with
    ⟨v, d, u, hv, hok, hblock⟩ | ⟨text, hblock⟩ | hblock
  · obtain rfl : db = v := some.inj (hdb.symm.trans hv)
    obtain ⟨hpass, hstatus, hempty⟩ : Good jobs d ∧ d.status? t = some .building ∧
        d.nodesOf t = [] := by
      cases hok
      exact ⟨h.view db hv, hstatus, hempty⟩
    simp only [hblock]
    have hstart : Partial source.outline [] (fun _ => none) (d.nodesOf t) := by
      rw [hempty]
      exact ⟨rfl, by simp, by simp⟩
    obtain ⟨hgood, hmatches⟩ := recordNodes_spec faults hnodup source.outline 0 []
      (fun _ => none) (s.write d) d rfl (h.write hpass)
      ⟨view?_write hv d, hstatus, hstart⟩
    rcases hloop : recordNodes faults t source 0 source.outline (fun _ => none) (s.write d) with
      ⟨s', reply⟩
    rw [hloop] at hgood hmatches
    cases reply with
    | crashed => exact hgood
    | raised text => exact holds_failTree hgood
    | ok u =>
      have hready := holds_markReady faults hgood hsource (hmatches rfl)
      dsimp only
      rcases hres : block faults .markReady (pageIndexTreeMarkReady t) s' with ⟨s'', reply⟩
      rw [hres] at hready
      cases reply <;> exact hready
  · simp only [hblock]
    exact h
  · simp only [hblock]
    exact h.reset

/-- **An attempt for a tree without nodes leaves every ready tree with matching nodes.** -/
theorem inv_attempt (h : s.Holds (Good jobs)) (hclean : Clean jobs s (.attempt t faults)) :
    (buildTree faults t (jobs t) s).1.Holds (Good jobs) := by
  obtain ⟨hnodup, hempty⟩ := hclean
  unfold buildTree
  rcases block_cases faults .markBuilding (pageIndexTreeMarkBuilding t) s with
    ⟨v, d, u, hv, hok, hblock⟩ | ⟨text, hblock⟩ | hblock
  · simp only [hblock]
    obtain ⟨row, hrow, hallowed, rfl⟩ := markTree_eq_ok hok
    have hstart : v.status? t = some .pending ∨ v.status? t = some .failed := by
      simpa [Db.status?, hrow] using hallowed
    have hbuilding : Good jobs { v with
        trees := update v.trees t (some { row with buildStatus := .building }) } :=
      good_update (h.view v hv) fun _ _ hready => by cases hready
    have hwrite := h.write hbuilding
    obtain ⟨hfetch, hsource⟩ := fetchSource_spec faults (jobs t) hwrite
    rcases hres : fetchSource faults (jobs t) (s.write _) with ⟨s', reply⟩
    rw [hres] at hfetch hsource
    cases reply with
    | crashed => exact hfetch
    | raised text => exact hfetch
    | ok source =>
      obtain ⟨hjob, hview⟩ := hsource source rfl
      dsimp only
      cases faults.fate .parse with
      | crash => exact hfetch.reset
      | raises text => exact holds_failTree hfetch
      | fine =>
        refine holds_buildFrom hjob (hnodup source hjob) hfetch
          (hview.trans (view?_write hv _)) ?_ (hempty v hv hstart)
        simp [Db.status?]
  · simp only [hblock]
    exact h
  · simp only [hblock]
    exact h.reset

end

/-! ## Runs -/

theorem inv_step (jobs : ℕ → Job) (s : Session Db) (op : Op) (h : s.Holds (Good jobs))
    (hclean : Clean jobs s op) : (step jobs s op).Holds (Good jobs) := by
  cases op with
  | attempt t faults => exact inv_attempt h hclean
  | crash => exact h.reset
  | commit => exact h.commit

theorem good_registered (trees : ℕ → Bool) : Good jobs (Db.registered trees) := by
  intro t source _ hready
  cases ht : trees t <;> simp [Db.status?, Db.registered, ht] at hready

/-- **In every run of clean attempts, with crashes and commits between them, every tree that is
ready, committed or seen by the worker, has one node for each entry of its outline, under the node
of the parent entry.** -/
theorem ready_matches (jobs : ℕ → Job) (trees : ℕ → Bool) (ops : List Op)
    (hclean : Along (step jobs) (Clean jobs) ⟨Db.registered trees, .idle⟩ ops) :
    (run (step jobs) ⟨Db.registered trees, .idle⟩ ops).Holds (Good jobs) :=
  run_induct (fun s op => inv_step jobs s op) _ ops
    ⟨good_registered trees, fun _ hv => some.inj hv ▸ good_registered trees⟩ hclean

/-- A chapter. -/
def chapter : OutlineEntry := ⟨"Chapter", 0, [("line_first", 1)], [("line_last", 2)], 0⟩

/-- Its only part. -/
def part : OutlineEntry := ⟨"Part", 1, [("line_first", 2)], [("line_last", 2)], 1⟩

def shortSource : Source :=
  ⟨"markdown", "stdlib-1", [chapter, part], [⟨1, "# Chapter\n## Part", ["# Chapter", "## Part"]⟩],
    "hash"⟩

def faultAt (p : Option Point) (fate : Fate) : Faults where
  fate q := if some q = p then fate else .fine
  summarizer req := ⟨req.nodeTitle, "deterministic-test", "local-1"⟩

def parserRun : List Op :=
  [.attempt 1 (faultAt (some .parse) (.raises "bad input")), .attempt 1 (faultAt none .fine),
    .commit]

theorem ready_matches_parserRun :
    let jobs := fun _ => (⟨1, some shortSource⟩ : Job)
    let s := run (step jobs) ⟨Db.registered (· == 1), .idle⟩ parserRun
    Along (step jobs) (Clean jobs) ⟨Db.registered (· == 1), .idle⟩ parserRun ∧
      s.Holds (Good jobs) ∧ s.committed.status? 1 = some .ready ∧
      (s.committed.nodesOf 1).map (fun n => (n.mdoId, n.parentMdoId, n.title)) =
        [(1, none, "Chapter"), (2, some 1, "Part")] :=
  ⟨by decide +kernel, ready_matches _ (· == 1) parserRun (by decide +kernel), by decide +kernel,
    by decide +kernel⟩

def summarizerRun : List Op :=
  [.attempt 1 (faultAt (some (.summarize 1)) (.raises "timeout")), .attempt 1 (faultAt none .fine),
    .commit]

/-- **A retry leaves a second node of an entry in a ready tree.** -/
theorem retry_duplicates :
    let jobs := fun _ => (⟨1, some shortSource⟩ : Job)
    let s := run (step jobs) ⟨Db.registered (· == 1), .idle⟩ summarizerRun
    s.committed.status? 1 = some .ready ∧
      (s.committed.nodesOf 1).map (fun n => (n.mdoId, n.parentMdoId, n.title)) =
        [(1, none, "Chapter"), (2, none, "Chapter"), (3, some 2, "Part")] ∧
      ¬ Good jobs s.committed := by
  refine ⟨by decide +kernel, by decide +kernel, fun hgood => ?_⟩
  have hentries := (hgood 1 shortSource rfl (by decide +kernel)).entries
  exact absurd hentries (by decide +kernel)

end MaluDb.PageIndex
