import MaluDb.Graph.Edges
import MaluDb.Lib.Except

/-!
# Paths of the unified graph

What `uedge_path` returns, against the simple paths of the graph (`SimplePath`).

* `links` are the admitted edges from one vertex to another: without a filter all but the semantic
  ones, with one those whose relation it names.
* The text of a vertex determines it. The walk is the enumeration of `Lib.Walk`, which finds a path
  once for each way to choose its edges.
-/

namespace MaluDb.Graph

open MaluDb.Lib List
open MaluDb.Lib.Walk (unionAll extend simplePaths ways unionAll_map_congr count_simplePaths
  ways_pos_iff ways_eq_one_iff)
open MaluDb.Prompt (Text Server plainServer)

/-! ## Texts of vertices -/

theorem colon_notMem_idText (i : ℤ) : ':' ∉ idText i := by
  have hdigits : ∀ n : ℕ, ':' ∉ (toString n).toList :=
    fun n h => absurd (isDigit_of_mem_toString h) (by decide)
  cases i with
  | ofNat n => exact hdigits n
  | negSucc n =>
    intro h
    rcases mem_cons.mp h with h | h
    · exact absurd h (by decide)
    · exact hdigits (n + 1) h

theorem text_injective : Function.Injective Vertex.text := by
  rintro ⟨kind, i⟩ ⟨kind', j⟩ h
  have hreverse : (idText i).reverse ++ ':' :: kind.reverse
      = (idText j).reverse ++ ':' :: kind'.reverse := by
    simpa [Vertex.text] using congrArg reverse h
  obtain ⟨hid, hkind⟩ := append_sep_inj (by simpa using colon_notMem_idText i)
    (by simpa using colon_notMem_idText j) hreverse
  rw [idText_injective (reverse_injective hid), reverse_injective hkind]

/-! ## The order of rows -/

section

variable (S : Server)

theorem arrayLe_total : ∀ as bs : List Text, arrayLe S as bs = true ∨ arrayLe S bs as = true
  | [], _ => .inl rfl
  | _ :: _, [] => .inr rfl
  | a :: as, b :: bs => by
    by_cases hab : a = b
    · simpa [arrayLe, hab] using arrayLe_total as bs
    · simpa [arrayLe, hab, Ne.symm hab] using S.le_total a b

theorem arrayLe_trans : ∀ {as bs cs : List Text}, arrayLe S as bs = true →
    arrayLe S bs cs = true → arrayLe S as cs = true
  | [], _, _, _, _ => rfl
  | _ :: _, _ :: _, [], _, h => by cases h
  | a :: as, b :: bs, c :: cs, h, h' => by
    simp only [arrayLe] at h h' ⊢
    by_cases hab : a = b
    · subst hab
      rw [if_pos rfl] at h
      by_cases hac : a = c
      · rw [if_pos hac] at h' ⊢
        exact arrayLe_trans h h'
      · rwa [if_neg hac] at h' ⊢
    rw [if_neg hab] at h
    by_cases hbc : b = c
    · subst hbc
      rwa [if_neg hab]
    rw [if_neg hbc] at h'
    have hac : a ≠ c := fun heq => hab (S.le_antisymm a b h (heq ▸ h'))
    rw [if_neg hac]
    exact S.le_trans a b c h h'

instance : Std.Total (rowLe S) where
  total r r' := by
    rcases lt_trichotomy r.1 r'.1 with h | h | h
    · exact .inl (.inl h)
    · exact (arrayLe_total S r.2 r'.2).imp (fun hle => .inr ⟨h, hle⟩) fun hle => .inr ⟨h.symm, hle⟩
    · exact .inr (.inl h)

instance : IsTrans (ℕ × List Text) (rowLe S) where
  trans r r' r'' := by
    rintro (h | ⟨h, hle⟩) (h' | ⟨h', hle'⟩)
    · exact .inl (h.trans h')
    · exact .inl (h' ▸ h)
    · exact .inl (h ▸ h')
    · exact .inr ⟨h.trans h', arrayLe_trans S hle hle'⟩

end

/-! ## Simple paths -/

/-- Whether a filter admits an edge. -/
def admitted : Option (List (Option Text)) → Edge → Bool
  | none, e | some [], e => e.edgeStore ≠ .semanticEdge
  | some rels, e => relIn rels e.rel

/-- The admitted edges that lead from `u` to `v`. -/
def links (edges : List Edge) (a : WalkArgs) (u v : Vertex) : List Edge :=
  edges.filter fun e => e.ownerSchema = a.schema && admitted a.relFilter e &&
    (a.direction ∈ ["out", "both"] && e.source = u && e.target = v ||
      a.direction ∈ ["in", "both"] && e.source = v && e.target = u)

/-- A simple path from the source to the target. -/
structure SimplePath (edges : List Edge) (a : WalkArgs) (target : Vertex) (p : List Vertex) :
    Prop where
  first : p.head? = some a.source
  last : p.getLast? = some target
  simple : p.Nodup
  steps : p.IsChain fun u v => links edges a u v ≠ []
  shortest : 2 ≤ p.length
  longest : p.length ≤ a.maxDepth + 1

/-- The row of a path. -/
def pathRow (p : List Vertex) : ℕ × List Text := (p.length - 1, p.map Vertex.text)

/-- The rows are the simple paths, each once, the shorter ones first. -/
def ReturnsSimplePaths (S : Server) (db : EdgeDb) (a : WalkArgs) (target : Vertex) : Prop :=
  ∃ rows, uedgePath S db a target = .ok rows ∧
    (∀ row ∈ rows, ∃ p, SimplePath (edgeUnified db) a target p ∧ row = pathRow p) ∧
    (∀ p, SimplePath (edgeUnified db) a target p → rows.count (pathRow p) = 1) ∧
    rows.Pairwise fun r r' => r.1 ≤ r'.1

section

variable {edges : List Edge} {a : WalkArgs} {target : Vertex}

theorem admits_eq_admitted (relFilter : Option (List (Option Text))) (e : Edge) :
    admits relFilter e = admitted relFilter e := by
  match relFilter with
  | none => simp [admits, admitted]
  | some [] => simp [admits, admitted]
  | some (r :: rels) => cases h : relIn (r :: rels) e.rel <;> simp [admits, admitted, h]

/-- The vertices that a walk may go to, one for each edge. -/
def next (edges : List Edge) (a : WalkArgs) (u : Vertex) : List Vertex :=
  (edges.filter (joins a u)).map (other u)

theorem joins_other_iff (u v : Vertex) (e : Edge) :
    (joins a u e && other u e = v) = (e.ownerSchema = a.schema && admitted a.relFilter e &&
      (a.direction ∈ ["out", "both"] && e.source = u && e.target = v ||
        a.direction ∈ ["in", "both"] && e.source = v && e.target = u)) := by
  unfold joins other
  rw [admits_eq_admitted, Bool.eq_iff_iff]
  by_cases hu : e.source = u
  · subst hu
    simp only [if_pos, Bool.and_eq_true, Bool.or_eq_true, decide_eq_true_eq]
    constructor
    · rintro ⟨⟨⟨howner, hdir⟩, hadmitted⟩, rfl⟩
      refine ⟨⟨howner, hadmitted⟩, ?_⟩
      rcases hdir with hout | ⟨hin, htarget⟩
      · exact .inl ⟨hout, rfl⟩
      · exact .inr ⟨⟨hin, htarget.symm⟩, htarget⟩
    · rintro ⟨⟨howner, hadmitted⟩, ⟨hout, rfl⟩ | ⟨⟨hin, rfl⟩, htarget⟩⟩
      · exact ⟨⟨⟨howner, .inl hout⟩, hadmitted⟩, rfl⟩
      · exact ⟨⟨⟨howner, .inr ⟨hin, htarget⟩⟩, hadmitted⟩, htarget⟩
  · simp only [hu, Bool.and_eq_true, Bool.or_eq_true, decide_eq_true_eq, and_false,
      false_or, false_and]
    tauto

theorem count_next (u v : Vertex) : (next edges a u).count v = (links edges a u v).length := by
  unfold next links
  rw [count, countP_map, countP_filter, countP_eq_length_filter]
  congr 1
  refine filter_congr fun e _ => ?_
  rw [← joins_other_iff, Bool.and_comm]
  rfl

/-! ## The walk enumerates simple paths -/

/-- What is read of a row, and of a path in reverse. -/
def rowKey (w : WalkRow) : Option Vertex × ℕ × List Text := (some w.vertex, w.depth, w.path)

def pathKey (p : List Vertex) : Option Vertex × ℕ × List Text :=
  (p.head?, p.length - 1, p.reverse.map Vertex.text)

/-- Whether the target is reached, in at least one step. -/
def reaches (target : Vertex) (k : Option Vertex × ℕ × List Text) : Bool :=
  k.1 = some target && 0 < k.2.1

theorem walkStep_map (w : WalkRow) (p : List Vertex) (h : rowKey w = pathKey p) :
    (walkStep edges a w).map rowKey
      = (extend (next edges a) a.maxDepth.toNat p).map pathKey := by
  cases p with
  | nil => cases h
  | cons u p =>
    obtain ⟨v, depth, rel, store, path⟩ := w
    simp only [rowKey, pathKey, head?_cons, length_cons, Nat.add_sub_cancel,
      Prod.mk.injEq, Option.some.injEq] at h
    obtain ⟨rfl, rfl, rfl⟩ := h
    have hpath : ∀ x : Vertex,
        (!((v :: p).reverse.map Vertex.text).contains x.text) = decide (x ∉ v :: p) := by
      intro x
      rw [Bool.eq_iff_iff, Bool.not_eq_true', ← Bool.not_eq_true, contains_iff_mem,
        decide_eq_true_eq, mem_map_of_injective text_injective, mem_reverse]
    unfold walkStep
    rw [extend]
    by_cases hdepth : (v :: p).length ≤ a.maxDepth.toNat
    · have hlt : ((p.length : ℕ) : ℤ) < a.maxDepth := by
        simp only [length_cons] at hdepth
        omega
      rw [if_pos hdepth, next, filter_map, filter_filter, List.map_map, List.map_map, List.map_map]
      have hfilter : (edges.filter fun e => joins a v e && decide ((p.length : ℤ) < a.maxDepth) &&
          !((v :: p).reverse.map Vertex.text).contains (other v e).text)
            = edges.filter fun e => decide (other v e ∉ v :: p) && joins a v e := by
        refine filter_congr fun e _ => ?_
        rw [decide_eq_true hlt, Bool.and_true, Bool.and_comm, hpath]
      rw [hfilter]
      refine map_congr_left fun e _ => ?_
      simp [rowKey, pathKey]
    · have hge : ¬ ((p.length : ℕ) : ℤ) < a.maxDepth := by
        simp only [length_cons] at hdepth
        omega
      rw [if_neg hdepth]
      simp [hge]

theorem uedgePath_eq (S : Server) (db : EdgeDb) (hdirection : a.direction ∈ ["out", "in", "both"])
    (hdepth : 1 ≤ a.maxDepth ∧ a.maxDepth ≤ 32) :
    uedgePath S db a target = .ok
      ((((simplePaths (next (edgeUnified db) a) a.maxDepth.toNat a.source
        (a.maxDepth.toNat + 1)).filter fun p => reaches target (pathKey p)).map
          fun p => pathRow p.reverse).insertionSort (rowLe S)) := by
  have hwalk : (unionAll (walkStep (edgeUnified db) a) (a.maxDepth.toNat + 1)
      [⟨a.source, 0, none, none, [a.source.text]⟩]).map rowKey
        = (simplePaths (next (edgeUnified db) a) a.maxDepth.toNat a.source
          (a.maxDepth.toNat + 1)).map pathKey :=
    unionAll_map_congr walkStep_map _ rfl
  have hrows : ∀ rows : List WalkRow,
      ((rows.filter fun w => 0 < w.depth).filter (·.vertex = target)).map
        (fun w => (w.depth, w.path)) =
        ((rows.map rowKey).filter (reaches target)).map Prod.snd := by
    intro rows
    rw [filter_filter, filter_map, List.map_map]
    congr 1
    refine filter_congr fun w _ => ?_
    rw [Function.comp_apply, Bool.eq_iff_iff]
    simp only [reaches, Bool.and_eq_true, decide_eq_true_eq]
    simp [rowKey]
  have hpaths : ∀ ps : List (List Vertex), ((ps.map pathKey).filter (reaches target)).map Prod.snd
      = (ps.filter fun p => reaches target (pathKey p)).map fun p => pathRow p.reverse := by
    intro ps
    rw [filter_map, List.map_map]
    refine map_congr_left fun p _ => ?_
    simp [pathKey, pathRow]
  unfold uedgePath uedgeWalk
  rw [if_neg (not_not.mpr hdirection), if_neg (by omega), if_neg (not_not.mpr hdirection)]
  rw [← hpaths, ← hwalk, ← hrows]
  rfl

theorem pathRow_injective : Function.Injective pathRow := by
  intro p q h
  exact map_injective_iff.mpr text_injective (Prod.mk.inj h).2

theorem count_uedgePath (S : Server) (db : EdgeDb)
    (hdirection : a.direction ∈ ["out", "in", "both"])
    (hdepth : 1 ≤ a.maxDepth ∧ a.maxDepth ≤ 32) {rows : List (ℕ × List Text)}
    (h : uedgePath S db a target = .ok rows) (p : List Vertex) :
    rows.count (pathRow p) = if p.getLast? = some target ∧ 2 ≤ p.length ∧
      p.length ≤ a.maxDepth + 1 then ways (next (edgeUnified db) a) a.source p.reverse else 0 := by
  rw [uedgePath_eq S db hdirection hdepth] at h
  cases h
  rw [(perm_insertionSort _ _).count_eq]
  have hmap : ∀ l : List (List Vertex), (l.map fun p => pathRow p.reverse).count (pathRow p)
      = l.count p.reverse := by
    intro l
    have hcount := count_map_of_injective l (fun p => pathRow p.reverse)
      (pathRow_injective.comp reverse_injective) p.reverse
    rwa [reverse_reverse] at hcount
  rw [hmap]
  have hreaches : reaches target (pathKey p.reverse) = true ↔
      p.getLast? = some target ∧ 0 < p.length - 1 := by
    simp [reaches, pathKey]
  by_cases hends : reaches target (pathKey p.reverse) = true
  · rw [count_filter (by exact hends), count_simplePaths _ le_rfl, length_reverse]
    rw [hreaches] at hends
    refine if_congr ?_ rfl rfl
    constructor
    · intro hlen
      exact ⟨hends.1, by omega, by omega⟩
    · rintro ⟨-, -, hlen⟩
      omega
  · have hnot : p.reverse ∉ (simplePaths (next (edgeUnified db) a) a.maxDepth.toNat a.source
        (a.maxDepth.toNat + 1)).filter fun p => reaches target (pathKey p) :=
      fun hmem => hends (mem_filter.mp hmem).2
    rw [count_eq_zero_of_not_mem hnot]
    rw [hreaches] at hends
    rw [if_neg fun hp => hends ⟨hp.1, by omega⟩]

theorem simplePath_iff (db : EdgeDb) (p : List Vertex) :
    SimplePath (edgeUnified db) a target p ↔
      (p.getLast? = some target ∧ 2 ≤ p.length ∧ p.length ≤ a.maxDepth + 1) ∧
        0 < ways (next (edgeUnified db) a) a.source p.reverse := by
  have hsteps : (p.reverse.IsChain fun v u => v ∈ next (edgeUnified db) a u) ↔
      p.IsChain fun u v => links (edgeUnified db) a u v ≠ [] := by
    rw [isChain_reverse]
    refine List.IsChain.iff fun u v => ?_
    rw [← count_pos_iff, count_next, length_pos_iff]
  rw [ways_pos_iff, hsteps, getLast?_reverse, nodup_reverse]
  exact ⟨fun h => ⟨⟨h.last, h.shortest, h.longest⟩, h.first, h.simple, h.steps⟩,
    fun ⟨⟨hlast, hshort, hlong⟩, hfirst, hsimple, hsteps⟩ =>
      ⟨hfirst, hlast, hsimple, hsteps, hshort, hlong⟩⟩

theorem returnsSimplePaths_of_args (S : Server) (db : EdgeDb) (a : WalkArgs) (target : Vertex)
    (hdirection : a.direction ∈ ["out", "in", "both"])
    (hdepth : 1 ≤ a.maxDepth ∧ a.maxDepth ≤ 32) :
    ReturnsSimplePaths S db a target ↔ ∀ p, SimplePath (edgeUnified db) a target p →
      p.IsChain fun u v => (links (edgeUnified db) a u v).length = 1 := by
  have hone : ∀ p : List Vertex, SimplePath (edgeUnified db) a target p →
      (ways (next (edgeUnified db) a) a.source p.reverse = 1 ↔
        p.IsChain fun u v => (links (edgeUnified db) a u v).length = 1) := by
    intro p hp
    rw [ways_eq_one_iff _ ((simplePath_iff db p).mp hp).2, isChain_reverse]
    exact List.IsChain.iff fun u v => by rw [count_next]
  have hcount : ∀ {rows : List (ℕ × List Text)}, uedgePath S db a target = .ok rows →
      ∀ p, SimplePath (edgeUnified db) a target p →
        rows.count (pathRow p) = ways (next (edgeUnified db) a) a.source p.reverse := by
    intro rows hrows p hp
    rw [count_uedgePath S db hdirection hdepth hrows, if_pos ((simplePath_iff db p).mp hp).1]
  constructor
  · rintro ⟨rows, hrows, -, honce, -⟩ p hp
    rw [← hone p hp, ← hcount hrows p hp]
    exact honce p hp
  intro hsingle
  refine ⟨_, uedgePath_eq S db hdirection hdepth, fun row hrow => ?_, fun p hp => ?_, ?_⟩
  · rw [mem_insertionSort] at hrow
    obtain ⟨p, -, rfl⟩ := mem_map.mp hrow
    refine ⟨p.reverse, (simplePath_iff db _).mpr ?_, rfl⟩
    have hmem := count_pos_iff.mpr ((mem_insertionSort (rowLe S)).mpr hrow)
    rw [count_uedgePath S db hdirection hdepth (uedgePath_eq S db hdirection hdepth)] at hmem
    split at hmem
    · exact ⟨by assumption, hmem⟩
    · cases hmem
  · rw [hcount (uedgePath_eq S db hdirection hdepth) p hp]
    exact (hone p hp).mpr (hsingle p hp)
  · exact (pairwise_insertionSort (rowLe S) _).imp fun h => h.elim le_of_lt (·.1.le)

end

/-! ## Two edges between the same vertices -/

/-- **The rows are the simple paths, each once and the shorter ones first**, exactly if the
arguments pass their checks and no step of a simple path has more than one admitted edge. -/
theorem returnsSimplePaths_iff (S : Server) (db : EdgeDb) (a : WalkArgs) (target : Vertex) :
    ReturnsSimplePaths S db a target ↔
      (a.direction ∈ ["out", "in", "both"] ∧ 1 ≤ a.maxDepth ∧ a.maxDepth ≤ 32) ∧
        ∀ p, SimplePath (edgeUnified db) a target p →
          p.IsChain fun u v => (links (edgeUnified db) a u v).length = 1 := by
  constructor
  · intro h
    have hargs : a.direction ∈ ["out", "in", "both"] ∧ 1 ≤ a.maxDepth ∧ a.maxDepth ≤ 32 := by
      obtain ⟨rows, hok, -⟩ := h
      unfold uedgePath at hok
      split at hok
      · cases hok
      split at hok
      · cases hok
      rename_i hdirection hdepth
      exact ⟨not_not.mp hdirection, by omega, by omega⟩
    exact ⟨hargs, (returnsSimplePaths_of_args S db a target hargs.1 hargs.2).mp h⟩
  · rintro ⟨⟨hdirection, hdepth⟩, hall⟩
    exact (returnsSimplePaths_of_args S db a target hdirection hdepth).mpr hall

/-- Statements of a schema from subject 1 to subject 2, one for each verb. -/
def subjectsJoined (verbs : List ℕ) : EdgeDb where
  verbs := []
  statements := verbs.map fun v =>
    ⟨"tenant", ⟨"subject".toList, 1⟩, v, ⟨"subject".toList, 2⟩⟩
  relationshipEdges := []
  subjectRelationships := []
  semanticEdges := []

/-- From subject 1, any relation, at most three steps. -/
def fromSubject : WalkArgs := ⟨"tenant", ⟨"subject".toList, 1⟩, 3, "out", none⟩

/-- Statements from subject 1 to subject 2, from there to subject 3, and from 1 to 3. -/
def subjectsTriangle : EdgeDb where
  verbs := []
  statements := [(1, 2), (2, 3), (1, 3)].map fun (s, t) =>
    ⟨"tenant", ⟨"subject".toList, s⟩, 1, ⟨"subject".toList, t⟩⟩
  relationshipEdges := []
  subjectRelationships := []
  semanticEdges := []

/-- Two paths to subject 3, each returned once. -/
theorem returnsSimplePaths_triangle :
    ReturnsSimplePaths plainServer subjectsTriangle fromSubject ⟨"subject".toList, 3⟩ := by
  refine (returnsSimplePaths_iff plainServer subjectsTriangle fromSubject _).mpr
    ⟨by decide, fun p hp => hp.steps.imp fun u v hlinks => ?_⟩
  -- different statements have different ends
  have hends : ((edgeUnified subjectsTriangle).map fun e => (e.source, e.target)).Nodup := by decide
  have hle : (links (edgeUnified subjectsTriangle) fromSubject u v).length ≤ 1 := by
    have hsub : ((links (edgeUnified subjectsTriangle) fromSubject u v).map fun e =>
        (e.source, e.target)).Nodup := hends.sublist (filter_sublist.map _)
    have hall : ∀ x ∈ (links (edgeUnified subjectsTriangle) fromSubject u v).map
        fun e => (e.source, e.target), x = (u, v) := by
      intro x hx
      obtain ⟨e, he, rfl⟩ := mem_map.mp hx
      have := (mem_filter.mp he).2
      simp [fromSubject] at this
      exact Prod.ext this.2.1 this.2.2
    rw [eq_replicate_of_mem hall, length_map] at hsub
    exact nodup_replicate.mp hsub
  have hpos := length_pos_iff.mpr hlinks
  omega

/-- Two statements with different verbs: the path between their ends is returned twice. -/
theorem uedgePath_repeats :
    let db := subjectsJoined [1, 2]
    let source : Vertex := ⟨"subject".toList, 1⟩
    let target : Vertex := ⟨"subject".toList, 2⟩
    SimplePath (edgeUnified db) fromSubject target [source, target] ∧
      (∃ rows, uedgePath plainServer db fromSubject target = .ok rows ∧
        rows.count (pathRow [source, target]) = 2) ∧
      ¬ ReturnsSimplePaths plainServer db fromSubject target := by
  intro db source target
  have hsimple : SimplePath (edgeUnified db) fromSubject target [source, target] :=
    ⟨rfl, rfl, by decide, isChain_pair.mpr (by decide), by decide, by decide⟩
  have htwice : ∀ rows, uedgePath plainServer db fromSubject target = .ok rows →
      rows.count (pathRow [source, target]) = 2 := by
    intro rows hrows
    rw [count_uedgePath plainServer db (by decide) (by decide) hrows,
      if_pos ⟨rfl, by decide, by decide⟩]
    decide
  refine ⟨hsimple, ⟨_, uedgePath_eq plainServer db (by decide) (by decide), ?_⟩, ?_⟩
  · exact htwice _ (uedgePath_eq plainServer db (by decide) (by decide))
  rintro ⟨rows, hrows, -, honce, -⟩
  have hcount := honce _ hsimple
  rw [htwice rows hrows] at hcount
  omega

end MaluDb.Graph
