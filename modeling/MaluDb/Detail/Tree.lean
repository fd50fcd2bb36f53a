import MaluDb.Graph.Edges
import MaluDb.Lib.Tree
import Mathlib.Algebra.Order.Ring.Int
import Mathlib.Data.Int.ConditionallyCompleteOrder
import Mathlib.Data.List.Sort
import Mathlib.Data.Prod.Lex
import Mathlib.Logic.Relation
import Mathlib.Order.ConditionallyCompleteLattice.Basic
import Mathlib.Order.ConditionallyCompletePartialOrder.Defs
import Mathlib.Order.WithBot

/-!
# Memory detail objects

`mdo_descendants` and `mdo_subtree_json` (`maludb_core--0.106.0.sql`, 9081-9110 and 9174-9221), over
the rows of `malu$memory_detail_object` that row security lets the caller see.

* The rows are sorted by a text, the ordinals on the way to a row with dots between.
* The objects of `mdo_subtree_json` are trees here; a node has the members but `children`.
* The bound is not NULL. (With NULL the query is unbounded and the JSON is the root alone.)

Results:

* `descendants_preorder_iff`: the rows are the nodes of the tree, and when they come in pre-order.
* `descendants_tenth_before_second`: step 10 comes before step 2.
-/

namespace MaluDb.Detail

open MaluDb.Lib List
open MaluDb.Graph (idText idText_injective)
open MaluDb.Prompt (Text Server codePointLe codePointLe_cons codePointLe_antisymm plainServer)

/-- A row of `malu$memory_detail_object`, with values of type `J` as its `body_jsonb`. -/
structure Mdo (J : Type) where
  mdoId : ℤ
  ownerSchema : Text
  parentMdoId : Option ℤ
  detailKind : Text
  ordinal : Option ℤ
  title : Option Text
  bodyText : Option Text
  bodyJsonb : Option J

variable {J : Type}

/-- The generated column `mdo_uri`. -/
def Mdo.mdoUri (m : Mdo J) : Text := "mdo://".toList ++ m.ownerSchema ++ '/' :: idText m.mdoId

/-! ## Descendants -/

/-- `COALESCE(ordinal::text, '?')`. -/
def ordinalText : Option ℤ → Text
  | none => ['?']
  | some i => idText i

/-- A row of `mdo_descendants`. -/
structure DescendantRow where
  mdoId : ℤ
  parentMdoId : Option ℤ
  depth : ℕ
  ordinalPath : Text
  detailKind : Text
  title : Option Text

def firstRow (m : Mdo J) : DescendantRow :=
  ⟨m.mdoId, m.parentMdoId, 0, ordinalText m.ordinal, m.detailKind, m.title⟩

def childRow (w : DescendantRow) (c : Mdo J) : DescendantRow :=
  ⟨c.mdoId, c.parentMdoId, w.depth + 1, w.ordinalPath ++ '.' :: ordinalText c.ordinal,
    c.detailKind, c.title⟩

section

variable (db : List (Mdo J))

def children (id : ℤ) : List (Mdo J) :=
  db.filter (·.parentMdoId = some id)

def descend (maxDepth : ℤ) (w : DescendantRow) : List DescendantRow :=
  if (w.depth + 1 : ℤ) ≤ maxDepth then (children db w.mdoId).map (childRow w) else []

/-- `ORDER BY ordinal_path, mdo_id`. -/
def rowLe (S : Server) (r r' : DescendantRow) : Prop :=
  if r.ordinalPath = r'.ordinalPath then r.mdoId ≤ r'.mdoId
  else S.le r.ordinalPath r'.ordinalPath = true

instance (S : Server) (r r' : DescendantRow) : Decidable (rowLe S r r') :=
  inferInstanceAs (Decidable (ite _ _ _))

/-- `mdo_descendants`. -/
def mdoDescendants (S : Server) (db : List (Mdo J)) (id maxDepth : ℤ) : List DescendantRow :=
  (Walk.unionAll (descend db maxDepth) (maxDepth.toNat + 1)
    ((db.filter (·.mdoId = id)).map firstRow)).insertionSort (rowLe S)

/-! ## The tree -/

structure Node (J : Type) where
  mdoId : ℤ
  mdoUri : Text
  detailKind : Text
  ordinal : Option ℤ
  title : Option Text
  bodyText : Option Text
  bodyJsonb : Option J

def Mdo.node (m : Mdo J) : Node J :=
  ⟨m.mdoId, m.mdoUri, m.detailKind, m.ordinal, m.title, m.bodyText, m.bodyJsonb⟩

/-- `c.ordinal NULLS LAST, c.mdo_id`. -/
def Mdo.siblingKey (c : Mdo J) : WithTop ℤ ×ₗ ℤ :=
  toLex (match c.ordinal with | none => ⊤ | some i => (i : WithTop ℤ), c.mdoId)

def siblingLe (c c' : Mdo J) : Prop := c.siblingKey ≤ c'.siblingKey

instance (c c' : Mdo J) : Decidable (siblingLe c c') := inferInstanceAs (Decidable (_ ≤ _))

def siblings (id : ℤ) : List (Mdo J) :=
  (children db id).insertionSort siblingLe

/-- `mdo_subtree_json` for a bound that is not negative. A child is looked up again by its id. -/
def subtreeJson (db : List (Mdo J)) : ℕ → ℤ → Option (RoseTree (Node J))
  | 0, id => (db.find? (·.mdoId = id)).map fun w => .node w.node []
  | n + 1, id => (db.find? (·.mdoId = id)).map fun w =>
    .node w.node ((siblings db w.mdoId).filterMap fun c => subtreeJson db n c.mdoId)

/-- `mdo_subtree_json`: NULL if there is no such object. With a negative bound it is the root. -/
def mdoSubtreeJson (id maxDepth : ℤ) : Option (RoseTree (Node J)) :=
  subtreeJson db maxDepth.toNat id

def jsonNodes (id maxDepth : ℤ) : List (Node J) :=
  ((mdoSubtreeJson db id maxDepth).map RoseTree.preorder).getD []

def DescendantRow.key (r : DescendantRow) : ℤ × Text × Option Text :=
  (r.mdoId, r.detailKind, r.title)

def Node.key (n : Node J) : ℤ × Text × Option Text := (n.mdoId, n.detailKind, n.title)

def DistinctIds : Prop := (db.map Mdo.mdoId).Nodup

/-- An object and its parent. -/
def HasParent (x p : ℤ) : Prop := ∃ m ∈ db, m.mdoId = x ∧ m.parentMdoId = some p

/-- Ids are distinct, and parents come before their children in some order. -/
structure Forest : Prop where
  distinct : DistinctIds db
  ranked : ∃ rank : ℤ → ℕ, ∀ x p, HasParent db x p → rank p < rank x

end

/-! ## The rows are the nodes -/

section

variable {S : Server} {db : List (Mdo J)} {maxDepth : ℤ}

theorem DistinctIds.filter_eq {m : Mdo J} : ∀ {db : List (Mdo J)}, DistinctIds db → m ∈ db →
    (db.filter fun m' => m'.mdoId = m.mdoId) = [m]
  | [], _, hm => absurd hm not_mem_nil
  | m₀ :: db, hids, hm => by
    obtain ⟨hnot, hids⟩ := nodup_cons.mp hids
    rcases mem_cons.mp hm with rfl | hm
    · have hrest : (db.filter fun m' => m'.mdoId = m.mdoId) = [] := by
        refine filter_eq_nil_iff.mpr fun m' hm' hid => hnot ?_
        exact of_decide_eq_true hid ▸ mem_map_of_mem hm'
      rw [filter_cons_of_pos (by simp), hrest]
    · have hne : m₀.mdoId ≠ m.mdoId := fun h => hnot (h ▸ mem_map_of_mem hm)
      rw [filter_cons_of_neg (by simpa using hne), filter_eq hids hm]

variable {m : Mdo J}

theorem DistinctIds.find_eq (hids : DistinctIds db) (hm : m ∈ db) :
    (db.find? fun m' => m'.mdoId = m.mdoId) = some m := by
  rw [← List.head?_filter, hids.filter_eq hm]
  rfl

theorem mem_siblings {id : ℤ} {c : Mdo J} :
    c ∈ siblings db id ↔ c ∈ db ∧ c.parentMdoId = some id := by
  unfold siblings children
  rw [mem_insertionSort, mem_filter, decide_eq_true_eq]

def tree (db : List (Mdo J)) : ℕ → Mdo J → RoseTree (Node J)
  | 0, m => .node m.node []
  | n + 1, m => .node m.node ((siblings db m.mdoId).map (tree db n))

theorem subtreeJson_eq (hids : DistinctIds db) : ∀ (n : ℕ) {m : Mdo J}, m ∈ db →
    subtreeJson db n m.mdoId = some (tree db n m)
  | 0, m, hm => by rw [subtreeJson, hids.find_eq hm, Option.map_some, tree]
  | n + 1, m, hm => by
    rw [subtreeJson, hids.find_eq hm, Option.map_some, tree]
    have hchildren : (siblings db m.mdoId).filterMap (fun c => subtreeJson db n c.mdoId)
        = (siblings db m.mdoId).map (tree db n) := by
      rw [← filterMap_eq_map]
      refine filterMap_congr fun c hc => ?_
      exact subtreeJson_eq hids n (mem_siblings.mp hc).1
    rw [hchildren]

def ordered (db : List (Mdo J)) (maxDepth : ℤ) (w : DescendantRow) : List DescendantRow :=
  if (w.depth + 1 : ℤ) ≤ maxDepth then (siblings db w.mdoId).map (childRow w) else []

theorem descend_perm_ordered (w : DescendantRow) :
    (descend db maxDepth w).Perm (ordered db maxDepth w) := by
  unfold descend ordered siblings
  split
  · exact ((perm_insertionSort _ _).symm).map _
  · exact List.Perm.refl _

theorem depthFirst_key : ∀ (n : ℕ) {w : DescendantRow} {m : Mdo J}, w.key = m.node.key →
    (0 < n → (w.depth + n : ℤ) = maxDepth) →
    (depthFirst (ordered db maxDepth) n w).map DescendantRow.key
      = (tree db n m).preorder.map Node.key
  | 0, w, m, hkey, _ => by simp [depthFirst, tree, RoseTree.preorder_node, hkey]
  | n + 1, w, m, hkey, hdepth => by
    have hid : w.mdoId = m.mdoId := congrArg Prod.fst hkey
    have hbound : (w.depth + (n + 1 : ℕ) : ℤ) = maxDepth := hdepth n.succ_pos
    rw [depthFirst, tree, RoseTree.preorder_node, map_cons, map_cons, hkey, ordered,
      if_pos (by omega), hid, flatMap_map, flatMap_map, map_flatMap,
      map_flatMap]
    congr 1
    refine flatMap_congr fun c _ => depthFirst_key n rfl fun _ => ?_
    simp only [childRow]
    omega

theorem mdoDescendants_perm (S : Server) (maxDepth : ℤ) (hids : DistinctIds db) (hm : m ∈ db) :
    (mdoDescendants S db m.mdoId maxDepth).Perm
      (depthFirst (ordered db maxDepth) maxDepth.toNat (firstRow m)) := by
  unfold mdoDescendants
  rw [hids.filter_eq hm]
  refine (perm_insertionSort _ _).trans ((unionAll_perm_depthFirst _ _).trans ?_)
  rw [map_singleton, flatMap_singleton]
  exact depthFirst_perm descend_perm_ordered _ _

/-- The rows in the order of the tree. -/
def treeRows (db : List (Mdo J)) (id maxDepth : ℤ) : List DescendantRow :=
  ((db.filter (·.mdoId = id)).map firstRow).flatMap
    (depthFirst (ordered db maxDepth) maxDepth.toNat)

theorem treeRows_of_mem (hids : DistinctIds db) (hm : m ∈ db) (maxDepth : ℤ) :
    treeRows db m.mdoId maxDepth
      = depthFirst (ordered db maxDepth) maxDepth.toNat (firstRow m) := by
  unfold treeRows
  rw [hids.filter_eq hm, map_singleton, flatMap_singleton]

theorem jsonNodes_key (hids : DistinctIds db) (hm : m ∈ db) :
    (jsonNodes db m.mdoId maxDepth).map Node.key
      = (depthFirst (ordered db maxDepth) maxDepth.toNat (firstRow m)).map DescendantRow.key := by
  unfold jsonNodes mdoSubtreeJson
  rw [subtreeJson_eq hids _ hm, Option.map_some, Option.getD_some]
  refine (depthFirst_key _ rfl fun hpos => ?_).symm
  simp only [firstRow]
  omega

theorem no_rows_of_forall_ne (S : Server) (maxDepth : ℤ) {id : ℤ} (h : ∀ m ∈ db, m.mdoId ≠ id) :
    mdoDescendants S db id maxDepth = [] ∧ jsonNodes db id maxDepth = [] := by
  constructor
  · unfold mdoDescendants
    rw [filter_eq_nil_iff.mpr (by simpa using h), map_nil, Walk.unionAll_nil]
    rfl
  have hfind : (db.find? (·.mdoId = id)) = none := by simpa using h
  unfold jsonNodes mdoSubtreeJson
  cases maxDepth.toNat with
  | zero => rw [subtreeJson, hfind]; rfl
  | succ n => rw [subtreeJson, hfind]; rfl

end

/-! ## No row comes twice -/

section

variable {db : List (Mdo J)} {maxDepth : ℤ}

theorem mem_ordered {w w' : DescendantRow} (h : w' ∈ ordered db maxDepth w) :
    ∃ c ∈ siblings db w.mdoId, w' = childRow w c := by
  unfold ordered at h
  split at h
  · obtain ⟨c, hc, rfl⟩ := mem_map.mp h
    exact ⟨c, hc, rfl⟩
  · cases h

theorem hasParent_of_mem_siblings {id : ℤ} {c : Mdo J} (h : c ∈ siblings db id) :
    HasParent db c.mdoId id :=
  ⟨c, (mem_siblings.mp h).1, rfl, (mem_siblings.mp h).2⟩

theorem DistinctIds.hasParent_unique (hids : DistinctIds db) :
    Relator.RightUnique (HasParent db) := by
  rintro x p p' ⟨m, hm, hid, hp⟩ ⟨m', hm', hid', hp'⟩
  obtain rfl : m = m' := inj_on_of_nodup_map hids hm hm' (hid.trans hid'.symm)
  exact Option.some.inj (hp.symm.trans hp')

theorem ancestor_of_mem_depthFirst : ∀ {n : ℕ} {w x : DescendantRow},
    x ∈ depthFirst (ordered db maxDepth) n w →
      Relation.ReflTransGen (HasParent db) x.mdoId w.mdoId
  | 0, w, x, h => by rw [mem_singleton.mp h]
  | n + 1, w, x, h => by
    rcases mem_cons.mp h with rfl | h
    · exact .refl
    obtain ⟨w', hw', hx⟩ := mem_flatMap.mp h
    obtain ⟨c, hc, rfl⟩ := mem_ordered hw'
    exact (ancestor_of_mem_depthFirst hx).tail (hasParent_of_mem_siblings hc)

theorem rank_le_of_ancestor {rank : ℤ → ℕ} (hrank : ∀ x p, HasParent db x p → rank p < rank x)
    {x p : ℤ} (h : Relation.ReflTransGen (HasParent db) x p) : rank p ≤ rank x := by
  induction h with
  | refl => exact le_rfl
  | tail _ hparent ih => exact (hrank _ _ hparent).le.trans ih

theorem siblings_ids_nodup (hids : DistinctIds db) (id : ℤ) :
    ((siblings db id).map Mdo.mdoId).Nodup := by
  refine ((perm_insertionSort _ _).map _).nodup_iff.mpr ?_
  exact hids.sublist (filter_sublist.map _)

/-- Objects of which one is an ancestor of the other are no siblings. -/
theorem not_ancestor_of_siblings {rank : ℤ → ℕ}
    (hrank : ∀ x p, HasParent db x p → rank p < rank x) (hids : DistinctIds db) {id : ℤ}
    {c c' : Mdo J} (hc : c ∈ siblings db id) (hc' : c' ∈ siblings db id)
    (hne : c.mdoId ≠ c'.mdoId) : ¬ Relation.ReflTransGen (HasParent db) c.mdoId c'.mdoId := by
  intro h
  rcases h.cases_head with heq | ⟨p, hp, hrest⟩
  · exact hne heq
  obtain rfl : p = id := hids.hasParent_unique hp (hasParent_of_mem_siblings hc)
  have hle := rank_le_of_ancestor hrank hrest
  have hlt := hrank _ _ (hasParent_of_mem_siblings hc')
  omega

theorem Forest.nodup_depthFirst (hforest : Forest db) : ∀ (n : ℕ) (w : DescendantRow),
    ((depthFirst (ordered db maxDepth) n w).map DescendantRow.mdoId).Nodup
  | 0, w => nodup_singleton _
  | n + 1, w => by
    obtain ⟨hids, rank, hrank⟩ := hforest
    rw [depthFirst, map_cons, map_flatMap]
    refine nodup_cons.mpr ⟨fun hmem => ?_, nodup_flatMap.mpr ⟨fun w' _ => ?_, ?_⟩⟩
    · -- what is below has a higher rank
      obtain ⟨w', hw', hx⟩ := mem_flatMap.mp hmem
      obtain ⟨x, hx, hid⟩ := mem_map.mp hx
      obtain ⟨c, hc, rfl⟩ := mem_ordered hw'
      have hle := rank_le_of_ancestor hrank (ancestor_of_mem_depthFirst hx)
      have hlt := hrank _ _ (hasParent_of_mem_siblings hc)
      rw [hid] at hle
      exact absurd hle (not_le.mpr hlt)
    · exact nodup_depthFirst ⟨hids, rank, hrank⟩ n w'
    have hsiblings : (siblings db w.mdoId).Pairwise fun c c' => c.mdoId ≠ c'.mdoId :=
      pairwise_map.mp (siblings_ids_nodup hids w.mdoId)
    unfold ordered
    split
    · refine pairwise_map.mpr (hsiblings.imp_of_mem fun {c c'} hc hc' hne z hz hz' => ?_)
      -- an object below both has them both as ancestors, so one of them is above the other
      obtain ⟨x, hx, rfl⟩ := mem_map.mp hz
      obtain ⟨y, hy, hid⟩ := mem_map.mp hz'
      have hy' := ancestor_of_mem_depthFirst hy
      rw [hid] at hy'
      rcases (ancestor_of_mem_depthFirst hx).total_of_right_unique hids.hasParent_unique hy'
        with h | h
      · exact not_ancestor_of_siblings hrank hids hc hc' hne h
      · exact not_ancestor_of_siblings hrank hids hc' hc hne.symm h
    · exact List.Pairwise.nil

end

/-! ## Dotted texts -/

def TextLt (s t : Text) : Prop := codePointLe s t = true ∧ s ≠ t

instance (s t : Text) : Decidable (TextLt s t) := inferInstanceAs (Decidable (_ ∧ _))

variable {t r : Text}

theorem textLt_cons {a b : Char} {s : Text} :
    TextLt (a :: s) (b :: t) ↔ a.toNat < b.toNat ∨ a = b ∧ TextLt s t := by
  unfold TextLt
  rw [codePointLe_cons]
  constructor
  · rintro ⟨h | ⟨rfl, h⟩, hne⟩
    · exact .inl h
    · exact .inr ⟨rfl, h, fun heq => hne (heq ▸ rfl)⟩
  rintro (h | ⟨rfl, h, hne⟩)
  · refine ⟨.inl h, fun heq => ?_⟩
    rw [(List.cons.inj heq).1] at h
    exact lt_irrefl _ h
  · exact ⟨.inr ⟨rfl, h⟩, fun heq => hne (List.cons.inj heq).2⟩

theorem textLt_nil_cons (c : Char) (t : Text) : TextLt [] (c :: t) :=
  ⟨by simp [codePointLe], cons_ne_nil c t |>.symm⟩

theorem TextLt.of_append_left {s : Text} : ∀ {p : Text}, TextLt (p ++ s) (p ++ t) → TextLt s t
  | [], h => h
  | _ :: _, h => ((textLt_cons.mp h).resolve_left (lt_irrefl _)).2.of_append_left

theorem TextLt.append_left {s : Text} (h : TextLt s t) : ∀ p : Text, TextLt (p ++ s) (p ++ t)
  | [] => h
  | _ :: p => textLt_cons.mpr (.inr ⟨rfl, h.append_left p⟩)

/-- What may follow the text of an ordinal in a path: nothing, or a dot and more. -/
def Tail (r : Text) : Prop := r = [] ∨ ∃ rest, r = '.' :: rest

theorem textLt_tail {r' : Text} {c : Char} (hr : Tail r) (hc : '.'.toNat < c.toNat) :
    TextLt r (c :: t ++ r') := by
  rcases hr with rfl | ⟨rest, rfl⟩
  · exact textLt_nil_cons c _
  · exact textLt_cons.mpr (.inl hc)

theorem TextLt.append_tails {r' : Text} (hr : Tail r) : ∀ {t t' : Text},
    (∀ c ∈ t', '.'.toNat < c.toNat) → TextLt t t' → TextLt (t ++ r) (t' ++ r')
  | [], [], _, h => absurd rfl h.2
  | [], c :: t', hdot, _ => textLt_tail hr (hdot c mem_cons_self)
  | _ :: _, [], _, h => absurd h.1 (by simp [codePointLe])
  | a :: t, b :: t', hdot, h => by
    rcases textLt_cons.mp h with hlt | ⟨rfl, hlt⟩
    · exact textLt_cons.mpr (.inl hlt)
    · exact textLt_cons.mpr (.inr ⟨rfl, hlt.append_tails hr
        fun c hc => hdot c (mem_cons_of_mem _ hc)⟩)

theorem dot_lt_of_mem_toString {n : ℕ} {c : Char} (h : c ∈ (toString n).toList) :
    '.'.toNat < c.toNat := by
  have hdigit := isDigit_of_mem_toString h
  simp only [Char.isDigit, Bool.and_eq_true, decide_eq_true_eq] at hdigit
  have hle : (48 : ℕ) ≤ c.toNat := UInt32.le_iff_toNat_le.mp hdigit.1
  exact lt_of_lt_of_le (by decide) hle

theorem exists_ordinalText (o : Option ℤ) :
    ∃ a t, ordinalText o = a :: t ∧ ∀ c ∈ t, '.'.toNat < c.toNat := by
  match o with
  | none => exact ⟨'?', [], rfl, by simp⟩
  | some (.negSucc n) => exact ⟨'-', _, rfl, fun c hc => dot_lt_of_mem_toString hc⟩
  | some (.ofNat n) =>
    have hne : (toString n).toList ≠ [] := by
      rw [toString_toList]
      exact Nat.toDigits_ne_nil
    obtain ⟨a, t, ht⟩ := exists_cons_of_ne_nil hne
    refine ⟨a, t, ht, fun c hc => dot_lt_of_mem_toString (n := n) ?_⟩
    rw [ht]
    exact mem_cons_of_mem _ hc

theorem ordinalText_injective {o o' : Option ℤ} (h : ordinalText o = ordinalText o') : o = o' := by
  have hnull : ∀ i, ordinalText (some i) ≠ ordinalText none := by
    intro i heq
    have hmem : '?' ∈ idText i := by
      rw [show idText i = ['?'] from heq]
      exact mem_singleton_self _
    cases i with
    | ofNat n => exact absurd (isDigit_of_mem_toString hmem) (by decide)
    | negSucc n =>
      rcases mem_cons.mp hmem with hc | hc
      · exact absurd hc (by decide)
      · exact absurd (isDigit_of_mem_toString hc) (by decide)
  match o, o', h with
  | none, none, _ => rfl
  | none, some i, h => exact absurd h.symm (hnull i)
  | some i, none, h => exact absurd h (hnull i)
  | some i, some j, h => exact congrArg some (idText_injective h)

theorem ordinalText_lt_tails {o o' : Option ℤ} (r' : Text) (hr : Tail r)
    (h : TextLt (ordinalText o) (ordinalText o')) :
    TextLt (ordinalText o ++ r) (ordinalText o' ++ r') := by
  obtain ⟨a, t, ht, -⟩ := exists_ordinalText o
  obtain ⟨a', t', ht', hdot⟩ := exists_ordinalText o'
  rw [ht, ht'] at h ⊢
  rcases textLt_cons.mp h with hlt | ⟨rfl, hlt⟩
  · exact textLt_cons.mpr (.inl hlt)
  · exact textLt_cons.mpr (.inr ⟨rfl, hlt.append_tails hr hdot⟩)

/-! ## The order of the rows -/

section

variable {S : Server} {db : List (Mdo J)} {maxDepth : ℤ}

instance : Std.Total (siblingLe (J := J)) where
  total _ _ := le_total _ _

instance : IsTrans (Mdo J) siblingLe where
  trans _ _ _ := le_trans

instance : Std.Total (rowLe S) where
  total r r' := by
    unfold rowLe
    by_cases h : r.ordinalPath = r'.ordinalPath
    · rw [if_pos h, if_pos h.symm]
      exact le_total _ _
    · rw [if_neg h, if_neg (Ne.symm h)]
      exact S.le_total _ _

instance : IsTrans DescendantRow (rowLe S) where
  trans r r' r'' := by
    unfold rowLe
    intro h h'
    by_cases hr : r.ordinalPath = r'.ordinalPath
    · rw [if_pos hr] at h
      rw [hr]
      split_ifs at h' ⊢ with hr'
      · exact h.trans h'
      · exact h'
    rw [if_neg hr] at h
    by_cases hr' : r'.ordinalPath = r''.ordinalPath
    · rwa [← hr', if_neg hr]
    rw [if_neg hr'] at h'
    have hne : r.ordinalPath ≠ r''.ordinalPath :=
      fun heq => hr (S.le_antisymm _ _ h (heq ▸ h'))
    rw [if_neg hne]
    exact S.le_trans _ _ _ h h'

/-- A row comes before another by its path, or by its id if the paths are equal. -/
def Before (r r' : DescendantRow) : Prop :=
  TextLt r.ordinalPath r'.ordinalPath ∨ r.ordinalPath = r'.ordinalPath ∧ r.mdoId < r'.mdoId

theorem Before.rowLe {r r' : DescendantRow} (hS : S.le = codePointLe) (h : Before r r') :
    rowLe S r r' := by
  unfold Detail.rowLe
  rcases h with h | ⟨heq, hlt⟩
  · rw [if_neg h.2, hS]
    exact h.1
  · rw [if_pos heq]
    exact hlt.le

theorem Before.not_rowLe {r r' : DescendantRow} (hS : S.le = codePointLe) (h : Before r r') :
    ¬ Detail.rowLe S r' r := by
  unfold Detail.rowLe
  rcases h with ⟨hle, hne⟩ | ⟨heq, hlt⟩
  · rw [if_neg (Ne.symm hne), hS]
    exact fun hle' => hne (codePointLe_antisymm _ _ hle hle')
  · rw [if_pos heq.symm]
    exact not_le.mpr hlt

/-- Below a row, the texts of the ordinals are in the order of the siblings. Two siblings may have
the same ordinal if the first of them has no children in the tree. -/
def OrdinalsInOrder (db : List (Mdo J)) (maxDepth : ℤ) (w : DescendantRow) : Prop :=
  (siblings db w.mdoId).Pairwise fun c c' =>
    TextLt (ordinalText c.ordinal) (ordinalText c'.ordinal) ∨
      c.ordinal = c'.ordinal ∧ ((w.depth + 1 : ℤ) = maxDepth ∨ siblings db c.mdoId = [])

instance (w : DescendantRow) : Decidable (OrdinalsInOrder db maxDepth w) :=
  inferInstanceAs (Decidable (List.Pairwise _ _))

theorem siblings_by_id (hids : DistinctIds db) (id : ℤ) :
    (siblings db id).Pairwise fun c c' => c.ordinal = c'.ordinal → c.mdoId < c'.mdoId := by
  have hsorted : (siblings db id).Pairwise siblingLe := pairwise_insertionSort _ _
  have hdistinct : (siblings db id).Pairwise fun c c' => c.mdoId ≠ c'.mdoId := by
    exact pairwise_map.mp (siblings_ids_nodup hids id)
  refine (hsorted.and hdistinct).imp fun h heq => ?_
  obtain ⟨hle, hne⟩ := h
  unfold siblingLe Mdo.siblingKey at hle
  rw [heq] at hle
  rcases Prod.Lex.le_iff.mp hle with h | h
  · exact absurd h (lt_irrefl _)
  · exact lt_of_le_of_ne h.2 hne

variable {w x : DescendantRow} {n : ℕ}

theorem path_of_mem_depthFirst : ∀ {n : ℕ} {w x : DescendantRow},
    x ∈ depthFirst (ordered db maxDepth) n w →
      x = w ∨ ∃ rest, x.ordinalPath = w.ordinalPath ++ '.' :: rest
  | 0, w, x, h => .inl (mem_singleton.mp h)
  | n + 1, w, x, h => by
    rcases mem_cons.mp h with rfl | h
    · exact .inl rfl
    obtain ⟨w', hw', hx⟩ := mem_flatMap.mp h
    obtain ⟨c, -, rfl⟩ := mem_ordered hw'
    right
    rcases path_of_mem_depthFirst hx with rfl | ⟨rest, hrest⟩
    · exact ⟨_, rfl⟩
    · exact ⟨ordinalText c.ordinal ++ '.' :: rest, by simp [hrest, childRow]⟩

theorem exists_tail_of_mem_depthFirst (h : x ∈ depthFirst (ordered db maxDepth) n w) :
    ∃ r, Tail r ∧ x.ordinalPath = w.ordinalPath ++ r := by
  rcases path_of_mem_depthFirst h with rfl | ⟨rest, hrest⟩
  · exact ⟨[], .inl rfl, by simp⟩
  · exact ⟨_, .inr ⟨rest, rfl⟩, hrest⟩

theorem before_of_path {rest : Text} (h : x.ordinalPath = w.ordinalPath ++ '.' :: rest) :
    Before w x := by
  have hlt := (textLt_nil_cons '.' rest).append_left w.ordinalPath
  rw [append_nil, ← h] at hlt
  exact .inl hlt

theorem before_of_mem_below {w' : DescendantRow} (hw' : w' ∈ ordered db maxDepth w)
    (hx : x ∈ depthFirst (ordered db maxDepth) n w') : Before w x := by
  obtain ⟨c, -, rfl⟩ := mem_ordered hw'
  obtain ⟨r, -, hpath⟩ := exists_tail_of_mem_depthFirst hx
  refine @before_of_path w x (ordinalText c.ordinal ++ r) ?_
  rw [hpath]
  simp [childRow]

theorem depthFirst_of_ordered_eq_nil (h : ordered db maxDepth w = []) :
    ∀ n, depthFirst (ordered db maxDepth) n w = [w]
  | 0 => rfl
  | n + 1 => by rw [depthFirst, h, flatMap_nil]

theorem before_of_siblings {y : DescendantRow} {c c' : Mdo J}
    (hid : c.ordinal = c'.ordinal → c.mdoId < c'.mdoId)
    (h : TextLt (ordinalText c.ordinal) (ordinalText c'.ordinal) ∨
      c.ordinal = c'.ordinal ∧ ((w.depth + 1 : ℤ) = maxDepth ∨ siblings db c.mdoId = []))
    (hx : x ∈ depthFirst (ordered db maxDepth) n (childRow w c))
    (hy : y ∈ depthFirst (ordered db maxDepth) n (childRow w c')) : Before x y := by
  rcases h with hlt | ⟨heq, hleaf⟩
  · obtain ⟨r, hr, hxpath⟩ := exists_tail_of_mem_depthFirst hx
    obtain ⟨r', -, hypath⟩ := exists_tail_of_mem_depthFirst hy
    left
    have htails := (ordinalText_lt_tails r' hr hlt).append_left (w.ordinalPath ++ ['.'])
    simpa [hxpath, hypath, childRow] using htails
  -- the first sibling is alone, with the path of the second
  have hnil : ordered db maxDepth (childRow w c) = [] := by
    unfold ordered
    rcases hleaf with hdepth | hnone
    · exact if_neg (by simp only [childRow]; omega)
    · simp [childRow, hnone]
  rw [depthFirst_of_ordered_eq_nil hnil, mem_singleton] at hx
  have hpath : (childRow w c).ordinalPath = (childRow w c').ordinalPath := by
    simp [childRow, heq]
  rcases path_of_mem_depthFirst hy with rfl | ⟨rest, hrest⟩
  · exact .inr ⟨hx ▸ hpath, hx ▸ hid heq⟩
  · exact before_of_path (hx ▸ hpath ▸ hrest)

theorem pairwise_before (hids : DistinctIds db) : ∀ (n : ℕ) {w : DescendantRow},
    (∀ x ∈ depthFirst (ordered db maxDepth) n w, (x.depth : ℤ) < maxDepth →
      OrdinalsInOrder db maxDepth x) →
    (depthFirst (ordered db maxDepth) n w).Pairwise Before
  | 0, w, _ => pairwise_singleton _ _
  | n + 1, w, hinorder => by
    have hbelow : ∀ x ∈ (ordered db maxDepth w).flatMap (depthFirst (ordered db maxDepth) n),
        x ∈ depthFirst (ordered db maxDepth) (n + 1) w := fun x hx => mem_cons_of_mem _ hx
    refine pairwise_cons.mpr ⟨fun x hx => ?_, pairwise_flatMap.mpr ⟨fun w' hw' => ?_, ?_⟩⟩
    · obtain ⟨w', hw', hx⟩ := mem_flatMap.mp hx
      exact before_of_mem_below hw' hx
    · exact pairwise_before hids n fun x hx => hinorder x
        (hbelow x (mem_flatMap.mpr ⟨w', hw', hx⟩))
    have hw := hinorder w mem_cons_self
    unfold ordered
    split
    · rename_i hdepth
      refine pairwise_map.mpr (((siblings_by_id hids w.mdoId).and (hw (by omega))).imp ?_)
      rintro c c' ⟨hid, hcase⟩ x hx y hy
      exact before_of_siblings hid hcase hx hy
    · exact List.Pairwise.nil

theorem self_mem_depthFirst (n : ℕ) (w : DescendantRow) :
    w ∈ depthFirst (ordered db maxDepth) n w := by
  cases n with
  | zero => exact mem_singleton_self w
  | succ n => exact mem_cons_self

/-- The rows below two siblings come one after the other, so the siblings are in order. -/
theorem siblings_of_rowLe (hS : S.le = codePointLe) {c c' : Mdo J}
    (hn : (w.depth + 1 + n : ℤ) = maxDepth)
    (h : ∀ x ∈ depthFirst (ordered db maxDepth) n (childRow w c),
      ∀ y ∈ depthFirst (ordered db maxDepth) n (childRow w c'), rowLe S x y) :
    TextLt (ordinalText c.ordinal) (ordinalText c'.ordinal) ∨
      c.ordinal = c'.ordinal ∧ ((w.depth + 1 : ℤ) = maxDepth ∨ siblings db c.mdoId = []) := by
  have hfirst := h _ (self_mem_depthFirst n _) _ (self_mem_depthFirst n _)
  by_cases heq : ordinalText c.ordinal = ordinalText c'.ordinal
  · refine .inr ⟨ordinalText_injective heq, ?_⟩
    by_contra hchild
    obtain ⟨hdepth, hsome⟩ := not_or.mp hchild
    obtain ⟨d, hd⟩ := exists_mem_of_ne_nil _ hsome
    obtain ⟨k, rfl⟩ : ∃ k, n = k + 1 := Nat.exists_eq_succ_of_ne_zero (by omega)
    -- a child of the first one has a longer path than the second one
    have hmem : childRow (childRow w c) d ∈ ordered db maxDepth (childRow w c) := by
      unfold ordered
      rw [if_pos (by simp only [childRow]; omega)]
      exact mem_map_of_mem hd
    have hbelow : childRow (childRow w c) d ∈
        depthFirst (ordered db maxDepth) (k + 1) (childRow w c) :=
      mem_cons_of_mem _ (mem_flatMap.mpr ⟨_, hmem, self_mem_depthFirst k _⟩)
    have hbefore : Before (childRow w c') (childRow (childRow w c) d) := by
      have hpath : (childRow (childRow w c) d).ordinalPath
          = (childRow w c').ordinalPath ++ '.' :: ordinalText d.ordinal := by simp [childRow, heq]
      exact before_of_path hpath
    exact hbefore.not_rowLe hS (h _ hbelow _ (self_mem_depthFirst _ _))
  · left
    have hne : (childRow w c).ordinalPath ≠ (childRow w c').ordinalPath :=
      fun hpath => heq (by simpa [childRow] using hpath)
    unfold rowLe at hfirst
    rw [if_neg hne, hS] at hfirst
    have hlt : TextLt (childRow w c).ordinalPath (childRow w c').ordinalPath := ⟨hfirst, hne⟩
    exact ((textLt_cons.mp hlt.of_append_left).resolve_left (lt_irrefl _)).2

theorem ordinalsInOrder_of_pairwise (hS : S.le = codePointLe) : ∀ (n : ℕ) {w : DescendantRow},
    n = (maxDepth - w.depth).toNat → (depthFirst (ordered db maxDepth) n w).Pairwise (rowLe S) →
      ∀ x ∈ depthFirst (ordered db maxDepth) n w, (x.depth : ℤ) < maxDepth →
        OrdinalsInOrder db maxDepth x
  | 0, w, hn, _, x, hx, hdepth => by
    rw [mem_singleton.mp hx] at hdepth
    omega
  | n + 1, w, hn, hrows, x, hx, hdepth => by
    have hinside : (w.depth + 1 : ℤ) ≤ maxDepth := by omega
    have hordered : ordered db maxDepth w = (siblings db w.mdoId).map (childRow w) :=
      if_pos hinside
    obtain ⟨-, hbelow⟩ := pairwise_cons.mp hrows
    obtain ⟨heach, hbetween⟩ := pairwise_flatMap.mp hbelow
    rcases mem_cons.mp hx with rfl | hx
    · rw [hordered, pairwise_map] at hbetween
      exact hbetween.imp fun h => siblings_of_rowLe hS (by omega) h
    · obtain ⟨w', hw', hx⟩ := mem_flatMap.mp hx
      refine ordinalsInOrder_of_pairwise hS n ?_ (heach w' hw') x hx hdepth
      obtain ⟨c, -, rfl⟩ := mem_ordered hw'
      simp only [childRow]
      omega

theorem mdoDescendants_eq_iff (hforest : Forest db) {m : Mdo J} (hm : m ∈ db) :
    (mdoDescendants S db m.mdoId maxDepth).map DescendantRow.key
        = (treeRows db m.mdoId maxDepth).map DescendantRow.key ↔
      (treeRows db m.mdoId maxDepth).Pairwise (rowLe S) := by
  rw [treeRows_of_mem hforest.distinct hm]
  have hperm := mdoDescendants_perm S maxDepth hforest.distinct hm
  have hnodup : ((depthFirst (ordered db maxDepth) maxDepth.toNat (firstRow m)).map
      DescendantRow.mdoId).Nodup := hforest.nodup_depthFirst _ _
  have hsorted : (mdoDescendants S db m.mdoId maxDepth).Pairwise (rowLe S) :=
    pairwise_insertionSort _ _
  generalize mdoDescendants S db m.mdoId maxDepth = rows at hperm hsorted ⊢
  generalize depthFirst (ordered db maxDepth) maxDepth.toNat (firstRow m) = tree at hperm hnodup ⊢
  constructor
  · -- an id is that of one row only
    intro hkeys
    have hids : rows.map DescendantRow.mdoId = tree.map DescendantRow.mdoId := by
      have hfst := congrArg (List.map Prod.fst) hkeys
      rwa [List.map_map, List.map_map] at hfst
    have heq : rows = tree := by
      refine ext_getElem hperm.length_eq fun i hi hi' => ?_
      refine inj_on_of_nodup_map hnodup (hperm.mem_iff.mp (getElem_mem hi)) (getElem_mem hi') ?_
      have hat : (rows.map DescendantRow.mdoId)[i]? = (tree.map DescendantRow.mdoId)[i]? := by
        rw [hids]
      simpa [hi, hi'] using hat
    exact heq ▸ hsorted
  · intro hinorder
    have heq : rows = tree := by
      refine List.Perm.eq_of_pairwise (fun a b ha hb hab hba => ?_) hsorted hinorder hperm
      refine inj_on_of_nodup_map hnodup (hperm.mem_iff.mp ha) hb ?_
      unfold rowLe at hab hba
      by_cases hpath : a.ordinalPath = b.ordinalPath
      · rw [if_pos hpath] at hab
        rw [if_pos hpath.symm] at hba
        exact le_antisymm hab hba
      · rw [if_neg hpath] at hab
        rw [if_neg (Ne.symm hpath)] at hba
        exact absurd (S.le_antisymm _ _ hab hba) hpath
    rw [heq]

theorem pairwise_rowLe_iff (hS : S.le = codePointLe) (hids : DistinctIds db) {m : Mdo J}
    (hm : m ∈ db) :
    (treeRows db m.mdoId maxDepth).Pairwise (rowLe S) ↔
      ∀ r ∈ treeRows db m.mdoId maxDepth, (r.depth : ℤ) < maxDepth →
        OrdinalsInOrder db maxDepth r := by
  rw [treeRows_of_mem hids hm]
  constructor
  · intro hrows
    refine ordinalsInOrder_of_pairwise hS maxDepth.toNat ?_ hrows
    simp [firstRow]
  · intro hinorder
    exact (pairwise_before hids maxDepth.toNat hinorder).imp (·.rowLe hS)

/-- **The rows are the nodes of the tree. They come in pre-order exactly if their paths, in
the order of the tree, are in the order of their texts**; where texts are compared by code points,
exactly if below every row the texts of the ordinals are in the order of the siblings. -/
theorem descendants_preorder_iff (S : Server) (db : List (Mdo J)) (hforest : Forest db)
    (id maxDepth : ℤ) :
    ((mdoDescendants S db id maxDepth).map DescendantRow.key).Perm
        ((jsonNodes db id maxDepth).map Node.key) ∧
      ((mdoDescendants S db id maxDepth).map DescendantRow.key
          = (jsonNodes db id maxDepth).map Node.key ↔
        (treeRows db id maxDepth).Pairwise (rowLe S)) ∧
      (S.le = codePointLe →
        ((mdoDescendants S db id maxDepth).map DescendantRow.key
            = (jsonNodes db id maxDepth).map Node.key ↔
          ∀ r ∈ treeRows db id maxDepth, (r.depth : ℤ) < maxDepth →
            OrdinalsInOrder db maxDepth r)) := by
  have hids := hforest.distinct
  by_cases hroot : ∃ m ∈ db, m.mdoId = id
  · obtain ⟨m, hm, rfl⟩ := hroot
    have hiff := @mdoDescendants_eq_iff J S db maxDepth hforest m hm
    rw [jsonNodes_key hids hm]
    rw [treeRows_of_mem hids hm] at hiff ⊢
    refine ⟨(mdoDescendants_perm S maxDepth hids hm).map _, hiff, fun hS => hiff.trans ?_⟩
    rw [← treeRows_of_mem hids hm]
    exact pairwise_rowLe_iff hS hids hm
  obtain ⟨hrows, hnodes⟩ := no_rows_of_forall_ne S maxDepth
    fun m hm h => hroot ⟨m, hm, h⟩
  have htree : treeRows db id maxDepth = [] := by
    unfold treeRows
    rw [filter_eq_nil_iff.mpr fun m hm h => hroot ⟨m, hm, by simpa using h⟩]
    rfl
  rw [hrows, hnodes, htree]
  exact ⟨List.Perm.nil, iff_of_true rfl List.Pairwise.nil, fun _ => iff_of_true rfl nofun⟩

end

def step (id ordinal : ℤ) : Mdo Unit :=
  ⟨id, "tenant".toList, some 1, "step".toList, some ordinal, none, none, none⟩

def procedure : Mdo Unit :=
  ⟨1, "tenant".toList, none, "procedure".toList, some 1, none, none, none⟩

/-- Steps 1 and 2, the first with a step of its own: the rows come as the tree has them. -/
theorem descendants_preorder_iff_three :
    (mdoDescendants plainServer [procedure, step 3 2, step 2 1, { step 4 7 with
      parentMdoId := some 2 }] 1 5).map DescendantRow.key
      = (jsonNodes [procedure, step 3 2, step 2 1, { step 4 7 with parentMdoId := some 2 }] 1
        5).map Node.key := by
  have hforest : Forest [procedure, step 3 2, step 2 1, { step 4 7 with parentMdoId := some 2 }] :=
    ⟨by unfold DistinctIds; decide, Int.toNat, by
      rintro x p ⟨m, hm, rfl, hp⟩
      simp only [mem_cons, not_mem_nil, or_false] at hm
      rcases hm with rfl | rfl | rfl | rfl <;> cases hp <;> decide⟩
  refine ((descendants_preorder_iff plainServer _ hforest 1 5).2.2 rfl).mpr ?_
  decide +kernel

/-- Steps 2 and 10: the path `1.10` comes before `1.2`. -/
theorem descendants_tenth_before_second :
    (mdoDescendants plainServer [procedure, step 2 2, step 3 10] 1 5).map DescendantRow.mdoId
        = [1, 3, 2] ∧
      (jsonNodes [procedure, step 2 2, step 3 10] 1 5).map Node.mdoId = [1, 2, 3] := by
  decide +kernel

end MaluDb.Detail
