import MaluDb.PageIndex.Markdown
import Mathlib.Data.List.Pairwise
import Mathlib.Order.Lattice

/-!
# The outline of a PDF

`_walk_outline`, `_destination_title` and `_next_sibling_page` of `parsers/pypdf_parser.py`
(74-160).

* `Nodes` is the nested list that pypdf gives: a destination, or the list of the children of the
  destination before it. `title` is the title that it has, if any, and `page` the index of its
  page, `none` if looking it up raises.
* An entry is kept with the one whose children it was found among, which the source does not record.
* `Outline` is the tree of an outline, of which every destination has a page. `toNodes` is the list
  that stands for it.
-/

namespace MaluDb.PageIndex

open List Option

/-- A nested list of pypdf. -/
inductive Nodes where
  | nil
  | dest (title : Option String) (page : Option ℕ) (rest : Nodes)
  | list (children rest : Nodes)

structure PdfEntry where
  title : String
  level : ℕ
  pageFirst : ℕ
  pageLast : ℕ
  ordinal : ℕ
  deriving DecidableEq

/-- `_destination_title`. -/
def destinationTitle (title : Option String) : String :=
  match title.map fun t => strip t.toList with
  | none | some [] => "(untitled)"
  | some stripped => String.ofList stripped

/-- `_destination_page`. -/
def destinationPage (page : Option ℕ) : ℕ := (page.map (· + 1)).getD 1

/-- `_next_sibling_page`, for the nodes behind a destination. -/
def nextSiblingPage (total : ℕ) : Nodes → ℕ
  | .nil => total
  | .dest _ (some idx) _ => max idx 1
  | .dest _ none _ => total
  | .list _ rest => nextSiblingPage total rest

/-- `_walk_outline`: the entries of the nodes, the first one with this ordinal. -/
def walkOutline (total : ℕ) (parent : Option PdfEntry) (level ordinal : ℕ) :
    Nodes → List (Option PdfEntry × PdfEntry)
  | .nil => []
  | .list _ rest => walkOutline total parent level ordinal rest
  | .dest title page (.list children rest) =>
    let e : PdfEntry :=
      ⟨destinationTitle title, level, destinationPage page,
        nextSiblingPage total (.list children rest), ordinal⟩
    let below := walkOutline total (some e) (level + 1) (ordinal + 1) children
    (parent, e) :: below ++ walkOutline total parent level (ordinal + 1 + below.length) rest
  | .dest title page rest =>
    let e : PdfEntry :=
      ⟨destinationTitle title, level, destinationPage page, nextSiblingPage total rest, ordinal⟩
    (parent, e) :: walkOutline total parent level (ordinal + 1) rest

/-! ## Trees -/

inductive Outline where
  | nil
  | node (title : String) (page : ℕ) (children siblings : Outline)

def Outline.toNodes : Outline → Nodes
  | .nil => .nil
  | .node title page .nil siblings => .dest (some title) (some page) siblings.toNodes
  | .node title page children siblings =>
    .dest (some title) (some page) (.list children.toNodes siblings.toNodes)

def Outline.pages : Outline → List ℕ
  | .nil => []
  | .node _ page children siblings => page :: (children.pages ++ siblings.pages)

/-- The destinations are in document order, on pages of the document. -/
def Outline.InOrder (total : ℕ) (o : Outline) : Prop :=
  o.pages.Pairwise (· ≤ ·) ∧ ∀ p ∈ o.pages, p < total

def Outline.page? : Outline → Option ℕ
  | .nil => none
  | .node _ page _ _ => some page

/-- Siblings begin on different pages, but for the first page, and only last siblings have children
unless there is one page only. -/
def Outline.Separate (total : ℕ) : Outline → Prop
  | .nil => True
  | .node _ page children siblings =>
    (∀ next, siblings.page? = some next → page < next ∨ page = 0) ∧
      (children.page? ≠ none → siblings.page? = none ∨ total = 1) ∧
      children.Separate total ∧ siblings.Separate total

/-- The range of an entry is one of the document and lies in that of its parent. -/
structure GoodRange (total : ℕ) (x : Option PdfEntry × PdfEntry) : Prop where
  first : 1 ≤ x.2.pageFirst
  range : x.2.pageFirst ≤ x.2.pageLast
  last : x.2.pageLast ≤ total
  inside : ∀ p, x.1 = some p → p.pageFirst ≤ x.2.pageFirst ∧ x.2.pageLast ≤ p.pageLast

variable {total level ordinal page : ℕ} {title : String} {parent : Option PdfEntry}
  {o children siblings : Outline}

def lastPage (total : ℕ) (siblings : Outline) : ℕ := (siblings.page?.map (max · 1)).getD total

theorem nextSiblingPage_toNodes (total : ℕ) (siblings : Outline) :
    nextSiblingPage total siblings.toNodes = lastPage total siblings := by
  match siblings with
  | .nil => rfl
  | .node _ _ .nil _ => rfl
  | .node _ _ (.node ..) _ => rfl

/-- The entry of a node. -/
def entryOf (total level ordinal : ℕ) (title : String) (page : ℕ) (siblings : Outline) : PdfEntry :=
  ⟨destinationTitle (some title), level, page + 1, lastPage total siblings, ordinal⟩

theorem walkOutline_node (total level ordinal : ℕ) (title : String) (page : ℕ)
    (children siblings : Outline) (parent : Option PdfEntry) : ∃ ordinal',
    walkOutline total parent level ordinal (Outline.node title page children siblings).toNodes =
      (parent, entryOf total level ordinal title page siblings) ::
        walkOutline total (some (entryOf total level ordinal title page siblings)) (level + 1)
          (ordinal + 1) children.toNodes ++
        walkOutline total parent level ordinal' siblings.toNodes := by
  have hlast := nextSiblingPage_toNodes total siblings
  cases children with
  | nil =>
    refine ⟨ordinal + 1, ?_⟩
    match siblings with
    | .nil => rfl
    | .node _ _ .nil _ => rfl
    | .node _ _ (.node ..) _ => rfl
  | node =>
    simp only [Outline.toNodes, walkOutline, destinationPage, nextSiblingPage, hlast, entryOf,
      map_some, getD_some]
    exact ⟨_, rfl⟩

theorem page_mem_pages {q : ℕ} (h : o.page? = some q) : q ∈ o.pages := by
  cases o with
  | nil => cases h
  | node =>
    cases h
    exact mem_cons_self

theorem lastPage_le (hpage : page < total) (hnext : ∀ q, siblings.page? = some q → q < total) :
    lastPage total siblings ≤ total := by
  cases hq : siblings.page? with
  | none => simp [lastPage, hq]
  | some q =>
    have := hnext q hq
    simp only [lastPage, hq, map_some, getD_some]
    omega

theorem le_lastPage (hpage : page < total) (hnext : ∀ q, siblings.page? = some q → page ≤ q) :
    max page 1 ≤ lastPage total siblings := by
  cases hq : siblings.page? with
  | none =>
    simp only [lastPage, hq, Option.map_none, getD_none]
    omega
  | some q =>
    have := hnext q hq
    simp only [lastPage, hq, map_some, getD_some]
    omega

theorem lastPage_eq_iff (hnext : ∀ q, siblings.page? = some q → q < total) :
    lastPage total siblings = total ↔ siblings.page? = none ∨ total = 1 := by
  cases hq : siblings.page? with
  | none => simp [lastPage, hq]
  | some q =>
    have := hnext q hq
    simp only [lastPage, hq, map_some, getD_some, reduceCtorEq, false_or]
    omega

theorem goodRange_iff (hpage : page < total) (hnext : ∀ q, siblings.page? = some q → q < total)
    (hparent : ∀ p, parent = some p → p.pageLast ≤ total ∧ p.pageFirst ≤ page + 1 ∧
      ∀ q, siblings.page? = some q → max q 1 ≤ p.pageLast) :
    GoodRange total (parent, entryOf total level ordinal title page siblings) ↔
      (∀ next, siblings.page? = some next → page < next ∨ page = 0) ∧
        (siblings.page? = none → ∀ p, parent = some p → p.pageLast = total) := by
  cases hq : siblings.page? with
  | none =>
    have hlast : lastPage total siblings = total := by simp [lastPage, hq]
    constructor
    · intro h
      refine ⟨by simp, fun _ p hp => le_antisymm (hparent p hp).1 ?_⟩
      exact hlast ▸ (h.inside p hp).2
    rintro ⟨-, h⟩
    refine ⟨Nat.le_add_left 1 page, ?_, hlast.le, fun p hp => ⟨(hparent p hp).2.1, ?_⟩⟩
    · exact hpage.trans_eq hlast.symm
    · exact (hlast.trans (h rfl p hp).symm).le
  | some q =>
    have hlast : lastPage total siblings = max q 1 := by simp [lastPage, hq]
    have := hnext q hq
    constructor
    · intro h
      have hrange : page + 1 ≤ max q 1 := hlast ▸ h.range
      simp only [Option.some.injEq, forall_eq', reduceCtorEq, false_implies, and_true]
      omega
    rintro ⟨h, -⟩
    refine ⟨Nat.le_add_left 1 page, ?_, ?_, fun p hp => ⟨(hparent p hp).2.1, ?_⟩⟩
    · have := h q rfl
      simp only [entryOf, hlast]
      omega
    · simp only [entryOf, hlast]
      omega
    · exact hlast.trans_le ((hparent p hp).2.2 q hq)

theorem walkOutline_good (ho : o.InOrder total)
    (hparent : ∀ p, parent = some p → p.pageLast ≤ total ∧
      ∀ q ∈ o.pages, p.pageFirst ≤ q + 1 ∧ max q 1 ≤ p.pageLast) :
    (∀ x ∈ walkOutline total parent level ordinal o.toNodes, GoodRange total x) ↔
      o.Separate total ∧ (o.page? ≠ none → ∀ p, parent = some p → p.pageLast = total) := by
  induction o generalizing parent level ordinal with
  | nil => simp [Outline.toNodes, walkOutline, Outline.Separate, Outline.page?]
  | node title page children siblings ihc ihs =>
    obtain ⟨hsorted, hlt⟩ := ho
    simp only [Outline.pages, pairwise_cons, pairwise_append, mem_append,
      mem_cons] at hsorted hlt hparent
    obtain ⟨hfirst, hc, hs, hcs⟩ := hsorted
    have hpage : page < total := hlt page (.inl rfl)
    have hnext : ∀ q, siblings.page? = some q → q < total := fun q hq =>
      hlt q (.inr (.inr (page_mem_pages hq)))
    obtain ⟨ordinal', hwalk⟩ :=
      walkOutline_node total level ordinal title page children siblings parent
    have hentry : GoodRange total (parent, entryOf total level ordinal title page siblings) ↔ _ :=
      goodRange_iff hpage hnext fun p hp => ⟨(hparent p hp).1, ((hparent p hp).2 page (.inl rfl)).1,
        fun q hq => ((hparent p hp).2 q (.inr (.inr (page_mem_pages hq)))).2⟩
    have hsiblings : (∀ x ∈ walkOutline total parent level ordinal' siblings.toNodes, _) ↔ _ :=
      ihs ⟨hs, fun q hq => hlt q (.inr (.inr hq))⟩
        fun p hp => ⟨(hparent p hp).1, fun q hq => (hparent p hp).2 q (.inr (.inr hq))⟩
    have hlast := lastPage_eq_iff hnext
    -- The children lie before the next sibling.
    have hchildren : (∀ x ∈ walkOutline total
          (some (entryOf total level ordinal title page siblings)) (level + 1) (ordinal + 1)
          children.toNodes, _) ↔ _ :=
      ihc ⟨hc, fun q hq => hlt q (.inr (.inl hq))⟩ fun p hp => by
        cases hp
        refine ⟨lastPage_le hpage hnext, fun q hq => ⟨?_, ?_⟩⟩
        · exact Nat.succ_le_succ (hfirst q (.inl hq))
        · exact le_lastPage (hlt q (.inr (.inl hq))) fun b hb => hcs q hq b (page_mem_pages hb)
    simp only [hwalk, cons_append, forall_mem_cons, forall_mem_append, hentry,
      hsiblings, hchildren, Option.some.injEq, forall_eq']
    simp only [entryOf, hlast]
    constructor
    · rintro ⟨⟨hpages, hend⟩, ⟨hbelow, honly⟩, hbehind, hmore⟩
      refine ⟨⟨hpages, honly, hbelow, hbehind⟩, fun _ => ?_⟩
      by_cases hq : siblings.page? = none
      · exact hend hq
      · exact hmore hq
    · rintro ⟨⟨hpages, honly, hbelow, hbehind⟩, hend⟩
      have hend := hend (some_ne_none page)
      exact ⟨⟨hpages, fun _ => hend⟩, ⟨hbelow, honly⟩, hbehind, fun _ => hend⟩

/-- **The ranges of an outline in document order.** -/
theorem walkOutline_good_iff (total : ℕ) (o : Outline) (ho : o.InOrder total) :
    (∀ x ∈ walkOutline total none 0 0 o.toNodes, GoodRange total x) ↔ o.Separate total := by
  rw [walkOutline_good ho (by simp)]
  simp

/-- Two chapters, the second one with a section on its second page. -/
def twoChapters : Outline := .node "A" 0 .nil (.node "B" 1 (.node "C" 2 .nil .nil) .nil)

theorem walkOutline_good_iff_two : twoChapters.InOrder 4 ∧
    ∀ x ∈ walkOutline 4 none 0 0 twoChapters.toNodes, GoodRange 4 x := by
  have ho : twoChapters.InOrder 4 := ⟨by decide, by decide⟩
  refine ⟨ho, (walkOutline_good_iff 4 _ ho).2 ?_⟩
  simp [twoChapters, Outline.Separate, Outline.page?]

/-- Of two siblings on the second page, the first one ends before it begins. A child goes on to the
end of the document although its parent ends where the next chapter begins. -/
theorem walkOutline_bad :
    ((Outline.node "A" 1 .nil (.node "B" 1 .nil .nil)).InOrder 3 ∧
      walkOutline 3 none 0 0 (Outline.node "A" 1 .nil (.node "B" 1 .nil .nil)).toNodes =
        [(none, ⟨"A", 0, 2, 1, 0⟩), (none, ⟨"B", 0, 2, 3, 1⟩)]) ∧
    (Outline.node "A" 0 (.node "B" 0 .nil .nil) (.node "C" 1 .nil .nil)).InOrder 3 ∧
      walkOutline 3 none 0 0
          (Outline.node "A" 0 (.node "B" 0 .nil .nil) (.node "C" 1 .nil .nil)).toNodes =
        [(none, ⟨"A", 0, 1, 1, 0⟩), (some ⟨"A", 0, 1, 1, 0⟩, ⟨"B", 1, 1, 3, 1⟩),
          (none, ⟨"C", 0, 2, 3, 2⟩)] :=
  ⟨⟨⟨by decide, by decide⟩, rfl⟩, ⟨by decide, by decide⟩, rfl⟩

end MaluDb.PageIndex
