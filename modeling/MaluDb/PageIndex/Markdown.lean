import Mathlib.Order.Lattice
import MaluDb.PageIndex.Builder

/-!
# The outline of a markdown text

`extract_outline` of `parsers/markdown_parser.py`, and the tree that `build_tree` makes of it with
`_is_leaf_in_outline` and `_resolve_parent_mdo`.

* A text is what decoding the source gives. The regular expressions are written out: a run of `#` is
  followed by something else, so that `#{1,6}\s+` has one way to match.
* Nodes are told apart by their ordinals, so that the parent of a node is that of its entry.
-/

namespace MaluDb.PageIndex

open List

/-! ## The parser -/

/-- Where `splitlines` ends a line. -/
def isLineBreak (c : Char) : Bool :=
  [0x0a, 0x0b, 0x0c, 0x0d, 0x1c, 0x1d, 0x1e, 0x85, 0x2028, 0x2029].contains c.toNat

/-- `splitlines`. -/
def splitLines : List Char → List (List Char)
  | [] => []
  | '\r' :: '\n' :: rest => [] :: splitLines rest
  | c :: rest =>
    if isLineBreak c then [] :: splitLines rest
    else
      match splitLines rest with
      | [] => [[c]]
      | line :: lines => (c :: line) :: lines

/-- White space of Python, which is `\s`. -/
def isSpace (c : Char) : Bool :=
  let n := c.toNat
  9 ≤ n && n ≤ 13 || 0x1c ≤ n && n ≤ 0x20 || 0x2000 ≤ n && n ≤ 0x200a ||
    [0x85, 0xa0, 0x1680, 0x2028, 0x2029, 0x202f, 0x205f, 0x3000].contains n

def lstrip (text : List Char) : List Char := text.dropWhile isSpace

def strip (text : List Char) : List Char := (lstrip (lstrip text).reverse).reverse

/-- `_FENCE_RE`: the marker at the start of a line. -/
def fenceMatch (line : List Char) : Option (List Char) :=
  if (line.takeWhile isSpace).length ≤ 3 then
    ["```".toList, "~~~".toList].find? fun marker => marker.isPrefixOf (lstrip line)
  else none

/-- `_HEADER_RE`: the level and the title. -/
def headerMatch (line : List Char) : Option (ℕ × List Char) :=
  let hashes := (line.takeWhile (· == '#')).length
  let rest := line.dropWhile (· == '#')
  if 1 ≤ hashes && hashes ≤ 6 && rest.head?.any isSpace then some (hashes - 1, strip rest) else none

structure Header where
  lineNo : ℕ
  level : ℕ
  title : List Char

/-- The first loop of `extract_outline`, from line `idx` on. `fence` is the marker of the open
fence. -/
def headersFrom (fence : Option (List Char)) (idx : ℕ) : List (List Char) → List Header
  | [] => []
  | line :: lines =>
    match fenceMatch line, fence, headerMatch line with
    | some marker, none, _ => headersFrom (some marker) (idx + 1) lines
    | some _, some marker, _ =>
      headersFrom (if marker.isPrefixOf (lstrip line) then none else some marker) (idx + 1) lines
    | none, some marker, _ => headersFrom (some marker) (idx + 1) lines
    | none, none, some (level, title) => ⟨idx, level, title⟩ :: headersFrom none (idx + 1) lines
    | none, none, none => headersFrom none (idx + 1) lines

def endLine (total level : ℕ) : List Header → ℕ
  | [] => total
  | next :: rest => if next.level ≤ level then next.lineNo - 1 else endLine total level rest

def headerEntry (total ordinal : ℕ) (h : Header) (later : List Header) : OutlineEntry where
  title := String.ofList h.title
  level := h.level
  startAnchor := [("line_first", h.lineNo)]
  endAnchor := [("line_last", (max (endLine total h.level later) h.lineNo : ℕ))]
  ordinal := ordinal

/-- The second loop. -/
def entriesFrom (total ordinal : ℕ) : List Header → List OutlineEntry
  | [] => []
  | h :: later => headerEntry total ordinal h later :: entriesFrom total (ordinal + 1) later

/-- `extract_outline`. -/
def extractOutline (filename : Option String) (text : List Char) : List OutlineEntry :=
  let lines := splitLines text
  match headersFrom none 1 lines with
  | [] =>
    [⟨(filename.filter (· ≠ "")).getD "Document", 0, [("line_first", 1)],
      [("line_last", max lines.length 1)], 0⟩]
  | headers => entriesFrom lines.length 0 headers

/-! ## The tree -/

def OutlineEntry.lineFirst (e : OutlineEntry) : Int := (e.startAnchor.lookup "line_first").getD 0

def OutlineEntry.lineLast (e : OutlineEntry) : Int := (e.endAnchor.lookup "line_last").getD 0

/-- The nearest of these preceding entries that encloses `e`. -/
def enclosing (before : List OutlineEntry) (e : OutlineEntry) : Option OutlineEntry :=
  before.reverse.find? (·.level < e.level)

structure SectionTree (outline : List OutlineEntry) : Prop where
  leaf : ∀ e ∈ outline,
    isLeafInOutline e outline = true ↔ ∀ c ∈ outline, resolveParent c outline ≠ some e
  range : ∀ c ∈ outline, ∀ p, resolveParent c outline = some p →
    p.lineFirst ≤ c.lineFirst ∧ c.lineLast ≤ p.lineLast
  nearest : ∀ before c after, outline = before ++ c :: after →
    resolveParent c outline = enclosing before c

/-- The range of `e` is in that of `p`. -/
def OutlineEntry.Within (e p : OutlineEntry) : Prop :=
  p.lineFirst ≤ e.lineFirst ∧ e.lineLast ≤ p.lineLast

/-- `a` comes before `b`: the range of `b` is after that of `a`, or in it. -/
structure Nested (a b : OutlineEntry) : Prop where
  first : a.lineFirst < b.lineFirst
  laminar : a.lineLast < b.lineFirst ∨ b.Within a
  within_iff : b.Within a ↔ a.level < b.level ∧ b.lineFirst ≤ a.lineLast

def NoSkip (outline : List OutlineEntry) : Prop :=
  ∀ before a b after, outline = before ++ a :: b :: after → b.level ≤ a.level + 1

/-! ## Line numbers -/

/-- The headers stand on lines of the text, from `first` on. -/
structure Ordered (first total : ℕ) (headers : List Header) : Prop where
  sorted : headers.Pairwise fun h h' => h.lineNo < h'.lineNo
  bounds : ∀ h ∈ headers, first ≤ h.lineNo ∧ h.lineNo ≤ total

theorem headersFrom_line {fence : Option (List Char)} {idx : ℕ} {lines : List (List Char)}
    {h : Header} (hh : h ∈ headersFrom fence idx lines) :
    ∃ i line, lines[i]? = some line ∧ headerMatch line = some (h.level, h.title) ∧
      h.lineNo = idx + i := by
  induction lines generalizing fence idx with
  | nil => cases hh
  | cons line lines ih =>
    have hlater : ∀ {fence}, h ∈ headersFrom fence (idx + 1) lines → ∃ i line',
        (line :: lines)[i]? = some line' ∧ headerMatch line' = some (h.level, h.title) ∧
          h.lineNo = idx + i := by
      intro fence hmem
      obtain ⟨i, line', hi, hmatch, hno⟩ := ih hmem
      exact ⟨i + 1, line', hi, hmatch, by omega⟩
    unfold headersFrom at hh
    split at hh
    · exact hlater hh
    · exact hlater hh
    · exact hlater hh
    · rename_i hmatch
      rcases mem_cons.mp hh with rfl | hh
      · exact ⟨0, line, rfl, hmatch, rfl⟩
      · exact hlater hh
    · exact hlater hh

theorem headersFrom_ordered (fence : Option (List Char)) (idx : ℕ) (lines : List (List Char)) :
    Ordered idx (idx + lines.length - 1) (headersFrom fence idx lines) := by
  refine ⟨?_, fun h hh => ?_⟩
  · induction lines generalizing fence idx with
    | nil => exact .nil
    | cons line lines ih =>
      unfold headersFrom
      split
      · exact ih _ _
      · exact ih _ _
      · exact ih _ _
      · refine pairwise_cons.mpr ⟨fun h hh => ?_, ih _ _⟩
        obtain ⟨i, -, -, -, hno⟩ := headersFrom_line hh
        dsimp only
        omega
      · exact ih _ _
  · obtain ⟨i, line, hi, -, hno⟩ := headersFrom_line hh
    have := (List.getElem?_eq_some_iff.mp hi).1
    omega

theorem extractOutline_eq (filename : Option String) (text : List Char) :
    ∃ total headers, Ordered 1 total headers ∧
      extractOutline filename text = entriesFrom total 0 headers := by
  simp only [extractOutline]
  split
  · refine ⟨max (splitLines text).length 1,
      [⟨1, 0, ((filename.filter (· ≠ "")).getD "Document").toList⟩], ⟨by simp, by simp⟩, ?_⟩
    have hlast : max ((splitLines text).length : Int) 1 =
        (max (max (splitLines text).length 1) 1 : ℕ) := by omega
    simp only [entriesFrom, headerEntry, endLine, String.ofList_toList, hlast]
    rfl
  · refine ⟨_, _, ?_, rfl⟩
    simpa [Nat.add_sub_cancel_left] using headersFrom_ordered none 1 (splitLines text)

/-! ## Entries by their place -/

section

variable {total n : ℕ} {headers : List Header} {before after : List OutlineEntry}
  {e c p : OutlineEntry}

theorem entriesFrom_eq_append (h : entriesFrom total n headers = before ++ e :: after) :
    ∃ hs hd ts, headers = hs ++ hd :: ts ∧ e = headerEntry total (n + hs.length) hd ts ∧
      after = entriesFrom total (n + hs.length + 1) ts ∧
      before.map OutlineEntry.level = hs.map (fun hd => (hd.level : Int)) ∧
      ∀ x ∈ before, x.ordinal < (n + hs.length : ℕ) := by
  induction before generalizing n headers with
  | nil =>
    cases headers with
    | nil => cases h
    | cons hd ts =>
      cases h
      exact ⟨[], hd, ts, rfl, rfl, rfl, rfl, by simp⟩
  | cons x before ih =>
    cases headers with
    | nil => cases h
    | cons hd ts =>
      obtain ⟨hx, h⟩ := List.cons.inj h
      obtain ⟨hs, hd', ts', rfl, he, ha, hlevels, hord⟩ := ih h
      have hn : n + (hd :: hs).length = n + 1 + hs.length := by
        simp only [length_cons]
        omega
      refine ⟨hd :: hs, hd', ts', rfl, hn ▸ he, hn ▸ ha, ?_, ?_⟩
      · rw [map_cons, hlevels, ← hx]
        rfl
      rw [hn]
      refine forall_mem_cons.mpr ⟨?_, hord⟩
      rw [← hx]
      simp only [headerEntry]
      omega

theorem idxOf_place (h : entriesFrom total n headers = before ++ e :: after) :
    (entriesFrom total n headers).idxOf e = before.length := by
  obtain ⟨hs, hd, ts, -, he, -, -, hord⟩ := entriesFrom_eq_append h
  have hnot : e ∉ before := fun hmem => by
    have := hord e hmem
    rw [he] at this
    exact lt_irrefl _ this
  rw [h, idxOf_append_of_notMem hnot, idxOf_cons_self, Nat.add_zero]

theorem level_nonneg (he : e ∈ entriesFrom total n headers) : 0 ≤ e.level := by
  obtain ⟨before, after, h⟩ := append_of_mem he
  obtain ⟨hs, hd, ts, -, rfl, -⟩ := entriesFrom_eq_append h
  exact Int.natCast_nonneg hd.level

section

variable (h : entriesFrom total n headers = before ++ e :: after)
include h

theorem isLeaf_place :
    isLeafInOutline e (entriesFrom total n headers) = isLeafBefore e.level after := by
  rw [isLeafInOutline, idxOf_place h, h, ← singleton_append, ← append_assoc]
  simp

theorem resolveParent_place :
    resolveParent e (entriesFrom total n headers) =
      before.reverse.find? fun prior => prior.level = e.level - 1 := by
  have htake : (entriesFrom total n headers).take before.length = before := by simp [h]
  rw [resolveParent, idxOf_place h, htake]
  split
  · rename_i hzero
    refine (find?_eq_none.mpr fun x hx => ?_).symm
    have := level_nonneg (h ▸ mem_append_left _ (mem_reverse.mp hx))
    simp only [decide_eq_true_eq]
    omega
  · rfl

theorem place_unique {front back : List OutlineEntry}
    (h' : entriesFrom total n headers = front ++ e :: back) : after = back := by
  have hlen : before.length = front.length := (idxOf_place h).symm.trans (idxOf_place h')
  exact (List.cons.inj (append_inj (h.symm.trans h') hlen).2).2

end

/-! ## Skipped levels -/

theorem find?_eq_enclosing {l l' : List OutlineEntry} {x : OutlineEntry} {level : Int}
    (hskip : NoSkip (l.reverse ++ x :: l')) (hx : level ≤ x.level) :
    (l.find? fun prior => prior.level = level - 1) = l.find? fun prior => prior.level < level := by
  induction l generalizing x l' with
  | nil => rfl
  | cons y l ih =>
    have hskip : NoSkip (l.reverse ++ y :: x :: l') := by simpa using hskip
    have hy : x.level ≤ y.level + 1 := hskip l.reverse y x l' rfl
    by_cases hlt : y.level < level
    · have heq : y.level = level - 1 := by omega
      rw [find?_cons_of_pos (by simpa using heq), find?_cons_of_pos (by simpa using hlt)]
    · have hne : y.level ≠ level - 1 := by omega
      simpa [hlt, hne] using ih hskip (not_lt.mp hlt)

section

variable (hskip : NoSkip (entriesFrom total n headers))
  (h : entriesFrom total n headers = before ++ c :: after)
include hskip h

theorem nearest_of_noSkip : resolveParent c (entriesFrom total n headers) = enclosing before c := by
  have hskip : NoSkip (before.reverse.reverse ++ c :: after) := by simpa [h] using hskip
  rw [resolveParent_place h]
  exact find?_eq_enclosing hskip le_rfl

theorem mid_of_noSkip (hp : resolveParent c (entriesFrom total n headers) = some p) :
    p.level = c.level - 1 ∧
      ∃ front mid, before = front ++ p :: mid ∧ ∀ x ∈ mid, p.level < x.level := by
  have hlevel := hp
  rw [resolveParent_place h] at hlevel
  rw [nearest_of_noSkip hskip h] at hp
  obtain ⟨-, as, bs, hrev, has⟩ := find?_eq_some_iff_append.mp hp
  have hlevel : p.level = c.level - 1 := by simpa using find?_some hlevel
  refine ⟨hlevel, bs.reverse, as.reverse, ?_, fun x hx => ?_⟩
  · rw [← reverse_reverse before, hrev]
    simp
  · have := has x (mem_reverse.mp hx)
    simp only [Bool.not_eq_true', decide_eq_false_iff_not] at this
    omega

end

theorem leaf_of_noSkip (hskip : NoSkip (entriesFrom total n headers))
    (he : e ∈ entriesFrom total n headers) :
    isLeafInOutline e (entriesFrom total n headers) = true ↔ ∀ c ∈ entriesFrom total n headers,
        resolveParent c (entriesFrom total n headers) ≠ some e := by
  obtain ⟨before, after, h⟩ := append_of_mem he
  rw [isLeaf_place h]
  constructor
  · intro hleaf c hc hp
    obtain ⟨beforeC, afterC, hplace⟩ := append_of_mem hc
    obtain ⟨hlevel, front, mid, rfl, hmid⟩ := mid_of_noSkip hskip hplace hp
    rw [place_unique h (by simpa using hplace)] at hleaf
    -- The entry behind `e` is below it.
    obtain ⟨x, rest, hback, hlt⟩ :
        ∃ x rest, mid ++ c :: afterC = x :: rest ∧ e.level < x.level := by
      cases mid with
      | nil => exact ⟨c, afterC, rfl, by omega⟩
      | cons x mid => exact ⟨x, mid ++ c :: afterC, rfl, hmid x mem_cons_self⟩
    have hnext : x.level ≤ e.level + 1 := hskip front e x rest (by simp [hplace, hback])
    have heq : x.level = e.level + 1 := by omega
    simp [hback, isLeafBefore, heq, Int.not_le.mpr (Int.lt_succ e.level)] at hleaf
  · intro hnone
    cases after with
    | nil => rfl
    | cons x rest =>
      have hplace : entriesFrom total n headers = (before ++ [e]) ++ x :: rest := by simp [h]
      have hx := hnone x (by simp [h])
      rw [resolveParent_place hplace] at hx
      have hnext := hskip before e x rest h
      by_cases hle : x.level ≤ e.level
      · simp [isLeafBefore, hle]
      · have heq : e.level = x.level - 1 := by omega
        simp [heq] at hx

theorem endLine_append {level : ℕ} {hs ts : List Header} (h : ∀ x ∈ hs, level < x.level) :
    endLine total level (hs ++ ts) = endLine total level ts := by
  induction hs with
  | nil => rfl
  | cons x hs ih =>
    have hx := h x mem_cons_self
    simp [endLine, Nat.not_le.mpr hx, ih fun y hy => h y (mem_cons_of_mem x hy)]

theorem le_endLine {first level : ℕ} {hs : List Header} (htotal : first ≤ total)
    (hlines : ∀ x ∈ hs, first < x.lineNo) : first ≤ endLine total level hs := by
  induction hs with
  | nil => exact htotal
  | cons x hs ih =>
    by_cases h : x.level ≤ level
    · simpa [endLine, h] using Nat.le_sub_one_of_lt (hlines x mem_cons_self)
    · simpa [endLine, h] using ih fun y hy => hlines y (mem_cons_of_mem x hy)

theorem endLine_le_total {level : ℕ} {hs : List Header} (hlines : ∀ x ∈ hs, x.lineNo ≤ total) :
    endLine total level hs ≤ total := by
  induction hs with
  | nil => exact le_rfl
  | cons x hs ih =>
    obtain ⟨hx, hlines⟩ := forall_mem_cons.mp hlines
    by_cases h : x.level ≤ level
    · simpa [endLine, h] using (Nat.sub_le _ 1).trans hx
    · simpa [endLine, h] using ih hlines

theorem endLine_le {level level' : ℕ} {hs : List Header} (hle : level' ≤ level)
    (hsorted : hs.Pairwise fun h h' => h.lineNo < h'.lineNo) (hlines : ∀ x ∈ hs, x.lineNo ≤ total) :
    endLine total level hs ≤ endLine total level' hs := by
  induction hs with
  | nil => exact le_rfl
  | cons x hs ih =>
    obtain ⟨hx, hsorted⟩ := pairwise_cons.mp hsorted
    obtain ⟨htotal, hlines⟩ := forall_mem_cons.mp hlines
    by_cases h' : x.level ≤ level'
    · simp [endLine, h', h'.trans hle]
    · by_cases h : x.level ≤ level
      · simpa [endLine, h, h'] using (le_endLine htotal hx).trans (Nat.le_add_right _ 1)
      · simpa [endLine, h, h'] using ih hsorted hlines

section

variable {ms ts : List Header} {a b : Header} (hord : Ordered 1 total (a :: (ms ++ b :: ts)))

include hord

/-- The range of a header goes on over deeper headers. -/
theorem le_endLine_of_deeper (hbelow : ∀ x ∈ ms ++ [b], a.level < x.level) :
    endLine total b.level ts ≤ endLine total a.level (ms ++ b :: ts) ∧
      b.lineNo ≤ endLine total a.level (ms ++ b :: ts) := by
  obtain ⟨hlt, hsorted⟩ :=
    pairwise_cons.mp (pairwise_append.mp (pairwise_cons.mp hord.sorted).2).2.1
  have hend : endLine total a.level ((ms ++ [b]) ++ ts) = endLine total a.level ts :=
    endLine_append hbelow
  rw [append_assoc, singleton_append] at hend
  rw [hend]
  exact ⟨endLine_le (hbelow b (by simp)).le hsorted fun x hx => (hord.bounds x (by simp [hx])).2,
    le_endLine (hord.bounds b (by simp)).2 hlt⟩

/-- The range of a header ends before the next one that is not deeper. -/
theorem endLine_lt {x : Header} (hx : x ∈ ms ++ [b]) (hle : x.level ≤ a.level) :
    endLine total a.level (ms ++ b :: ts) < b.lineNo := by
  have hpos := (hord.bounds b (by simp)).1
  have hsorted := (pairwise_cons.mp hord.sorted).2
  clear hord
  induction ms with
  | nil =>
    cases mem_singleton.mp hx
    simp only [nil_append, endLine, if_pos hle]
    omega
  | cons y ms ih =>
    obtain ⟨hy, hsorted⟩ := pairwise_cons.mp hsorted
    have hyb := hy b (by simp)
    by_cases hstop : y.level ≤ a.level
    · simp only [cons_append, endLine, if_pos hstop]
      omega
    · simp only [cons_append, endLine, if_neg hstop]
      exact ih ((mem_cons.mp hx).resolve_left fun heq => hstop (heq ▸ hle)) hsorted

theorem endLine_cases :
    endLine total a.level (ms ++ b :: ts) < b.lineNo ∨ a.level < b.level ∧
      endLine total b.level ts ≤ endLine total a.level (ms ++ b :: ts) ∧
      b.lineNo ≤ endLine total a.level (ms ++ b :: ts) := by
  by_cases hbelow : ∀ x ∈ ms ++ [b], a.level < x.level
  · exact .inr ⟨hbelow b (by simp), le_endLine_of_deeper hord hbelow⟩
  · push Not at hbelow
    obtain ⟨x, hx, hle⟩ := hbelow
    exact .inl (endLine_lt hord hx hle)

end

theorem range_of_noSkip (hord : Ordered 1 total headers)
    (hskip : NoSkip (entriesFrom total n headers)) (hc : c ∈ entriesFrom total n headers)
    (hp : resolveParent c (entriesFrom total n headers) = some p) :
    p.lineFirst ≤ c.lineFirst ∧ c.lineLast ≤ p.lineLast := by
  obtain ⟨before, after, h⟩ := append_of_mem hc
  obtain ⟨hlevel, front, mid, rfl, hmid⟩ := mid_of_noSkip hskip h hp
  obtain ⟨hs, hdp, ts, rfl, rfl, hts, -⟩ := entriesFrom_eq_append (by simpa using h)
  obtain ⟨ms, hdc, ts', rfl, rfl, -, hlevels, -⟩ := entriesFrom_eq_append hts.symm
  have hord' : Ordered 1 total (hdp :: (ms ++ hdc :: ts')) :=
    ⟨(pairwise_append.mp hord.sorted).2.1, fun x hx => hord.bounds x (mem_append_right hs hx)⟩
  have hline : hdp.lineNo < hdc.lineNo := (pairwise_cons.mp hord'.sorted).1 hdc (by simp)
  have hbelow : ∀ x ∈ ms ++ [hdc], hdp.level < x.level := by
    intro x hx
    rcases mem_append.mp hx with hx | hx
    · obtain ⟨y, hy, hlevel⟩ := mem_map.mp (hlevels ▸ mem_map_of_mem hx)
      have := hmid y hy
      simp only [headerEntry] at this
      omega
    · rw [mem_singleton.mp hx]
      simp only [headerEntry] at hlevel
      omega
  obtain ⟨hle, hge⟩ := le_endLine_of_deeper hord' hbelow
  simp only [OutlineEntry.lineFirst, OutlineEntry.lineLast, headerEntry, lookup_cons_self,
    Option.getD_some]
  omega

theorem nested_entriesFrom (hord : Ordered 1 total headers) :
    (entriesFrom total n headers).Pairwise Nested := by
  induction headers generalizing n with
  | nil => exact .nil
  | cons a later ih =>
    have hlater := pairwise_cons.mp hord.sorted
    refine pairwise_cons.mpr
      ⟨fun e he => ?_, ih ⟨hlater.2, fun x hx => hord.bounds x (mem_cons_of_mem a hx)⟩⟩
    obtain ⟨_, _, he⟩ := append_of_mem he
    obtain ⟨ms, b, ts, rfl, rfl, -⟩ := entriesFrom_eq_append he
    have hline : a.lineNo < b.lineNo := hlater.1 b (by simp)
    have hends := endLine_cases hord
    constructor
    all_goals simp only [OutlineEntry.Within, OutlineEntry.lineFirst, OutlineEntry.lineLast,
      headerEntry, lookup_cons_self, Option.getD_some]
    all_goals omega

end

/-- **The tree of a markdown text.** -/
theorem sectionTree_iff (filename : Option String) (text : List Char) :
    SectionTree (extractOutline filename text) ↔ NoSkip (extractOutline filename text) := by
  obtain ⟨total, headers, hord, houtline⟩ := extractOutline_eq filename text
  rw [houtline]
  constructor
  · intro h before a b after hplace
    have hplace : entriesFrom total 0 headers = (before ++ [a]) ++ b :: after := by simp [hplace]
    have hnearest := h.nearest _ b after hplace
    rw [resolveParent_place hplace] at hnearest
    by_contra hskip
    have ha : enclosing (before ++ [a]) b = some a := by
      have hlt : a.level < b.level := by omega
      simp [enclosing, hlt]
    have := find?_some (hnearest.trans ha)
    simp only [decide_eq_true_eq] at this
    omega
  · intro hskip
    exact ⟨fun e he => leaf_of_noSkip hskip he, fun c hc p hp => range_of_noSkip hord hskip hc hp,
      fun before c after h => nearest_of_noSkip hskip h⟩

/-- The header `B` under `A` has no parent. The header `C` under `B` is attached to `X`, which is a
leaf and ends before it. -/
theorem sectionTree_skipped :
    (∃ a b, extractOutline none "# A\n### B".toList = [a, b] ∧ resolveParent b [a, b] = none ∧
      enclosing [a] b = some a) ∧
    ∃ a x b c, extractOutline none "# A\n## X\n# B\n### C".toList = [a, x, b, c] ∧
      resolveParent c [a, x, b, c] = some x ∧ isLeafInOutline x [a, x, b, c] = true ∧
      x.lineLast < c.lineLast :=
  ⟨⟨_, _, rfl, rfl, rfl⟩, _, _, _, _, rfl, rfl, rfl, by decide⟩

/-- The header of an entry, with its level and title, stands on the entry's first line, and the
entry ends in the text. -/
def AtHeader (lines : List (List Char)) (e : OutlineEntry) : Prop :=
  (∃ (i : ℕ) (line title : List Char) (level : ℕ), lines[i]? = some line ∧
    headerMatch line = some (level, title) ∧ e.lineFirst = i + 1 ∧ e.level = level ∧
    e.title = String.ofList title) ∧
    e.lineFirst ≤ e.lineLast ∧ e.lineLast ≤ lines.length

theorem atHeader_of_mem {lines : List (List Char)} {e : OutlineEntry} {n : ℕ}
    (he : e ∈ entriesFrom lines.length n (headersFrom none 1 lines)) : AtHeader lines e := by
  obtain ⟨_, _, he⟩ := append_of_mem he
  obtain ⟨hs, a, ts, hsplit, rfl, -⟩ := entriesFrom_eq_append he
  obtain ⟨i, line, hi, hmatch, hno⟩ := headersFrom_line (hsplit ▸ mem_append_right hs mem_cons_self)
  have hord := hsplit ▸ headersFrom_ordered none 1 lines
  have hend : endLine lines.length a.level ts ≤ lines.length := by
    refine endLine_le_total fun x hx => ?_
    have := (hord.bounds x (by simp [hx])).2
    omega
  have hline := (hord.bounds a (by simp)).2
  refine ⟨⟨i, line, a.title, a.level, hi, hmatch, ?_, rfl, rfl⟩, ?_⟩
  all_goals simp only [OutlineEntry.lineFirst, OutlineEntry.lineLast, headerEntry,
    lookup_cons_self, Option.getD_some]
  all_goals omega

/-- **The ranges of the entries are nested.** They start at their headers and stay in the text;
without a header there is one entry, for the whole text. -/
theorem extractOutline_nested (filename : Option String) (text : List Char) :
    (extractOutline filename text).Pairwise Nested ∧
    (headersFrom none 1 (splitLines text) ≠ [] →
      ∀ e ∈ extractOutline filename text, AtHeader (splitLines text) e) ∧
    (headersFrom none 1 (splitLines text) = [] → ∃ e, extractOutline filename text = [e] ∧
      e.lineFirst = 1 ∧ e.lineLast = max ((splitLines text).length : Int) 1) := by
  refine ⟨?_, fun hsome e he => ?_, fun hnone => ?_⟩
  · obtain ⟨total, headers, hord, houtline⟩ := extractOutline_eq filename text
    rw [houtline]
    exact nested_entriesFrom hord
  · simp only [extractOutline] at he
    exact atHeader_of_mem he
  · simp only [extractOutline, hnone]
    exact ⟨_, rfl, rfl, rfl⟩

/-- The entry of the empty text starts at a line that the text does not have. -/
theorem extractOutline_empty :
    ∃ e, extractOutline none [] = [e] ∧ e.lineFirst = 1 ∧ e.lineLast = 1 ∧ splitLines [] = [] :=
  ⟨_, rfl, rfl, rfl, rfl⟩

end MaluDb.PageIndex
