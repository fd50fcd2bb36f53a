import Mathlib.Data.List.Flatten
import Mathlib.Data.List.Infix

/-!
# Replacing in one pass, and where letters come from

A pass over a text replaces each match of a pattern, from left to right, and does not look at what
it puts in. Several passes, one after the other, do look at what the earlier ones put in.

* A `Cell` is a letter with its place in a text, or without one if it is not from there.
* `tokens` are the matches in the text itself that take none of the places already taken, and
  `assign` gives each of several patterns its tokens, in order.
* `Exact`: each of several passes has as its matches the tokens of its pattern.
-/

namespace MaluDb.Lib

open List

/-- What a pass looks for: the length of a match, and whether there is one at the front. -/
structure Pattern (α : Type) where
  length : ℕ
  front : List α → Bool
  fits : ∀ t, front t = true → 0 < length ∧ length ≤ t.length

variable {α β V : Type}

namespace Pattern

/-- The pattern for symbols of which it sees a part. -/
def comap (f : α → β) (p : Pattern β) : Pattern α where
  length := p.length
  front t := p.front (t.map f)
  fits t h := by simpa using p.fits (t.map f) h

/-- The matches without a symbol that is taken. -/
def avoiding (taken : α → Bool) (p : Pattern α) : Pattern α where
  length := p.length
  front t := p.front t && (t.take p.length).all fun c => !taken c
  fits t h := p.fits t (Bool.and_eq_true_iff.mp h).1

/-- There is a match somewhere in the text. -/
def occurs (p : Pattern α) (t : List α) : Bool := t.tails.any p.front

theorem front_of_not_occurs {p : Pattern α} {c : α} {t : List α} (h : p.occurs (c :: t) = false) :
    p.front (c :: t) = false ∧ p.occurs t = false := by
  simpa [occurs, tails_cons] using h

theorem occurs_comap (f : α → β) (p : Pattern β) (t : List α) :
    (p.comap f).occurs t = p.occurs (t.map f) := by
  rw [occurs, occurs, map_tails, any_map]
  rfl

theorem occurs_avoiding {p : Pattern α} {t : List α} (taken : α → Bool)
    (h : p.occurs t = false) : (p.avoiding taken).occurs t = false := by
  refine any_eq_false.mpr fun s hs hfront => ?_
  exact any_eq_false.mp h s hs (Bool.and_eq_true_iff.mp hfront).1

end Pattern

/-! ## One pass -/

section

variable (p : Pattern α)

/-- A pass over a text of which the first symbols are skipped. -/
def scan (v : List α) : ℕ → List α → List α
  | _, [] => []
  | skip + 1, _ :: t => scan v skip t
  | 0, c :: t => if p.front (c :: t) then v ++ scan v (p.length - 1) t else c :: scan v 0 t

/-- The matches of a pass. -/
def found : ℕ → List α → List (List α)
  | _, [] => []
  | skip + 1, _ :: t => found skip t
  | 0, c :: t =>
    if p.front (c :: t) then (c :: t).take p.length :: found (p.length - 1) t else found 0 t

variable {p}

theorem map_scan (f : α → β) (p : Pattern β) (v : List α) :
    ∀ (skip : ℕ) (t : List α), (scan (p.comap f) v skip t).map f = scan p (v.map f) skip (t.map f)
  | _, [] => rfl
  | skip + 1, _ :: t => map_scan f p v skip t
  | 0, c :: t => by
    simp only [scan, map_cons, Pattern.comap]
    split
    · rw [map_append]
      exact congrArg _ (map_scan f p v _ t)
    · rw [map_cons]
      exact congrArg _ (map_scan f p v 0 t)

theorem mem_of_mem_found {b : List α} {x : α} (hx : x ∈ b) :
    ∀ {skip : ℕ} {t : List α}, b ∈ found p skip t → x ∈ t
  | _, [], hb => absurd hb not_mem_nil
  | _ + 1, c :: t, hb => mem_cons_of_mem c (mem_of_mem_found hx (t := t) hb)
  | 0, c :: t, hb => by
    rw [found] at hb
    split at hb
    · rcases mem_cons.mp hb with rfl | hb
      · exact mem_of_mem_take hx
      · exact mem_cons_of_mem c (mem_of_mem_found hx hb)
    · exact mem_cons_of_mem c (mem_of_mem_found hx hb)

theorem scan_of_found_nil (v : List α) : ∀ {t : List α}, found p 0 t = [] → scan p v 0 t = t
  | [], _ => rfl
  | c :: t, h => by
    rw [found] at h
    split at h
    · cases h
    · rename_i hfront
      rw [scan, if_neg hfront, scan_of_found_nil v h]

theorem found_of_not_occurs : ∀ {t : List α}, p.occurs t = false → found p 0 t = []
  | [], _ => rfl
  | c :: t, h => by
    have hparts := Pattern.front_of_not_occurs h
    rw [found, if_neg (by simp [hparts.1]), found_of_not_occurs hparts.2]

end

/-! ## Replacing a word -/

section

variable [DecidableEq α]

/-- The matches of a word; none for the empty one. -/
def word (w : List α) : Pattern α where
  length := w.length
  front t := !w.isEmpty && w.isPrefixOf t
  fits t h := by
    obtain ⟨hne, hfront⟩ := Bool.and_eq_true_iff.mp h
    refine ⟨length_pos_iff.mpr (by simpa using hne), ?_⟩
    exact (List.isPrefixOf_iff_prefix.mp hfront).length_le

/-- Replace a word by another. -/
def replace (w v t : List α) : List α := scan (word w) v 0 t

theorem replace_singleton (x : α) (v : List α) :
    ∀ t : List α, replace [x] v t = t.flatMap fun c => if c = x then v else [c]
  | [] => rfl
  | c :: t => by
    have ih := replace_singleton x v t
    unfold replace at ih ⊢
    by_cases h : c = x
    · rw [scan, if_pos (by simp [word, h]), flatMap_cons, if_pos h, ← ih]
      rfl
    · rw [scan, if_neg (by simpa [word] using Ne.symm h), flatMap_cons, if_neg h, ← ih]
      rfl

end

/-! ## Places -/

/-- A letter, and its place in a text if it is from there. -/
structure Cell (β : Type) where
  letter : β
  origin : Option ℕ

/-- The places of a match. -/
abbrev Block := List (Option ℕ)

/-- The cells of a text, from a place on. -/
def cellsFrom (n : ℕ) : List β → List (Cell β)
  | [] => []
  | c :: t => ⟨c, some n⟩ :: cellsFrom (n + 1) t

/-- The cells of a text. -/
def cells (t : List β) : List (Cell β) := cellsFrom 0 t

/-- Cells that are not from the text. -/
def foreign (v : List β) : List (Cell β) := v.map fun c => ⟨c, none⟩

/-- The places of the matches of a pass over cells. -/
def marks (p : Pattern (Cell β)) (skip : ℕ) (cs : List (Cell β)) : List Block :=
  (found p skip cs).map (List.map Cell.origin)

/-- Replace the cell at the front of a block, and remove the others of the block. -/
def edit (blocks : List Block) (v : List (Cell β)) (c : Cell β) : List (Cell β) :=
  match blocks.find? fun b => b.contains c.origin with
  | none => [c]
  | some b => if b.head? = some c.origin then v else []

theorem map_letter_cellsFrom : ∀ (n : ℕ) (t : List β), (cellsFrom n t).map Cell.letter = t
  | _, [] => rfl
  | n, c :: t => congrArg (c :: ·) (map_letter_cellsFrom (n + 1) t)

theorem map_letter_foreign (v : List β) : (foreign v).map Cell.letter = v := by
  simp [foreign, Function.comp_def]

variable {c : Cell β} {blocks : List Block} {v : List (Cell β)} {b : Block} {t : List β}

theorem origin_of_mem_foreign {v : List β} (h : c ∈ foreign v) : c.origin = none := by
  obtain ⟨_, _, rfl⟩ := mem_map.mp h
  rfl

theorem origin_of_mem_cellsFrom {c : Cell β} :
    ∀ {n : ℕ} {t : List β}, c ∈ cellsFrom n t → ∃ i, n ≤ i ∧ c.origin = some i
  | _, [], h => absurd h not_mem_nil
  | n, _ :: _, h => by
    rcases mem_cons.mp h with rfl | h
    · exact ⟨n, le_refl n, rfl⟩
    · obtain ⟨i, hi, ho⟩ := origin_of_mem_cellsFrom h
      exact ⟨i, by omega, ho⟩

/-- Two cells are not from the same place. -/
def Apart (a b : Cell β) : Prop := a.origin = b.origin → a.origin = none

theorem pairwise_cellsFrom : ∀ (n : ℕ) (t : List β), (cellsFrom n t).Pairwise Apart
  | _, [] => .nil
  | n, _ :: t => by
    refine .cons (fun c hc heq => ?_) (pairwise_cellsFrom (n + 1) t)
    obtain ⟨i, hi, ho⟩ := origin_of_mem_cellsFrom hc
    have : n = i := Option.some.inj (heq.trans ho)
    omega

/-- The blocks only have letters of the text. -/
def Native (blocks : List Block) : Prop := ∀ b ∈ blocks, none ∉ b

theorem edit_of_not_mem (h : ∀ b ∈ blocks, c.origin ∉ b) : edit blocks v c = [c] := by
  have hnone : (blocks.find? fun b => b.contains c.origin) = none := by
    refine find?_eq_none.mpr fun b hb => ?_
    simpa using h b hb
  rw [edit, hnone]

theorem edit_cons_of_not_mem (h : c.origin ∉ b) : edit (b :: blocks) v c = edit blocks v c := by
  unfold edit
  rw [find?_cons_of_neg (by simpa using h)]

theorem edit_cons_of_mem (h : c.origin ∈ b) :
    edit (b :: blocks) v c = if b.head? = some c.origin then v else [] := by
  unfold edit
  rw [find?_cons_of_pos (by simpa using h)]

theorem flatMap_edit_foreign (hnative : Native blocks) (v : List (Cell β)) (w : List β) :
    (foreign w).flatMap (edit blocks v) = foreign w := by
  have hstays : ∀ c ∈ foreign w, edit blocks v c = [c] := fun c hc =>
    edit_of_not_mem fun b hb hmem => hnative b hb (origin_of_mem_foreign hc ▸ hmem)
  rw [flatMap_congr hstays, flatMap_singleton']

theorem origin_of_mem_marks {p : Pattern (Cell β)} {skip : ℕ} {cs : List (Cell β)} {o : Option ℕ}
    (hb : b ∈ marks p skip cs) (ho : o ∈ b) : ∃ c ∈ cs, c.origin = o := by
  obtain ⟨m, hm, rfl⟩ := mem_map.mp hb
  obtain ⟨c, hc, rfl⟩ := mem_map.mp ho
  exact ⟨c, mem_of_mem_found hc hm, rfl⟩

theorem flatMap_edit_match {m : List (Cell β)} (v : List (Cell β))
    (hapart : (c :: m).Pairwise Apart) (hc : c.origin ≠ none) :
    (c :: m).flatMap (edit ((c :: m).map Cell.origin :: blocks) v) = v := by
  have hfirst : edit ((c :: m).map Cell.origin :: blocks) v c = v := by
    rw [edit_cons_of_mem (by simp), if_pos (by simp)]
  have hothers : ∀ d ∈ m, edit ((c :: m).map Cell.origin :: blocks) v d = [] := by
    intro d hd
    have hne : c.origin ≠ d.origin := fun h => hc (rel_of_pairwise_cons hapart hd h)
    rw [edit_cons_of_mem (mem_map.mpr ⟨d, mem_cons_of_mem c hd, rfl⟩), if_neg (by simpa using hne)]
  rw [flatMap_cons, hfirst, flatMap_eq_nil_iff.mpr hothers, append_nil]

theorem edit_behind_match {m rest : List (Cell β)} (blocks : List Block) (v : List (Cell β))
    (hapart : (m ++ rest).Pairwise Apart) (hnative : none ∉ m.map Cell.origin) :
    ∀ d ∈ rest, edit (m.map Cell.origin :: blocks) v d = edit blocks v d := by
  intro d hd
  refine edit_cons_of_not_mem fun hmem => ?_
  obtain ⟨e, he, heq⟩ := mem_map.mp hmem
  have hnone := (pairwise_append.mp hapart).2.2 e he d hd heq
  exact hnative (mem_map.mpr ⟨e, he, hnone⟩)

/-- **A pass is an edit of letters of the text**, when its matches only have such letters. -/
theorem scan_eq_flatMap (p : Pattern (Cell β)) (v : List (Cell β)) :
    ∀ (skip : ℕ) (cs : List (Cell β)), cs.Pairwise Apart → Native (marks p skip cs) →
      scan p v skip cs = (cs.drop skip).flatMap (edit (marks p skip cs) v)
  | _, [], _, _ => by simp [scan]
  | skip + 1, _ :: t, hapart, hnative =>
    scan_eq_flatMap p v skip t (pairwise_cons.mp hapart).2 hnative
  | 0, c :: t, hapart, hnative => by
    have htail := (pairwise_cons.mp hapart).2
    by_cases hfront : p.front (c :: t) = true
    · -- the match and what follows it are edited apart
      obtain ⟨n, hn⟩ : ∃ n, p.length = n + 1 :=
        ⟨p.length - 1, by have := (p.fits _ hfront).1; omega⟩
      have hmarks : marks p 0 (c :: t)
          = (c :: t.take n).map Cell.origin :: marks p n t := by
        simp [marks, found, hfront, hn]
      rw [hmarks] at hnative ⊢
      have hc : c.origin ≠ none := fun h =>
        hnative _ (mem_cons_self ..) (by simp [h])
      have hsplit : (c :: t.take n ++ t.drop n).Pairwise Apart := by
        rwa [cons_append, take_append_drop]
      have hrest := edit_behind_match (marks p n t) v hsplit
        (hnative _ (mem_cons_self ..))
      have hfirst : (c :: t.take n).Pairwise Apart :=
        hapart.sublist ((take_sublist n t).cons_cons c)
      have ih := scan_eq_flatMap p v n t htail fun b hb => hnative b (mem_cons_of_mem _ hb)
      rw [scan, if_pos hfront, hn, Nat.add_sub_cancel, ih, drop_zero, ← flatMap_congr hrest]
      nth_rewrite 1 [← flatMap_edit_match v hfirst hc]
      rw [← flatMap_append, cons_append, take_append_drop]
    · have hmarks : marks p 0 (c :: t) = marks p 0 t := by simp [marks, found, hfront]
      rw [hmarks] at hnative ⊢
      have hstays : edit (marks p 0 t) v c = [c] := by
        refine edit_of_not_mem fun b hb hmem => ?_
        obtain ⟨d, hd, heq⟩ := origin_of_mem_marks hb hmem
        have hnone := rel_of_pairwise_cons hapart hd heq.symm
        exact hnative b hb (hnone ▸ hmem)
      rw [scan, if_neg hfront, scan_eq_flatMap p v 0 t htail hnative, drop_zero,
        drop_zero, flatMap_cons, hstays, singleton_append]

/-! ## Several passes -/

/-- The tokens of a pattern in a text: the places of its matches without a place of the blocks. -/
def tokens (p : Pattern β) (taken : List Block) (t : List β) : List Block :=
  marks ((p.comap Cell.letter).avoiding fun c => taken.any (·.contains c.origin)) 0 (cells t)

/-- The tokens of one more pattern. -/
def assignStep (t : List β) (assigned : List (Block × V)) (change : Pattern β × V) :
    List (Block × V) :=
  assigned ++ (tokens change.1 (assigned.map Prod.fst) t).map (·, change.2)

/-- Each pattern's tokens with its value, the patterns in order. -/
def assign (t : List β) (assigned : List (Block × V)) (changes : List (Pattern β × V)) :
    List (Block × V) :=
  changes.foldl (assignStep t) assigned

section

variable (text : V → List β)

/-- What stands for a cell when the assigned tokens are replaced. -/
def emit (assigned : List (Block × V)) (c : Cell β) : List (Cell β) :=
  match assigned.find? fun a => a.1.contains c.origin with
  | none => [c]
  | some a => if a.1.head? = some c.origin then foreign (text a.2) else []

/-- All assigned tokens are replaced at once. -/
def simultaneous (t : List β) (assigned : List (Block × V)) : List (Cell β) :=
  (cells t).flatMap (emit text assigned)

/-- One pass over cells. -/
def pass (cs : List (Cell β)) (change : Pattern β × V) : List (Cell β) :=
  scan (change.1.comap Cell.letter) (foreign (text change.2)) 0 cs

/-- One pass after the other. -/
def passes (changes : List (Pattern β × V)) (cs : List (Cell β)) : List (Cell β) :=
  changes.foldl (pass text) cs

/-- Each pass has as its matches the tokens of its pattern. -/
def Exact (t : List β) : List (Block × V) → List (Pattern β × V) → List (Cell β) → Prop
  | _, [], _ => True
  | assigned, change :: changes, cs =>
    marks (change.1.comap Cell.letter) 0 cs = tokens change.1 (assigned.map Prod.fst) t ∧
      Exact t (assignStep t assigned change) changes (pass text cs change)

variable {text}

theorem native_tokens (p : Pattern β) (taken : List Block) (t : List β) :
    Native (tokens p taken t) := by
  intro b hb hmem
  obtain ⟨c, hc, ho⟩ := origin_of_mem_marks hb hmem
  obtain ⟨i, -, hi⟩ := origin_of_mem_cellsFrom hc
  rw [hi] at ho
  cases ho

theorem mem_emit {assigned : List (Block × V)} {c x : Cell β} (h : x ∈ emit text assigned c) :
    x = c ∨ x.origin = none := by
  unfold emit at h
  split at h
  · exact .inl (mem_singleton.mp h)
  · split at h
    · exact .inr (origin_of_mem_foreign h)
    · cases h

theorem pairwise_emit (assigned : List (Block × V)) (c : Cell β) :
    (emit text assigned c).Pairwise Apart := by
  unfold emit
  split
  · exact pairwise_singleton _ _
  · split
    · refine pairwise_of_forall_mem_list fun a ha b _ _ => origin_of_mem_foreign ha
    · exact .nil

theorem pairwise_simultaneous (t : List β) (assigned : List (Block × V)) :
    (simultaneous text t assigned).Pairwise Apart := by
  refine pairwise_flatMap.mpr ⟨fun c _ => pairwise_emit assigned c, ?_⟩
  refine (pairwise_cellsFrom 0 t).imp fun {a b} hab x hx y hy heq => ?_
  rcases mem_emit hx with rfl | hx
  · rcases mem_emit hy with rfl | hy
    · exact hab heq
    · exact heq.trans hy
  · exact hx

theorem emit_append {blocks : List Block} (hnative : Native blocks) (v : V)
    (assigned : List (Block × V)) (c : Cell β) :
    emit text (assigned ++ blocks.map (·, v)) c
      = (emit text assigned c).flatMap (edit blocks (foreign (text v))) := by
  unfold emit
  rw [find?_append]
  cases assigned.find? fun a => a.1.contains c.origin with
  | some a =>
    simp only [Option.some_or]
    split
    · rw [flatMap_edit_foreign hnative]
    · rfl
  | none =>
    rw [Option.none_or, find?_map, flatMap_singleton, edit]
    simp only [Function.comp_def]
    cases blocks.find? fun b => b.contains c.origin <;> rfl

theorem pass_eq (t : List β) (assigned : List (Block × V)) (change : Pattern β × V)
    (h : marks (change.1.comap Cell.letter) 0 (simultaneous text t assigned)
      = tokens change.1 (assigned.map Prod.fst) t) :
    pass text (simultaneous text t assigned) change
      = simultaneous text t (assignStep t assigned change) := by
  have hnative := native_tokens change.1 (assigned.map Prod.fst) t
  rw [pass, scan_eq_flatMap _ _ _ _ (pairwise_simultaneous t assigned) (h ▸ hnative), h, drop_zero]
  simp only [simultaneous, assignStep]
  rw [flatMap_assoc]
  exact flatMap_congr fun c _ => (emit_append hnative change.2 assigned c).symm

/-- **Exact passes are together the simultaneous replacement.** -/
theorem passes_eq (t : List β) :
    ∀ (changes : List (Pattern β × V)) (assigned : List (Block × V)),
      Exact text t assigned changes (simultaneous text t assigned) →
      passes text changes (simultaneous text t assigned)
        = simultaneous text t (assign t assigned changes)
  | [], _, _ => rfl
  | change :: changes, assigned, h => by
    obtain ⟨hmarks, hrest⟩ := h
    rw [pass_eq t assigned change hmarks] at hrest
    have ih := passes_eq t changes _ hrest
    rw [← pass_eq t assigned change hmarks] at ih
    exact ih

/-- **Passes are exact if and only if each pattern has its tokens as matches in the simultaneous
replacement by the patterns before it.** -/
theorem exact_iff (t : List β) :
    ∀ (changes : List (Pattern β × V)) (assigned : List (Block × V)),
      Exact text t assigned changes (simultaneous text t assigned) ↔
        ∀ before change after, changes = before ++ change :: after →
          marks (change.1.comap Cell.letter) 0 (simultaneous text t (assign t assigned before))
            = tokens change.1 ((assign t assigned before).map Prod.fst) t
  | [], _ => by simp [Exact]
  | change :: changes, assigned => by
    constructor
    · rintro ⟨hmarks, hrest⟩ before other after hsplit
      rw [pass_eq t assigned change hmarks] at hrest
      cases before with
      | nil =>
        cases hsplit
        exact hmarks
      | cons first before =>
        cases hsplit
        exact (exact_iff t _ _).mp hrest before other after rfl
    · intro h
      have hmarks := h [] change changes rfl
      refine ⟨hmarks, ?_⟩
      rw [pass_eq t assigned change hmarks]
      refine (exact_iff t changes _).mpr fun before other after hsplit => ?_
      exact h (change :: before) other after (congrArg _ hsplit)

theorem map_letter_passes :
    ∀ (changes : List (Pattern β × V)) (cs : List (Cell β)),
      (passes text changes cs).map Cell.letter
        = changes.foldl (fun t change => scan change.1 (text change.2) 0 t) (cs.map Cell.letter)
  | [], _ => rfl
  | change :: changes, cs => by
    have ih := map_letter_passes changes (pass text cs change)
    rw [pass, map_scan, map_letter_foreign] at ih
    exact ih

theorem simultaneous_nil (text : V → List β) (t : List β) : simultaneous text t [] = cells t :=
  flatMap_singleton' _

end

theorem tokens_of_not_occurs {p : Pattern β} (h : p.occurs t = false) (taken : List Block) :
    tokens p taken t = [] := by
  have hcells : (p.comap Cell.letter).occurs (cells t) = false := by
    rwa [Pattern.occurs_comap, cells, map_letter_cellsFrom]
  rw [tokens, marks, found_of_not_occurs (Pattern.occurs_avoiding _ hcells), map_nil]

theorem assignStep_of_not_occurs {change : Pattern β × V} (h : change.1.occurs t = false)
    (assigned : List (Block × V)) : assignStep t assigned change = assigned := by
  rw [assignStep, tokens_of_not_occurs h, map_nil, append_nil]

theorem pass_of_not_occurs (text : V → List β) {change : Pattern β × V} {taken : List Block}
    {cs : List (Cell β)} (h : change.1.occurs t = false)
    (hmarks : marks (change.1.comap Cell.letter) 0 cs = tokens change.1 taken t) :
    pass text cs change = cs := by
  rw [tokens_of_not_occurs h] at hmarks
  exact scan_of_found_nil _ (map_eq_nil_iff.mp hmarks)

theorem value_of_mem_assign {t : List β} {a : Block × V} :
    ∀ {changes : List (Pattern β × V)} {assigned : List (Block × V)},
      a ∈ assign t assigned changes → a ∈ assigned ∨ ∃ change ∈ changes, change.2 = a.2
  | [], _, h => .inl h
  | change :: _, assigned, h => by
    have h : a ∈ assign t (assignStep t assigned change) _ := h
    rcases value_of_mem_assign h with h | ⟨c, hc, hv⟩
    · rcases mem_append.mp h with h | h
      · exact .inl h
      · obtain ⟨_, _, rfl⟩ := mem_map.mp h
        exact .inr ⟨change, mem_cons_self .., rfl⟩
    · exact .inr ⟨c, mem_cons_of_mem _ hc, hv⟩

end MaluDb.Lib
