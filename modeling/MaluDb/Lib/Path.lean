import Mathlib.Data.List.Infix

/-!
# Lexical normalisation of paths

To normalise an absolute path is to enter the segments between its slashes from the top: an empty
segment and `.` stay, `..` goes to the parent, any other segment is the name of a child.
-/

namespace MaluDb.Lib

open List

/-! ## Segments -/

theorem intercalate_append_cons {α : Type} (sep : List α) {xs : List (List α)} (hxs : xs ≠ [])
    (y : List α) (ys : List (List α)) :
    sep.intercalate (xs ++ y :: ys) = sep.intercalate xs ++ sep ++ sep.intercalate (y :: ys) := by
  induction xs with
  | nil => exact absurd rfl hxs
  | cons x xs ih =>
    cases xs with
    | nil => simp
    | cons x' xs =>
      have ih := ih (cons_ne_nil x' xs)
      simp only [cons_append, intercalate_cons_cons, append_assoc] at ih ⊢
      rw [ih]

namespace Path

def segments (path : List Char) : List (List Char) := path.splitOn '/'

theorem segments_ne_nil (path : List Char) : segments path ≠ [] := splitOn_ne_nil _ _

def lastSegment (path : List Char) : List Char := (segments path).getLast (segments_ne_nil path)

theorem dropLast_append_lastSegment (path : List Char) :
    (segments path).dropLast ++ [lastSegment path] = segments path :=
  dropLast_append_getLast (segments_ne_nil path)

section

variable (path rest : List Char) (names : List (List Char))

theorem segments_append : segments (path ++ '/' :: rest) = segments path ++ segments rest :=
  splitOn_append_cons_self _ _

theorem segments_slash (rest : List Char) : segments ('/' :: rest) = [] :: segments rest :=
  segments_append [] rest

theorem dropLast_segments_append :
    (segments (path ++ '/' :: rest)).dropLast = segments path ++ (segments rest).dropLast := by
  rw [segments_append, dropLast_append_of_ne_nil (segments_ne_nil rest)]

theorem lastSegment_append : lastSegment (path ++ '/' :: rest) = lastSegment rest := by
  simp only [lastSegment, segments_append]
  exact getLast_append_of_ne_nil _ (segments_ne_nil rest)

theorem infix_of_segments {path seg : List Char} {before after : List (List Char)}
    (h : segments path = before ++ seg :: after) (hbefore : before ≠ []) (hafter : after ≠ []) :
    '/' :: seg ++ ['/'] <:+: path := by
  obtain ⟨next, after, rfl⟩ := exists_cons_of_ne_nil hafter
  refine ⟨['/'].intercalate before, ['/'].intercalate (next :: after), ?_⟩
  have hpath : ['/'].intercalate (segments path) = path := intercalate_splitOn '/'
  rw [← hpath, h, intercalate_append_cons ['/'] hbefore, intercalate_cons_cons]
  simp

theorem not_mem_dropLast_segments {seg rest : List Char} (hseg : seg ≠ [])
    (h : ¬ '/' :: seg ++ ['/'] <:+: '/' :: rest) : seg ∉ (segments ('/' :: rest)).dropLast := by
  intro hmem
  rw [segments_slash, dropLast_cons_of_ne_nil (segments_ne_nil rest), mem_cons] at hmem
  obtain ⟨before, after, hsplit⟩ := append_of_mem (hmem.resolve_left hseg)
  have hsegs : segments ('/' :: rest) = ([] :: before) ++ seg :: (after ++ [lastSegment rest]) := by
    rw [segments_slash, ← dropLast_append_lastSegment rest, hsplit]
    simp
  exact h (infix_of_segments hsegs (cons_ne_nil _ _) (by simp))

/-! ## Normalisation -/

def dot : List Char := ['.']

def dotdot : List Char := ['.', '.']

def enter (seg : List Char) : List (List Char) :=
  if seg = [] ∨ seg = dot then names
  else if seg = dotdot then names.dropLast
  else names ++ [seg]

def normalise (path : List Char) : List (List Char) := (segments path).foldl enter []

def Below (names root : List (List Char)) : Prop := ∃ more, more ≠ [] ∧ names = root ++ more

theorem Below.length_lt {names root : List (List Char)} (h : Below names root) :
    root.length < names.length := by
  obtain ⟨more, hmore, rfl⟩ := h
  have := length_pos_of_ne_nil hmore
  simp only [length_append]
  omega

theorem normalise_append :
    normalise (path ++ '/' :: rest) = (segments rest).foldl enter (normalise path) := by
  rw [normalise, segments_append, foldl_append]
  rfl

end

theorem foldl_enter {segs : List (List Char)} (hdot : dot ∉ segs) (hdotdot : dotdot ∉ segs)
    (names : List (List Char)) : segs.foldl enter names = names ++ segs.filter (· ≠ []) := by
  induction segs generalizing names with
  | nil => simp
  | cons seg segs ih =>
    rw [mem_cons, not_or] at hdot hdotdot
    rw [foldl_cons, ih hdot.2 hdotdot.2]
    by_cases hseg : seg = []
    · simp [enter, hseg]
    · simp [enter, hseg, Ne.symm hdot.1, Ne.symm hdotdot.1]

theorem normalise_of_dropLast {path rest : List Char} (hdot : dot ∉ (segments rest).dropLast)
    (hdotdot : dotdot ∉ (segments rest).dropLast) :
    normalise (path ++ '/' :: rest) =
      enter (normalise path ++ (segments rest).dropLast.filter (· ≠ [])) (lastSegment rest) := by
  rw [normalise_append, ← dropLast_append_lastSegment rest, foldl_append,
    foldl_enter hdot hdotdot, foldl_cons, foldl_nil, dropLast_append_lastSegment]

end Path

end MaluDb.Lib
