import Mathlib.Data.List.Infix

/-!
# Replacing a pattern in a text

A loop that replaces the first occurrence of a pattern, starting over at the front of the text each
time, until there is none. It need not end, and it may find occurrences that a replacement made.

Results:

* `replaceAll_flatMap`: the loop replaces the pieces of a text that are the pattern, if the text
  that this should give has the pattern nowhere.
* `infix_flatMap`: a replacement keeps what no replaced piece can overlap.
-/

namespace MaluDb.Lib

open List

variable {α : Type} [DecidableEq α] {p v x y t : List α}

/-- The text before the first occurrence of a pattern and the text behind it. -/
def splitFirst (p : List α) : List α → Option (List α × List α)
  | [] => if p.isPrefixOf [] then some ([], []) else none
  | c :: t =>
    if p.isPrefixOf (c :: t) then some ([], (c :: t).drop p.length)
    else (splitFirst p t).map fun (x, y) => (c :: x, y)

/-- Replace first occurrences until there is none; `none` if the fuel does not suffice. -/
def replaceAll (p v : List α) : ℕ → List α → Option (List α)
  | 0, _ => none
  | fuel + 1, t =>
    match splitFirst p t with
    | none => some t
    | some (x, y) => replaceAll p v fuel (x ++ v ++ y)

theorem splitFirst_eq_none : splitFirst p t = none ↔ ¬ p <:+: t := by
  induction t with
  | nil => simp [splitFirst]
  | cons c t ih =>
    rw [infix_cons_iff, ← isPrefixOf_iff_prefix, splitFirst]
    split
    · simp_all
    · simp_all

theorem splitFirst_append (h : ∀ x' y', x ++ p ++ y = x' ++ p ++ y' → x.length ≤ x'.length) :
    splitFirst p (x ++ p ++ y) = some (x, y) := by
  induction x with
  | nil =>
    cases ht : p ++ y with
    | nil =>
      obtain ⟨rfl, rfl⟩ := append_eq_nil_iff.mp ht
      rfl
    | cons c t =>
      have hp : p.isPrefixOf (c :: t) = true :=
        isPrefixOf_iff_prefix.mpr (ht ▸ prefix_append p y)
      rw [nil_append, ht, splitFirst, if_pos hp, ← ht, drop_left]
  | cons c x ih =>
    have hp : ¬ p.isPrefixOf (c :: (x ++ p ++ y)) = true := by
      rw [List.isPrefixOf_iff_prefix]
      rintro ⟨y', hy'⟩
      exact absurd (h [] y' hy'.symm) (Nat.not_succ_le_zero _)
    have htail : ∀ x' y', x ++ p ++ y = x' ++ p ++ y' → x.length ≤ x'.length := fun x' y' heq =>
      Nat.le_of_succ_le_succ (h (c :: x') y' (congrArg (c :: ·) heq))
    rw [cons_append, cons_append, splitFirst, if_neg hp, ih htail]
    rfl

/-- Only the empty text and the pattern are both at its front and at its end. -/
def Unbordered (p : List α) : Prop := ∀ w, w <+: p → w <:+ p → w = [] ∨ w = p

omit [DecidableEq α] in
theorem length_le_of_unbordered (hp : Unbordered p) (hx : ¬ p <:+: x) {x' y' : List α}
    (h : x ++ p ++ y = x' ++ p ++ y') : x.length ≤ x'.length := by
  by_contra hlt
  rw [append_assoc, append_assoc] at h
  obtain ⟨z, rfl, hz⟩ : ∃ z, x = x' ++ z ∧ p ++ y' = z ++ (p ++ y) := by
    rcases append_eq_append_iff.mp h with ⟨z, rfl, -⟩ | ⟨z, hz, heq⟩
    · exact absurd (by simp) hlt
    · exact ⟨z, hz, heq⟩
  rcases append_eq_append_iff.mp hz with ⟨w, rfl, -⟩ | ⟨w, rfl, hw⟩
  · exact hx ⟨x', w, by simp⟩
  -- the rest of the pattern is its border
  have hfront : w <+: z ++ w := by
    refine prefix_of_prefix_length_le (hw ▸ prefix_append w y')
      (prefix_append (z ++ w) y) (by simp)
  rcases hp w hfront (suffix_append z w) with rfl | heq
  · exact hx ⟨x', [], by simp⟩
  · have : z = [] := by simpa using heq
    simp [this] at hlt

/-- An occurrence of `q` in a text that starts behind the front of a `p` starts behind its end. -/
def Clear (p q : List α) : Prop :=
  ∀ r before after, p ++ r = before ++ (q ++ after) → before ≠ [] →
    ∃ mid, before = p ++ mid ∧ r = mid ++ (q ++ after)

omit [DecidableEq α] in
theorem Clear.unbordered (h : Clear p p) : Unbordered p := by
  rintro w ⟨v, hv⟩ ⟨u, hu⟩
  by_cases hne : u = []
  · exact .inr (by rw [← hu, hne, nil_append])
  -- the pattern stands behind `u` too
  have htwice : p ++ v = u ++ (p ++ []) := by
    rw [append_nil, ← hv, ← append_assoc, hu, hv]
  obtain ⟨mid, rfl, -⟩ := h v u [] htwice hne
  have hlen := congrArg length hu
  rw [length_append, length_append] at hlen
  exact .inl (eq_nil_of_length_eq_zero (by omega))

omit [DecidableEq α] in
/-- A pattern stands before or behind another one that it cannot overlap. -/
theorem infix_append_of_clear {q : List α} (hpq : Clear p q) (hqp : Clear q p)
    (hfront : ∀ r r', p ++ r ≠ q ++ r') (h : p <:+: x ++ (q ++ y)) : p <:+: x ∨ p <:+: y := by
  obtain ⟨before, after, heq⟩ := h
  rw [append_assoc] at heq
  rcases append_eq_append_iff.mp heq with ⟨w, rfl, hw⟩ | ⟨w, rfl, hw⟩
  · by_cases hne : w = []
    · rw [hne, nil_append] at hw
      exact absurd hw (hfront after y)
    obtain ⟨mid, rfl, -⟩ := hpq after w y hw hne
    exact .inl ⟨before, mid, by rw [append_assoc]⟩
  · by_cases hne : w = []
    · rw [hne, nil_append] at hw
      exact absurd hw.symm (hfront after y)
    obtain ⟨mid, -, rfl⟩ := hqp y w after hw hne
    exact .inr ⟨mid, after, by rw [append_assoc]⟩

theorem not_infix_of_replaceAll {fuel : ℕ} {r : List α} (h : replaceAll p v fuel t = some r) :
    ¬ p <:+: r := by
  induction fuel generalizing t with
  | zero => cases h
  | succ fuel ih =>
    unfold replaceAll at h
    split at h
    · rename_i hnone
      cases h
      exact splitFirst_eq_none.mp hnone
    · exact ih h

theorem replaceAll_mono {fuel fuel' : ℕ} {r : List α} (hle : fuel ≤ fuel')
    (h : replaceAll p v fuel t = some r) : replaceAll p v fuel' t = some r := by
  induction fuel generalizing t fuel' with
  | zero => cases h
  | succ fuel ih =>
    obtain ⟨fuel', rfl⟩ : ∃ n, fuel' = n + 1 := ⟨fuel' - 1, by omega⟩
    unfold replaceAll at h ⊢
    split at h
    · exact h
    · exact ih (by omega) h

variable {τ : Type} {f g : τ → List α}

omit [DecidableEq α] in
/-- **What is kept.** By induction on the pieces; `x` is the text since the last one replaced. -/
theorem infix_flatMap {q : List α} (hpq : Clear p q) (hqp : Clear q p)
    (hfront : ∀ r r', p ++ r ≠ q ++ r') (x : List α) (ts : List τ)
    (hfg : ∀ a ∈ ts, f a = g a ∨ f a = q) (h : p <:+: x ++ ts.flatMap f) :
    p <:+: x ++ ts.flatMap g := by
  induction ts generalizing x with
  | nil => exact h
  | cons a ts ih =>
    have htail : ∀ b ∈ ts, f b = g b ∨ f b = q := fun b hb => hfg b (mem_cons_of_mem a hb)
    rw [flatMap_cons] at h ⊢
    rcases hfg a mem_cons_self with heq | hq
    · rw [← append_assoc, ← heq]
      exact ih (x ++ f a) htail (by rwa [append_assoc])
    · rw [hq] at h
      rcases infix_append_of_clear hpq hqp hfront h with hx | hrest
      · exact hx.trans ⟨[], g a ++ ts.flatMap g, rfl⟩
      · have hkept : p <:+: ts.flatMap g := ih [] htail hrest
        exact hkept.trans ⟨x ++ g a, [], by simp⟩

/-- **Replacing pieces.** By induction on the pieces that the loop has not passed; `x` is the text
of the others. -/
theorem replaceAll_flatMap (x : List α) (ts : List τ)
    (hfg : ∀ a ∈ ts, f a = g a ∨ f a = p ∧ g a = v ∧ Unbordered p)
    (hno : ¬ p <:+: x ++ ts.flatMap g) :
    ∃ fuel, replaceAll p v fuel (x ++ ts.flatMap f) = some (x ++ ts.flatMap g) := by
  induction ts generalizing x with
  | nil =>
    rw [flatMap_nil] at hno ⊢
    refine ⟨1, ?_⟩
    rw [flatMap_nil, replaceAll, splitFirst_eq_none.mpr hno]
  | cons a ts ih =>
    have htail : ∀ b ∈ ts, f b = g b ∨ f b = p ∧ g b = v ∧ Unbordered p := fun b hb =>
      hfg b (mem_cons_of_mem a hb)
    rw [flatMap_cons, ← append_assoc] at hno
    obtain ⟨fuel, hfuel⟩ := ih (x ++ g a) htail hno
    rw [flatMap_cons, flatMap_cons, ← append_assoc, ← append_assoc]
    rcases hfg a mem_cons_self with heq | ⟨hp, hv, hub⟩
    · rw [heq]
      exact ⟨fuel, hfuel⟩
    refine ⟨fuel + 1, ?_⟩
    have hx : ¬ p <:+: x := fun h => hno (h.trans ⟨[], g a ++ ts.flatMap g, by simp⟩)
    rw [hp, replaceAll, splitFirst_append fun x' y' => length_le_of_unbordered hub hx]
    exact hv ▸ hfuel

end MaluDb.Lib
