import Mathlib.Data.List.Nodup

/-!
# Tables as lists of rows

`UPDATE … WHERE` and `DELETE … WHERE` over a table kept as the list of its rows in physical order.
-/

namespace MaluDb.Lib

open List

variable {R : Type}

/-- `UPDATE t SET f WHERE p`. -/
def updateWhere (p : R → Bool) (f : R → R) (t : List R) : List R :=
  t.map fun r => if p r then f r else r

/-- `DELETE FROM t WHERE p`. -/
def deleteWhere (p : R → Bool) (t : List R) : List R := t.filter fun r => !p r

/-- `INSERT … ON CONFLICT DO UPDATE`: `same` are the rows that conflict. -/
def upsert (same : R → Bool) (f : R → R) (new : R) (t : List R) : List R :=
  if t.any same then updateWhere same f t else t ++ [new]

variable {p q : R → Bool} {f : R → R} {t : List R} {r : R}

theorem mem_updateWhere : r ∈ updateWhere p f t ↔ ∃ r₀ ∈ t, (if p r₀ then f r₀ else r₀) = r := by
  simp [updateWhere]

@[simp] theorem mem_deleteWhere : r ∈ deleteWhere p t ↔ r ∈ t ∧ p r = false := by
  simp [deleteWhere]

theorem mem_upsert {same : R → Bool} {new : R} (h : r ∈ upsert same f new t) :
    (r ∈ t ∧ same r = false) ∨ (∃ r₀ ∈ t, same r₀ = true ∧ r = f r₀) ∨ r = new := by
  unfold upsert at h
  split at h
  · obtain ⟨r₀, hr₀, rfl⟩ := mem_updateWhere.mp h
    by_cases hs : same r₀ = true
    · exact .inr (.inl ⟨r₀, hr₀, hs, if_pos hs⟩)
    · rw [if_neg hs]
      exact .inl ⟨hr₀, by simpa using hs⟩
  · rename_i hnone
    rcases mem_append.mp h with hr | hr
    · exact .inl ⟨hr, by simpa using fun hs => hnone (any_eq_true.mpr ⟨r, hr, hs⟩)⟩
    · exact .inr (.inr (mem_singleton.mp hr))

theorem exists_mem_upsert (same : R → Bool) (f : R → R) (new : R) (t : List R) :
    (∃ r₀ ∈ t, same r₀ = true ∧ f r₀ ∈ upsert same f new t) ∨ new ∈ upsert same f new t := by
  unfold upsert
  split
  · rename_i hany
    obtain ⟨r₀, hr₀, hs⟩ := any_eq_true.mp hany
    exact .inl ⟨r₀, hr₀, hs, mem_updateWhere.mpr ⟨r₀, hr₀, if_pos hs⟩⟩
  · exact .inr (mem_append_right t (mem_singleton_self new))

theorem mem_upsert_of_mem {same : R → Bool} {new : R} (hr : r ∈ t) (hs : same r = false) :
    r ∈ upsert same f new t := by
  unfold upsert
  split
  · exact mem_updateWhere.mpr ⟨r, hr, if_neg (by simp [hs])⟩
  · exact mem_append_left _ hr

theorem filter_updateWhere_of_false (h : ∀ r ∈ t, p r = true → q r = false ∧ q (f r) = false) :
    (updateWhere p f t).filter q = t.filter q := by
  induction t with
  | nil => rfl
  | cons r t ih =>
    have ih := ih fun r' hr' => h r' (mem_cons_of_mem r hr')
    unfold updateWhere at ih ⊢
    rw [map_cons, filter_cons, filter_cons, ih]
    by_cases hp : p r = true
    · obtain ⟨hq, hqf⟩ := h r mem_cons_self hp
      simp [hp, hq, hqf]
    · rw [if_neg hp]

theorem filter_deleteWhere_of_false (h : ∀ r ∈ t, p r = true → q r = false) :
    (deleteWhere p t).filter q = t.filter q := by
  unfold deleteWhere
  rw [filter_filter]
  refine filter_congr fun r hr => ?_
  cases hp : p r with
  | true => simp [h r hr hp]
  | false => simp

theorem map_updateWhere {C : Type} {g : R → C} (h : ∀ r, p r = true → g (f r) = g r) (t : List R) :
    (updateWhere p f t).map g = t.map g := by
  unfold updateWhere
  rw [List.map_map]
  refine map_congr_left fun r _ => ?_
  show g (if p r then f r else r) = g r
  split
  · exact h r ‹_›
  · rfl

theorem filter_updateWhere (h : ∀ r, q (f r) = q r) (t : List R) :
    (updateWhere p f t).filter q = updateWhere p f (t.filter q) := by
  unfold updateWhere
  rw [filter_map]
  refine congrArg (List.map _) (filter_congr fun r _ => ?_)
  show q (if p r then f r else r) = q r
  split
  · exact h r
  · rfl

theorem find?_updateWhere (h : ∀ r, p r = true → q (f r) = q r) (t : List R) :
    (updateWhere p f t).find? q = (t.find? q).map fun r => if p r then f r else r := by
  unfold updateWhere
  rw [find?_map]
  congr 2
  funext r
  show q (if p r then f r else r) = q r
  split
  · exact h r ‹_›
  · rfl

theorem find?_deleteWhere {p q : R → Bool} :
    ∀ {t : List R}, (∀ r ∈ t, q r = true → p r = false) → (deleteWhere p t).find? q = t.find? q
  | [], _ => rfl
  | r :: t, h => by
    have ih := find?_deleteWhere fun r' hr' => h r' (mem_cons_of_mem r hr')
    unfold deleteWhere at ih ⊢
    cases hq : q r with
    | true =>
      rw [filter_cons_of_pos (by simp [h r mem_cons_self hq]),
        find?_cons_of_pos hq, find?_cons_of_pos hq]
    | false =>
      rw [find?_cons_of_neg (by simp [hq]), ← ih, filter_cons]
      split
      · rw [find?_cons_of_neg (by simp [hq])]
      · rfl

section

variable {C : Type} [BEq C] [LawfulBEq C] {key : R → C} {t : List R} {k : C} {r : R}

theorem mem_of_find?_key (h : t.find? (fun r => key r == k) = some r) : r ∈ t ∧ key r = k :=
  ⟨mem_of_find?_eq_some h, by simpa using find?_some h⟩

theorem mem_take_of_key_le {n : Nat} {key : R → Nat} (hsorted : t.Pairwise fun a b => key a ≤ key b)
    (hn : (t.map key).Nodup) {a b : R} (ha : a ∈ t.take n) (hb : b ∈ t) (hle : key b ≤ key a) :
    b ∈ t.take n := by
  rw [← take_append_drop n t] at hb hsorted
  rcases mem_append.mp hb with hb | hb
  · exact hb
  have hab := (pairwise_append.mp hsorted).2.2 a ha b hb
  have heq : a = b := inj_on_of_nodup_map hn (mem_of_mem_take ha)
    (mem_of_mem_drop hb) (Nat.le_antisymm hab hle)
  exact heq ▸ ha

theorem find?_key (hn : (t.map key).Nodup) (hr : r ∈ t) (hk : key r = k) :
    t.find? (fun r => key r == k) = some r := by
  cases hf : t.find? fun r => key r == k with
  | none => exact absurd (beq_iff_eq.mpr hk) (find?_eq_none.mp hf r hr)
  | some r' =>
    obtain ⟨hr', hk'⟩ := mem_of_find?_key hf
    rw [inj_on_of_nodup_map hn hr' hr (hk'.trans hk.symm)]

end

end MaluDb.Lib
