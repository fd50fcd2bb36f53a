import MaluDb.Lib.Best

/-!
# Clauses of a query

`ORDER BY` (`orderBy`; rows with the same key keep their order), `DISTINCT ON` (`distinctOn`), and
`LIMIT` (`limitTo`, where NULL is no limit).
-/

namespace MaluDb.Lib

open List

variable {α κ : Type}

/-- Row numbers up to a limit. -/
theorem filter_zipIdx_le (l : List α) (limit : Int) :
    ((l.zipIdx 1).filter fun h => decide ((h.2 : Int) ≤ limit)) =
      (l.take limit.toNat).zipIdx 1 := by
  have hsplit : l.zipIdx 1 = (l.take limit.toNat).zipIdx 1 ++
      (l.drop limit.toNat).zipIdx (1 + (l.take limit.toNat).length) := by
    rw [← zipIdx_append, take_append_drop]
  rw [hsplit, filter_append, filter_eq_self.mpr, filter_eq_nil_iff.mpr, append_nil]
  · intro h hh
    obtain ⟨hfirst, hlast, -⟩ := mem_zipIdx hh
    rw [length_take, length_drop] at *
    simp only [decide_eq_true_eq]
    omega
  intro h hh
  obtain ⟨hfirst, hlast, -⟩ := mem_zipIdx hh
  rw [length_take] at hlast
  simp only [decide_eq_true_eq]
  omega

section

variable [LinearOrder κ] (key : α → κ)

def orderBy (l : List α) : List α := l.insertionSort fun a b => key a ≤ key b

instance total_key : Std.Total fun a b : α => key a ≤ key b := ⟨fun a b => le_total (key a) (key b)⟩

instance trans_key : IsTrans α fun a b => key a ≤ key b := ⟨fun _ _ _ => le_trans⟩

variable {key}

@[simp] theorem mem_orderBy {l : List α} {a : α} : a ∈ orderBy key l ↔ a ∈ l :=
  mem_insertionSort _

theorem pairwise_orderBy (l : List α) : (orderBy key l).Pairwise fun a b => key a ≤ key b :=
  pairwise_insertionSort _ l

theorem orderBy_perm (key : α → κ) (l : List α) : (orderBy key l).Perm l :=
  perm_insertionSort _ l

theorem insertionSort_of_perm {sorted l : List κ} (hsorted : sorted.Pairwise (· ≤ ·))
    (hperm : sorted.Perm l) : l.insertionSort (· ≤ ·) = sorted :=
  ((perm_insertionSort _ l).trans hperm.symm).eq_of_pairwise'
    (pairwise_insertionSort _ l) hsorted

end

section

variable [DecidableEq κ] (key : α → κ)

def distinctOn : List α → List α
  | [] => []
  | a :: l => a :: (distinctOn l).filter (key · ≠ key a)

variable {key}

theorem nodup_distinctOn (key : α → κ) : ∀ l : List α, ((distinctOn key l).map key).Nodup
  | [] => nodup_nil
  | a :: l => by
    rw [distinctOn, map_cons, nodup_cons]
    constructor
    · intro hmem
      obtain ⟨b, hb, heq⟩ := mem_map.mp hmem
      simpa [heq] using (mem_filter.mp hb).2
    · exact (nodup_distinctOn key l).sublist (filter_sublist.map key)

end

def limitTo (n : Option ℕ) (l : List α) : List α :=
  match n with
  | none => l
  | some n => l.take n

theorem limitTo_sublist (n : Option ℕ) (l : List α) : (limitTo n l).Sublist l := by
  cases n with
  | none => exact List.Sublist.refl l
  | some n => exact take_sublist n l

theorem length_limitTo_le (n : ℕ) (l : List α) : (limitTo (some n) l).length ≤ n :=
  length_take_le n l

section

variable [LinearOrder κ]

/-- The number of rows with a smaller key. -/
def before (key : α → κ) (l : List α) (a : α) : ℕ := l.countP fun b => key b < key a

variable {key : α → κ}

theorem mem_take_iff_before {l : List α} (hsorted : l.Pairwise fun a b => key a < key b) {a : α}
    (ha : a ∈ l) (n : ℕ) : a ∈ l.take n ↔ before key l a < n := by
  obtain ⟨xs, ys, rfl⟩ := append_of_mem ha
  obtain ⟨-, hys, hxs⟩ := pairwise_append.mp hsorted
  have hcount : before key (xs ++ a :: ys) a = xs.length := by
    unfold before
    rw [countP_append, countP_cons, countP_eq_length.mpr, countP_eq_zero.mpr]
    · simp
    · intro y hy
      simpa using ((pairwise_cons.mp hys).1 y hy).le
    · intro x hx
      simpa using hxs x hx a mem_cons_self
  rw [hcount]
  constructor
  · intro hmem
    by_contra hle
    rw [take_append_of_le_length (Nat.le_of_not_lt hle)] at hmem
    exact lt_irrefl _ (hxs a (mem_of_mem_take hmem) a mem_cons_self)
  · intro hlt
    obtain ⟨k, rfl⟩ := Nat.exists_eq_add_of_lt hlt
    rw [Nat.add_assoc, take_length_add_append, take_succ_cons]
    exact mem_append_right _ mem_cons_self

/-- **A row stays within the limit exactly if fewer rows come before it**, where no two rows have
the same key. -/
theorem mem_limitTo_orderBy {l : List α} (hnodup : (l.map key).Nodup) {n : Option ℕ} {a : α} :
    a ∈ limitTo n (orderBy key l) ↔ a ∈ l ∧ ∀ m, n = some m → before key l a < m := by
  have hperm := orderBy_perm key l
  have hsorted : (orderBy key l).Pairwise fun a b => key a < key b := by
    have hne : (orderBy key l).Pairwise fun a b => key a ≠ key b :=
      pairwise_map.mp ((hperm.map key).nodup_iff.mpr hnodup)
    exact ((pairwise_orderBy l).and hne).imp fun h => lt_of_le_of_ne h.1 h.2
  have hbefore : before key (orderBy key l) a = before key l a := hperm.countP_eq _
  cases n with
  | none => simp [limitTo]
  | some n =>
    simp only [limitTo, Option.some.injEq, forall_eq']
    constructor
    · intro hmem
      have ha := mem_of_mem_take hmem
      exact ⟨mem_orderBy.mp ha, hbefore ▸ (mem_take_iff_before hsorted ha n).mp hmem⟩
    · rintro ⟨ha, hlt⟩
      exact (mem_take_iff_before hsorted (mem_orderBy.mpr ha) n).mpr (hbefore.symm ▸ hlt)

end

end MaluDb.Lib
