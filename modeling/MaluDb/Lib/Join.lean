import Mathlib.Algebra.Order.BigOperators.Group.List
import Mathlib.Algebra.Order.Group.Int
import Mathlib.Data.List.Flatten
import Mathlib.Data.List.Nodup
import Mathlib.Data.Option.Basic
import Mathlib.Tactic.Ring

/-!
# Joins and sums

`leftJoin` puts each row of a table beside each row of another one that matches it, or beside none;
`innerJoin` leaves the unmatched rows out. `total` adds up a number per row, which may fail.
-/

namespace MaluDb.Lib

open List

variable {α β γ ε : Type}

/-! ## Joins -/

def partners (r : List β) (on : β → Bool) : List (Option β) :=
  if r.filter on = [] then [none] else (r.filter on).map some

/-- `LEFT JOIN`. -/
def leftJoin (l : List α) (r : List β) (on : α → β → Bool) : List (α × Option β) :=
  l.flatMap fun a => (partners r (on a)).map (a, ·)

/-- `JOIN`. -/
def innerJoin (l : List α) (r : List β) (on : α → β → Bool) : List (α × β) :=
  l.flatMap fun a => (r.filter (on a)).map (a, ·)

theorem length_partners (r : List β) (on : β → Bool) :
    (partners r on).length = max 1 (r.countP on) := by
  unfold partners
  split
  · rename_i h
    have hzero : r.countP on = 0 := by rw [countP_eq_length_filter, h, length_nil]
    rw [hzero]
    rfl
  rename_i h
  have hpos : 0 < (r.filter on).length := length_pos_of_ne_nil h
  rw [length_map, countP_eq_length_filter]
  omega

/-- **A left join repeats a row as often as it is matched**, and at least once. -/
theorem leftJoin_map_fst (l : List α) (r : List β) (on : α → β → Bool) :
    (leftJoin l r on).map Prod.fst
      = l.flatMap fun a => replicate (max 1 (r.countP (on a))) a := by
  unfold leftJoin
  rw [map_flatMap]
  refine flatMap_congr fun a _ => ?_
  rw [List.map_map, ← length_partners, ← map_const']
  rfl

variable {l : List α} {r : List β}

theorem leftJoin_map_fst_of_le_one {on : α → β → Bool} (h : ∀ a ∈ l, r.countP (on a) ≤ 1) :
    (leftJoin l r on).map Prod.fst = l := by
  rw [leftJoin_map_fst]
  have hone : ∀ a ∈ l, replicate (max 1 (r.countP (on a))) a = [a] := fun a ha => by
    rw [max_eq_left (h a ha)]
    rfl
  rw [flatMap_congr hone, flatMap_singleton']

theorem countP_key_le_one {κ : Type} [DecidableEq κ] {key : β → κ} (h : (r.map key).Nodup)
    (k : Option κ) : r.countP (fun b => k = some (key b)) ≤ 1 := by
  cases k with
  | none => simp
  | some k =>
    have hcount := nodup_iff_count_le_one.mp h k
    rw [count, countP_map] at hcount
    refine le_trans (le_of_eq (countP_congr fun b _ => ?_)) hcount
    simp only [decide_eq_true_eq, Option.some.injEq, Function.comp, beq_iff_eq]
    exact eq_comm

theorem some_mem_partners {on : β → Bool} {b : β} :
    some b ∈ partners r on ↔ b ∈ r ∧ on b = true := by
  unfold partners
  split
  · rename_i h
    refine iff_of_false (by simp) fun ⟨hb, hon⟩ => ?_
    exact not_mem_nil (h ▸ mem_filter.mpr ⟨hb, hon⟩)
  · rw [mem_map_of_injective (Option.some_injective β), mem_filter]

theorem mem_leftJoin {on : α → β → Bool} {x : α × Option β} :
    x ∈ leftJoin l r on ↔ x.1 ∈ l ∧ x.2 ∈ partners r (on x.1) := by
  unfold leftJoin
  rw [mem_flatMap]
  constructor
  · rintro ⟨a, ha, hx⟩
    obtain ⟨b, hb, rfl⟩ := mem_map.mp hx
    exact ⟨ha, hb⟩
  · rintro ⟨ha, hb⟩
    exact ⟨x.1, ha, mem_map.mpr ⟨x.2, hb, rfl⟩⟩

theorem nodup_partners (hr : r.Nodup) (on : β → Bool) : (partners r on).Nodup := by
  unfold partners
  split
  · exact nodup_singleton _
  · exact (hr.filter _).map (Option.some_injective β)

theorem nodup_leftJoin (hl : l.Nodup) (hr : r.Nodup) (on : α → β → Bool) :
    (leftJoin l r on).Nodup := by
  refine nodup_flatMap.mpr ⟨fun a _ => ?_, hl.imp fun {a a'} hne => ?_⟩
  · exact (nodup_partners hr _).map (Prod.mk_right_injective a)
  intro x hx hx'
  obtain ⟨b, -, rfl⟩ := mem_map.mp hx
  obtain ⟨b', -, heq⟩ := mem_map.mp hx'
  exact hne (congrArg Prod.fst heq).symm

theorem leftJoin_flatMap (l : List γ) (f : γ → List α) (r : List β) (on : α → β → Bool) :
    leftJoin (l.flatMap f) r on = l.flatMap fun c => leftJoin (f c) r on :=
  flatMap_assoc

/-! ## Repeated rows -/

theorem filter_flatMap_replicate (times : α → ℕ) (p : α → Bool) (l : List α) :
    (l.flatMap fun a => replicate (times a) a).filter p
      = (l.filter p).flatMap fun a => replicate (times a) a := by
  induction l with
  | nil => rfl
  | cons a l ih =>
    rw [flatMap_cons, filter_append, ih, filter_replicate]
    cases h : p a with
    | true => rw [filter_cons_of_pos h, flatMap_cons, if_pos rfl]
    | false => rw [filter_cons_of_neg (by simp [h]), if_neg (by simp), nil_append]

theorem flatMap_eq_filter {f : α → List α} {p : α → Bool}
    (h : ∀ a ∈ l, f a = if p a then [a] else []) : l.flatMap f = l.filter p := by
  rw [flatMap_congr h]
  induction l with
  | nil => rfl
  | cons a l ih =>
    rw [flatMap_cons, ih fun b hb => h b (mem_cons_of_mem a hb)]
    cases hp : p a with
    | true => rw [filter_cons_of_pos hp, if_pos rfl, singleton_append]
    | false => rw [filter_cons_of_neg (by simp [hp]), if_neg (by simp), nil_append]

/-! ## Totals -/

def total (f : α → Except ε ℤ) : List α → Except ε ℤ
  | [] => .ok 0
  | a :: l => do
    let n ← f a
    let m ← total f l
    return n + m

theorem total_map (f : β → Except ε ℤ) (g : α → β) (l : List α) :
    total f (l.map g) = total (fun a => f (g a)) l := by
  induction l with
  | nil => rfl
  | cons a l ih => rw [map_cons, total, total, ih]

theorem total_congr {f g : α → Except ε ℤ} {l : List α} (h : ∀ a ∈ l, f a = g a) :
    total f l = total g l := by
  induction l with
  | nil => rfl
  | cons a l ih =>
    rw [total, total, h a mem_cons_self, ih fun b hb => h b (mem_cons_of_mem a hb)]

theorem total_one (l : List α) : total (fun _ => (.ok 1 : Except ε ℤ)) l = .ok l.length := by
  induction l with
  | nil => rfl
  | cons a l ih =>
    rw [total, ih, length_cons]
    refine congrArg Except.ok ?_
    push_cast
    omega

theorem total_replicate_append {f : α → Except ε ℤ} {a : α} {n : ℤ} (h : f a = .ok n) (k : ℕ)
    (l : List α) : total f (replicate k a ++ l) = (total f l).map (k * n + ·) := by
  induction k with
  | zero =>
    cases hl : total f l with
    | error e => exact hl
    | ok m => simpa [Except.map] using hl
  | succ k ih =>
    rw [replicate_succ, cons_append, total, ih, h]
    cases total f l with
    | error e => rfl
    | ok m =>
      refine congrArg Except.ok ?_
      push_cast
      ring

/-- What the rows add beyond their first count, if row `a` counts `1 + more a` times. -/
def surplus (more : α → ℕ) (f : α → Except ε ℤ) : List α → Except ε ℤ :=
  total fun a => (f a).map (more a * ·)

/-- **The total of repeated rows is that of the rows and the surplus.** -/
theorem total_flatMap_replicate (f : α → Except ε ℤ) (more : α → ℕ) (l : List α) :
    total f (l.flatMap fun a => replicate (1 + more a) a)
      = (total f l).bind fun n => (surplus more f l).map (n + ·) := by
  induction l with
  | nil => rfl
  | cons a l ih =>
    rw [flatMap_cons, surplus, total, total]
    cases h : f a with
    | error e =>
      rw [Nat.add_comm, replicate_succ, cons_append, total, h]
      rfl
    | ok n =>
      rw [total_replicate_append h, ih, surplus]
      cases total f l with
      | error e => rfl
      | ok m =>
        cases total (fun a => (f a).map (more a * ·)) l with
        | error e => rfl
        | ok k =>
          refine congrArg Except.ok ?_
          push_cast
          ring

theorem exists_total {f : α → Except ε ℤ} {l : List α} :
    (∃ n, total f l = .ok n) ↔ ∀ a ∈ l, ∃ n, f a = .ok n := by
  induction l with
  | nil => exact iff_of_true ⟨0, rfl⟩ nofun
  | cons a l ih =>
    rw [forall_mem_cons, ← ih, total]
    cases f a with
    | error e => exact iff_of_false nofun nofun
    | ok n =>
      cases total f l with
      | error e => exact iff_of_false nofun nofun
      | ok m => exact iff_of_true ⟨n + m, rfl⟩ ⟨⟨n, rfl⟩, ⟨m, rfl⟩⟩

theorem exists_surplus {f : α → Except ε ℤ} {more : α → ℕ} {l : List α} :
    (∃ k, surplus more f l = .ok k) ↔ ∃ n, total f l = .ok n := by
  rw [surplus, exists_total, exists_total]
  refine forall₂_congr fun a _ => ?_
  cases f a with
  | error e => exact iff_of_false nofun nofun
  | ok n => exact iff_of_true ⟨more a * n, rfl⟩ ⟨n, rfl⟩

/-- **Counting rows more than once leaves the total alone exactly if the surplus is zero**, or the
total fails. -/
theorem total_flatMap_replicate_iff (f : α → Except ε ℤ) (more : α → ℕ) (l : List α) :
    total f (l.flatMap fun a => replicate (1 + more a) a) = total f l ↔
      ∀ k, surplus more f l = .ok k → k = 0 := by
  rw [total_flatMap_replicate]
  cases h : total f l with
  | error e =>
    refine iff_of_true rfl fun k hk => ?_
    obtain ⟨n, hn⟩ := exists_surplus.mp ⟨k, hk⟩
    rw [h] at hn
    cases hn
  | ok n =>
    obtain ⟨k, hk⟩ := exists_surplus.mpr ⟨n, h⟩
    rw [hk]
    show (.ok (n + k) : Except ε ℤ) = .ok n ↔ _
    simp

theorem surplus_ok (more : α → ℕ) (g : α → ℤ) (l : List α) :
    surplus more (fun a => (.ok (g a) : Except ε ℤ)) l
      = .ok ((l.map fun a => (more a : ℤ) * g a).sum) := by
  induction l with
  | nil => rfl
  | cons a l ih =>
    rw [surplus] at ih
    rw [surplus, total, ih, map_cons, sum_cons]
    rfl

/-- **The number of rows stays the same exactly if no row counts more than once.** -/
theorem surplus_one (more : α → ℕ) (l : List α) :
    (∀ n, surplus more (fun _ => (.ok 1 : Except ε ℤ)) l = .ok n → n = 0) ↔
      ∀ a ∈ l, more a = 0 := by
  have hsum : (l.map fun a => (more a : ℤ) * 1).sum = ((l.map more).sum : ℕ) := by
    induction l with
    | nil => rfl
    | cons a l ih => rw [map_cons, map_cons, sum_cons, sum_cons, ih, mul_one, Nat.cast_add]
  have hzero : ((l.map more).sum : ℤ) = 0 ↔ (l.map more).sum = 0 := Nat.cast_eq_zero
  rw [surplus_ok, hsum]
  simp only [Except.ok.injEq, forall_eq', hzero, List.sum_eq_zero_iff, mem_map,
    forall_exists_index, and_imp, forall_apply_eq_imp_iff₂]

end MaluDb.Lib
