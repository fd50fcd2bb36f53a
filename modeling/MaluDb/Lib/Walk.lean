import Mathlib.Algebra.Group.Nat.Units
import Mathlib.Algebra.Order.Ring.Canonical
import Mathlib.Algebra.Order.Ring.Nat
import Mathlib.Data.List.Chain
import Mathlib.Data.List.Count
import Mathlib.Data.Nat.Find
import Mathlib.Order.Bounds.Basic

/-!
# Enumerating simple paths

A recursive query that starts with one vertex and lengthens every path it has found by every
neighbour that is not on it, until the paths have `bound` steps.

* `unionAll` is `WITH RECURSIVE … UNION ALL`. `fuel` is the number of rounds; more rounds than the
  query has rows for add nothing (`unionAll_stable`, `unionAll_of_depth_le`).
* A graph is a list of neighbours for each vertex, in which a vertex stands once for each edge to
  it. Paths are kept in reverse: the vertex reached comes first.
* `ways` is the number of ways to go along a path by its edges, or 0 if it is not simple.
-/

namespace MaluDb.Lib.Walk

open List Nat

/-! ## Recursive queries -/

section

variable {α β γ : Type} {f : α → List α}

/-- The rows of a recursive query after `fuel` rounds. -/
def unionAll (f : α → List α) : ℕ → List α → List α
  | 0, _ => []
  | fuel + 1, rows => rows ++ unionAll f fuel (rows.flatMap f)

/-- The rows of one round. -/
def round (f : α → List α) (rows : List α) : ℕ → List α
  | 0 => rows
  | n + 1 => (round f rows n).flatMap f

theorem round_flatMap (f : α → List α) (rows : List α) :
    ∀ n, round f (rows.flatMap f) n = round f rows (n + 1)
  | 0 => rfl
  | n + 1 => by rw [round, round_flatMap f rows n, ← round]

theorem unionAll_nil (f : α → List α) : ∀ fuel, unionAll f fuel [] = []
  | 0 => rfl
  | fuel + 1 => unionAll_nil f fuel

theorem unionAll_stable : ∀ {fuel fuel' : ℕ} {rows : List α}, round f rows fuel = [] →
    fuel ≤ fuel' → unionAll f fuel' rows = unionAll f fuel rows
  | 0, fuel', rows, h, _ => by
    rw [show rows = [] from h, unionAll_nil, unionAll_nil]
  | fuel + 1, fuel' + 1, rows, h, hle => by
    rw [unionAll, unionAll]
    have hround : round f (rows.flatMap f) fuel = [] := by rw [round_flatMap, h]
    rw [unionAll_stable hround (le_of_succ_le_succ hle)]

theorem mem_unionAll {a : α} : ∀ {fuel : ℕ} {rows : List α},
    a ∈ unionAll f fuel rows ↔ ∃ n < fuel, a ∈ round f rows n
  | 0, _ => by simp [unionAll]
  | fuel + 1, rows => by
    rw [unionAll, mem_append, mem_unionAll]
    constructor
    · rintro (h | ⟨n, hn, h⟩)
      · exact ⟨0, succ_pos fuel, h⟩
      · exact ⟨n + 1, succ_lt_succ hn, round_flatMap f rows n ▸ h⟩
    · rintro ⟨_ | n, hn, h⟩
      · exact .inl h
      · exact .inr ⟨n, lt_of_succ_lt_succ hn, (round_flatMap f rows n).symm ▸ h⟩

section

variable {depth : α → ℕ} {start : α}

theorem depth_of_mem_round (hstep : ∀ a, ∀ b ∈ f a, depth b = depth a + 1) :
    ∀ {n : ℕ} {a : α}, a ∈ round f [start] n → depth a = depth start + n
  | 0, a, h => by rw [mem_singleton.mp h, add_zero]
  | n + 1, a, h => by
    obtain ⟨b, hb, ha⟩ := mem_flatMap.mp h
    rw [hstep b a ha, depth_of_mem_round hstep hb, add_assoc]

theorem unionAll_of_depth_le {bound fuel : ℕ} (hstep : ∀ a, ∀ b ∈ f a, depth b = depth a + 1)
    (hstop : ∀ a, bound ≤ depth a → f a = []) (hfuel : bound + 1 ≤ fuel) :
    unionAll f fuel [start] = unionAll f (bound + 1) [start] := by
  refine unionAll_stable (flatMap_eq_nil_iff.mpr fun a ha => hstop a ?_) hfuel
  rw [depth_of_mem_round hstep ha]
  exact le_add_left _ _

end

theorem unionAll_map_congr {g : β → List β} {k : α → γ} {k' : β → γ}
    (h : ∀ a b, k a = k' b → (f a).map k = (g b).map k') :
    ∀ (fuel : ℕ) {as : List α} {bs : List β}, as.map k = bs.map k' →
      (unionAll f fuel as).map k = (unionAll g fuel bs).map k'
  | 0, _, _, _ => rfl
  | fuel + 1, as, bs, heq => by
    have hflat : ∀ {as : List α} {bs : List β}, as.map k = bs.map k' →
        (as.flatMap f).map k = (bs.flatMap g).map k' := by
      intro as
      induction as with
      | nil =>
        intro bs heq
        rw [map_eq_nil_iff.mp heq.symm]
        rfl
      | cons a as ih =>
        intro bs heq
        cases bs with
        | nil => cases heq
        | cons b bs =>
          obtain ⟨hhead, htail⟩ := List.cons.inj heq
          rw [flatMap_cons, flatMap_cons, map_append, map_append, h a b hhead, ih htail]
    rw [unionAll, unionAll, map_append, map_append, heq, unionAll_map_congr h fuel (hflat heq)]

end

/-! ## Reaching in a number of steps -/

section

variable {V : Type} {R : V → V → Prop} {s v : V}

/-- `v` is reached from `s` by `n` edges. -/
inductive Steps (R : V → V → Prop) (s : V) : ℕ → V → Prop
  | refl : Steps R s 0 s
  | tail {n : ℕ} {u v : V} : Steps R s n u → R u v → Steps R s (n + 1) v

/-- The numbers of edges by which `v` is reached from `s`. The least one is the distance. -/
def lengths (R : V → V → Prop) (s v : V) : Set ℕ := fun n => Steps R s n v

theorem exists_isLeast_lengths {n : ℕ} (h : Steps R s n v) :
    ∃ d ≤ n, IsLeast (lengths R s v) d := by
  classical
  have hex : ∃ n, Steps R s n v := ⟨n, h⟩
  exact ⟨Nat.find hex, Nat.find_min' hex h, Nat.find_spec hex, fun m hm => Nat.find_min' hex hm⟩

theorem exists_isLeast_pred {n : ℕ} (h : IsLeast (lengths R s v) (n + 1)) :
    ∃ u, IsLeast (lengths R s u) n ∧ R u v := by
  obtain ⟨hsteps, hmin⟩ := h
  cases hsteps with
  | @tail _ u _ hu hv =>
    refine ⟨u, ⟨hu, fun m hm => ?_⟩, hv⟩
    exact le_of_succ_le_succ (hmin (Steps.tail hm hv))

theorem isLeast_lengths_zero : IsLeast (lengths R s v) 0 ↔ v = s := by
  constructor
  · rintro ⟨h, -⟩
    cases h
    rfl
  · rintro rfl
    exact ⟨Steps.refl, fun _ _ => zero_le _⟩

end

/-! ## Counting -/

theorem count_flatMap_of_ne {α β : Type} [BEq α] [LawfulBEq α] [BEq β] [LawfulBEq β]
    {f : β → List α} {a : α} {b : β} (h : ∀ x, x ≠ b → a ∉ f x) :
    ∀ l : List β, (l.flatMap f).count a = l.count b * (f b).count a
  | [] => by simp
  | x :: l => by
    rw [flatMap_cons, count_append, count_flatMap_of_ne h l]
    by_cases hx : x = b
    · subst hx
      rw [count_cons_self, succ_mul, add_comm]
    · rw [count_eq_zero_of_not_mem (h x hx), count_cons_of_ne hx, zero_add]

section

variable {V : Type} [DecidableEq V] (next : V → List V) (bound : ℕ) (s : V)

/-- The paths that go one vertex further. A path of `n` vertices has `n - 1` steps. -/
def extend : List V → List (List V)
  | [] => []
  | u :: p =>
    if (u :: p).length ≤ bound then ((next u).filter (· ∉ u :: p)).map (· :: u :: p) else []

/-- The simple paths from `s` of at most `bound` steps. -/
def simplePaths (fuel : ℕ) : List (List V) := unionAll (extend next bound) fuel [[s]]

def ways : List V → ℕ
  | [] => 0
  | [v] => if v = s then 1 else 0
  | v :: u :: p => if v ∈ u :: p then 0 else (next u).count v * ways (u :: p)

variable {next bound s}

theorem exists_of_mem_extend {p r : List V} (h : p ∈ extend next bound r) : ∃ v, p = v :: r := by
  cases r with
  | nil => cases h
  | cons u r =>
    rw [extend] at h
    by_cases hlen : (u :: r).length ≤ bound
    · rw [if_pos hlen] at h
      obtain ⟨v, -, hv⟩ := mem_map.mp h
      exact ⟨v, hv.symm⟩
    · rw [if_neg hlen] at h
      cases h

theorem count_extend (v : V) (q r : List V) :
    (extend next bound r).count (v :: q) = if r = q then
      match q with
      | [] => 0
      | u :: _ => if q.length ≤ bound ∧ v ∉ q then (next u).count v else 0
    else 0 := by
  by_cases hr : r = q
  · subst hr
    rw [if_pos rfl]
    cases r with
    | nil => rfl
    | cons u p =>
      unfold extend
      dsimp only
      by_cases hlen : (u :: p).length ≤ bound
      · rw [if_pos hlen]
        have hcount : (((next u).filter (· ∉ u :: p)).map (· :: u :: p)).count (v :: u :: p)
            = ((next u).filter (· ∉ u :: p)).count v :=
          count_map_of_injective _ (· :: u :: p) (fun _ _ h => (List.cons.inj h).1) v
        rw [hcount]
        by_cases hv : v ∈ u :: p
        · rw [if_neg (·.2 hv)]
          refine count_eq_zero_of_not_mem fun hmem => ?_
          simpa [hv] using (mem_filter.mp hmem).2
        · rw [if_pos ⟨hlen, hv⟩, count_filter (by simpa using hv)]
      · rw [if_neg hlen, if_neg (fun h => hlen h.1), count_nil]
  · rw [if_neg hr]
    refine count_eq_zero_of_not_mem fun hmem => hr ?_
    obtain ⟨x, hx⟩ := exists_of_mem_extend hmem
    exact (List.cons.inj hx).2.symm

theorem count_round (n : ℕ) : ∀ p : List V, (round (extend next bound) [[s]] n).count p
    = if p.length = n + 1 ∧ n ≤ bound then ways next s p else 0 := by
  induction n with
  | zero =>
    intro p
    match p with
    | [] => simp [round]
    | [v] =>
      by_cases hv : v = s
      · simp [round, ways, hv]
      · simp [round, ways, hv, Ne.symm hv]
    | v :: u :: p => simp [round]
  | succ n ih =>
    intro p
    rw [round]
    cases p with
    | nil =>
      rw [if_neg (by simp)]
      refine count_eq_zero_of_not_mem fun hmem => ?_
      obtain ⟨r, -, hr⟩ := mem_flatMap.mp hmem
      obtain ⟨x, hx⟩ := exists_of_mem_extend hr
      cases hx
    | cons v q =>
      have honly : ∀ r, r ≠ q → v :: q ∉ extend next bound r := by
        intro r hr hmem
        obtain ⟨x, hx⟩ := exists_of_mem_extend hmem
        exact hr (List.cons.inj hx).2.symm
      rw [count_flatMap_of_ne honly, ih q, count_extend, if_pos rfl]
      cases q with
      | nil => simp
      | cons u q =>
        dsimp only
        rw [length_cons (a := v)]
        by_cases hlen : (u :: q).length = n + 1
        · rw [hlen]
          by_cases hv : v ∈ u :: q
          · simp [ways, hv]
          by_cases hn : n + 1 ≤ bound
          · rw [if_pos ⟨rfl, by omega⟩, if_pos ⟨hn, hv⟩, if_pos ⟨rfl, hn⟩, ways, if_neg hv,
              mul_comm]
          · simp [hn]
        · have hlen' : q.length ≠ n := fun h => hlen (by rw [length_cons, h])
          simp [hlen']

theorem count_unionAll (p : List V) : ∀ (fuel k : ℕ),
    (unionAll (extend next bound) fuel (round (extend next bound) [[s]] k)).count p
      = if k < p.length ∧ p.length ≤ k + fuel ∧ p.length ≤ bound + 1 then ways next s p else 0
  | 0, k => by
    rw [if_neg (by omega)]
    rfl
  | fuel + 1, k => by
    rw [unionAll, count_append, count_round, ← round, count_unionAll p fuel (k + 1)]
    by_cases hlen : p.length = k + 1
    · have hlater : ¬ (k + 1 < p.length ∧ p.length ≤ k + 1 + fuel ∧ p.length ≤ bound + 1) := by
        omega
      rw [if_neg hlater, add_zero]
      exact if_congr (by omega) rfl rfl
    · rw [if_neg (fun h => hlen h.1), zero_add]
      exact if_congr (by omega) rfl rfl

/-- **A path is found once for each way to go along it.** -/
theorem count_simplePaths (fuel : ℕ) (hfuel : bound + 1 ≤ fuel) (p : List V) :
    (simplePaths next bound s fuel).count p
      = if p.length ≤ bound + 1 then ways next s p else 0 := by
  unfold simplePaths
  rw [show [[s]] = round (extend next bound) [[s]] 0 from rfl, count_unionAll]
  cases p with
  | nil => simp [ways]
  | cons v p =>
    refine if_congr ?_ rfl rfl
    simp only [length_cons]
    omega

/-! ## Ways -/

theorem ways_pos_iff : ∀ p : List V, 0 < ways next s p ↔
    p.getLast? = some s ∧ p.Nodup ∧ p.IsChain fun v u => v ∈ next u
  | [] => by simp [ways]
  | [v] => by
    by_cases hv : v = s <;> simp [ways, hv]
  | v :: u :: p => by
    rw [ways, getLast?_cons_cons, nodup_cons, isChain_cons_cons]
    by_cases hv : v ∈ u :: p
    · simp [hv]
    · rw [if_neg hv, CanonicallyOrderedAdd.mul_pos, count_pos_iff, ways_pos_iff (u :: p)]
      tauto

theorem ways_eq_one_iff : ∀ p : List V, 0 < ways next s p →
    (ways next s p = 1 ↔ p.IsChain fun v u => (next u).count v = 1)
  | [], h => absurd h (by simp [ways])
  | [v], h => by
    by_cases hv : v = s
    · simp [ways, hv]
    · simp [ways, hv] at h
  | v :: u :: p, h => by
    rw [ways] at h ⊢
    by_cases hv : v ∈ u :: p
    · rw [if_pos hv] at h
      exact absurd h (lt_irrefl 0)
    · rw [if_neg hv] at h ⊢
      have hrest : 0 < ways next s (u :: p) := Nat.pos_of_mul_pos_left h
      rw [mul_eq_one, isChain_cons_cons, ways_eq_one_iff (u :: p) hrest]

end

end MaluDb.Lib.Walk
