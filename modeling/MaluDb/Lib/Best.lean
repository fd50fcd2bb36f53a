import Mathlib.Algebra.Order.Group.Multiset
import Mathlib.Data.List.Sort
import Mathlib.Data.Prod.Lex

/-!
# The `k` best of a multiset

`Best key k all kept`: `kept` is a choice of `k` elements of `all` (all of them when there are
fewer) such that nothing left out has a smaller key than something kept. Choices can be merged in
any grouping (`Best.trans`), and two agree when the boundary key is not tied (`Best.ext`).
-/

namespace MaluDb.Lib

open List Multiset List.Perm

variable {α D : Type} [LinearOrder D]

/-- `kept` is a choice of the `k` best elements of `all`. -/
def Best (key : α → D) (k : Nat) (all kept : Multiset α) : Prop :=
  ∃ rest, all = kept + rest ∧ kept.card = min k all.card ∧ ∀ x ∈ kept, ∀ y ∈ rest, key x ≤ key y

variable {key : α → D} {k : Nat} {all kept : Multiset α}

theorem best_zero (key : α → D) (k : Nat) : Best key k 0 0 :=
  ⟨0, by simp, by simp, fun _ hx => absurd hx (notMem_zero _)⟩

theorem Best.le_all (h : Best key k all kept) : kept ≤ all := by
  obtain ⟨rest, rfl, -, -⟩ := h
  exact le_add_right _ _

theorem Best.card_le (h : Best key k all kept) : kept.card ≤ k := by
  obtain ⟨_, -, hc, -⟩ := h
  omega

theorem Best.eq_all (h : Best key k all kept) (hk : kept.card < k) : kept = all := by
  obtain ⟨rest, rfl, hc, -⟩ := h
  rw [card_add] at hc
  have : rest.card = 0 := by omega
  rw [card_eq_zero.mp this, add_zero]

/-- Fewer than `k` are before one that is kept. -/
theorem Best.countP_lt (h : Best key k all kept) {x : α} (hx : x ∈ kept) :
    all.countP (fun y => key y < key x) < k := by
  obtain ⟨rest, rfl, hcard, hle⟩ := h
  have hrest : rest.countP (fun y => key y < key x) = 0 :=
    countP_eq_zero.mpr fun y hy => not_lt.mpr (hle x hx y hy)
  obtain ⟨kept', rfl⟩ := exists_cons_of_mem hx
  have hkept := countP_le_card (fun y => key y < key x) kept'
  have hself : (x ::ₘ kept').countP (fun y => key y < key x) =
      kept'.countP fun y => key y < key x :=
    countP_cons_of_neg kept' (lt_irrefl (key x))
  rw [countP_add, hrest, hself]
  rw [card_cons] at hcard
  omega

theorem best_self (key : α → D) {k : Nat} {all : Multiset α} (h : all.card ≤ k) :
    Best key k all all :=
  ⟨0, by simp, by omega, fun _ _ _ hy => absurd hy (notMem_zero _)⟩

theorem Best.room (h : Best key k all kept) (hk : kept.card < k) (a : α) :
    Best key k (a ::ₘ all) (a ::ₘ kept) := by
  obtain rfl := h.eq_all hk
  exact best_self key (by rw [card_cons]; omega)

theorem Best.replace {r a : α} (h : Best key k all (r ::ₘ kept))
    (hr : ∀ x ∈ kept, key x ≤ key r) (ha : key a < key r) (hk : (r ::ₘ kept).card = k) :
    Best key k (a ::ₘ all) (a ::ₘ kept) := by
  obtain ⟨rest, rfl, -, hd⟩ := h
  refine ⟨r ::ₘ rest, ?_, ?_, fun x hx y hy => ?_⟩
  · rw [cons_add, cons_add, add_cons]
  · simp only [card_cons, card_add] at hk ⊢
    omega
  have hry : key r ≤ key y := by
    rcases mem_cons.mp hy with rfl | hy
    · exact le_rfl
    · exact hd r (mem_cons_self r kept) y hy
  rcases mem_cons.mp hx with rfl | hx
  · exact ha.le.trans hry
  · exact (hr x hx).trans hry

theorem Best.skip {a : α} (h : Best key k all kept) (ha : ∀ x ∈ kept, key x ≤ key a)
    (hk : kept.card = k) : Best key k (a ::ₘ all) kept := by
  obtain ⟨rest, rfl, -, hd⟩ := h
  refine ⟨a ::ₘ rest, by rw [add_cons], ?_, fun x hx y hy => ?_⟩
  · simp only [card_cons, card_add]
    omega
  · rcases mem_cons.mp hy with rfl | hy
    · exact ha x hx
    · exact hd x hx y hy

/-- **Choices merge**: the `k` best of `as` together with `k` best of `bs` are `k` best of
both. If something left out of `bs` were better than something kept, the `k` kept of `bs` would
all be better than it too, and the choice would hold more than `k`. -/
theorem Best.trans {as bs keptB kept : Multiset α} (hb : Best key k bs keptB)
    (h : Best key k (as + keptB) kept) : Best key k (as + bs) kept := by
  obtain ⟨restB, rfl, hcB, hdB⟩ := hb
  obtain ⟨rest, hall, hc, hd⟩ := h
  refine ⟨rest + restB, ?_, ?_, fun x hx y hy => ?_⟩
  · rw [← add_assoc, hall, add_assoc]
  · simp only [card_add] at hc hcB ⊢
    omega
  rcases mem_add.mp hy with hy | hy
  · exact hd x hx y hy
  by_contra hlt
  rw [not_le] at hlt
  have hpos : 0 < restB.card := card_pos_iff_exists_mem.mpr ⟨y, hy⟩
  have hkB : keptB.card = k := by
    rw [card_add] at hcB
    omega
  have hB : keptB.countP (fun z => key z < key x) = keptB.card :=
    countP_eq_card.mpr fun z hz => lt_of_le_of_lt (hdB z hz y hy) hlt
  have hR : rest.countP (fun z => key z < key x) = 0 :=
    countP_eq_zero.mpr fun z hz => not_lt.mpr (hd x hx z hz)
  have hK : kept.countP (fun z => key z < key x) < kept.card := by
    refine lt_of_le_of_ne (countP_le_card _ _) fun e => ?_
    exact lt_irrefl _ (countP_eq_card.mp e x hx)
  have hsum := congrArg (Multiset.countP fun z => key z < key x) hall
  rw [countP_add, countP_add, hB, hR] at hsum
  rw [hkB] at hsum
  omega

theorem Best.map {β : Type} {g : β → D} {f : α → β} (hf : ∀ x, g (f x) = key x)
    (h : Best key k all kept) : Best g k (all.map f) (kept.map f) := by
  obtain ⟨rest, rfl, hc, hd⟩ := h
  refine ⟨rest.map f, by rw [map_add], by simpa using hc, fun x hx y hy => ?_⟩
  obtain ⟨u, hu, rfl⟩ := mem_map.mp hx
  obtain ⟨v, hv, rfl⟩ := mem_map.mp hy
  rw [hf, hf]
  exact hd u hu v hv

theorem best_take (key : α → D) (k : Nat) {l : List α}
    (hl : l.Pairwise fun a b => key a ≤ key b) : Best key k (l : Multiset α) (l.take k) := by
  refine ⟨(l.drop k : List α), ?_, ?_, fun x hx y hy => ?_⟩
  · rw [coe_add, take_append_drop]
  · rw [coe_card, coe_card, length_take]
  · rw [mem_coe] at hx hy
    rw [← take_append_drop k l, pairwise_append] at hl
    exact hl.2.2 x hx y hy

/-! ## Where a choice is free

For a key `d`, let `c` elements of `all` have a smaller key and `e` at most `d`. If `e ≤ k` every
element with key `d` is kept, if `k ≤ c` none is, and for `c < k < e` exactly `k - c` are. -/

theorem Best.countP_of_le {d : D} (h : Best key k all kept)
    (hd : all.countP (fun x => key x ≤ d) ≤ k) {p : α → Prop} [DecidablePred p]
    (hp : ∀ x, p x → key x ≤ d) : kept.countP p = all.countP p := by
  obtain ⟨rest, rfl, hc, hdom⟩ := h
  rw [countP_add] at hd ⊢
  suffices hr : rest.countP p = 0 by omega
  refine countP_eq_zero.mpr fun y hy hpy => ?_
  have hK : kept.countP (fun x => key x ≤ d) = kept.card :=
    countP_eq_card.mpr fun x hx => (hdom x hx y hy).trans (hp y hpy)
  have hR : 0 < rest.countP (fun x => key x ≤ d) :=
    countP_pos.mpr ⟨y, hy, hp y hpy⟩
  have hle := countP_le_card (fun x => key x ≤ d) rest
  rw [card_add] at hc
  omega

theorem Best.countP_of_ge {d : D} (h : Best key k all kept)
    (hd : k ≤ all.countP (fun x => key x < d)) {p : α → Prop} [DecidablePred p]
    (hp : ∀ x, p x → d ≤ key x) : kept.countP p = 0 := by
  have hcard := h.card_le
  obtain ⟨rest, rfl, -, hdom⟩ := h
  refine countP_eq_zero.mpr fun x hx hpx => ?_
  have hR : rest.countP (fun x => key x < d) = 0 :=
    countP_eq_zero.mpr fun y hy => not_lt.mpr ((hp x hpx).trans (hdom x hx y hy))
  have hK : kept.countP (fun x => key x < d) < kept.card :=
    lt_of_le_of_ne (countP_le_card _ _) fun e =>
      absurd (countP_eq_card.mp e x hx) (not_lt.mpr (hp x hpx))
  rw [countP_add, hR] at hd
  omega

theorem Best.countP_boundary {d : D} (h : Best key k all kept)
    (hlt : all.countP (fun x => key x < d) < k) (hle : k < all.countP (fun x => key x ≤ d)) :
    kept.countP (fun x => key x = d) = k - all.countP (fun x => key x < d) := by
  obtain ⟨rest, rfl, hc, hdom⟩ := h
  have hkc : kept.card = k := by
    have := countP_le_card (fun x => key x ≤ d) (kept + rest)
    omega
  rw [countP_add] at hlt hle ⊢
  have hR : rest.countP (fun x => key x < d) = 0 := by
    refine countP_eq_zero.mpr fun y hy hyd => ?_
    have : kept.countP (fun x => key x < d) = kept.card :=
      countP_eq_card.mpr fun x hx => lt_of_le_of_lt (hdom x hx y hy) hyd
    omega
  have hK : kept.countP (fun x => key x ≤ d) = kept.card := by
    refine countP_eq_card.mpr fun x hx => ?_
    by_contra hxd
    rw [not_le] at hxd
    have : rest.countP (fun x => key x ≤ d) = 0 :=
      countP_eq_zero.mpr fun y hy =>
        not_le.mpr (lt_of_lt_of_le hxd (hdom x hx y hy))
    have := countP_le_card (fun x => key x ≤ d) kept
    omega
  have hsplit : kept.countP (fun x => key x ≤ d) =
      kept.countP (fun x => key x < d) + kept.countP (fun x => key x = d) := by
    rw [countP_eq_countP_filter_add kept (fun x => key x ≤ d) (fun x => key x < d),
      Multiset.countP_filter, Multiset.countP_filter]
    congr 1
    · exact countP_congr rfl fun x _ =>
        propext ⟨(·.2), fun h => ⟨h.le, h⟩⟩
    · exact countP_congr rfl fun x _ =>
        propext ⟨fun h => le_antisymm h.1 (not_lt.mp h.2), fun h => ⟨h.le, not_lt.mpr h.ge⟩⟩
  omega

theorem filter_key_perm (key : α → D) (d : D) (es : List α) :
    (es.filter (fun z => decide (key z < d)) ++ (es.filter (fun z => decide (key z = d)) ++
      es.filter (fun z => decide (d < key z)))).Perm es := by
  induction es with
  | nil => exact List.Perm.refl _
  | cons z es ih =>
    rcases lt_trichotomy (key z) d with h | h | h
    · simpa [h, h.ne, h.not_gt] using ih
    · simp only [filter_cons, h, lt_irrefl, decide_false, decide_true, if_true,
        Bool.false_eq_true, if_false, cons_append]
      exact perm_middle.trans (List.Perm.cons z ih)
    simp only [filter_cons, h, h.ne', h.not_gt, decide_false, decide_true, if_true,
      Bool.false_eq_true, if_false]
    rw [← append_assoc]
    refine perm_middle.trans (cons z ?_)
    rwa [append_assoc]

theorem exists_perm_cons_cons {l : List α} {x y : α} (hx : x ∈ l) (hy : y ∈ l) (hne : x ≠ y) :
    ∃ rest, l.Perm (x :: y :: rest) := by
  obtain ⟨s, t, rfl⟩ := append_of_mem hx
  have hy' : y ∈ s ++ t := by simpa [Ne.symm hne] using hy
  obtain ⟨u, v, huv⟩ := append_of_mem hy'
  refine ⟨u ++ v, perm_middle.trans (cons x ?_)⟩
  rw [huv]
  exact perm_middle

theorem exists_tied_order (key : α → D) {es : List α} {d : D} {x y : α} (hx : x ∈ es) (hy : y ∈ es)
    (hne : x ≠ y) (hxd : key x = d) (hyd : key y = d)
    (hlt : es.countP (fun z => decide (key z < d)) < k)
    (hle : k < es.countP (fun z => decide (key z ≤ d))) :
    ∃ pre post, pre.length + 1 = k ∧ (pre ++ x :: y :: post).Perm es ∧
      (∀ z ∈ pre, key z ≤ d) ∧ ∀ z ∈ post, d ≤ key z := by
  obtain ⟨rest, hrest⟩ := exists_perm_cons_cons (l := es.filter (fun z => decide (key z = d)))
    (mem_filter.mpr ⟨hx, decide_eq_true hxd⟩)
    (mem_filter.mpr ⟨hy, decide_eq_true hyd⟩) hne
  have hlo : ∀ z ∈ es.filter (fun z => decide (key z < d)), key z < d := fun z hz =>
    of_decide_eq_true (mem_filter.mp hz).2
  have hmid : ∀ z ∈ x :: y :: rest, key z = d := fun z hz =>
    of_decide_eq_true (mem_filter.mp (hrest.mem_iff.mpr hz)).2
  have hhi : ∀ z ∈ es.filter (fun z => decide (d < key z)), d < key z := fun z hz =>
    of_decide_eq_true (mem_filter.mp hz).2
  have hperm : (es.filter (fun z => decide (key z < d)) ++ ((x :: y :: rest) ++
      es.filter (fun z => decide (d < key z)))).Perm es :=
    ((hrest.symm.append_right _).append_left _).trans (filter_key_perm key d es)
  rw [countP_eq_length_filter] at hlt
  generalize es.filter (fun z => decide (key z < d)) = lo at hlt hlo hperm
  generalize es.filter (fun z => decide (d < key z)) = hi at hhi hperm
  have hsum : es.countP (fun z => decide (key z ≤ d)) = lo.length + (rest.length + 2) := by
    rw [← hperm.countP_eq, countP_append, countP_append, countP_eq_length.mpr,
      countP_eq_length.mpr, countP_eq_zero.mpr]
    · simp
    · exact fun z hz => by simpa using hhi z hz
    · exact fun z hz => decide_eq_true (hmid z hz).le
    · exact fun z hz => decide_eq_true (hlo z hz).le
  have hrestd : ∀ z ∈ rest, key z = d := fun z hz =>
    hmid z (mem_cons_of_mem x (mem_cons_of_mem y hz))
  refine ⟨lo ++ rest.take (k - lo.length - 1), rest.drop (k - lo.length - 1) ++ hi, ?_, ?_,
    fun z hz => ?_, fun z hz => ?_⟩
  · rw [length_append, length_take]
    omega
  · refine List.Perm.trans ?_ hperm
    rw [append_assoc]
    refine List.Perm.append_left _ ?_
    refine perm_middle.trans (cons x ?_)
    refine perm_middle.trans (cons y ?_)
    rw [← append_assoc, take_append_drop]
    exact List.Perm.refl _
  · rcases mem_append.mp hz with hz | hz
    · exact (hlo z hz).le
    · exact (hrestd z (mem_of_mem_take hz)).le
  · rcases mem_append.mp hz with hz | hz
    · exact (hrestd z (mem_of_mem_drop hz)).ge
    · exact (hhi z hz).le

/-! ## Choices of ranked pairs -/

variable {I : Type} [DecidableEq I]

/-- The boundary of the `k` best is not tied: whenever some but not all elements of a key are
among them, these elements have one and the same second component. -/
def TieFree (k : Nat) (all : Multiset (D × I)) : Prop :=
  ∀ d, all.countP (fun x => x.1 < d) < k → k < all.countP (fun x => x.1 ≤ d) →
    ∀ x ∈ all, ∀ y ∈ all, x.1 = d → y.1 = d → x.2 = y.2

omit [DecidableEq I] in
/-- For a list it is enough to look at the keys that occur. -/
theorem tieFree_coe_iff {k : Nat} {l : List (D × I)} :
    TieFree k (l : Multiset (D × I)) ↔ ∀ x ∈ l, ∀ y ∈ l, x.1 = y.1 →
      l.countP (fun z => z.1 < x.1) < k → k < l.countP (fun z => z.1 ≤ x.1) → x.2 = y.2 := by
  constructor
  · intro h x hx y hy hxy hlt hle
    exact h x.1 hlt hle x hx y hy rfl hxy.symm
  · rintro h _ hlt hle x hx y hy rfl hyd
    exact h x hx y hy hyd.symm hlt hle

/-- **Without a tie at the boundary there is only one choice.** -/
theorem Best.ext {all kept kept' : Multiset (D × I)} (ht : TieFree k all)
    (h : Best Prod.fst k all kept) (h' : Best Prod.fst k all kept') : kept = kept' := by
  refine Multiset.ext.mpr fun a => ?_
  have hkey : ∀ x : D × I, a = x → x.1 = a.1 := fun x hx => by rw [hx]
  unfold Multiset.count
  by_cases hle : all.countP (fun x => x.1 ≤ a.1) ≤ k
  · rw [h.countP_of_le hle fun x hx => (hkey x hx).le,
      h'.countP_of_le hle fun x hx => (hkey x hx).le]
  by_cases hge : k ≤ all.countP (fun x => x.1 < a.1)
  · rw [h.countP_of_ge hge fun x hx => (hkey x hx).ge,
      h'.countP_of_ge hge fun x hx => (hkey x hx).ge]
  rw [not_le] at hle hge
  -- all elements with this key are equal, so counting `a` is counting the key
  have hall : ∀ {s : Multiset (D × I)}, s ≤ all → a ∈ all →
      s.countP (a = ·) = s.countP (fun x => x.1 = a.1) := fun hs ha =>
    countP_congr rfl fun x hx => propext ⟨hkey x, fun hx1 =>
      Prod.ext hx1.symm (ht _ hge hle a ha x (mem_of_le hs hx) rfl hx1)⟩
  by_cases ha : a ∈ all
  · rw [hall h.le_all ha, hall h'.le_all ha, h.countP_boundary hge hle, h'.countP_boundary hge hle]
  · have hz : ∀ {s : Multiset (D × I)}, s ≤ all → s.countP (a = ·) = 0 := fun hs =>
      countP_eq_zero.mpr fun x hx e => ha (e ▸ mem_of_le hs hx)
    rw [hz h.le_all, hz h'.le_all]

/-- **All choices have the same keys**: the first `k` of the sorted keys. -/
theorem Best.sort_map {l kept : List α} (hl : (l : Multiset α) = all) (h : Best key k all kept) :
    (kept.map key).insertionSort (· ≤ ·) = ((l.map key).insertionSort (· ≤ ·)).take k := by
  subst hl
  have hsorted := pairwise_insertionSort (· ≤ ·) (l.map key)
  have hall : ((l.map key).insertionSort (· ≤ ·) : Multiset D) = (l.map key : List D) :=
    coe_eq_coe.mpr (perm_insertionSort _ _)
  have htake : Best id k (l.map key : Multiset D) _ := hall ▸ best_take id k hsorted
  have hkeys : Best id k (l.map key : Multiset D) (kept.map key : List D) :=
    h.map (f := key) (g := id) fun _ => rfl
  -- a key alone, paired with a unit, is never tied
  have hpairs := Best.ext (I := Unit) (fun _ _ _ _ _ _ _ _ _ => rfl)
    (hkeys.map (f := fun d => (d, ())) (g := Prod.fst) fun _ => rfl)
    (htake.map (f := fun d => (d, ())) (g := Prod.fst) fun _ => rfl)
  have hperm := coe_eq_coe.mp
    (map_injective (fun _ _ h => (Prod.mk.inj h).1) hpairs)
  exact ((perm_insertionSort _ _).trans hperm).eq_of_pairwise' (pairwise_insertionSort _ _)
    (hsorted.sublist (take_sublist k _))

end MaluDb.Lib
