import MaluDb.Lib.BoundedHeap
import Mathlib.Order.WithBot

/-!
# The bounded heap on entries that may not be comparable

Entries whose value is a number or none, as with NaN: a comparison with an entry without a value is
false, whichever way it is asked (`partAbove`).
-/

namespace MaluDb.Lib.Heap

open List

/-! ## Comparisons that agree -/

section

variable {α : Type} {above above' : α → α → Bool} {P : α → Prop}

theorem forall_mem_swap {h : List α} (hP : ∀ a ∈ h, P a) (i j : Nat) : ∀ a ∈ swap h i j, P a :=
  fun a ha => hP a ((swap_perm h i j).mem_iff.mp ha)

section

variable (hab : ∀ a b, P a → P b → above a b = above' a b)
include hab

theorem siftUpFrom_congr :
    ∀ (fuel : Nat) {h : List α} (i : Nat), (∀ a ∈ h, P a) →
      siftUpFrom above fuel h i = siftUpFrom above' fuel h i
  | 0, _, _, _ => rfl
  | fuel + 1, h, i, hP => by
    unfold siftUpFrom
    split
    · rename_i a b ha hb
      rw [hab a b (hP a (mem_of_getElem? ha)) (hP b (mem_of_getElem? hb)),
        siftUpFrom_congr fuel _ (forall_mem_swap hP _ _)]
    · rfl

theorem pick_congr {h : List α} (hP : ∀ a ∈ h, P a) (m c : Nat) :
    pick above h m c = pick above' h m c := by
  unfold pick
  split
  · rename_i a b ha hb
    rw [hab a b (hP a (mem_of_getElem? ha)) (hP b (mem_of_getElem? hb))]
  · rfl

theorem siftDownFrom_congr :
    ∀ (fuel : Nat) {h : List α} (i : Nat), (∀ a ∈ h, P a) →
      siftDownFrom above fuel h i = siftDownFrom above' fuel h i
  | 0, _, _, _ => rfl
  | fuel + 1, h, i, hP => by
    have hbest : best above h i = best above' h i := by
      unfold best
      rw [pick_congr hab hP, pick_congr hab hP]
    unfold siftDownFrom
    rw [hbest, siftDownFrom_congr fuel _ (forall_mem_swap hP _ _)]

theorem push_congr {h : List α} {e : α} (hP : ∀ a ∈ h, P a) (he : P e) (cap : Nat) :
    push above cap h e = push above' cap h e := by
  have happend : ∀ a ∈ h ++ [e], P a := by
    intro a ha
    rcases mem_append.mp ha with ha | ha
    · exact hP a ha
    · rw [mem_singleton.mp ha]
      exact he
  unfold push siftUp siftDown
  rw [siftUpFrom_congr hab _ _ happend]
  cases h with
  | nil => rfl
  | cons root tail =>
    have hset : ∀ a ∈ e :: tail, P a :=
      forall_mem_cons.mpr ⟨he, fun a ha => hP a (mem_cons_of_mem root ha)⟩
    dsimp only
    rw [hab root e (hP root mem_cons_self) he, siftDownFrom_congr hab _ _ hset]

end

theorem sub_length_push (cap : Nat) (h : List α) (e : α) :
    cap - (push above cap h e).length = cap - h.length - 1 := by
  rw [length_push]
  split <;> omega

theorem forall_mem_push {h : List α} {e : α} (hP : ∀ a ∈ h, P a) (he : P e) (cap : Nat) :
    ∀ a ∈ push above cap h e, P a := by
  intro a ha
  rcases mem_of_mem_push ha with rfl | ha
  · exact he
  · exact hP a ha

end

/-! ## Entries without a value -/

variable {α L : Type} [LinearOrder L] {value : α → Option L} {k : Nat}

def partAbove (value : α → Option L) (a b : α) : Bool :=
  match value a, value b with
  | some x, some y => decide (y < x)
  | _, _ => false

def partKey (value : α → Option L) (a : α) : WithTop L := value a

theorem partAbove_left {a : α} (h : value a = none) (b : α) : partAbove value a b = false := by
  simp [partAbove, h]

theorem partAbove_right {b : α} (h : value b = none) (a : α) : partAbove value a b = false := by
  unfold partAbove
  rw [h]
  cases value a <;> rfl

theorem partAbove_eq_keyAbove {a b : α} (ha : (value a).isSome) (hb : (value b).isSome) :
    partAbove value a b = keyAbove (partKey value) a b := by
  obtain ⟨x, hx⟩ := Option.isSome_iff_exists.mp ha
  obtain ⟨y, hy⟩ := Option.isSome_iff_exists.mp hb
  unfold partAbove keyAbove partKey
  rw [hx, hy]
  exact decide_eq_decide.mpr WithTop.coe_lt_coe.symm

/-- An entry leaves the heap only for one that it is above. -/
theorem mem_push_of_not_above {above : α → α → Bool} {x e : α} (hx : above x e = false)
    {h : List α} (hmem : x ∈ h) : x ∈ push above k h e := by
  unfold push
  split
  · exact (siftUp_perm _ _ _).mem_iff.mpr (mem_append_left _ hmem)
  cases h with
  | nil => exact hmem
  | cons root tail =>
    dsimp only
    split
    · rename_i habove
      rcases mem_cons.mp hmem with rfl | hmem
      · rw [hx] at habove
        cases habove
      · exact (siftDown_perm _ _ _).mem_iff.mpr (mem_cons_of_mem e hmem)
    · exact hmem

theorem mem_push_self {above : α → α → Bool} {h : List α} (hroom : h.length < k) (e : α) :
    e ∈ push above k h e :=
  (push_of_room hroom e).mem_iff.mpr mem_cons_self

theorem mem_pushAll_of_mem {above : α → α → Bool} {x : α} :
    ∀ {es h : List α}, (∀ e ∈ es, above x e = false) → x ∈ h → x ∈ pushAll above k h es
  | [], _, _, hmem => hmem
  | e :: es, h, hx, hmem => by
    rw [forall_mem_cons] at hx
    show x ∈ pushAll above k (push above k h e) es
    exact mem_pushAll_of_mem hx.2 (mem_push_of_not_above hx.1 hmem)

/-- **An entry that comes in while there is room, and is above none of the later ones, stays.** -/
theorem mem_pushAll_of_not_above {above : α → α → Bool} {x : α} {post : List α}
    (hpost : ∀ e ∈ post, above x e = false) :
    ∀ {pre h : List α}, h.length + pre.length < k → x ∈ pushAll above k h (pre ++ x :: post)
  | [], h, hlen => by
    show x ∈ pushAll above k (push above k h x) post
    exact mem_pushAll_of_mem hpost (mem_push_self hlen x)
  | e :: pre, h, hlen => by
    show x ∈ pushAll above k (push above k h e) (pre ++ x :: post)
    refine mem_pushAll_of_not_above hpost ?_
    have hpush := length_push above k h e
    rw [length_cons] at hlen
    split at hpush <;> omega

/-- One of the first `k` entries that has no value stays. -/
theorem mem_pushAll_of_unordered {x : α} (hx : value x = none) {es : List α} (h : x ∈ es.take k) :
    x ∈ pushAll (partAbove value) k [] es := by
  obtain ⟨pre, post, hsplit⟩ := append_of_mem h
  have hlen : pre.length < k := by
    have := congrArg length hsplit
    rw [length_take, length_append, length_cons] at this
    omega
  have hes : es = pre ++ x :: (post ++ es.drop k) := by
    rw [← cons_append, ← append_assoc, ← hsplit, take_append_drop]
  rw [hes]
  exact mem_pushAll_of_not_above (fun e _ => partAbove_left hx e) (by rw [length_nil]; omega)

theorem push_unordered {e : α} (he : value e = none) {h : List α} (hfull : k ≤ h.length) :
    push (partAbove value) k h e = h := by
  unfold push
  rw [if_neg (by omega)]
  cases h with
  | nil => rfl
  | cons root tail =>
    dsimp only
    rw [partAbove_right he, if_neg Bool.false_ne_true]

/-- **If the first `k` entries have values, the entries without one are as if not offered.** -/
theorem pushAll_partAbove : ∀ {es h : List α}, (∀ a ∈ h, (value a).isSome) →
    (∀ e ∈ es.take (k - h.length), (value e).isSome) → pushAll (partAbove value) k h es =
        pushAll (keyAbove (partKey value)) k h (es.filter fun e => (value e).isSome)
  | [], _, _, _ => rfl
  | e :: es, h, hh, hes => by
    show pushAll (partAbove value) k (push (partAbove value) k h e) es = _
    cases hroom : k - h.length with
    | zero =>
      -- the heap is full, and stays so
      have hnone : ∀ e' ∈ es.take 0, (value e').isSome := by simp
      cases hv : (value e).isSome with
      | true =>
        rw [filter_cons, if_pos hv, pushAll_partAbove (forall_mem_push hh hv k)
          (by rw [sub_length_push, hroom]; exact hnone)]
        rw [push_congr (fun _ _ => partAbove_eq_keyAbove) hh hv]
        rfl
      | false =>
        rw [filter_cons, if_neg (by rw [hv]; exact Bool.false_ne_true),
          push_unordered (Option.not_isSome_iff_eq_none.mp (by simp [hv])) (by omega)]
        exact pushAll_partAbove hh (by rw [hroom]; exact hnone)
    | succ n =>
      rw [hroom, take_succ_cons, forall_mem_cons] at hes
      rw [filter_cons, if_pos hes.1, pushAll_partAbove (forall_mem_push hh hes.1 k)
        (by rw [sub_length_push, hroom]; exact hes.2)]
      rw [push_congr (fun _ _ => partAbove_eq_keyAbove) hh hes.1]
      rfl

theorem Keeps.pushAll_partAbove {all : Multiset α} {h es : List α}
    (hk : Keeps (partKey value) k all h) (hh : ∀ a ∈ h, (value a).isSome)
    (hes : ∀ e ∈ es.take (k - h.length), (value e).isSome) :
    Keeps (partKey value) k (all + (es.filter fun e => (value e).isSome : List α))
      (Heap.pushAll (partAbove value) k h es) := by
  rw [Heap.pushAll_partAbove hh hes]
  exact hk.pushAll _

/-- **The heap holds the `k` best of the entries with values exactly if the first `k` entries have
values.** -/
theorem best_pushAll_iff {es : List α} :
    Best (partKey value) k (es.filter fun e => (value e).isSome : List α)
      (Heap.pushAll (partAbove value) k [] es) ↔ ∀ e ∈ es.take k, (value e).isSome := by
  constructor
  · intro hbest e he
    by_contra hnone
    have hmem := mem_pushAll_of_unordered (Option.not_isSome_iff_eq_none.mp hnone) he
    exact hnone (mem_filter.mp (Multiset.mem_of_le hbest.le_all hmem)).2
  intro hes
  have hkeeps := (keeps_nil (partKey value) k).pushAll_partAbove
    (by simp) hes
  rw [zero_add] at hkeeps
  exact hkeeps.best

end MaluDb.Lib.Heap
