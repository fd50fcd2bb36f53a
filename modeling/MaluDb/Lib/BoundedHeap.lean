import MaluDb.Lib.Best
import MaluDb.Lib.Heap

/-!
# A heap that keeps the `k` best

The bounded max-heap on a key: while there is room an entry is appended and sifted up; a full
heap replaces its root, the worst entry, by a strictly better one and sifts that down. It holds `k`
best entries of everything offered (`Keeps`), and among equal keys the first (`pushAll_first`).
-/

namespace MaluDb.Lib.Heap

open List Multiset

section

variable {α D : Type} [LT D] [DecidableLT D]

/-- In a max-heap on `key` a larger key sits above a smaller one. -/
def keyAbove (key : α → D) (a b : α) : Bool := decide (key b < key a)

section

variable (above : α → α → Bool) (cap : Nat)

/-- Offer `e` to a heap of capacity `cap`. -/
def push (h : List α) (e : α) : List α :=
  if h.length < cap then siftUp above (h ++ [e]) h.length
  else match h with
    | [] => []
    | root :: tail => if above root e then siftDown above (e :: tail) 0 else root :: tail

/-- Offer the entries `es` in order. -/
def pushAll (h es : List α) : List α :=
  es.foldl (push above cap) h

theorem push_of_room {above : α → α → Bool} {cap : Nat} {h : List α} (hroom : h.length < cap)
    (e : α) : (push above cap h e).Perm (e :: h) := by
  unfold push
  rw [if_pos hroom]
  exact (siftUp_perm _ _ _).trans (perm_append_singleton e h)

theorem push_subperm (h : List α) (e : α) : (push above cap h e).Subperm (e :: h) := by
  by_cases hroom : h.length < cap
  · exact (push_of_room hroom e).subperm
  unfold push
  rw [if_neg hroom]
  cases h with
  | nil => exact nil_subperm
  | cons root tail =>
    dsimp only
    split
    · exact (siftDown_perm _ _ _).subperm.trans
        ((sublist_cons_self root tail).cons_cons e).subperm
    · exact (sublist_cons_self e _).subperm

theorem length_push (h : List α) (e : α) :
    (push above cap h e).length = if h.length < cap then h.length + 1 else h.length := by
  split
  · rename_i hroom
    exact (push_of_room hroom e).length_eq
  rename_i hroom
  unfold push
  rw [if_neg hroom]
  cases h with
  | nil => rfl
  | cons root tail =>
    dsimp only
    split
    · exact (siftDown_perm _ _ _).length_eq
    · rfl

end

theorem mem_of_mem_push {above : α → α → Bool} {cap : Nat} {h : List α} {e x : α}
    (hx : x ∈ push above cap h e) : x = e ∨ x ∈ h :=
  mem_cons.mp ((push_subperm above cap h e).subset hx)

theorem mem_of_mem_pushAll {above : α → α → Bool} {cap : Nat} {x : α} :
    ∀ {h es : List α}, x ∈ pushAll above cap h es → x ∈ es ∨ x ∈ h
  | h, [], hx => .inr hx
  | h, e :: es, hx => by
    have hx : x ∈ pushAll above cap (push above cap h e) es := hx
    rcases mem_of_mem_pushAll hx with hx | hx
    · exact .inl (mem_cons_of_mem e hx)
    · rcases mem_of_mem_push hx with rfl | hx
      · exact .inl mem_cons_self
      · exact .inr hx

end

variable {α D : Type} [LinearOrder D] {key : α → D} {k : Nat}

@[simp] theorem keyAbove_eq_true {a b : α} : keyAbove key a b = true ↔ key b < key a := by
  simp [keyAbove]

@[simp] theorem keyAbove_eq_false {a b : α} : keyAbove key a b = false ↔ key a ≤ key b := by
  simp [keyAbove]

theorem strictWeak_keyAbove (key : α → D) : StrictWeak (keyAbove key) where
  asymm a b h := by
    rw [keyAbove_eq_true] at h
    exact keyAbove_eq_false.mpr h.le
  trans a b c hab hbc := by
    rw [keyAbove_eq_false] at hab hbc ⊢
    exact hab.trans hbc

theorem key_le_root {root : α} {tail : List α} (ho : Ordered (keyAbove key) (root :: tail)) :
    ∀ x ∈ tail, key x ≤ key root := by
  intro x hx
  obtain ⟨i, hi⟩ := mem_iff_getElem?.mp (mem_cons_of_mem root hx)
  exact keyAbove_eq_false.mp (root_above (strictWeak_keyAbove key) ho i x root hi rfl)

/-- `h` is a heap that holds `k` best entries of `all`. -/
structure Keeps (key : α → D) (k : Nat) (all : Multiset α) (h : List α) : Prop where
  best : Best key k all h
  order : Ordered (keyAbove key) h

theorem keeps_nil (key : α → D) (k : Nat) : Keeps key k 0 [] :=
  ⟨best_zero key k, ordered_nil _⟩

theorem Keeps.length_le {all : Multiset α} {h : List α} (hk : Keeps key k all h) :
    h.length ≤ k :=
  hk.best.card_le

/-- **One offer keeps the `k` best.** -/
theorem Keeps.push {all : Multiset α} {h : List α} (hk : Keeps key k all h) (e : α) :
    Keeps key k (e ::ₘ all) (push (keyAbove key) k h e) := by
  have hw := strictWeak_keyAbove key
  have hlen := hk.length_le
  unfold Heap.push
  split
  · rename_i hroom
    refine ⟨?_, siftUp_ordered hw (upOk_append hk.order e)⟩
    have hp : (siftUp (keyAbove key) (h ++ [e]) h.length).Perm (e :: h) :=
      (siftUp_perm _ _ _).trans (perm_append_singleton e h)
    rw [coe_eq_coe.mpr hp, ← cons_coe]
    exact hk.best.room hroom e
  rename_i hfull
  match h, hk, hlen, hfull with
  | [], hk, hlen, hfull =>
    exact ⟨hk.best.skip (by simp) (Nat.le_antisymm hlen (not_lt.mp hfull)), ordered_nil _⟩
  | root :: tail, hk, hlen, hfull =>
    have hroot := key_le_root hk.order
    have hcard : ((root :: tail : List α) : Multiset α).card = k := by
      rw [coe_card]
      omega
    have hbest := hk.best
    rw [← cons_coe] at hbest hcard
    dsimp only
    split
    · rename_i hlt
      rw [keyAbove_eq_true] at hlt
      refine ⟨?_, siftDown_ordered hw (downOk_set_root hk.order e)⟩
      rw [coe_eq_coe.mpr (siftDown_perm _ (e :: tail) 0), ← cons_coe]
      exact hbest.replace hroot hlt hcard
    rename_i hlt
    rw [keyAbove_eq_true, not_lt] at hlt
    refine ⟨hbest.skip (fun x hx => ?_) hcard, hk.order⟩
    rcases Multiset.mem_cons.mp hx with rfl | hx
    · exact hlt
    · exact (hroot x hx).trans hlt

theorem Keeps.pushAll {all : Multiset α} :
    ∀ {h : List α} (es : List α), Keeps key k all h →
      Keeps key k (all + (es : Multiset α)) (pushAll (keyAbove key) k h es)
  | h, [], hk => by simpa [Heap.pushAll] using hk
  | h, e :: es, hk => by
    have := (hk.push e).pushAll es
    rwa [← cons_coe, add_cons, ← cons_add]

/-! ## First come, first served -/

theorem push_skip {h : List α} {e : α} (hfull : k ≤ h.length)
    (he : ∀ x ∈ h, key x ≤ key e) : push (keyAbove key) k h e = h := by
  unfold push
  rw [if_neg (by omega)]
  cases h with
  | nil => rfl
  | cons root tail =>
    have hroot := keyAbove_eq_false.mpr (he root mem_cons_self)
    simp only [hroot]
    rfl

theorem pushAll_skip :
    ∀ {h es : List α}, k ≤ h.length → (∀ x ∈ h, ∀ e ∈ es, key x ≤ key e) →
      pushAll (keyAbove key) k h es = h
  | h, [], _, _ => rfl
  | h, e :: es, hfull, he => by
    show pushAll (keyAbove key) k (push (keyAbove key) k h e) es = h
    rw [push_skip hfull fun x hx => he x hx e mem_cons_self]
    exact pushAll_skip hfull fun x hx y hy => he x hx y (mem_cons_of_mem e hy)

/-- **Entries that nothing later improves on are kept.** -/
theorem pushAll_first {first later : List α} (hlen : first.length = k)
    (h : ∀ x ∈ first, ∀ e ∈ later, key x ≤ key e) :
    (pushAll (keyAbove key) k [] (first ++ later)).Perm first := by
  have hfirst : Keeps key k (first : Multiset α) (pushAll (keyAbove key) k [] first) := by
    simpa using (keeps_nil key k).pushAll first
  have hall : (pushAll (keyAbove key) k [] first).Perm first := by
    refine coe_eq_coe.mp (eq_of_le_of_card_le hfirst.best.le_all ?_)
    obtain ⟨_, -, hc, -⟩ := hfirst.best
    simp only [coe_card] at hc ⊢
    omega
  have hsplit : pushAll (keyAbove key) k [] (first ++ later) =
      pushAll (keyAbove key) k (pushAll (keyAbove key) k [] first) later :=
    foldl_append
  rw [hsplit, pushAll_skip]
  · exact hall
  · rw [hall.length_eq, hlen]
  · exact fun x hx e he => h x (hall.mem_iff.mp hx) e he

end MaluDb.Lib.Heap
