import Mathlib.Data.List.Perm.Basic

/-!
# Binary heaps in an array

A binary heap over a list, for any priority test: `above a b` says that `a` must sit above `b`. The
loops are the textbook ones (parent of `i` at `(i - 1) / 2`, children at `2i + 1` and `2i + 2`);
their fuel is the largest number of rounds they can take.
-/

namespace MaluDb.Lib.Heap

open List

variable {α : Type}

/-- Exchange entries `i` and `j`. -/
def swap (h : List α) (i j : Nat) : List α :=
  match h[i]?, h[j]? with
  | some a, some b => (h.set i b).set j a
  | _, _ => h

/-- The parent of position `i`. -/
def parent (i : Nat) : Nat := (i - 1) / 2

/-- Sift up from `i`: while the entry is above its parent, exchange the two. -/
def siftUpFrom (above : α → α → Bool) : Nat → List α → Nat → List α
  | 0, h, _ => h
  | fuel + 1, h, i =>
    match h[i]?, h[parent i]? with
    | some a, some b =>
      if 0 < i ∧ above a b = true then siftUpFrom above fuel (swap h i (parent i)) (parent i)
      else h
    | _, _ => h

section

variable (above : α → α → Bool)

/-- Sift up from `i`; a position has fewer than `i + 1` ancestors. -/
def siftUp (h : List α) (i : Nat) : List α :=
  siftUpFrom above (i + 1) h i

/-- The better of positions `m` and `c`: `if (c < n && h[c] above h[m]) m = c`. -/
def pick (h : List α) (m c : Nat) : Nat :=
  match h[c]?, h[m]? with
  | some a, some b => if above a b then c else m
  | _, _ => m

def best (h : List α) (i : Nat) : Nat :=
  pick above h (pick above h i (2 * i + 1)) (2 * i + 2)

/-- Sift down from `i`: while a child is above the entry, exchange it with the better child. -/
def siftDownFrom (above : α → α → Bool) : Nat → List α → Nat → List α
  | 0, h, _ => h
  | fuel + 1, h, i =>
    if best above h i = i then h
    else siftDownFrom above fuel (swap h i (best above h i)) (best above h i)

/-- Sift down from `i`. -/
def siftDown (h : List α) (i : Nat) : List α :=
  siftDownFrom above h.length h i

end

/-! ## The sifts permute -/

theorem swap_perm (h : List α) (i j : Nat) : (swap h i j).Perm h := by
  unfold swap
  split
  · rename_i a b ha hb
    obtain ⟨hi, rfl⟩ := List.getElem?_eq_some_iff.mp ha
    obtain ⟨hj, rfl⟩ := List.getElem?_eq_some_iff.mp hb
    exact set_set_perm hi hj
  · exact List.Perm.refl _

@[simp] theorem swap_length (h : List α) (i j : Nat) : (swap h i j).length = h.length :=
  (swap_perm h i j).length_eq

theorem siftUpFrom_perm (above : α → α → Bool) :
    ∀ (fuel : Nat) (h : List α) (i : Nat), (siftUpFrom above fuel h i).Perm h
  | 0, _, _ => List.Perm.refl _
  | fuel + 1, h, i => by
    unfold siftUpFrom
    split
    · split
      · exact (siftUpFrom_perm above fuel _ _).trans (swap_perm _ _ _)
      · exact List.Perm.refl _
    · exact List.Perm.refl _

theorem siftUp_perm (above : α → α → Bool) (h : List α) (i : Nat) :
    (siftUp above h i).Perm h :=
  siftUpFrom_perm above _ h i

theorem siftDownFrom_perm (above : α → α → Bool) :
    ∀ (fuel : Nat) (h : List α) (i : Nat), (siftDownFrom above fuel h i).Perm h
  | 0, _, _ => List.Perm.refl _
  | fuel + 1, h, i => by
    unfold siftDownFrom
    split
    · exact List.Perm.refl _
    · exact (siftDownFrom_perm above fuel _ _).trans (swap_perm _ _ _)

theorem siftDown_perm (above : α → α → Bool) (h : List α) (i : Nat) :
    (siftDown above h i).Perm h :=
  siftDownFrom_perm above _ h i

/-! ## The heap order -/

/-- Where both positions exist, the entry at `x` is not above the one at `y`. -/
def NotAbove (above : α → α → Bool) (h : List α) (x y : Nat) : Prop :=
  ∀ a b, h[x]? = some a → h[y]? = some b → above a b = false

/-- **The heap order**: no entry is above its parent. -/
def Ordered (above : α → α → Bool) (h : List α) : Prop :=
  ∀ i, 0 < i → NotAbove above h i (parent i)

/-- `above` is a strict weak order: asymmetric, and not being above is transitive. -/
structure StrictWeak (above : α → α → Bool) : Prop where
  asymm : ∀ a b, above a b = true → above b a = false
  trans : ∀ a b c, above a b = false → above b c = false → above a c = false

variable {above : α → α → Bool} {h : List α} {i : Nat}

theorem StrictWeak.irrefl (hw : StrictWeak above) (a : α) : above a a = false := by
  cases h : above a a with
  | false => rfl
  | true => exact h.symm.trans (hw.asymm a a h)

theorem getElem?_swap {j : Nat} (hi : i < h.length) (hj : j < h.length) (k : Nat) :
    (swap h i j)[k]? = if k = j then h[i]? else if k = i then h[j]? else h[k]? := by
  unfold swap
  rw [getElem?_eq_getElem hi, getElem?_eq_getElem hj]
  simp only [getElem?_set, length_set]
  by_cases hkj : k = j
  · subst hkj
    simp [hj]
  by_cases hki : k = i
  · subst hki
    simp [Ne.symm hkj, hkj, hi]
  · simp [Ne.symm hkj, hkj, Ne.symm hki, hki]

theorem parent_lt (h : 0 < i) : parent i < i := by unfold parent; omega

/-! ### Sifting up -/

/-- What `siftUp` needs at `i`: every pair but the one of `i` and its parent is in order, and no
child of `i` is above the parent of `i`. -/
structure UpOk (above : α → α → Bool) (h : List α) (i : Nat) : Prop where
  order : ∀ j, 0 < j → j ≠ i → NotAbove above h j (parent j)
  grand : 0 < i → ∀ c, 0 < c → parent c = i → NotAbove above h c (parent i)

theorem UpOk.move (hw : StrictWeak above) {a b : α} (ho : UpOk above h i) (ha : h[i]? = some a)
    (hb : h[parent i]? = some b) (hi : 0 < i) (hab : above a b = true) :
    UpOk above (swap h i (parent i)) (parent i) := by
  have hlt := parent_lt hi
  have hil : i < h.length := (List.getElem?_eq_some_iff.mp ha).1
  have hpl : parent i < h.length := (List.getElem?_eq_some_iff.mp hb).1
  have hba : above b a = false := hw.asymm a b hab
  constructor
  · intro j hj hjp x y hx hy
    rw [getElem?_swap hil hpl] at hx hy
    rw [if_neg hjp] at hx
    by_cases hji : j = i
    · subst hji
      rw [if_pos rfl, hb] at hx
      rw [if_pos rfl, ha] at hy
      cases hx; cases hy
      exact hba
    rw [if_neg hji] at hx
    by_cases hp : parent j = parent i
    · -- the sibling of `i`
      rw [if_pos hp, ha] at hy
      cases hy
      exact hw.trans x b a (ho.order j hj hji x b hx (hp ▸ hb)) hba
    rw [if_neg hp] at hy
    by_cases hpi : parent j = i
    · rw [if_pos hpi] at hy
      exact ho.grand hi j hj hpi x y hx hy
    · rw [if_neg hpi] at hy
      exact ho.order j hj hji x y hx hy
  · intro hp c hc hcp x y hx hy
    have hpp := parent_lt hp
    rw [getElem?_swap hil hpl] at hx hy
    rw [if_neg (by omega), if_neg (by omega)] at hy
    have hby : above b y = false :=
      ho.order (parent i) hp (by omega) b y hb hy
    have hcne : c ≠ parent i := fun e => by have := parent_lt hc; omega
    rw [if_neg hcne] at hx
    by_cases hci : c = i
    · rw [if_pos hci, hb] at hx
      cases hx
      exact hby
    · rw [if_neg hci] at hx
      exact hw.trans x b y (ho.order c hc hci x b hx (hcp ▸ hb)) hby

theorem UpOk.finish (ho : UpOk above h i) (hstop : 0 < i → NotAbove above h i (parent i)) :
    Ordered above h := by
  intro j hj
  by_cases hji : j = i
  · subst hji
    exact hstop hj
  · exact ho.order j hj hji

theorem siftUpFrom_ordered {above : α → α → Bool} (hw : StrictWeak above) :
    ∀ (fuel : Nat) (h : List α) (i : Nat), i < fuel → UpOk above h i →
      Ordered above (siftUpFrom above fuel h i)
  | fuel + 1, h, i, hf, ho => by
    unfold siftUpFrom
    split
    · rename_i a b ha hb
      split
      · rename_i hc
        have := parent_lt hc.1
        exact siftUpFrom_ordered hw fuel _ _ (by omega) (ho.move hw ha hb hc.1 hc.2)
      rename_i hc
      refine ho.finish fun hi x y hx hy => ?_
      rw [ha] at hx
      rw [hb] at hy
      cases hx; cases hy
      simpa [hi] using hc
    · rename_i hn
      exact ho.finish fun _ x y hx hy => absurd hy (hn x y hx)

/-- **`siftUp` restores the heap order.** -/
theorem siftUp_ordered (hw : StrictWeak above) (ho : UpOk above h i) :
    Ordered above (siftUp above h i) :=
  siftUpFrom_ordered hw (i + 1) h i (Nat.lt_succ_self i) ho

theorem upOk_append (ho : Ordered above h) (e : α) : UpOk above (h ++ [e]) h.length := by
  constructor
  · intro j hj hjl x y hx hy
    have hjlt : j < h.length := by
      have := (List.getElem?_eq_some_iff.mp hx).1
      simp only [length_append, length_singleton] at this
      omega
    have hplt := parent_lt hj
    rw [getElem?_append_left hjlt] at hx
    rw [getElem?_append_left (by omega)] at hy
    exact ho j hj x y hx hy
  · intro _ c hc hcp x _ hx _
    have := (List.getElem?_eq_some_iff.mp hx).1
    simp only [length_append, length_singleton] at this
    have := parent_lt hc
    omega

/-! ### Sifting down -/

/-- What `siftDown` needs at `i`: every pair but those of `i` and its children is in order, and
no child of `i` is above the parent of `i`. -/
structure DownOk (above : α → α → Bool) (h : List α) (i : Nat) : Prop where
  order : ∀ j, 0 < j → parent j ≠ i → NotAbove above h j (parent j)
  grand : 0 < i → ∀ c, 0 < c → parent c = i → NotAbove above h c (parent i)

theorem parent_eq_iff {c : Nat} (hc : 0 < c) : parent c = i ↔ c = 2 * i + 1 ∨ c = 2 * i + 2 := by
  unfold parent
  omega

theorem pick_spec (hw : StrictWeak above) (h : List α) (m c : Nat) :
    (pick above h m c = m ∨ (pick above h m c = c ∧ c < h.length)) ∧
      NotAbove above h m (pick above h m c) ∧
      (m < h.length → NotAbove above h c (pick above h m c)) := by
  unfold pick
  split
  · rename_i a b ha hb
    split
    · rename_i hab
      refine ⟨.inr ⟨rfl, (List.getElem?_eq_some_iff.mp ha).1⟩, fun x y hx hy => ?_,
        fun _ x y hx hy => ?_⟩
      · rw [hb] at hx
        rw [ha] at hy
        cases hx; cases hy
        exact hw.asymm _ _ hab
      · rw [hx] at hy
        cases hy
        exact hw.irrefl _
    · rename_i hab
      refine ⟨.inl rfl, fun x y hx hy => ?_, fun _ x y hx hy => ?_⟩
      · rw [hx] at hy
        cases hy
        exact hw.irrefl _
      rw [ha] at hx
      rw [hb] at hy
      cases hx; cases hy
      simpa using hab
  · rename_i hn
    refine ⟨.inl rfl, fun x y hx hy => ?_, fun hm x y hx hy => absurd hy (hn x y hx)⟩
    rw [hx] at hy
    cases hy
    exact hw.irrefl _

theorem best_spec (hw : StrictWeak above) (hi : i < h.length) :
    (best above h i = i ∨ (0 < best above h i ∧ parent (best above h i) = i ∧
      best above h i < h.length)) ∧
      NotAbove above h i (best above h i) ∧
      ∀ c, 0 < c → parent c = i → NotAbove above h c (best above h i) := by
  obtain ⟨h1, hn1, hl⟩ := pick_spec hw h i (2 * i + 1)
  obtain ⟨h2, hn2, hr⟩ := pick_spec hw h (pick above h i (2 * i + 1)) (2 * i + 2)
  have hm1 : pick above h i (2 * i + 1) < h.length := by
    rcases h1 with e | ⟨e, hlt⟩ <;> rw [e]
    · exact hi
    · exact hlt
  have through : ∀ x, NotAbove above h x (pick above h i (2 * i + 1)) →
      NotAbove above h x (best above h i) := fun x hx a b ha hb =>
    hw.trans a _ b (hx a _ ha (getElem?_eq_getElem hm1))
      (hn2 _ b (getElem?_eq_getElem hm1) hb)
  refine ⟨?_, through i hn1, fun c hc hp => ?_⟩
  · unfold best
    rcases h2 with e | ⟨e, hlt⟩ <;> rw [e]
    · rcases h1 with e | ⟨e, hlt⟩ <;> rw [e]
      · exact .inl rfl
      · exact .inr ⟨by omega, (parent_eq_iff (by omega)).mpr (.inl rfl), hlt⟩
    · exact .inr ⟨by omega, (parent_eq_iff (by omega)).mpr (.inr rfl), hlt⟩
  · rcases (parent_eq_iff hc).mp hp with rfl | rfl
    · exact through _ (hl hi)
    · exact hr hm1

theorem DownOk.move {m : Nat} (ho : DownOk above h i) (hm : 0 < m) (hpm : parent m = i)
    (hml : m < h.length) (him : NotAbove above h i m)
    (hbest : ∀ c, 0 < c → parent c = i → NotAbove above h c m) : DownOk above (swap h i m) m := by
  have hlt := parent_lt hm
  have hil : i < h.length := by omega
  constructor
  · intro j hj hjm x y hx hy
    have hpj := parent_lt hj
    rw [getElem?_swap hil hml] at hx hy
    rw [if_neg hjm] at hy
    by_cases hjm' : j = m
    · rw [if_pos hjm'] at hx
      rw [hjm', hpm, if_pos rfl] at hy
      exact him x y hx hy
    rw [if_neg hjm'] at hx
    by_cases hji : j = i
    · rw [if_pos hji] at hx
      rw [if_neg (by omega), hji] at hy
      exact ho.grand (by omega) m hm hpm x y hx hy
    rw [if_neg hji] at hx
    by_cases hpi : parent j = i
    · rw [if_pos hpi] at hy
      exact hbest j hj hpi x y hx hy
    · rw [if_neg hpi] at hy
      exact ho.order j hj hpi x y hx hy
  · intro _ c hc hcm x y hx hy
    have hpc := parent_lt hc
    rw [getElem?_swap hil hml] at hx hy
    rw [if_neg (by omega), if_neg (by omega)] at hx
    rw [hpm, if_neg (by omega), if_pos rfl] at hy
    exact ho.order c hc (by omega) x y hx (hcm ▸ hy)

theorem siftDownFrom_ordered {above : α → α → Bool} (hw : StrictWeak above) :
    ∀ (fuel : Nat) (h : List α) (i : Nat), h.length ≤ fuel + i → DownOk above h i →
      Ordered above (siftDownFrom above fuel h i)
  | fuel, h, i, hf, ho => by
    by_cases hi : i < h.length
    · obtain ⟨fuel, rfl⟩ : ∃ n, fuel = n + 1 := ⟨fuel - 1, by omega⟩
      obtain ⟨hm, him, hbest⟩ := best_spec hw hi
      unfold siftDownFrom
      split
      · rename_i e
        intro j hj
        by_cases hp : parent j = i
        · have := hbest j hj hp
          rwa [e, ← hp] at this
        · exact ho.order j hj hp
      · rename_i hne
        obtain ⟨hm0, hpm, hml⟩ := hm.resolve_left hne
        have := parent_lt hm0
        exact siftDownFrom_ordered hw fuel _ _ (by rw [swap_length]; omega)
          (ho.move hm0 hpm hml him hbest)
    -- past the end: no position has `i` as its parent
    have hord : Ordered above h := fun j hj => by
      by_cases hp : parent j = i
      · intro x y hx _
        have := (List.getElem?_eq_some_iff.mp hx).1
        have := parent_lt hj
        omega
      · exact ho.order j hj hp
    cases fuel with
    | zero => exact hord
    | succ fuel =>
      have hn : ∀ c, h.length ≤ c → h[c]? = none := fun c hc => getElem?_eq_none hc
      have hpick : ∀ c, pick above h i c = i := fun c => by
        unfold pick
        rw [hn i (by omega)]
        cases h[c]? <;> rfl
      unfold siftDownFrom
      rw [if_pos (show best above h i = i by unfold best; rw [hpick, hpick])]
      exact hord

/-- **`siftDown` restores the heap order.** -/
theorem siftDown_ordered (hw : StrictWeak above) (ho : DownOk above h i) :
    Ordered above (siftDown above h i) :=
  siftDownFrom_ordered hw h.length h i (by omega) ho

theorem downOk_set_root (ho : Ordered above h) (e : α) : DownOk above (h.set 0 e) 0 := by
  constructor
  · intro j hj hp x y hx hy
    rw [getElem?_set_ne (by omega)] at hx hy
    exact ho j hj x y hx hy
  · intro h0
    exact absurd h0 (Nat.lt_irrefl 0)

/-! ### The root -/

/-- **In an ordered heap no entry is above the root.** -/
theorem root_above (hw : StrictWeak above) (ho : Ordered above h) (i : Nat) :
    NotAbove above h i 0 := by
  induction i using Nat.strongRecOn with
  | ind i ih =>
    intro a r ha hr
    by_cases hi : 0 < i
    · have hlt := parent_lt hi
      have hpl : parent i < h.length := by
        have := (List.getElem?_eq_some_iff.mp ha).1
        omega
      have hp := getElem?_eq_getElem hpl
      exact hw.trans a _ r (ho i hi a _ ha hp) (ih _ hlt _ r hp hr)
    · obtain rfl : i = 0 := by omega
      rw [ha] at hr
      cases hr
      exact hw.irrefl _

theorem ordered_nil (above : α → α → Bool) : Ordered above [] :=
  fun _ _ _ _ hx => absurd hx (by simp)

end MaluDb.Lib.Heap
