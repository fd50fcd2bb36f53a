import MaluDb.Lib.Table

/-!
# Tables with a serial primary key

The keys of the rows are distinct and below the next value of the sequence. A failed operation
leaves the table as it was, so later keys may be smaller than in the database.
-/

namespace MaluDb.Lib

open List

variable {R : Type} {key : R → Nat}

/-- Rows with distinct keys below `next`. -/
structure Serial (R : Type) (key : R → Nat) where
  rows : List R
  next : Nat
  nodup : (rows.map key).Nodup
  below : ∀ r ∈ rows, key r < next

namespace Serial

def empty : Serial R key := ⟨[], 1, List.nodup_nil, by simp⟩

section

variable (t : Serial R key) (p : R → Bool)

def get? (k : Nat) : Option R := t.rows.find? fun r => key r == k

/-- `INSERT`: `mk` is the row for a given key. -/
def insert (mk : Nat → R) (hmk : ∀ k, key (mk k) = k) : Serial R key where
  rows := t.rows ++ [mk t.next]
  next := t.next + 1
  nodup := by
    rw [map_append, map_singleton, hmk]
    refine t.nodup.append (nodup_singleton _) fun k hk hk' => ?_
    obtain ⟨r, hr, rfl⟩ := mem_map.mp hk
    have := t.below r hr
    have := mem_singleton.mp hk'
    omega
  below r hr := by
    rcases mem_append.mp hr with hr | hr
    · have := t.below r hr
      omega
    · rw [mem_singleton.mp hr, hmk]
      omega

/-- `UPDATE … SET … WHERE p`. -/
def update (f : R → R) (hf : ∀ r, key (f r) = key r) :
    Serial R key where
  rows := updateWhere p f t.rows
  next := t.next
  nodup := by
    rw [map_updateWhere fun r _ => hf r]
    exact t.nodup
  below r hr := by
    obtain ⟨r₀, hr₀, rfl⟩ := mem_updateWhere.mp hr
    have hkey : key (if p r₀ then f r₀ else r₀) = key r₀ := by
      split
      · exact hf r₀
      · rfl
    rw [hkey]
    exact t.below r₀ hr₀

/-- `DELETE … WHERE p`. -/
def delete : Serial R key where
  rows := deleteWhere p t.rows
  next := t.next
  nodup := t.nodup.sublist (filter_sublist.map key)
  below r hr := t.below r (mem_deleteWhere.mp hr).1

end

variable {t : Serial R key}

theorem eq_of_key {a b : R} (ha : a ∈ t.rows) (hb : b ∈ t.rows) (h : key a = key b) : a = b :=
  inj_on_of_nodup_map t.nodup ha hb h

variable {r : R} {p : R → Bool} {f : R → R}

theorem get?_eq_some {k : Nat} : t.get? k = some r ↔ r ∈ t.rows ∧ key r = k :=
  ⟨mem_of_find?_key, fun ⟨hr, hk⟩ => find?_key t.nodup hr hk⟩

theorem filter_key (t : Serial R key) (k : Nat) :
    t.rows.filter (fun r => key r = k) = (t.get? k).toList := by
  cases h : t.get? k with
  | none =>
    refine filter_eq_nil_iff.mpr fun r hr hk => ?_
    rw [get?_eq_some.mpr ⟨hr, by simpa using hk⟩] at h
    cases h
  | some r =>
    obtain ⟨hr, hk⟩ := get?_eq_some.mp h
    have hnodup : (t.rows.filter fun r => key r = k).Nodup := t.nodup.of_map.filter _
    refine perm_singleton.mp ((perm_ext_iff_of_nodup hnodup ?_).mpr fun r' => ?_)
    · exact nodup_singleton r
    · rw [mem_filter, mem_singleton, decide_eq_true_eq]
      exact ⟨fun ⟨hr', hk'⟩ => eq_of_key hr' hr (hk'.trans hk.symm), fun heq => heq ▸ ⟨hr, hk⟩⟩

theorem mem_insert {mk : Nat → R} {hmk : ∀ k, key (mk k) = k} :
    r ∈ (t.insert mk hmk).rows ↔ r ∈ t.rows ∨ r = mk t.next := by
  unfold insert
  rw [mem_append, mem_singleton]

theorem nodup_map_insert {β : Type} {mk : Nat → R} (hmk : ∀ k, key (mk k) = k) {f : R → β}
    (h : (t.rows.map f).Nodup) (hnew : f (mk t.next) ∉ t.rows.map f) :
    ((t.insert mk hmk).rows.map f).Nodup := by
  unfold insert
  rw [map_append, map_singleton]
  refine h.append (nodup_singleton _) fun b hb hb' => hnew ?_
  rw [← mem_singleton.mp hb']
  exact hb

theorem map_update {β : Type} (hf : ∀ r, key (f r) = key r) {g : R → β} (h : ∀ r, g (f r) = g r) :
    (t.update p f hf).rows.map g = t.rows.map g :=
  map_updateWhere (fun r _ => h r) t.rows

theorem mem_update {hf : ∀ r, key (f r) = key r} :
    r ∈ (t.update p f hf).rows ↔ ∃ r₀ ∈ t.rows, (if p r₀ then f r₀ else r₀) = r :=
  mem_updateWhere

theorem mem_update_of_mem (hf : ∀ r, key (f r) = key r) (hr : r ∈ t.rows) :
    (if p r then f r else r) ∈ (t.update p f hf).rows :=
  mem_update.mpr ⟨r, hr, rfl⟩

theorem get?_update {hf : ∀ r, key (f r) = key r} (k : Nat) :
    (t.update p f hf).get? k = (t.get? k).map fun r => if p r then f r else r :=
  find?_updateWhere (fun r _ => by rw [hf r]) t.rows

theorem mem_delete : r ∈ (t.delete p).rows ↔ r ∈ t.rows ∧ p r = false :=
  mem_deleteWhere

end Serial

end MaluDb.Lib
