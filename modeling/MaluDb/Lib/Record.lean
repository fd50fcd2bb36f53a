import MaluDb.Lib.Serial

/-!
# Tables of records

A table with a serial key whose other columns are one value.
-/

namespace MaluDb.Lib

variable {F : Type}

structure Row (F : Type) where
  id : ℕ
  fields : F
  deriving DecidableEq

/-- A table of records. -/
abbrev Records (F : Type) := Serial (Row F) Row.id

namespace Records

variable (t : Records F)

def put (f : F) : Records F := t.insert (fun id => ⟨id, f⟩) fun _ => rfl

def set (id : ℕ) (f : F) : Records F :=
  t.update (·.id == id) (fun r => ⟨r.id, f⟩) fun _ => rfl

def remove (id : ℕ) : Records F := t.delete (·.id == id)

/-- The columns of a key. -/
def fields? (id : ℕ) : Option F := (t.get? id).map Row.fields

variable {t} {id : ℕ} {f : F}

theorem mem_of_fields? (h : fields? t id = some f) : ⟨id, f⟩ ∈ t.rows := by
  obtain ⟨r, hr, rfl⟩ := Option.map_eq_some_iff.mp h
  obtain ⟨hmem, rfl⟩ := Serial.get?_eq_some.mp hr
  exact hmem

theorem fields?_put (id : ℕ) (f : F) :
    fields? (put t f) id = (fields? t id).or (if t.next = id then some f else none) := by
  unfold fields? put Serial.get? Serial.insert
  rw [List.find?_append, Option.map_or, List.find?_singleton]
  congr 1
  simp only [beq_iff_eq]
  split
  · rfl
  · rfl

theorem fields?_put_of_ne (f : F) (h : id ≠ t.next) : fields? (put t f) id = fields? t id := by
  rw [fields?_put, if_neg h.symm, Option.or_none]

theorem fields?_set_of_ne {id' : ℕ} (f : F) (h : id' ≠ id) :
    fields? (set t id f) id' = fields? t id' := by
  unfold fields? set
  rw [Serial.get?_update, Option.map_map]
  refine Option.map_congr fun r hr => ?_
  have hkey := (Serial.get?_eq_some.mp hr).2
  rw [Function.comp_apply, if_neg (by simpa [hkey] using h)]

theorem map_fields?_set {C : Type} {g : F → C} (h : ∀ old ∈ fields? t id, g old = g f) (id' : ℕ) :
    (fields? (set t id f) id').map g = (fields? t id').map g := by
  unfold fields? set at *
  rw [Serial.get?_update, Option.map_map, Option.map_map, Option.map_map]
  refine Option.map_congr fun r hr => ?_
  simp only [Function.comp_apply]
  split
  · rename_i hid
    have hkey : r.id = id := by simpa using hid
    obtain ⟨-, rfl⟩ := Serial.get?_eq_some.mp hr
    exact (h r.fields (by simp [← hkey, hr])).symm
  · rfl

theorem fields?_set_self (f : F) (h : (fields? t id).isSome) :
    fields? (set t id f) id = some f := by
  obtain ⟨f₀, hf₀⟩ := Option.isSome_iff_exists.mp h
  obtain ⟨r, hr, -⟩ := Option.map_eq_some_iff.mp hf₀
  have hkey := (Serial.get?_eq_some.mp hr).2
  unfold fields? set
  rw [Serial.get?_update, hr]
  simp [hkey]

theorem fields?_remove_of_ne {id' : ℕ} (h : id' ≠ id) :
    fields? (remove t id) id' = fields? t id' := by
  unfold fields? remove Serial.get? Serial.delete
  rw [find?_deleteWhere fun r _ hr => by simpa [show r.id = id' by simpa using hr] using h]

end Records

end MaluDb.Lib
