import Mathlib.Data.List.Basic

/-!
# Fields joined by a separator

If no field has the separator in it, the fields can be told from the text (`intercalate_inj`).
-/

namespace MaluDb.Lib

open List

section

variable {α : Type} {sep : α}

theorem append_sep_inj : ∀ {a b s t : List α}, sep ∉ a → sep ∉ b →
    a ++ sep :: s = b ++ sep :: t → a = b ∧ s = t
  | [], [], _, _, _, _, h => ⟨rfl, (List.cons.inj h).2⟩
  | [], y :: b, _, _, _, hb, h => absurd ((List.cons.inj h).1 ▸ mem_cons_self) hb
  | x :: a, [], _, _, ha, _, h => absurd ((List.cons.inj h).1 ▸ mem_cons_self) ha
  | x :: a, y :: b, s, t, ha, hb, h => by
    obtain ⟨rfl, htail⟩ := List.cons.inj h
    obtain ⟨rfl, rfl⟩ := append_sep_inj (fun hmem => ha (mem_cons_of_mem x hmem))
      (fun hmem => hb (mem_cons_of_mem x hmem)) htail
    exact ⟨rfl, rfl⟩

theorem intercalate_inj : ∀ {as bs : List (List α)}, (∀ a ∈ as, sep ∉ a) → (∀ b ∈ bs, sep ∉ b) →
    as.length = bs.length → [sep].intercalate as = [sep].intercalate bs → as = bs
  | [], [], _, _, _, _ => rfl
  | [a], [b], _, _, _, h => by simpa [intercalate] using h
  | a :: a' :: as, b :: b' :: bs, has, hbs, hlen, h => by
    rw [intercalate_cons_cons, intercalate_cons_cons, append_assoc, append_assoc] at h
    rw [forall_mem_cons] at has hbs
    obtain ⟨rfl, htail⟩ := append_sep_inj has.1 hbs.1 h
    rw [intercalate_inj has.2 hbs.2 (Nat.succ.inj hlen) htail]

theorem mem_intercalate {c : α} : ∀ {as : List (List α)}, c ∈ [sep].intercalate as →
    c = sep ∨ ∃ a ∈ as, c ∈ a
  | [], h => absurd h not_mem_nil
  | [a], h => .inr ⟨a, mem_singleton_self a, by simpa [intercalate] using h⟩
  | a :: b :: as, h => by
    rw [intercalate_cons_cons, append_assoc] at h
    rcases mem_append.mp h with ha | h
    · exact .inr ⟨a, mem_cons_self, ha⟩
    rcases mem_cons.mp h with hsep | h
    · exact .inl hsep
    · rcases mem_intercalate h with hsep | ⟨x, hx, hc⟩
      · exact .inl hsep
      · exact .inr ⟨x, mem_cons_of_mem a hx, hc⟩

end

/-! ## Numerals -/

theorem toString_toList (n : ℕ) : (toString n).toList = Nat.toDigits 10 n := by
  simp [toString, Nat.repr]

theorem isDigit_of_mem_toString {n : ℕ} {c : Char} (h : c ∈ (toString n).toList) :
    c.isDigit = true := by
  rw [toString_toList] at h
  exact Nat.isDigit_of_mem_toDigits (by decide) (Nat.le_refl 10) h

theorem toString_toList_injective {m n : ℕ} (h : (toString m).toList = (toString n).toList) :
    m = n := by
  rw [toString_toList, toString_toList] at h
  have hread : ∀ n : ℕ, Nat.ofDigitChars 10 (Nat.toDigits 10 n) 0 = n :=
    fun _ => Nat.ofDigitChars_toDigits (by decide) (Nat.le_refl 10)
  rw [← hread m, h, hread n]

end MaluDb.Lib
