import Mathlib.Data.List.Basic

/-!
# Computations that may raise

How a successful computation in `Except` comes apart: `map`, `bind`, a fold and a traversal.
-/

namespace MaluDb.Lib

open List

variable {ε α β : Type}

variable {x : Except ε α} {a : α}

theorem map_eq_ok {f : α → β} {b : β} : x.map f = .ok b ↔ ∃ a, x = .ok a ∧ f a = b := by
  cases x with
  | error e => simp [Except.map]
  | ok a => simp [Except.map]

theorem map_fst_eq_ok {x : Except ε (α × β)} : x.map Prod.fst = .ok a ↔ ∃ b, x = .ok (a, b) := by
  rw [map_eq_ok]
  constructor
  · rintro ⟨⟨a', b⟩, hx, rfl⟩
    exact ⟨b, hx⟩
  · rintro ⟨b, hx⟩
    exact ⟨(a, b), hx, rfl⟩

theorem bind_eq_ok {f : α → Except ε β} {b : β} :
    (x >>= f) = .ok b ↔ ∃ a, x = .ok a ∧ f a = .ok b := by
  cases x with
  | error e => simp [Bind.bind, Except.bind]
  | ok a => simp [Bind.bind, Except.bind]

theorem mapError_eq_ok {δ : Type} {f : ε → δ} : x.mapError f = .ok a ↔ x = .ok a := by
  cases x with
  | error e => simp [Except.mapError]
  | ok a => simp [Except.mapError]

theorem foldlM_induct {f : β → α → Except ε β} {I : β → Prop} :
    ∀ {l : List α} {b b' : β}, (∀ a ∈ l, ∀ b b', I b → f b a = .ok b' → I b') →
      I b → l.foldlM f b = .ok b' → I b'
  | [], b, b', _, hb, h => by
    cases h
    exact hb
  | a :: l, b, b', hstep, hb, h => by
    rw [foldlM_cons, bind_eq_ok] at h
    obtain ⟨b₁, h₁, h₂⟩ := h
    exact foldlM_induct (fun a' ha' => hstep a' (mem_cons_of_mem a ha'))
      (hstep a mem_cons_self b b₁ hb h₁) h₂

theorem mem_of_mapM_eq_ok {f : α → Except ε β} {b : β} :
    ∀ {l : List α} {bs : List β}, l.mapM f = .ok bs → b ∈ bs → ∃ a ∈ l, f a = .ok b
  | [], bs, h, hb => by
    rw [mapM_nil] at h
    cases h
    cases hb
  | a :: l, bs, h, hb => by
    rw [mapM_cons, bind_eq_ok] at h
    obtain ⟨b₁, h₁, h⟩ := h
    obtain ⟨bs', h₂, h⟩ := bind_eq_ok.mp h
    cases h
    rcases mem_cons.mp hb with rfl | hb
    · exact ⟨a, mem_cons_self, h₁⟩
    · obtain ⟨a', ha', hf⟩ := mem_of_mapM_eq_ok h₂ hb
      exact ⟨a', mem_cons_of_mem a ha', hf⟩

theorem exists_of_mapM_eq_ok {f : α → Except ε β} :
    ∀ {l : List α} {bs : List β}, l.mapM f = .ok bs → ∀ a ∈ l, ∃ b ∈ bs, f a = .ok b
  | [], _, _, a, ha => absurd ha not_mem_nil
  | a :: l, bs, h, a', ha' => by
    rw [mapM_cons, bind_eq_ok] at h
    obtain ⟨b, hb, h⟩ := h
    obtain ⟨bs', hbs', h⟩ := bind_eq_ok.mp h
    cases h
    rcases mem_cons.mp ha' with rfl | ha'
    · exact ⟨b, mem_cons_self, hb⟩
    · obtain ⟨b', hmem, hb'⟩ := exists_of_mapM_eq_ok hbs' a' ha'
      exact ⟨b', mem_cons_of_mem b hmem, hb'⟩

/-- What is read off the results is what is read off each of them. -/
theorem mapM_map_eq_ok {γ : Type} {f : α → Except ε β} {g : β → γ} {g' : α → γ} :
    ∀ {l : List α}, (l.mapM f).map (List.map g) = .ok (l.map g') ↔
      ∀ a ∈ l, (f a).map g = .ok (g' a)
  | [] => iff_of_true rfl fun _ h => absurd h not_mem_nil
  | a :: l => by
    rw [forall_mem_cons, ← mapM_map_eq_ok, mapM_cons]
    cases hf : f a with
    | error e => exact iff_of_false nofun fun h => nomatch h.1
    | ok b =>
      cases hl : l.mapM f with
      | error e => exact iff_of_false nofun fun h => nomatch h.2
      | ok bs =>
        show Except.ok (List.map g (b :: bs)) = .ok (g' a :: l.map g') ↔
          Except.ok (g b) = .ok (g' a) ∧ Except.ok (List.map g bs) = .ok (l.map g')
        rw [Except.ok.injEq, Except.ok.injEq, Except.ok.injEq, map_cons, List.cons.injEq]

/-- The same for something that `f` keeps. -/
theorem map_of_mapM_eq_ok {γ : Type} {f : α → Except ε β} {g : β → γ} {g' : α → γ}
    (hf : ∀ a b, f a = .ok b → g b = g' a) {l : List α} {bs : List β} (h : l.mapM f = .ok bs) :
    bs.map g = l.map g' := by
  have heach : ∀ a ∈ l, (f a).map g = .ok (g' a) := by
    intro a ha
    obtain ⟨b, -, hb⟩ := exists_of_mapM_eq_ok h a ha
    rw [hb, ← hf a b hb]
    rfl
  have hall := mapM_map_eq_ok.mpr heach
  rw [h] at hall
  exact Except.ok.inj hall

theorem map_map {γ : Type} (x : Except ε α) (f : α → β) (g : β → γ) :
    (x.map f).map g = x.map (g ∘ f) := by
  cases x <;> rfl

theorem forM_eq_ok {f : α → Except ε PUnit} :
    ∀ {l : List α}, l.forM f = .ok () ↔ ∀ a ∈ l, f a = .ok ()
  | [] => iff_of_true rfl fun _ h => absurd h not_mem_nil
  | a :: l => by
    rw [List.forM, bind_eq_ok, forall_mem_cons, ← forM_eq_ok]
    exact ⟨fun ⟨_, h, h'⟩ => ⟨h, h'⟩, fun ⟨h, h'⟩ => ⟨(), h, h'⟩⟩

def orRaise (x : Option α) (e : ε) : Except ε α :=
  match x with
  | none => .error e
  | some a => .ok a

theorem orRaise_eq_ok {x : Option α} {e : ε} : orRaise x e = .ok a ↔ x = some a := by
  cases x with
  | none => simp [orRaise]
  | some b => simp [orRaise]

def raiseUnless (p : Prop) [Decidable p] (e : ε) : Except ε Unit := if p then .ok () else .error e

theorem raiseUnless_eq_ok {p : Prop} [Decidable p] {e : ε} {u : Unit} :
    raiseUnless p e = .ok u ↔ p := by
  unfold raiseUnless
  by_cases h : p
  · simp [h]
  · simp [h]

end MaluDb.Lib
