import Mathlib.Data.List.Basic

/-!
# Runs of a transition function

A system is a total step function over an alphabet of operations. An operation that raises leaves
the state alone (`commitOr`). `Along P s as`: every step of the run from `s` meets `P` in the state
it is taken from.
-/

namespace MaluDb.Lib

open List

variable {σ α ε : Type}

def commitOr (s : σ) : Except ε σ → σ
  | .ok s' => s'
  | .error _ => s

@[simp] theorem commitOr_ok (s s' : σ) : commitOr (ε := ε) s (.ok s') = s' := rfl

theorem commitOr_of {P : σ → Prop} {s : σ} {x : Except ε σ} (hs : P s)
    (hok : ∀ s', x = .ok s' → P s') : P (commitOr s x) := by
  cases x with
  | error e => exact hs
  | ok s' => exact hok s' rfl

/-- The state after the operations `as`. -/
def run (step : σ → α → σ) (s : σ) (as : List α) : σ := as.foldl step s

@[simp] theorem run_nil (step : σ → α → σ) (s : σ) : run step s [] = s := rfl

@[simp] theorem run_cons (step : σ → α → σ) (s : σ) (a : α) (as : List α) :
    run step s (a :: as) = run step (step s a) as := rfl

theorem run_append (step : σ → α → σ) (s : σ) (as bs : List α) :
    run step s (as ++ bs) = run step (run step s as) bs :=
  foldl_append

/-- Every step of the run meets `P` in the state it is taken from. -/
def Along (step : σ → α → σ) (P : σ → α → Prop) : σ → List α → Prop
  | _, [] => True
  | s, a :: as => P s a ∧ Along step P (step s a) as

instance decidableAlong {step : σ → α → σ} {P : σ → α → Prop} [∀ s a, Decidable (P s a)] :
    (s : σ) → (as : List α) → Decidable (Along step P s as)
  | _, [] => isTrue trivial
  | s, a :: as =>
    have : Decidable (Along step P (step s a) as) := decidableAlong (step s a) as
    inferInstanceAs (Decidable (P s a ∧ Along step P (step s a) as))

theorem along_append {step : σ → α → σ} {P : σ → α → Prop} :
    ∀ {s : σ} {as bs : List α},
      Along step P s (as ++ bs) ↔ Along step P s as ∧ Along step P (run step s as) bs
  | _, [], _ => by simp [Along]
  | s, a :: as, bs => by
    simp only [cons_append, Along, run_cons, and_assoc]
    rw [along_append]

theorem along_of_forall_mem {step : σ → α → σ} {P : σ → α → Prop} :
    ∀ (s : σ) (as : List α), (∀ s, ∀ a ∈ as, P s a) → Along step P s as
  | _, [], _ => trivial
  | s, a :: as, h => ⟨h s a mem_cons_self,
      along_of_forall_mem (step s a) as fun s a' ha' => h s a' (mem_cons_of_mem a ha')⟩

theorem along_of_forall {step : σ → α → σ} {P : σ → α → Prop} (h : ∀ s a, P s a) (s : σ)
    (as : List α) : Along step P s as :=
  along_of_forall_mem s as fun s a _ => h s a

/-- **The invariant rule**: what every step along `P` keeps, every run along `P` keeps. -/
theorem run_induct {step : σ → α → σ} {P : σ → α → Prop} {I : σ → Prop}
    (hstep : ∀ s a, I s → P s a → I (step s a)) :
    ∀ (s : σ) (as : List α), I s → Along step P s as → I (run step s as)
  | _, [], hI, _ => hI
  | s, a :: as, hI, hP => run_induct hstep (step s a) as (hstep s a hI hP.1) hP.2

theorem run_inv {step : σ → α → σ} {I : σ → Prop} (hstep : ∀ s a, I s → I (step s a))
    {s : σ} (as : List α) (hI : I s) : I (run step s as) :=
  run_induct (P := fun _ _ => True) (fun s a h _ => hstep s a h) s as hI
    (along_of_forall (fun _ _ => trivial) s as)

theorem along_induct {step : σ → α → σ} {P Q : σ → α → Prop} {I : σ → Prop}
    (hstep : ∀ s a, I s → P s a → Q s a ∧ I (step s a)) :
    ∀ (s : σ) (as : List α), I s → Along step P s as → Along step Q s as
  | _, [], _, _ => trivial
  | s, a :: as, hI, hP =>
    have hQ := hstep s a hI hP.1
    ⟨hQ.1, along_induct hstep (step s a) as hQ.2 hP.2⟩

end MaluDb.Lib
