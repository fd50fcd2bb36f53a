import Mathlib.Data.List.Basic

/-!
# Loops driven by a schedule

A loop whose turns depend on what the surroundings do meanwhile: a schedule has one entry for each
turn, and `loop` is `none` if it ended first. `During P` says that every turn that is taken meets
`P` in the state it is taken from.
-/

namespace MaluDb.Lib

variable {σ τ ρ : Type}

/-- What a turn leads to. -/
inductive Next (σ ρ : Type) where
  | again (s : σ)
  | stop (r : ρ)

variable (turn : σ → τ → Next σ ρ)

/-- The result of the turns. -/
def loop : List τ → σ → Option ρ
  | [], _ => none
  | t :: ts, s =>
    match turn s t with
    | .again s' => loop ts s'
    | .stop r => some r

/-- Every turn that is taken meets `P`. -/
def During (P : σ → τ → Prop) : List τ → σ → Prop
  | [], _ => True
  | t :: ts, s => P s t ∧ ∀ s', turn s t = .again s' → During P ts s'

variable {turn} {P : σ → τ → Prop} {s : σ} {t : τ} {ts : List τ} {r : ρ}

theorem loop_of_again {s' : σ} (h : turn s t = .again s') :
    loop turn (t :: ts) s = loop turn ts s' := by
  rw [loop, h]

theorem loop_of_stop (h : turn s t = .stop r) : loop turn (t :: ts) s = some r := by
  rw [loop, h]

theorem during_cons {s' : σ} (h : turn s t = .again s') :
    During turn P (t :: ts) s ↔ P s t ∧ During turn P ts s' := by
  rw [During]
  refine and_congr_right fun _ => ⟨fun hd => hd s' h, fun hd s₂ hs₂ => ?_⟩
  rw [h] at hs₂
  cases hs₂
  exact hd

theorem during_of_forall (h : ∀ s, ∀ t ∈ ts, P s t) : During turn P ts s := by
  induction ts generalizing s with
  | nil => trivial
  | cons t ts ih =>
    exact ⟨h s t List.mem_cons_self,
      fun s' _ => ih fun s t' ht' => h s t' (List.mem_cons_of_mem t ht')⟩

/-- **The invariant rule**: what every turn keeps holds where the loop stops. -/
theorem loop_induct {I : σ → Prop} {Q : ρ → Prop}
    (hagain : ∀ s t s', I s → P s t → turn s t = .again s' → I s')
    (hstop : ∀ s t r, I s → P s t → turn s t = .stop r → Q r)
    (hI : I s) (hP : During turn P ts s) (h : loop turn ts s = some r) : Q r := by
  induction ts generalizing s with
  | nil => cases h
  | cons t ts ih =>
    cases hturn : turn s t with
    | again s' =>
      rw [loop_of_again hturn] at h
      exact ih (hagain s t s' hI hP.1 hturn) (hP.2 s' hturn) h
    | stop r' =>
      rw [loop_of_stop hturn] at h
      exact Option.some.inj h ▸ hstop s t r' hI hP.1 hturn

theorem loop_isSome (ht : t ∈ ts) (hstop : ∀ s, ∃ r, turn s t = .stop r) :
    ∃ r, loop turn ts s = some r := by
  induction ts generalizing s with
  | nil => cases ht
  | cons t' ts ih =>
    cases hturn : turn s t' with
    | again s' =>
      rw [loop_of_again hturn]
      rcases List.mem_cons.mp ht with rfl | hmem
      · obtain ⟨r, hr⟩ := hstop s
        rw [hturn] at hr
        cases hr
      · exact ih hmem
    | stop r => exact ⟨r, loop_of_stop hturn⟩

end MaluDb.Lib
