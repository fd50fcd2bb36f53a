import MaluDb.Lib.Except
import MaluDb.Prompt.Render

/-!
# Which texts are read as the same bytes

The cast of a `text` to `bytea` (`byteaIn`) reads backslashes as escapes: `A` and `\101` are read as
the same bytes. In the text of a `jsonb` every backslash begins an escape of a string
(`JsonEscapes`); the cast takes `\\` for a backslash and refuses the others, so it is injective
there.
-/

namespace MaluDb.Prompt

open MaluDb.Lib List

def utf8 (t : Text) : List UInt8 := t.flatMap String.utf8EncodeChar

theorem utf8_cons (c : Char) (t : Text) : utf8 (c :: t) = String.utf8EncodeChar c ++ utf8 t :=
  flatMap_cons

theorem utf8EncodeChar_append_inj {c d : Char} {s t : List UInt8}
    (h : String.utf8EncodeChar c ++ s = String.utf8EncodeChar d ++ t) : c = d ∧ s = t := by
  have hdecode : ∀ (c : Char) (s : List UInt8),
      (String.utf8EncodeChar c ++ s).toByteArray.utf8DecodeChar? 0 = some c := by
    intro c s
    rw [toByteArray_append]
    exact ByteArray.utf8DecodeChar?_utf8EncodeChar_append
  have hc : some c = some d := by rw [← hdecode c s, h, hdecode d t]
  cases hc
  exact ⟨rfl, append_cancel_left h⟩

theorem utf8_injective : Function.Injective utf8 := by
  intro s
  induction s with
  | nil =>
    intro t h
    cases t with
    | nil => rfl
    | cons d t =>
      rw [utf8_cons] at h
      exact absurd (append_eq_nil_iff.mp h.symm).1 String.utf8EncodeChar_ne_nil
  | cons c s ih =>
    intro t h
    cases t with
    | nil =>
      rw [utf8_cons] at h
      exact absurd (append_eq_nil_iff.mp h).1 String.utf8EncodeChar_ne_nil
    | cons d t =>
      rw [utf8_cons, utf8_cons] at h
      obtain ⟨rfl, htail⟩ := utf8EncodeChar_append_inj h
      rw [ih htail]

/-! ## Texts without a backslash -/

theorem escapeDecode_cons {c : Char} (hc : c ≠ '\\') (t : Text) :
    escapeDecode (c :: t) = (String.utf8EncodeChar c ++ ·) <$> escapeDecode t := by
  rw [escapeDecode]
  all_goals intros
  all_goals simp_all

theorem byteaIn_of_notMem {t : Text} (h : '\\' ∉ t) : byteaIn t = .ok (utf8 t) := by
  have hescape : escapeDecode t = .ok (utf8 t) := by
    induction t with
    | nil => rfl
    | cons c t ih =>
      rw [mem_cons, not_or] at h
      rw [escapeDecode_cons (Ne.symm h.1), ih h.2, utf8_cons]
      rfl
  rw [byteaIn]
  · exact hescape
  · rintro t' rfl
    exact h mem_cons_self

/-! ## The text of a `jsonb` -/

/-- In the text of a `jsonb` every backslash begins an escape of a string. -/
def JsonEscapes : Text → Prop
  | [] => True
  | '\\' :: c :: t => c ∈ "\"\\/bfnrtu".toList ∧ JsonEscapes t
  | c :: t => c ≠ '\\' ∧ JsonEscapes t

def doubled (t : Text) : Text := t.flatMap fun c => if c = '\\' then ['\\', '\\'] else [c]

theorem escapeDecode_backslash {c : Char} (hc : c ≠ '\\') (hdigit : ¬ ('0' ≤ c ∧ c ≤ '3'))
    (t : Text) : escapeDecode ('\\' :: c :: t) = .error .invalidSyntax := by
  match t with
  | [] | [_] => simp [escapeDecode, hc]
  | a :: b :: t =>
    rw [escapeDecode]
    · exact if_neg fun h => hdigit h.1
    · exact hc

theorem doubled_of_escapeDecode {t : Text} {bytes : List UInt8} (h : JsonEscapes t)
    (hbytes : escapeDecode t = .ok bytes) : ∃ u, t = doubled u ∧ bytes = utf8 u := by
  induction t using JsonEscapes.induct generalizing bytes with
  | case1 =>
    cases hbytes
    exact ⟨[], rfl, rfl⟩
  | case2 c t ih =>
    obtain ⟨hc, ht⟩ := h
    by_cases hslash : c = '\\'
    · subst hslash
      rw [escapeDecode] at hbytes
      obtain ⟨rest, hrest, rfl⟩ := map_eq_ok.mp hbytes
      obtain ⟨u, rfl, rfl⟩ := ih ht hrest
      exact ⟨'\\' :: u, rfl, rfl⟩
    · have hletters : "\"\\/bfnrtu".toList.all (fun c => ¬ ('0' ≤ c ∧ c ≤ '3')) = true := by decide
      rw [escapeDecode_backslash hslash (of_decide_eq_true (all_eq_true.mp hletters c hc))]
        at hbytes
      cases hbytes
  | case3 c t hne ih =>
    rw [JsonEscapes] at h
    · obtain ⟨hc, ht⟩ := h
      rw [escapeDecode_cons hc] at hbytes
      obtain ⟨rest, hrest, rfl⟩ := map_eq_ok.mp hbytes
      obtain ⟨u, rfl, rfl⟩ := ih ht hrest
      refine ⟨c :: u, ?_, rfl⟩
      simp [doubled, hc]
    · exact hne

theorem byteaIn_inj_of_json {t t' : Text} {bytes : List UInt8} (h : JsonEscapes t)
    (h' : JsonEscapes t') (hbytes : byteaIn t = .ok bytes) (hbytes' : byteaIn t' = .ok bytes) :
    t = t' := by
  have hescape : ∀ {t : Text}, JsonEscapes t → byteaIn t = escapeDecode t := by
    intro t h
    rw [byteaIn]
    rintro t' rfl
    exact absurd h.1 (by decide)
  rw [hescape h] at hbytes
  rw [hescape h'] at hbytes'
  obtain ⟨u, rfl, rfl⟩ := doubled_of_escapeDecode h hbytes
  obtain ⟨u', rfl, hu⟩ := doubled_of_escapeDecode h' hbytes'
  rw [utf8_injective hu]

end MaluDb.Prompt
