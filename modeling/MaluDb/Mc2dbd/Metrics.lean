import Mathlib.Data.List.Induction

/-!
# The metrics page

`db_metrics_text` of `mc2dbd/src/db.c`, with `metrics_append` and `prom_label_escape`.

* `Metrics` is the string in the buffer, up to its NUL, and `*len`. `vsnprintf` writes what fits
  behind the first `*len` characters, whether or not it is all of the text.
* A result of a query is its rows, `none` if the query fails. The values are texts.
* The size of the buffer is a parameter; the source has 65536. Left out: `malloc` fails.
-/

namespace MaluDb.Mc2dbd

open List

/-- The buffer and `*len`. -/
structure Metrics where
  buf : List Char
  len : ℕ

/-- `metrics_append`. No caller looks at what it returns. -/
def metricsAppend (cap : ℕ) (m : Metrics) (text : List Char) : Metrics :=
  if cap ≤ m.len then m
  else
    let buf := m.buf.take m.len ++ text.take (cap - m.len - 1)
    if cap - m.len ≤ text.length then ⟨buf, m.len⟩ else ⟨buf, m.len + text.length⟩

/-- A character of a label. -/
def promEscapeChar (c : Char) : List Char :=
  if c = '\\' ∨ c = '"' then ['\\', c] else if c = '\n' then ['\\', 'n'] else [c]

/-- `prom_label_escape`, at the position `j` of the output. -/
def promLabelEscape (outSz : ℕ) : ℕ → List Char → List Char
  | _, [] => []
  | j, c :: cs =>
    if j + 3 < outSz then
      promEscapeChar c ++ promLabelEscape outSz (j + (promEscapeChar c).length) cs
    else []

structure InvocationRow where
  toolName : List Char
  success : List Char
  count : List Char
  durationMs : List Char

structure RequestRow where
  status : List Char
  count : List Char

/-- A line for an invocation. -/
def invocationLine (metric : String) (r : InvocationRow) (value : List Char) : List Char :=
  metric.toList ++ "\x7btool=\"".toList ++ promLabelEscape 256 0 r.toolName ++
    "\",success=\"".toList ++ r.success ++ "\"\x7d ".toList ++ value ++ ['\n']

def requestLine (r : RequestRow) : List Char :=
  "maludb_model_request_count\x7bstatus=\"".toList ++ r.status ++ "\"\x7d ".toList ++ r.count ++
    ['\n']

def helpText (help type : String) : List Char :=
  "# HELP ".toList ++ help.toList ++ "\n# TYPE ".toList ++ type.toList ++ ['\n']

def upText : List Char :=
  helpText "maludb_mc2dbd_up 1 when the listener has PG connectivity." "maludb_mc2dbd_up gauge" ++
    "maludb_mc2dbd_up 1".toList ++ ['\n']

def metricsTexts (invocations : Option (List InvocationRow)) (requests : Option (List RequestRow)) :
    List (List Char) :=
  [upText] ++
  (match invocations with
    | none => []
    | some rows =>
      [helpText "maludb_mc2dbd_invocations_total Total MC2DB tool invocations."
        "maludb_mc2dbd_invocations_total counter"] ++
      rows.map (fun r => invocationLine "maludb_mc2dbd_invocations_total" r r.count) ++
      [helpText ("maludb_mc2dbd_invocation_duration_ms_sum " ++
          "Sum of MC2DB tool invocation durations in ms.")
        "maludb_mc2dbd_invocation_duration_ms_sum counter"] ++
      rows.map fun r =>
        invocationLine "maludb_mc2dbd_invocation_duration_ms_sum" r r.durationMs) ++
  (match requests with
    | none => []
    | some rows =>
      [helpText "maludb_model_request_count Model request rows grouped by status."
        "maludb_model_request_count gauge"] ++
      rows.map requestLine)

def appendAll (cap : ℕ) (texts : List (List Char)) : Metrics :=
  texts.foldl (metricsAppend cap) ⟨[], 0⟩

/-- `db_metrics_text`. -/
def dbMetricsText (cap : ℕ) (invocations : Option (List InvocationRow))
    (requests : Option (List RequestRow)) : List Char :=
  (appendAll cap (metricsTexts invocations requests)).buf

/-! ## What fits -/

def fitted (cap : ℕ) (texts : List (List Char)) : List Char :=
  texts.foldl (fun kept t => if kept.length + t.length < cap then kept ++ t else kept) []

theorem appendAll_concat (cap : ℕ) (texts : List (List Char)) (t : List Char) :
    appendAll cap (texts ++ [t]) = metricsAppend cap (appendAll cap texts) t := by
  simp [appendAll]

theorem fitted_concat (cap : ℕ) (texts : List (List Char)) (t : List Char) :
    fitted cap (texts ++ [t]) = if (fitted cap texts).length + t.length < cap then
      fitted cap texts ++ t else fitted cap texts := by
  rw [fitted, foldl_append]
  rfl

/-- The last text fits, or there is no room for one character and the NUL. -/
def LastFits (cap : ℕ) (texts : List (List Char)) : Prop :=
  ∀ before t, texts = before ++ [t] →
    (fitted cap before).length + t.length < cap ∨ cap ≤ (fitted cap before).length + 1

/-- Up to `*len` the buffer is what fits. -/
structure Keeps (cap : ℕ) (m : Metrics) (kept : List Char) : Prop where
  len : m.len = kept.length
  buf : m.buf.take m.len = kept
  full : cap ≤ m.len → m.buf = kept

variable {cap : ℕ} {m : Metrics} {kept : List Char}

theorem Keeps.append (h : Keeps cap m kept) (t : List Char) :
    Keeps cap (metricsAppend cap m t)
      (if kept.length + t.length < cap then kept ++ t else kept) := by
  obtain ⟨hlen, hbuf, hfull⟩ := h
  unfold metricsAppend
  by_cases hcap : cap ≤ m.len
  · rw [if_pos hcap, if_neg (by omega)]
    exact ⟨hlen, hbuf, hfull⟩
  rw [if_neg hcap, hbuf]
  by_cases hfits : kept.length + t.length < cap
  · rw [if_pos hfits, if_neg (by omega), take_of_length_le (by omega)]
    exact ⟨by simp [hlen], take_of_length_le (by simp [hlen]), fun _ => rfl⟩
  · rw [if_neg hfits, if_pos (by omega)]
    exact ⟨hlen, by simp [hlen], fun h => absurd h hcap⟩

theorem keeps_appendAll (cap : ℕ) (texts : List (List Char)) :
    Keeps cap (appendAll cap texts) (fitted cap texts) := by
  induction texts using reverseRecOn with
  | nil => exact ⟨rfl, rfl, fun _ => rfl⟩
  | append_singleton texts t ih =>
    rw [appendAll_concat, fitted_concat]
    exact ih.append t

theorem Keeps.buf_append_iff (h : Keeps cap m kept) (t : List Char) :
    (metricsAppend cap m t).buf = (if kept.length + t.length < cap then kept ++ t else kept) ↔
      kept.length + t.length < cap ∨ cap ≤ kept.length + 1 := by
  obtain ⟨hlen, hbuf, hfull⟩ := h
  unfold metricsAppend
  by_cases hcap : cap ≤ m.len
  · rw [if_pos hcap, if_neg (by omega)]
    exact iff_of_true (hfull hcap) (by omega)
  rw [if_neg hcap, hbuf]
  by_cases hfits : kept.length + t.length < cap
  · rw [if_pos hfits, if_neg (by omega), take_of_length_le (by omega)]
    exact iff_of_true rfl (.inl hfits)
  rw [if_neg hfits, if_pos (by omega)]
  have hempty : t.take (cap - m.len - 1) = [] ↔ cap ≤ kept.length + 1 := by
    rw [← length_eq_zero_iff, length_take]
    omega
  simp [hempty, hfits]

theorem getLast?_metricsTexts (invocations : Option (List InvocationRow))
    (requests : Option (List RequestRow)) :
    ∀ t ∈ metricsTexts invocations requests, t.getLast? = some '\n' := by
  intro t ht
  rcases mem_append.mp ht with ht | ht
  · rcases mem_append.mp ht with ht | ht
    · rw [mem_singleton.mp ht]
      exact getLast?_concat
    cases invocations with
    | none => cases ht
    | some rows =>
      simp only [mem_append, mem_singleton, mem_map] at ht
      rcases ht with ((rfl | ⟨r, -, rfl⟩) | rfl) | ⟨r, -, rfl⟩ <;> exact getLast?_concat
  · cases requests with
    | none => cases ht
    | some rows =>
      simp only [mem_append, mem_singleton, mem_map] at ht
      rcases ht with rfl | ⟨r, -, rfl⟩ <;> exact getLast?_concat

/-- **The page is what fits, exactly if the last append fits** or no character of it is written.
Every append ends a line. -/
theorem dbMetricsText_iff (cap : ℕ) (invocations : Option (List InvocationRow))
    (requests : Option (List RequestRow)) :
    (∀ t ∈ metricsTexts invocations requests, t.getLast? = some '\n') ∧
      (dbMetricsText cap invocations requests = fitted cap (metricsTexts invocations requests) ↔
        LastFits cap (metricsTexts invocations requests)) := by
  refine ⟨getLast?_metricsTexts invocations requests, ?_⟩
  have hne : metricsTexts invocations requests ≠ [] := by simp [metricsTexts]
  obtain ⟨before, t, htexts⟩ : ∃ before t, metricsTexts invocations requests = before ++ [t] :=
    ⟨_, _, (dropLast_concat_getLast hne).symm⟩
  unfold dbMetricsText
  rw [htexts, appendAll_concat, fitted_concat, (keeps_appendAll cap before).buf_append_iff]
  constructor
  · rintro hfits before' t' heq
    obtain ⟨rfl, hlast⟩ := append_inj' heq rfl
    cases hlast
    exact hfits
  · exact fun h => h before t rfl

theorem dbMetricsText_cut :
    dbMetricsText 100 none none = upText.take 99 ∧ fitted 100 (metricsTexts none none) = [] ∧
      (dbMetricsText 100 none none).getLast? = some 'u' := by
  decide +kernel

end MaluDb.Mc2dbd
