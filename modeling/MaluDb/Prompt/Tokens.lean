import MaluDb.Lib.Except
import MaluDb.Prompt.Render

/-!
# Rendering against the tokens of the template

What rendering is for: the tokens of the template, `name` in double braces or behind a colon, are
replaced by the texts of the variables, all at once.

* `assigned` are the tokens of a template with the values for them: the variables in the order of
  their keys, braces before colons, from left to right, without overlaps. `rendering` replaces them;
  it is NULL if one of them is of a variable that is null.
* `RendersTokens`: `_render_core` returns the rendering with the context, each of its replacements
  is of tokens of the template only, and a variable whose tokens do not occur has no effect.
* `Separate`: either a null variable has a token, or no variable is null and, for each token syntax
  in order, replacing the tokens of those before it neither makes nor breaks a match. And the cast
  to `bytea` succeeds for the texts that are hashed.
-/

namespace MaluDb.Prompt

open MaluDb.Lib List

variable {S : Server} {db : Tables} {session : ℕ} {text : Text} {vars : Variables}

/-! ## The rendering of a template -/

section

variable (vars : Variables) (S : Server) (text : Text)

def changes (vars : List (Text × Option Text)) : List (Pattern Char × Option Text) :=
  vars.flatMap fun var =>
    [(word (braced var.1), var.2), (wordAtEnd S.isWord (':' :: var.1), var.2)]

/-- The text of a value. -/
def valueText (value : Option Text) : Text := value.getD []

def assigned (vars : Variables) : List (Block × Option Text) :=
  assign text [] (changes S (eachText S vars))

def rendering (vars : Variables) : Option Text :=
  if (assigned S text vars).any fun a => a.2.isNone then none
  else some ((simultaneous valueText text (assigned S text vars)).map Cell.letter)

def NonNull : Prop := ∀ var ∈ vars.entries, var.2 ≠ none

def NullToken (vars : Variables) : Prop :=
  ∃ a ∈ assigned S text vars, a.2 = none

def Absent (key : Text) : Prop :=
  (word (braced key)).occurs text = false ∧ (wordAtEnd S.isWord (':' :: key)).occurs text = false

end

/-! ## Substitution as passes -/

theorem substitute_some (text key value : Text) :
    substitute S (some text) (key, some value)
      = some (scan (wordAtEnd S.isWord (':' :: key)) value 0
          (scan (word (braced key)) value 0 text)) :=
  regexpReplace_quote S.isWord (':' :: key) value _

theorem foldl_substitute_none (vars : List (Text × Option Text)) :
    vars.foldl (substitute S) none = none := by
  induction vars with
  | nil => rfl
  | cons _ _ ih => exact ih

theorem foldl_substitute_null {var : Text × Option Text} (hnull : var.2 = none) :
    ∀ {vars : List (Text × Option Text)} (text : Option Text), var ∈ vars →
      vars.foldl (substitute S) text = none
  | [], _, h => absurd h not_mem_nil
  | other :: vars, text, h => by
    rcases mem_cons.mp h with rfl | h
    · have hstep : substitute S text var = none := by
        simp [substitute, hnull]
      rw [foldl_cons, hstep, foldl_substitute_none]
    · exact foldl_substitute_null hnull (substitute S text other) h

theorem foldl_substitute_some :
    ∀ {vars : List (Text × Option Text)} (text : Text), (∀ var ∈ vars, var.2 ≠ none) →
      vars.foldl (substitute S) (some text)
        = some ((changes S vars).foldl (fun t c => scan c.1 (valueText c.2) 0 t) text)
  | [], _, _ => rfl
  | (key, none) :: _, _, h => absurd rfl (h _ (mem_cons_self ..))
  | (key, some value) :: vars, text, h => by
    rw [foldl_cons, substitute_some]
    exact foldl_substitute_some _ fun var hvar => h var (mem_cons_of_mem _ hvar)

theorem mem_eachText {var : Text × Option Text} : var ∈ eachText S vars ↔ var ∈ vars.entries :=
  mem_insertionSort _

theorem renderSubstitute_eq_none (h : ¬ NonNull vars) : renderSubstitute S text vars = none := by
  simp only [NonNull, not_forall, ne_eq, not_not] at h
  obtain ⟨var, hvar, hnull⟩ := h
  exact foldl_substitute_null hnull _ (mem_eachText.mpr hvar)

theorem renderSubstitute_eq_passes (h : NonNull vars) :
    renderSubstitute S text vars
      = some ((passes valueText (changes S (eachText S vars)) (cells text)).map Cell.letter) := by
  rw [map_letter_passes, cells, map_letter_cellsFrom]
  exact foldl_substitute_some text fun var hvar => h var (mem_eachText.mp hvar)

theorem not_nonNull_of_nullToken (h : NullToken S text vars) : ¬ NonNull vars := by
  obtain ⟨a, ha, hnull⟩ := h
  intro hall
  rcases value_of_mem_assign ha with h | ⟨change, hchange, hvalue⟩
  · cases h
  obtain ⟨var, hvar, hmem⟩ := mem_flatMap.mp hchange
  have hsame : change.2 = var.2 := by
    rcases mem_pair.mp hmem with rfl | rfl <;> rfl
  exact hall var (mem_eachText.mp hvar) (hsame.symm.trans (hvalue.trans hnull))

theorem rendering_of_nullToken (h : NullToken S text vars) : rendering S text vars = none := by
  obtain ⟨a, ha, hnull⟩ := h
  exact if_pos (any_eq_true.mpr ⟨a, ha, by rw [hnull]; rfl⟩)

theorem rendering_of_not_nullToken (h : ¬ NullToken S text vars) :
    rendering S text vars
      = some ((simultaneous valueText text (assigned S text vars)).map Cell.letter) := by
  refine if_neg fun hany => h ?_
  obtain ⟨a, ha, hnull⟩ := any_eq_true.mp hany
  exact ⟨a, ha, Option.isNone_iff_eq_none.mp hnull⟩

/-! ## Replacements of tokens only -/

def TokensOnly (S : Server) (text : Text) (vars : Variables) : Prop :=
  Exact valueText text [] (changes S (eachText S vars)) (cells text)

/-- Replacing the tokens of the syntaxes before it neither makes nor breaks a match of a syntax. -/
def Undisturbed (S : Server) (text : Text) (vars : Variables) : Prop :=
  ∀ before change after, changes S (eachText S vars) = before ++ change :: after →
    marks (change.1.comap Cell.letter) 0 (simultaneous valueText text (assign text [] before))
      = tokens change.1 ((assign text [] before).map Prod.fst) text

theorem tokensOnly_iff : TokensOnly S text vars ↔ Undisturbed S text vars := by
  unfold TokensOnly
  rw [← simultaneous_nil valueText text]
  exact exact_iff text _ []

/-- A null variable has a token, or no variable is null and no replacement disturbs a token. -/
def TokensApart (S : Server) (text : Text) (vars : Variables) : Prop :=
  NullToken S text vars ∨ NonNull vars ∧ Undisturbed S text vars

theorem renderSubstitute_eq_rendering (h : TokensApart S text vars) :
    renderSubstitute S text vars = rendering S text vars := by
  rcases h with hnull | ⟨hall, hundisturbed⟩
  · rw [renderSubstitute_eq_none (not_nonNull_of_nullToken hnull), rendering_of_nullToken hnull]
  have hexact := tokensOnly_iff.mpr hundisturbed
  unfold TokensOnly at hexact
  rw [← simultaneous_nil valueText text] at hexact
  rw [renderSubstitute_eq_passes hall, ← simultaneous_nil valueText text, passes_eq text _ _ hexact,
    rendering_of_not_nullToken fun hnull => not_nonNull_of_nullToken hnull hall]
  rfl

/-! ## Variables without tokens -/

theorem eachText_erase (key : Text) :
    eachText S (vars.erase key) = (eachText S vars).filter fun var => var.1 != key := by
  have htotal : Std.Total fun a b : Text × Option Text => S.le a.1 b.1 = true :=
    ⟨fun a b => S.le_total a.1 b.1⟩
  have htrans : IsTrans (Text × Option Text) fun a b => S.le a.1 b.1 = true :=
    ⟨fun a b c => S.le_trans a.1 b.1 c.1⟩
  have hperm : (eachText S (vars.erase key)).Perm
      ((eachText S vars).filter fun var => var.1 != key) :=
    (perm_insertionSort _ _).trans ((perm_insertionSort _ _).filter _).symm
  refine hperm.eq_of_pairwise (fun a b ha hb hab hba => ?_) (pairwise_insertionSort _ _)
    ((pairwise_insertionSort _ _).filter _)
  -- the order only compares keys, and no key is there twice
  have ha := (mem_filter.mp (mem_eachText.mp ha)).1
  have hb := mem_eachText.mp (mem_filter.mp hb).1
  exact inj_on_of_nodup_map vars.distinct ha hb (S.le_antisymm _ _ hab hba)

theorem assign_filter {key : Text} (habsent : Absent S text key) :
    ∀ (vars : List (Text × Option Text)) (sofar : List (Block × Option Text)),
      assign text sofar (changes S (vars.filter fun var => var.1 != key))
        = assign text sofar (changes S vars)
  | [], _ => rfl
  | (k, v) :: vars, sofar => by
    by_cases hk : k = key
    · subst hk
      rw [filter_cons_of_neg (by simp), assign_filter habsent vars]
      show _ = assign text (assignStep text (assignStep text sofar _) _) (changes S vars)
      rw [assignStep_of_not_occurs habsent.2, assignStep_of_not_occurs habsent.1]
    · rw [filter_cons_of_pos (by simpa using hk)]
      exact assign_filter habsent vars _

theorem passes_filter {key : Text} (habsent : Absent S text key) :
    ∀ (vars : List (Text × Option Text)) (sofar : List (Block × Option Text))
      (cs : List (Cell Char)), Exact valueText text sofar (changes S vars) cs →
      passes valueText (changes S (vars.filter fun var => var.1 != key)) cs
        = passes valueText (changes S vars) cs
  | [], _, _, _ => rfl
  | (k, v) :: vars, sofar, cs, h => by
    obtain ⟨hbrace, hcolon, hrest⟩ := h
    by_cases hk : k = key
    · subst hk
      have hfirst := pass_of_not_occurs valueText habsent.1 hbrace
      have hsecond := pass_of_not_occurs valueText habsent.2 hcolon
      rw [filter_cons_of_neg (by simp), passes_filter habsent vars _ cs]
      · show _ = passes valueText (changes S vars) (pass valueText (pass valueText cs _) _)
        rw [hsecond, hfirst]
      · rwa [hsecond, hfirst] at hrest
    · rw [filter_cons_of_pos (by simpa using hk)]
      exact passes_filter habsent vars _ _ hrest

theorem renderSubstitute_erase (h : TokensApart S text vars) {key : Text}
    (habsent : Absent S text key) :
    renderSubstitute S text (vars.erase key) = renderSubstitute S text vars := by
  rcases h with hnull | ⟨hall, hundisturbed⟩
  · have hnull' : NullToken S text (vars.erase key) := by
      unfold NullToken assigned
      rw [eachText_erase, assign_filter habsent]
      exact hnull
    rw [renderSubstitute_eq_none (not_nonNull_of_nullToken hnull),
      renderSubstitute_eq_none (not_nonNull_of_nullToken hnull')]
  · have hall' : NonNull (vars.erase key) := fun var hvar => hall var (mem_filter.mp hvar).1
    rw [renderSubstitute_eq_passes hall, renderSubstitute_eq_passes hall', eachText_erase,
      passes_filter habsent _ [] _ (tokensOnly_iff.mpr hundisturbed)]

/-! ## The pipeline -/

/-- The cast to `bytea` succeeds, or there is no text. -/
def Castable (text : Option Text) : Prop := ∀ t ∈ text, (byteaIn t).isOk = true

instance (text : Option Text) : Decidable (Castable text) :=
  inferInstanceAs (Decidable (∀ t ∈ text, (byteaIn t).isOk = true))

def contextHashes (db : Tables) (session : ℕ) : Option Text :=
  stringAgg ['|'] ((db.context session).map ContextBlock.contentHash)

theorem hashText_ok_iff {text : Option Text} :
    (∃ hash, hashText S text = .ok hash) ↔ Castable text := by
  cases text with
  | none => simp [hashText, Castable]
  | some t =>
    cases h : byteaIn t <;> simp [hashText, Castable, h, Except.isOk, Except.toBool]

theorem finish_iff {t : Template} {body prompt : Option Text} :
    (∃ out, finish S db session t body = .ok out ∧ out.renderedPrompt = prompt) ↔
      prompt = body.map (· ++ db.appended session) ∧ Castable (contextHashes db session) ∧
        Castable prompt := by
  rw [← hashText_ok_iff (S := S), ← hashText_ok_iff (S := S)]
  simp only [finish, bind_eq_ok, mapError_eq_ok]
  constructor
  · rintro ⟨out, ⟨contextHash, hcontext, promptHash, hprompt, hout⟩, rfl⟩
    cases hout
    exact ⟨rfl, ⟨contextHash, hcontext⟩, ⟨promptHash, hprompt⟩⟩
  · rintro ⟨rfl, ⟨contextHash, hcontext⟩, ⟨promptHash, hprompt⟩⟩
    exact ⟨_, ⟨contextHash, hcontext, promptHash, hprompt, rfl⟩, rfl⟩

/-- Rendering a template is the replacement of its tokens by the texts of the variables, all at
once. -/
structure RendersTokens (S : Server) (db : Tables) (session : ℕ) (name : Text)
    (version : Option ℤ) (t : Template) (vars : Variables) : Prop where
  rendered : ∃ out, renderCore S db session name version (some vars) = .ok out ∧
    out.renderedPrompt = (rendering S (renderCompose t) vars).map (· ++ db.appended session)
  tokensOnly : NonNull vars → TokensOnly S (renderCompose t) vars
  noEffect : ∀ key, Absent S (renderCompose t) key →
    renderCore S db session name version (some (vars.erase key))
      = renderCore S db session name version (some vars)

/-- When it is: the tokens do not get in each other's way, and what is hashed can be cast. -/
structure Separate (S : Server) (db : Tables) (session : ℕ) (t : Template) (vars : Variables) :
    Prop where
  tokensApart : TokensApart S (renderCompose t) vars
  contextCastable : Castable (contextHashes db session)
  promptCastable : Castable ((rendering S (renderCompose t) vars).map (· ++ db.appended session))

variable {name : Text} {version : Option ℤ} {t : Template}

theorem renderCore_eq (hsession : session ∈ db.sessions) (ht : db.template? name version = some t)
    (vars : Variables) :
    renderCore S db session name version (some vars)
      = finish S db session t (renderSubstitute S (renderCompose t) vars) := by
  rw [renderCore, if_pos hsession, ht]
  rfl

/-- **Rendering replaces the tokens of the template, all at once, if and only if the tokens do not
get in each other's way and the texts can be cast for their hashes.** -/
theorem rendersTokens_iff (S : Server) (db : Tables) (session : ℕ) (name : Text)
    (version : Option ℤ) (t : Template) (vars : Variables) (hsession : session ∈ db.sessions)
    (ht : db.template? name version = some t) :
    RendersTokens S db session name version t vars ↔ Separate S db session t vars := by
  constructor
  · rintro ⟨hrendered, honly, -⟩
    rw [renderCore_eq hsession ht, finish_iff] at hrendered
    obtain ⟨hprompt, hcontext, hcast⟩ := hrendered
    have happend : Function.Injective (· ++ db.appended session) := append_left_injective _
    have hsame := Option.map_injective happend hprompt
    refine ⟨?_, hcontext, hcast⟩
    by_cases hall : NonNull vars
    · exact .inr ⟨hall, tokensOnly_iff.mp (honly hall)⟩
    refine .inl ?_
    by_contra hno
    rw [rendering_of_not_nullToken hno, renderSubstitute_eq_none hall] at hsame
    cases hsame
  · rintro ⟨hapart, hcontext, hcast⟩
    refine ⟨?_, fun hall => ?_, fun key habsent => ?_⟩
    · rw [renderCore_eq hsession ht, finish_iff, renderSubstitute_eq_rendering hapart]
      exact ⟨rfl, hcontext, hcast⟩
    · rcases hapart with hnull | ⟨-, hundisturbed⟩
      · exact absurd hall (not_nonNull_of_nullToken hnull)
      · exact tokensOnly_iff.mpr hundisturbed
    · rw [renderCore_eq hsession ht, renderCore_eq hsession ht,
        renderSubstitute_erase hapart habsent]

/-! ## Prompts -/

def bodyTemplate (body : String) : Template :=
  ⟨1, "t".toList, 1, body.toList, none, none, none, true⟩

def oneTemplate (body : String) : Tables := ⟨[1], [bodyTemplate body], []⟩

/-- One variable. -/
def oneVariable (key : String) (value : Option String) : Variables :=
  ⟨[(key.toList, value.map String.toList)], List.nodup_singleton _⟩

theorem rendersTokens_greeting :
    RendersTokens plainServer (oneTemplate "Dear \x7b\x7bname\x7d\x7d, :name! :names") 1
      "t".toList none (bodyTemplate "Dear \x7b\x7bname\x7d\x7d, :name! :names")
      (oneVariable "name" "you") := by
  refine (rendersTokens_iff _ _ _ _ _ _ _ (by decide) rfl).mpr ⟨.inr ⟨?_, ?_⟩, ?_, ?_⟩
  · simp [NonNull, oneVariable]
  · refine tokensOnly_iff.mp ⟨?_, ?_, trivial⟩ <;> decide +kernel
  · simp [Castable, contextHashes, Tables.context, oneTemplate, stringAgg]
  · decide +kernel

theorem not_rendersTokens
    (h : (renderCore S db session name version (some vars)).map Rendered.renderedPrompt
      ≠ .ok ((rendering S (renderCompose t) vars).map (· ++ db.appended session))) :
    ¬ RendersTokens S db session name version t vars := by
  rintro ⟨⟨out, hout, hprompt⟩, -, -⟩
  refine h ?_
  rw [hout, ← hprompt]
  rfl

def nestedVariables : Variables :=
  ⟨[("a".toList, some "\x7b\x7bb\x7d\x7d".toList), ("b".toList, some "1".toList)], by decide⟩

/-- **The text of a value is replaced again; a null variable without tokens makes the prompt NULL;
a backslash makes rendering fail.** -/
theorem render_expands :
    ¬ RendersTokens plainServer (oneTemplate "\x7b\x7ba\x7d\x7d") 1 "t".toList none
      (bodyTemplate "\x7b\x7ba\x7d\x7d") nestedVariables ∧
    ¬ RendersTokens plainServer (oneTemplate "hello") 1 "t".toList none
      (bodyTemplate "hello") (oneVariable "b" none) ∧
    ¬ RendersTokens plainServer (oneTemplate "C:\\temp") 1 "t".toList none
      (bodyTemplate "C:\\temp") .empty :=
  ⟨not_rendersTokens (by decide +kernel), not_rendersTokens (by decide +kernel),
    not_rendersTokens (by decide +kernel)⟩

end MaluDb.Prompt
