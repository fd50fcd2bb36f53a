import Mathlib.Data.List.DropRight
import Mathlib.Tactic.IntervalCases
import MaluDb.Lib.Except
import MaluDb.Vector.Text

/-!
# The language of vector texts

`IsVector` is a bracketed list of float literals with commas between them, and `maludb_vector_in` is
compared with it.

* A literal is a text that `strtod` takes as a whole. What `strtod` takes is delimited by a space, a
  comma, a bracket or the end, and does not depend on which of them it is: for decimals this is
  `readDecimal_local`; for the other forms it is what an `OtherReader` is known for.
* The scanner does not look behind the closing bracket, and after a comma it is satisfied with a
  bracket. `Scanned` is what it takes between the brackets, and `Clean` says that a text makes use
  of neither. The limit of an allocation, above 2^27 components, is left out.
-/

namespace MaluDb.Vector

open Lib List Option

/-! ## Delimiters -/

def isDelimiter (c : Char) : Bool := isSpace c || c = ',' || c = ']'

def Ends (text : List Char) : Prop := ∀ c ∈ text.head?, isDelimiter c = true

/-- A text of spaces. -/
def Spaces (text : List Char) : Prop := ∀ c ∈ text, isSpace c = true

theorem ends_nil : Ends [] := fun _ h => nomatch h

theorem ends_cons {c : Char} (h : isDelimiter c = true) (text : List Char) : Ends (c :: text) := by
  intro c' hc'
  obtain rfl : c = c' := some.inj hc'
  exact h

theorem ends_append {sp text : List Char} (hsp : Spaces sp) (h : Ends text) :
    Ends (sp ++ text) := by
  cases sp with
  | nil => exact h
  | cons c sp =>
    refine ends_cons ?_ _
    rw [isDelimiter, hsp c mem_cons_self]
    rfl

/-- The delimiters. -/
def delimiters : List Char := [' ', '\t', '\n', '\x0b', '\x0c', '\r', ',', ']']

theorem mem_of_isDelimiter {c : Char} (h : isDelimiter c = true) : c ∈ delimiters := by
  simp only [isDelimiter, isSpace, Bool.or_eq_true, decide_eq_true_eq] at h
  rcases h with ((rfl | ⟨hlow, hhigh⟩) | rfl) | rfl
  · decide
  · have hc := Char.ofNat_toNat c
    interval_cases c.toNat <;> (rw [← hc]; decide)
  · decide
  · decide

theorem isNumeral_of_isDelimiter {c : Char} (h : isDelimiter c = true) : isNumeral c = false := by
  have hall : delimiters.all (fun c => !isNumeral c) = true := by decide
  simpa using all_eq_true.mp hall c (mem_of_isDelimiter h)

theorem isDelimiter_of_isNumeral {c : Char} (h : isNumeral c = true) : isDelimiter c = false :=
  Bool.eq_false_iff.mpr fun hc => Bool.false_ne_true ((isNumeral_of_isDelimiter hc).symm.trans h)

theorem stops_of_ends {text : List Char} (h : Ends text) : Stops text := by
  have hmark : ∀ c ∈ text.head?, c.isDigit = false ∧ c ≠ '.' ∧ c ≠ 'e' ∧ c ≠ 'E' := by
    intro c hc
    have hnot := isNumeral_of_isDelimiter (h c hc)
    simp only [isNumeral, Bool.or_eq_false_iff, decide_eq_false_iff_not, mem_cons, not_or] at hnot
    exact ⟨hnot.1, hnot.2.1, hnot.2.2.1, hnot.2.2.2.1⟩
  exact ⟨fun c hc => (hmark c hc).1, fun c hc => (hmark c hc).2⟩

/-! ## The other forms -/

/-- **A reader of the forms that are not decimal.** What it takes before a delimiter has such a
form, contains no delimiter, and is taken in the same way before every other one. -/
structure OtherReader where
  read : List Char → Option (Float8 × ℕ)
  taken : ∀ text v n, read text = some (v, n) → skipSpace text = text → Ends (text.drop (n + 1)) →
      n < text.length ∧ otherForm (readSign (text.take (n + 1))).2 = true ∧
      (∀ c ∈ text.take (n + 1), isDelimiter c = false) ∧
      ∀ rest, Ends rest → read (text.take (n + 1) ++ rest) = some (v, n)

/-! ## What `strtod` takes -/

theorem readSign_append {front : List Char} (h : front ≠ []) (rest : List Char) :
    readSign (front ++ rest) = ((readSign front).1, (readSign front).2 ++ rest) := by
  obtain ⟨c, front, rfl⟩ := exists_cons_of_ne_nil h
  by_cases hminus : c = '-'
  · subst hminus
    rfl
  by_cases hplus : c = '+'
  · subst hplus
    rfl
  · simp [readSign, hminus, hplus]

theorem otherForm_cons_cons (c c' : Char) (text : List Char) :
    otherForm (c :: c' :: text) =
      decide (c = '0' ∧ (c' = 'x' ∨ c' = 'X') ∨ c ∈ ['i', 'I', 'n', 'N']) := by
  by_cases hc : c = '0' ∧ (c' = 'x' ∨ c' = 'X')
  · obtain ⟨rfl, rfl | rfl⟩ := hc <;> rfl
  unfold otherForm
  split
  · rename_i heq
    cases heq
    exact absurd ⟨rfl, .inl rfl⟩ hc
  · rename_i heq
    cases heq
    exact absurd ⟨rfl, .inr rfl⟩ hc
  · rename_i heq
    cases heq
    simp [hc]
  · rename_i heq
    cases heq

theorem readSign_front {sign front text rest : List Char} (hne : sign ++ front ≠ [])
    (htext : text = (sign ++ front) ++ rest) (hfront : (readSign text).2 = front ++ rest) :
    readSign (sign ++ front) = ((readSign text).1, front) := by
  have happ := readSign_append hne rest
  rw [← htext] at happ
  have hsnd : (readSign (sign ++ front)).2 ++ rest = front ++ rest := by rw [← hfront, happ]
  exact Prod.ext (congrArg Prod.fst happ).symm (append_cancel_right hsnd)

theorem otherForm_append {front rest : List Char} (h : front ≠ []) (hrest : Ends rest) :
    otherForm (front ++ rest) = otherForm front := by
  obtain ⟨c, front, rfl⟩ := exists_cons_of_ne_nil h
  cases front with
  | cons c' front =>
    rw [cons_append, cons_append, otherForm_cons_cons, otherForm_cons_cons]
  | nil =>
    cases rest with
    | nil => rfl
    | cons c' rest =>
      have hx : c' ≠ 'x' ∧ c' ≠ 'X' := by
        have hmem := mem_of_isDelimiter (hrest c' rfl)
        constructor <;> rintro rfl <;> exact absurd hmem (by decide)
      simp [otherForm, hx]

theorem skipSpace_append {front : List Char} (h : front ≠ [])
    (hplain : ∀ c ∈ front, isDelimiter c = false) (rest : List Char) :
    skipSpace (front ++ rest) = front ++ rest := by
  obtain ⟨c, front, rfl⟩ := exists_cons_of_ne_nil h
  have hc := hplain c mem_cons_self
  simp only [isDelimiter, Bool.or_eq_false_iff] at hc
  exact skipSpace_cons hc.1.1

variable {o : OtherReader} {text rest : List Char} {v : Float8}

theorem strtod_eq (hskip : skipSpace text = text) :
    strtod o.read text = if otherForm (readSign text).2 then
        (o.read text).map fun r => (r.1, text.drop (r.2 + 1))
      else
        (readDecimal (readSign text).2).map fun r => (.ofDecimal (readSign text).1 r.1, r.2) := by
  unfold strtod
  rw [hskip]

/-- **What `strtod` takes before a delimiter contains none, and is taken in the same way before
every other one.** -/
theorem strtod_local (hskip : skipSpace text = text) (h : strtod o.read text = some (v, rest))
    (hends : Ends rest) :
    ∃ front, front ≠ [] ∧ text = front ++ rest ∧ (∀ c ∈ front, isDelimiter c = false) ∧
      ∀ rest', Ends rest' → strtod o.read (front ++ rest') = some (v, rest') := by
  rw [strtod_eq hskip] at h
  split at h
  · obtain ⟨⟨v, n⟩, hread, hr⟩ := map_eq_some_iff.mp h
    cases hr
    obtain ⟨hn, hfront, hplain, hagain⟩ := o.taken text v n hread hskip hends
    have hlen : (text.take (n + 1)).length = n + 1 := by
      rw [length_take]
      omega
    have hne : text.take (n + 1) ≠ [] := ne_nil_of_length_pos (by omega)
    refine ⟨text.take (n + 1), hne, (take_append_drop _ _).symm, hplain, ?_⟩
    intro rest' hrest'
    have hform' : otherForm ((readSign (text.take (n + 1))).2 ++ rest') = true := by
      rw [otherForm_append ?_ hrest', hfront]
      intro hnil
      rw [hnil] at hfront
      cases hfront
    rw [strtod_eq (skipSpace_append hne hplain rest'), readSign_append hne, if_pos hform',
      hagain rest' hrest', map_some, drop_left' hlen]
  rename_i hform
  obtain ⟨⟨d, rest⟩, hread, hr⟩ := map_eq_some_iff.mp h
  cases hr
  obtain ⟨sign, hsign, hmarks, -⟩ := readSign_local text
  obtain ⟨front, hne, hfront, hnumeral, hagain⟩ := readDecimal_local hread
  have htext : text = (sign ++ front) ++ rest := by
    rw [append_assoc, ← hfront, ← hsign]
  have hne' : sign ++ front ≠ [] := append_ne_nil_of_right_ne_nil _ hne
  have hplain : ∀ c ∈ sign ++ front, isDelimiter c = false := by
    intro c hc
    rcases mem_append.mp hc with hc | hc
    · rcases hmarks c hc with rfl | rfl <;> rfl
    · exact isDelimiter_of_isNumeral (hnumeral c hc)
  have hsplit := readSign_front hne' htext hfront
  refine ⟨sign ++ front, hne', htext, hplain, fun rest' hrest' => ?_⟩
  rw [strtod_eq (skipSpace_append hne' hplain rest'), readSign_append hne', hsplit]
  have hform' : ¬ otherForm (front ++ rest') = true := by
    rw [otherForm_append hne hrest', ← otherForm_append hne hends, ← hfront]
    exact hform
  rw [if_neg hform', hagain rest' (stops_of_ends hrest'), map_some]

/-! ## The grammar -/

structure Literal (o : OtherReader) (text : List Char) (v : Float8) : Prop where
  read : strtod o.read text = some (v, [])
  plain : ∀ c ∈ text, isDelimiter c = false

/-- Literals with commas between them; a space may follow a literal or a comma. -/
inductive Elements (o : OtherReader) : List Char → List Float4 → Prop
  | last {w sp : List Char} {v : Float8} (hw : Literal o w v) (hsp : Spaces sp) :
    Elements o (w ++ sp) [v.toFloat4]
  | cons {w sp sp' text : List Char} {v : Float8} {xs : List Float4} (hw : Literal o w v)
    (hsp : Spaces sp) (hsp' : Spaces sp') (h : Elements o text xs) :
    Elements o (w ++ (sp ++ ',' :: (sp' ++ text))) (v.toFloat4 :: xs)

inductive Listed (o : OtherReader) : List Char → List Float4 → Prop
  | empty : Listed o [] []
  | elements {text : List Char} {xs : List Float4} (h : Elements o text xs) : Listed o text xs

/-- **The text of a vector.** -/
inductive IsVector (o : OtherReader) : List Char → List Float4 → Prop
  | mk {sp₁ sp₂ body sp₃ : List Char} {xs : List Float4} (h₁ : Spaces sp₁) (h₂ : Spaces sp₂)
    (h : Listed o body xs) (h₃ : Spaces sp₃) :
    IsVector o (sp₁ ++ '[' :: (sp₂ ++ (body ++ ']' :: sp₃))) xs

/-- What the scanner takes between the brackets: a comma may follow the last element. -/
inductive Scanned (o : OtherReader) : List Char → List Float4 → Prop
  | listed {text : List Char} {xs : List Float4} (h : Listed o text xs) : Scanned o text xs
  | trailing {text sp : List Char} {xs : List Float4} (h : Elements o text xs) (hsp : Spaces sp) :
    Scanned o (text ++ ',' :: sp) xs

/-- Nothing but spaces follows the first closing bracket, and the last character before it that is
not a space is no comma. -/
def Clean (text : List Char) : Prop :=
  Spaces ((text.dropWhile (· ≠ ']')).drop 1) ∧
    ((text.takeWhile (· ≠ ']')).rdropWhile isSpace).getLast? ≠ some ','

instance decidableSpaces (text : List Char) : Decidable (Spaces text) :=
  decidable_of_iff (text.all isSpace = true) all_eq_true

instance decidableClean (text : List Char) : Decidable (Clean text) :=
  inferInstanceAs (Decidable (_ ∧ _))

/-! ## Reading a list -/

theorem skipSpace_spaces {sp : List Char} (h : Spaces sp) (text : List Char) :
    skipSpace (sp ++ text) = skipSpace text :=
  dropWhile_append_of_pos h

variable {xs : List Float4} {body tail : List Char}

theorem Literal.ne_nil {w : List Char} (h : Literal o w v) : w ≠ [] := by
  rintro rfl
  exact absurd (strtod_length h.read) (lt_irrefl _)

theorem Literal.strtod_append {w : List Char} (h : Literal o w v) (hrest : Ends rest) :
    strtod o.read (w ++ rest) = some (v, rest) := by
  have hskip := skipSpace_append h.ne_nil h.plain []
  rw [append_nil] at hskip
  obtain ⟨front, -, hfront, -, hagain⟩ := strtod_local hskip h.read ends_nil
  rw [append_nil] at hfront
  rw [hfront]
  exact hagain rest hrest

theorem Elements.skipSpace (h : Elements o body xs) (tail : List Char) :
    skipSpace (body ++ tail) = body ++ tail := by
  cases h with
  | last hw hsp =>
    rw [append_assoc]
    exact skipSpace_append hw.ne_nil hw.plain _
  | cons hw hsp hsp' h =>
    rw [append_assoc]
    exact skipSpace_append hw.ne_nil hw.plain _

theorem Literal.head_ne {w : List Char} (h : Literal o w v) (rest : List Char) :
    (w ++ rest).head? ≠ some ']' := by
  obtain ⟨c, w, rfl⟩ := exists_cons_of_ne_nil h.ne_nil
  intro hc
  obtain rfl : c = ']' := some.inj hc
  exact absurd (h.plain ']' mem_cons_self) (by decide)

theorem Elements.read (h : Elements o body xs) {close tail : List Char}
    (hskip : Vector.skipSpace close = close) (hends : Ends close)
    (hsep : readSeparator close = .ok (']' :: tail)) :
    readElements o.read (body ++ close) = .ok (xs, ']' :: tail) := by
  induction h with
  | @last w sp v hw hsp =>
    have hsep' : readSeparator (Vector.skipSpace (sp ++ close)) = .ok (']' :: tail) := by
      rw [skipSpace_spaces hsp, hskip, hsep]
    rw [append_assoc, readElements_element (hw.head_ne _)
      (hw.strtod_append (ends_append hsp hends)) hsep', readElements_stop]
    rfl
  | @cons w sp sp' text v xs hw hsp hsp' h ih =>
    have hcomma := ends_append hsp
      (ends_cons (show isDelimiter ',' = true by decide) (sp' ++ (text ++ close)))
    have hnext : readSeparator (Vector.skipSpace (sp ++ ',' :: (sp' ++ (text ++ close)))) =
        .ok (text ++ close) := by
      rw [skipSpace_spaces hsp, skipSpace_cons (by decide), readSeparator, skipSpace_spaces hsp',
        h.skipSpace]
    have htext : (w ++ (sp ++ ',' :: (sp' ++ text))) ++ close =
        w ++ (sp ++ ',' :: (sp' ++ (text ++ close))) := by simp
    rw [htext, readElements_element (hw.head_ne _) (hw.strtod_append hcomma) hnext, ih]
    rfl

theorem Scanned.read (h : Scanned o body xs) (tail : List Char) :
    readElements o.read (body ++ ']' :: tail) = .ok (xs, ']' :: tail) := by
  cases h with
  | listed h =>
    cases h with
    | empty => exact readElements_stop
    | elements h => exact h.read (skipSpace_cons (by decide)) (ends_cons (by decide) _) rfl
  | @trailing text sp _ h hsp =>
    rw [append_assoc]
    refine h.read (skipSpace_cons (by decide)) (ends_cons (by decide) _) ?_
    rw [cons_append, readSeparator, skipSpace_spaces hsp, skipSpace_cons (by decide)]

theorem Scanned.skipSpace (h : Scanned o body xs) (tail : List Char) :
    skipSpace (body ++ ']' :: tail) = body ++ ']' :: tail := by
  cases h with
  | listed h =>
    cases h with
    | empty => exact skipSpace_cons (by decide)
    | elements h => exact h.skipSpace _
  | trailing h hsp =>
    rw [append_assoc]
    exact h.skipSpace _

theorem vectorIn_of_scanned {sp₁ sp₂ : List Char} (h₁ : Spaces sp₁) (h₂ : Spaces sp₂)
    (h : Scanned o body xs) (tail : List Char) :
    vectorIn o.read (sp₁ ++ '[' :: (sp₂ ++ (body ++ ']' :: tail))) = .ok xs := by
  have hopen : ∀ rest, Vector.skipSpace ('[' :: rest) = '[' :: rest := fun rest =>
    skipSpace_cons (by decide)
  simp only [vectorIn, skipSpace_spaces h₁, hopen, skipSpace_spaces h₂, h.skipSpace, h.read]
  rfl

/-! ## What is accepted -/

theorem skipSpace_split (text : List Char) :
    ∃ sp, Spaces sp ∧ text = sp ++ skipSpace text :=
  ⟨text.takeWhile isSpace, fun _ => mem_takeWhile_imp, takeWhile_append_dropWhile.symm⟩

theorem skipSpace_skipSpace (text : List Char) : skipSpace (skipSpace text) = skipSpace text :=
  dropWhile_idempotent _ _

theorem readElements_eq_ok {final : List Char} (h : readElements o.read text = .ok (xs, final)) :
    (xs = [] ∧ final = text) ∨ ∃ v rest next xs', strtod o.read text = some (v, rest) ∧
        readSeparator (skipSpace rest) = .ok next ∧
        readElements o.read next = .ok (xs', final) ∧ xs = v.toFloat4 :: xs' := by
  rw [readElements] at h
  split at h
  · cases h
    exact .inl ⟨rfl, rfl⟩
  split at h
  · cases h
  rename_i v rest hv
  split at h
  · cases h
  rename_i next hsep
  obtain ⟨⟨xs', final'⟩, hnext, hr⟩ := map_eq_ok.mp h
  cases hr
  exact .inr ⟨v, rest, next, xs', hv, hsep, hnext, rfl⟩

theorem readSeparator_cases {next : List Char} (h : readSeparator (skipSpace rest) = .ok next) :
    ∃ sp, Spaces sp ∧
      (rest = sp ∧ next = [] ∨ (∃ tail, rest = sp ++ ']' :: tail ∧ next = ']' :: tail) ∨
        ∃ sp', Spaces sp' ∧ rest = sp ++ ',' :: (sp' ++ next) ∧ skipSpace next = next) := by
  obtain ⟨sp, hsp, hrest⟩ := skipSpace_split rest
  refine ⟨sp, hsp, ?_⟩
  unfold readSeparator at h
  split at h
  · rename_i text heq
    cases h
    obtain ⟨sp', hsp', htext⟩ := skipSpace_split text
    refine .inr (.inr ⟨sp', hsp', ?_, skipSpace_skipSpace text⟩)
    rw [← htext, ← heq, ← hrest]
  · rename_i heq
    cases h
    rw [heq, append_nil] at hrest
    exact .inl ⟨hrest, rfl⟩
  · rename_i tail heq
    cases h
    rw [heq] at hrest
    exact .inr (.inl ⟨tail, hrest, rfl⟩)
  · cases h

theorem literal_of_strtod (hskip : skipSpace text = text)
    (h : strtod o.read text = some (v, rest)) (hends : Ends rest) :
    ∃ w, Literal o w v ∧ text = w ++ rest := by
  obtain ⟨w, -, htext, hplain, hagain⟩ := strtod_local hskip h hends
  have hread := hagain [] ends_nil
  rw [append_nil] at hread
  exact ⟨w, ⟨hread, hplain⟩, htext⟩

theorem readElements_nil {final : List Char} (h : readElements o.read [] = .ok (xs, final)) :
    final = [] := by
  rcases readElements_eq_ok h with ⟨-, hfinal⟩ | ⟨v, rest, next, xs', hv, -⟩
  · exact hfinal
  · exact absurd (strtod_length hv) (Nat.not_lt_zero _)

/-- **What the loop has read when it ends at a bracket.** -/
theorem readElements_scanned {final : List Char} (hskip : skipSpace text = text)
    (h : readElements o.read text = .ok (xs, final)) (hfinal : final.head? = some ']') :
    ∃ body tail, text = body ++ ']' :: tail ∧ Scanned o body xs := by
  induction hn : text.length using Nat.strong_induction_on generalizing text xs with
  | _ n ih =>
    rcases readElements_eq_ok h with ⟨rfl, rfl⟩ | ⟨v, rest, next, xs', hv, hsep, hnext, rfl⟩
    · obtain ⟨tail, rfl⟩ := head?_eq_some_iff.mp hfinal
      exact ⟨[], tail, rfl, .listed .empty⟩
    have hlt : next.length < n := hn ▸
      ((readSeparator_length hsep).trans (skipSpace_length rest)).trans_lt (strtod_length hv)
    obtain ⟨sp, hsp, ⟨-, rfl⟩ | ⟨tail, rfl, rfl⟩ | ⟨sp', hsp', rfl, hskip'⟩⟩ :=
      readSeparator_cases hsep
    · rw [readElements_nil hnext] at hfinal
      cases hfinal
    · rw [readElements_stop] at hnext
      cases hnext
      obtain ⟨w, hw, rfl⟩ := literal_of_strtod hskip hv
        (ends_append hsp (ends_cons (by decide) tail))
      exact ⟨w ++ sp, tail, by rw [append_assoc], .listed (.elements (.last hw hsp))⟩
    obtain ⟨w, hw, rfl⟩ := literal_of_strtod hskip hv
      (ends_append hsp (ends_cons (by decide) _))
    obtain ⟨body, tail, rfl, hbody⟩ := ih next.length hlt hskip' hnext rfl
    cases hbody with
    | listed hbody =>
      cases hbody with
      | empty =>
        refine ⟨(w ++ sp) ++ ',' :: sp', tail, ?_, .trailing (.last hw hsp) hsp'⟩
        simp
      | elements hbody =>
        refine ⟨_, tail, ?_, .listed (.elements (.cons hw hsp hsp' hbody))⟩
        simp
    | trailing hbody hsp'' =>
      refine ⟨_, tail, ?_, .trailing (.cons hw hsp hsp' hbody) hsp''⟩
      simp

/-- **What is accepted**: a list in brackets, perhaps with a comma after its last element, and any
text behind it. -/
theorem vectorIn_scanned (h : vectorIn o.read text = .ok xs) :
    ∃ sp₁ sp₂ body tail, Spaces sp₁ ∧ Spaces sp₂ ∧ Scanned o body xs ∧
      text = sp₁ ++ '[' :: (sp₂ ++ (body ++ ']' :: tail)) := by
  obtain ⟨sp₁, hsp₁, htext⟩ := skipSpace_split text
  unfold vectorIn at h
  split at h
  · rename_i rest heq
    obtain ⟨⟨xs', final⟩, hread, hstop⟩ := bind_eq_ok.mp h
    dsimp only at hstop
    split at hstop
    · rename_i hfinal
      cases hstop
      obtain ⟨sp₂, hsp₂, hrest⟩ := skipSpace_split rest
      obtain ⟨body, tail, hbody, hscanned⟩ :=
        readElements_scanned (skipSpace_skipSpace rest) hread hfinal
      refine ⟨sp₁, sp₂, body, tail, hsp₁, hsp₂, hscanned, ?_⟩
      rw [← hbody, ← hrest, ← heq, ← htext]
    · cases hstop
  · cases h

/-! ## Clean texts -/

theorem isDelimiter_of_isSpace {c : Char} (h : isSpace c = true) : isDelimiter c = true := by
  rw [isDelimiter, h]
  rfl

theorem Spaces.notMem_bracket {sp : List Char} (h : Spaces sp) : ']' ∉ sp :=
  fun hmem => Bool.false_ne_true (h ']' hmem)

theorem Literal.notMem_bracket {w : List Char} (h : Literal o w v) : ']' ∉ w :=
  fun hmem => absurd (h.plain ']' hmem) (by decide)

theorem Elements.notMem_bracket (h : Elements o body xs) : ']' ∉ body := by
  induction h with
  | last hw hsp => simp [hw.notMem_bracket, hsp.notMem_bracket]
  | cons hw hsp hsp' h ih =>
    simp [hw.notMem_bracket, hsp.notMem_bracket, hsp'.notMem_bracket, ih]

theorem Scanned.notMem_bracket (h : Scanned o body xs) : ']' ∉ body := by
  cases h with
  | listed h =>
    cases h with
    | empty => exact not_mem_nil
    | elements h => exact h.notMem_bracket
  | trailing h hsp => simp [h.notMem_bracket, hsp.notMem_bracket]

theorem Elements.ends (h : Elements o body xs) :
    ∃ front c sp, body = front ++ c :: sp ∧ Spaces sp ∧ isDelimiter c = false := by
  induction h with
  | @last w sp v hw hsp =>
    refine ⟨w.dropLast, w.getLast hw.ne_nil, sp, ?_, hsp, hw.plain _ (getLast_mem _)⟩
    rw [← singleton_append, ← append_assoc, dropLast_append_getLast]
  | @cons w sp sp' text v xs hw hsp hsp' h ih =>
    obtain ⟨front, c, sp₁, rfl, hsp₁, hc⟩ := ih
    exact ⟨w ++ (sp ++ ',' :: (sp' ++ front)), c, sp₁, by simp, hsp₁, hc⟩

theorem getLast?_rdropWhile {front sp : List Char} {c : Char} (hsp : Spaces sp)
    (hc : isSpace c = false) : ((front ++ c :: sp).rdropWhile isSpace).getLast? = some c := by
  unfold rdropWhile
  rw [reverse_append, reverse_cons, append_assoc,
    dropWhile_append_of_pos fun x hx => hsp x (mem_reverse.mp hx)]
  simp [hc]

theorem clean_append {front tail : List Char} (h : ']' ∉ front) :
    Clean (front ++ ']' :: tail) ↔
      Spaces tail ∧ (front.rdropWhile isSpace).getLast? ≠ some ',' := by
  have hne : ∀ c ∈ front, decide (c ≠ ']') = true := by
    intro c hc
    refine decide_eq_true ?_
    rintro rfl
    exact h hc
  have hstop : ∀ c ∈ (']' :: tail).head?, decide (c ≠ ']') = false := by
    intro c hc
    obtain rfl : ']' = c := some.inj hc
    decide
  unfold Clean
  rw [takeWhile_append_stop hne hstop, dropWhile_append_stop hne hstop]
  rfl

theorem Listed.last_ne {sp₁ sp₂ : List Char} (h : Listed o body xs) (h₂ : Spaces sp₂) :
    ((sp₁ ++ '[' :: (sp₂ ++ body)).rdropWhile isSpace).getLast? ≠ some ',' := by
  cases h with
  | empty =>
    rw [append_nil, getLast?_rdropWhile h₂ (by decide)]
    decide
  | elements h =>
    obtain ⟨front, c, sp, rfl, hsp, hc⟩ := h.ends
    have hspace : isSpace c = false :=
      Bool.eq_false_iff.mpr fun hc' =>
        Bool.false_ne_true (hc.symm.trans (isDelimiter_of_isSpace hc'))
    have hsplit : sp₁ ++ '[' :: (sp₂ ++ (front ++ c :: sp)) =
        (sp₁ ++ '[' :: (sp₂ ++ front)) ++ c :: sp := by simp
    rw [hsplit, getLast?_rdropWhile hsp hspace]
    intro heq
    obtain rfl : c = ',' := some.inj heq
    exact absurd hc (by decide)

theorem scanned_append (sp₁ sp₂ body tail : List Char) :
    sp₁ ++ '[' :: (sp₂ ++ (body ++ ']' :: tail)) =
      (sp₁ ++ '[' :: (sp₂ ++ body)) ++ ']' :: tail := by
  simp

theorem Scanned.notMem_before {sp₁ sp₂ : List Char} (h₁ : Spaces sp₁) (h₂ : Spaces sp₂)
    (h : Scanned o body xs) : ']' ∉ sp₁ ++ '[' :: (sp₂ ++ body) := by
  simp [h₁.notMem_bracket, h₂.notMem_bracket, h.notMem_bracket]

theorem IsVector.clean (h : IsVector o text xs) : Clean text := by
  obtain ⟨h₁, h₂, hlist, h₃⟩ := h
  rw [scanned_append, clean_append (Scanned.notMem_before h₁ h₂ (.listed hlist))]
  exact ⟨h₃, hlist.last_ne h₂⟩

/-! ## Readers of names -/

def specialNames : List (List Char) :=
  ["inf", "Inf", "INF", "infinity", "Infinity", "INFINITY", "nan", "NaN", "NAN"].map String.toList

/-- The value of a name. -/
def nameValue (neg : Bool) (name : List Char) : Float8 :=
  if name.length = 3 ∧ name.getLast? ∈ [some 'n', some 'N'] then
    ⟨neg, float8Infinity + 2 ^ 51, by decide⟩
  else ⟨neg, float8Infinity, by decide⟩

def readName (text : List Char) : Option (Float8 × ℕ) :=
  let name := (readSign text).2.takeWhile Char.isAlpha
  if specialNames.contains name then
    some (nameValue (readSign text).1 name,
      text.length - (readSign text).2.length + name.length - 1)
  else none

theorem isDelimiter_of_isAlpha {c : Char} (h : c.isAlpha = true) : isDelimiter c = false := by
  have hall : delimiters.all (fun c => !c.isAlpha) = true := by decide
  refine Bool.eq_false_iff.mpr fun hc => ?_
  simpa [h] using all_eq_true.mp hall c (mem_of_isDelimiter hc)

theorem specialNames_spec : ∀ name ∈ specialNames, name ≠ [] ∧ otherForm name = true := by
  decide

theorem readName_taken {text : List Char} {v : Float8} {n : ℕ} (h : readName text = some (v, n)) :
    n < text.length ∧ otherForm (readSign (text.take (n + 1))).2 = true ∧
      (∀ c ∈ text.take (n + 1), isDelimiter c = false) ∧
      ∀ rest, Ends rest → readName (text.take (n + 1) ++ rest) = some (v, n) := by
  obtain ⟨sign, hsign, hmarks, -⟩ := readSign_local text
  unfold readName at h
  dsimp only at h
  generalize hname : (readSign text).2.takeWhile Char.isAlpha = name at h
  split at h
  · rename_i hmem
    obtain ⟨hne, hform⟩ := specialNames_spec name (contains_iff_mem.mp hmem)
    cases h
    obtain ⟨after, hletters⟩ : ∃ after, (readSign text).2 = name ++ after :=
      ⟨_, by rw [← hname, takeWhile_append_dropWhile]⟩
    have htext : text = (sign ++ name) ++ after := by
      rw [append_assoc, ← hletters, ← hsign]
    have hne' : sign ++ name ≠ [] := append_ne_nil_of_right_ne_nil _ hne
    have hsplit := readSign_front hne' htext hletters
    have hpos := length_pos_iff.mpr hne
    have hlen : text.length = sign.length + name.length + after.length := by
      rw [htext, length_append, length_append]
    have hcount : text.length - (readSign text).2.length + name.length - 1 + 1 =
        (sign ++ name).length := by
      rw [hletters, length_append, length_append]
      omega
    have htake : text.take (sign ++ name).length = sign ++ name := by
      conv_lhs => rw [htext, take_left]
    have halpha : ∀ c ∈ name, c.isAlpha = true := by
      rw [← hname]
      exact fun _ => mem_takeWhile_imp
    rw [hcount, htake, hsplit]
    refine ⟨?_, hform, ?_, fun rest hrest => ?_⟩
    · rw [hletters, length_append]
      omega
    · intro c hc
      rcases mem_append.mp hc with hc | hc
      · rcases hmarks c hc with rfl | rfl <;> rfl
      · exact isDelimiter_of_isAlpha (halpha c hc)
    have hstop : ∀ c ∈ rest.head?, c.isAlpha = false := fun c hc =>
      Bool.eq_false_iff.mpr fun hc' =>
        Bool.false_ne_true ((isDelimiter_of_isAlpha hc').symm.trans (hrest c hc))
    unfold readName
    rw [readSign_append hne', hsplit]
    rw [takeWhile_append_stop halpha hstop, if_pos hmem, hletters]
    simp only [length_append, some.injEq, Prod.mk.injEq, true_and]
    omega
  · cases h

def nameReader : OtherReader where
  read := readName
  taken _ _ _ h _ _ := readName_taken h

/-! ## The language -/

/-- **A text is a vector iff it is accepted and clean**, and then its components are those of its
literals, in order. -/
theorem vectorIn_iff (o : OtherReader) (text : List Char) (xs : List Float4) :
    IsVector o text xs ↔ vectorIn o.read text = .ok xs ∧ Clean text := by
  constructor
  · intro h
    refine ⟨?_, h.clean⟩
    obtain ⟨h₁, h₂, hlist, -⟩ := h
    exact vectorIn_of_scanned h₁ h₂ (.listed hlist) _
  rintro ⟨h, hclean⟩
  obtain ⟨sp₁, sp₂, body, tail, h₁, h₂, hbody, rfl⟩ := vectorIn_scanned h
  rw [scanned_append, clean_append (Scanned.notMem_before h₁ h₂ hbody)] at hclean
  cases hbody with
  | listed hlist => exact .mk h₁ h₂ hlist hclean.1
  | @trailing text sp _ hlist hsp =>
    refine absurd ?_ hclean.2
    have hcomma : sp₁ ++ '[' :: (sp₂ ++ (text ++ ',' :: sp)) =
        (sp₁ ++ '[' :: (sp₂ ++ text)) ++ ',' :: sp := by simp
    rw [hcomma, getLast?_rdropWhile hsp (by decide)]

/-- A comma after the last element and a text behind the bracket are accepted. -/
theorem vectorIn_overaccepts :
    ∃ x, vectorIn nameReader.read "[1,]".toList = .ok [x] ∧
      ¬ IsVector nameReader "[1,]".toList [x] ∧
      vectorIn nameReader.read "[1] or more".toList = .ok [x] ∧
      ¬ IsVector nameReader "[1] or more".toList [x] := by
  have hone : Literal nameReader ['1'] (.ofDecimal false ⟨1, 0⟩) :=
    ⟨rfl, forall_mem_singleton.mpr rfl⟩
  have hnone : Spaces [] := forall_mem_nil _
  have helement := Elements.last hone hnone
  refine ⟨_, vectorIn_of_scanned hnone hnone (.trailing helement hnone) [], fun h => ?_,
    vectorIn_of_scanned hnone hnone (.listed (.elements helement)) " or more".toList, fun h => ?_⟩
  · exact absurd h.clean (by decide)
  · exact absurd h.clean (by decide)

end MaluDb.Vector
