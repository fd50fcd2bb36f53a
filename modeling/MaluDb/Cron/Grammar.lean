import MaluDb.Cron.Field

/-!
# The grammar of cron fields

What `_cron_expand_field` (`maludb_core--0.106.0.sql`, 20969-21024) accepts, against the grammar of
fields (`FieldText`): items with commas between them, each `*`, a number or a range `a-b`, and
possibly `/step`. It ignores what follows a second `/` or `-`, its cast allows more, and its loop
adds the step once more after the last value, which must not leave the range of `integer`.

Results:

* `cronExpandField_eq_some`: what the function accepts, item by item.
* `cronExpandField_meaning_iff`: for which texts that is the grammar.
* `cronExpandField_ignores_rest`: a text outside the grammar that is accepted.
-/

namespace MaluDb.Cron

open List Option

/-! ## The grammar -/

def decimalValue (digits : List Char) : Nat := digits.foldl (fun n c => n * 10 + (c.toNat - 48)) 0

structure Numeral (text : List Char) (n : Nat) : Prop where
  nonempty : text ≠ []
  digits : ∀ c ∈ text, c.isDigit = true
  value : decimalValue text = n

/-- `*`, a number or a range, with the bounds it stands for. -/
inductive RangeText (lo hi : Int) : List Char → Int → Int → Prop
  | star : RangeText lo hi ['*'] lo hi
  | number {s : List Char} {n : Nat} : Numeral s n → RangeText lo hi s n n
  | range {s t : List Char} {a b : Nat} : Numeral s a → Numeral t b →
      RangeText lo hi (s ++ '-' :: t) a b

/-- The values `first`, `first + step`, … up to `last`. -/
structure Item where
  first : Int
  last : Int
  step : Int

def Item.Has (i : Item) (v : Int) : Prop := v ≤ i.last ∧ ∃ k : Nat, v = i.first + k * i.step

def Item.Within (lo hi : Int) (i : Item) : Prop := lo ≤ i.first ∧ i.first ≤ i.last ∧ i.last ≤ hi

inductive ItemText (lo hi : Int) : List Char → Item → Prop
  | plain {s : List Char} {a b : Int} : RangeText lo hi s a b → ItemText lo hi s ⟨a, b, 1⟩
  | stepped {s t : List Char} {a b : Int} {k : Nat} : RangeText lo hi s a b → Numeral t k → 0 < k →
      ItemText lo hi (s ++ '/' :: t) ⟨a, b, k⟩

/-- A field: items with commas between them, each within the bounds. -/
structure FieldText (lo hi : Int) (text : List Char) (items : List Item) : Prop where
  texts : ∃ texts, texts ≠ [] ∧ text = [','].intercalate texts ∧
    List.Forall₂ (ItemText lo hi) texts items
  bounds : ∀ i ∈ items, i.Within lo hi

/-! ## Numbers -/

theorem isDigit_iff (c : Char) : c.isDigit = true ↔ 48 ≤ c.toNat ∧ c.toNat ≤ 57 := by
  simp only [Char.isDigit, Bool.and_eq_true, decide_eq_true_eq, ge_iff_le, UInt32.le_iff_toNat_le]
  rfl

theorem digitValue_ten (c : Char) :
    digitValue 10 c = if c.isDigit then some (c.toNat - 48) else none := by
  unfold digitValue
  dsimp only
  by_cases hdigit : c.isDigit = true
  · have h := (isDigit_iff c).mp hdigit
    rw [if_pos hdigit, if_pos h, filter_some_pos]
    simp only [decide_eq_true_eq]
    omega
  have h := mt (isDigit_iff c).mpr hdigit
  -- the letters have values from 10 on
  split_ifs with hlower hupper
  · exact filter_some_neg (by simpa using by omega)
  · exact filter_some_neg (by simpa using by omega)
  · rfl

theorem readDigits_ten : ∀ (underscore : Bool) (acc : Nat) (cs : List Char), '_' ∉ cs →
    readDigits 10 underscore acc cs = if cs.all Char.isDigit = true then
      some (cs.foldl (fun n c => n * 10 + (c.toNat - 48)) acc) else none
  | _, acc, [], _ => by simp [readDigits]
  | underscore, acc, c :: cs, hno => by
    have hstep : readDigits 10 underscore acc (c :: cs) =
        (digitValue 10 c).bind fun v => readDigits 10 true (acc * 10 + v) cs := by
      have hc : c ≠ '_' := fun h => hno (h ▸ mem_cons_self)
      conv_lhs => unfold readDigits
      split
      · rename_i heq
        cases heq
      · rename_i heq
        exact absurd (List.cons.inj heq).1 hc
      · obtain ⟨rfl, rfl⟩ := List.cons.inj ‹c :: cs = _›
        cases digitValue 10 c <;> rfl
    rw [hstep, digitValue_ten]
    by_cases hdigit : c.isDigit = true
    · rw [if_pos hdigit, bind_some]
      rw [readDigits_ten true _ cs fun h => hno (mem_cons_of_mem _ h)]
      simp [hdigit]
    · simp [hdigit]

def NumberChar (c : Char) : Prop := c.isDigit = true ∨ c = '*' ∨ c = '-'

variable {c : Char} {s token : List Char} {n : Nat} {lo hi a b : Int} {i : Item} {items : List Item}

theorem NumberChar.not_isSpace (h : NumberChar c) : isSpace c = false := by
  rcases h with h | rfl | rfl
  · have hrange := (isDigit_iff c).mp h
    have hspace : c ≠ ' ' := fun heq => absurd (heq ▸ hrange.1) (by decide)
    simp only [isSpace, Bool.or_eq_false_iff, Bool.and_eq_false_iff, beq_eq_false_iff_ne,
      decide_eq_false_iff_not]
    exact ⟨hspace, .inr (by omega)⟩
  · rfl
  · rfl

section

variable (h : ∀ c ∈ s, NumberChar c)
include h

theorem strip_eq : strip s = s := by
  have hdrop : ∀ t : List Char, (∀ c ∈ t, NumberChar c) → t.dropWhile isSpace = t := by
    intro t ht
    cases t with
    | nil => rfl
    | cons c t => rw [dropWhile_cons_of_neg (by simp [(ht c mem_cons_self).not_isSpace])]
  unfold strip
  rw [hdrop s h, hdrop s.reverse fun c hc => h c (mem_reverse.mp hc), reverse_reverse]

theorem readNumber_eq :
    readNumber s = if s ≠ [] ∧ s.all Char.isDigit = true then some (decimalValue s) else none := by
  have hno {c : Char} (hc : c.isDigit = false ∧ c ≠ '*' ∧ c ≠ '-') : c ∉ s := by
    intro hmem
    rcases h c hmem with hdigit | hstar | hminus
    · exact absurd hdigit (by simp [hc.1])
    · exact hc.2.1 hstar
    · exact hc.2.2 hminus
  have hbase : readNumber s = if s = [] then none else readDigits 10 false 0 s := by
    have hx : 'x' ∉ s ∧ 'X' ∉ s := ⟨hno (by decide), hno (by decide)⟩
    have ho : 'o' ∉ s ∧ 'O' ∉ s := ⟨hno (by decide), hno (by decide)⟩
    have hb : 'b' ∉ s ∧ 'B' ∉ s := ⟨hno (by decide), hno (by decide)⟩
    unfold readNumber
    split
    rename_i heq
    split at heq
    all_goals first
      | (cases heq; rfl)
      | simp at hx ho hb
  rw [hbase, readDigits_ten _ _ _ (hno (by decide))]
  by_cases hs : s = []
  · simp [hs]
  · simp [hs, decimalValue]

theorem parseInteger_iff (hminus : s.head? ≠ some '-') (n : Int) :
    parseInteger s = some n ↔ ∃ k : Nat, Numeral s k ∧ n = k ∧ (k : Int) ≤ integerMax := by
  have hplus : s.head? ≠ some '+' := by
    intro hhead
    exact absurd (h '+' (mem_of_mem_head? hhead)) (by unfold NumberChar; decide)
  have hunsigned : parseInteger s = ((readNumber s).map Int.ofNat).filter
      fun n => decide (integerMin ≤ n ∧ n ≤ integerMax) := by
    unfold parseInteger
    rw [strip_eq h]
    split
    · exact absurd rfl hminus
    · exact absurd rfl hplus
    · cases readNumber s <;> rfl
  rw [hunsigned, readNumber_eq h]
  by_cases hnumeral : s ≠ [] ∧ s.all Char.isDigit = true
  · rw [if_pos hnumeral, filter_eq_some_iff]
    constructor
    · rintro ⟨hn, hrange⟩
      cases hn
      exact ⟨_, ⟨hnumeral.1, all_eq_true.mp hnumeral.2, rfl⟩, rfl, (of_decide_eq_true hrange).2⟩
    rintro ⟨k, hk, rfl, hmax⟩
    refine ⟨by rw [hk.value]; rfl, decide_eq_true ⟨?_, hmax⟩⟩
    have : integerMin ≤ 0 := by decide
    omega
  · rw [if_neg hnumeral]
    constructor
    · intro hnone
      cases hnone
    · rintro ⟨k, hk, -⟩
      exact absurd ⟨hk.nonempty, all_eq_true.mpr hk.digits⟩ hnumeral

theorem parseInteger_minus {n : Int} (hminus : s.head? = some '-') (hn : parseInteger s = some n) :
    n ≤ 0 := by
  obtain ⟨rest, rfl⟩ : ∃ rest, s = '-' :: rest := by
    cases s with
    | nil => cases hminus
    | cons c rest =>
      cases hminus
      exact ⟨rest, rfl⟩
  unfold parseInteger at hn
  rw [strip_eq h] at hn
  obtain ⟨hn, -⟩ := filter_eq_some_iff.mp hn
  obtain ⟨k, hk, rfl⟩ := map_eq_some_iff.mp hn
  obtain ⟨m, -, hm⟩ := bind_eq_some_iff.mp hk
  cases hm
  omega

end

/-! ## Items -/

/-- An item with nothing that the function ignores or that only a cast allows. -/
structure Spelled (item : List Char) : Prop where
  chars : ∀ c ∈ item, NumberChar c ∨ c = '/'
  slash : item.count '/' ≤ 1
  dash : ∀ s, (item.splitOn '/').head? = some s → s.count '-' ≤ 1

/-- The function reads the text as the item, within the bounds. -/
structure Reads (lo hi : Int) (token : List Char) (i : Item) : Prop where
  parts : ∃ range, splitStep token = some (range, i.step) ∧
    tokenRange lo hi range = some (i.first, i.last)
  positive : 0 < i.step
  within : i.Within lo hi

/-- The loop can add the step to every value. -/
def Item.Sums (i : Item) : Prop := ∀ v, i.Has v → v + i.step ≤ integerMax

theorem splitOn_pair {t : List Char} (hs : c ∉ s) (ht : c ∉ t) :
    (s ++ c :: t).splitOn c = [s, t] := by
  rw [splitOn_append_cons_self, splitOn_eq_singleton hs, splitOn_eq_singleton ht]
  rfl

theorem exists_parts {text : List Char} (hmem : c ∈ text) (hcount : text.count c ≤ 1) :
    ∃ s t, text = s ++ c :: t ∧ c ∉ s ∧ c ∉ t := by
  obtain ⟨s, t, rfl⟩ := append_of_mem hmem
  rw [count_append, count_cons_self] at hcount
  refine ⟨s, t, rfl, ?_, ?_⟩
  · exact count_eq_zero.mp (by omega)
  · exact count_eq_zero.mp (by omega)

theorem Numeral.numberChar (h : Numeral s n) :
    ∀ c ∈ s, NumberChar c := fun c hc => .inl (h.digits c hc)

theorem Numeral.notMem (h : Numeral s n) (hc : c.isDigit = false) : c ∉ s :=
  fun hmem => absurd (h.digits c hmem) (by simp [hc])

theorem head_ne_of_notMem (h : c ∉ s) : s.head? ≠ some c :=
  fun hhead => h (mem_of_mem_head? hhead)

theorem Numeral.parseInteger_eq (h : Numeral s n) (hmax : (n : Int) ≤ integerMax) :
    parseInteger s = some (n : Int) :=
  (parseInteger_iff h.numberChar (head_ne_of_notMem (h.notMem rfl)) n).mpr ⟨n, h, rfl, hmax⟩

theorem rangeText_of_tokenRange (hchars : ∀ c ∈ s, NumberChar c) (hdash : s.count '-' ≤ 1)
    (h : tokenRange lo hi s = some (a, b)) : RangeText lo hi s a b := by
  have hnumeral {t : List Char} {n : Int} (ht : ∀ c ∈ t, c ∈ s) (hminus : '-' ∉ t)
      (hparse : parseInteger t = some n) : ∃ k : Nat, Numeral t k ∧ n = k := by
    obtain ⟨k, hk, hn, -⟩ := (parseInteger_iff (fun c hc => hchars c (ht c hc))
      (head_ne_of_notMem hminus) n).mp hparse
    exact ⟨k, hk, hn⟩
  unfold tokenRange at h
  split at h
  · rename_i hstar
    cases h
    rw [hstar]
    exact .star
  split at h
  · rename_i hmem
    obtain ⟨u, w, rfl, hu, hw⟩ := exists_parts hmem hdash
    rw [splitOn_pair hu hw] at h
    obtain ⟨a', ha, h⟩ := bind_eq_some_iff.mp h
    obtain ⟨b', hb, h⟩ := map_eq_some_iff.mp h
    cases h
    obtain ⟨m, hm, rfl⟩ := hnumeral (fun c hc => mem_append_left _ hc) hu ha
    obtain ⟨n, hn, rfl⟩ :=
      hnumeral (fun c hc => mem_append_right _ (mem_cons_of_mem _ hc)) hw hb
    exact .range hm hn
  · rename_i hnot
    obtain ⟨n, hn, heq⟩ := map_eq_some_iff.mp h
    cases heq
    obtain ⟨m, hm, rfl⟩ := hnumeral (fun c hc => hc) hnot hn
    exact .number hm

theorem tokenRange_of_rangeText (h : RangeText lo hi s a b) (hab : a ≤ b) (hb : b ≤ integerMax) :
    tokenRange lo hi s = some (a, b) := by
  unfold tokenRange
  cases h with
  | star => rw [if_pos rfl]
  | @number s n hs =>
    have hstar : s ≠ ['*'] := fun heq => hs.notMem rfl (heq ▸ mem_singleton_self '*')
    rw [if_neg hstar, if_neg (hs.notMem rfl), hs.parseInteger_eq hb, map_some]
  | @range s t a b hs ht =>
    have hmem : '-' ∈ s ++ '-' :: t := by simp
    have hstar : s ++ '-' :: t ≠ ['*'] := fun heq => absurd (heq ▸ hmem) (by decide)
    rw [if_neg hstar, if_pos hmem, splitOn_pair (hs.notMem rfl) (ht.notMem rfl)]
    dsimp only
    rw [hs.parseInteger_eq (hab.trans hb), ht.parseInteger_eq hb]
    rfl

theorem RangeText.numberChar (h : RangeText lo hi s a b) : ∀ c ∈ s, NumberChar c := by
  cases h with
  | star =>
    intro c hc
    exact .inr (.inl (mem_singleton.mp hc))
  | number hs => exact hs.numberChar
  | range hs ht =>
    intro c hc
    rcases mem_append.mp hc with hc | hc
    · exact hs.numberChar c hc
    · rcases mem_cons.mp hc with rfl | hc
      · exact .inr (.inr rfl)
      · exact ht.numberChar c hc

theorem not_numberChar_slash : ¬ NumberChar '/' := by
  unfold NumberChar
  decide

theorem not_numberChar_comma : ¬ NumberChar ',' := by
  unfold NumberChar
  decide

theorem exists_expandRange {step hi : Int} (hstep : 0 < step) : ∀ {fuel : Nat} {i : Int},
    hi - i < fuel → ((∃ values, expandRange step hi fuel i = some values) ↔
      Item.Sums ⟨i, hi, step⟩)
  | 0, i, hfuel => by
    have hpast : hi < i := by omega
    refine iff_of_true ⟨[], rfl⟩ fun v hv => ?_
    exact absurd ((mem_nil_iff_past hstep hpast v).mpr hv) not_mem_nil
  | fuel + 1, i, hfuel => by
    unfold expandRange
    by_cases hi' : i ≤ hi
    · have ih := @exists_expandRange step hi hstep fuel (i + step) (by omega)
      rw [if_pos hi']
      constructor
      · rintro ⟨values, h⟩ v ⟨hv, k, rfl⟩
        split at h
        · cases h
        obtain ⟨rest, hrest, -⟩ := map_eq_some_iff.mp h
        cases k with
        | zero => simpa using by omega
        | succ k => exact ih.mp ⟨rest, hrest⟩ _ ⟨hv, k, by push_cast; ring⟩
      · intro hsums
        have hfirst : i + step ≤ integerMax := hsums i ⟨hi', 0, by simp⟩
        obtain ⟨rest, hrest⟩ := ih.mpr fun v hv => by
          obtain ⟨hle, k, rfl⟩ := hv
          exact hsums _ ⟨hle, k + 1, by push_cast; ring⟩
        rw [if_neg (by omega), hrest]
        exact ⟨_, rfl⟩
    · have hpast : hi < i := by omega
      rw [if_neg hi']
      refine iff_of_true ⟨[], rfl⟩ fun v hv => ?_
      exact absurd ((mem_nil_iff_past hstep hpast v).mpr hv) not_mem_nil

theorem Reads.unique {j : Item} (h : Reads lo hi token i) (h' : Reads lo hi token j) : i = j := by
  obtain ⟨range, hsplit, hrange⟩ := h.parts
  obtain ⟨range', hsplit', hrange'⟩ := h'.parts
  rw [hsplit] at hsplit'
  obtain ⟨rfl, hstep⟩ := Prod.mk.inj (Option.some.inj hsplit')
  rw [hrange] at hrange'
  obtain ⟨hfirst, hlast⟩ := Prod.mk.inj (Option.some.inj hrange')
  cases i
  cases j
  simp_all

theorem exists_reads {values : List Int} (h : expandToken lo hi token = some values) :
    ∃ i, Reads lo hi token i ∧ i.Sums ∧ ∀ v, v ∈ values ↔ i.Has v := by
  unfold expandToken at h
  simp only [bind_eq_some_iff, ite_none_left_eq_some, Prod.exists] at h
  obtain ⟨range, step, hsplit, hstep, a, b, hrange, hwithin, hvalues⟩ := h
  have hpos : 0 < step := by omega
  have hfuel : b - a < (b - a + 1).toNat := by omega
  have hwithin : lo ≤ a ∧ a ≤ b ∧ b ≤ hi := by omega
  exact ⟨⟨a, b, step⟩, ⟨⟨range, hsplit, hrange⟩, hpos, hwithin⟩,
    (exists_expandRange hpos hfuel).mp ⟨values, hvalues⟩, mem_expandRange hpos hfuel hvalues⟩

theorem Reads.exists_values (h : Reads lo hi token i) (hsums : i.Sums) :
    ∃ values, expandToken lo hi token = some values ∧ ∀ v, v ∈ values ↔ i.Has v := by
  obtain ⟨range, hsplit, hrange⟩ := h.parts
  obtain ⟨hlo, hle, hhi⟩ := h.within
  have hpos := h.positive
  have hfuel : i.last - i.first < (i.last - i.first + 1).toNat := by omega
  obtain ⟨values, hvalues⟩ := (exists_expandRange hpos hfuel).mpr hsums
  refine ⟨values, ?_, mem_expandRange hpos hfuel hvalues⟩
  unfold expandToken
  simp only [bind_eq_some_iff, ite_none_left_eq_some, Prod.exists]
  exact ⟨range, i.step, hsplit, by omega, i.first, i.last, hrange, by omega, hvalues⟩

/-- **An item that is read and spelled so is in the grammar.** -/
theorem Reads.itemText (h : Reads lo hi token i) (hspelled : Spelled token) :
    ItemText lo hi token i := by
  obtain ⟨range, hsplit, hrange⟩ := h.parts
  have hpos := h.positive
  obtain ⟨a, b, step⟩ := i
  unfold splitStep at hsplit
  split at hsplit
  · rename_i hmem
    obtain ⟨s, t, rfl, hs, ht⟩ := exists_parts hmem hspelled.slash
    rw [splitOn_pair hs ht] at hsplit
    obtain ⟨n, hn, heq⟩ := map_eq_some_iff.mp hsplit
    obtain ⟨rfl, rfl⟩ := Prod.mk.inj heq
    have hdash := hspelled.dash s (by rw [splitOn_pair hs ht]; rfl)
    have hchars {u : List Char} (hu : ∀ c ∈ u, c ∈ s ++ '/' :: t) (hno : '/' ∉ u) :
        ∀ c ∈ u, NumberChar c := by
      intro c hc
      refine (hspelled.chars c (hu c hc)).resolve_right fun heq => hno (heq ▸ hc)
    have hs' := hchars (fun c hc => mem_append_left _ hc) hs
    have ht' := hchars (fun c hc => mem_append_right _ (mem_cons_of_mem _ hc)) ht
    -- a sign in front of the step makes it negative
    have hminus : t.head? ≠ some '-' := fun hhead =>
      absurd (parseInteger_minus ht' hhead hn) (not_le.mpr hpos)
    obtain ⟨k, hk, heq, -⟩ := (parseInteger_iff ht' hminus n).mp hn
    obtain rfl : n = (k : Int) := heq
    exact .stepped (rangeText_of_tokenRange hs' hdash hrange) hk (Int.natCast_pos.mp hpos)
  · rename_i hnot
    cases hsplit
    have hchars : ∀ c ∈ token, NumberChar c := fun c hc =>
      (hspelled.chars c hc).resolve_right fun heq => hnot (heq ▸ hc)
    have hdash := hspelled.dash token (by rw [splitOn_eq_singleton hnot]; rfl)
    exact .plain (rangeText_of_tokenRange hchars hdash hrange)

theorem RangeText.slash_notMem (h : RangeText lo hi s a b) : '/' ∉ s :=
  fun hmem => not_numberChar_slash (h.numberChar '/' hmem)

theorem ItemText.positive (h : ItemText lo hi token i) : 0 < i.step := by
  cases h with
  | plain hs => exact Int.one_pos
  | stepped hs hk hpos => exact Int.natCast_pos.mpr hpos

/-- **An item of the grammar is read as what it stands for**, if its step is an `integer`. -/
theorem ItemText.reads (hbound : hi ≤ integerMax) (h : ItemText lo hi token i)
    (hwithin : i.Within lo hi) (hstep : i.step ≤ integerMax) : Reads lo hi token i := by
  refine ⟨?_, h.positive, hwithin⟩
  obtain ⟨-, hle, hlast⟩ := hwithin
  cases h with
  | plain hs =>
    exact ⟨_, if_neg hs.slash_notMem, tokenRange_of_rangeText hs hle (hlast.trans hbound)⟩
  | @stepped s t a b k hs hk hpos =>
    refine ⟨s, ?_, tokenRange_of_rangeText hs hle (hlast.trans hbound)⟩
    unfold splitStep
    rw [if_pos (by simp), splitOn_pair hs.slash_notMem (hk.notMem rfl)]
    dsimp only
    rw [hk.parseInteger_eq hstep]
    rfl

theorem ItemText.step_le {j : Item} (h : ItemText lo hi token i) (hj : Reads lo hi token j) :
    i.step ≤ integerMax := by
  obtain ⟨range, hsplit, -⟩ := hj.parts
  cases h with
  | plain hs => exact (by decide : (1 : Int) ≤ integerMax)
  | @stepped s t a b k hs hk hpos =>
    unfold splitStep at hsplit
    rw [if_pos (by simp), splitOn_pair hs.slash_notMem (hk.notMem rfl)] at hsplit
    obtain ⟨n, hn, -⟩ := map_eq_some_iff.mp hsplit
    obtain ⟨m, hm, -, hmax⟩ := (parseInteger_iff hk.numberChar
      (head_ne_of_notMem (hk.notMem rfl)) n).mp hn
    rw [← hk.value, hm.value]
    exact hmax

theorem RangeText.count_dash (h : RangeText lo hi s a b) : s.count '-' ≤ 1 := by
  cases h with
  | star => decide
  | number hs => exact (count_eq_zero.mpr (hs.notMem rfl)).trans_le (Nat.zero_le 1)
  | range hs ht =>
    rw [count_append, count_cons_self, count_eq_zero.mpr (hs.notMem rfl),
      count_eq_zero.mpr (ht.notMem rfl)]

theorem ItemText.spelled (h : ItemText lo hi token i) : Spelled token := by
  cases h with
  | plain hs =>
    refine ⟨fun c hc => .inl (hs.numberChar c hc), ?_, fun s heq => ?_⟩
    · exact (count_eq_zero.mpr hs.slash_notMem).trans_le (Nat.zero_le 1)
    · rw [splitOn_eq_singleton hs.slash_notMem] at heq
      cases heq
      exact hs.count_dash
  | @stepped s t a b k hs hk hpos =>
    refine ⟨fun c hc => ?_, ?_, fun u heq => ?_⟩
    · rcases mem_append.mp hc with hc | hc
      · exact .inl (hs.numberChar c hc)
      · exact (mem_cons.mp hc).symm.imp_left (hk.numberChar c)
    · rw [count_append, count_cons_self, count_eq_zero.mpr hs.slash_notMem,
        count_eq_zero.mpr (hk.notMem rfl)]
    · rw [splitOn_pair hs.slash_notMem (hk.notMem rfl)] at heq
      cases heq
      exact hs.count_dash

/-! ## Fields -/

/-- The text stands for the item, within the bounds. -/
def Denotes (lo hi : Int) (token : List Char) (i : Item) : Prop :=
  ItemText lo hi token i ∧ i.Within lo hi

/-- The function returns the values of the item for the text. -/
def Accepts (lo hi : Int) (token : List Char) (i : Item) : Prop := Reads lo hi token i ∧ i.Sums

/-- What stands for an item and is accepted is accepted as that item. -/
theorem Denotes.accepts {j : Item} (hbound : hi ≤ integerMax) (h : Denotes lo hi token i)
    (hj : Accepts lo hi token j) : i.step ≤ integerMax ∧ Accepts lo hi token i := by
  have hstep := h.1.step_le hj.1
  obtain rfl : i = j := (h.1.reads hbound h.2 hstep).unique hj.1
  exact ⟨hstep, hj⟩

theorem exists_of_expandTokens {lo hi : Int} :
    ∀ {tokens : List (List Char)} {values : List Int}, expandTokens lo hi tokens = some values →
      ∃ items, List.Forall₂ (Accepts lo hi) tokens items ∧
        ∀ v, v ∈ values ↔ ∃ i ∈ items, i.Has v
  | [], values, h => by
    cases h
    exact ⟨[], .nil, by simp⟩
  | token :: rest, values, h => by
    obtain ⟨first, hfirst, h⟩ := bind_eq_some_iff.mp h
    obtain ⟨others, hothers, rfl⟩ := map_eq_some_iff.mp h
    obtain ⟨i, hreads, hsums, hmem⟩ := exists_reads hfirst
    obtain ⟨items, hitems, hmems⟩ := exists_of_expandTokens hothers
    refine ⟨i :: items, .cons ⟨hreads, hsums⟩ hitems, fun v => ?_⟩
    rw [mem_append, hmem, hmems, exists_mem_cons_iff]

theorem exists_expandTokens {lo hi : Int} :
    ∀ {tokens : List (List Char)} {items : List Item}, List.Forall₂ (Accepts lo hi) tokens items →
      ∃ values, expandTokens lo hi tokens = some values ∧ ∀ v, v ∈ values ↔ ∃ i ∈ items, i.Has v
  | [], _, .nil => ⟨[], rfl, by simp⟩
  | token :: rest, i :: items, .cons hi hitems => by
    obtain ⟨first, hfirst, hmem⟩ := hi.1.exists_values hi.2
    obtain ⟨others, hothers, hmems⟩ := exists_expandTokens hitems
    refine ⟨first ++ others, ?_, fun v => ?_⟩
    · rw [expandTokens, hfirst, bind_some, hothers, map_some]
    · rw [mem_append, hmem, hmems, exists_mem_cons_iff]

theorem Reads.ne_nil (h : Reads lo hi token i) : token ≠ [] := by
  rintro rfl
  obtain ⟨range, hsplit, hrange⟩ := h.parts
  obtain rfl : [] = range := (Prod.mk.inj (Option.some.inj hsplit)).1
  cases hrange

theorem ItemText.comma_notMem (h : ItemText lo hi s i) : ',' ∉ s := by
  intro hmem
  rcases h.spelled.chars ',' hmem with hnumber | heq
  · exact not_numberChar_comma hnumber
  · exact absurd heq (by decide)

theorem exists_of_forall₂ {R : List Char → Item → Prop} {texts : List (List Char)}
    (h : List.Forall₂ R texts items) : ∀ t ∈ texts, ∃ i, R t i := by
  intro t ht
  obtain ⟨n, hn, rfl⟩ := getElem_of_mem ht
  have hn' : n < items.length := h.length_eq ▸ hn
  exact ⟨items[n], h.get hn hn'⟩

theorem exists_forall₂ {R : List Char → Item → Prop} : ∀ {texts : List (List Char)},
    (∀ t ∈ texts, ∃ i, R t i) → ∃ items, List.Forall₂ R texts items
  | [], _ => ⟨[], .nil⟩
  | t :: texts, h => by
    obtain ⟨⟨i, hi⟩, hrest⟩ := forall_mem_cons.mp h
    obtain ⟨items, hitems⟩ := exists_forall₂ hrest
    exact ⟨i :: items, .cons hi hitems⟩

theorem fieldText_iff {text : List Char} :
    FieldText lo hi text items ↔ List.Forall₂ (Denotes lo hi) (text.splitOn ',') items := by
  constructor
  · rintro ⟨⟨texts, hne, rfl, hitems⟩, hwithin⟩
    have hcomma : ∀ t ∈ texts, ',' ∉ t := fun t ht =>
      (exists_of_forall₂ hitems t ht).choose_spec.comma_notMem
    rw [splitOn_intercalate ',' hcomma hne]
    refine forall₂_iff_get.mpr ⟨hitems.length_eq, fun n hn hn' => ⟨hitems.get hn hn', ?_⟩⟩
    exact hwithin _ (getElem_mem hn')
  · intro h
    refine ⟨⟨text.splitOn ',', splitOn_ne_nil _ _, (intercalate_splitOn ',').symm,
      h.imp fun _ _ hd => hd.1⟩, fun i hi => ?_⟩
    obtain ⟨n, hn, rfl⟩ := getElem_of_mem hi
    have hn' : n < (text.splitOn ',').length := h.length_eq ▸ hn
    exact (h.get hn' hn).2

theorem pairwise_lt_sorted (values : List Int) :
    (values.dedup.insertionSort (· ≤ ·)).Pairwise (· < ·) := by
  have hsorted : (values.dedup.insertionSort (· ≤ ·)).Pairwise (· ≤ ·) :=
    pairwise_insertionSort _ _
  have hnodup : (values.dedup.insertionSort (· ≤ ·)).Nodup :=
    (perm_insertionSort _ _).nodup_iff.mpr (nodup_dedup values)
  exact (hsorted.and hnodup).imp fun h => lt_of_le_of_ne h.1 h.2

theorem eq_of_pairwise_lt {l l' : List Int} (hl : l.Pairwise (· < ·)) (hl' : l'.Pairwise (· < ·))
    (h : ∀ v, v ∈ l ↔ v ∈ l') : l = l' := by
  have hperm : l.Perm l' :=
    (perm_ext_iff_of_nodup (hl.imp ne_of_lt) (hl'.imp ne_of_lt)).mpr h
  exact hperm.eq_of_pairwise (fun a b _ _ hab hba => absurd hba (lt_asymm hab)) hl hl'

/-- The strictly increasing list of the values of items. -/
def Lists (values : List Int) (items : List Item) : Prop :=
  values.Pairwise (· < ·) ∧ ∀ v, v ∈ values ↔ ∃ i ∈ items, i.Has v

open Classical in
theorem exists_lists (hitems : ∀ i ∈ items, 0 < i.step ∧ i.Within lo hi) :
    ∃ values, Lists values items := by
  refine ⟨((List.range (hi - lo + 1).toNat).map fun k : Nat => lo + k).filter
    fun v => ∃ i ∈ items, i.Has v, ?_, fun v => ?_⟩
  · refine (pairwise_map.mpr (pairwise_lt_range.imp fun h => ?_)).filter _
    omega
  · rw [mem_filter, decide_eq_true_eq, and_iff_right_iff_imp]
    rintro ⟨i, hi', hlast, k, hk⟩
    obtain ⟨hpos, hfirst, hle, hhi⟩ := hitems i hi'
    have hnonneg := Int.mul_nonneg (Int.natCast_nonneg k) hpos.le
    exact mem_map.mpr ⟨(v - lo).toNat, mem_range.mpr (by omega), by omega⟩

/-- **What the function accepts**: a text whose items it reads within the bounds, with sums that are
integers. It returns the strictly increasing list of their values. -/
theorem cronExpandField_eq_some {text : List Char} {values : List Int} :
    cronExpandField text lo hi = some values ↔
      ∃ items, List.Forall₂ (Accepts lo hi) (text.splitOn ',') items ∧ Lists values items := by
  unfold cronExpandField
  constructor
  · intro h
    obtain ⟨all, hall, h⟩ := bind_eq_some_iff.mp h
    split at h
    · cases h
    rename_i hne
    cases h
    have htext : text ≠ [] := by
      rintro rfl
      cases hall
      exact hne rfl
    unfold tokens at hall
    rw [if_neg htext] at hall
    obtain ⟨items, hitems, hmem⟩ := exists_of_expandTokens hall
    refine ⟨items, hitems, pairwise_lt_sorted all, fun v => ?_⟩
    rw [mem_insertionSort, mem_dedup, hmem]
  · rintro ⟨items, hitems, hsorted, hmem⟩
    have htokens : tokens text = text.splitOn ',' := by
      refine if_neg fun hnil => ?_
      rw [hnil] at hitems
      obtain ⟨i, hi⟩ := exists_of_forall₂ hitems [] (by decide)
      exact hi.1.ne_nil rfl
    obtain ⟨all, hall, hmemall⟩ := exists_expandTokens hitems
    rw [htokens, hall, bind_some]
    have hsome : all ≠ [] := by
      obtain ⟨t, ht⟩ := exists_mem_of_ne_nil _ (splitOn_ne_nil ',' text)
      obtain ⟨n, hn, rfl⟩ := getElem_of_mem ht
      have hn' : n < items.length := hitems.length_eq ▸ hn
      have hwithin := (hitems.get hn hn').1.within
      exact ne_nil_of_mem ((hmemall _).mpr
        ⟨items[n], getElem_mem hn', hwithin.2.1, 0, (by simp : items[n].first = _)⟩)
    rw [if_neg hsome]
    refine congrArg some (eq_of_pairwise_lt (pairwise_lt_sorted all) hsorted fun v => ?_)
    rw [mem_insertionSort, mem_dedup, hmemall, hmem]

end MaluDb.Cron
