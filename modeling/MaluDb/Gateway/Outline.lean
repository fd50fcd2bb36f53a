import MaluDb.Gateway.Submit

/-!
# What a call to the model gateway has done

`Outcome` is the inversion of `Stmt`: the steps that look requests up or write them, and all others
as one case (`Follows`).
-/

namespace MaluDb.Gateway

open MaluDb.Lib.ReadCommitted
open MaluDb.Prompt (Text Server)

/-! ## Committed rows and running calls -/

/-- The index has an entry for each request with an account and a key, and no other. -/
structure Indexed (db : Rows RowType) : Prop where
  sound : ∀ account key id, db (.entry account key) = some id →
    ∃ row, db (.request id) = some row ∧ row.Has (some account) key
  complete : ∀ account key id row, db (.request id) = some row → row.Has (some account) key →
    db (.entry account key) = some id

/-- The call has inserted a request, which is not committed yet. -/
def Inserted (db : Rows RowType) (t : Txn RowType Frame) (r : Resolved) (id : ℕ) : Prop :=
  ∃ row : Request, row.accountId = r.account ∧ row.idempotencyKey = r.key ∧
    t.writes = requestWrites id row ∧ db (.request id) = none ∧
    ∀ account key, row.Has (some account) key → db (.entry account key) = none

def Assertion (db : Rows RowType) (t : Txn RowType Frame) : Prop :=
  match t.loc with
  | .returned r id =>
    (t.writes = .none ∧ ∀ key, r.key = some key →
      ∃ row, db (.request id) = some row ∧ row.Has r.account key) ∨ Inserted db t r id
  | .cachedResponse r id _ | .succeed r id => Inserted db t r id
  | .failed _ => t.writes = .none ∨ ∃ r id, Inserted db t r id
  | _ => t.writes = .none

def Frame.IsEarly : Frame → Prop
  | .returned .. | .cachedResponse .. | .succeed .. | .failed _ => False
  | _ => True

def Frame.IsBenign : Frame → Prop
  | .failed e => e ≠ .uniqueViolation
  | l => l.IsEarly

/-- The call stands between a lookup that found nothing and its INSERT. -/
def Frame.Pending : Frame → Option ℕ → String → Prop
  | .cache r, a, k | .budget r _, a, k | .insert r _ _, a, k => r.account = a ∧ r.key = some k
  | _, _, _ => False

/-! ## What a statement can do -/

def Follows (l l' : Frame) : Prop :=
  l.IsEarly ∧ l'.IsBenign ∧ ∀ account key, l'.Pending account key → l.Pending account key

section

variable (c : Invocation) (p : PromptRow)

theorem follows_afterPrompt (answer : Option PromptRow) :
    Follows (.prompt c) (afterPrompt c answer) := by
  refine ⟨trivial, ?_⟩
  unfold afterPrompt
  split
  · exact ⟨nofun, fun _ _ h => h.elim⟩
  · split <;> exact ⟨by first | trivial | exact nofun, fun _ _ h => h.elim⟩

theorem follows_afterStatus (status : Option String) :
    Follows (.status c p) (afterStatus c p status) := by
  refine ⟨trivial, ?_⟩
  unfold afterStatus
  split
  · split
    · exact ⟨nofun, fun _ _ h => h.elim⟩
    · exact ⟨trivial, fun _ _ h => h.elim⟩
  · exact ⟨trivial, fun _ _ h => h.elim⟩

theorem follows_afterAlias (answer : Option ℕ) :
    Follows (.modelAlias c p) (afterAlias c p answer) := by
  cases answer with
  | none => exact ⟨trivial, nofun, fun _ _ h => h.elim⟩
  | some aliasId => exact ⟨trivial, trivial, fun _ _ h => h.elim⟩

theorem follows_afterAccount (aliasId : ℕ) (named current : Option ℕ) :
    Follows (.account c p aliasId) (afterAccount c p aliasId named current) := by
  refine ⟨trivial, ?_⟩
  unfold afterAccount
  split <;> exact ⟨by first | trivial | exact nofun, fun _ _ h => h.elim⟩

end

theorem follows_afterCache (S : Server) (r : Resolved) (cached : Option ℕ) :
    Follows (.cache r) (afterCache S r cached) := by
  refine ⟨trivial, ?_⟩
  unfold afterCache
  split
  · exact ⟨trivial, fun _ _ h => h⟩
  split
  · exact ⟨nofun, fun _ _ h => h.elim⟩
  split
  · split
    · exact ⟨trivial, fun _ _ h => h⟩
    · split
      · exact ⟨nofun, fun _ _ h => h.elim⟩
      · exact ⟨trivial, fun _ _ h => h⟩
  · exact ⟨trivial, fun _ _ h => h⟩

theorem follows_afterBudget (r : Resolved) (cacheKey : Option Text) (exceeded : Option String) :
    Follows (.budget r cacheKey) (afterBudget r cacheKey exceeded) := by
  cases exceeded with
  | none => exact ⟨trivial, trivial, fun _ _ h => h⟩
  | some message => exact ⟨trivial, nofun, fun _ _ h => h.elim⟩

inductive Outcome (view : Rows RowType) : Frame → Effect RowType Frame → Prop
  | follows {l l' : Frame} (h : Follows l l') : Outcome view l (.read l')
  | missed {r : Resolved}
    (h : ∀ key, r.key = some key → ∀ id row, view (.request id) = some row →
      ¬ row.Has r.account key) : Outcome view (.lookup r) (.read (.cache r))
  | found {r : Resolved} {id : ℕ}
    (h : ∀ key, r.key = some key → ∃ row, view (.request id) = some row ∧ row.Has r.account key) :
    Outcome view (.lookup r) (.read (.returned r id))
  | inserted {r : Resolved} {cacheKey : Option Text} {original : Option ℕ} (id : ℕ)
    (hid : view (.request id) = none)
    (hentry : ∀ account key, (newRequest r cacheKey).Has (some account) key →
      view (.entry account key) = none) :
    Outcome view (.insert r cacheKey original)
      (.write (requestWrites id (newRequest r cacheKey)) (afterInsert r id original))
  | duplicate {r : Resolved} {cacheKey : Option Text} {original : Option ℕ} {account id : ℕ}
    {key : String} (hhas : (newRequest r cacheKey).Has (some account) key)
    (hentry : view (.entry account key) = some id) :
    Outcome view (.insert r cacheKey original) (.read (.failed .uniqueViolation))
  | copied {r : Resolved} {id original : ℕ} (found : Bool) :
    Outcome view (.cachedResponse r id original) (.read (afterCachedResponse r id original found))
  | succeeded {r : Resolved} {id : ℕ} {row : Request} (hrow : view (.request id) = some row) :
    Outcome view (.succeed r id)
      (.write (.single (.request id) (some { row with succeeded := true })) (.returned r id))

theorem Stmt.outcome {S : Server} {view : Rows RowType} {l : Frame} {e : Effect RowType Frame}
    (h : Stmt S view l e) : Outcome view l e := by
  cases h with
  | prompt answer => exact .follows (follows_afterPrompt _ answer)
  | status status => exact .follows (follows_afterStatus _ _ status)
  | modelAlias answer => exact .follows (follows_afterAlias _ _ answer)
  | account named current => exact .follows (follows_afterAccount _ _ _ named current)
  | @lookup r existing h =>
    unfold afterLookup
    cases hkey : r.key with
    | none => exact .missed fun key h => absurd (hkey.symm.trans h) nofun
    | some key =>
      have h := h key hkey
      have honly : ∀ key', r.key = some key' → key' = key := fun key' h =>
        Option.some.inj (h.symm.trans hkey)
      cases existing with
      | none => exact .missed fun key' hkey' => honly key' hkey' ▸ h
      | some id =>
        obtain ⟨row, hrow, hhas, -⟩ := h
        exact .found fun key' hkey' => ⟨row, hrow, honly key' hkey' ▸ hhas⟩
  | cache cached => exact .follows (follows_afterCache S _ cached)
  | budget exceeded => exact .follows (follows_afterBudget _ _ exceeded)
  | insert id htimeout hid hentry => exact .inserted id hid hentry
  | duplicate hhas hentry => exact .duplicate hhas hentry
  | badTimeout htimeout => exact .follows ⟨trivial, nofun, fun _ _ h => h.elim⟩
  | cachedResponse found => exact .copied found
  | succeed hrow => exact .succeeded hrow

/-! ## The outline -/

section

variable {db : Rows RowType} {t t' : Txn RowType Frame} {r : Resolved} {id : ℕ} {row : Request}

theorem writes_of_isEarly (hA : Assertion db t) (hl : t.loc.IsEarly) : t.writes = .none := by
  unfold Assertion at hA
  cases h : t.loc <;> rw [h] at hl hA
  case returned | cachedResponse | succeed | failed => exact hl.elim
  all_goals exact hA

theorem assertion_of_isBenign (hl : t.loc.IsBenign) (hw : t.writes = .none) : Assertion db t := by
  unfold Assertion
  cases h : t.loc <;> rw [h] at hl
  case returned | cachedResponse | succeed => exact hl.elim
  case failed => exact .inl hw
  all_goals exact hw

theorem Assertion.writes (hA : Assertion db t) :
    t.writes = .none ∨ ∃ r id, Inserted db t r id := by
  unfold Assertion at hA
  cases h : t.loc <;> rw [h] at hA
  case returned r id => exact hA.imp And.left fun h => ⟨r, id, h⟩
  case cachedResponse r id original => exact .inr ⟨r, id, hA⟩
  case succeed r id => exact .inr ⟨r, id, hA⟩
  case failed e => exact hA
  all_goals exact .inl hA

theorem view_of_writes_none (hw : t.writes = .none) (db : Rows RowType) : t.view db = db := by
  unfold Txn.view
  rw [hw, Writes.none_over]

@[simp] theorem requestWrites_self : requestWrites id row (.request id) = some (some row) :=
  if_pos rfl

theorem requestWrites_of_ne {id' : ℕ} (h : id' ≠ id) :
    requestWrites id row (.request id') = none :=
  if_neg h

theorem requestWrites_entry {account : ℕ} {key : String} (h : row.Has (some account) key) :
    requestWrites id row (.entry account key) = some (some id) :=
  if_pos h

theorem requestWrites_no_entry {account : ℕ} {key : String} (h : ¬ row.Has (some account) key) :
    requestWrites id row (.entry account key) = none :=
  if_neg h

theorem Inserted.stable (h : Inserted db t r id) (hapart : Apart t.locks t'.locks) :
    Inserted (t'.writes.over db) t r id := by
  obtain ⟨row, haccount, hkey, hw, hid, hentry⟩ := h
  refine ⟨row, haccount, hkey, hw, ?_, fun account key hhas => ?_⟩
  · rwa [t.over_of_apart hapart (by rw [hw, requestWrites_self]; simp)]
  · rw [t.over_of_apart hapart (by rw [hw, requestWrites_entry hhas]; simp)]
    exact hentry account key hhas

theorem Indexed.insert (h : Indexed db) (hid : db (.request id) = none)
    (hentry : ∀ account key, row.Has (some account) key → db (.entry account key) = none) :
    Indexed ((requestWrites id row).over db) := by
  constructor
  · intro account key id' hid'
    by_cases hhas : row.Has (some account) key
    · rw [Writes.over_of_some (requestWrites_entry hhas)] at hid'
      cases hid'
      exact ⟨row, Writes.over_of_some requestWrites_self db, hhas⟩
    rw [Writes.over_of_none (requestWrites_no_entry hhas)] at hid'
    obtain ⟨row', hrow', hhas'⟩ := h.sound account key id' hid'
    have hne : id' ≠ id := by
      rintro rfl
      rw [hid] at hrow'
      cases hrow'
    exact ⟨row', (Writes.over_of_none (requestWrites_of_ne hne) db).trans hrow', hhas'⟩
  intro account key id' row' hrow' hhas'
  by_cases hne : id' = id
  · subst hne
    rw [Writes.over_of_some requestWrites_self] at hrow'
    cases hrow'
    exact Writes.over_of_some (requestWrites_entry hhas') db
  rw [Writes.over_of_none (requestWrites_of_ne hne)] at hrow'
  have hold := h.complete account key id' row' hrow' hhas'
  have hno : ¬ row.Has (some account) key := fun hhas => by
    rw [hentry account key hhas] at hold
    cases hold
  rwa [Writes.over_of_none (requestWrites_no_entry hno)]

theorem requestWrites_andThen (row row' : Request) (haccount : row'.accountId = row.accountId)
    (hkey : row'.idempotencyKey = row.idempotencyKey) :
    (requestWrites id row).andThen (.single (.request id) (some row')) = requestWrites id row' := by
  funext k
  cases k with
  | request id' =>
    by_cases h : id' = id
    · subst h
      rw [Writes.andThen_of_some (Writes.single_self _ _), requestWrites_self]
    · rw [Writes.andThen_of_none (Writes.single_of_ne (by simpa using h) _), requestWrites_of_ne h,
        requestWrites_of_ne h]
  | entry account key =>
    have hne : Key.entry account key ≠ .request id := nofun
    rw [Writes.andThen_of_none (Writes.single_of_ne hne _)]
    exact if_congr (by simp only [Request.Has, haccount, hkey]) rfl rfl

theorem assertion_exec {e : Effect RowType Frame} (hA : Assertion db t)
    (h : Outcome (t.view db) t.loc e) : Assertion db (t.exec e) := by
  have hearly := writes_of_isEarly hA
  unfold Assertion at hA
  generalize hl : t.loc = l at h hA hearly
  cases h with
  | follows h => exact assertion_of_isBenign h.2.1 (hearly h.1)
  | missed h => exact hearly trivial
  | found h =>
    rw [view_of_writes_none (hearly trivial)] at h
    exact .inl ⟨hearly trivial, h⟩
  | @inserted r cacheKey original id hid hentry =>
    have hw := hearly trivial
    rw [view_of_writes_none hw] at hid hentry
    have hins : Inserted db (t.exec (.write (requestWrites id (newRequest r cacheKey))
        (afterInsert r id original))) r id := by
      refine ⟨newRequest r cacheKey, rfl, rfl, ?_, hid, hentry⟩
      rw [Txn.exec_writes, hw]
      exact Writes.none_andThen _
    cases original with
    | none => exact .inr hins
    | some original => exact hins
  | duplicate hhas hentry => exact .inl (hearly trivial)
  | @copied r id original found =>
    cases found with
    | false => exact .inr ⟨r, id, hA⟩
    | true => exact hA
  | @succeeded r id row hrow =>
    obtain ⟨row', haccount, hkey, hw, hid, hentry⟩ := hA
    have hrow' : row = row' := by
      rw [Txn.view, Writes.over_of_some (by rw [hw, requestWrites_self])] at hrow
      exact (Option.some.inj hrow).symm
    subst hrow'
    refine .inr ⟨{ row with succeeded := true }, haccount, hkey, ?_, hid, hentry⟩
    rw [Txn.exec_writes, hw]
    exact requestWrites_andThen row _ rfl rfl

/-- **What holds in every run**: the index is in step with the table, and each running call has
written nothing, or one request that is not there yet. -/
theorem submitOutline (S : Server) (C : State RowType Frame → ℕ → Act → Prop) :
    Outline (submitProgram S) C Indexed Assertion where
  start db l _ hl := by
    obtain ⟨c, rfl⟩ := hl
    rfl
  stmt s i t e _ _ hA _ he := assertion_exec hA he.outcome
  commit db t hG hA hd := by
    obtain ⟨r, id, hl⟩ := hd
    rcases hA.writes with hw | ⟨r, id, row, -, -, hw, hid, hentry⟩
    · rwa [hw, Writes.none_over]
    · rw [hw]
      exact hG.insert hid hentry
  stable db t t' hG hA hA' hd hapart := by
    rcases hA'.writes with hw | ⟨r', id', row', -, -, hw, hid', hentry'⟩
    · rwa [hw, Writes.none_over]
    unfold Assertion at hA ⊢
    cases h : t.loc <;> rw [h] at hA
    case returned r id =>
      refine hA.imp (fun ⟨hnone, hrow⟩ => ⟨hnone, fun key hkey => ?_⟩) (·.stable hapart)
      obtain ⟨row, hrow, hhas⟩ := hrow key hkey
      have hne : id ≠ id' := by
        rintro rfl
        rw [hid'] at hrow
        cases hrow
      exact ⟨row, by rwa [hw, Writes.over_of_none (requestWrites_of_ne hne)], hhas⟩
    case cachedResponse r id original => exact hA.stable hapart
    case succeed r id => exact hA.stable hapart
    case failed e => exact hA.imp id fun ⟨r, id, h⟩ => ⟨r, id, h.stable hapart⟩
    all_goals exact hA

end

end MaluDb.Gateway
