import MaluDb.Gateway.Outline

/-!
# One request for one idempotency key

What `submit_render` and `call` promise for an idempotency key, over every interleaving of any
number of calls (`Idempotent`). An INSERT comes after the lookup: it is `Careful` if calls are
`Serial`, that is if no other call stands between its own lookup of that key and its end.
-/

namespace MaluDb.Gateway

open MaluDb.Lib.ReadCommitted Function Txn Prompt State
open MaluDb.Prompt (Text Server)

/-! ## The promise -/

/-- A request of the account and the key, committed or in flight. -/
def Created (s : State RowType Frame) (id : ℕ) (account : Option ℕ) (key : String) : Prop :=
  (∃ row, s.db (.request id) = some row ∧ row.Has account key) ∨
    ∃ i t row, s.txns i = some t ∧ t.writes (.request id) = some (some row) ∧ row.Has account key

def AtMostOne (s : State RowType Frame) : Prop :=
  ∀ account key id id', Created s id account key → Created s id' account key → id = id'

def NoRaceFailure (s : State RowType Frame) : Prop :=
  ∀ i t, s.txns i = some t → t.loc ≠ .failed .uniqueViolation

/-- One request for a key, returned by every call, and no call that fails because of another. -/
structure Idempotent (s : State RowType Frame) : Prop where
  atMostOne : AtMostOne s
  returnsIt : ∀ i t r id key, s.txns i = some t → t.loc = .returned r id → r.key = some key →
    Created s id r.account key
  noRaceFailure : NoRaceFailure s

/-- An INSERT is only tried when there is no request of its account and key. -/
def Careful (s : State RowType Frame) (i : ℕ) (a : Act) : Prop :=
  a = .stmt → ∀ t r cacheKey original key, s.txns i = some t → t.loc = .insert r cacheKey original →
    r.key = some key → ∀ id, ¬ Created s id r.account key

/-! ## Requests -/

section

variable {S : Server} {C : State RowType Frame → ℕ → Act → Prop} {s s' : State RowType Frame}
  {t : Txn RowType Frame} {i : ℕ}

variable {id : ℕ} {key : String} {e : Effect RowType Frame}

theorem created_update {db : Rows RowType} {o : Option (Txn RowType Frame)} {account : Option ℕ}
    (h : Created ⟨db, update s.txns i o⟩ id account key) :
    (∃ row, db (.request id) = some row ∧ row.Has account key) ∨
      (∃ t row, o = some t ∧ t.writes (.request id) = some (some row) ∧ row.Has account key) ∨
      Created s id account key := by
  rcases h with h | ⟨j, t, row, ht, hrow, hhas⟩
  · exact .inl h
  refine .inr ?_
  dsimp only at ht
  by_cases hj : j = i
  · subst hj
    rw [update_self] at ht
    exact .inl ⟨t, row, ht, hrow, hhas⟩
  · rw [update_of_ne hj] at ht
    exact .inr (.inr ⟨j, t, row, ht, hrow, hhas⟩)

theorem created_of_view {row : Request} {account : Option ℕ} (ht : s.txns i = some t)
    (hrow : t.view s.db (.request id) = some row) (hhas : row.Has account key) :
    Created s id account key := by
  cases hw : t.writes (.request id) with
  | none =>
    rw [view, Writes.over_of_none hw] at hrow
    exact .inl ⟨row, hrow, hhas⟩
  | some v =>
    rw [view, Writes.over_of_some hw] at hrow
    exact .inr ⟨i, t, row, ht, hw.trans (congrArg some hrow), hhas⟩

section

variable {id : ℕ} {account : Option ℕ} {key : String}

theorem created_of_idle {db : Rows RowType} (h : Created (idle db) id account key) :
    ∃ row, db (.request id) = some row ∧ row.Has account key := by
  rcases h with h | ⟨_, _, _, h, -⟩
  · exact h
  · exact absurd h (by simp [idle])

theorem created_of_begin {l : Frame}
    (h : Created ⟨s.db, update s.txns i (some (begin l))⟩ id account key) :
    Created s id account key := by
  obtain h | ⟨_, _, ⟨⟩, ⟨⟩, -⟩ | h := created_update h
  · exact .inl h
  · exact h

theorem created_of_abort (h : Created ⟨s.db, update s.txns i none⟩ id account key) :
    Created s id account key := by
  obtain h | ⟨_, _, ⟨⟩, -⟩ | h := created_update h
  · exact .inl h
  · exact h

theorem created_of_commit (ht : s.txns i = some t)
    (h : Created ⟨t.writes.over s.db, update s.txns i none⟩ id account key) :
    Created s id account key := by
  obtain ⟨row, hrow, hhas⟩ | ⟨_, _, ⟨⟩, -⟩ | h := created_update h
  · exact created_of_view ht hrow hhas
  · exact h

end

theorem Outcome.sets_request {view : Rows RowType} {l : Frame} (h : Outcome view l e) :
    ∃ n, ∀ id row account key, e.sets (.request id) = some (some row) → row.Has account key →
      id = n ∧ ((∃ r cacheKey original, l = .insert r cacheKey original ∧ r.account = account ∧
          r.key = some key) ∨
        (∃ r, l = .succeed r id) ∧ ∃ row, view (.request id) = some row ∧ row.Has account key) := by
  cases h with
  | @inserted r cacheKey original n hid hentry =>
    refine ⟨n, fun id row account key hrow hhas => ?_⟩
    by_cases hid : id = n
    · subst hid
      have hself : some (some (newRequest r cacheKey)) = some (some row) :=
        requestWrites_self.symm.trans hrow
      cases hself
      exact ⟨rfl, .inl ⟨r, cacheKey, original, rfl, hhas⟩⟩
    · cases (requestWrites_of_ne hid).symm.trans hrow
  | @succeeded r n row' hrow' =>
    refine ⟨n, fun id row account key hrow hhas => ?_⟩
    by_cases hid : id = n
    · subst hid
      cases (Writes.single_self _ _).symm.trans hrow
      exact ⟨rfl, .inr ⟨⟨r, rfl⟩, row', hrow', hhas⟩⟩
    · have hne : Key.request id ≠ .request n := by simpa using hid
      cases (Writes.single_of_ne hne _).symm.trans hrow
  | _ => exact ⟨0, fun _ _ _ _ hrow _ => absurd hrow nofun⟩

theorem created_of_stmt (ht : s.txns i = some t) (h : Outcome (t.view s.db) t.loc e) :
    ∃ n, ∀ id account key, Created ⟨s.db, update s.txns i (some (t.exec e))⟩ id account key →
        Created s id account key ∨ id = n ∧ ∃ r cacheKey original,
          t.loc = .insert r cacheKey original ∧ r.account = account ∧ r.key = some key := by
  obtain ⟨n, hn⟩ := h.sets_request
  refine ⟨n, fun id account key hcreated => ?_⟩
  rcases created_update hcreated with h | ⟨t', row, ht', hrow, hhas⟩ | h
  · exact .inl (.inl h)
  · rw [← Option.some.inj ht'] at hrow
    cases he : e.sets (.request id) with
    | none =>
      rw [exec_writes_of_none he] at hrow
      exact .inl (.inr ⟨i, t, row, ht, hrow, hhas⟩)
    | some v =>
      rw [exec_writes_of_some he] at hrow
      obtain ⟨hid, hinsert | ⟨-, row', hrow', hhas'⟩⟩ := hn id row account key (he.trans hrow) hhas
      · exact .inr ⟨hid, hinsert⟩
      · exact .inl (created_of_view ht hrow' hhas')
  · exact .inl h

theorem created_of_duplicate (hG : Indexed s.db) (hA : Assertion s.db t)
    (h : Outcome (t.view s.db) t.loc e) (he : e.loc = .failed .uniqueViolation) :
    ∃ r cacheKey original key id, t.loc = .insert r cacheKey original ∧ r.key = some key ∧
      Created s id r.account key := by
  have hearly := writes_of_isEarly hA
  generalize hl : t.loc = l at h hearly
  cases h with
  | @follows _ l' h =>
    have he : l' = .failed .uniqueViolation := he
    subst he
    exact absurd rfl h.2.1
  | missed h => cases he
  | found h => cases he
  | @inserted r cacheKey original n hid hentry => cases original <;> cases he
  | @duplicate r cacheKey original account id key hhas hentry =>
    rw [view_of_writes_none (hearly trivial)] at hentry
    obtain ⟨row, hrow, hrowHas⟩ := hG.sound account key id hentry
    refine ⟨r, cacheKey, original, key, id, rfl, hhas.2, .inl ⟨row, hrow, ?_⟩⟩
    rw [show r.account = some account from hhas.1]
    exact hrowHas
  | @copied r id original found => cases found <;> cases he
  | succeeded hrow => cases he

theorem AtMostOne.of_created (hone : AtMostOne s)
    (h : ∀ id account key, Created s' id account key → Created s id account key) :
    AtMostOne s' := by
  intro account key id id' hid hid'
  exact hone account key id id' (h id account key hid) (h id' account key hid')

theorem AtMostOne.stmt (hone : AtMostOne s) (hc : Careful s i .stmt) (ht : s.txns i = some t)
    (h : Outcome (t.view s.db) t.loc e) :
    AtMostOne ⟨s.db, update s.txns i (some (t.exec e))⟩ := by
  obtain ⟨n, hn⟩ := created_of_stmt ht h
  intro account key id id' hid hid'
  rcases hn id account key hid with hold | ⟨rfl, r, cacheKey, original, hl, hr, hkey⟩
  · rcases hn id' account key hid' with hold' | ⟨rfl, r, cacheKey, original, hl, hr, hkey⟩
    · exact hone account key id id' hold hold'
    · exact absurd (hr ▸ hold) (hc rfl t r cacheKey original key ht hl hkey id)
  · rcases hn id' account key hid' with hold' | ⟨rfl, -⟩
    · exact absurd (hr ▸ hold') (hc rfl t r cacheKey original key ht hl hkey id')
    · rfl

theorem idempotent_step {a : Act} (hgood : Good Indexed Assertion s) (hone : AtMostOne s)
    (hfail : NoRaceFailure s) (hc : Careful s i a) (h : Step (submitProgram S) s i a s') :
    AtMostOne s' ∧ NoRaceFailure s' := by
  cases h with
  | start l hfree hl =>
    obtain ⟨c, rfl⟩ := hl
    refine ⟨hone.of_created fun id account key h => created_of_begin h, ?_⟩
    refine forall_update_txns (fun t' ht' => ?_) fun j t' _ ht' => hfail j t' ht'
    cases ht'
    exact nofun
  | stmt t e ht he hfree =>
    have houtcome := Stmt.outcome he
    refine ⟨hone.stmt hc ht houtcome, ?_⟩
    refine forall_update_txns (fun t' ht' hl => ?_) fun j t' _ ht' => hfail j t' ht'
    cases ht'
    obtain ⟨r, cacheKey, original, key, id, hl, hkey, hcreated⟩ :=
      created_of_duplicate hgood.rows (hgood.txns i t ht) houtcome hl
    exact hc rfl t r cacheKey original key ht hl hkey id hcreated
  | commit t ht hd =>
    refine ⟨hone.of_created fun id account key h => created_of_commit ht h, ?_⟩
    exact forall_update_txns (fun _ h => absurd h nofun) fun j t' _ ht' => hfail j t' ht'
  | abort t ht =>
    refine ⟨hone.of_created fun id account key h => created_of_abort h, ?_⟩
    exact forall_update_txns (fun _ h => absurd h nofun) fun j t' _ ht' => hfail j t' ht'

theorem returnsIt_of_good (hgood : Good Indexed Assertion s) {r : Resolved}
    (ht : s.txns i = some t) (hl : t.loc = .returned r id) (hkey : r.key = some key) :
    Created s id r.account key := by
  have hA := hgood.txns i t ht
  unfold Assertion at hA
  rw [hl] at hA
  rcases hA with ⟨-, hrow⟩ | ⟨row, haccount, hrowKey, hw, -⟩
  · exact .inl (hrow key hkey)
  · exact .inr ⟨i, t, row, ht, by rw [hw, requestWrites_self], haccount, hrowKey.trans hkey⟩

end

/-- The rows that runs start from: the index is in step with the table, and no key is there
twice. -/
structure Consistent (db : Rows RowType) : Prop extends Indexed db where
  once : ∀ account key id id' row row', db (.request id) = some row → row.Has account key →
    db (.request id') = some row' → row'.Has account key → id = id'

/-! ## With an account -/

section

variable {db : Rows RowType} {t : Txn RowType Frame} {id : ℕ} {row : Request} {account : ℕ}
  {key : String}

theorem Assertion.entry (hA : Assertion db t) (hrow : t.writes (.request id) = some (some row))
    (hhas : row.Has (some account) key) :
    t.writes (.entry account key) = some (some id) ∧ db (.entry account key) = none := by
  rcases hA.writes with hw | ⟨r, n, row', -, -, hw, -, hentry⟩
  · rw [hw] at hrow
    cases hrow
  rw [hw] at hrow ⊢
  by_cases hn : id = n
  · subst hn
    rw [requestWrites_self] at hrow
    cases hrow
    exact ⟨requestWrites_entry hhas, hentry account key hhas⟩
  · cases (requestWrites_of_ne hn).symm.trans hrow

end

/-! ## Calls that wait for each other -/

section

variable {S : Server} {s s' : State RowType Frame} {t t' : Txn RowType Frame} {i : ℕ}
  {account : Option ℕ} {key : String}

/-- The call has looked the key up and found nothing, or has a request of it in flight. -/
def Engaged (t : Txn RowType Frame) (account : Option ℕ) (key : String) : Prop :=
  t.loc.Pending account key ∨
    ∃ id row, t.writes (.request id) = some (some row) ∧ row.Has account key

/-- A call looks its key up only when no other call is engaged in it. -/
def Serial (s : State RowType Frame) (i : ℕ) (a : Act) : Prop :=
  a = .stmt → ∀ t r key, s.txns i = some t → t.loc = .lookup r → r.key = some key →
    ∀ j t', j ≠ i → s.txns j = some t' → ¬ Engaged t' r.account key

/-- No two calls are engaged in one key, and there is no request of a key that a call has looked up
in vain. -/
structure KeysApart (s : State RowType Frame) : Prop where
  alone : ∀ i j t t' account key, s.txns i = some t → s.txns j = some t' →
    Engaged t account key → Engaged t' account key → i = j
  absent : ∀ i t account key, s.txns i = some t → t.loc.Pending account key →
    ∀ id row, s.db (.request id) = some row → ¬ row.Has account key

variable {e : Effect RowType Frame} {db : Rows RowType}

theorem pending_of_outcome {view : Rows RowType} {l : Frame} (h : Outcome view l e)
    (hp : e.loc.Pending account key) :
    l.Pending account key ∨ ∃ r, l = .lookup r ∧ r.account = account ∧ r.key = some key ∧
      ∀ id row, view (.request id) = some row → ¬ row.Has account key := by
  cases h with
  | follows h => exact .inl (h.2.2 account key hp)
  | @missed r h =>
    obtain ⟨rfl, hkey⟩ := hp
    exact .inr ⟨r, rfl, rfl, hkey, h key hkey⟩
  | found h => exact hp.elim
  | @inserted r cacheKey original id hid hentry => cases original <;> exact hp.elim
  | duplicate hhas hentry => exact hp.elim
  | @copied r id original found => cases found <;> exact hp.elim
  | succeeded hrow => exact hp.elim

theorem engaged_of_writes {id : ℕ} {row : Request} (hA : Assertion db t)
    (h : Outcome (t.view db) t.loc e) (hrow : (t.exec e).writes (.request id) = some (some row))
    (hhas : row.Has account key) : Engaged t account key := by
  cases he : e.sets (.request id) with
  | none =>
    rw [exec_writes_of_none he] at hrow
    exact .inr ⟨id, row, hrow, hhas⟩
  | some v =>
    rw [exec_writes_of_some he] at hrow
    obtain ⟨n, hn⟩ := h.sets_request
    obtain ⟨-, ⟨r, cacheKey, original, hl, haccount, hkey⟩ | ⟨⟨r, hl⟩, row', hrow', hhas'⟩⟩ :=
      hn id row account key (he.trans hrow) hhas
    · refine .inl ?_
      rw [hl]
      exact ⟨haccount, hkey⟩
    unfold Assertion at hA
    rw [hl] at hA
    obtain ⟨own, -, -, hw, -⟩ := hA
    have hown : t.writes (.request id) = some (some own) := by rw [hw, requestWrites_self]
    rw [view, Writes.over_of_some hown] at hrow'
    exact .inr ⟨id, row', by rw [hown, hrow'], hhas'⟩

theorem engaged_of_exec (hA : Assertion db t) (h : Outcome (t.view db) t.loc e)
    (hengaged : Engaged (t.exec e) account key) :
    Engaged t account key ∨ ∃ r, t.loc = .lookup r ∧ r.account = account ∧ r.key = some key := by
  rcases hengaged with hp | ⟨id, row, hrow, hhas⟩
  · exact (pending_of_outcome h hp).imp .inl fun ⟨r, hl, hr, hkey, _⟩ => ⟨r, hl, hr, hkey⟩
  · exact .inl (engaged_of_writes hA h hrow hhas)

theorem not_engaged_begin (c : Invocation) (account : Option ℕ) (key : String) :
    ¬ Engaged (begin (.prompt c)) account key := by
  rintro (h | ⟨id, row, h, -⟩)
  · exact h
  · cases h

theorem KeysApart.update (h : KeysApart s) {o : Option (Txn RowType Frame)}
    (halone : ∀ t account key, o = some t → Engaged t account key →
      ∀ j t', j ≠ i → s.txns j = some t' → ¬ Engaged t' account key)
    (habsent : ∀ t account key, o = some t → t.loc.Pending account key →
      ∀ id row, db (.request id) = some row → ¬ row.Has account key)
    (hothers : ∀ j t account key, j ≠ i → s.txns j = some t → t.loc.Pending account key →
      ∀ id row, db (.request id) = some row → ¬ row.Has account key) :
    KeysApart ⟨db, update s.txns i o⟩ := by
  constructor
  · intro j k t t' account key ht ht' he he'
    dsimp only at ht ht'
    by_cases hj : j = i
    · subst hj
      rw [update_self] at ht
      by_contra hne
      rw [update_of_ne (Ne.symm hne)] at ht'
      exact halone t account key ht he k t' (Ne.symm hne) ht' he'
    rw [update_of_ne hj] at ht
    by_cases hk : k = i
    · subst hk
      rw [update_self] at ht'
      exact (halone t' account key ht' he' j t hj ht he).elim
    · rw [update_of_ne hk] at ht'
      exact h.alone j k t t' account key ht ht' he he'
  · intro j t account key ht hp
    dsimp only at ht
    by_cases hj : j = i
    · subst hj
      rw [update_self] at ht
      exact habsent t account key ht hp
    · rw [update_of_ne hj] at ht
      exact hothers j t account key hj ht hp

theorem KeysApart.step {a : Act} (h : KeysApart s) (hgood : Good Indexed Assertion s)
    (hc : Serial s i a) (hs : Step (submitProgram S) s i a s') : KeysApart s' := by
  cases hs with
  | start l hfree hl =>
    obtain ⟨c, rfl⟩ := hl
    refine h.update (fun t account key ht he => ?_) (fun t account key ht hp => ?_)
      fun j t account key _ ht hp => h.absent j t account key ht hp
    · cases ht
      exact (not_engaged_begin c account key he).elim
    · cases ht
      exact hp.elim
  | stmt t e ht he hfree =>
    have houtcome := Stmt.outcome he
    have hA := hgood.txns i t ht
    refine h.update (fun t' account key ht' hengaged j u hj hu hu' => ?_)
      (fun t' account key ht' hp => ?_)
      fun j t account key _ ht hp => h.absent j t account key ht hp
    · cases ht'
      rcases engaged_of_exec hA houtcome hengaged with hbefore | ⟨r, hl, rfl, hkey⟩
      · exact hj (h.alone j i u t account key hu ht hu' hbefore)
      · exact hc rfl t r key ht hl hkey j u hj hu hu'
    cases ht'
    rcases pending_of_outcome houtcome hp with hp | ⟨r, hl, -, -, hmiss⟩
    · exact h.absent i t account key ht hp
    · have hw : t.writes = .none := writes_of_isEarly hA (by rw [hl]; trivial)
      rwa [view_of_writes_none hw] at hmiss
  | commit t ht hd =>
    refine h.update (fun _ _ _ h => absurd h nofun) (fun _ _ _ h => absurd h nofun) ?_
    intro j u account key hj hu hp id row hrow hhas
    cases hw : t.writes (.request id) with
    | none =>
      rw [Writes.over_of_none hw] at hrow
      exact h.absent j u account key hu hp id row hrow hhas
    | some v =>
      rw [Writes.over_of_some hw] at hrow
      have hengaged : Engaged t account key := .inr ⟨id, row, by rw [hw, hrow], hhas⟩
      exact hj (h.alone j i u t account key hu ht (.inl hp) hengaged)
  | abort t ht =>
    exact h.update (fun _ _ _ h => absurd h nofun) (fun _ _ _ h => absurd h nofun)
      fun j t account key _ ht hp => h.absent j t account key ht hp

theorem KeysApart.careful (h : KeysApart s) (hgood : Good Indexed Assertion s) (i : ℕ) (a : Act) :
    Careful s i a := by
  intro _ t r cacheKey original key ht hl hkey id hcreated
  have hp : t.loc.Pending r.account key := by
    rw [hl]
    exact ⟨rfl, hkey⟩
  rcases hcreated with ⟨row, hrow, hhas⟩ | ⟨j, u, row, hu, hrow, hhas⟩
  · exact h.absent i t r.account key ht hp id row hrow hhas
  have hij := h.alone j i u t r.account key hu ht (.inr ⟨id, row, hrow, hhas⟩) (.inl hp)
  subst hij
  cases ht.symm.trans hu
  rw [writes_of_isEarly (hgood.txns j t ht) (by rw [hl]; trivial)] at hrow
  cases hrow

/-- **When a call looks its key up only while no other one is engaged in it, every INSERT is
careful.** -/
theorem careful_of_serial (hdb : Indexed db)
    (h : Reach (submitProgram S) Serial (idle db) s) :
    Reach (submitProgram S) Careful (idle db) s := by
  have hinv := h.induct (I := fun s => Reach (submitProgram S) Careful (idle db) s ∧
      Good Indexed Assertion s ∧ KeysApart s)
    (fun s i a s' ⟨hr, hgood, hapart⟩ hc hs => ?_) ⟨.refl, good_idle hdb, ?_⟩
  · exact hinv.1
  · exact ⟨.step hr (hapart.careful hgood i a) hs, (submitOutline S Serial).step hgood hc hs,
      hapart.step hgood hc hs⟩
  · exact ⟨fun _ _ _ _ _ _ h => absurd h (by simp [idle]),
      fun _ _ _ _ h => absurd h (by simp [idle])⟩

end

/-! ## Runs, and the main result -/

section

/-- A call of `submit_render` with a key, for a prompt with an account or without one. -/
def keyedCall : Invocation :=
  ⟨.submitRender 1, "model", none, none, 30000, "off", some "k", 0⟩

def keyedPrompt (account : Option ℕ) : PromptRow := ⟨1, account, none, none, [], []⟩

def keyedResolved (account : Option ℕ) : Resolved := ⟨keyedCall, keyedPrompt account, 1, account⟩

def keyedRequest (account : Option ℕ) : Request := newRequest (keyedResolved account) none

/-- No requests. -/
def noRows : Rows RowType := fun _ => none

theorem consistent_noRows : Consistent noRows where
  sound _ _ _ h := absurd h nofun
  complete _ _ _ _ h := absurd h nofun
  once _ _ _ _ _ _ h := absurd h nofun

variable {S : Server} {db : Rows RowType} {account : Option ℕ} {t : Txn RowType Frame} {id : ℕ}

theorem alone_lookedUp
    (hmiss : ∀ id row, db (.request id) = some row → ¬ row.Has account "k") :
    ∃ t, Alone (submitProgram S) db (begin (.prompt keyedCall)) t ∧
      t.loc = .insert (keyedResolved account) none none ∧ t.writes = .none ∧ t.locks = ∅ := by
  have hfinds : ∀ key, (keyedResolved account).key = some key →
      Finds db (keyedResolved account).account key none := by
    intro key hkey
    cases hkey
    exact hmiss
  have hprompt : Alone (submitProgram S) db (begin (.prompt keyedCall)) _ :=
    Alone.refl.stmt (.prompt (some (keyedPrompt account)))
  have haccount := ((hprompt.stmt (.status "approved")).stmt (.modelAlias (some 1))).stmt
    (.account none none)
  have hbudget := ((haccount.stmt (.lookup none hfinds)).stmt (.cache none)).stmt (.budget none)
  refine ⟨_, hbudget, rfl, rfl, ?_⟩
  simp [exec, Effect.read, Effect.write, Writes.none, begin]

theorem alone_insert (hl : t.loc = .insert (keyedResolved account) none none)
    (hw : t.writes = .none) (hid : db (.request id) = none)
    (hentry : ∀ a key, (keyedRequest account).Has (some a) key → db (.entry a key) = none) :
    ∃ t', Alone (submitProgram S) db t t' ∧ t'.loc = .returned (keyedResolved account) id ∧
      t'.writes = requestWrites id (keyedRequest account) := by
  have hstmt : (submitProgram S).stmt ∅ (t.view db) t.loc (.write
      (requestWrites id (keyedRequest account)) (.returned (keyedResolved account) id)) := by
    rw [hl, view_of_writes_none hw]
    have htimeout : (0 : ℤ) < 30000 := by decide
    exact .insert id htimeout hid hentry
  refine ⟨_, .stmt .refl hstmt, rfl, ?_⟩
  rw [exec_writes, hw]
  exact Writes.none_andThen _

theorem not_has_noRows (account : Option ℕ) (id : ℕ) (row : Request)
    (h : noRows (.request id) = some row) : ¬ row.Has account "k" :=
  absurd h nofun

theorem alone_created (S : Server) (account : Option ℕ) (id : ℕ) :
    ∃ t, Alone (submitProgram S) noRows (begin (.prompt keyedCall)) t ∧
      t.loc = .returned (keyedResolved account) id ∧
      t.writes = requestWrites id (keyedRequest account) := by
  obtain ⟨t, halone, hl, hw, -⟩ := alone_lookedUp (S := S) (not_has_noRows account)
  obtain ⟨t', halone', hl', hw'⟩ : ∃ t', Alone (submitProgram S) noRows t t' ∧
      t'.loc = .returned (keyedResolved account) id ∧
      t'.writes = requestWrites id (keyedRequest account) :=
    alone_insert hl hw rfl fun _ _ _ => rfl
  exact ⟨t', halone.trans halone', hl', hw'⟩

theorem reach_overtaken (S : Server) (account : Option ℕ) :
    ∃ t : Txn RowType Frame, t.loc = .insert (keyedResolved account) none none ∧
      t.writes = .none ∧ Reach (submitProgram S) AnyStep (idle noRows)
        ⟨(requestWrites 2 (keyedRequest account)).over noRows,
          update (fun _ => none) 0 (some t)⟩ := by
  obtain ⟨t, halone, hl, hw, hlocks⟩ := alone_lookedUp (S := S) (not_has_noRows account)
  obtain ⟨t₁, halone₁, hl₁, hw₁⟩ := alone_created S account 2
  refine ⟨t, hl, hw, ?_⟩
  have hfirst : Reach (submitProgram S) AnyStep (idle noRows) _ :=
    .begin_alone (i := 0) (free_anyStep _ _) (quiet_idle noRows 0) rfl ⟨keyedCall, rfl⟩ halone
  have hquiet : State.Quiet ⟨noRows, update (fun _ => none) 0 (some t)⟩ 1 := by
    refine quiet_of_locks fun j t' _ ht' => ?_
    dsimp only at ht'
    by_cases hj : j = 0
    · subst hj
      cases ht'
      exact hlocks
    · rw [update_of_ne hj] at ht'
      cases ht'
  have hsecond : Reach (submitProgram S) AnyStep _ _ :=
    .call_alone (free_anyStep _ _) hquiet rfl ⟨keyedCall, rfl⟩ halone₁ ⟨_, _, hl₁⟩
  rw [hw₁] at hsecond
  exact hfirst.trans hsecond

/-- **With an account the index keeps a second request out**, whatever the interleaving. -/
theorem account_atMostOne (S : Server) {s : State RowType Frame} (hdb : Indexed db)
    (h : Reach (submitProgram S) AnyStep (idle db) s) {account id' : ℕ} {key : String}
    (hid : Created s id (some account) key) (hid' : Created s id' (some account) key) :
    id = id' := by
  have hgood := (submitOutline S AnyStep).reach (good_idle hdb) h
  have hmixed : ∀ {n n' i t row row'}, s.db (.request n) = some row → row.Has (some account) key →
      s.txns i = some t → t.writes (.request n') = some (some row') →
      row'.Has (some account) key → False := by
    intro n n' i t row row' hrow hhas ht hrow' hhas'
    have hnone := ((hgood.txns i t ht).entry hrow' hhas').2
    rw [hgood.rows.complete account key n row hrow hhas] at hnone
    cases hnone
  rcases hid with ⟨row, hrow, hhas⟩ | ⟨i, t, row, ht, hrow, hhas⟩
  · rcases hid' with ⟨row', hrow', hhas'⟩ | ⟨j, t', row', ht', hrow', hhas'⟩
    · have hentry := hgood.rows.complete account key id row hrow hhas
      have hentry' := hgood.rows.complete account key id' row' hrow' hhas'
      exact Option.some.inj (hentry.symm.trans hentry')
    · exact (hmixed hrow hhas ht' hrow' hhas').elim
  rcases hid' with ⟨row', hrow', hhas'⟩ | ⟨j, t', row', ht', hrow', hhas'⟩
  · exact (hmixed hrow' hhas' ht hrow hhas).elim
  -- both calls have written the entry, and only one of them can hold its lock
  have hentry := ((hgood.txns i t ht).entry hrow hhas).1
  have hentry' := ((hgood.txns j t' ht').entry hrow' hhas').1
  by_cases hij : i = j
  · subst hij
    cases ht.symm.trans ht'
    exact Option.some.inj (Option.some.inj (hentry.symm.trans hentry'))
  · refine (hgood.exclusive i j t t' hij ht ht' (.entry account key) ?_ ?_).elim
    · exact t.covers _ (by rw [hentry]; simp)
    · exact t'.covers _ (by rw [hentry']; simp)

/-- One call has made its request while another stands before its INSERT. -/
theorem account_atMostOne_overtaken :
    ∃ s, Reach (submitProgram plainServer) AnyStep (idle noRows) s ∧ Created s 2 (some 7) "k" ∧
      ∀ id, Created s id (some 7) "k" → id = 2 := by
  obtain ⟨t, -, -, hreach⟩ := reach_overtaken plainServer (some 7)
  refine ⟨_, hreach, .inl ⟨keyedRequest (some 7), rfl, rfl, rfl⟩, fun id h => ?_⟩
  exact account_atMostOne _ consistent_noRows.toIndexed hreach h
    (.inl ⟨keyedRequest (some 7), rfl, rfl, rfl⟩)

theorem free_serial_idle (db : Rows RowType) (i : ℕ) : Free Serial (idle db) i := by
  intro db' o a _ t r key _ _ _ j t' hj ht'
  dsimp only at ht'
  rw [update_of_ne hj] at ht'
  cases ht'

theorem alone_returned {row : Request} (hrow : db (.request id) = some row)
    (hhas : row.Has account "k")
    (honly : ∀ id' row', db (.request id') = some row' → row'.submittedAt = row.submittedAt) :
    ∃ t, Alone (submitProgram S) db (begin (.prompt keyedCall)) t ∧
      t.loc = .returned (keyedResolved account) id := by
  have hfinds : ∀ key, (keyedResolved account).key = some key →
      Finds db (keyedResolved account).account key (some id) := by
    intro key hkey
    cases hkey
    exact ⟨row, hrow, hhas, fun id' row' h _ => (honly id' row' h).ge⟩
  have hprompt : Alone (submitProgram S) db (begin (.prompt keyedCall)) _ :=
    Alone.refl.stmt (.prompt (some (keyedPrompt account)))
  have haccount := ((hprompt.stmt (.status "approved")).stmt (.modelAlias (some 1))).stmt
    (.account none none)
  exact ⟨_, haccount.stmt (.lookup (some id) hfinds), rfl⟩

/-- **In every run whose INSERTs are only tried when there is no request of their account and key,
there is one request for a key, every call returns its id, and none fails because of another.** -/
theorem idempotent_of_careful (S : Server) {db : Rows RowType} (hdb : Consistent db)
    {s : State RowType Frame} (h : Reach (submitProgram S) Careful (idle db) s) :
    Idempotent s := by
  have hinv : Good Indexed Assertion s ∧ AtMostOne s ∧ NoRaceFailure s := by
    refine h.induct (I := fun s => Good Indexed Assertion s ∧ AtMostOne s ∧ NoRaceFailure s)
      (fun s i a s' ⟨hgood, hone, hfail⟩ hc hs => ?_) ⟨good_idle hdb.toIndexed, ?_, ?_⟩
    · exact ⟨(submitOutline S Careful).step hgood hc hs, idempotent_step hgood hone hfail hc hs⟩
    · intro account key id id' hid hid'
      obtain ⟨row, hrow, hhas⟩ := created_of_idle hid
      obtain ⟨row', hrow', hhas'⟩ := created_of_idle hid'
      exact hdb.once account key id id' row row' hrow hhas hrow' hhas'
    · exact fun _ _ h => absurd h (by simp [idle])
  obtain ⟨hgood, hone, hfail⟩ := hinv
  exact ⟨hone, fun i t r id key ht hl hkey => returnsIt_of_good hgood ht hl hkey, hfail⟩

/-- A second call after the first one returns the request of the first one. -/
theorem idempotent_secondCall :
    ∃ s t, Reach (submitProgram plainServer) Careful (idle noRows) s ∧
      s.txns 0 = some t ∧ t.loc = .returned (keyedResolved (some 7)) 2 ∧ Idempotent s := by
  obtain ⟨t₁, halone₁, hl₁, hw₁⟩ := alone_created plainServer (some 7) 2
  have hfirst : Reach (submitProgram plainServer) Serial (idle noRows)
      (idle (t₁.writes.over noRows)) :=
    .call_alone (i := 0) (t := t₁) (free_serial_idle _ _) (quiet_idle noRows 0) rfl
      ⟨keyedCall, rfl⟩ halone₁ ⟨_, _, hl₁⟩
  rw [hw₁] at hfirst
  have hrows : ∀ id row, (requestWrites 2 (keyedRequest (some 7))).over noRows (.request id)
      = some row → row = keyedRequest (some 7) := by
    intro id row hrow
    by_cases hid : id = 2
    · subst hid
      exact (Option.some.inj hrow).symm
    · rw [Writes.over_of_none (requestWrites_of_ne hid)] at hrow
      cases hrow
  obtain ⟨t, halone, hl⟩ := alone_returned (S := plainServer)
    (Writes.over_of_some requestWrites_self noRows) ⟨rfl, rfl⟩
    fun id row hrow => congrArg Request.submittedAt (hrows id row hrow)
  have hsecond : Reach (submitProgram plainServer) Serial _ _ :=
    .begin_alone (i := 0) (free_serial_idle _ _) (quiet_idle _ 0) rfl ⟨keyedCall, rfl⟩ halone
  have hreach := careful_of_serial consistent_noRows.toIndexed (hfirst.trans hsecond)
  exact ⟨_, t, hreach, rfl, hl, idempotent_of_careful _ consistent_noRows hreach⟩

/-- **Two calls without an account both create a request; with an account, one of them fails.** -/
theorem idempotency_race :
    (∃ s, Reach (submitProgram plainServer) AnyStep (idle noRows) s ∧ ¬ AtMostOne s) ∧
    ∃ s, Reach (submitProgram plainServer) AnyStep (idle noRows) s ∧
      ¬ NoRaceFailure s := by
  constructor
  · obtain ⟨t, hl, hw, hreach⟩ := reach_overtaken plainServer none
    have hid : (requestWrites 2 (keyedRequest none)).over noRows (.request 1) = none := rfl
    obtain ⟨t', halone, hl', hw'⟩ := alone_insert (S := plainServer) hl hw hid
      fun a key hhas => absurd hhas.1 nofun
    refine ⟨_, hreach.trans (.commit_alone (i := 0) (free_anyStep _ _)
      ((quiet_idle noRows 0).update _ _) rfl halone ⟨_, _, hl'⟩), fun hone => ?_⟩
    have htwo := hone none "k" 1 2 (.inl ⟨keyedRequest none, by rw [hw']; rfl, rfl, rfl⟩)
      (.inl ⟨keyedRequest none, by rw [hw']; rfl, rfl, rfl⟩)
    exact absurd htwo (by decide)
  obtain ⟨t, hl, hw, hreach⟩ := reach_overtaken plainServer (some 7)
  have hentry : (requestWrites 2 (keyedRequest (some 7))).over noRows (.entry 7 "k") = some 2 :=
    Writes.over_of_some (requestWrites_entry ⟨rfl, rfl⟩) noRows
  have hstmt : (submitProgram plainServer).stmt ∅
      (t.view ((requestWrites 2 (keyedRequest (some 7))).over noRows)) t.loc
      (.read (.failed .uniqueViolation)) := by
    rw [hl, view_of_writes_none hw]
    exact .duplicate ⟨rfl, rfl⟩ hentry
  refine ⟨_, hreach.trans (.alone (i := 0) (free_anyStep _ _)
    ((quiet_idle noRows 0).update _ _) rfl (.stmt .refl hstmt)), fun hfail => ?_⟩
  exact hfail 0 _ rfl rfl

end

end MaluDb.Gateway
