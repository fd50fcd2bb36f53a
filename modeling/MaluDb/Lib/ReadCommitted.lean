import Mathlib.Data.Set.Basic

/-!
# Transactions under READ COMMITTED

Interleavings of transactions, one statement at a time, as PostgreSQL runs them at its default
isolation level.

* A running transaction has a local state (where its program stands and its variables), the row
  versions it has written and the row locks it holds. It sees the committed rows with its own
  writes over them, as they are when the statement starts.
* A statement that writes or locks a row waits while another transaction holds the row's lock;
  in the model it is not enabled. Locks are held to the end of the transaction.
* A transaction can abort at any time, which covers a raised error, and commits when its program
  is done.
-/

namespace MaluDb.Lib.ReadCommitted

open Function

variable {K : Type} {V : K → Type} {L : Type}

/-- The rows of a database: `none` where there is no row. -/
abbrev Rows (V : K → Type) := (k : K) → Option (V k)

/-- Row versions written and not committed: `none` where nothing is written, `some none` for a
deleted row. -/
abbrev Writes (V : K → Type) := (k : K) → Option (Option (V k))

/-- The rows `db` with the writes `w` over them. -/
def Writes.over (w : Writes V) (db : Rows V) : Rows V := fun k => (w k).getD (db k)

/-- No writes. -/
def Writes.none : Writes V := fun _ => Option.none

/-- The writes `w` followed by the writes `e`. -/
def Writes.andThen (w e : Writes V) : Writes V := fun k => (e k).or (w k)

/-- The one write of version `v` of row `k`. -/
def Writes.single [DecidableEq K] (k : K) (v : Option (V k)) : Writes V :=
  update Writes.none k (some v)

/-- No row is in both sets. -/
def Apart (ks ks' : Set K) : Prop := ∀ k, k ∈ ks → k ∉ ks'

theorem Apart.symm {ks ks' : Set K} (h : Apart ks ks') : Apart ks' ks :=
  fun k hk hk' => h k hk' hk

structure Effect (V : K → Type) (L : Type) where
  loc : L
  sets : Writes V
  locks : Set K
  covers : ∀ k, sets k ≠ Option.none → k ∈ locks

/-- A statement that writes `sets`, locking the rows it writes. -/
def Effect.write (sets : Writes V) (l : L) : Effect V L :=
  ⟨l, sets, {k | sets k ≠ Option.none}, fun _ h => h⟩

def Effect.read (l : L) : Effect V L := Effect.write Writes.none l

structure Txn (V : K → Type) (L : Type) where
  loc : L
  writes : Writes V
  locks : Set K
  covers : ∀ k, writes k ≠ Option.none → k ∈ locks

def Txn.begin (l : L) : Txn V L := ⟨l, Writes.none, ∅, fun _ h => absurd rfl h⟩

def Txn.view (t : Txn V L) (db : Rows V) : Rows V := t.writes.over db

def Txn.exec (t : Txn V L) (e : Effect V L) : Txn V L where
  loc := e.loc
  writes := t.writes.andThen e.sets
  locks := t.locks ∪ e.locks
  covers k h := by
    unfold Writes.andThen at h
    cases he : e.sets k with
    | none =>
      rw [he] at h
      exact .inl (t.covers k h)
    | some v => exact .inr (e.covers k (by rw [he]; simp))

structure State (V : K → Type) (L : Type) where
  db : Rows V
  txns : Nat → Option (Txn V L)

def State.idle (db : Rows V) : State V L := ⟨db, fun _ => none⟩

/-- The rows locked by a transaction other than `i`. -/
def State.busy (s : State V L) (i : Nat) : Set K :=
  {k | ∃ j t, j ≠ i ∧ s.txns j = some t ∧ k ∈ t.locks}

/-- Programs: the local states a transaction may begin in, what a statement may do given the rows
locked by others and the rows seen, and where the program is done. -/
structure Program (V : K → Type) (L : Type) where
  init : L → Prop
  stmt : Set K → Rows V → L → Effect V L → Prop
  done : L → Prop

/-- The kinds of steps. -/
inductive Act where
  | start
  | stmt
  | commit
  | abort

/-- One step of transaction `i`. -/
inductive Step (P : Program V L) (s : State V L) (i : Nat) : Act → State V L → Prop
  | start (l : L) (hfree : s.txns i = none) (hl : P.init l) :
    Step P s i .start ⟨s.db, update s.txns i (some (Txn.begin l))⟩
  | stmt (t : Txn V L) (e : Effect V L) (ht : s.txns i = some t)
    (he : P.stmt (s.busy i) (t.view s.db) t.loc e) (hfree : Apart e.locks (s.busy i)) :
    Step P s i .stmt ⟨s.db, update s.txns i (some (t.exec e))⟩
  | commit (t : Txn V L) (ht : s.txns i = some t) (hd : P.done t.loc) :
    Step P s i .commit ⟨t.writes.over s.db, update s.txns i none⟩
  | abort (t : Txn V L) (ht : s.txns i = some t) :
    Step P s i .abort ⟨s.db, update s.txns i none⟩

/-- Sequences of steps that each meet `C`. -/
inductive Reach (P : Program V L) (C : State V L → Nat → Act → Prop) (s : State V L) :
    State V L → Prop
  | refl : Reach P C s s
  | step {s₁ s₂ : State V L} {i : Nat} {a : Act} (hr : Reach P C s s₁) (hc : C s₁ i a)
    (hs : Step P s₁ i a s₂) : Reach P C s s₂

def AnyStep : State V L → Nat → Act → Prop := fun _ _ _ => True

/-! ## Reading and writing -/

variable {w : Writes V} {k : K} {t t' : Txn V L} {e : Effect V L} {S : Set K} {s s' : State V L}
  {i : Nat} {db db' : Rows V} {a : Act} {l : L} {G : Rows V → Prop} {A : Rows V → Txn V L → Prop}

theorem Writes.over_of_none (h : w k = Option.none) (db : Rows V) : w.over db k = db k := by
  unfold Writes.over
  rw [h]
  rfl

section

variable {v : Option (V k)} (l : L)

theorem Writes.over_of_some (h : w k = some v) (db : Rows V) : w.over db k = v := by
  unfold Writes.over
  rw [h]
  rfl

theorem Writes.andThen_of_none {e : Writes V} (h : e k = Option.none) : w.andThen e k = w k := by
  unfold Writes.andThen
  rw [h]
  rfl

theorem Writes.andThen_of_some {e : Writes V} (h : e k = some v) : w.andThen e k = some v := by
  unfold Writes.andThen
  rw [h]
  rfl

@[simp] theorem Effect.write_sets (sets : Writes V) (l : L) : (Effect.write sets l).sets = sets :=
  rfl

@[simp] theorem Effect.read_sets (l : L) (k : K) : (Effect.read (V := V) l).sets k = Option.none :=
  rfl

@[simp] theorem Writes.single_self [DecidableEq K] (k : K) (v : Option (V k)) :
    Writes.single k v k = some v :=
  update_self k _ _

@[simp] theorem Writes.single_of_ne [DecidableEq K] {k' : K} (h : k' ≠ k) (v : Option (V k)) :
    Writes.single k v k' = Option.none :=
  update_of_ne h _ _

theorem Txn.exec_writes_of_none (h : e.sets k = none) : (t.exec e).writes k = t.writes k :=
  Writes.andThen_of_none h

theorem Txn.exec_writes_of_some (h : e.sets k = some v) : (t.exec e).writes k = some v :=
  Writes.andThen_of_some h

theorem Txn.view_exec_of_none (h : e.sets k = none) (db : Rows V) :
    (t.exec e).view db k = t.view db k := by
  unfold Txn.view Writes.over
  rw [Txn.exec_writes_of_none h]

theorem Txn.view_exec_of_some (h : e.sets k = some v) (db : Rows V) : (t.exec e).view db k = v :=
  Writes.over_of_some (Txn.exec_writes_of_some h) db

theorem Writes.none_over (db : Rows V) : (Writes.none : Writes V).over db = db := rfl

theorem Writes.none_andThen (e : Writes V) : Writes.none.andThen e = e := by
  funext k
  exact Option.or_none

theorem Txn.exec_writes (t : Txn V L) (e : Effect V L) :
    (t.exec e).writes = t.writes.andThen e.sets :=
  rfl

theorem Txn.over_of_apart (h : Apart t.locks t'.locks) (hk : t.writes k ≠ none) (db : Rows V) :
    t'.writes.over db k = db k := by
  refine Writes.over_of_none ?_ db
  by_contra hne
  exact h k (t.covers k hk) (t'.covers k hne)

/-- The transaction has written rows of `S` only. -/
def Txn.WritesOnly (t : Txn V L) (S : Set K) : Prop := ∀ k, t.writes k ≠ none → k ∈ S

section

variable (h : t.WritesOnly S)
include h

theorem Txn.WritesOnly.eq_none (hk : k ∉ S) : t.writes k = none := by
  by_contra hne
  exact hk (h k hne)

theorem Txn.WritesOnly.mono {S' : Set K} (hS : S ⊆ S') : t.WritesOnly S' :=
  fun k hk => hS (h k hk)

theorem Txn.WritesOnly.exec (he : ∀ k, e.sets k ≠ none → k ∈ S) : (t.exec e).WritesOnly S := by
  intro k hk
  cases hek : e.sets k with
  | none => exact h k (by rwa [← Txn.exec_writes_of_none hek])
  | some v => exact he k (by simp [hek])

theorem Txn.WritesOnly.exec_read (l : L) : (t.exec (.read l)).WritesOnly S :=
  h.exec fun _ hk => absurd rfl hk

theorem Txn.WritesOnly.exec_single [DecidableEq K] (hk : k ∈ S) (l : L) :
    (t.exec (.write (.single k v) l)).WritesOnly S :=
  h.exec fun k' hk' => by
    by_cases hkk : k' = k
    · rwa [hkk]
    · exact absurd (Writes.single_of_ne hkk v) hk'

end

theorem Txn.mem_locks_exec_single [DecidableEq K] (t : Txn V L) (k : K) (v : Option (V k)) (l : L) :
    k ∈ (t.exec (.write (.single k v) l)).locks :=
  .inr (show Writes.single k v k ≠ none by simp)

theorem Txn.writesOnly_begin : (Txn.begin (V := V) l).WritesOnly ∅ :=
  fun _ h => absurd rfl h

end

/-! ## Locks are exclusive -/

def Exclusive (s : State V L) : Prop :=
  ∀ i j t t', i ≠ j → s.txns i = some t → s.txns j = some t' → Apart t.locks t'.locks

theorem exclusive_idle (db : Rows V) : Exclusive (State.idle (L := L) db) :=
  fun _ _ _ _ _ h => absurd h (by simp [State.idle])

theorem Exclusive.update (hx : Exclusive s) {t : Option (Txn V L)}
    (ht : ∀ t', t = some t' → Apart t'.locks (s.busy i)) :
    Exclusive ⟨db, update s.txns i t⟩ := by
  have hbusy : ∀ {a b j : _}, t = some a → j ≠ i → s.txns j = some b → Apart a.locks b.locks :=
    fun ha hj hb k hk hk' => ht _ ha k hk ⟨_, _, hj, hb, hk'⟩
  intro j j' a b hne ha hb
  dsimp only at ha hb
  by_cases hj : j = i
  · subst hj
    rw [update_self] at ha
    rw [update_of_ne (Ne.symm hne)] at hb
    exact hbusy ha (Ne.symm hne) hb
  rw [update_of_ne hj] at ha
  by_cases hj' : j' = i
  · subst hj'
    rw [update_self] at hb
    exact (hbusy hb hj ha).symm
  · rw [update_of_ne hj'] at hb
    exact hx j j' a b hne ha hb

theorem Exclusive.apart_busy (hx : Exclusive s) (ht : s.txns i = some t) :
    Apart t.locks (s.busy i) :=
  fun k hk ⟨j, t', hj, ht', hk'⟩ => hx i j t t' (Ne.symm hj) ht ht' k hk hk'

theorem Exclusive.step {P : Program V L} (hx : Exclusive s) (h : Step P s i a s') :
    Exclusive s' := by
  cases h with
  | start l hfree hl =>
    refine hx.update fun t' h => ?_
    cases h
    exact fun _ hk => hk.elim
  | stmt t e ht he hfree =>
    refine hx.update fun t' h => ?_
    cases h
    exact fun k hk => hk.elim (hx.apart_busy ht k) (hfree k)
  | commit t ht hd => exact hx.update fun _ h => absurd h (by simp)
  | abort t ht => exact hx.update fun _ h => absurd h (by simp)

/-! ## Invariants -/

variable {P : Program V L} {C : State V L → Nat → Act → Prop}

theorem Reach.induct {I : State V L → Prop}
    (hstep : ∀ s i a s', I s → C s i a → Step P s i a s' → I s') (hs : I s) (h : Reach P C s s') :
    I s' := by
  induction h with
  | refl => exact hs
  | step _ hc hst ih => exact hstep _ _ _ _ ih hc hst

theorem Reach.trans {s₁ s₂ s₃ : State V L} (h : Reach P C s₁ s₂) (h' : Reach P C s₂ s₃) :
    Reach P C s₁ s₃ := by
  induction h' with
  | refl => exact h
  | step _ hc hst ih => exact .step ih hc hst

theorem Reach.mono {C' : State V L → Nat → Act → Prop} (hC : ∀ s i a, C s i a → C' s i a)
    (h : Reach P C s s') : Reach P C' s s' := by
  induction h with
  | refl => exact .refl
  | step _ hc hst ih => exact .step ih (hC _ _ _ hc) hst

/-! ## Running alone

While the other transactions hold no locks, one of them can run with nothing in its way. -/

/-- Statements of one transaction over the committed rows `db`, no row being locked by another. -/
inductive Alone (P : Program V L) (db : Rows V) (t : Txn V L) : Txn V L → Prop
  | refl : Alone P db t t
  | stmt {t' : Txn V L} {e : Effect V L} (h : Alone P db t t')
    (he : P.stmt ∅ (t'.view db) t'.loc e) : Alone P db t (t'.exec e)

theorem Alone.trans {t₁ t₂ t₃ : Txn V L} (h : Alone P db t₁ t₂) (h' : Alone P db t₂ t₃) :
    Alone P db t₁ t₃ := by
  induction h' with
  | refl => exact h
  | stmt _ he ih => exact .stmt ih he

/-- The transactions other than `i` hold no locks. -/
def State.Quiet (s : State V L) (i : Nat) : Prop := s.busy i = ∅

theorem State.quiet_of_locks (h : ∀ j t, j ≠ i → s.txns j = some t → t.locks = ∅) : s.Quiet i :=
  Set.eq_empty_of_forall_notMem fun k ⟨j, t, hj, ht, hk⟩ => by simp [h j t hj ht] at hk

theorem quiet_idle (db : Rows V) (i : Nat) : (State.idle (L := L) db).Quiet i :=
  State.quiet_of_locks fun _ _ _ h => absurd h (by simp [State.idle])

theorem Txn.locks_exec_read (t : Txn V L) (l : L) : (t.exec (.read l)).locks = t.locks := by
  ext k
  simp [Txn.exec, Effect.read, Effect.write, Writes.none]

def State.only (db : Rows V) (t : Txn V L) : State V L :=
  ⟨db, update (fun _ => none) 0 (some t)⟩

theorem eq_of_only (h : (State.only db t).txns i = some t') : i = 0 ∧ t' = t := by
  unfold State.only at h
  dsimp only at h
  by_cases hi : i = 0
  · rw [hi, update_self] at h
    exact ⟨hi, (Option.some.inj h).symm⟩
  · rw [update_of_ne hi] at h
    cases h

theorem quiet_only (h : t.locks = ∅) (db : Rows V) (i : Nat) : (State.only db t).Quiet i :=
  State.quiet_of_locks fun _ _ _ ht' => (eq_of_only ht').2 ▸ h

theorem State.Quiet.update (h : s.Quiet i) (db : Rows V) (t : Option (Txn V L)) :
    State.Quiet ⟨db, update s.txns i t⟩ i := by
  refine Set.eq_empty_of_forall_notMem fun k ⟨j, t', hj, ht', hk⟩ => ?_
  dsimp only at ht'
  rw [update_of_ne hj] at ht'
  exact Set.notMem_empty k (h ▸ (⟨j, t', hj, ht', hk⟩ : k ∈ s.busy i))

/-- The condition lets transaction `i` do anything while the others stand still. -/
def Free (C : State V L → Nat → Act → Prop) (s : State V L) (i : Nat) : Prop :=
  ∀ db t a, C ⟨db, update s.txns i t⟩ i a

theorem free_anyStep (s : State V L) (i : Nat) : Free AnyStep s i := fun _ _ _ => trivial

theorem Free.update (h : Free C s i) (db : Rows V) (t : Option (Txn V L)) :
    Free C ⟨db, update s.txns i t⟩ i := by
  intro db' t' a
  rw [show Function.update (Function.update s.txns i t) i t' = Function.update s.txns i t' from
    update_idem _ _ _]
  exact h db' t' a

theorem Free.here (h : Free C s i) (a : Act) : C s i a := by
  have hs := h s.db (s.txns i) a
  rwa [update_eq_self] at hs

theorem Reach.stmt_quiet {s₀ : State V L} (hr : Reach P C s₀ s) (hc : C s i .stmt)
    (hq : s.Quiet i) (ht : s.txns i = some t) (he : P.stmt ∅ (t.view s.db) t.loc e) :
    Reach P C s₀ ⟨s.db, update s.txns i (some (t.exec e))⟩ :=
  .step hr hc (.stmt t e ht (by rw [hq]; exact he) (by rw [hq]; exact fun _ _ h => h))

theorem Reach.only_start {s₀ : State V L} (hr : Reach P C s₀ (State.idle db))
    (hc : C (State.idle db) 0 .start) (hl : P.init l) :
    Reach P C s₀ (State.only db (Txn.begin l)) :=
  .step hr hc (.start l rfl hl)

theorem Reach.only_commit {s₀ : State V L} (hr : Reach P C s₀ (State.only db t))
    (hc : C (State.only db t) 0 .commit) (hd : P.done t.loc) :
    Reach P C s₀ (State.idle (t.writes.over db)) := by
  have hrun : (State.only db t).txns 0 = some t := rfl
  have hs := Reach.step hr hc (.commit t hrun hd)
  have hidle : update (State.only db t).txns 0 none = fun _ => none := by
    show update (update (fun _ => none) 0 (some t)) 0 none = _
    rw [update_idem]
    exact update_eq_self 0 _
  rwa [hidle] at hs

theorem Reach.only_stmt {s₀ : State V L} (hr : Reach P C s₀ (State.only db t))
    (hc : C (State.only db t) 0 .stmt) (he : P.stmt ∅ (t.view db) t.loc e) :
    Reach P C s₀ (State.only db (t.exec e)) := by
  have hs := hr.stmt_quiet hc ((quiet_idle db 0).update db (some t)) rfl he
  rwa [State.only, update_idem] at hs

section

variable (hC : Free C s i) (hq : s.Quiet i)
include hC hq

theorem Reach.alone (ht : s.txns i = some t) (h : Alone P s.db t t') :
    Reach P C s ⟨s.db, update s.txns i (some t')⟩ := by
  induction h with
  | refl =>
    rw [← ht, update_eq_self]
    exact .refl
  | @stmt t' e _ he ih =>
    have hs := ih.stmt_quiet (hC _ _ _) (hq.update s.db _) (update_self i _ _) he
    rwa [show update (update s.txns i (some t')) i (some (t'.exec e)) =
      update s.txns i (some (t'.exec e)) from update_idem _ _ _] at hs

theorem Reach.begin_alone (hfree : s.txns i = none) (hl : P.init l)
    (h : Alone P s.db (Txn.begin l) t) : Reach P C s ⟨s.db, update s.txns i (some t)⟩ := by
  have hs : Reach P C s _ := .step .refl (hC.here _) (.start l hfree hl)
  have hr := Reach.alone (hC.update s.db _) (hq.update s.db _) (update_self i _ _) h
  rw [show update (update s.txns i _) i (some t) =
    update s.txns i (some t) from update_idem _ _ _] at hr
  exact hs.trans hr

theorem Reach.commit_alone (ht : s.txns i = some t) (h : Alone P s.db t t') (hd : P.done t'.loc) :
    Reach P C s ⟨t'.writes.over s.db, update s.txns i none⟩ := by
  have hs := Step.commit (P := P) (s := ⟨s.db, update s.txns i (some t')⟩) (i := i) t'
    (update_self i _ _) hd
  rw [show update (update s.txns i (some t')) i none =
    update s.txns i none from update_idem _ _ _] at hs
  exact .step (.alone hC hq ht h) (hC _ _ _) hs

theorem Reach.call_alone (hfree : s.txns i = none) (hl : P.init l)
    (h : Alone P s.db (Txn.begin l) t) (hd : P.done t.loc) :
    Reach P C s ⟨t.writes.over s.db, s.txns⟩ := by
  have hs : Reach P C s _ := .step .refl (hC.here _) (.start l hfree hl)
  have hr := Reach.commit_alone (hC.update s.db _) (hq.update s.db _) (update_self i _ _)
    h hd
  rw [show update (update s.txns i _) i none = s.txns by
    rw [update_idem, ← hfree, update_eq_self]] at hr
  exact hs.trans hr

end

/-- A transaction that runs alone to its end, as what it makes of the rows. -/
inductive Solo (P : Program V L) : Rows V → L → Rows V → Prop
  | done {db : Rows V} {l : L} (hd : P.done l) : Solo P db l db
  | stmt {db db' : Rows V} {l : L} {e : Effect V L} (he : P.stmt ∅ db l e)
    (h : Solo P (e.sets.over db) e.loc db') : Solo P db l db'

theorem Solo.of_eq (hd : P.done l) (h : db = db') : Solo P db l db' :=
  h ▸ .done hd

theorem Txn.view_exec (t : Txn V L) (e : Effect V L) (db : Rows V) :
    (t.exec e).view db = e.sets.over (t.view db) := by
  funext k
  cases he : e.sets k with
  | none => rw [Txn.view_exec_of_none he, Writes.over_of_none he]
  | some v => rw [Txn.view_exec_of_some he, Writes.over_of_some he]

theorem Solo.alone {rows : Rows V} (h : Solo P rows l db') {t₀ : Txn V L} (ha : Alone P db t₀ t)
    (hv : t.view db = rows) (hl : t.loc = l) :
    ∃ t', Alone P db t₀ t' ∧ P.done t'.loc ∧ t'.view db = db' := by
  induction h generalizing t with
  | done hd =>
    subst hv hl
    exact ⟨t, ha, hd, rfl⟩
  | @stmt _ _ _ e he _ ih =>
    subst hv hl
    exact ih (.stmt ha he) (Txn.view_exec t e db) rfl

theorem Reach.solo (hl : P.init l) (h : Solo P db l db') :
    Reach P AnyStep (State.idle db) (State.idle db') := by
  obtain ⟨t, ht, hd, rfl⟩ := h.alone (t := Txn.begin l) .refl rfl rfl
  exact .call_alone (i := 0) (free_anyStep _ _) (quiet_idle db 0) rfl hl ht hd

/-! ## Outlines -/

/-- A proof outline: `G` about the committed rows, `A` about each running transaction. -/
structure Outline (P : Program V L) (C : State V L → Nat → Act → Prop) (G : Rows V → Prop)
    (A : Rows V → Txn V L → Prop) : Prop where
  start : ∀ db l, G db → P.init l → A db (Txn.begin l)
  stmt : ∀ (s : State V L) i t e, s.txns i = some t → G s.db → A s.db t → C s i .stmt →
    P.stmt (s.busy i) (t.view s.db) t.loc e → A s.db (t.exec e)
  commit : ∀ db t, G db → A db t → P.done t.loc → G (t.writes.over db)
  stable : ∀ db t t', G db → A db t → A db t' → P.done t'.loc → Apart t.locks t'.locks →
    A (t'.writes.over db) t

structure Good (G : Rows V → Prop) (A : Rows V → Txn V L → Prop) (s : State V L) : Prop where
  exclusive : Exclusive s
  rows : G s.db
  txns : ∀ i t, s.txns i = some t → A s.db t

theorem good_idle (h : G db) : Good G A (State.idle db) :=
  ⟨exclusive_idle db, h, fun _ _ h => absurd h (by simp [State.idle])⟩

theorem forall_update_txns {Q : Txn V L → Prop} {t : Option (Txn V L)}
    (hi : ∀ t', t = some t' → Q t') (hj : ∀ j t', j ≠ i → s.txns j = some t' → Q t') :
    ∀ j t', update s.txns i t j = some t' → Q t' := by
  intro j t' h
  by_cases hji : j = i
  · subst hji
    rw [update_self] at h
    exact hi t' h
  · rw [update_of_ne hji] at h
    exact hj j t' hji h

/-- An outline in which the commit of another transaction may be judged by the state it is taken
in, of which the condition `C` holds. -/
structure GuardedOutline (P : Program V L) (C : State V L → Nat → Act → Prop) (G : Rows V → Prop)
    (A : Rows V → Txn V L → Prop) : Prop where
  start : ∀ db l, G db → P.init l → A db (Txn.begin l)
  stmt : ∀ (s : State V L) i t e, s.txns i = some t → G s.db → A s.db t → C s i .stmt →
    P.stmt (s.busy i) (t.view s.db) t.loc e → A s.db (t.exec e)
  commit : ∀ db t, G db → A db t → P.done t.loc → G (t.writes.over db)
  stable : ∀ (s : State V L) i j t t', j ≠ i → s.txns i = some t → s.txns j = some t' →
    C s i .commit → G s.db → A s.db t → A s.db t' → P.done t.loc → Apart t'.locks t.locks →
    A (t.writes.over s.db) t'

theorem Outline.guarded (ho : Outline P C G A) : GuardedOutline P C G A where
  start := ho.start
  stmt := ho.stmt
  commit := ho.commit
  stable s _ _ t t' _ _ _ _ hg ha ha' hd hx := ho.stable s.db t' t hg ha' ha hd hx

theorem GuardedOutline.step (ho : GuardedOutline P C G A) (hg : Good G A s) (hc : C s i a)
    (h : Step P s i a s') : Good G A s' := by
  have hx := hg.exclusive.step h
  cases h with
  | start l hfree hl =>
    refine ⟨hx, hg.rows, forall_update_txns (fun t' h => ?_) fun j t' _ h => hg.txns j t' h⟩
    cases h
    exact ho.start s.db l hg.rows hl
  | stmt t e ht he hfree =>
    refine ⟨hx, hg.rows, forall_update_txns (fun t' h => ?_) fun j t' _ h => hg.txns j t' h⟩
    cases h
    exact ho.stmt s i t e ht hg.rows (hg.txns i t ht) hc he
  | commit t ht hd =>
    refine ⟨hx, ho.commit s.db t hg.rows (hg.txns i t ht) hd,
      forall_update_txns (by simp) fun j t' hj h => ?_⟩
    exact ho.stable s i j t t' hj ht h hc hg.rows (hg.txns i t ht) (hg.txns j t' h) hd
      (hg.exclusive j i t' t hj h ht)
  | abort t ht =>
    exact ⟨hx, hg.rows, forall_update_txns (by simp)
      fun j t' _ h => hg.txns j t' h⟩

/-- **A guarded outline holds in every state reached.** -/
theorem GuardedOutline.reach (ho : GuardedOutline P C G A) (hg : Good G A s) (h : Reach P C s s') :
    Good G A s' :=
  h.induct (fun _ _ _ _ hg hc hst => ho.step hg hc hst) hg

theorem Outline.step (ho : Outline P C G A) (hg : Good G A s) (hc : C s i a) (h : Step P s i a s') :
    Good G A s' :=
  ho.guarded.step hg hc h

/-- **An outline holds in every state reached.** -/
theorem Outline.reach (ho : Outline P C G A) (hg : Good G A s) (h : Reach P C s s') : Good G A s' :=
  ho.guarded.reach hg h

/-- Steps that meet `C` meet whatever the outline gives of them. -/
theorem Outline.reach_of_good {C' : State V L → Nat → Act → Prop} (ho : Outline P C G A)
    (hg : Good G A s) (hC : ∀ s i a, Good G A s → C s i a → C' s i a) (h : Reach P C s s') :
    Reach P C' s s' := by
  induction h with
  | refl => exact .refl
  | step hr hc hst ih => exact .step ih (hC _ _ _ (ho.reach hg hr) hc) hst

end MaluDb.Lib.ReadCommitted
