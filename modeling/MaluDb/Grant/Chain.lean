import MaluDb.Lib.Except
import MaluDb.Grant.Model

/-!
# Where access comes from

Every active grant should be given by the owner or by a schema with an active `full` grant that
comes from the owner (`Authorised`). The check of `grant_object_access` passes for a grant of any
level; and revoking, lowering or expiry leaves alone the grants its holder has given.
-/

namespace MaluDb.Grant

open MaluDb.Lib List Serial

variable {owner : Owner}

/-! ## Chains -/

/-- The owner of an object, and the schemas that hold an active `full` grant on it given by an
authorised schema. -/
inductive Authorised (owner : Owner) (s : GrantState) (o : Object) : String → Prop
  | owner {a : String} (h : owner o = some a) : Authorised owner s o a
  | full {g : ObjectGrant} (hg : g ∈ s.grants.rows) (ho : g.object = o)
    (ha : g.active s.clock = true) (hl : g.grantLevel = .full)
    (h : Authorised owner s o g.grantedBySchema) : Authorised owner s o g.grantedToSchema

/-- Every active grant to a schema that is not the owner was given by an authorised schema. -/
def Chained (owner : Owner) (s : GrantState) : Prop :=
  ∀ g ∈ s.grants.rows, g.active s.clock = true → owner g.object ≠ some g.grantedToSchema →
    Authorised owner s g.object g.grantedBySchema

/-- A schema other than the owner has given an active grant to a schema other than the owner. -/
def Relied (owner : Owner) (s : GrantState) (o : Object) (a : String) : Prop :=
  owner o ≠ some a ∧ ∃ g ∈ s.grants.rows, g.object = o ∧ g.grantedBySchema = a ∧
    g.active s.clock = true ∧ owner o ≠ some g.grantedToSchema

/-- A call of `grant_object_access` that passes the checks of its arguments and the existence
check. -/
structure Passes (owner : Owner) (s : GrantState) (step : Nat × GrantOp) (schema : String)
    (a : GrantArgs) (c : Checked) : Prop where
  op : step.2 = .grant schema a
  checked : checkArgs schema a = .ok c
  visible : visible owner ⟨schema, s.clock + step.1, s.grants, false⟩ c.object = true

/-- The grant is active after the step, and the step does not revoke it or lower its level. -/
structure KeptFull (owner : Owner) (s : GrantState) (step : Nat × GrantOp) (g : ObjectGrant) :
    Prop where
  active : g.active (s.clock + step.1) = true
  regrant : ∀ schema a c, Passes owner s step schema a c →
    updatable schema c.object c.toSchema g = true → ∀ l, c.level = some l →
      l = .full ∧ ∀ e, a.expiresAt = some e → s.clock + step.1 < e
  revoke : ∀ schema id reason, step.2 = .revoke schema id reason → revocable schema id g = false

/-- The condition on a step. -/
structure SoundStep (owner : Owner) (s : GrantState) (step : Nat × GrantOp) : Prop where
  /-- A caller that sees the object through a grant sees it through a `full` one. -/
  issuer : ∀ schema a c, Passes owner s step schema a c → ∀ g ∈ s.grants.rows,
    g.object = c.object → g.grantedToSchema = schema → g.active (s.clock + step.1) = true →
      owner c.object = some schema ∨ g.grantLevel = .full
  /-- A `full` grant stays while grants that its holder gave are active. -/
  kept : ∀ g ∈ s.grants.rows, g.active s.clock = true → g.grantLevel = .full →
    Relied owner s g.object g.grantedToSchema → KeptFull owner s step g

/-! ## What an operation does -/

inductive Effect (owner : Owner) (s : GrantState) (step : Nat × GrantOp) : Grants → Prop
  | unchanged : Effect owner s step s.grants
  | regrant {schema : String} {a : GrantArgs} {c : Checked} {l : GrantLevel}
    (hpass : Passes owner s step schema a c) (hl : c.level = some l)
    (hne : c.toSchema ≠ schema) :
    Effect owner s step (s.grants.update (updatable schema c.object c.toSchema)
      (ObjectGrant.regrant (s.clock + step.1) l a.expiresAt a.note) fun _ => rfl)
  | insert {schema : String} {a : GrantArgs} {c : Checked} {l : GrantLevel}
    (hpass : Passes owner s step schema a c) (hl : c.level = some l) :
    Effect owner s step
      (s.grants.insert (newGrant schema (s.clock + step.1) c l a.expiresAt a.note) fun _ => rfl)
  | revoke {schema : String} {id : Nat} {reason : Option String}
    (hop : step.2 = .revoke schema id reason) :
    Effect owner s step (s.grants.update (revocable schema id)
      (ObjectGrant.revoke (s.clock + step.1) reason) fun _ => rfl)

variable {schema : String} {a : GrantArgs} {g : ObjectGrant} {o : Object}

theorem checkArgs_toSchema {c : Checked} (h : checkArgs schema a = .ok c) :
    c.toSchema ≠ schema := by
  unfold checkArgs at h
  split at h
  · cases h
  split at h
  · cases h
  split at h
  · cases h
  rename_i hne
  split at h
  · cases h
  · cases h
    exact hne

theorem grantObjectAccess_effect {s : GrantState} {elapsed : Nat} {grants : Grants}
    (h : grantObjectAccess owner s.grants schema (s.clock + elapsed) a = .ok grants) :
    Effect owner s (elapsed, .grant schema a) grants := by
  obtain ⟨c, hc, h⟩ := bind_eq_ok.mp h
  split at h
  · rename_i hv
    have hpass : Passes owner s (elapsed, .grant schema a) schema a c := ⟨rfl, hc, hv⟩
    split at h
    · cases h
    rename_i l hl
    unfold upsertGrant at h
    split at h
    · cases h
      exact .regrant hpass hl (checkArgs_toSchema hc)
    split at h
    · cases h
    · cases h
      exact .insert hpass hl
  · cases h

/-- **What a step does.** -/
theorem grantStep_effect (s : GrantState) (step : Nat × GrantOp) :
    Effect owner s step (grantStep owner s step).grants := by
  obtain ⟨elapsed, op⟩ := step
  cases op with
  | grant schema a =>
    show Effect owner s _ (commitOr s.grants (grantObjectAccess owner s.grants schema _ a))
    cases h : grantObjectAccess owner s.grants schema (s.clock + elapsed) a with
    | error e => exact .unchanged
    | ok grants => exact grantObjectAccess_effect h
  | revoke schema id reason =>
    show Effect owner s _ (commitOr s.grants (revokeObjectGrant s.grants schema _ id reason))
    unfold revokeObjectGrant
    split
    · exact .revoke rfl
    · exact .unchanged
  | wait => exact .unchanged

/-! ## Grants before and after -/

theorem ObjectGrant.active_mono {now now' : Int} (h : g.active now' = true) (hle : now ≤ now') :
    g.active now = true := by
  unfold ObjectGrant.active at h ⊢
  rw [Bool.and_eq_true] at h ⊢
  refine ⟨h.1, ?_⟩
  cases he : g.expiresAt with
  | none => rfl
  | some e =>
    have := h.2
    simp only [he, Option.all_some, decide_eq_true_eq] at this ⊢
    omega

theorem updatable_iff {toSchema : String} :
    updatable schema o toSchema g = true ↔ g.object = o ∧ g.grantedToSchema = toSchema ∧
      g.revokedAt = none ∧ g.grantedBySchema = schema := by
  simp [updatable, and_assoc]

variable {s : GrantState} {step : Nat × GrantOp} {grants : Grants}

theorem Effect.old_or_written (h : Effect owner s step grants) (hg : g ∈ grants.rows)
    (ha : g.active (s.clock + step.1) = true) :
    g ∈ s.grants.rows ∨ ∃ schema a c, Passes owner s step schema a c ∧ g.object = c.object ∧
      g.grantedBySchema = schema := by
  cases h with
  | unchanged => exact .inl hg
  | @regrant schema a c l hpass =>
    obtain ⟨g₀, hg₀, rfl⟩ := mem_update.mp hg
    split
    · rename_i hu
      obtain ⟨ho, -, -, hby⟩ := updatable_iff.mp hu
      exact .inr ⟨schema, a, c, hpass, ho, hby⟩
    · exact .inl hg₀
  | @insert schema a c l hpass =>
    rcases mem_insert.mp hg with hg | rfl
    · exact .inl hg
    · exact .inr ⟨schema, a, c, hpass, rfl, rfl⟩
  | revoke =>
    obtain ⟨g₀, hg₀, rfl⟩ := mem_update.mp hg
    split at ha
    · exact absurd ha (by simp [ObjectGrant.active, ObjectGrant.revoke])
    · rename_i hr
      rw [if_neg hr]
      exact .inl hg₀

theorem Effect.kept (h : Effect owner s step grants) (hg : g ∈ s.grants.rows)
    (hl : g.grantLevel = .full) (hk : KeptFull owner s step g) :
    ∃ g' ∈ grants.rows, g'.object = g.object ∧ g'.grantedBySchema = g.grantedBySchema ∧
      g'.grantedToSchema = g.grantedToSchema ∧ g'.active (s.clock + step.1) = true ∧
      g'.grantLevel = .full := by
  have hself : g ∈ grants.rows → ∃ g' ∈ grants.rows, g'.object = g.object ∧
      g'.grantedBySchema = g.grantedBySchema ∧ g'.grantedToSchema = g.grantedToSchema ∧
      g'.active (s.clock + step.1) = true ∧ g'.grantLevel = .full :=
    fun hmem => ⟨g, hmem, rfl, rfl, rfl, hk.active, hl⟩
  cases h with
  | unchanged => exact hself hg
  | @regrant schema a c l hpass hlevel =>
    by_cases hu : updatable schema c.object c.toSchema g = true
    · obtain ⟨rfl, hexp⟩ := hk.regrant schema a c hpass hu l hlevel
      refine ⟨_, mem_update.mpr ⟨g, hg, if_pos hu⟩, rfl, rfl, rfl, ?_, rfl⟩
      obtain ⟨-, -, hrev, -⟩ := updatable_iff.mp hu
      cases he : a.expiresAt with
      | none => simp [ObjectGrant.active, ObjectGrant.regrant, hrev]
      | some e => simpa [ObjectGrant.active, ObjectGrant.regrant, hrev] using hexp e he
    · exact hself (mem_update.mpr ⟨g, hg, if_neg hu⟩)
  | insert => exact hself (mem_insert.mpr (.inl hg))
  | @revoke schema id reason hop =>
    have hr := hk.revoke schema id reason hop
    exact hself (mem_update.mpr ⟨g, hg, by rw [hr]; rfl⟩)

theorem Effect.caller (h : Effect owner s step grants) {c : Checked}
    (hpass : Passes owner s step schema a c) (hg : g ∈ s.grants.rows)
    (hto : g.grantedToSchema = schema) : g ∈ grants.rows := by
  cases h with
  | unchanged => exact hg
  | @regrant schema' a' c' l hpass' _ hne =>
    refine mem_update.mpr ⟨g, hg, if_neg fun hu => ?_⟩
    obtain ⟨-, hto', -, -⟩ := updatable_iff.mp hu
    cases hpass.op.symm.trans hpass'.op
    exact hne (hto'.symm.trans hto)
  | insert => exact mem_insert.mpr (.inl hg)
  | revoke hop => cases hpass.op.symm.trans hop

/-! ## Steps and runs -/

theorem Authorised.after (hs : SoundStep owner s step) {b : String} (h : Authorised owner s o b)
    (hb : owner o = some b ∨ Relied owner s o b) :
    Authorised owner (grantStep owner s step) o b := by
  induction h with
  | owner h => exact .owner h
  | @full g hg ho ha hl _ ih =>
    subst ho
    rcases hb with hb | hb
    · exact .owner hb
    obtain ⟨g', hg', ho', hby, hto, ha', hl'⟩ :=
      (grantStep_effect s step).kept hg hl (hs.kept g hg ha hl hb)
    -- the grant is itself one that its giver is relied on for
    have hgiver : Authorised owner (grantStep owner s step) g.object g.grantedBySchema := by
      apply ih
      by_cases hown : owner g.object = some g.grantedBySchema
      · exact .inl hown
      · exact .inr ⟨hown, g, hg, rfl, rfl, ha, hb.1⟩
    rw [← hto]
    exact .full hg' ho' ha' hl' (hby ▸ hgiver)

theorem Chained.giver (hc : Chained owner s) (hs : SoundStep owner s step)
    (hg : g ∈ s.grants.rows) (ha : g.active s.clock = true)
    (hne : owner g.object ≠ some g.grantedToSchema) :
    Authorised owner (grantStep owner s step) g.object g.grantedBySchema := by
  refine (hc g hg ha hne).after hs ?_
  by_cases hown : owner g.object = some g.grantedBySchema
  · exact .inl hown
  · exact .inr ⟨hown, g, hg, rfl, rfl, ha, hne⟩

theorem Chained.after (hc : Chained owner s) (hs : SoundStep owner s step) :
    Chained owner (grantStep owner s step) := by
  intro g hg ha hne
  have heff : Effect owner s step (grantStep owner s step).grants := grantStep_effect s step
  have hle : s.clock ≤ s.clock + step.1 := by omega
  rcases heff.old_or_written hg ha with hold | ⟨schema, a, c, hpass, ho, hby⟩
  · exact hc.giver hs hold (g.active_mono ha hle) hne
  -- the caller is the owner or sees the object through a `full` grant
  rw [ho, hby]
  by_cases hown : owner c.object = some schema
  · exact .owner hown
  obtain ⟨o, hoo, hv⟩ := (Option.any_eq_true _ _).mp hpass.visible
  rw [Session.sees, Bool.false_or, Bool.or_eq_true, beq_iff_eq] at hv
  rcases hv with rfl | hv
  · exact absurd hoo hown
  obtain ⟨g₁, hg₁, hvis⟩ := any_eq_true.mp hv
  simp only [Bool.and_eq_true, beq_iff_eq] at hvis
  obtain ⟨⟨⟨ho₁, hto₁⟩, -⟩, ha₁⟩ := hvis
  have hl₁ := (hs.issuer schema a c hpass g₁ hg₁ ho₁ hto₁ ha₁).resolve_left hown
  have hgiver := hc.giver hs hg₁ (g₁.active_mono ha₁ hle) (by rwa [ho₁, hto₁])
  rw [← hto₁]
  exact .full (heff.caller hpass hg₁ hto₁) ho₁ ha₁ hl₁ (ho₁ ▸ hgiver)

/-- **Access comes from the owner** in every state of a run in which only owners and holders of
`full` pass a grant on, and no `full` grant is ended or lowered while grants that its holder gave
are active. -/
theorem chained_of_run (owner : Owner) (clock : Int) (ops : List (Nat × GrantOp))
    (hrun : Along (grantStep owner) (SoundStep owner) (noGrants clock) ops) :
    Chained owner (run (grantStep owner) (noGrants clock) ops) :=
  run_induct (fun _ _ hc hs => hc.after hs) _ ops (forall_mem_nil _) hrun

/-- One memory, owned by `a`. -/
def memoryOfA : Owner := fun o => if o = ⟨.memory, 1⟩ then some "a" else none

def grantMemory (toSchema level : String) : GrantArgs :=
  ⟨some "memory", 1, some toSchema, some level, none, none⟩

theorem chained_of_run_delegated : Chained memoryOfA (run (grantStep memoryOfA) (noGrants 0)
    [(1, .grant "a" (grantMemory "b" "full")), (1, .grant "b" (grantMemory "c" "read"))]) := by
  let s₁ := grantStep memoryOfA (noGrants 0) (1, .grant "a" (grantMemory "b" "full"))
  have hfull : ∀ g ∈ s₁.grants.rows, g.grantLevel = .full := by decide
  have hgiver : ∀ g ∈ s₁.grants.rows, ∀ g' ∈ s₁.grants.rows,
      g'.grantedBySchema ≠ g.grantedToSchema := by decide
  have hfirst : SoundStep memoryOfA (noGrants 0) (1, .grant "a" (grantMemory "b" "full")) :=
    ⟨fun _ _ _ _ _ hg => absurd hg not_mem_nil, forall_mem_nil _⟩
  have hsecond : SoundStep memoryOfA s₁ (1, .grant "b" (grantMemory "c" "read")) :=
    ⟨fun _ _ _ _ g hg _ _ _ => .inr (hfull g hg),
      fun g hg _ _ ⟨_, g', hg', _, hby, _⟩ => absurd hby (hgiver g hg g' hg')⟩
  exact chained_of_run memoryOfA 0 _ ⟨hfirst, hsecond, trivial⟩

theorem Authorised.owner_or_full {b : String} (h : Authorised owner s o b) :
    owner o = some b ∨ ∃ g ∈ s.grants.rows, g.grantedToSchema = b ∧ g.grantLevel = .full := by
  cases h with
  | owner h => exact .inl h
  | full hg _ _ hl => exact .inr ⟨_, hg, rfl, hl⟩

/-- A schema with a `read` grant gives a third one a `full` grant, which is active; the giver is
neither the owner nor a holder of `full`. -/
theorem reader_grants_full :
    let s := run (grantStep memoryOfA) (noGrants 0)
      [(1, .grant "a" (grantMemory "b" "read")), (1, .grant "b" (grantMemory "c" "full"))]
    grantActive s.grants "c" s.clock ⟨.memory, 1⟩ [.full] = true ∧ ¬ Chained memoryOfA s := by
  intro s
  refine ⟨by decide, fun hc => ?_⟩
  have hgiver := hc ⟨2, ⟨.memory, 1⟩, "b", "c", .full, 2, none, none, none⟩ (by decide) (by decide)
    (by decide)
  rcases hgiver.owner_or_full with h | ⟨g, hg, hto, hl⟩
  · exact absurd h (by decide)
  · revert g
    decide

end MaluDb.Grant
