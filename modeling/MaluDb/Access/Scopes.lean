import Mathlib.Data.List.Dedup
import MaluDb.Access.Model

/-!
# The scopes of a session

What `_principal_scopes_for_schema` returns for the levels `read` and `write`, over all stored
principals and grants and all settings. NULL allows every scope (`Allows`).
-/

namespace MaluDb.Access

open MaluDb.Lib List

/-- The scopes a result of `_principal_scopes_for_schema` allows. -/
def Allows : Option (List String) → String → Prop
  | none, _ => True
  | some scopes, s => s ∈ scopes

variable {elements : String → Option (List (Option String))} {db : Principals} {ses : Session}
  {schema ref s : String} {p : Principal} {level : AccessLevel}

/-! ## The parts of the computation -/

theorem principal?_eq_some :
    db.principal? schema ref = some p ↔
      p ∈ db.principals.rows ∧ p.ownerSchema = schema ∧ p.principalRef = ref := by
  unfold Principals.principal?
  constructor
  · intro h
    have hkey := List.find?_some h
    simp only [beq_iff_eq, Prod.mk.injEq] at hkey
    exact ⟨mem_of_find?_eq_some h, hkey⟩
  · rintro ⟨hmem, rfl, rfl⟩
    exact find?_key db.unique hmem rfl

theorem mem_grantedScopes :
    s ∈ grantedScopes db schema p level ↔
      ∃ g ∈ db.liveGrants schema p, (level = .read ∨ g.accessLevel = .write) ∧ g.scope = s := by
  simp [grantedScopes, and_assoc]

theorem grantedScopes_subset_read (level : AccessLevel) :
    grantedScopes db schema p level ⊆ grantedScopes db schema p .read := by
  intro s hs
  obtain ⟨g, hg, -, rfl⟩ := mem_grantedScopes.mp hs
  exact mem_grantedScopes.mpr ⟨g, hg, Or.inl rfl, rfl⟩

theorem mem_withHome {home : Option String} {scopes : List String} :
    s ∈ withHome home scopes ↔ home = some s ∨ s ∈ scopes := by
  unfold withHome
  cases home with
  | none => simp
  | some home =>
    dsimp only
    split
    · rename_i hmem
      refine ⟨Or.inr, ?_⟩
      rintro (h | h)
      · cases h
        exact hmem
      · exact h
    · simp [eq_comm, or_comm]

theorem narrow_subset (scopes : List String) : narrow elements ses scopes ⊆ scopes := by
  unfold narrow
  split
  · exact List.Subset.refl _
  · split
    · exact nil_subset _
    · exact filter_subset_self _

theorem narrow_mono {scopes scopes' : List String} (h : scopes ⊆ scopes') :
    narrow elements ses scopes ⊆ narrow elements ses scopes' := by
  unfold narrow
  split
  · exact h
  · split
    · exact List.Subset.refl _
    · exact filter_subset _ h

/-! ## The scopes of a principal -/

theorem mem_scopesOf {schema : Option String} :
    s ∈ scopesOf elements db ses schema ref level ↔
      ∃ sch p, schema = some sch ∧ ses.usable sch = true ∧ db.principal? sch ref = some p ∧
        p.enabled = true ∧ (level = .write → ses.readonly = false) ∧
        s ∈ narrow elements ses (withHome p.homeScope (grantedScopes db sch p level)) := by
  unfold scopesOf
  cases hs : schema.filter ses.usable with
  | none =>
    refine iff_of_false not_mem_nil ?_
    rintro ⟨sch, p, rfl, husable, -⟩
    simp [Option.filter_some, husable] at hs
  | some sch =>
    obtain ⟨rfl, husable⟩ := Option.filter_eq_some_iff.mp hs
    cases hp : db.principal? sch ref with
    | none => simp [hp]
    | some p =>
      cases henabled : p.enabled <;> cases level <;> cases ses.readonly <;>
        simp [hp, husable, henabled]

theorem scopesOf_write_subset_read (schema : Option String) :
    scopesOf elements db ses schema ref .write ⊆ scopesOf elements db ses schema ref .read := by
  intro s hs
  obtain ⟨sch, p, hschema, husable, hp, henabled, -, hmem⟩ := mem_scopesOf.mp hs
  refine mem_scopesOf.mpr ⟨sch, p, hschema, husable, hp, henabled, AccessLevel.noConfusion, ?_⟩
  refine narrow_mono (fun x hx => ?_) hmem
  exact mem_withHome.mpr ((mem_withHome.mp hx).imp_right fun h => grantedScopes_subset_read _ h)

theorem scopesOf_subset_stored (hmem : p ∈ db.principals.rows) (href : p.principalRef = ref)
    (hs : s ∈ scopesOf elements db ses (some p.ownerSchema) ref level) :
    p.homeScope = some s ∨ ∃ g ∈ db.liveGrants p.ownerSchema p, g.scope = s := by
  obtain ⟨sch, p', hsch, -, hp', -, -, hnarrow⟩ := mem_scopesOf.mp hs
  cases hsch
  rw [principal?_eq_some.mpr ⟨hmem, rfl, href⟩] at hp'
  cases hp'
  refine (mem_withHome.mp (narrow_subset _ hnarrow)).imp_right fun h => ?_
  obtain ⟨g, hg, -, hscope⟩ := mem_grantedScopes.mp h
  exact ⟨g, hg, hscope⟩

def Session.unnarrowed (ses : Session) : Session := { ses with principalScopes := none }

theorem scopesOf_subset_unnarrowed (schema : Option String) :
    scopesOf elements db ses schema ref level ⊆
      scopesOf elements db ses.unnarrowed schema ref level := by
  intro s hs
  obtain ⟨sch, p, hschema, husable, hp, henabled, hro, hmem⟩ := mem_scopesOf.mp hs
  exact mem_scopesOf.mpr ⟨sch, p, hschema, husable, hp, henabled, hro, narrow_subset _ hmem⟩

theorem scopesOf_of_not_enabled {schema : Option String}
    (h : ∀ p ∈ db.principals.rows, schema = some p.ownerSchema → p.principalRef = ref →
      p.enabled = false) :
    scopesOf elements db ses schema ref level = [] := by
  refine eq_nil_iff_forall_not_mem.mpr fun s hs => ?_
  obtain ⟨sch, p, rfl, -, hp, henabled, -⟩ := mem_scopesOf.mp hs
  obtain ⟨hmem, rfl, href⟩ := principal?_eq_some.mp hp
  cases (h p hmem rfl href).symm.trans henabled

/-! ## The function -/

theorem principalScopesForSchema_eq (level : AccessLevel) (schema : Option String) :
    principalScopesForSchema elements db ses schema (some level.name) =
      .ok (ses.currentPrincipalRef.map fun ref =>
        scopesOf elements db ses schema ref level) := by
  unfold principalScopesForSchema
  cases ses.currentPrincipalRef with
  | none => rfl
  | some ref => cases level <;> rfl

/-- **The scopes of a session**: those it may write it may read, those it may read are its
principal's home scope or granted to it, a list of its own only removes scopes, and a principal that
is unknown or disabled has none. -/
theorem principal_scopes_sound (elements : String → Option (List (Option String)))
    (db : Principals) (ses : Session) (schema : Option String) :
    ∃ readable writable readable₀ writable₀,
      principalScopesForSchema elements db ses schema (some "read") = .ok readable ∧
      principalScopesForSchema elements db ses schema (some "write") = .ok writable ∧
      principalScopesForSchema elements db ses.unnarrowed schema (some "read") = .ok readable₀ ∧
      principalScopesForSchema elements db ses.unnarrowed schema (some "write") = .ok writable₀ ∧
      (∀ s, Allows writable s → Allows readable s) ∧
      (∀ p ∈ db.principals.rows, schema = some p.ownerSchema →
        ses.currentPrincipalRef = some p.principalRef → ∀ s, Allows readable s →
          p.homeScope = some s ∨ ∃ g ∈ db.liveGrants p.ownerSchema p, g.scope = s) ∧
      (∀ s, (Allows readable s → Allows readable₀ s) ∧ (Allows writable s → Allows writable₀ s)) ∧
      (∀ ref, ses.currentPrincipalRef = some ref →
        (∀ p ∈ db.principals.rows, schema = some p.ownerSchema → p.principalRef = ref →
          p.enabled = false) →
        readable = some [] ∧ writable = some []) := by
  refine ⟨_, _, _, _, principalScopesForSchema_eq .read schema,
    principalScopesForSchema_eq .write schema, principalScopesForSchema_eq .read schema,
    principalScopesForSchema_eq .write schema, ?_⟩
  have hunnarrowed : ses.unnarrowed.currentPrincipalRef = ses.currentPrincipalRef := rfl
  rw [hunnarrowed]
  cases ses.currentPrincipalRef with
  | none => simp [Allows]
  | some ref =>
    refine ⟨fun s hs => scopesOf_write_subset_read schema hs, ?_, fun s =>
      ⟨fun hs => scopesOf_subset_unnarrowed schema hs,
        fun hs => scopesOf_subset_unnarrowed schema hs⟩, ?_⟩
    · rintro p hmem rfl href s hs
      exact scopesOf_subset_stored hmem (Option.some.inj href).symm hs
    · rintro ref' href h
      cases href
      exact ⟨congrArg some (scopesOf_of_not_enabled h), congrArg some (scopesOf_of_not_enabled h)⟩

end MaluDb.Access
