import MaluDb.Gateway.Cache

/-!
# Approval of templates

`bind_prompt` takes approved templates only, and `submit_render` asks for the status again
(`maludb_core--0.106.0.sql`, 6227-6234). `call` makes a request from a bound prompt whatever has
become of the template (6314-6423), and so does `submit_render` for a caller from whom row security
hides the template (3206-3216): the status is then NULL.

Results:

* `requests_approved`: a history without such calls makes requests from approved templates only.
* `call_deprecated` and `submitRender_hidden`: the two ways in which a request is made from a
  deprecated template.
-/

namespace MaluDb.Gateway

open MaluDb.Lib List
open MaluDb.Prompt (Text Server Engine)

def Db.Approved (db : Db) (templateId : ℕ) : Prop :=
  ∃ t ∈ db.templates.rows, t.templateId = templateId ∧ t.status = .approved

instance (db : Db) (templateId : ℕ) : Decidable (db.Approved templateId) :=
  inferInstanceAs (Decidable (∃ t ∈ db.templates.rows, _ ∧ _))

/-- A request that the operation makes from a template is made while the template is approved. -/
def CreatesApproved (S : Server) (E : Engine) (db : Db) (op : Op) : Prop :=
  ∀ mr ∈ (step S E db op).requests.rows, mr.requestId ∉ db.requests.rows.map RequestRow.requestId →
    ∀ templateId, (step S E db op).templateOf? mr.toRequest = some templateId →
      db.Approved templateId

/-- If the operation is a `call` of a bound prompt, the template is approved; if it is a
`submit_render`, the caller sees the template or the template is approved. -/
def CallsApproved (db : Db) : Op → Prop
  | .submit ⟨.call (some boundPromptId) _, _, _, _, _, _, _, _⟩ _ =>
    ∀ b ∈ db.bounds.rows, b.boundPromptId = boundPromptId → db.sees b.accountId = true →
      db.Approved b.templateId
  | .submit ⟨.submitRender renderId, _, _, _, _, _, _, _⟩ _ =>
    ∀ p ∈ db.renders.rows, p.renderId = renderId → db.sees p.accountId = true →
      (∃ t ∈ db.visibleTemplates, t.templateId = p.templateId) ∨ db.Approved p.templateId
  | _ => True

/-! ## Requests that an operation makes -/

section

variable {S : Server} {db db' : Db}

theorem approved_of_prepared {c : Invocation} {r : Resolved} {cacheKey : Option Text}
    (hr : Prepared S db c r cacheKey)
    {hjson : ∀ t ∈ c.generationParams, Prompt.JsonEscapes t}
    (hcall : CallsApproved db (.submit c hjson)) : db.Approved r.prompt.templateId := by
  have hprompt := hr.prompt
  obtain ⟨routine, aliasName, accountName, params, timeoutMs, cacheMode, key, now⟩ := c
  cases routine with
  | submitRender renderId =>
    obtain ⟨p, hp, heq⟩ := Option.map_eq_some_iff.mp hprompt
    obtain ⟨hget, hsees⟩ := Option.filter_eq_some_iff.mp hp
    obtain ⟨hmem, hid⟩ := Serial.get?_eq_some.mp hget
    have htemplate : p.templateId = r.prompt.templateId := congrArg PromptRow.templateId heq
    rw [← htemplate]
    refine (hcall p hmem hid hsees).elim (fun ⟨t, ht, htid⟩ => ?_) id
    -- the status of a template that the caller sees was asked for
    obtain ⟨ht, hvisible⟩ := mem_filter.mp ht
    have hstatus : db.statusText r.prompt.templateId = some t.status.text := by
      unfold Db.statusText
      rw [Serial.get?_eq_some.mpr ⟨ht, htid.trans htemplate⟩]
      simp [Option.filter, hvisible]
    have happroved := hr.approved renderId rfl _ hstatus
    refine ⟨t, ht, htid, ?_⟩
    cases hs : t.status with
    | approved => rfl
    | draft | deprecated => simp [hs, TemplateStatus.text] at happroved
  | call bound sessionId =>
    cases bound with
    | none => cases hprompt
    | some boundPromptId =>
      obtain ⟨b, hb, heq⟩ := Option.map_eq_some_iff.mp hprompt
      obtain ⟨hget, hsees⟩ := Option.filter_eq_some_iff.mp hb
      obtain ⟨hmem, hid⟩ := Serial.get?_eq_some.mp hget
      rw [← heq]
      exact hcall b hmem hid hsees

section

variable (href : Referring db) {c : Invocation} {r : Resolved} {cacheKey : Option Text}
  (hr : Prepared S db c r cacheKey)
include href hr

theorem templateOf?_newRequest (hrenders : db'.renders = db.renders) {mr : Request}
    (hmr : mr.inputs = (newRequest r cacheKey).inputs) :
    db'.templateOf? mr = some r.prompt.templateId := by
  obtain ⟨p, hp, hid, htemplate, -⟩ := ofRender_of_prepared href hr
  rw [← htemplate]
  exact templateOf?_eq_some (hrenders ▸ hp) ((congrArg Inputs.promptRenderId hmr).trans hid)

end

theorem Made.request_cases {c : Invocation} (h : Made S db c db') {mr : RequestRow}
    (hmr : mr ∈ db'.requests.rows)
    (hnew : mr.requestId ∉ db.requests.rows.map RequestRow.requestId) :
    ∃ r cacheKey, Prepared S db c r cacheKey ∧ mr.inputs = (newRequest r cacheKey).inputs := by
  have hold : ∀ {row : RequestRow}, row ∈ db.requests.rows → row.requestId ≠ mr.requestId :=
    fun hrow heq => hnew (heq ▸ mem_map_of_mem hrow)
  cases h with
  | nothing => exact absurd rfl (hold hmr)
  | request hr =>
    rcases mem_insertRequest.mp hmr with hmem | rfl
    · exact absurd rfl (hold hmem)
    · exact ⟨_, _, hr, rfl⟩
  | @hit r cacheKey original x db₂ hr hcache hx hdb₂ =>
    obtain ⟨-, -, -, hrequests, -⟩ := insertResponse_eq_some hdb₂
    obtain ⟨row, hrow, hupdate⟩ := mem_updateWhere.mp hmr
    rw [hrequests] at hrow
    have hinputs : mr.inputs = row.inputs ∧ mr.requestId = row.requestId := by
      rw [← hupdate]
      split <;> exact ⟨rfl, rfl⟩
    rcases mem_insertRequest.mp hrow with hmem | rfl
    · exact absurd hinputs.2.symm (hold hmem)
    · exact ⟨r, some cacheKey, hr, hinputs.1⟩

theorem createsApproved_step (S : Server) (E : Engine) {op : Op} (href : Referring db)
    (hcall : CallsApproved db op) : CreatesApproved S E db op := by
  intro mr hmr hnew templateId ht
  have hleaves := step_leaves S E db op
  generalize step S E db op = db' at hleaves hmr ht
  have hold : db'.requests = db.requests → False :=
    fun heq => hnew (mem_map_of_mem (heq ▸ hmr))
  cases hleaves with
  | same => exact (hold rfl).elim
  | administered ha => exact (hold ha.requests).elim
  | render _ _ => exact (hold rfl).elim
  | bind _ _ _ => exact (hold rfl).elim
  | submit hmade =>
    obtain ⟨-, hrenders, -⟩ := hmade.tables
    obtain ⟨r, cacheKey, hr, hinputs⟩ := hmade.request_cases hmr hnew
    rw [templateOf?_newRequest href hr hrenders hinputs] at ht
    cases ht
    exact approved_of_prepared hr hcall
  | plain hrender hkey =>
    rcases mem_insertRequest.mp hmr with hmem | rfl
    · exact absurd (mem_map_of_mem hmem) hnew
    · unfold Db.templateOf? at ht
      rw [hrender] at ht
      cases ht
  | record hw => exact (hold (record_tables hw).2.2.2).elim

end

/-! ## Histories -/

/-- **A request is made from a template only while the template is approved**, if no bound prompt is
called whose template is no longer approved, and no render is submitted by a caller from whom row
security hides a template that is not approved. -/
theorem requests_approved (S : Server) (E : Engine) (c : Catalog) (ops : List Op)
    (hcalls : Along (step S E) CallsApproved (Db.empty c) ops) :
    Along (step S E) (CreatesApproved S E) (Db.empty c) ops :=
  along_induct (I := Referring)
    (fun _ op href hcall => ⟨createsApproved_step S E href hcall, referring_step S E op href⟩)
    (Db.empty c) ops (referring_empty c) hcalls

section

def plainTemplate : TemplateArgs := ⟨"t".toList, "hello".toList, none, none, none, none, none⟩

def bindFirst : List Op :=
  [.registerPromptTemplate plainTemplate, .bindPrompt ⟨"t".toList, none, none, some 1, none, none⟩]

/-- `call` of the first bound prompt. -/
def callBound : Op :=
  .submit ⟨.call (some 1) none, "model", none, none, 30000, "off", none, 3⟩ nofun

theorem requests_approved_bound :
    Along (step hexServer plainEngine) (CreatesApproved hexServer plainEngine)
      (Db.empty sessionCatalog) (bindFirst ++ [callBound]) ∧
    (after (bindFirst ++ [callBound])).requests.rows.length = 1 := by
  have hbound : ∀ b ∈ (after bindFirst).bounds.rows, b.boundPromptId = 1 →
      (after bindFirst).Approved b.templateId := by decide +kernel
  have hcall : CallsApproved (after bindFirst) callBound := fun b hb hid _ => hbound b hb hid
  exact ⟨requests_approved hexServer plainEngine sessionCatalog (bindFirst ++ [callBound])
    ⟨trivial, trivial, hcall, trivial⟩, by decide +kernel⟩

/-- A history in which the last operation makes request 1 from template 1, which is not approved. -/
theorem not_along_createsApproved {ops : List Op} {op : Op}
    (hrequest : ∃ mr ∈ (after (ops ++ [op])).requests.rows,
      (after (ops ++ [op])).templateOf? mr.toRequest = some 1)
    (hnone : (after ops).requests.rows.map RequestRow.requestId = [])
    (hstatus : ¬ (after ops).Approved 1) :
    ¬ Along (step hexServer plainEngine) (CreatesApproved hexServer plainEngine)
      (Db.empty sessionCatalog) (ops ++ [op]) := by
  intro hcreates
  obtain ⟨mr, hmr, htemplate⟩ := hrequest
  have hlast : CreatesApproved hexServer plainEngine (after ops) op :=
    (along_append.mp hcreates).2.1
  have hafter : after (ops ++ [op]) = step hexServer plainEngine (after ops) op := by
    unfold after
    rw [run_append]
    rfl
  rw [hafter] at hmr htemplate
  exact hstatus (hlast mr hmr (hnone ▸ not_mem_nil) 1 htemplate)

/-- **A request is made from a deprecated template**, by a `call` of a prompt that was bound
before. -/
theorem call_deprecated :
    ¬ Along (step hexServer plainEngine) (CreatesApproved hexServer plainEngine)
      (Db.empty sessionCatalog) (bindFirst ++ [.deprecatePrompt "t".toList none, callBound]) :=
  @not_along_createsApproved (bindFirst ++ [.deprecatePrompt "t".toList none]) callBound
    (by decide +kernel) (by decide +kernel) (by decide +kernel)

/-- A private template, a prompt bound from it for no account, and the template deprecated; then
another account comes. -/
def hideDeprecated : List Op :=
  [.registerPromptTemplate { plainTemplate with ownerAccount := some "tenant" },
    .bindPrompt ⟨"t".toList, none, none, none, none, none⟩, .deprecatePrompt "t".toList none,
    .configure { sessionCatalog with currentAccount := some 2 }]

/-- `submit_render` of the first render. -/
def submitFirst : Op :=
  .submit ⟨.submitRender 1, "model", none, none, 30000, "off", none, 3⟩ nofun

/-- **A request is made from a deprecated template**, by a `submit_render` of a caller who does not
see the template. -/
theorem submitRender_hidden :
    ¬ Along (step hexServer plainEngine) (CreatesApproved hexServer plainEngine)
      (Db.empty sessionCatalog) (hideDeprecated ++ [submitFirst]) :=
  not_along_createsApproved (by decide +kernel) (by decide +kernel) (by decide +kernel)

end

end MaluDb.Gateway
