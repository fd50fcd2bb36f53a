import MaluDb.Gateway.Store

/-!
# Templates, renders and binds

The functions that register, approve, deprecate, review, render and bind prompt templates.

* A template is registered as approved. An operator may also insert one with another status, or
  set a status by an UPDATE.
* `bindPrompt` takes approved templates only; `renderPrompt` takes any.
* Of columns that no function reads, what is computed for them may raise, and does so here too.
-/

namespace MaluDb.Gateway

open MaluDb.Lib List
open MaluDb.Prompt (Text Server Engine Variables BindOptions BindError RenderError BadBytea Supplied
  renderCompose renderSubstitute renderCore hashText stringAgg ContextBlock validateBindVariables
  defaultBindOptions left)

/-! ## Errors -/

inductive PromptError where
  | unknownAccount (name : String)
  | unknownSafetyPolicy (name : String)
  | unknownTemplate (name : Text) (version : Option ℤ)
  | cannotApprove (name : Text)
  | cannotReview (name : Text)
  | notApproved (name : Text) (version : ℤ) (status : TemplateStatus)
  | unknownSession (session : ℕ)
  | renderTooLarge (length : ℕ) (cap : ℤ)
  | duplicateVersion
  | notNull (column : String)
  | badBytea (e : BadBytea)
  | bind (e : BindError)
  | render (e : RenderError)

def PromptError.message : PromptError → String
  | .unknownAccount name => "unknown account: " ++ name
  | .unknownSafetyPolicy name => "unknown safety_policy: " ++ name
  | .unknownTemplate name version =>
    "unknown prompt template: " ++ String.ofList name ++ " (version " ++
      (version.map toString).getD "latest" ++ ")"
  | .cannotApprove name => "PROMPT_LIFECYCLE_INVALID: cannot approve a deprecated template (" ++
      String.ofList name ++ "); rehab via UPDATE first"
  | .cannotReview name =>
    "PROMPT_LIFECYCLE_INVALID: cannot request_review on a deprecated template (" ++
      String.ofList name ++ ")"
  | .notApproved name version status =>
    "PROMPT_NOT_APPROVED: template " ++ String.ofList name ++ s!" (version {version}) has status "
      ++ status.text ++ "; only approved templates may be bound"
  | .unknownSession session => s!"unknown session: {session}"
  | .renderTooLarge length cap =>
    s!"BIND_RENDER_TOO_LARGE: rendered prompt {length} chars exceeds cap {cap}"
  | .duplicateVersion => "duplicate key value violates unique constraint " ++
      "\"malu$prompt_template_owner_template_name_version_key\""
  | .notNull column => "null value in column \"" ++ column ++ "\" violates not-null constraint"
  | .badBytea e => e.message
  | .bind e => e.message
  | .render e => e.message

/-! ## Templates -/

/-- The arguments of `register_prompt_template` that are stored and read. -/
structure TemplateArgs where
  name : Text
  body : Text
  ownerAccount : Option String
  version : Option ℤ
  systemTemplate : Option Text
  developerTemplate : Option Text
  userTemplate : Option Text

section

variable (db : Db) (templateId : ℕ)

def Db.nextVersion (name : Text) : ℤ :=
  ((db.visibleTemplates.filter (·.templateName = name)).foldl
    (fun v t => max v t.templateVersion) 0) + 1

/-- An INSERT into `malu$prompt_template`. The unique key covers the rows that are hidden too. -/
def Db.insertTemplate (a : TemplateArgs) (owner : Option ℕ) (status : TemplateStatus) :
    Except PromptError Db :=
  let version := a.version.getD (db.nextVersion a.name)
  if db.templates.rows.any fun t => t.templateName = a.name && t.templateVersion = version then
    .error .duplicateVersion
  else
    .ok { db with
      templates := db.templates.insert
        (fun id => ⟨⟨id, a.name, version, a.body, a.systemTemplate, a.developerTemplate,
          a.userTemplate, true⟩, owner, status⟩) fun _ => rfl }

def Db.registerPromptTemplate (a : TemplateArgs) : Except PromptError Db :=
  match a.ownerAccount with
  | some name =>
    match db.catalog.accounts.find? (·.accountName = name) with
    | some ac => db.insertTemplate a (some ac.accountId) .approved
    | none => .error (.unknownAccount name)
  | none => db.insertTemplate a none .approved

/-- `_resolve_template_for_lifecycle`: a version, or the highest one. -/
def Db.resolveTemplate (name : Text) (version : Option ℤ) : Except PromptError TemplateRow :=
  let found :=
    match version with
    | none => ((db.visibleTemplates.filter (·.templateName = name)).insertionSort
        fun a b => b.templateVersion ≤ a.templateVersion).head?
    | some v => db.visibleTemplates.find? fun t => t.templateName = name ∧ t.templateVersion = v
  match found with
  | none => .error (.unknownTemplate name version)
  | some t => .ok t

/-- `UPDATE malu$prompt_template SET status = … WHERE template_id = …`. -/
def Db.setStatus (status : TemplateStatus) : Db :=
  { db with
    templates := db.templates.update (·.templateId = templateId)
      (fun t => { t with status := status }) fun _ => rfl }

def Db.approvePrompt (name : Text) (version : Option ℤ) (safetyPolicy : Option String)
    (approver : Option String) : Except PromptError Db := do
  let t ← db.resolveTemplate name version
  if t.status = .deprecated then .error (.cannotApprove name)
  else
    match safetyPolicy.filter (· ∉ db.catalog.safetyPolicies) with
    | some policy => .error (.unknownSafetyPolicy policy)
    | none =>
      match approver.filter (· ∉ db.catalog.accounts.map Account.accountName) with
      | some account => .error (.unknownAccount account)
      | none => .ok (db.setStatus t.templateId .approved)

def Db.deprecatePrompt (name : Text) (version : Option ℤ) : Except PromptError Db := do
  let t ← db.resolveTemplate name version
  return db.setStatus t.templateId .deprecated

def Db.requestReview (name : Text) (version : Option ℤ) : Except PromptError Db := do
  let t ← db.resolveTemplate name version
  if t.status = .deprecated then .error (.cannotReview name)
  else .ok (db.setStatus t.templateId .draft)

/-! ## Renders -/

def Db.tables : Prompt.Tables where
  sessions := db.catalog.sessions.map Session.sessionId
  templates := db.visibleTemplates.map TemplateRow.toTemplate
  contexts := db.catalog.contexts

def Db.sessionAccount? (session : ℕ) : Option ℕ :=
  (db.catalog.sessions.find? (·.sessionId = session)).map Session.accountId

/-- An INSERT into `malu$prompt_render`. -/
def Db.insertRender (sessionId accountId : Option ℕ) (renderedPrompt promptHash : Text) : Db :=
  { db with
    renders := db.renders.insert
      (fun id => ⟨id, templateId, sessionId, accountId, renderedPrompt, promptHash⟩) fun _ => rfl }

/-- An INSERT into `malu$prompt_render` and one into `malu$bound_prompt` that points to it. -/
def Db.insertBound (sessionId accountId : Option ℕ) (renderedFull promptHash : Text) : Db :=
  { db.insertRender templateId sessionId accountId renderedFull promptHash with
    bounds := db.bounds.insert (fun id => ⟨id, some db.renders.next, templateId, accountId,
      sessionId, renderedFull, promptHash⟩) fun _ => rfl }

end

section

variable {db : Db} {templateId : ℕ} {sessionId accountId : Option ℕ} {text hash : Text}

theorem mem_insertRender {row : RenderRow} :
    row ∈ (db.insertRender templateId sessionId accountId text hash).renders.rows ↔
      row ∈ db.renders.rows ∨
        row = ⟨db.renders.next, templateId, sessionId, accountId, text, hash⟩ :=
  Serial.mem_insert

theorem mem_insertBound {row : BoundRow} :
    row ∈ (db.insertBound templateId sessionId accountId text hash).bounds.rows ↔
      row ∈ db.bounds.rows ∨ row =
          ⟨db.bounds.next, some db.renders.next, templateId, accountId, sessionId, text, hash⟩ :=
  Serial.mem_insert

end

section

variable (S : Server) (db : Db) (name : Text)

def Db.renderPrompt (session : ℕ) (name : Text) (version : Option ℤ) (vars : Option Variables) :
    Except PromptError Db := do
  let core ← (renderCore S db.tables session name version vars).mapError .render
  match core.renderedPrompt, core.promptHash with
  | some renderedPrompt, some promptHash =>
    return db.insertRender core.templateId (some session) (db.sessionAccount? session)
      renderedPrompt promptHash
  | _, _ => .error (.notNull "rendered_prompt")

/-! ## Binds -/

/-- `vars || jsonb_build_object(key, value)`. -/
def putVariable (vars : Variables) (key value : Text) : Variables where
  entries := (key, some value) :: (vars.erase key).entries
  distinct := by
    refine nodup_cons.mpr ⟨fun h => ?_, (vars.erase key).distinct⟩
    obtain ⟨var, hvar, hkey⟩ := mem_map.mp h
    have hne := (mem_filter.mp hvar).2
    simp [hkey] at hne

def normalized (bound : List (Text × Text)) : Variables :=
  bound.foldl (fun vars var => putVariable vars var.1 var.2) .empty

def Db.template? : Option ℤ → Option TemplateRow
  | none => ((db.visibleTemplates.filter fun t => t.templateName = name ∧ t.enabled = true
      ).insertionSort fun a b => b.templateVersion ≤ a.templateVersion).head?
  | some version =>
    db.visibleTemplates.find? fun t => t.templateName = name ∧ t.templateVersion = version

/-- The arguments of `bind_prompt`. -/
structure BindArgs where
  templateName : Text
  vars : Option Supplied
  opts : Option BindOptions
  sessionId : Option ℕ
  templateVersion : Option ℤ
  accountId : Option ℕ

/-- What is hashed for `_template_hash`. -/
def templateText (t : TemplateRow) : Text :=
  [Char.ofNat 31].intercalate
    [t.systemTemplate.getD [], t.developerTemplate.getD [], t.userTemplate.getD [], t.body]

def Db.withContext (full : Option Text) :
    Option ℕ → Except PromptError (Option Text)
  | none => .ok full
  | some session =>
    if session ∈ db.tables.sessions then do
      let _ ← (hashText S (stringAgg ['|'] ((db.tables.context session).map
        ContextBlock.contentHash))).mapError .badBytea
      return full.map (· ++ db.tables.appended session)
    else .error (.unknownSession session)

/-- The cap on the text. -/
def capText (opts : BindOptions) (full : Option Text) : Except PromptError (Option Text) :=
  match opts.maxRenderedPromptChars, full with
  | some cap, some t =>
    if cap < t.length then
      if opts.onTruncate.getD "error" = "error" then .error (.renderTooLarge t.length cap)
      else .ok (some (left t cap))
    else .ok full
  | _, _ => .ok full

/-- `bind_prompt`, from the rendered text on. -/
def Db.finishBind (a : BindArgs) (t : TemplateRow) (full : Option Text) :
    Except PromptError Db := do
  let full ← db.withContext S full a.sessionId
  let accountId := a.accountId <|> a.sessionId.bind db.sessionAccount?
  let _ ← (hashText S full).mapError .badBytea
  let full ← capText (a.opts.getD defaultBindOptions) full
  let promptHash ← (hashText S full).mapError .badBytea
  let _ ← (hashText S (some (templateText t))).mapError .badBytea
  match full, promptHash with
  | some full, some promptHash =>
    return db.insertBound t.templateId a.sessionId accountId full promptHash
  | _, _ => .error (.notNull "rendered_prompt")

def Db.bindPrompt (E : Engine) (db : Db) (a : BindArgs) : Except PromptError Db :=
  match db.template? a.templateName a.templateVersion with
  | none => .error (.unknownTemplate a.templateName a.templateVersion)
  | some t =>
    if t.status ≠ .approved then .error (.notApproved t.templateName t.templateVersion t.status)
    else do
      let validation ← (validateBindVariables S E (db.catalog.declared t.templateId) a.vars
        a.opts).mapError .bind
      db.finishBind S a t
        (renderSubstitute S (renderCompose t.toTemplate)
          (normalized validation.normalizedVariables))

end

/-! ## What they leave -/

section

variable {S : Server} {E : Engine} {db db' : Db}

theorem hashOf_of_hashText {t hash : Text} (h : hashText S (some t) = .ok (some hash)) :
    hashOf S t = .ok hash := by
  obtain ⟨bytes, hbytes, heq⟩ := map_eq_ok.mp h
  exact map_eq_ok.mpr ⟨bytes, hbytes, Option.some.inj heq⟩

variable {name : Text} {version : Option ℤ}

theorem mem_of_head?_sorted {α : Type} {l : List α} {p : α → Bool} {r : α → α → Prop}
    [DecidableRel r] {a : α} (h : ((l.filter p).insertionSort r).head? = some a) : a ∈ l :=
  mem_of_mem_filter ((mem_insertionSort _).mp (mem_of_mem_head? h))

theorem template?_mem {t : TemplateRow} (h : db.template? name version = some t) :
    t ∈ db.templates.rows := by
  cases version with
  | none => exact mem_of_mem_filter (mem_of_head?_sorted h)
  | some version => exact mem_of_mem_filter (mem_of_find?_eq_some h)

theorem tables_template?_mem {t : Prompt.Template} (h : db.tables.template? name version = some t) :
    ∃ row ∈ db.templates.rows, row.toTemplate = t := by
  have hvisible : t ∈ db.visibleTemplates.map TemplateRow.toTemplate := by
    cases version with
    | none => exact mem_of_head?_sorted h
    | some version => exact mem_of_find?_eq_some h
  obtain ⟨row, hrow, rfl⟩ := mem_map.mp hvisible
  exact ⟨row, mem_of_mem_filter hrow, rfl⟩

theorem renderCore_eq_ok {tables : Prompt.Tables} {session : ℕ} {vars : Option Variables}
    {core : Prompt.Rendered} (h : renderCore S tables session name version vars = .ok core) :
    ∃ t, tables.template? name version = some t ∧ core.templateId = t.templateId ∧
      hashText S core.renderedPrompt = .ok core.promptHash := by
  unfold renderCore at h
  split at h
  · split at h
    · cases h
    rename_i t ht
    obtain ⟨contextHash, -, h⟩ := bind_eq_ok.mp h
    obtain ⟨promptHash, hhash, h⟩ := bind_eq_ok.mp h
    cases h
    exact ⟨t, ht, rfl, mapError_eq_ok.mp hhash⟩
  · cases h

theorem renderPrompt_eq_ok {session : ℕ} {vars : Option Variables}
    (h : db.renderPrompt S session name version vars = .ok db') :
    ∃ t ∈ db.templates.rows, ∃ account text hash, hashOf S text = .ok hash ∧
      db' = db.insertRender t.templateId (some session) account text hash := by
  obtain ⟨core, hcore, h⟩ := bind_eq_ok.mp h
  obtain ⟨t, ht, hid, hhash⟩ := renderCore_eq_ok (mapError_eq_ok.mp hcore)
  obtain ⟨row, hrow, rfl⟩ := tables_template?_mem ht
  split at h
  · rename_i text hash htext hpromptHash
    cases h
    rw [htext, hpromptHash] at hhash
    exact ⟨row, hrow, _, text, hash, hashOf_of_hashText hhash, by rw [hid]⟩
  · cases h

theorem bindPrompt_eq_ok {a : BindArgs} (h : db.bindPrompt S E a = .ok db') :
    ∃ t ∈ db.templates.rows, t.status = .approved ∧ ∃ account text hash, hashOf S text = .ok hash ∧
        db' = db.insertBound t.templateId a.sessionId account text hash := by
  unfold Db.bindPrompt at h
  split at h
  · cases h
  rename_i t ht
  split at h
  · cases h
  rename_i hstatus
  obtain ⟨validation, -, h⟩ := bind_eq_ok.mp h
  obtain ⟨withContext, -, h⟩ := bind_eq_ok.mp h
  obtain ⟨uncapped, -, h⟩ := bind_eq_ok.mp h
  obtain ⟨full, -, h⟩ := bind_eq_ok.mp h
  obtain ⟨promptHash, hhash, h⟩ := bind_eq_ok.mp h
  obtain ⟨templateHash, -, h⟩ := bind_eq_ok.mp h
  rw [mapError_eq_ok] at hhash
  cases full with
  | none => cases h
  | some text =>
    cases promptHash with
    | none => cases h
    | some hash =>
      cases h
      exact ⟨t, template?_mem ht, not_not.mp hstatus, _, text, hash, hashOf_of_hashText hhash, rfl⟩

end

end MaluDb.Gateway
