import MaluDb.Gateway.Budget
import MaluDb.Gateway.Prompts
import MaluDb.Lib.Run
import MaluDb.Prompt.Bytea

/-!
# Histories of the model gateway

The gateway as a machine whose operations are whole calls, one after the other. `execute` is one
statement of a call that runs alone: it gives the frames of `Gateway.Submit` the answers of the
tables. `submit` runs a call to its end. A call that fails leaves nothing.
-/

namespace MaluDb.Gateway

open MaluDb.Lib List
open MaluDb.Prompt (Text Server Engine Variables JsonEscapes utf8)

/-! ## Lookups -/

section

variable (db : Db) (cacheKey : Text) (name : String)

/-- The row of `malu$prompt_render` or of `malu$bound_prompt` that a call is for. -/
def Db.promptRow? : Routine → Option PromptRow
  | .submitRender renderId =>
    ((db.renders.get? renderId).filter fun r => db.sees r.accountId).map fun r =>
      ⟨r.templateId, r.accountId, r.sessionId, some r.renderId, r.renderedPrompt, r.promptHash⟩
  | .call none _ => none
  | .call (some boundPromptId) _ =>
    ((db.bounds.get? boundPromptId).filter fun b => db.sees b.accountId).map fun b =>
      ⟨b.templateId, b.accountId, b.sessionId, b.renderId, b.renderedFull, b.promptHash⟩

/-- The status of a template, if the caller sees the template. -/
def Db.statusText (templateId : ℕ) : Option String :=
  ((db.templates.get? templateId).filter fun t => db.sees t.ownerAccountId).map (·.status.text)

def Db.alias? : Option ℕ :=
  (db.catalog.aliases.find? fun a => a.aliasName = name && a.enabled).map Alias.aliasId

def Db.account? : Option ℕ :=
  (db.catalog.accounts.find? (·.accountName = name)).map Account.accountId

def Db.lookupIdempotentRequest (account : Option ℕ) (key : String) : Option ℕ :=
  ((db.requests.rows.filter (·.Has account key)).insertionSort
    fun a b => a.submittedAt ≤ b.submittedAt).head?.map RequestRow.requestId

def isCached (x : RequestRow × ResponseRow) : Bool :=
  x.1.cacheKey = some cacheKey && x.2.cacheHit = false && x.2.status = .succeeded

def Db.lookupCache : Option ℕ :=
  (((innerJoin db.requests.rows db.responses.rows fun mr x => x.requestId = mr.requestId).filter
    (isCached cacheKey)).insertionSort fun a b => b.1.submittedAt ≤ a.1.submittedAt).head?.map
      (·.1.requestId)

end

theorem responseOf?_eq_some {db : Db} {requestId : ℕ} {x : ResponseRow} :
    db.responseOf? requestId = some x ↔ x ∈ db.responses.rows ∧ x.requestId = requestId := by
  constructor
  · intro h
    exact ⟨mem_of_find?_eq_some h, by simpa using List.find?_some h⟩
  · rintro ⟨hx, hid⟩
    exact find?_key db.answeredOnce hx hid

theorem lookupCache_eq_some {db : Db} {cacheKey : Text} {original : ℕ}
    (h : db.lookupCache cacheKey = some original) :
    ∃ mr ∈ db.requests.rows, mr.requestId = original ∧ mr.cacheKey = some cacheKey ∧
      ∃ x, db.responseOf? original = some x ∧ x.cacheHit = false ∧ x.status = .succeeded := by
  obtain ⟨⟨mr, x⟩, hhead, rfl⟩ := Option.map_eq_some_iff.mp h
  have hmem := (mem_insertionSort _).mp (mem_of_mem_head? hhead)
  obtain ⟨hjoin, hcached⟩ := mem_filter.mp hmem
  unfold innerJoin at hjoin
  simp only [mem_flatMap, mem_map, mem_filter, decide_eq_true_eq, Prod.mk.injEq] at hjoin
  obtain ⟨mr', hmr, x', ⟨hx, hid⟩, rfl, rfl⟩ := hjoin
  simp only [isCached, Bool.and_eq_true, decide_eq_true_eq] at hcached
  exact ⟨mr', hmr, rfl, hcached.1.1, x', responseOf?_eq_some.mpr ⟨hx, hid⟩, hcached.1.2, hcached.2⟩

/-! ## Writes -/

/-- The INSERT of a request. -/
def Db.insertRequest (db : Db) (mr : Request) : Db :=
  { db with requests := db.requests.insert (fun id => ⟨mr, id⟩) fun _ => rfl }

theorem mem_insertRequest {db : Db} {mr : Request} {row : RequestRow} :
    row ∈ (db.insertRequest mr).requests.rows ↔
      row ∈ db.requests.rows ∨ row = ⟨mr, db.requests.next⟩ := by
  have hrows : (db.insertRequest mr).requests.rows
      = db.requests.rows ++ [⟨mr, db.requests.next⟩] := rfl
  rw [hrows, mem_append, mem_singleton]

/-- `UPDATE malu$model_request SET status = 'succeeded' WHERE request_id = …`. -/
def Db.succeedRequest (db : Db) (requestId : ℕ) : Db :=
  { db with
    requests := db.requests.update (·.requestId = requestId)
      (fun mr => { mr with succeeded := true }) fun _ => rfl }

def Db.insertResponse (db : Db) (requestId : ℕ) (mk : ℕ → ResponseRow)
    (hid : ∀ k, (mk k).responseId = k) (hrequest : ∀ k, (mk k).requestId = requestId) :
    Option Db :=
  if h : requestId ∈ db.responses.rows.map ResponseRow.requestId then none
  else
    some { db with
      responses := db.responses.insert mk hid
      answeredOnce := Serial.nodup_map_insert hid db.answeredOnce (by rwa [hrequest]) }

theorem insertResponse_eq_some {db db' : Db} {requestId : ℕ} {mk : ℕ → ResponseRow}
    {hid : ∀ k, (mk k).responseId = k} {hrequest : ∀ k, (mk k).requestId = requestId}
    (h : db.insertResponse requestId mk hid hrequest = some db') :
    db'.templates = db.templates ∧ db'.renders = db.renders ∧ db'.bounds = db.bounds ∧
      db'.requests = db.requests ∧ db'.responses = db.responses.insert mk hid := by
  unfold Db.insertResponse at h
  split at h
  · cases h
  · cases h
    exact ⟨rfl, rfl, rfl, rfl, rfl⟩

def cachedRow (x : ResponseRow) (requestId original now responseId : ℕ) : ResponseRow where
  responseId := responseId
  requestId := requestId
  status := .succeeded
  output := x.output
  promptTokens := some 0
  completionTokens := some 0
  latencyMs := some 0
  errorClass := none
  userSafeError := none
  finishedAt := now
  cacheHit := true
  cachedFromRequestId := some original

/-! ## Calls -/

/-- The message of `check_budget`, if it raises. -/
def Db.budgetMessage (db : Db) (r : Resolved) : Option String :=
  match checkBudget db r.account r.prompt.templateId r.invocation.now with
  | .ok _ => none
  | .error e => some e.message

def execute (S : Server) : Frame × Db → Frame × Db
  | (.prompt c, db) => (afterPrompt c (db.promptRow? c.routine), db)
  | (.status c p, db) => (afterStatus c p (db.statusText p.templateId), db)
  | (.modelAlias c p, db) => (afterAlias c p (db.alias? c.aliasName), db)
  | (.account c p aliasId, db) =>
    (afterAccount c p aliasId (c.accountName.bind db.account?) db.catalog.currentAccount, db)
  | (.lookup r, db) => (afterLookup r (r.key.bind (db.lookupIdempotentRequest r.account)), db)
  | (.cache r, db) => (afterCache S r ((computeCacheKey S r).toOption.bind db.lookupCache), db)
  | (.budget r cacheKey, db) => (afterBudget r cacheKey (db.budgetMessage r), db)
  | (.insert r cacheKey original, db) =>
    if r.invocation.timeoutMs ≤ 0 then (.failed .timeoutViolation, db)
    else if db.requests.rows.any fun mr => mr.accountId.isSome && mr.idempotencyKey.isSome &&
        mr.accountId = r.account && mr.idempotencyKey = r.key then
      (.failed .uniqueViolation, db)
    else (afterInsert r db.requests.next original, db.insertRequest (newRequest r cacheKey))
  | (.cachedResponse r id original, db) =>
    match db.responseOf? original with
    | none => (afterCachedResponse r id original false, db)
    | some x =>
      match db.insertResponse id (cachedRow x id original r.invocation.now) (fun _ => rfl)
          fun _ => rfl with
      -- the request is new, so it has no response yet
      | none => (.failed .uniqueViolation, db)
      | some db' => (afterCachedResponse r id original true, db')
  | (.succeed r id, db) => (.returned r id, db.succeedRequest id)
  | (.returned r id, db) => (.returned r id, db)
  | (.failed e, db) => (.failed e, db)

/-- `submit_render` or `call` to its end. -/
def submit (S : Server) (db : Db) (c : Invocation) : Frame × Db :=
  match (execute S)^[9] (.prompt c, db) with
  | (.returned r id, db') => (.returned r id, db')
  | (l, _) => (l, db)

/-! ## What a call leaves -/

/-- A request is about to be made: its prompt is that of the call, the template of a render is
approved, and a cache key is computed from what is resolved. -/
structure Prepared (S : Server) (db : Db) (c : Invocation) (r : Resolved)
    (cacheKey : Option Text) : Prop where
  invocation : r.invocation = c
  prompt : db.promptRow? c.routine = some r.prompt
  approved : ∀ renderId, c.routine = .submitRender renderId →
    ∀ status ∈ db.statusText r.prompt.templateId, status = "approved"
  key : ∀ t ∈ cacheKey, computeCacheKey S r = .ok t

/-- What a call that returned has left: nothing new, a request, or a request with a copied
response. -/
inductive Made (S : Server) (db : Db) (c : Invocation) : Db → Prop
  | nothing : Made S db c db
  | request {r : Resolved} {cacheKey : Option Text} (h : Prepared S db c r cacheKey) :
    Made S db c (db.insertRequest (newRequest r cacheKey))
  | hit {r : Resolved} {cacheKey : Text} {original : ℕ} {x : ResponseRow} {db' : Db}
    (h : Prepared S db c r (some cacheKey)) (hcache : db.lookupCache cacheKey = some original)
    (hx : db.responseOf? original = some x)
    (hdb' : (db.insertRequest (newRequest r (some cacheKey))).insertResponse db.requests.next
      (cachedRow x db.requests.next original c.now) (fun _ => rfl) (fun _ => rfl) = some db') :
    Made S db c (db'.succeedRequest db.requests.next)

/-- What holds of a call that started in `db`, wherever it stands. -/
def At (S : Server) (db : Db) (c : Invocation) : Frame × Db → Prop
  | (.prompt c', db') => c' = c ∧ db' = db
  | (.status c' p, db') => c' = c ∧ db' = db ∧ db.promptRow? c.routine = some p
  | (.modelAlias c' p, db') | (.account c' p _, db') => c' = c ∧ db' = db ∧
      ∀ aliasId account, Prepared S db c ⟨c, p, aliasId, account⟩ none
  | (.lookup r, db') | (.cache r, db') => db' = db ∧ Prepared S db c r none
  | (.budget r cacheKey, db') => db' = db ∧ Prepared S db c r cacheKey
  | (.insert r cacheKey original, db') => db' = db ∧ Prepared S db c r cacheKey ∧
      ∀ id ∈ original, ∃ t, cacheKey = some t ∧ db.lookupCache t = some id
  | (.cachedResponse r id original, db') => id = db.requests.next ∧ ∃ t,
      Prepared S db c r (some t) ∧ db.lookupCache t = some original ∧
        db' = db.insertRequest (newRequest r (some t))
  | (.succeed _ id, db') => Made S db c (db'.succeedRequest id)
  | (.returned _ _, db') => Made S db c db'
  | (.failed _, _) => True

section

variable {S : Server} {db db' : Db} {c : Invocation}

theorem at_afterPrompt (answer : Option PromptRow) (h : db.promptRow? c.routine = answer) :
    At S db c (afterPrompt c answer, db) := by
  unfold afterPrompt
  split
  · trivial
  split
  · trivial
  · exact ⟨rfl, rfl, h⟩
  · trivial
  · trivial
  rename_i p hroutine
  refine ⟨rfl, rfl, fun aliasId account => ⟨rfl, h, fun renderId heq => ?_, nofun⟩⟩
  rw [hroutine] at heq
  cases heq

theorem at_afterStatus {p : PromptRow} (h : db.promptRow? c.routine = some p) :
    At S db c (afterStatus c p (db.statusText p.templateId), db) := by
  unfold afterStatus
  split
  · split
    · trivial
    · rename_i hstatus
      have happroved : ∀ status ∈ db.statusText p.templateId, status = "approved" := by
        intro status hmem
        rw [Option.filter_eq_none_iff] at hstatus
        simpa using hstatus status hmem
      exact ⟨rfl, rfl, fun _ _ => ⟨rfl, h, fun _ _ => happroved, nofun⟩⟩
  rename_i hroutine
  refine ⟨rfl, rfl, fun _ _ => ⟨rfl, h, fun renderId heq => ?_, nofun⟩⟩
  rw [hroutine] at heq
  cases heq

theorem at_afterAccount {p : PromptRow} {aliasId : ℕ} (named current : Option ℕ)
    (h : ∀ aliasId account, Prepared S db c ⟨c, p, aliasId, account⟩ none) :
    At S db c (afterAccount c p aliasId named current, db) := by
  unfold afterAccount
  split
  · trivial
  all_goals exact ⟨rfl, h _ _⟩

theorem at_afterLookup {r : Resolved} (existing : Option ℕ) (h : Prepared S db c r none) :
    At S db c (afterLookup r existing, db) := by
  unfold afterLookup
  split
  · exact .nothing
  · exact ⟨rfl, h⟩

theorem at_afterCache {r : Resolved} (h : Prepared S db c r none) :
    At S db c (afterCache S r ((computeCacheKey S r).toOption.bind db.lookupCache), db) := by
  unfold afterCache
  split
  · exact ⟨rfl, h⟩
  cases hkey : computeCacheKey S r with
  | error e => trivial
  | ok t =>
    have hprepared : Prepared S db c r (some t) :=
      ⟨h.invocation, h.prompt, h.approved, fun t' ht' => by cases ht'; exact hkey⟩
    dsimp only
    split
    · split
      · rename_i original hcached
        exact ⟨rfl, hprepared, fun id hid => ⟨t, rfl, by cases hid; exact hcached⟩⟩
      · split
        · trivial
        · exact ⟨rfl, hprepared⟩
    · exact ⟨rfl, hprepared⟩

theorem at_execute {x : Frame × Db} (h : At S db c x) : At S db c (execute S x) := by
  obtain ⟨l, db'⟩ := x
  cases l with
  | prompt c' =>
    obtain ⟨rfl, rfl⟩ := h
    exact at_afterPrompt _ rfl
  | status c' p =>
    obtain ⟨rfl, rfl, hprompt⟩ := h
    exact at_afterStatus hprompt
  | modelAlias c' p =>
    obtain ⟨rfl, rfl, hprepared⟩ := h
    rw [execute]
    cases db'.alias? c'.aliasName with
    | none => trivial
    | some aliasId => exact ⟨rfl, rfl, hprepared⟩
  | account c' p aliasId =>
    obtain ⟨rfl, rfl, hprepared⟩ := h
    exact at_afterAccount _ _ hprepared
  | lookup r =>
    obtain ⟨rfl, hprepared⟩ := h
    exact at_afterLookup _ hprepared
  | cache r =>
    obtain ⟨rfl, hprepared⟩ := h
    exact at_afterCache hprepared
  | budget r cacheKey =>
    obtain ⟨rfl, hprepared⟩ := h
    rw [execute]
    cases db'.budgetMessage r with
    | none => exact ⟨rfl, hprepared, nofun⟩
    | some message => trivial
  | insert r cacheKey original =>
    obtain ⟨rfl, hprepared, horiginal⟩ := h
    rw [execute]
    split
    · trivial
    split
    · trivial
    cases original with
    | none => exact .request hprepared
    | some original =>
      obtain ⟨t, rfl, hcache⟩ := horiginal original rfl
      exact ⟨rfl, t, hprepared, hcache, rfl⟩
  | cachedResponse r id original =>
    obtain ⟨rfl, t, hprepared, hcache, rfl⟩ := h
    rw [execute]
    split
    · trivial
    rename_i x hx
    split
    · trivial
    · rename_i db'' hdb''
      rw [hprepared.invocation] at hdb''
      exact .hit hprepared hcache hx hdb''
  | succeed r id => exact h
  | returned r id => exact h
  | failed e => trivial

/-- **What a call leaves.** -/
theorem submit_cases (S : Server) (db : Db) (c : Invocation) : Made S db c (submit S db c).2 := by
  have hstart : At S db c (.prompt c, db) := ⟨rfl, rfl⟩
  have hend : At S db c ((execute S)^[9] (.prompt c, db)) :=
    Function.Iterate.rec (At S db c) hstart (fun _ => at_execute) 9
  unfold submit
  generalize (execute S)^[9] (.prompt c, db) = x at hend ⊢
  obtain ⟨l, db'⟩ := x
  cases l with
  | returned r id => exact hend
  | _ => exact .nothing

end

/-! ## Operations -/

structure Recorded where
  requestId : ℕ
  status : ResponseStatus
  output : Output
  promptTokens : Option ℤ
  completionTokens : Option ℤ
  latencyMs : Option ℤ
  errorClass : Option Text
  userSafeError : Option Text
  now : ℕ

def Db.record (db : Db) (w : Recorded) : Option Db :=
  if w.requestId ∈ db.requests.rows.map RequestRow.requestId then
    db.insertResponse w.requestId (fun responseId => ⟨responseId, w.requestId, w.status, w.output,
      w.promptTokens, w.completionTokens, w.latencyMs, w.errorClass, w.userSafeError, w.now, false,
      none⟩) (fun _ => rfl) fun _ => rfl
  else none

/-- The arguments of `submit_request`. -/
structure PlainArgs where
  aliasName : String
  renderedPrompt : Text
  accountName : Option String
  sessionId : Option ℕ
  generationParams : Option Text
  timeoutMs : ℤ
  now : ℕ

/-- `submit_request`: a text without a template, which is neither cached nor counted against a
budget. Its hash is of the text as it stands. -/
def Db.submitRequest (S : Server) (db : Db) (a : PlainArgs) : Except SubmitError Db :=
  match db.alias? a.aliasName, a.accountName, a.accountName.bind db.account? with
  | none, _, _ => .error (.unknownAlias a.aliasName)
  | some _, some name, none => .error (.unknownAccount name)
  | some aliasId, _, account =>
    if a.timeoutMs ≤ 0 then .error .timeoutViolation
    else .ok (db.insertRequest ⟨aliasId, account, a.sessionId, none, a.renderedPrompt,
      S.sha256 (utf8 a.renderedPrompt), a.generationParams.getD "\x7b\x7d".toList, a.timeoutMs,
      none, "off", none, false, a.now⟩)

inductive Op where
  | configure (c : Catalog)
  | registerPromptTemplate (a : TemplateArgs)
  | insertTemplate (a : TemplateArgs) (owner : Option ℕ) (status : TemplateStatus)
  | setStatus (templateId : ℕ) (status : TemplateStatus)
  | approvePrompt (name : Text) (version : Option ℤ) (safetyPolicy approver : Option String)
  | deprecatePrompt (name : Text) (version : Option ℤ)
  | requestReview (name : Text) (version : Option ℤ)
  | renderPrompt (session : ℕ) (name : Text) (version : Option ℤ) (vars : Option Variables)
  | bindPrompt (a : BindArgs)
  | submit (c : Invocation) (hjson : ∀ t ∈ c.generationParams, JsonEscapes t)
  | submitRequest (a : PlainArgs)
  | record (w : Recorded)

def step (S : Server) (E : Engine) (db : Db) : Op → Db
  | .configure c => { db with catalog := c }
  | .registerPromptTemplate a => commitOr db (db.registerPromptTemplate a)
  | .insertTemplate a owner status => commitOr db (db.insertTemplate a owner status)
  | .setStatus templateId status => db.setStatus templateId status
  | .approvePrompt name version safetyPolicy approver =>
    commitOr db (db.approvePrompt name version safetyPolicy approver)
  | .deprecatePrompt name version => commitOr db (db.deprecatePrompt name version)
  | .requestReview name version => commitOr db (db.requestReview name version)
  | .renderPrompt session name version vars =>
    commitOr db (db.renderPrompt S session name version vars)
  | .bindPrompt a => commitOr db (db.bindPrompt S E a)
  | .submit c _ => (submit S db c).2
  | .submitRequest a => commitOr db (db.submitRequest S a)
  | .record w => (db.record w).getD db

/-! ## What an operation leaves -/

/-- Only the catalog and the templates have changed, and no template is gone. -/
structure Administered (db db' : Db) : Prop where
  templates : ∀ t ∈ db.templates.rows, ∃ t' ∈ db'.templates.rows, t'.templateId = t.templateId
  renders : db'.renders = db.renders
  bounds : db'.bounds = db.bounds
  requests : db'.requests = db.requests
  responses : db'.responses = db.responses

inductive Leaves (S : Server) (db : Db) : Op → Db → Prop
  | same {op : Op} : Leaves S db op db
  | administered {op : Op} {db' : Db} (h : Administered db db') : Leaves S db op db'
  | render {session : ℕ} {name : Text} {version : Option ℤ} {vars : Option Variables}
    {t : TemplateRow} {account : Option ℕ} {text hash : Text} (ht : t ∈ db.templates.rows)
    (hhash : hashOf S text = .ok hash) :
    Leaves S db (.renderPrompt session name version vars)
      (db.insertRender t.templateId (some session) account text hash)
  | bind {a : BindArgs} {t : TemplateRow} {account : Option ℕ} {text hash : Text}
    (ht : t ∈ db.templates.rows) (happroved : t.status = .approved)
    (hhash : hashOf S text = .ok hash) :
    Leaves S db (.bindPrompt a) (db.insertBound t.templateId a.sessionId account text hash)
  | submit {c : Invocation} {hjson : ∀ t ∈ c.generationParams, JsonEscapes t} {db' : Db}
    (h : Made S db c db') : Leaves S db (.submit c hjson) db'
  | plain {a : PlainArgs} {mr : Request} (hrender : mr.promptRenderId = none)
    (hkey : mr.cacheKey = none) : Leaves S db (.submitRequest a) (db.insertRequest mr)
  | record {w : Recorded} {db' : Db} (h : db.record w = some db') : Leaves S db (.record w) db'

section

variable {S : Server} {db db' : Db}

theorem insertTemplate_leaves {op : Op} {a : TemplateArgs} {owner : Option ℕ}
    {status : TemplateStatus} (h : db.insertTemplate a owner status = .ok db') :
    Leaves S db op db' := by
  unfold Db.insertTemplate at h
  dsimp only at h
  split at h
  · cases h
  · cases h
    exact .administered ⟨fun t ht => ⟨t, Serial.mem_insert.mpr (.inl ht), rfl⟩, rfl, rfl, rfl, rfl⟩

theorem setStatus_leaves (op : Op) (templateId : ℕ) (status : TemplateStatus) :
    Leaves S db op (db.setStatus templateId status) := by
  refine .administered ⟨fun t ht => ?_, rfl, rfl, rfl, rfl⟩
  refine ⟨_, mem_updateWhere.mpr ⟨t, ht, rfl⟩, ?_⟩
  split <;> rfl

theorem step_leaves (S : Server) (E : Engine) (db : Db) (op : Op) :
    Leaves S db op (step S E db op) := by
  cases op with
  | configure c => exact .administered ⟨fun t ht => ⟨t, ht, rfl⟩, rfl, rfl, rfl, rfl⟩
  | registerPromptTemplate a =>
    refine commitOr_of .same fun db' h => ?_
    unfold Db.registerPromptTemplate at h
    split at h
    · split at h
      · exact insertTemplate_leaves h
      · cases h
    · exact insertTemplate_leaves h
  | insertTemplate a owner status => exact commitOr_of .same fun db' h => insertTemplate_leaves h
  | setStatus templateId status => exact setStatus_leaves _ templateId status
  | approvePrompt name version safetyPolicy approver =>
    refine commitOr_of .same fun db' h => ?_
    obtain ⟨t, -, h⟩ := bind_eq_ok.mp h
    split at h
    · cases h
    split at h
    · cases h
    split at h
    · cases h
    · cases h
      exact setStatus_leaves _ t.templateId .approved
  | deprecatePrompt name version =>
    refine commitOr_of .same fun db' h => ?_
    obtain ⟨t, -, h⟩ := bind_eq_ok.mp h
    cases h
    exact setStatus_leaves _ t.templateId .deprecated
  | requestReview name version =>
    refine commitOr_of .same fun db' h => ?_
    obtain ⟨t, -, h⟩ := bind_eq_ok.mp h
    split at h
    · cases h
    · cases h
      exact setStatus_leaves _ t.templateId .draft
  | renderPrompt session name version vars =>
    refine commitOr_of .same fun db' h => ?_
    obtain ⟨t, ht, account, text, hash, hhash, rfl⟩ := renderPrompt_eq_ok h
    exact .render ht hhash
  | bindPrompt a =>
    refine commitOr_of .same fun db' h => ?_
    obtain ⟨t, ht, happroved, account, text, hash, hhash, rfl⟩ := bindPrompt_eq_ok h
    exact .bind ht happroved hhash
  | submit c hjson => exact .submit (submit_cases S db c)
  | submitRequest a =>
    refine commitOr_of .same fun db' h => ?_
    unfold Db.submitRequest at h
    split at h
    · cases h
    · cases h
    split at h
    · cases h
    · cases h
      exact .plain rfl rfl
  | record w =>
    show Leaves S db _ ((db.record w).getD db)
    cases h : db.record w with
    | none => exact .same
    | some db' => exact .record h

end

end MaluDb.Gateway
