import MaluDb.Lib.ReadCommitted
import MaluDb.Prompt.Render

/-!
# Submitting a prompt to the model gateway

`submit_render` and `call` as transactions that interleave statement by statement under READ
COMMITTED.

* The rows are those of `malu$model_request` and the entries of its partial unique index on
  `(account_id, idempotency_key)` (`Key`), which takes two NULLs for different.
* A `Frame` says which statement comes next, with the variables still needed. The functions `after…`
  say where its answer leads; `Stmt` is what it does. A read of any other table gets any answer.
* An INSERT waits while another transaction holds the index entry. If that one commits, the INSERT
  raises `unique_violation`: a frame without a next statement, and the transaction aborts.
-/

namespace MaluDb.Gateway

open MaluDb.Lib.ReadCommitted
open MaluDb.Prompt (Text Server BadBytea byteaIn)

/-! ## Calls -/

inductive Routine where
  | submitRender (renderId : ℕ)
  | call (boundPromptId : Option ℕ) (sessionId : Option ℕ)

/-- The arguments of a call. -/
structure Invocation where
  routine : Routine
  aliasName : String
  accountName : Option String
  generationParams : Option Text
  timeoutMs : ℤ
  cacheMode : String
  idempotencyKey : Option String
  now : ℕ

/-- What is read of a row of `malu$prompt_render` or `malu$bound_prompt`. -/
structure PromptRow where
  templateId : ℕ
  accountId : Option ℕ
  sessionId : Option ℕ
  renderId : Option ℕ
  rendered : Text
  promptHash : Text

structure Resolved where
  invocation : Invocation
  prompt : PromptRow
  aliasId : ℕ
  account : Option ℕ

def Resolved.key (r : Resolved) : Option String := r.invocation.idempotencyKey

/-! ## Rows -/

structure Request where
  aliasId : ℕ
  accountId : Option ℕ
  sessionId : Option ℕ
  promptRenderId : Option ℕ
  renderedPrompt : Text
  promptHash : Text
  generationParams : Text
  timeoutMs : ℤ
  cacheKey : Option Text
  cacheMode : String
  idempotencyKey : Option String
  succeeded : Bool
  submittedAt : ℕ

def Request.Has (row : Request) (account : Option ℕ) (key : String) : Prop :=
  row.accountId = account ∧ row.idempotencyKey = some key

instance (row : Request) (account : Option ℕ) (key : String) : Decidable (row.Has account key) :=
  inferInstanceAs (Decidable (_ ∧ _))

inductive Key where
  | request (id : ℕ)
  | entry (account : ℕ) (key : String)
  deriving DecidableEq

abbrev RowType : Key → Type
  | .request _ => Request
  | .entry .. => ℕ

def requestWrites (id : ℕ) (row : Request) : Writes RowType
  | .request id' => if id' = id then some (some row) else none
  | .entry account key => if row.Has (some account) key then some (some id) else none

/-! ## Errors -/

inductive SubmitError where
  | cacheBadMode (mode : String)
  | unknownRender (renderId : ℕ)
  | notApproved (renderId templateId : ℕ) (status : String)
  | unbound
  | unknownBoundPrompt (boundPromptId : ℕ)
  | unknownAlias (name : String)
  | unknownAccount (name : String)
  | cacheMissRequired (cacheKey : Option Text) (templateId aliasId : ℕ)
  | budgetExceeded (message : String)
  | badBytea (e : BadBytea)
  | uniqueViolation
  | timeoutViolation
  | noCachedResponse (original : ℕ)
  deriving DecidableEq

def SubmitError.message : SubmitError → String
  | .cacheBadMode mode => "CACHE_BAD_MODE: " ++ mode
  | .unknownRender renderId => s!"unknown render: {renderId}"
  | .notApproved renderId templateId status =>
    s!"PROMPT_NOT_APPROVED: render {renderId} refers to template (id {templateId}) with status " ++
      status ++ "; only approved templates may be submitted"
  | .unbound => "call: bound_prompt is NULL or unbound"
  | .unknownBoundPrompt boundPromptId => s!"call: unknown bound_prompt_id {boundPromptId}"
  | .unknownAlias name => "unknown or disabled alias: " ++ name
  | .unknownAccount name => "unknown account: " ++ name
  | .cacheMissRequired cacheKey templateId aliasId =>
    "CACHE_MISS_REQUIRED: no cached response for key " ++
      ((cacheKey.map String.ofList).getD "<NULL>") ++ s!" (template={templateId}, alias={aliasId})"
  | .budgetExceeded message => message
  | .badBytea e => e.message
  | .uniqueViolation =>
    "duplicate key value violates unique constraint \"malu$model_request_idempotency_idx\""
  | .timeoutViolation => "new row for relation \"malu$model_request\" violates check constraint " ++
      "\"malu$model_request_timeout_ms_check\""
  | .noCachedResponse original =>
    s!"cache hit pointed at request {original} but no response found"

/-! ## Frames -/

/-- Where a call stands. -/
inductive Frame where
  | prompt (c : Invocation)
  | status (c : Invocation) (p : PromptRow)
  | modelAlias (c : Invocation) (p : PromptRow)
  | account (c : Invocation) (p : PromptRow) (aliasId : ℕ)
  | lookup (r : Resolved)
  | cache (r : Resolved)
  | budget (r : Resolved) (cacheKey : Option Text)
  | insert (r : Resolved) (cacheKey : Option Text) (original : Option ℕ)
  | cachedResponse (r : Resolved) (id original : ℕ)
  | succeed (r : Resolved) (id : ℕ)
  | returned (r : Resolved) (id : ℕ)
  | failed (e : SubmitError)

def afterPrompt (c : Invocation) (answer : Option PromptRow) : Frame :=
  if c.cacheMode ∉ ["off", "prefer", "required", "refresh"] then .failed (.cacheBadMode c.cacheMode)
  else
    match c.routine, answer with
    | .submitRender renderId, none => .failed (.unknownRender renderId)
    | .submitRender _, some p => .status c p
    | .call none _, _ => .failed .unbound
    | .call (some boundPromptId) _, none => .failed (.unknownBoundPrompt boundPromptId)
    | .call (some _) _, some p => .modelAlias c p

/-- Only `submit_render` asks for the status of the template. It is NULL for a row that row security
hides, and `v_template_status <> 'approved'` is then not true. -/
def afterStatus (c : Invocation) (p : PromptRow) (status : Option String) : Frame :=
  match c.routine with
  | .submitRender renderId =>
    match status.filter (· ≠ "approved") with
    | some status => .failed (.notApproved renderId p.templateId status)
    | none => .modelAlias c p
  | .call _ _ => .modelAlias c p

def afterAlias (c : Invocation) (p : PromptRow) : Option ℕ → Frame
  | none => .failed (.unknownAlias c.aliasName)
  | some aliasId => .account c p aliasId

/-- The account: the one named, or that of the prompt. `call` falls back to the current one. -/
def afterAccount (c : Invocation) (p : PromptRow) (aliasId : ℕ) (named current : Option ℕ) :
    Frame :=
  match c.accountName, named, c.routine with
  | some name, none, _ => .failed (.unknownAccount name)
  | some _, some account, _ => .lookup ⟨c, p, aliasId, some account⟩
  | none, _, .submitRender _ => .lookup ⟨c, p, aliasId, p.accountId⟩
  | none, _, .call _ _ => .lookup ⟨c, p, aliasId, p.accountId <|> current⟩

def afterLookup (r : Resolved) (existing : Option ℕ) : Frame :=
  match r.key, existing with
  | some _, some id => .returned r id
  | _, _ => .cache r

/-- `encode(sha256(t::bytea), 'hex')`. -/
def hashOf (S : Server) (t : Text) : Except BadBytea Text := S.sha256 <$> byteaIn t

/-- `_compute_cache_key`. -/
def computeCacheKey (S : Server) (r : Resolved) : Except BadBytea Text := do
  let params ← hashOf S (r.invocation.generationParams.getD "\x7b\x7d".toList)
  let account := (r.account.map fun id => (toString id).toList).getD "anon".toList
  hashOf S (['|'].intercalate [account, (toString r.prompt.templateId).toList,
    (toString r.aliasId).toList, r.prompt.promptHash, params])

/-- The cache key, and the request that `_lookup_cache` finds, for the modes that ask for them. -/
def afterCache (S : Server) (r : Resolved) (cached : Option ℕ) : Frame :=
  match r.invocation.cacheMode with
  | "off" => .budget r none
  | mode =>
    match computeCacheKey S r with
    | .error e => .failed (.badBytea e)
    | .ok cacheKey =>
      if mode ∈ ["prefer", "required"] then
        match cached with
        | some original => .insert r (some cacheKey) (some original)
        | none =>
          if mode = "required" then
            .failed (.cacheMissRequired (some cacheKey) r.prompt.templateId r.aliasId)
          else .budget r (some cacheKey)
      else .budget r (some cacheKey)

/-- `check_budget` raises, or not. -/
def afterBudget (r : Resolved) (cacheKey : Option Text) : Option String → Frame
  | some message => .failed (.budgetExceeded message)
  | none => .insert r cacheKey none

/-- The row of the INSERT. -/
def newRequest (r : Resolved) (cacheKey : Option Text) : Request where
  aliasId := r.aliasId
  accountId := r.account
  sessionId :=
    match r.invocation.routine with
    | .submitRender _ => r.prompt.sessionId
    | .call _ sessionId => sessionId <|> r.prompt.sessionId
  promptRenderId :=
    match r.invocation.routine with
    | .submitRender renderId => some renderId
    | .call _ _ => r.prompt.renderId
  renderedPrompt := r.prompt.rendered
  promptHash := r.prompt.promptHash
  generationParams := r.invocation.generationParams.getD "\x7b\x7d".toList
  timeoutMs := r.invocation.timeoutMs
  cacheKey := cacheKey
  cacheMode := r.invocation.cacheMode
  idempotencyKey := r.key
  succeeded := false
  submittedAt := r.invocation.now

def afterInsert (r : Resolved) (id : ℕ) : Option ℕ → Frame
  | none => .returned r id
  | some original => .cachedResponse r id original

/-- `_apply_cache_hit` copies the response of the original, which may be gone. -/
def afterCachedResponse (r : Resolved) (id original : ℕ) (found : Bool) : Frame :=
  if found then .succeed r id else .failed (.noCachedResponse original)

/-! ## Statements -/

/-- What `_lookup_idempotent_request` finds: a request of the account and the key that was submitted
first, or that there is none. -/
def Finds (view : Rows RowType) (account : Option ℕ) (key : String) : Option ℕ → Prop
  | none => ∀ id row, view (.request id) = some row → ¬ row.Has account key
  | some id => ∃ row, view (.request id) = some row ∧ row.Has account key ∧
    ∀ id' row', view (.request id') = some row' → row'.Has account key →
      row.submittedAt ≤ row'.submittedAt

/-- The statements of `submit_render` and `call`. -/
inductive Stmt (S : Server) (view : Rows RowType) : Frame → Effect RowType Frame → Prop
  | prompt {c : Invocation} (answer : Option PromptRow) :
    Stmt S view (.prompt c) (.read (afterPrompt c answer))
  | status {c : Invocation} {p : PromptRow} (status : Option String) :
    Stmt S view (.status c p) (.read (afterStatus c p status))
  | modelAlias {c : Invocation} {p : PromptRow} (answer : Option ℕ) :
    Stmt S view (.modelAlias c p) (.read (afterAlias c p answer))
  | account {c : Invocation} {p : PromptRow} {aliasId : ℕ} (named current : Option ℕ) :
    Stmt S view (.account c p aliasId) (.read (afterAccount c p aliasId named current))
  | lookup {r : Resolved} (existing : Option ℕ)
    (h : ∀ key, r.key = some key → Finds view r.account key existing) :
    Stmt S view (.lookup r) (.read (afterLookup r existing))
  | cache {r : Resolved} (cached : Option ℕ) :
    Stmt S view (.cache r) (.read (afterCache S r cached))
  | budget {r : Resolved} {cacheKey : Option Text} (exceeded : Option String) :
    Stmt S view (.budget r cacheKey) (.read (afterBudget r cacheKey exceeded))
  | insert {r : Resolved} {cacheKey : Option Text} {original : Option ℕ} (id : ℕ)
    (htimeout : 0 < r.invocation.timeoutMs) (hid : view (.request id) = none)
    (hentry : ∀ account key, (newRequest r cacheKey).Has (some account) key →
      view (.entry account key) = none) :
    Stmt S view (.insert r cacheKey original)
      (.write (requestWrites id (newRequest r cacheKey)) (afterInsert r id original))
  | duplicate {r : Resolved} {cacheKey : Option Text} {original : Option ℕ} {account id : ℕ}
    {key : String} (hhas : (newRequest r cacheKey).Has (some account) key)
    (hentry : view (.entry account key) = some id) :
    Stmt S view (.insert r cacheKey original) (.read (.failed .uniqueViolation))
  | badTimeout {r : Resolved} {cacheKey : Option Text} {original : Option ℕ}
    (htimeout : r.invocation.timeoutMs ≤ 0) :
    Stmt S view (.insert r cacheKey original) (.read (.failed .timeoutViolation))
  | cachedResponse {r : Resolved} {id original : ℕ} (found : Bool) :
    Stmt S view (.cachedResponse r id original) (.read (afterCachedResponse r id original found))
  | succeed {r : Resolved} {id : ℕ} {row : Request} (hrow : view (.request id) = some row) :
    Stmt S view (.succeed r id)
      (.write (.single (.request id) (some { row with succeeded := true })) (.returned r id))

/-- `submit_render` and `call`. -/
def submitProgram (S : Server) : Program RowType Frame where
  init l := ∃ c, l = .prompt c
  stmt _ view l e := Stmt S view l e
  done l := ∃ r id, l = .returned r id

end MaluDb.Gateway
