import MaluDb.Gateway.Submit
import MaluDb.Lib.Serial
import MaluDb.Prompt.Bind

/-!
# The tables of the model gateway

* `Catalog` are the tables that only administration changes, with what belongs to the session of the
  caller: its account, whether its role bypasses row security, and the start of its day. Unique keys
  are fields.
* `Db` are the catalog and the tables that the gateway's own functions fill.
* `Db.sees` is the policy of the tables with row security: rows without an account, and those of the
  account of the caller.
-/

namespace MaluDb.Gateway

open MaluDb.Lib
open MaluDb.Prompt (Text Server ContextBlock Declared)

/-! ## The catalog -/

structure Alias where
  aliasId : ℕ
  aliasName : String
  enabled : Bool
  pricePerInputToken : ℕ
  pricePerOutputToken : ℕ

/-- A row of `malu$account`. -/
structure Account where
  accountId : ℕ
  accountName : String

/-- A row of `malu$role`. -/
structure Role where
  roleId : ℕ
  roleName : String

structure AccountRole where
  accountId : ℕ
  roleId : ℕ
  deriving DecidableEq

/-- What a budget is for. -/
inductive Scope where
  | account (accountId : ℕ)
  | prompt (templateId : ℕ)
  | role (roleName : String)
  | all
  deriving DecidableEq

/-- The text of `scope`. -/
def Scope.text : Scope → String
  | .account _ => "account"
  | .prompt _ => "prompt"
  | .role _ => "role"
  | .all => "global"

inductive LimitKind where
  | requestsDaily
  | tokensDaily
  | costDaily
  deriving DecidableEq

/-- The text of `limit_kind`. -/
def LimitKind.text : LimitKind → String
  | .requestsDaily => "requests_daily"
  | .tokensDaily => "tokens_daily"
  | .costDaily => "cost_daily"

structure BudgetPolicy where
  policyName : String
  scope : Scope
  limitKind : LimitKind
  limitValue : ℕ
  enabled : Bool

/-- A row of `malu$session`. -/
structure Session where
  sessionId : ℕ
  accountId : ℕ

structure Catalog where
  aliases : List Alias
  accounts : List Account
  roles : List Role
  accountRoles : List AccountRole
  policies : List BudgetPolicy
  sessions : List Session
  contexts : List ContextBlock
  declared : ℕ → Declared
  safetyPolicies : List String
  currentAccount : Option ℕ
  bypassRls : Bool
  dayStart : ℕ → ℕ
  aliasIds : (aliases.map Alias.aliasId).Nodup
  accountIds : (accounts.map Account.accountId).Nodup
  roleIds : (roles.map Role.roleId).Nodup
  roleNames : (roles.map Role.roleName).Nodup
  assignedOnce : accountRoles.Nodup

/-! ## Prompts -/

inductive TemplateStatus where
  | draft
  | approved
  | deprecated
  deriving DecidableEq

def TemplateStatus.text : TemplateStatus → String
  | .draft => "draft"
  | .approved => "approved"
  | .deprecated => "deprecated"

/-- A row of `malu$prompt_template`, with its owner and its place in the approval workflow. -/
structure TemplateRow extends Prompt.Template where
  ownerAccountId : Option ℕ
  status : TemplateStatus

structure RenderRow where
  renderId : ℕ
  templateId : ℕ
  sessionId : Option ℕ
  accountId : Option ℕ
  renderedPrompt : Text
  promptHash : Text

structure BoundRow where
  boundPromptId : ℕ
  renderId : Option ℕ
  templateId : ℕ
  accountId : Option ℕ
  sessionId : Option ℕ
  renderedFull : Text
  promptHash : Text

/-! ## Requests and responses -/

/-- A row of `malu$model_request` with its key. -/
structure RequestRow extends Request where
  requestId : ℕ

inductive ResponseStatus where
  | succeeded
  | failed
  | cancelled
  | timeout
  deriving DecidableEq

/-- What a model gave back. -/
structure Output where
  outputText : Option Text
  outputHash : Option Text
  outputJson : Option Text
  toolCalls : Option Text
  finishReason : Option Text
  rawProviderResponse : Option Text
  adapterName : Text
  deriving DecidableEq

structure ResponseRow where
  responseId : ℕ
  requestId : ℕ
  status : ResponseStatus
  output : Output
  promptTokens : Option ℤ
  completionTokens : Option ℤ
  latencyMs : Option ℤ
  errorClass : Option Text
  userSafeError : Option Text
  finishedAt : ℕ
  cacheHit : Bool
  cachedFromRequestId : Option ℕ

/-! ## The database -/

structure Db where
  catalog : Catalog
  templates : Lib.Serial TemplateRow (·.templateId)
  renders : Lib.Serial RenderRow RenderRow.renderId
  bounds : Lib.Serial BoundRow BoundRow.boundPromptId
  requests : Lib.Serial RequestRow RequestRow.requestId
  responses : Lib.Serial ResponseRow ResponseRow.responseId
  answeredOnce : (responses.rows.map ResponseRow.requestId).Nodup

def Db.empty (catalog : Catalog) : Db where
  catalog := catalog
  templates := .empty
  renders := .empty
  bounds := .empty
  requests := .empty
  responses := .empty
  answeredOnce := List.nodup_nil

/-- `USING (account_id IS NULL OR account_id = current_account_id())`. -/
def Db.sees (db : Db) (accountId : Option ℕ) : Bool :=
  db.catalog.bypassRls || accountId.isNone || accountId = db.catalog.currentAccount

/-- What a SELECT from `malu$prompt_template` finds. -/
def Db.visibleTemplates (db : Db) : List TemplateRow :=
  db.templates.rows.filter fun t => db.sees t.ownerAccountId

/-- What a SELECT from `malu$model_request` finds. -/
def Db.visibleRequests (db : Db) : List RequestRow :=
  db.requests.rows.filter fun mr => db.sees mr.accountId

/-- The response of a request. -/
def Db.responseOf? (db : Db) (requestId : ℕ) : Option ResponseRow :=
  db.responses.rows.find? (·.requestId = requestId)

def Db.templateOf? (db : Db) (mr : Request) : Option ℕ :=
  (mr.promptRenderId.bind db.renders.get?).map RenderRow.templateId

end MaluDb.Gateway
