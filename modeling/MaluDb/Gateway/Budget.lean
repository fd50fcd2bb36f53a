import MaluDb.Gateway.Store
import MaluDb.Lib.Join

/-!
# Daily budgets

`response_cost`, `usage_today` and `check_budget` (`maludb_core--0.106.0.sql`, 5990-6179), with the
row security of the requests and their responses (3244-3275): the functions run as their caller.

* `usageToday` joins the requests of the day (or their responses) with the roles of their accounts,
  for every scope: a request counts once for each role of its account.
* In `figure` each request of the scope that the caller sees counts once.

Results:

* `usageToday_eq_figure_iff`: the two agree exactly if the scope is a role or what further roles add
  is zero.
* `checkBudget_eq_ok`: what `check_budget` lets pass.
-/

namespace MaluDb.Gateway

open MaluDb.Lib List
open MaluDb.Prompt (Text)

/-! ## What a response counts -/

inductive BudgetError where
  | integerOutOfRange
  | exceeded (p : BudgetPolicy) (usage : ℤ)

def BudgetError.message : BudgetError → String
  | .integerOutOfRange => "integer out of range"
  | .exceeded p usage =>
    "BUDGET_EXCEEDED: policy " ++ p.policyName ++ " (scope=" ++ p.scope.text ++ ", kind=" ++
      p.limitKind.text ++ ") — today " ++ toString usage ++ " >= limit " ++ toString p.limitValue

/-- `COALESCE(prompt_tokens, 0) + COALESCE(completion_tokens, 0)`, a sum of two `integer`s. -/
def tokensOf (x : ResponseRow) : Except BudgetError ℤ :=
  let n := x.promptTokens.getD 0 + x.completionTokens.getD 0
  if -2147483648 ≤ n ∧ n ≤ 2147483647 then .ok n else .error .integerOutOfRange

section

variable (db : Db) (now : ℕ) (c : Catalog) (account : Option ℕ)

/-- `response_cost`: NULL if the tokens are not known. -/
def responseCost (x : ResponseRow) : Option ℤ :=
  if x.cacheHit then some 0
  else do
    let promptTokens ← x.promptTokens
    let completionTokens ← x.completionTokens
    let mr ← db.requests.get? x.requestId
    let ma ← db.catalog.aliases.find? (·.aliasId = mr.aliasId)
    return promptTokens * ma.pricePerInputToken + completionTokens * ma.pricePerOutputToken

/-! ## Usage -/

/-- A row of `malu$prompt_render` that the caller sees, of a request and of a template. -/
def rendered (mr : RequestRow) (templateId : ℕ) : Bool :=
  db.renders.rows.any fun pr =>
    db.sees pr.accountId && mr.promptRenderId = some pr.renderId && pr.templateId = templateId

/-- Rows beside the roles of their accounts: `LEFT JOIN malu$account_role LEFT JOIN malu$role`. -/
def withRoles {α : Type} (account : α → Option ℕ) (l : List α) :
    List ((α × Option AccountRole) × Option Role) :=
  leftJoin (leftJoin l c.accountRoles fun a ar => account a = some ar.accountId) c.roles
    fun x r => x.2.map AccountRole.roleId = some r.roleId

section

variable (scope : Scope)

/-- The `CASE` on the scope, for a request and a role beside it. -/
def inCase (mr : RequestRow) (r : Option Role) : Bool :=
  match scope with
  | .account accountId => mr.accountId = some accountId
  | .prompt templateId => rendered db mr templateId
  | .role roleName => r.any (·.roleName = roleName)
  | .all => true

def requestRows : List (RequestRow × Option Account) :=
  leftJoin db.visibleRequests db.catalog.accounts fun mr a => mr.accountId = some a.accountId

/-- Responses beside their requests. A response is visible exactly if its request is. -/
def responseRows : List (ResponseRow × RequestRow) :=
  innerJoin db.responses.rows db.visibleRequests fun x mr => mr.requestId = x.requestId

/-- `finished_at >= date_trunc('day', now()) AND cache_hit = false`. -/
def countsToday (x : ResponseRow) : Bool :=
  db.catalog.dayStart now ≤ x.finishedAt && !x.cacheHit

def countedResponses (now : ℕ) :
    List (((ResponseRow × RequestRow) × Option AccountRole) × Option Role) :=
  (withRoles db.catalog (·.2.accountId) (responseRows db)).filter fun x =>
    countsToday db now x.1.1.1 && inCase db scope x.1.1.2 x.2

/-- `usage_today`. -/
def usageToday (now : ℕ) : LimitKind → Except BudgetError ℤ
  | .requestsDaily =>
    .ok ((withRoles db.catalog (·.1.accountId) (requestRows db)).filter fun x =>
      db.catalog.dayStart now ≤ x.1.1.1.submittedAt && inCase db scope x.1.1.1 x.2).length
  | .tokensDaily => total (fun x => tokensOf x.1.1.1) (countedResponses db scope now)
  | .costDaily =>
    total (fun x => .ok ((responseCost db x.1.1.1).getD 0)) (countedResponses db scope now)

/-! ## `check_budget` -/

/-- Whether an account has a role: `malu$account_role JOIN malu$role`. -/
def hasRole (roleName : String) : Bool :=
  c.accountRoles.any fun ar => account = some ar.accountId &&
    c.roles.any fun r => r.roleId = ar.roleId && r.roleName = roleName

def applies (accountId : Option ℕ) (templateId : ℕ) (p : BudgetPolicy) : Bool :=
  p.enabled &&
    match p.scope with
    | .account scopeAccountId => accountId = some scopeAccountId
    | .prompt scopeTemplateId => scopeTemplateId = templateId
    | .role scopeRole => hasRole c accountId scopeRole
    | .all => true

/-- `ORDER BY CASE scope …`. -/
def Scope.rank : Scope → ℕ
  | .account _ => 1
  | .prompt _ => 2
  | .role _ => 3
  | .all => 4

def checkPolicy (p : BudgetPolicy) : Except BudgetError Unit := do
  let usage ← usageToday db p.scope now p.limitKind
  if p.limitValue ≤ usage then .error (.exceeded p usage) else .ok ()

def checkBudget (accountId : Option ℕ) (templateId : ℕ) (now : ℕ) : Except BudgetError Unit :=
  ((db.catalog.policies.filter (applies db.catalog accountId templateId)).insertionSort
    fun p q => p.scope.rank ≤ q.scope.rank).forM (checkPolicy db now)

/-! ## What usage is for -/

def inScope (mr : RequestRow) : Bool :=
  match scope with
  | .account accountId => mr.accountId = some accountId
  | .prompt templateId => rendered db mr templateId
  | .role roleName => hasRole db.catalog mr.accountId roleName
  | .all => true

/-- The requests of the day in a scope, as the caller sees them. -/
def requestsToday (now : ℕ) : List RequestRow :=
  db.visibleRequests.filter fun mr =>
    db.catalog.dayStart now ≤ mr.submittedAt && inScope db scope mr

def responsesToday (now : ℕ) : List ResponseRow :=
  db.responses.rows.filter fun x => countsToday db now x &&
    ((db.requests.get? x.requestId).filter fun mr => db.sees mr.accountId).any (inScope db scope)

/-- What a budget is to be compared with: each request of the scope counts once. -/
def figure (now : ℕ) : LimitKind → Except BudgetError ℤ
  | .requestsDaily => .ok (requestsToday db scope now).length
  | .tokensDaily => total tokensOf (responsesToday db scope now)
  | .costDaily => total (fun x => .ok ((responseCost db x).getD 0)) (responsesToday db scope now)

/-- The roles of an account beyond the first. -/
def furtherRoles : ℕ :=
  c.accountRoles.countP (fun ar => account = some ar.accountId) - 1

def furtherRolesOf (x : ResponseRow) : ℕ :=
  furtherRoles db.catalog ((db.requests.get? x.requestId).bind fun mr => mr.accountId)

/-- What the further roles of the accounts add is zero: no account with a request has a second role;
the tokens (or the cost), once for each further role, sum up to zero, or their sum raises. -/
def CountedOnce (now : ℕ) : LimitKind → Prop
  | .requestsDaily => ∀ mr ∈ requestsToday db scope now, furtherRoles db.catalog mr.accountId = 0
  | .tokensDaily => ∀ n,
      surplus (furtherRolesOf db) tokensOf (responsesToday db scope now) = .ok n → n = 0
  | .costDaily => ((responsesToday db scope now).map fun x =>
      (furtherRolesOf db x : ℤ) * (responseCost db x).getD 0).sum = 0

end

end

/-! ## Joined rows -/

section

variable {α ε : Type} {c : Catalog} {account : α → Option ℕ} {l : List α}

theorem withRoles_map (c : Catalog) (account : α → Option ℕ) (l : List α) :
    (withRoles c account l).map (·.1.1)
      = l.flatMap fun a => replicate (1 + furtherRoles c (account a)) a := by
  have hroles : (withRoles c account l).map Prod.fst
      = leftJoin l c.accountRoles fun a ar => account a = some ar.accountId :=
    leftJoin_map_fst_of_le_one fun x _ => countP_key_le_one c.roleIds _
  calc (withRoles c account l).map (·.1.1)
      = ((withRoles c account l).map Prod.fst).map Prod.fst := by rw [List.map_map]; rfl
    _ = _ := by
      rw [hroles, leftJoin_map_fst]
      refine flatMap_congr fun a _ => ?_
      unfold furtherRoles
      congr 1
      omega

theorem total_withRoles (c : Catalog) (account : α → Option ℕ) (l : List α) (f : α → Except ε ℤ)
    (p : α → Bool) :
    total (fun x => f x.1.1) ((withRoles c account l).filter fun x => p x.1.1)
      = total f ((l.filter p).flatMap fun a => replicate (1 + furtherRoles c (account a)) a) := by
  have hrows : ((withRoles c account l).filter fun x => p x.1.1).map (·.1.1)
      = (l.filter p).flatMap fun a => replicate (1 + furtherRoles c (account a)) a := by
    rw [← filter_flatMap_replicate, ← withRoles_map, filter_map]
    rfl
  rw [← total_map, hrows]

theorem withRoles_eq_flatMap (c : Catalog) (account : α → Option ℕ) (l : List α) :
    withRoles c account l = l.flatMap fun a => withRoles c account [a] := by
  unfold withRoles
  rw [← leftJoin_flatMap, ← leftJoin_flatMap, flatMap_singleton']

theorem some_mem_withRoles {a : α} {x : (α × Option AccountRole) × Option Role} {r : Role}
    (h : x ∈ withRoles c account [a]) (hr : x.2 = some r) :
    ∃ ar ∈ c.accountRoles, x = ((a, some ar), some r) ∧ account a = some ar.accountId ∧
      r ∈ c.roles ∧ ar.roleId = r.roleId := by
  obtain ⟨⟨a', ar⟩, r'⟩ := x
  obtain rfl : r' = some r := hr
  obtain ⟨hleft, hright⟩ := mem_leftJoin.mp h
  obtain ⟨ha, har⟩ := mem_leftJoin.mp hleft
  obtain rfl : a' = a := mem_singleton.mp ha
  obtain ⟨hr, hid⟩ := some_mem_partners.mp hright
  cases ar with
  | none => simp at hid
  | some ar =>
    obtain ⟨har, haccount⟩ := some_mem_partners.mp har
    exact ⟨ar, har, rfl, by simpa using haccount, hr, by simpa using hid⟩

theorem withRoles_filter_role (c : Catalog) (account : α → Option ℕ) (roleName : String) (a : α) :
    ((withRoles c account [a]).filter fun x => x.2.any (·.roleName = roleName)).map
        (·.1.1)
      = if hasRole c (account a) roleName then [a] else [] := by
  generalize hrows : (withRoles c account [a]).filter
    (fun x => x.2.any (·.roleName = roleName)) = rows
  have hrow : ∀ x ∈ rows, ∃ ar r, x = ((a, some ar), some r) ∧ ar ∈ c.accountRoles ∧
      account a = some ar.accountId ∧ r ∈ c.roles ∧ ar.roleId = r.roleId ∧
      r.roleName = roleName := by
    intro x hx
    rw [← hrows] at hx
    obtain ⟨hx, hname⟩ := mem_filter.mp hx
    cases hr : x.2 with
    | none =>
      rw [hr] at hname
      cases hname
    | some r =>
      rw [hr] at hname
      obtain ⟨ar, har, hx, haccount, hmem, hid⟩ := some_mem_withRoles hx hr
      exact ⟨ar, r, hx, har, haccount, hmem, hid, by simpa using hname⟩
  -- a role has one name, and is given to an account once
  have hsame : ∀ x ∈ rows, ∀ y ∈ rows, x = y := by
    intro x hx y hy
    obtain ⟨ar, r, rfl, -, haccount, hr, hid, hname⟩ := hrow x hx
    obtain ⟨ar', r', rfl, -, haccount', hr', hid', hname'⟩ := hrow y hy
    obtain rfl : r = r' := inj_on_of_nodup_map c.roleNames hr hr' (hname.trans hname'.symm)
    obtain rfl : ar = ar' := by
      rw [haccount] at haccount'
      cases ar
      cases ar'
      simp_all
    rfl
  have hnodup : rows.Nodup := by
    rw [← hrows]
    refine (nodup_leftJoin (nodup_leftJoin (nodup_singleton a) c.assignedOnce _) ?_ _).filter _
    exact c.roleIds.of_map
  cases hhas : hasRole c (account a) roleName with
  | true =>
    obtain ⟨ar, har, hmatch⟩ := any_eq_true.mp hhas
    rw [Bool.and_eq_true] at hmatch
    obtain ⟨r, hr, hid⟩ := any_eq_true.mp hmatch.2
    simp only [Bool.and_eq_true, decide_eq_true_eq] at hid hmatch
    have hmem : ((a, some ar), some r) ∈ rows := by
      rw [← hrows]
      refine mem_filter.mpr ⟨mem_leftJoin.mpr ⟨mem_leftJoin.mpr ⟨?_, ?_⟩, ?_⟩, ?_⟩
      · exact mem_singleton_self a
      · exact some_mem_partners.mpr ⟨har, by simpa using hmatch.1⟩
      · exact some_mem_partners.mpr ⟨hr, by simp [hid.1]⟩
      · simpa using hid.2
    have hone : rows = [((a, some ar), some r)] := by
      refine perm_singleton.mp ((perm_ext_iff_of_nodup hnodup ?_).mpr fun y => ?_)
      · exact nodup_singleton _
      · rw [mem_singleton]
        exact ⟨fun hy => hsame y hy _ hmem, fun hy => hy ▸ hmem⟩
    rw [hone]
    rfl
  | false =>
    have hnil : rows = [] := by
      refine eq_nil_iff_forall_not_mem.mpr fun x hx => ?_
      obtain ⟨ar, r, -, har, haccount, hr, hid, hname⟩ := hrow x hx
      have htrue : hasRole c (account a) roleName = true :=
        any_eq_true.mpr ⟨ar, har, by simpa [haccount] using ⟨r, hr, hid.symm, hname⟩⟩
      rw [hhas] at htrue
      cases htrue
    rw [hnil]
    rfl

theorem base_of_mem_withRoles {a : α} {x : (α × Option AccountRole) × Option Role}
    (h : x ∈ withRoles c account [a]) : x.1.1 = a :=
  mem_singleton.mp (mem_leftJoin.mp (mem_leftJoin.mp h).1).1

theorem total_withRoles_role (c : Catalog) (account : α → Option ℕ) (l : List α)
    (f : α → Except ε ℤ) (p : α → Bool) (roleName : String) :
    total (fun x => f x.1.1) ((withRoles c account l).filter fun x =>
        p x.1.1 && x.2.any (·.roleName = roleName))
      = total f (l.filter fun a => p a && hasRole c (account a) roleName) := by
  have hrows : ((withRoles c account l).filter fun x =>
      p x.1.1 && x.2.any (·.roleName = roleName)).map (·.1.1)
        = l.filter fun a => p a && hasRole c (account a) roleName := by
    rw [withRoles_eq_flatMap, filter_flatMap, map_flatMap]
    refine flatMap_eq_filter fun a _ => ?_
    have hbase : (withRoles c account [a]).filter
        (fun x => p x.1.1 && x.2.any (·.roleName = roleName))
          = (withRoles c account [a]).filter
            (fun x => p a && x.2.any (·.roleName = roleName)) :=
      filter_congr fun x hx => by rw [base_of_mem_withRoles hx]
    rw [hbase]
    cases p a with
    | true => simpa using withRoles_filter_role c account roleName a
    | false => simp
  rw [← total_map, hrows]

/-- Only a role is looked for among the joined rows. -/
theorem inCase_eq_inScope {db : Db} {scope : Scope} (h : ¬ ∃ roleName, scope = .role roleName)
    (mr : RequestRow) (r : Option Role) : inCase db scope mr r = inScope db scope mr := by
  cases scope with
  | role roleName => exact absurd ⟨roleName, rfl⟩ h
  | account accountId | prompt templateId | all => rfl

theorem total_inCase_iff (db : Db) (scope : Scope) (l : List α) (f : α → Except ε ℤ)
    (mr : α → RequestRow) (p : α → Bool) :
    total (fun x => f x.1.1) ((withRoles db.catalog (fun a => (mr a).accountId) l).filter fun x =>
        p x.1.1 && inCase db scope (mr x.1.1) x.2)
        = total f (l.filter fun a => p a && inScope db scope (mr a)) ↔
      (∃ roleName, scope = .role roleName) ∨
        ∀ n, surplus (fun a => furtherRoles db.catalog (mr a).accountId) f
          (l.filter fun a => p a && inScope db scope (mr a)) = .ok n → n = 0 := by
  by_cases hrole : ∃ roleName, scope = .role roleName
  · obtain ⟨roleName, rfl⟩ := hrole
    exact iff_of_true (total_withRoles_role _ _ l f p roleName) (.inl ⟨_, rfl⟩)
  · simp only [inCase_eq_inScope hrole]
    rw [or_iff_right hrole, total_withRoles _ _ l f fun a => p a && inScope db scope (mr a)]
    exact total_flatMap_replicate_iff f _ _

end

/-! ## Requests and responses -/

section

variable (db : Db) (scope : Scope) (now : ℕ)

theorem requestRows_map_fst : (requestRows db).map Prod.fst = db.visibleRequests :=
  leftJoin_map_fst_of_le_one fun _ _ => countP_key_le_one db.catalog.accountIds _

theorem requestRows_filter :
    ((requestRows db).filter fun x => decide (db.catalog.dayStart now ≤ x.1.submittedAt) &&
        inScope db scope x.1).map Prod.fst
      = requestsToday db scope now := by
  unfold requestsToday
  rw [← requestRows_map_fst, filter_map]
  rfl

theorem visibleRequests_filter (requestId : ℕ) :
    db.visibleRequests.filter (·.requestId = requestId)
      = ((db.requests.get? requestId).filter fun mr => db.sees mr.accountId).toList := by
  have hrequest : db.requests.rows.filter (·.requestId = requestId)
      = (db.requests.get? requestId).toList := db.requests.filter_key requestId
  unfold Db.visibleRequests
  rw [filter_comm, hrequest]
  cases db.requests.get? requestId with
  | none => rfl
  | some mr => cases h : db.sees mr.accountId <;> simp [Option.filter, h]

theorem responseRows_filter :
    ((responseRows db).filter fun x => countsToday db now x.1 && inScope db scope x.2).map Prod.fst
      = responsesToday db scope now := by
  unfold responseRows innerJoin
  rw [filter_flatMap, map_flatMap]
  refine flatMap_eq_filter fun x _ => ?_
  rw [visibleRequests_filter]
  cases (db.requests.get? x.requestId).filter fun mr => db.sees mr.accountId with
  | none => simp
  | some mr => cases h : countsToday db now x && inScope db scope mr <;> simp [h]

variable {db} in
theorem request_of_mem_responseRows {x : ResponseRow × RequestRow} (h : x ∈ responseRows db) :
    db.requests.get? x.1.requestId = some x.2 := by
  obtain ⟨y, -, hx⟩ := mem_flatMap.mp h
  obtain ⟨mr, hmr, rfl⟩ := mem_map.mp hx
  obtain ⟨hmr, hid⟩ := mem_filter.mp hmr
  exact Serial.get?_eq_some.mpr ⟨mem_of_mem_filter hmr, by simpa using hid⟩

theorem total_countedResponses_iff (f : ResponseRow → Except BudgetError ℤ) :
    total (fun x => f x.1.1.1) (countedResponses db scope now)
        = total f (responsesToday db scope now) ↔
      (∃ roleName, scope = .role roleName) ∨
        ∀ n, surplus (furtherRolesOf db) f (responsesToday db scope now) = .ok n → n = 0 := by
  rw [← responseRows_filter]
  -- the roles of a joined row are those of the request that its response names
  have hsurplus : ∀ l : List (ResponseRow × RequestRow), (∀ x ∈ l, x ∈ responseRows db) →
      surplus (furtherRolesOf db) f (l.map Prod.fst)
        = surplus (fun x => furtherRoles db.catalog x.2.accountId) (fun x => f x.1) l := by
    intro l hl
    unfold surplus
    rw [total_map]
    refine total_congr fun x hx => ?_
    unfold furtherRolesOf
    rw [request_of_mem_responseRows (hl x hx)]
    rfl
  rw [hsurplus _ fun x hx => mem_of_mem_filter hx, total_map]
  exact total_inCase_iff db scope (responseRows db) (fun x => f x.1) Prod.snd
    fun x => countsToday db now x.1

theorem usageToday_iff (kind : LimitKind) :
    usageToday db scope now kind = figure db scope now kind ↔
      (∃ roleName, scope = .role roleName) ∨ CountedOnce db scope now kind := by
  cases kind with
  | requestsDaily =>
    have hone := total_inCase_iff (ε := BudgetError) db scope (requestRows db) (fun _ => .ok 1)
      Prod.fst fun x => db.catalog.dayStart now ≤ x.1.submittedAt
    rw [surplus_one, total_one, total_one] at hone
    unfold usageToday figure CountedOnce
    rw [← requestRows_filter, length_map, forall_mem_map]
    exact hone
  | tokensDaily => exact total_countedResponses_iff db scope now tokensOf
  | costDaily =>
    have hcost := total_countedResponses_iff db scope now fun x => .ok ((responseCost db x).getD 0)
    unfold usageToday figure CountedOnce
    rw [hcost, surplus_ok]
    simp

end

def Db.assign (db : Db) (accountRoles : List AccountRole) (h : accountRoles.Nodup) : Db :=
  { db with catalog := { db.catalog with accountRoles := accountRoles, assignedOnce := h } }

section

def smallCatalog (accountRoles : List AccountRole) (h : accountRoles.Nodup) : Catalog where
  aliases := [⟨1, "model", true, 2, 3⟩]
  accounts := [⟨1, "tenant"⟩]
  roles := [⟨1, "author"⟩, ⟨2, "auditor"⟩]
  accountRoles := accountRoles
  policies := []
  sessions := []
  contexts := []
  declared := fun _ => ⟨[], [], nodup_nil⟩
  safetyPolicies := []
  currentAccount := some 1
  bypassRls := false
  dayStart := fun _ => 0
  aliasIds := by decide
  accountIds := by decide
  roleIds := by decide
  roleNames := by decide
  assignedOnce := h

def smallDb (accountRoles : List AccountRole) (h : accountRoles.Nodup) : Db where
  catalog := smallCatalog accountRoles h
  templates := .empty
  renders := ⟨[⟨1, 4, none, none, [], []⟩], 2, by decide, by decide⟩
  bounds := .empty
  requests := ⟨[⟨⟨1, some 1, none, some 1, [], [], [], 30000, none, "off", none, true, 5⟩, 1⟩], 2,
    by decide, by decide⟩
  responses := ⟨[⟨1, 1, .succeeded, ⟨none, none, none, none, none, none, []⟩, some 5, some 2, none,
    none, none, 6, false, none⟩], 2, by decide, by decide⟩
  answeredOnce := by decide

/-- What is counted on day 9 is twice the figure, for every kind of limit. -/
def CountedTwice (db : Db) (scope : Scope) : Prop :=
  (usageToday db scope 9 .requestsDaily = .ok 2 ∧ usageToday db scope 9 .tokensDaily = .ok 14 ∧
    usageToday db scope 9 .costDaily = .ok 32) ∧
  figure db scope 9 .requestsDaily = .ok 1 ∧ figure db scope 9 .tokensDaily = .ok 7 ∧
    figure db scope 9 .costDaily = .ok 16

end

/-! ## Passing a budget -/

theorem checkPolicy_eq_ok {db : Db} {now : ℕ} {p : BudgetPolicy} :
    checkPolicy db now p = .ok () ↔
      ∃ usage, usageToday db p.scope now p.limitKind = .ok usage ∧ usage < p.limitValue := by
  unfold checkPolicy
  cases usageToday db p.scope now p.limitKind with
  | error e => exact iff_of_false nofun nofun
  | ok usage =>
    by_cases hlimit : (p.limitValue : ℤ) ≤ usage
    · refine iff_of_false ?_ ?_
      · simp [bind, Except.bind, hlimit]
      · rintro ⟨_, heq, hlt⟩
        cases heq
        omega
    · exact iff_of_true (by simp [bind, Except.bind, hlimit]) ⟨usage, rfl, by omega⟩

/-- **A submission passes exactly if the figure of every policy that applies is below its limit**,
as the caller sees it, where what further roles add to the policies is zero. -/
theorem checkBudget_eq_ok {db : Db} {accountId : Option ℕ} {templateId now : ℕ}
    (h : ∀ p ∈ db.catalog.policies, applies db.catalog accountId templateId p = true →
      (∃ roleName, p.scope = .role roleName) ∨ CountedOnce db p.scope now p.limitKind) :
    checkBudget db accountId templateId now = .ok () ↔
      ∀ p ∈ db.catalog.policies, applies db.catalog accountId templateId p = true →
        ∃ used, figure db p.scope now p.limitKind = .ok used ∧ used < p.limitValue := by
  unfold checkBudget
  rw [forM_eq_ok]
  simp only [mem_insertionSort, mem_filter, and_imp, checkPolicy_eq_ok]
  refine forall₃_congr fun p hp happlies => ?_
  rw [(usageToday_iff db p.scope now p.limitKind).mpr (h p hp happlies)]

def limitedDb : Db :=
  { smallDb [⟨1, 1⟩] (by decide) with
    catalog := { smallCatalog [⟨1, 1⟩] (by decide) with
      policies := [⟨"tokens", .account 1, .tokensDaily, 8, true⟩] } }

theorem checkBudget_eq_ok_limited : checkBudget limitedDb (some 1) 4 9 = .ok () := by
  refine (checkBudget_eq_ok fun p hp _ => ?_).mpr fun p hp _ => ?_
  · rw [mem_singleton.mp hp]
    exact .inr fun n hn => by cases hn; rfl
  · rw [mem_singleton.mp hp]
    exact ⟨7, rfl, by decide⟩

/-- The requests of another account are not counted: a caller without an account passes. -/
example : checkBudget { limitedDb with catalog := { limitedDb.catalog with
    currentAccount := none
    policies := [⟨"requests", .all, .requestsDaily, 1, true⟩] } } none 4 9 = .ok () := rfl

end MaluDb.Gateway
