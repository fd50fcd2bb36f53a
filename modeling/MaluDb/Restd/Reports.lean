import MaluDb.Restd.Dispatch

/-!
# What a response says of the handler's transaction

`Truthful`: the status is a success exactly if the transaction of the handler was committed, and at
most one invocation is recorded, with the status of the response.
-/

namespace MaluDb.Restd

open MaluDb.Lib
open MaluDb.Prompt (Text)

variable {δ : Type} (V : Service δ) (req : Request)

/-! ## Statements -/

/-- From `s` to `s'` at most one invocation was recorded, with the status of `r`. -/
structure Recorded (s s' : Store δ) (r : DispatchResult) : Prop where
  handled : s'.handled = s.handled
  invocations : s'.invocations = s.invocations ∨
    ∃ i : Invocation, s'.invocations = s.invocations ++ [i] ∧ i.statusCode = r.statusCode

/-- At most one invocation was recorded, with the status of the response. -/
def RecordedOnce (s : Store δ) (r : Ended (Store δ) PyError DispatchResult) : Prop :=
  r.state.invocations = s.invocations ∨ ∃ s' result i, r = .returned s' result ∧
    s'.invocations = s.invocations ++ [i] ∧ i.statusCode = result.statusCode

/-- The response says what became of the handler's transaction, and so does the record. -/
structure Truthful (s : Store δ) : Prop where
  status : (∃ s' r, dispatch V req s = .returned s' r ∧ r.isSuccess = true) ↔
    (dispatch V req s).state.handled = s.handled + 1
  record : RecordedOnce s (dispatch V req s)

def Scope.takesEffect (c : Scope) : Bool :=
  c.connect.isNone && c.searchPath.isNone &&
    match c.commit with
    | .done => true
    | .refused _ _ => false
    | .lost _ tookEffect => tookEffect

/-- The transaction of the handler takes effect, with `body` as its result. -/
structure Effect (s : Store δ) (f : Frame δ) (endpoint : EndpointRow) (auth : Option AuthContext)
    (s' : Store δ) (body : PyValue) : Prop where
  admitted : check V req s = .returned f (.admitted endpoint auth)
  called : ∃ sql params, callOf V endpoint req.body = .ok (sql, params) ∧
    handlerBody V endpoint auth sql params f.store = .ok (s', body)
  takes : V.handler.takesEffect = true

/-- The record of a result that could be serialised raises nothing but errors of the database. -/
def Records (endpoint : Option EndpointRow) (auth : Option AuthContext) (result : DispatchResult)
    (s : Store δ) : Prop :=
  ∃ bytes, bodyBytes V.python result.body = .ok bytes ∧ ∀ s' e,
    writeInvocation V.first (invocationOf V.python V.first req endpoint auth result bytes) s
      = .raised s' e → e.isDb = true

/-- What takes effect is reported by COMMIT and can be recorded. -/
def Acknowledged (s : Store δ) : Prop :=
  ∀ f endpoint auth s' body, Effect V req s f endpoint auth s' body →
    V.handler.commit = .done ∧ Records V req endpoint auth { statusCode := 200, body } s'

/-! ## Connections -/

section

variable {σ α : Type} {c : Scope} {body : σ → Except PyError (σ × α)} {s : σ}

theorem isDb_reraise {e : PyError} (h : e.isDb = true) : (c.reraise e).isDb = true := by
  unfold Scope.reraise
  split
  · rfl
  · exact h

theorem connection_takes {s' : σ} {a : α} (hbody : body s = .ok (s', a))
    (htakes : c.takesEffect = true) :
    c.commit = .done ∧ connection c body s = .returned s' a ∨
      c.commit ≠ .done ∧ ∃ e, connection c body s = .raised s' e ∧ e.isDb = true := by
  obtain ⟨connect, searchPath, commit, rollback⟩ := c
  cases connect with
  | some _ => cases htakes
  | none =>
    cases searchPath with
    | some _ => cases htakes
    | none =>
      cases commit with
      | done => exact .inl ⟨rfl, by simp [connection, hbody, Scope.finish]⟩
      | refused _ _ => cases htakes
      | lost message tookEffect =>
        obtain rfl : tookEffect = true := htakes
        refine .inr ⟨nofun, Scope.reraise ⟨none, none, .lost message true, rollback⟩
          (.db none message), ?_, isDb_reraise rfl⟩
        simp [connection, hbody, Scope.finish]

theorem connection_fails (h : ∀ s' a, body s = .ok (s', a) → c.takesEffect = false) :
    ∃ e, connection c body s = .raised s e := by
  obtain ⟨connect, searchPath, commit, rollback⟩ := c
  cases connect with
  | some _ => exact ⟨_, rfl⟩
  | none =>
    cases searchPath with
    | some _ => exact ⟨_, rfl⟩
    | none =>
      unfold connection
      cases hbody : body s with
      | error e => exact ⟨_, rfl⟩
      | ok r =>
        have htakes := h r.1 r.2 hbody
        cases commit with
        | done => cases htakes
        | refused _ _ => exact ⟨_, rfl⟩
        | lost message tookEffect =>
          obtain rfl : tookEffect = false := htakes
          exact ⟨_, rfl⟩

theorem connection_cases (c : Scope) (body : σ → Except PyError (σ × α)) (s : σ) :
    (∃ s' a, body s = .ok (s', a) ∧ (connection c body s = .returned s' a ∨
      ∃ e, connection c body s = .raised s' e ∧ e.isDb = true)) ∨
    ∃ e, connection c body s = .raised s e := by
  by_cases h : ∃ s' a, body s = .ok (s', a) ∧ c.takesEffect = true
  · obtain ⟨s', a, hbody, htakes⟩ := h
    exact .inl ⟨s', a, hbody, (connection_takes hbody htakes).imp And.right And.right⟩
  · exact .inr (connection_fails fun s' a hbody =>
      Bool.eq_false_iff.mpr fun htakes => h ⟨s', a, hbody, htakes⟩)

theorem connection_keeps {I : σ → Prop} (hs : I s)
    (hbody : ∀ s' a, body s = .ok (s', a) → I s') : I (connection c body s).state := by
  obtain ⟨s', a, hok, heq | ⟨e, heq, -⟩⟩ | ⟨e, heq⟩ := connection_cases c body s
  · exact heq ▸ hbody s' a hok
  · exact heq ▸ hbody s' a hok
  · exact heq ▸ hs

end

/-! ## Recording -/

section

variable {V req} {P : Python} {log : Logging} {endpoint : Option EndpointRow}
  {auth : Option AuthContext} {result : DispatchResult} {s s' : Store δ}

theorem Recorded.refl (s : Store δ) (r : DispatchResult) : Recorded s s r := ⟨rfl, .inl rfl⟩

theorem restLogInvocation_eq_ok {i : Invocation} {a : Unit} :
    restLogInvocation log i s = .ok (s', a) ↔
      log.insert i = none ∧ s' = { s with invocations := s.invocations ++ [i] } := by
  unfold restLogInvocation
  cases log.insert i with
  | some e => simp
  | none => simp [eq_comm]

theorem recorded_write (log : Logging) (s : Store δ) (i : Invocation) (r : DispatchResult)
    (hi : i.statusCode = r.statusCode) :
    Recorded s (writeInvocation log i s).state r := by
  refine connection_keeps (I := fun s' => Recorded s s' r) (.refl s r) fun s' a hbody => ?_
  obtain ⟨-, rfl⟩ := restLogInvocation_eq_ok.mp hbody
  exact ⟨rfl, .inr ⟨i, rfl, hi⟩⟩

theorem eq_of_write_raised {i : Invocation} {e : PyError}
    (h : writeInvocation log i s = .raised s' e) (he : e.isDb = false) : s' = s := by
  obtain ⟨s'', a, -, heq | ⟨e', heq, hdb⟩⟩ | ⟨e', heq⟩ :=
    connection_cases log.scope (restLogInvocation log i) s
  · cases heq.symm.trans h
  · cases heq.symm.trans h
    rw [he] at hdb
    cases hdb
  · cases heq.symm.trans h
    rfl

theorem recordAndReturn_of_ok {bytes : List UInt8} (h : bodyBytes P result.body = .ok bytes) :
    recordAndReturn P log req endpoint auth result s = passDbError result
      (writeInvocation log (invocationOf P log req endpoint auth result bytes) s) := by
  unfold recordAndReturn
  rw [h]

theorem recordAndReturn_of_error {e : PyError} (h : bodyBytes P result.body = .error e) :
    recordAndReturn P log req endpoint auth result s = .raised s e := by
  unfold recordAndReturn
  rw [h]

theorem recordAndReturn_cases (P : Python) (log : Logging) (req : Request)
    (endpoint : Option EndpointRow) (auth : Option AuthContext) (result : DispatchResult)
    (s : Store δ) :
    (∃ s', recordAndReturn P log req endpoint auth result s = .returned s' result ∧
      Recorded s s' result) ∨
    ∃ e, recordAndReturn P log req endpoint auth result s = .raised s e := by
  cases hbytes : bodyBytes P result.body with
  | error e => exact .inr ⟨e, recordAndReturn_of_error hbytes⟩
  | ok bytes =>
    rw [recordAndReturn_of_ok hbytes]
    have hrecorded := recorded_write log s
      (invocationOf P log req endpoint auth result bytes) result rfl
    cases hwrite : writeInvocation log (invocationOf P log req endpoint auth result bytes) s with
    | returned s' _ =>
      rw [hwrite] at hrecorded
      exact .inl ⟨s', rfl, hrecorded⟩
    | raised s' e =>
      rw [hwrite] at hrecorded
      cases e with
      | db sqlstate message => exact .inl ⟨s', rfl, hrecorded⟩
      | other message =>
        obtain rfl := eq_of_write_raised hwrite rfl
        exact .inr ⟨_, rfl⟩

theorem records_iff : Records V req endpoint auth result s ↔
    ∃ s', recordAndReturn V.python V.first req endpoint auth result s = .returned s' result := by
  constructor
  · rintro ⟨bytes, hbytes, hdb⟩
    rw [recordAndReturn_of_ok hbytes]
    cases hwrite : writeInvocation V.first
        (invocationOf V.python V.first req endpoint auth result bytes) s with
    | returned s' _ => exact ⟨s', rfl⟩
    | raised s' e =>
      cases e with
      | db sqlstate message => exact ⟨s', rfl⟩
      | other message => cases hdb s' _ hwrite
  rintro ⟨s', h⟩
  cases hbytes : bodyBytes V.python result.body with
  | error e =>
    rw [recordAndReturn_of_error hbytes] at h
    cases h
  | ok bytes =>
    rw [recordAndReturn_of_ok hbytes] at h
    refine ⟨bytes, hbytes, fun s'' e hwrite => ?_⟩
    cases e with
    | db sqlstate message => rfl
    | other message =>
      rw [hwrite] at h
      cases h

end

/-! ## Dispatching -/

section

variable {V req} {s : Store δ}

def Failed (s : Store δ) : Ended (Store δ) PyError DispatchResult → Prop
  | .returned s' r => r.isSuccess = false ∧ Recorded s s' r
  | .raised s' _ => s' = s

theorem failed_exceptAny_raised (f : Frame δ) (e : PyError) :
    Failed f.store (exceptAny V req (.raised f e)) := by
  change Failed f.store
    (recordAndReturn V.python V.second req f.endpoint f.auth (internalError e) f.store)
  rcases recordAndReturn_cases V.python V.second req f.endpoint f.auth (internalError e) f.store
    with ⟨s', heq, hrecorded⟩ | ⟨e', heq⟩
  · rw [heq]
    exact ⟨rfl, hrecorded⟩
  · rw [heq]
    rfl

theorem failed_exceptAny_record (f : Frame δ) (endpoint : Option EndpointRow)
    (auth : Option AuthContext) {result : DispatchResult} (s : Store δ)
    (h : result.isSuccess = false) :
    Failed s (exceptAny V req
      (f.on (recordAndReturn V.python V.first req endpoint auth result s))) := by
  rcases recordAndReturn_cases V.python V.first req endpoint auth result s
    with ⟨s', heq, hrecorded⟩ | ⟨e, heq⟩
  · rw [heq]
    exact ⟨h, hrecorded⟩
  · rw [heq]
    exact failed_exceptAny_raised { f with store := s } e

/-- Nothing was handled or recorded from `s` to `s'`. -/
structure Same (s s' : Store δ) : Prop where
  handled : s'.handled = s.handled
  invocations : s'.invocations = s.invocations

theorem Same.trans {s₁ s₂ s₃ : Store δ} (h : Same s₁ s₂) (h' : Same s₂ s₃) : Same s₁ s₃ :=
  ⟨h'.handled.trans h.handled, h'.invocations.trans h.invocations⟩

theorem same_findEndpoint (V : Service δ) (req : Request) (s : Store δ) :
    Same s (findEndpoint V req s).state := by
  refine connection_keeps (I := Same s) ⟨rfl, rfl⟩ fun s' row hbody => ?_
  obtain ⟨_, -, heq⟩ := map_eq_ok.mp hbody
  cases heq
  exact ⟨rfl, rfl⟩

theorem same_verifyToken (V : Service δ) (token : Text) (sourceIp : Option Text)
    (s : Store δ) : Same s (verifyToken V token sourceIp s).state := by
  refine connection_keeps (I := Same s) ⟨rfl, rfl⟩ fun s' row hbody => ?_
  obtain ⟨_, -, heq⟩ := map_eq_ok.mp hbody
  cases heq
  exact ⟨rfl, rfl⟩

/-- The checks handle and record nothing, and what they refuse with is not a success. -/
structure Checks (s : Store δ) (r : Ended (Frame δ) PyError Checked) : Prop where
  same : Same s r.state.store
  refused : ∀ f result endpoint auth, r = .returned f (.refused result endpoint auth) →
    result.isSuccess = false

variable {f : Frame δ}

theorem Checks.of_raised (h : Same s f.store) (e : PyError) : Checks s (.raised f e) :=
  ⟨h, fun _ _ _ _ heq => by cases heq⟩

theorem Checks.of_admitted (h : Same s f.store) (endpoint : EndpointRow)
    (auth : Option AuthContext) : Checks s (.returned f (.admitted endpoint auth)) :=
  ⟨h, fun _ _ _ _ heq => by cases heq⟩

theorem Checks.of_refused {result : DispatchResult} (h : Same s f.store)
    (hresult : result.isSuccess = false) (endpoint : Option EndpointRow)
    (auth : Option AuthContext) : Checks s (.returned f (.refused result endpoint auth)) := by
  refine ⟨h, fun _ _ _ _ heq => ?_⟩
  cases heq
  exact hresult

theorem checks_checkToken (V : Service δ) (req : Request) (endpoint : EndpointRow) (f : Frame δ) :
    Checks f.store (checkToken V req endpoint f) := by
  unfold checkToken
  match req.bearerToken with
  | none => exact .of_refused ⟨rfl, rfl⟩ rfl _ _
  | some [] => exact .of_refused ⟨rfl, rfl⟩ rfl _ _
  | some (c :: token) =>
    have hsame := same_verifyToken V (c :: token) req.sourceIp f.store
    dsimp only
    cases hverify : verifyToken V (c :: token) req.sourceIp f.store with
    | raised s' e =>
      rw [hverify] at hsame
      exact .of_raised hsame e
    | returned s' auth =>
      rw [hverify] at hsame
      simp only [Frame.on, andThen_returned]
      cases auth.accountId with
      | none => exact .of_refused hsame rfl _ _
      | some account =>
        cases endpoint.requiredScopes.filter (fun s => !auth.scopes.contains s) with
        | nil => exact .of_admitted hsame _ _
        | cons scope missing => exact .of_refused hsame rfl _ _

theorem checks_check (V : Service δ) (req : Request) (s : Store δ) :
    Checks s (check V req s) := by
  have hsame := same_findEndpoint V req s
  unfold check
  cases hfind : findEndpoint V req s with
  | raised s' e =>
    rw [hfind] at hsame
    exact .of_raised hsame e
  | returned s' endpoint =>
    rw [hfind] at hsame
    simp only [Frame.on, andThen_returned]
    cases endpoint with
    | none => exact .of_refused hsame rfl _ _
    | some endpoint =>
      dsimp only
      by_cases henabled : endpoint.enabled = false
      · rw [if_pos henabled]
        exact .of_refused hsame rfl _ _
      rw [if_neg henabled]
      by_cases hauth : endpoint.authRequired = true
      · rw [if_pos hauth]
        have hchecks := checks_checkToken V req endpoint ⟨s', some endpoint, none⟩
        exact ⟨hsame.trans hchecks.same, hchecks.refused⟩
      · rw [if_neg hauth]
        exact .of_admitted hsame _ _

theorem failed_respond {endpoint : EndpointRow} {auth : Option AuthContext} {s' : Store δ}
    {e : PyError} (h : callHandler V endpoint req.body auth f.store = .raised s' e) :
    Failed s' (exceptAny V req (respond V req (.admitted endpoint auth) f)) := by
  unfold respond
  dsimp only
  rw [h]
  cases e with
  | db sqlstate message => exact failed_exceptAny_record f endpoint auth s' rfl
  | other message => exact failed_exceptAny_raised { f with store := s' } (.other message)

theorem callHandler_fails {endpoint : EndpointRow} {auth : Option AuthContext} {s : Store δ}
    (h : ∀ sql params s' body, callOf V endpoint req.body = .ok (sql, params) →
      handlerBody V endpoint auth sql params s = .ok (s', body) → V.handler.takesEffect = false) :
    ∃ e, callHandler V endpoint req.body auth s = .raised s e := by
  unfold callHandler
  cases hcall : callOf V endpoint req.body with
  | error e => exact ⟨e, rfl⟩
  | ok call => exact connection_fails fun s' body hbody => h call.1 call.2 s' body hcall hbody

theorem dispatch_cases (V : Service δ) (req : Request) (s : Store δ) :
    (∃ f endpoint auth s' body s'', Effect V req s f endpoint auth s' body ∧
      V.handler.commit = .done ∧ Records V req endpoint auth { statusCode := 200, body } s' ∧
      dispatch V req s = .returned s'' { statusCode := 200, body } ∧
      Recorded s' s'' { statusCode := 200, body }) ∨
    (∃ f endpoint auth s' body, Effect V req s f endpoint auth s' body ∧
      ¬ (V.handler.commit = .done ∧ Records V req endpoint auth { statusCode := 200, body } s') ∧
      Failed s' (dispatch V req s)) ∨
    (∀ f endpoint auth s' body, ¬ Effect V req s f endpoint auth s' body) ∧
      ∃ s', Same s s' ∧ Failed s' (dispatch V req s) := by
  have hchecks := checks_check V req s
  unfold dispatch
  cases hcheck : check V req s with
  | raised f e =>
    rw [hcheck] at hchecks
    refine .inr (.inr ⟨fun _ _ _ _ _ heffect => ?_, f.store, hchecks.same,
      failed_exceptAny_raised f e⟩)
    cases hcheck.symm.trans heffect.admitted
  | returned f checked =>
    rw [hcheck] at hchecks
    rw [andThen_returned]
    cases checked with
    | refused result endpoint auth =>
      refine .inr (.inr ⟨fun _ _ _ _ _ heffect => ?_, f.store, hchecks.same,
        failed_exceptAny_record f endpoint auth f.store (hchecks.refused _ _ _ _ rfl)⟩)
      cases hcheck.symm.trans heffect.admitted
    | admitted endpoint auth =>
      by_cases heffect : ∃ sql params s' body, callOf V endpoint req.body = .ok (sql, params) ∧
          handlerBody V endpoint auth sql params f.store = .ok (s', body) ∧
            V.handler.takesEffect = true
      · obtain ⟨sql, params, s', body, hcall, hbody, htakes⟩ := heffect
        have heffect : Effect V req s f endpoint auth s' body :=
          ⟨hcheck, ⟨sql, params, hcall, hbody⟩, htakes⟩
        have hconnection : callHandler V endpoint req.body auth f.store
            = connection V.handler (handlerBody V endpoint auth sql params) f.store := by
          unfold callHandler
          rw [hcall]
        rcases connection_takes hbody htakes with ⟨hdone, hok⟩ | ⟨hlost, e, hraised, -⟩
        · have hrespond : respond V req (.admitted endpoint auth) f
              = f.on (recordAndReturn V.python V.first req endpoint auth
                { statusCode := 200, body } s') := by
            unfold respond
            dsimp only
            rw [hconnection, hok]
          rw [hrespond]
          rcases recordAndReturn_cases V.python V.first req endpoint auth
            { statusCode := 200, body } s' with ⟨s'', heq, hrecorded⟩ | ⟨e, heq⟩
          · refine .inl ⟨f, endpoint, auth, s', body, s'', heffect, hdone,
              records_iff.mpr ⟨s'', heq⟩, ?_, hrecorded⟩
            rw [heq]
            rfl
          refine .inr (.inl ⟨f, endpoint, auth, s', body, heffect, fun hack => ?_, ?_⟩)
          · obtain ⟨s'', heq'⟩ := records_iff.mp hack.2
            cases heq.symm.trans heq'
          · rw [heq]
            exact failed_exceptAny_raised { f with store := s' } e
        · exact .inr (.inl ⟨f, endpoint, auth, s', body, heffect, fun hack => hlost hack.1,
            failed_respond (hconnection.trans hraised)⟩)
      · obtain ⟨e, hraised⟩ : ∃ e, callHandler V endpoint req.body auth f.store
            = .raised f.store e :=
          callHandler_fails fun sql params s' body hcall hbody => Bool.eq_false_iff.mpr
            fun htakes => heffect ⟨sql, params, s', body, hcall, hbody, htakes⟩
        refine .inr (.inr ⟨fun f' endpoint' auth' s' body heffect' => heffect ?_, f.store,
          hchecks.same, failed_respond hraised⟩)
        cases hcheck.symm.trans heffect'.admitted
        obtain ⟨sql, params, hcall, hbody⟩ := heffect'.called
        exact ⟨sql, params, s', body, hcall, hbody, heffect'.takes⟩

end

/-! ## What a response says -/

section

variable {V req} {s : Store δ}

theorem Effect.counted {f : Frame δ} {endpoint : EndpointRow} {auth : Option AuthContext}
    {s' : Store δ} {body : PyValue} (h : Effect V req s f endpoint auth s' body) :
    s'.handled = s.handled + 1 ∧ s'.invocations = s.invocations := by
  have hsame := (checks_check V req s).same
  rw [h.admitted] at hsame
  obtain ⟨sql, params, -, hbody⟩ := h.called
  unfold handlerBody at hbody
  cases hsettings : V.settings (auth.bind AuthContext.accountId) endpoint.timeoutMs with
  | some e =>
    rw [hsettings] at hbody
    cases hbody
  | none =>
    rw [hsettings] at hbody
    obtain ⟨_, -, heq⟩ := map_eq_ok.mp hbody
    cases heq
    exact ⟨congrArg (· + 1) hsame.handled, hsame.invocations⟩

theorem Effect.unique {f f' : Frame δ} {endpoint endpoint' : EndpointRow}
    {auth auth' : Option AuthContext} {s₁ s₂ : Store δ} {body body' : PyValue}
    (h : Effect V req s f endpoint auth s₁ body) (h' : Effect V req s f' endpoint' auth' s₂ body') :
    f = f' ∧ endpoint = endpoint' ∧ auth = auth' ∧ s₁ = s₂ ∧ body = body' := by
  cases h.admitted.symm.trans h'.admitted
  obtain ⟨sql, params, hcall, hbody⟩ := h.called
  obtain ⟨sql', params', hcall', hbody'⟩ := h'.called
  cases hcall.symm.trans hcall'
  cases hbody.symm.trans hbody'
  exact ⟨rfl, rfl, rfl, rfl, rfl⟩

variable {r : Ended (Store δ) PyError DispatchResult}

theorem Failed.not_success (h : Failed s r) :
    ¬ ∃ s' result, r = .returned s' result ∧ result.isSuccess = true := by
  rintro ⟨s', result, rfl, hsuccess⟩
  rw [h.1] at hsuccess
  cases hsuccess

theorem Failed.handled (h : Failed s r) : r.state.handled = s.handled := by
  cases r with
  | returned s' result => exact h.2.handled
  | raised s' e => rw [show s' = s from h]; rfl

theorem Failed.recordedOnce {s₀ : Store δ} (h : Failed s r)
    (hsame : s.invocations = s₀.invocations) : RecordedOnce s₀ r := by
  cases r with
  | returned s' result =>
    rcases h.2.invocations with heq | ⟨i, heq, hi⟩
    · exact .inl (heq.trans hsame)
    · exact .inr ⟨s', result, i, rfl, heq.trans (by rw [hsame]), hi⟩
  | raised s' e =>
    obtain rfl : s' = s := h
    exact .inl hsame

/-- **At most one invocation is recorded, with the status of the response**, whatever happens. -/
theorem recordedOnce_dispatch (V : Service δ) (req : Request) (s : Store δ) :
    RecordedOnce s (dispatch V req s) := by
  rcases dispatch_cases V req s with ⟨f, endpoint, auth, s', body, s'', heffect, -, -, heq, hrec⟩ |
    ⟨f, endpoint, auth, s', body, heffect, -, hfailed⟩ | ⟨-, s', hsame, hfailed⟩
  · rw [heq]
    rcases hrec.invocations with hinv | ⟨i, hinv, hi⟩
    · exact .inl (hinv.trans heffect.counted.2)
    · exact .inr ⟨s'', _, i, rfl, hinv.trans (by rw [heffect.counted.2]), hi⟩
  · exact hfailed.recordedOnce heffect.counted.2
  · exact hfailed.recordedOnce hsame.invocations

/-- **The response is truthful exactly if what takes effect is acknowledged.** -/
theorem truthful_iff (V : Service δ) (req : Request) (s : Store δ) :
    Truthful V req s ↔ Acknowledged V req s := by
  constructor
  · intro htruthful f endpoint auth s' body heffect
    rcases dispatch_cases V req s with ⟨f₁, endpoint₁, auth₁, s₁, body₁, _, heffect₁, hdone, hrec,
      -, -⟩ | ⟨f₁, endpoint₁, auth₁, s₁, body₁, heffect₁, -, hfailed⟩ | ⟨hnone, -⟩
    · obtain ⟨rfl, rfl, rfl, rfl, rfl⟩ := heffect₁.unique heffect
      exact ⟨hdone, hrec⟩
    · have hhandled := hfailed.handled.trans heffect₁.counted.1
      exact absurd (htruthful.status.mpr hhandled) hfailed.not_success
    · exact absurd heffect (hnone f endpoint auth s' body)
  intro hack
  refine ⟨?_, recordedOnce_dispatch V req s⟩
  rcases dispatch_cases V req s with
    ⟨f, endpoint, auth, s', body, s'', heffect, -, -, heq, hrec⟩ |
    ⟨f, endpoint, auth, s', body, heffect, hnot, -⟩ | ⟨-, s', hsame, hfailed⟩
  · rw [heq]
    exact iff_of_true ⟨s'', _, rfl, rfl⟩ (hrec.handled.trans heffect.counted.1)
  · exact absurd (hack f endpoint auth s' body heffect) hnot
  · refine iff_of_false hfailed.not_success fun hhandled => ?_
    have hcount := hfailed.handled.trans hsame.handled
    omega

end

/-! ## A result that cannot be serialised -/

section

def plainPython : Python where
  quote t := '"' :: (t ++ ['"'])
  loads _ := .ok .none
  str _ := []
  int _ := .ok 0
  bool _ := false
  fromhex _ := .ok []
  bytes _ := .ok []
  isspace c := c = ' '
  sha256 b := b

def committing (commit : Commit) : Scope := ⟨none, none, commit, none⟩

/-- An endpoint without a token and without arguments, whose handler returns `value`. -/
def returning (value : PyValue) (commit : Commit) : Service Unit where
  python := plainPython
  find := committing .done
  endpoint _ _ _ := .ok (some ⟨1, "maludb_core.touch()".toList, false, [], 30000, true, []⟩)
  verify := committing .done
  token _ _ d := .ok (d, none)
  handler := committing commit
  settings _ _ := none
  call _ _ d := .ok (d, ⟨some ["touch".toList], [[value]]⟩)
  first := ⟨committing .done, fun _ => none, 1⟩
  second := ⟨committing .done, fun _ => none, 2⟩

def postTouch : Request := ⟨"POST".toList, "/touch".toList, [], none, none⟩

def freshStore : Store Unit := ⟨(), 0, []⟩

example : Truthful (returning (.int 7) .done) postTouch freshStore :=
  ⟨iff_of_true ⟨_, _, rfl, rfl⟩ rfl, .inr ⟨_, _, _, rfl, rfl, rfl⟩⟩

def Denied (V : Service Unit) : Prop :=
  ∃ s r, dispatch V postTouch freshStore = .returned s r ∧ r.statusCode = 500 ∧ s.handled = 1

/-- **A handler that returns a date is committed and answered with 500**, and so is one whose COMMIT
takes effect and loses its reply. -/
theorem dispatch_denies :
    (Denied (returning (.object "datetime".toList) .done) ∧
      ¬ Truthful (returning (.object "datetime".toList) .done) postTouch freshStore) ∧
    Denied (returning (.int 7) (.lost "server closed the connection".toList true)) := by
  refine ⟨⟨⟨_, _, rfl, rfl, rfl⟩, fun h => ?_⟩, ⟨_, _, rfl, rfl, rfl⟩⟩
  obtain ⟨s, r, heq, hsuccess⟩ := h.status.mpr rfl
  cases heq
  cases hsuccess

end

end MaluDb.Restd
