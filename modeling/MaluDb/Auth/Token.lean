import MaluDb.Lib.Inet
import MaluDb.Lib.Run
import MaluDb.Lib.Serial
import MaluDb.Prompt.Bytea

/-!
# Bearer tokens

`auth_token_create`, `auth_token_revoke` and `auth_token_verify`. The table keeps the HMAC, under a
secret key, of the bytes that the cast to `bytea` reads (`mac`). `World` has besides the tables and
the clock what creation calls have returned.
-/

namespace MaluDb.Auth

open MaluDb.Lib List
open MaluDb.Prompt (Text BadBytea byteaIn)

/-! ## Tables -/

inductive TokenKind where
  | personal
  | service
  deriving DecidableEq

/-- `p_kind IN ('personal','service')`. -/
def TokenKind.ofText? : String → Option TokenKind
  | "personal" => some .personal
  | "service" => some .service
  | _ => none

/-- A row of `malu$account`. -/
structure AccountRow where
  accountId : ℕ
  enabled : Bool

/-- A row of `malu$auth_token`. An array of addresses may hold NULLs. -/
structure TokenRow where
  tokenId : ℕ
  accountId : ℕ
  tokenHash : List UInt8
  tokenKind : TokenKind
  scopes : List Text
  allowedCidrs : Option (List (Option Inet))
  expiresAt : Option ℕ
  lastUsedAt : Option ℕ
  revokedAt : Option ℕ

inductive Outcome where
  | accepted
  | rejectedExpired
  | rejectedRevoked
  | rejectedCidr
  | rejectedDisabledAccount
  deriving DecidableEq

structure UseRow where
  useId : ℕ
  tokenId : ℕ
  usedAt : ℕ
  sourceIp : Option Inet
  outcome : Outcome

/-- The tables and the clock. -/
structure TokenDb where
  accounts : Serial AccountRow AccountRow.accountId
  tokens : Serial TokenRow TokenRow.tokenId
  uses : Serial UseRow UseRow.useId
  clock : ℕ
  hashOnce : (tokens.rows.map TokenRow.tokenHash).Nodup
  owned : ∀ t ∈ tokens.rows, t.accountId ∈ accounts.rows.map AccountRow.accountId

inductive AuthError where
  | cannotIssue (caller accountId : ℕ)
  | badKind
  | notNull (column : String)
  | unknownAccount
  | duplicateHash
  | expiresBeforeCreation
  | tokenNotFound (tokenId : ℕ)
  | cannotRevoke (caller owner : ℕ)
  | badBytea (e : BadBytea)

def AuthError.message : AuthError → String
  | .cannotIssue caller accountId =>
    s!"auth_token_create: caller account {caller} cannot issue tokens for account {accountId}"
  | .badKind => "auth_token_create: token_kind must be personal or service"
  | .notNull column => "null value in column \"" ++ column ++
      "\" of relation \"malu$auth_token\" violates not-null constraint"
  | .unknownAccount => "insert or update on table \"malu$auth_token\" violates foreign key " ++
      "constraint \"malu$auth_token_account_id_fkey\""
  | .duplicateHash =>
    "duplicate key value violates unique constraint \"malu$auth_token_token_hash_key\""
  | .expiresBeforeCreation =>
    "new row for relation \"malu$auth_token\" violates check constraint \"malu$auth_token_check\""
  | .tokenNotFound tokenId => s!"auth_token_revoke: token_id {tokenId} not found"
  | .cannotRevoke caller owner =>
    s!"auth_token_revoke: account {caller} cannot revoke token owned by account {owner}"
  | .badBytea e => e.message

/-! ## Plaintexts -/

/-- A digit in base 64. -/
def base64Digit (n : ℕ) : Char :=
  "ABCDEFGHIJKLMNOPQRSTUVWXYZabcdefghijklmnopqrstuvwxyz0123456789+/".toList.getD n 'A'

/-- `encode(bytes, 'base64')` without its line breaks, which `translate` drops. -/
def encodeBase64 : List UInt8 → Text
  | [] => []
  | [a] => [base64Digit (a.toNat / 4), base64Digit (a.toNat % 4 * 16), '=', '=']
  | [a, b] => [base64Digit (a.toNat / 4), base64Digit (a.toNat % 4 * 16 + b.toNat / 16),
      base64Digit (b.toNat % 16 * 4), '=']
  | a :: b :: c :: bytes => base64Digit (a.toNat / 4) ::
      base64Digit (a.toNat % 4 * 16 + b.toNat / 16) ::
      base64Digit (b.toNat % 16 * 4 + c.toNat / 64) :: base64Digit (c.toNat % 64) ::
      encodeBase64 bytes

/-- `translate(…, E'+/=\n', '-_')`. -/
def translateBase64 (t : Text) : Text :=
  t.filterMap fun
    | '+' => some '-'
    | '/' => some '_'
    | '=' => none
    | '\n' => none
    | c => some c

/-- `__auth_token_encode`. -/
def authTokenEncode (bytes : List UInt8) : Text :=
  "mldbat_".toList ++ translateBase64 (encodeBase64 bytes)

section

-- `mac` is HMAC-SHA256 under the pepper
variable (mac : List UInt8 → List UInt8)

/-- `__auth_token_hash`. -/
def authTokenHash (plaintext : Text) : Except AuthError (List UInt8) :=
  mac <$> (byteaIn plaintext).mapError .badBytea

/-! ## Creation -/

/-- The arguments of `auth_token_create`, with the caller's account and the random bytes. -/
structure CreateArgs where
  caller : Option ℕ
  accountId : Option ℕ
  kind : Option String
  scopes : Option (List Text)
  allowedCidrs : Option (List (Option Inet))
  expiresAt : Option ℕ
  random : List UInt8
  random_length : random.length = 32

def TokenDb.insertToken (db : TokenDb) (accountId : ℕ) (tokenHash : List UInt8) (kind : TokenKind)
    (scopes : List Text) (allowedCidrs : Option (List (Option Inet))) (expiresAt : Option ℕ) :
    Except AuthError TokenDb :=
  if expiresAt.any (· ≤ db.clock) then .error .expiresBeforeCreation
  else if hhash : tokenHash ∈ db.tokens.rows.map TokenRow.tokenHash then .error .duplicateHash
  else if howned : accountId ∈ db.accounts.rows.map AccountRow.accountId then
    .ok { db with
      tokens := db.tokens.insert (fun id => ⟨id, accountId, tokenHash, kind, scopes, allowedCidrs,
        expiresAt, none, none⟩) fun _ => rfl
      hashOnce := Serial.nodup_map_insert (fun _ => rfl) db.hashOnce hhash
      owned := by
        intro t ht
        rcases Serial.mem_insert.mp ht with hold | rfl
        · exact db.owned t hold
        · exact howned }
  else .error .unknownAccount

/-- A caller with an account issues tokens for that account only. A comparison with NULL raises
nothing here; the INSERT does. -/
def checkCaller : Option ℕ → Option ℕ → Except AuthError Unit
  | some caller, some accountId =>
    if caller ≠ accountId then .error (.cannotIssue caller accountId) else .ok ()
  | _, _ => .ok ()

def checkKind : Option String → Except AuthError Unit
  | some kind => if TokenKind.ofText? kind = none then .error .badKind else .ok ()
  | none => .ok ()

/-- `auth_token_create`: the token's id and its plaintext. -/
def authTokenCreate (db : TokenDb) (a : CreateArgs) : Except AuthError ((ℕ × Text) × TokenDb) := do
  checkCaller a.caller a.accountId
  checkKind a.kind
  let plaintext := authTokenEncode a.random
  let tokenHash ← authTokenHash mac plaintext
  match a.accountId, a.kind.bind TokenKind.ofText?, a.scopes with
  | none, _, _ => .error (.notNull "account_id")
  | _, none, _ => .error (.notNull "token_kind")
  | _, _, none => .error (.notNull "scopes")
  | some accountId, some kind, some scopes =>
    let db' ← db.insertToken accountId tokenHash kind scopes a.allowedCidrs a.expiresAt
    return ((db.tokens.next, plaintext), db')

/-! ## Revocation -/

def TokenDb.updateTokens (db : TokenDb) (p : TokenRow → Bool) (f : TokenRow → TokenRow)
    (hid : ∀ t, (f t).tokenId = t.tokenId) (hhash : ∀ t, (f t).tokenHash = t.tokenHash)
    (haccount : ∀ t, (f t).accountId = t.accountId) : TokenDb :=
  { db with
    tokens := db.tokens.update p f hid
    hashOnce := by
      rw [Serial.map_update hid hhash]
      exact db.hashOnce
    owned := by
      intro t ht
      obtain ⟨t₀, ht₀, rfl⟩ := Serial.mem_update.mp ht
      have hsame : (if p t₀ then f t₀ else t₀).accountId = t₀.accountId := by
        split
        · exact haccount t₀
        · rfl
      rw [hsame]
      exact db.owned t₀ ht₀ }

/-- `auth_token_revoke`: whether the token was still open. -/
def authTokenRevoke (db : TokenDb) (caller : Option ℕ) (tokenId : ℕ) :
    Except AuthError (Bool × TokenDb) :=
  match db.tokens.get? tokenId with
  | none => .error (.tokenNotFound tokenId)
  | some t =>
    match caller.filter (· ≠ t.accountId) with
    | some caller => .error (.cannotRevoke caller t.accountId)
    | none => .ok (t.revokedAt.isNone, db.updateTokens (·.tokenId = tokenId)
        (fun t => { t with revokedAt := some (t.revokedAt.getD db.clock) }) (fun _ => rfl)
        (fun _ => rfl) fun _ => rfl)

/-! ## Verification -/

/-- What `auth_token_verify` returns. -/
structure Binding where
  tokenId : ℕ
  accountId : ℕ
  tokenKind : TokenKind
  scopes : List Text
  deriving DecidableEq

def TokenRow.binding (t : TokenRow) : Binding := ⟨t.tokenId, t.accountId, t.tokenKind, t.scopes⟩

def TokenDb.outcome (db : TokenDb) (t : TokenRow) (sourceIp : Option Inet) : Outcome :=
  if (db.accounts.get? t.accountId).map AccountRow.enabled = some false then
    .rejectedDisabledAccount
  else if t.revokedAt.isSome then .rejectedRevoked
  else if t.expiresAt.any (· ≤ db.clock) then .rejectedExpired
  else
    match t.allowedCidrs, sourceIp with
    | some cidrs, some source =>
      if cidrs.any fun c => c.any source.within then .accepted else .rejectedCidr
    | _, _ => .accepted

def TokenDb.touch (db : TokenDb) (tokenId : ℕ) (outcome : Outcome) : TokenDb :=
  if outcome = .accepted then
    db.updateTokens (·.tokenId = tokenId) (fun t => { t with lastUsedAt := some db.clock })
      (fun _ => rfl) (fun _ => rfl) fun _ => rfl
  else db

def TokenDb.use (db : TokenDb) (tokenId : ℕ) (sourceIp : Option Inet) (outcome : Outcome) :
    TokenDb :=
  { db.touch tokenId outcome with
    uses := db.uses.insert (fun id => ⟨id, tokenId, db.clock, sourceIp, outcome⟩) fun _ => rfl }

/-- `auth_token_verify`, from the hash on. -/
def TokenDb.verifyHash (db : TokenDb) (sourceIp : Option Inet) (tokenHash : List UInt8) :
    Option Binding × TokenDb :=
  match db.tokens.rows.find? fun t => t.tokenHash == tokenHash with
  | none => (none, db)
  | some t => (if db.outcome t sourceIp = .accepted then some t.binding else none,
      db.use t.tokenId sourceIp (db.outcome t sourceIp))

/-- `auth_token_verify`. -/
def authTokenVerify (db : TokenDb) (plaintext : Option Text) (sourceIp : Option Inet) :
    Except AuthError (Option Binding × TokenDb) :=
  match plaintext with
  | none | some [] => .ok (none, db)
  | some plaintext => (authTokenHash mac plaintext).map (db.verifyHash sourceIp)

/-! ## Histories -/

structure World where
  db : TokenDb
  issued : List (ℕ × Text)

/-- No account and no token. -/
def World.empty : World where
  db := ⟨.empty, .empty, .empty, 0, nodup_nil, forall_mem_nil _⟩
  issued := []

inductive Op where
  | create (a : CreateArgs)
  | revoke (caller : Option ℕ) (tokenId : ℕ)
  | verify (plaintext : Option Text) (sourceIp : Option Inet)
  | addAccount (enabled : Bool)
  | setEnabled (accountId : ℕ) (enabled : Bool)
  | wait (duration : ℕ)

/-- An INSERT into `malu$account`. -/
def TokenDb.addAccount (db : TokenDb) (enabled : Bool) : TokenDb :=
  { db with
    accounts := db.accounts.insert (fun id => ⟨id, enabled⟩) fun _ => rfl
    owned := by
      intro t ht
      obtain ⟨a, ha, hid⟩ := mem_map.mp (db.owned t ht)
      exact mem_map.mpr ⟨a, mem_append_left _ ha, hid⟩ }

/-- An UPDATE of the column `enabled` of an account. -/
def TokenDb.setEnabled (db : TokenDb) (accountId : ℕ) (enabled : Bool) : TokenDb :=
  { db with
    accounts := db.accounts.update (·.accountId = accountId)
      (fun a => { a with enabled := enabled }) fun _ => rfl
    owned := by
      intro t ht
      have hid : ∀ a : AccountRow, { a with enabled := enabled }.accountId = a.accountId :=
        fun _ => rfl
      rw [Serial.map_update hid hid]
      exact db.owned t ht }

def step (w : World) : Op → World
  | .create a =>
    match authTokenCreate mac w.db a with
    | .ok (issued, db) => ⟨db, w.issued ++ [issued]⟩
    | .error _ => w
  | .revoke caller tokenId =>
    { w with db := commitOr w.db ((authTokenRevoke w.db caller tokenId).map Prod.snd) }
  | .verify plaintext sourceIp =>
    { w with db := commitOr w.db ((authTokenVerify mac w.db plaintext sourceIp).map Prod.snd) }
  | .addAccount enabled => { w with db := w.db.addAccount enabled }
  | .setEnabled accountId enabled => { w with db := w.db.setEnabled accountId enabled }
  | .wait duration => { w with db := { w.db with clock := w.db.clock + duration } }

end

end MaluDb.Auth
