import MaluDb.Auth.Token

/-!
# Which tokens verify

`auth_token_verify` (`maludb_core--0.106.0.sql`, 19260-19338) in every state that a history of
creations, revocations, verifications, account changes and waiting reaches.

`Entitled`: the text was issued, its token is unrevoked, unexpired and of an enabled account, and if
it is restricted, a source address is given and lies in one of its ranges.

Results:

* `verifiesExactly_iff`: for which calls exactly the entitled texts verify.
* `verify_accepts_more`: a restricted token without a source, and a text that was not issued.
-/

namespace MaluDb.Auth

open MaluDb.Lib List
open MaluDb.Prompt (Text byteaIn utf8 byteaIn_of_notMem)

/-! ## Plaintexts have no backslash -/

theorem base64Digit_ne (n : ℕ) : base64Digit n ≠ '\\' := by
  unfold base64Digit
  rw [getD_eq_getElem?_getD]
  intro h
  cases hdigit : "ABCDEFGHIJKLMNOPQRSTUVWXYZabcdefghijklmnopqrstuvwxyz0123456789+/".toList[n]? with
  | none =>
    rw [hdigit] at h
    exact absurd h (by decide)
  | some c =>
    rw [hdigit, Option.getD_some] at h
    exact absurd (h ▸ mem_of_getElem? hdigit) (by decide)

theorem encodeBase64_notMem : ∀ bytes : List UInt8, '\\' ∉ encodeBase64 bytes
  | [] => not_mem_nil
  | [a] => by simp [encodeBase64, (base64Digit_ne _).symm]
  | [a, b] => by simp [encodeBase64, (base64Digit_ne _).symm]
  | a :: b :: c :: bytes => by
    simp [encodeBase64, (base64Digit_ne _).symm, encodeBase64_notMem bytes]

theorem translateBase64_notMem {t : Text} (h : '\\' ∉ t) : '\\' ∉ translateBase64 t := by
  intro hmem
  obtain ⟨c, hc, heq⟩ := mem_filterMap.mp hmem
  split at heq
  · exact absurd heq (by decide)
  · exact absurd heq (by decide)
  · cases heq
  · cases heq
  · cases heq
    exact h hc

theorem authTokenEncode_notMem (bytes : List UInt8) : '\\' ∉ authTokenEncode bytes := by
  unfold authTokenEncode
  rw [mem_append, not_or]
  exact ⟨by decide, translateBase64_notMem (encodeBase64_notMem bytes)⟩

theorem authTokenEncode_ne_nil (bytes : List UInt8) : authTokenEncode bytes ≠ [] := by
  unfold authTokenEncode
  simp

/-! ## Tokens and what was issued -/

def TokenDb.hashes (db : TokenDb) : List (ℕ × List UInt8) :=
  db.tokens.rows.map fun t => (t.tokenId, t.tokenHash)

structure Matched (mac : List UInt8 → List UInt8) (w : World) : Prop where
  tokens : ∀ x ∈ w.db.hashes, ∃ p, (x.1, p) ∈ w.issued ∧ authTokenHash mac p = .ok x.2
  issued : ∀ x ∈ w.issued, '\\' ∉ x.2 ∧ x.2 ≠ [] ∧
    ∃ hash, authTokenHash mac x.2 = .ok hash ∧ (x.1, hash) ∈ w.db.hashes

section

variable {mac : List UInt8 → List UInt8} {db db' : TokenDb}

theorem hashes_updateTokens {p : TokenRow → Bool} {f : TokenRow → TokenRow}
    {hid : ∀ t, (f t).tokenId = t.tokenId} {hhash : ∀ t, (f t).tokenHash = t.tokenHash}
    {haccount : ∀ t, (f t).accountId = t.accountId} :
    (db.updateTokens p f hid hhash haccount).hashes = db.hashes :=
  Serial.map_update hid fun t => by rw [hid, hhash]

theorem hashes_insertToken {accountId : ℕ} {tokenHash : List UInt8} {kind : TokenKind}
    {scopes : List Text} {cidrs : Option (List (Option Inet))} {expiresAt : Option ℕ}
    (h : db.insertToken accountId tokenHash kind scopes cidrs expiresAt = .ok db') :
    db'.hashes = db.hashes ++ [(db.tokens.next, tokenHash)] := by
  unfold TokenDb.insertToken at h
  split at h
  · cases h
  split at h
  · cases h
  split at h
  · cases h
    exact map_append
  · cases h

theorem authTokenCreate_eq_ok {a : CreateArgs} {issued : ℕ × Text}
    (h : authTokenCreate mac db a = .ok (issued, db')) :
    issued = (db.tokens.next, authTokenEncode a.random) ∧ ∃ hash,
      authTokenHash mac (authTokenEncode a.random) = .ok hash ∧
        db'.hashes = db.hashes ++ [(db.tokens.next, hash)] := by
  obtain ⟨_, -, h⟩ := bind_eq_ok.mp h
  obtain ⟨_, -, h⟩ := bind_eq_ok.mp h
  obtain ⟨hash, hhash, h⟩ := bind_eq_ok.mp h
  split at h
  · cases h
  · cases h
  · cases h
  · obtain ⟨db₁, hinsert, h⟩ := bind_eq_ok.mp h
    cases h
    exact ⟨rfl, hash, hhash, hashes_insertToken hinsert⟩

theorem hashes_use (tokenId : ℕ) (sourceIp : Option Inet) (outcome : Outcome) :
    (db.use tokenId sourceIp outcome).hashes = db.hashes := by
  show (db.touch tokenId outcome).hashes = db.hashes
  unfold TokenDb.touch
  split
  · exact hashes_updateTokens
  · rfl

theorem hashes_revoke {caller : Option ℕ} {tokenId : ℕ} {open? : Bool}
    (h : authTokenRevoke db caller tokenId = .ok (open?, db')) : db'.hashes = db.hashes := by
  unfold authTokenRevoke at h
  split at h
  · cases h
  split at h
  · cases h
  · cases h
    exact hashes_updateTokens

theorem hashes_verify {plaintext : Option Text} {sourceIp : Option Inet} {b : Option Binding}
    (h : authTokenVerify mac db plaintext sourceIp = .ok (b, db')) : db'.hashes = db.hashes := by
  unfold authTokenVerify at h
  split at h
  · cases h
    rfl
  · cases h
    rfl
  obtain ⟨hash, -, heq⟩ := map_eq_ok.mp h
  unfold TokenDb.verifyHash at heq
  split at heq
  · cases heq
    rfl
  · cases heq
    exact hashes_use _ _ _

theorem Matched.of_eq {w : World} (h : Matched mac w) (heq : db'.hashes = w.db.hashes) :
    Matched mac { w with db := db' } where
  tokens := heq ▸ h.tokens
  issued x hx := by
    obtain ⟨hslash, hne, hash, hhash, hmem⟩ := h.issued x hx
    exact ⟨hslash, hne, hash, hhash, heq ▸ hmem⟩

theorem matched_create {w : World} (h : Matched mac w) {a : CreateArgs} {issued : ℕ × Text}
    (hcreate : authTokenCreate mac w.db a = .ok (issued, db')) :
    Matched mac ⟨db', w.issued ++ [issued]⟩ := by
  obtain ⟨rfl, hash, hhash, hhashes⟩ := authTokenCreate_eq_ok hcreate
  constructor
  · intro x hx
    rcases mem_append.mp (hhashes ▸ hx) with hold | hnew
    · obtain ⟨p, hp, hx⟩ := h.tokens x hold
      exact ⟨p, mem_append_left _ hp, hx⟩
    · cases mem_singleton.mp hnew
      exact ⟨_, mem_append_right _ (mem_singleton_self _), hhash⟩
  intro x hx
  rcases mem_append.mp hx with hold | hnew
  · obtain ⟨hslash, hne, hash', hhash', hmem⟩ := h.issued x hold
    refine ⟨hslash, hne, hash', hhash', ?_⟩
    rw [hhashes]
    exact mem_append_left _ hmem
  cases mem_singleton.mp hnew
  refine ⟨authTokenEncode_notMem _, authTokenEncode_ne_nil _, hash, hhash, ?_⟩
  rw [hhashes]
  exact mem_append_right _ (mem_singleton_self _)

theorem matched_step {w : World} (op : Op) (h : Matched mac w) : Matched mac (step mac w op) := by
  cases op with
  | create a =>
    rw [step]
    cases hcreate : authTokenCreate mac w.db a with
    | error e => exact h
    | ok result => exact matched_create h hcreate
  | revoke caller tokenId =>
    refine h.of_eq (commitOr_of (P := fun db : TokenDb => db.hashes = w.db.hashes) rfl
      fun db' hdb' => ?_)
    obtain ⟨⟨_, _⟩, hrevoke, rfl⟩ := map_eq_ok.mp hdb'
    exact hashes_revoke hrevoke
  | verify plaintext sourceIp =>
    refine h.of_eq (commitOr_of (P := fun db : TokenDb => db.hashes = w.db.hashes) rfl
      fun db' hdb' => ?_)
    obtain ⟨⟨_, _⟩, hverify, rfl⟩ := map_eq_ok.mp hdb'
    exact hashes_verify hverify
  | addAccount enabled => exact h.of_eq rfl
  | setEnabled accountId enabled => exact h.of_eq rfl
  | wait duration => exact h.of_eq rfl

theorem matched_run (mac : List UInt8 → List UInt8) (ops : List Op) :
    Matched mac (run (step mac) World.empty ops) :=
  run_inv (fun _ op h => matched_step op h) ops
    ⟨forall_mem_nil _, forall_mem_nil _⟩

end

/-! ## Who may -/

def World.IssuedFor (w : World) (plaintext : Option Text) (t : TokenRow) : Prop :=
  ∃ p, plaintext = some p ∧ (t.tokenId, p) ∈ w.issued

structure Entitled (w : World) (plaintext : Option Text) (sourceIp : Option Inet) (t : TokenRow) :
    Prop where
  token : t ∈ w.db.tokens.rows
  issued : w.IssuedFor plaintext t
  unrevoked : t.revokedAt = none
  unexpired : ∀ e ∈ t.expiresAt, w.db.clock < e
  enabled : ∃ a ∈ w.db.accounts.rows, a.accountId = t.accountId ∧ a.enabled = true
  source : ∀ cidrs ∈ t.allowedCidrs, ∃ a ∈ sourceIp, ∃ c, some c ∈ cidrs ∧ a.family = c.family ∧
    a.range ⊆ c.range

def VerifiesExactly (mac : List UInt8 → List UInt8) (w : World) (plaintext : Option Text)
    (sourceIp : Option Inet) : Prop :=
  ∀ b, (authTokenVerify mac w.db plaintext sourceIp).map Prod.fst = .ok (some b) ↔
    ∃ t, Entitled w plaintext sourceIp t ∧ b = t.binding

/-- A token that no check but that of the source rejects. -/
structure Live (db : TokenDb) (t : TokenRow) : Prop where
  unrevoked : t.revokedAt = none
  unexpired : ∀ e ∈ t.expiresAt, db.clock < e
  enabled : ∃ a ∈ db.accounts.rows, a.accountId = t.accountId ∧ a.enabled = true

/-- A source address that is given lies in one of the ranges of a restricted token. -/
def Admits (t : TokenRow) (sourceIp : Option Inet) : Prop :=
  ∀ cidrs ∈ t.allowedCidrs, ∀ a ∈ sourceIp, ∃ c, some c ∈ cidrs ∧ a.family = c.family ∧
    a.range ⊆ c.range

/-- The cast to `bytea` reads the presented text as the bytes of a text that was issued for the
token. -/
def World.ReadAs (w : World) (plaintext : Option Text) (t : TokenRow) : Prop :=
  ∃ p ∈ plaintext, p ≠ [] ∧ ∃ q, (t.tokenId, q) ∈ w.issued ∧ byteaIn p = byteaIn q

section

variable {mac : List UInt8 → List UInt8} {w : World} {db : TokenDb} {t : TokenRow}

theorem mem_hashes (ht : t ∈ db.tokens.rows) : (t.tokenId, t.tokenHash) ∈ db.hashes :=
  mem_map.mpr ⟨t, ht, rfl⟩

theorem authTokenHash_eq_ok {p : Text} {hash : List UInt8} :
    authTokenHash mac p = .ok hash ↔ ∃ bytes, byteaIn p = .ok bytes ∧ mac bytes = hash := by
  unfold authTokenHash
  rw [show (mac <$> (byteaIn p).mapError AuthError.badBytea)
    = ((byteaIn p).mapError AuthError.badBytea).map mac from rfl, map_eq_ok]
  simp only [mapError_eq_ok]

theorem Matched.tokenHash (h : Matched mac w) (ht : t ∈ w.db.tokens.rows) {p : Text}
    (hp : (t.tokenId, p) ∈ w.issued) : authTokenHash mac p = .ok t.tokenHash := by
  obtain ⟨-, -, hash, hhash, hmem⟩ := h.issued _ hp
  obtain ⟨t', ht', heq⟩ := mem_map.mp hmem
  obtain ⟨hid, htoken⟩ := Prod.mk.inj heq
  obtain rfl : t' = t := Serial.eq_of_key ht' ht hid
  rw [hhash, htoken]

theorem enabled_iff (ht : t ∈ db.tokens.rows) :
    (db.accounts.get? t.accountId).map AccountRow.enabled ≠ some false ↔
      ∃ a ∈ db.accounts.rows, a.accountId = t.accountId ∧ a.enabled = true := by
  obtain ⟨a, ha, hid⟩ := mem_map.mp (db.owned t ht)
  rw [Serial.get?_eq_some.mpr ⟨ha, hid⟩]
  constructor
  · intro hne
    exact ⟨a, ha, hid, by simpa using hne⟩
  · rintro ⟨a', ha', hid', henabled⟩
    obtain rfl : a' = a := Serial.eq_of_key ha' ha (hid'.trans hid.symm)
    simp [henabled]

theorem outcome_eq_accepted (ht : t ∈ db.tokens.rows) (sourceIp : Option Inet) :
    db.outcome t sourceIp = .accepted ↔
      (∃ a ∈ db.accounts.rows, a.accountId = t.accountId ∧ a.enabled = true) ∧
      t.revokedAt = none ∧ (∀ e ∈ t.expiresAt, db.clock < e) ∧ Admits t sourceIp := by
  have hexpiry : t.expiresAt.any (· ≤ db.clock) = false ↔ ∀ e ∈ t.expiresAt, db.clock < e := by
    cases t.expiresAt <;> simp
  have hcidrs : ∀ (cidrs : List (Option Inet)) (a : Inet),
      (cidrs.any (·.any a.within)) = true ↔
        ∃ c, some c ∈ cidrs ∧ a.family = c.family ∧ a.range ⊆ c.range := by
    intro cidrs a
    rw [any_eq_true]
    constructor
    · rintro ⟨c, hc, hwithin⟩
      cases c with
      | none => cases hwithin
      | some c => exact ⟨c, hc, (Inet.within_iff a c).mp hwithin⟩
    · rintro ⟨c, hc, hwithin⟩
      exact ⟨some c, hc, (Inet.within_iff a c).mpr hwithin⟩
  rw [← enabled_iff ht, ← hexpiry]
  unfold TokenDb.outcome Admits
  by_cases hdisabled : (db.accounts.get? t.accountId).map AccountRow.enabled = some false
  · simp [hdisabled]
  cases hrevoked : t.revokedAt with
  | some e => simp [hdisabled]
  | none =>
    cases hexpired : t.expiresAt.any (· ≤ db.clock) with
    | true => simp [hdisabled]
    | false =>
      cases hallowed : t.allowedCidrs with
      | none => simp [hdisabled]
      | some cidrs =>
        cases sourceIp with
        | none => simp [hdisabled]
        | some a => simp [hdisabled, ← hcidrs]

end

/-! ## Verification -/

theorem verifyHash_eq_some {db : TokenDb} {sourceIp : Option Inet} {hash : List UInt8}
    {b : Binding} : (db.verifyHash sourceIp hash).1 = some b ↔
      ∃ t ∈ db.tokens.rows, t.tokenHash = hash ∧ db.outcome t sourceIp = .accepted ∧
        b = t.binding := by
  unfold TokenDb.verifyHash
  constructor
  · intro h
    split at h
    · cases h
    rename_i t hfind
    obtain ⟨ht, hhash⟩ := mem_of_find?_key hfind
    simp only [Option.ite_none_right_eq_some] at h
    exact ⟨t, ht, hhash, h.1, (Option.some.inj h.2).symm⟩
  · rintro ⟨t, ht, rfl, houtcome, rfl⟩
    rw [find?_key db.hashOnce ht rfl]
    exact if_pos houtcome

theorem authTokenVerify_eq_ok {mac : List UInt8 → List UInt8} {db : TokenDb} {c : Char} {p : Text}
    {sourceIp : Option Inet} {b : Binding} :
    (authTokenVerify mac db (some (c :: p)) sourceIp).map Prod.fst = .ok (some b) ↔
      ∃ t ∈ db.tokens.rows, authTokenHash mac (c :: p) = .ok t.tokenHash ∧
        db.outcome t sourceIp = .accepted ∧ b = t.binding := by
  rw [authTokenVerify, Lib.map_map, map_eq_ok]
  · constructor
    · rintro ⟨hash, hhash, h⟩
      obtain ⟨t, ht, rfl, hrest⟩ := verifyHash_eq_some.mp h
      exact ⟨t, ht, hhash, hrest⟩
    · rintro ⟨t, ht, hhash, hrest⟩
      exact ⟨t.tokenHash, hhash, verifyHash_eq_some.mpr ⟨t, ht, rfl, hrest⟩⟩
  · nofun

theorem authTokenHash_iff {mac : List UInt8 → List UInt8} (hmac : Function.Injective mac)
    {p q : Text} {hash : List UInt8} (hq : authTokenHash mac q = .ok hash) :
    authTokenHash mac p = .ok hash ↔ byteaIn p = byteaIn q := by
  obtain ⟨bytes, hbytes, rfl⟩ := authTokenHash_eq_ok.mp hq
  rw [authTokenHash_eq_ok, hbytes]
  constructor
  · rintro ⟨bytes', hbytes', heq⟩
    rw [hbytes', hmac heq]
  · exact fun h => ⟨bytes, h, rfl⟩

/-- **What verifies**: a text that is read as one that was issued for a live token which admits the
source. -/
theorem Matched.verify_iff {mac : List UInt8 → List UInt8} (hmac : Function.Injective mac)
    {w : World} (h : Matched mac w) {plaintext : Option Text} {sourceIp : Option Inet}
    {b : Binding} :
    (authTokenVerify mac w.db plaintext sourceIp).map Prod.fst = .ok (some b) ↔
      ∃ t ∈ w.db.tokens.rows, Live w.db t ∧ Admits t sourceIp ∧ w.ReadAs plaintext t ∧
        b = t.binding := by
  have hempty : ∀ t, w.ReadAs plaintext t → plaintext ≠ none ∧ plaintext ≠ some [] := by
    rintro t ⟨p, rfl, hne, -⟩
    exact ⟨nofun, fun heq => hne (Option.some.inj heq)⟩
  match plaintext with
  | none => exact iff_of_false nofun fun ⟨t, _, _, _, hread, _⟩ => (hempty t hread).1 rfl
  | some [] => exact iff_of_false nofun fun ⟨t, _, _, _, hread, _⟩ => (hempty t hread).2 rfl
  | some (c :: p) =>
    rw [authTokenVerify_eq_ok]
    refine exists_congr fun t => and_congr_right fun ht => ?_
    have hread : authTokenHash mac (c :: p) = .ok t.tokenHash ↔ w.ReadAs (some (c :: p)) t := by
      obtain ⟨q, hq, hhash⟩ := h.tokens _ (mem_hashes ht)
      constructor
      · intro hp
        exact ⟨_, rfl, cons_ne_nil c p, q, hq, (authTokenHash_iff hmac hhash).mp hp⟩
      · rintro ⟨p', hp', -, q', hq', hsame⟩
        cases hp'
        exact (authTokenHash_iff hmac (h.tokenHash ht hq')).mpr hsame
    rw [hread, outcome_eq_accepted ht]
    constructor
    · rintro ⟨hread, ⟨henabled, hrevoked, hexpiry, hadmits⟩, rfl⟩
      exact ⟨⟨hrevoked, hexpiry, henabled⟩, hadmits, hread, rfl⟩
    · rintro ⟨hlive, hadmits, hread, rfl⟩
      exact ⟨hread, ⟨hlive.enabled, hlive.unrevoked, hlive.unexpired, hadmits⟩, rfl⟩

theorem Matched.readAs {mac : List UInt8 → List UInt8} {w : World} (h : Matched mac w)
    {plaintext : Option Text} {t : TokenRow} (hissued : w.IssuedFor plaintext t) :
    w.ReadAs plaintext t := by
  obtain ⟨p, hp, hmem⟩ := hissued
  exact ⟨p, hp, (h.issued _ hmem).2.1, p, hmem, rfl⟩

/-- **Exactly the entitled texts verify, in every state that a history reaches, exactly if** of
every live token that admits the source: if the presented text is read as one issued for it, it is
that text, and if the token is restricted, a source address is given. -/
theorem verifiesExactly_iff (mac : List UInt8 → List UInt8) (hmac : Function.Injective mac)
    (ops : List Op) (plaintext : Option Text) (sourceIp : Option Inet) :
    VerifiesExactly mac (run (step mac) World.empty ops) plaintext sourceIp ↔
      ∀ t ∈ (run (step mac) World.empty ops).db.tokens.rows,
        Live (run (step mac) World.empty ops).db t → Admits t sourceIp →
        (run (step mac) World.empty ops).ReadAs plaintext t →
          (run (step mac) World.empty ops).IssuedFor plaintext t ∧
            (t.allowedCidrs ≠ none → sourceIp ≠ none) := by
  have hmatched := matched_run mac ops
  generalize run (step mac) World.empty ops = w at *
  unfold VerifiesExactly
  simp only [hmatched.verify_iff hmac]
  constructor
  · intro h t ht hlive hadmits hread
    obtain ⟨t', hentitled, hbinding⟩ := (h t.binding).mp ⟨t, ht, hlive, hadmits, hread, rfl⟩
    obtain rfl : t = t' := Serial.eq_of_key ht hentitled.token (congrArg Binding.tokenId hbinding)
    refine ⟨hentitled.issued, fun hrestricted => ?_⟩
    obtain ⟨cidrs, hcidrs⟩ := Option.ne_none_iff_exists'.mp hrestricted
    obtain ⟨a, ha, -⟩ := hentitled.source cidrs hcidrs
    exact Option.ne_none_iff_exists'.mpr ⟨a, ha⟩
  · intro h b
    constructor
    · rintro ⟨t, ht, hlive, hadmits, hread, rfl⟩
      obtain ⟨hissued, hgiven⟩ := h t ht hlive hadmits hread
      refine ⟨t, ⟨ht, hissued, hlive.unrevoked, hlive.unexpired, hlive.enabled,
        fun cidrs hallowed => ?_⟩, rfl⟩
      obtain ⟨a, ha⟩ := Option.ne_none_iff_exists'.mp (hgiven (by rw [hallowed]; nofun))
      exact ⟨a, ha, hadmits cidrs hallowed a ha⟩
    · rintro ⟨t, ht, rfl⟩
      refine ⟨t, ht.token, ⟨ht.unrevoked, ht.unexpired, ht.enabled⟩, fun cidrs hallowed a ha => ?_,
        hmatched.readAs ht.issued, rfl⟩
      obtain ⟨a', ha', hwithin⟩ := ht.source cidrs hallowed
      cases ha.symm.trans ha'
      exact hwithin

section

def issueToken (allowedCidrs : Option (List (Option Inet))) : Op :=
  .create ⟨none, some 1, some "personal", some [], allowedCidrs, none, List.replicate 32 0,
    length_replicate⟩

def oneToken (allowedCidrs : Option (List (Option Inet))) : World :=
  run (step id) World.empty [.addAccount true, issueToken allowedCidrs]

/-- The text of the token. -/
def zeroToken : Text := "mldbat_AAAAAAAAAAAAAAAAAAAAAAAAAAAAAAAAAAAAAAAAAAA".toList

theorem issued_oneToken : (oneToken none).issued = [(1, zeroToken)] := by decide +kernel

/-- The network 10.0.0.0/8. -/
def privateNetwork : Inet := ⟨.v4, 10 * 256 ^ 3, 8, by decide⟩

/-- The address 10.0.0.7. -/
def privateHost : Inet := ⟨.v4, 10 * 256 ^ 3 + 7, 32, by decide⟩

/-- A restricted token, presented from an address in its range. -/
theorem verifiesExactly_iff_restricted :
    VerifiesExactly id (oneToken (some [some privateNetwork])) (some zeroToken)
        (some privateHost) ∧
      (authTokenVerify id (oneToken (some [some privateNetwork])).db (some zeroToken)
        (some privateHost)).map Prod.fst = .ok (some ⟨1, 1, .personal, []⟩) := by
  have hissued : (oneToken (some [some privateNetwork])).issued = [(1, zeroToken)] := by
    decide +kernel
  have hid : ∀ t ∈ (oneToken (some [some privateNetwork])).db.tokens.rows, t.tokenId = 1 := by
    decide +kernel
  refine ⟨(verifiesExactly_iff id Function.injective_id [.addAccount true,
    issueToken (some [some privateNetwork])] (some zeroToken) (some privateHost)).mpr ?_, rfl⟩
  intro t ht _ _ _
  refine ⟨⟨zeroToken, rfl, ?_⟩, fun _ => nofun⟩
  rw [hid t ht]
  exact hissued ▸ mem_singleton_self _

def escapedToken : Text := "\\155".toList ++ zeroToken.tail

/-- **A restricted token verifies without a source address, and a text that was never issued
verifies if it is read as the bytes of one that was.** -/
theorem verify_accepts_more :
    ¬ VerifiesExactly id (oneToken (some [some privateNetwork])) (some zeroToken) none ∧
      ¬ VerifiesExactly id (oneToken none) (some escapedToken) none := by
  constructor
  · intro h
    have hrestricted : ∀ t ∈ (oneToken (some [some privateNetwork])).db.tokens.rows,
        t.allowedCidrs.isSome = true := by decide +kernel
    obtain ⟨t, ht, -⟩ := (h ⟨1, 1, .personal, []⟩).mp rfl
    obtain ⟨cidrs, hcidrs⟩ := Option.isSome_iff_exists.mp (hrestricted t ht.token)
    obtain ⟨a, ha, -⟩ := ht.source cidrs hcidrs
    cases ha
  · intro h
    obtain ⟨t, ht, -⟩ := (h ⟨1, 1, .personal, []⟩).mp rfl
    obtain ⟨p, hp, hissued⟩ := ht.issued
    rw [issued_oneToken] at hissued
    obtain ⟨-, rfl⟩ := Prod.mk.inj (mem_singleton.mp hissued)
    exact absurd (Option.some.inj hp) (by decide)

end

end MaluDb.Auth
