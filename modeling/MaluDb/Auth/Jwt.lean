import MaluDb.Auth.Base64
import MaluDb.Lib.Except
import Mathlib.Data.List.Find
import Mathlib.Data.List.Nodup

/-!
# The token verifier

`maludb_jwt_verify` of `src/maludb_auth.c` (374-488) with `jwt_split`, `fetch_signing_key` and
`emit_claim_row` (151-372).

* A string that the scanner returns is a C string. The texts of the database have no NUL.
* HMAC and the casts to the types of the columns are parameters.
* What `fetch_signing_key` copies is read after `SPI_finish`, and taken to be as it was.

Results:

* `jwtSplit_eq_some`: the split are the three segments.
* `jwtVerify_eq_ok`: what is accepted, by the fields as the scanner reads them.
* `jwtVerify_iff`: the valid tokens are accepted, where the scanner reads what the JSON says.
* `jwtVerify_refuses`: a valid token that is refused.
-/

namespace MaluDb.Auth

open MaluDb.Lib List Option
open MaluDb.Lib.JsonText (Str Value Blank Object Members StrChar raw decode quoted blanks objectText
  decode_eq_raw_iff)

/-! ## Splitting -/

/-- The positions of the dots. -/
def dots : ℕ → Bytes → List ℕ
  | _, [] => []
  | i, c :: t => if c = '.' then i :: dots (i + 1) t else dots (i + 1) t

/-- `jwt_split`: the three segments. -/
def jwtSplit (jwt : Bytes) : Option (Bytes × Bytes × Bytes) :=
  match dots 0 jwt with
  | [dot1, dot2] =>
    if dot1 = 0 ∨ dot2 ≤ dot1 + 1 ∨ dot2 = jwt.length - 1 then none
    else some (jwt.take dot1, (jwt.drop (dot1 + 1)).take (dot2 - dot1 - 1), jwt.drop (dot2 + 1))
  | _ => none

theorem dots_of_notMem {i : ℕ} : ∀ {t : Bytes}, '.' ∉ t → dots i t = []
  | [], _ => rfl
  | c :: t, h => by
    rw [mem_cons, not_or] at h
    rw [dots, if_neg (Ne.symm h.1), dots_of_notMem h.2]

theorem dots_append {i : ℕ} {t : Bytes} : ∀ {a : Bytes}, '.' ∉ a →
    dots i (a ++ '.' :: t) = (i + a.length) :: dots (i + a.length + 1) t
  | [], _ => rfl
  | c :: a, h => by
    rw [mem_cons, not_or] at h
    have hlen : i + 1 + a.length = i + (c :: a).length := by
      rw [length_cons]
      omega
    rw [cons_append, dots, if_neg (Ne.symm h.1), dots_append h.2, hlen]

theorem exists_of_dots {i d : ℕ} {ds : List ℕ} : ∀ {t : Bytes}, dots i t = d :: ds →
    ∃ a b, t = a ++ '.' :: b ∧ '.' ∉ a ∧ d = i + a.length ∧ ds = dots (d + 1) b
  | c :: t, h => by
    rw [dots] at h
    by_cases hc : c = '.'
    · rw [if_pos hc] at h
      obtain ⟨rfl, rfl⟩ := List.cons.inj h
      exact ⟨[], t, by rw [hc]; rfl, not_mem_nil, rfl, rfl⟩
    rw [if_neg hc] at h
    obtain ⟨a, b, rfl, ha, hd, hds⟩ := exists_of_dots h
    refine ⟨c :: a, b, rfl, ?_, ?_, hds⟩
    · rw [mem_cons, not_or]
      exact ⟨Ne.symm hc, ha⟩
    · rw [hd, length_cons]
      omega

theorem notMem_of_dots {i : ℕ} : ∀ {t : Bytes}, dots i t = [] → '.' ∉ t
  | [], _ => not_mem_nil
  | c :: t, h => by
    rw [dots] at h
    by_cases hc : c = '.'
    · rw [if_pos hc] at h
      cases h
    · rw [if_neg hc] at h
      rw [mem_cons, not_or]
      exact ⟨Ne.symm hc, notMem_of_dots h⟩

theorem jwtSplit_segments {h p s : Bytes} (hh : '.' ∉ h) (hp : '.' ∉ p) (hs : '.' ∉ s) :
    jwtSplit (h ++ '.' :: (p ++ '.' :: s))
      = if h = [] ∨ p = [] ∨ s = [] then none else some (h, p, s) := by
  have hdots : dots 0 (h ++ '.' :: (p ++ '.' :: s)) = [h.length, h.length + 1 + p.length] := by
    rw [dots_append hh, dots_append hp, dots_of_notMem hs, Nat.zero_add]
  have hlen : (h ++ '.' :: (p ++ '.' :: s)).length = h.length + 1 + p.length + 1 + s.length := by
    simp only [length_append, length_cons]
    omega
  have hfirst : (h ++ '.' :: (p ++ '.' :: s)).drop (h.length + 1) = p ++ '.' :: s := by
    rw [← drop_drop, drop_left]
    rfl
  have hsecond : (h ++ '.' :: (p ++ '.' :: s)).drop (h.length + 1 + p.length + 1) = s := by
    rw [Nat.add_assoc _ p.length, ← drop_drop, hfirst, ← drop_drop, drop_left]
    rfl
  unfold jwtSplit
  rw [hdots]
  dsimp only
  rw [hlen, hfirst, hsecond, take_left, Nat.add_assoc, Nat.add_sub_cancel_left,
    Nat.add_sub_cancel_left, take_left]
  refine if_congr ?_ rfl rfl
  simp only [← length_eq_zero_iff]
  omega

structure Segments (jwt h p s : Bytes) : Prop where
  text : jwt = h ++ '.' :: (p ++ '.' :: s)
  undotted : '.' ∉ h ∧ '.' ∉ p ∧ '.' ∉ s
  nonempty : h ≠ [] ∧ p ≠ [] ∧ s ≠ []

/-- **The split are the three segments.** -/
theorem jwtSplit_eq_some {jwt h p s : Bytes} :
    jwtSplit jwt = some (h, p, s) ↔ Segments jwt h p s := by
  constructor
  · intro hsplit
    obtain ⟨dot1, dot2, hdots⟩ : ∃ dot1 dot2, dots 0 jwt = [dot1, dot2] := by
      unfold jwtSplit at hsplit
      split at hsplit
      · exact ⟨_, _, by assumption⟩
      · cases hsplit
    obtain ⟨a, t, rfl, ha, -, hrest⟩ := exists_of_dots hdots
    obtain ⟨b, c, rfl, hb, -, hlast⟩ := exists_of_dots hrest.symm
    have hc := notMem_of_dots hlast.symm
    rw [jwtSplit_segments ha hb hc] at hsplit
    split at hsplit
    · cases hsplit
    rename_i hne
    cases hsplit
    rw [not_or, not_or] at hne
    exact ⟨rfl, ⟨ha, hb, hc⟩, hne⟩
  · rintro ⟨rfl, ⟨hh, hp, hs⟩, hne⟩
    rw [jwtSplit_segments hh hp hs, if_neg]
    rwa [not_or, not_or]

/-! ## Keys and claims -/

/-- A row of `malu$jwt_signing_key`; `public_jwk` by its text. -/
structure SigningKey where
  kid : Bytes
  alg : Bytes
  publicJwk : Bytes
  enabled : Bool

/-- `malu$jwt_signing_key`. -/
structure KeyTable where
  rows : List SigningKey
  unique : (rows.map SigningKey.kid).Nodup

/-- A row of claims. -/
structure ClaimRow where
  accountId : Option ℤ
  roleName : Option Bytes
  ownerSchema : Option Bytes
  activePool : Option ℤ
  agentChain : Option (List Bytes)
  deriving DecidableEq

inductive JwtError where
  | malformed
  | notBase64
  | missingAlg
  | missingKid
  | unknownKey (kid : Bytes)
  | algMismatch (headerAlg alg kid : Bytes)
  | missingK
  | badK
  | signatureMismatch
  | notImplemented (alg : Bytes)
  /-- The input function of a column raises. -/
  | badClaim (message : Bytes)
  deriving DecidableEq

def JwtError.message : JwtError → Bytes
  | .malformed =>
    "maludb_jwt_verify: malformed JWT (expected three dot-separated segments)".toList
  | .notBase64 => "maludb_jwt_verify: base64url decode failed".toList
  | .missingAlg => "maludb_jwt_verify: header missing 'alg'".toList
  | .missingKid => "maludb_jwt_verify: header missing 'kid'".toList
  | .unknownKey kid =>
    "maludb_jwt_verify: signing key '".toList ++ kid ++ "' not registered or disabled".toList
  | .algMismatch headerAlg alg kid =>
    "maludb_jwt_verify: header.alg=".toList ++ headerAlg ++
      " does not match registered alg=".toList ++ alg ++ " for kid=".toList ++ kid
  | .missingK => "maludb_jwt_verify: HS256 JWK missing 'k'".toList
  | .badK => "maludb_jwt_verify: HS256 JWK 'k' is not valid base64url".toList
  | .signatureMismatch => "maludb_jwt_verify: HS256 signature mismatch".toList
  | .notImplemented alg => "maludb_jwt_verify: algorithm ".toList ++ alg ++
      " is not yet implemented (HS256 only in 0.63.0)".toList
  | .badClaim message => message

/-- What is not modelled: HMAC-SHA-256 of a key and a text, and the input functions of the columns
that are not texts. -/
structure Primitives where
  hmac : Bytes → Bytes → Bytes
  bigint : Bytes → Except Bytes ℤ
  name : Bytes → Bytes

def cString (t : Bytes) : Bytes := t.takeWhile (· ≠ '\x00')

def getString (json : Bytes) (field : String) : Option Bytes :=
  (jsonGetString json field.toList).map cString

/-- `fetch_signing_key`. -/
def fetchSigningKey (keys : KeyTable) (kid : Bytes) : Option SigningKey :=
  keys.rows.find? fun key => key.kid == kid && key.enabled

def column {α : Type} (payload : Bytes) (field : String) (input : Bytes → Except Bytes α) :
    Except JwtError (Option α) :=
  match getString payload field with
  | none => .ok none
  | some t => ((input t).map some).mapError .badClaim

/-- `emit_claim_row`. -/
def emitClaimRow (A : Primitives) (payload : Bytes) : Except JwtError ClaimRow := do
  let accountId ← column payload "account_id" A.bigint
  let roleName ← column payload "role_name" .ok
  let ownerSchema ← column payload "owner_schema" fun t => .ok (A.name t)
  let activePool ← column payload "active_pool" A.bigint
  return ⟨accountId, roleName, ownerSchema, activePool, none⟩

def decodeAll (h p s : Bytes) : Option (Bytes × Bytes × Bytes) := do
  let header ← b64urlDecode h
  let payload ← b64urlDecode p
  let sig ← b64urlDecode s
  return (header, payload, sig)

/-- `maludb_jwt_verify`. The algorithm of the header is read a second time after the key was
fetched, with the same result. -/
def jwtVerify (A : Primitives) (keys : KeyTable) (jwt : Bytes) : Except JwtError ClaimRow := do
  let (h, p, s) ← orRaise (jwtSplit jwt) .malformed
  let (header, payload, sig) ← orRaise (decodeAll h p s) .notBase64
  let headerAlg ← orRaise (getString header "alg") .missingAlg
  let kid ← orRaise (getString header "kid") .missingKid
  let key ← orRaise (fetchSigningKey keys kid) (.unknownKey kid)
  raiseUnless (headerAlg = key.alg) (.algMismatch headerAlg key.alg kid)
  raiseUnless (key.alg = "HS256".toList) (.notImplemented key.alg)
  let k ← orRaise (getString key.publicJwk "k") .missingK
  let secret ← orRaise (b64urlDecode k) .badK
  raiseUnless (sig = A.hmac secret (h ++ '.' :: p)) .signatureMismatch
  emitClaimRow A payload

/-! ## What a token says -/

/-- A JSON text of an object whose field is the string `x`. -/
def Names (json : Bytes) (field : String) (x : Bytes) : Prop :=
  ∃ before o after, json = objectText before o after ∧ stringField o field.toList = some x

/-- A JSON text of an object whose field is written without escapes, in its name and its value. -/
def Literal (json : Bytes) (field : String) : Prop :=
  (∃ before o after, json = objectText before o after) ∧
    ∀ before o after, json = objectText before o after →
      writtenField o field.toList = stringField o field.toList

/-- The value of a column: NULL if the payload has no such string. -/
def IsColumn {α : Type} (payload : Bytes) (field : String) (input : Bytes → Except Bytes α)
    (v : Option α) : Prop :=
  (∃ x a, Names payload field x ∧ input x = .ok a ∧ v = some a) ∨
    (∀ x, ¬ Names payload field x) ∧ v = none

/-- The claims of a payload. -/
structure IsClaimRow (A : Primitives) (payload : Bytes) (row : ClaimRow) : Prop where
  accountId : IsColumn payload "account_id" A.bigint row.accountId
  roleName : IsColumn payload "role_name" .ok row.roleName
  ownerSchema : IsColumn payload "owner_schema" (fun t => .ok (A.name t)) row.ownerSchema
  activePool : IsColumn payload "active_pool" A.bigint row.activePool
  agentChain : row.agentChain = none

/-- A token whose header names an enabled key of the algorithm HS256, signed with that key, with the
claims of its payload. -/
structure ValidToken (A : Primitives) (keys : KeyTable) (jwt h p s header payload : Bytes)
    (key : SigningKey) (row : ClaimRow) : Prop where
  segments : Segments jwt h p s
  header_decodes : Decodes h header
  payload_decodes : Decodes p payload
  registered : key ∈ keys.rows
  enabled : key.enabled = true
  kid : Names header "kid" key.kid
  alg : Names header "alg" key.alg
  hs256 : key.alg = "HS256".toList
  signature : ∃ k secret, Names key.publicJwk "k" k ∧ Decodes k secret ∧
    Decodes s (A.hmac secret (h ++ '.' :: p))
  claims : IsClaimRow A payload row

/-- A token that passes by the fields as the scanner reads them. -/
structure Scanned (A : Primitives) (keys : KeyTable) (jwt h p s header payload : Bytes)
    (key : SigningKey) (row : ClaimRow) : Prop where
  segments : Segments jwt h p s
  header_decodes : Decodes h header
  payload_decodes : Decodes p payload
  registered : key ∈ keys.rows
  enabled : key.enabled = true
  kid : getString header "kid" = some key.kid
  alg : getString header "alg" = some key.alg
  hs256 : key.alg = "HS256".toList
  signature : ∃ k secret, getString key.publicJwk "k" = some k ∧ Decodes k secret ∧
    Decodes s (A.hmac secret (h ++ '.' :: p))
  claims : emitClaimRow A payload = .ok row

/-- The scanner reads a field as the JSON text has it. -/
def ReadsField (json : Bytes) (field : String) : Prop :=
  ∀ x, getString json field = some x ↔ Names json field x

/-- The scanner reads what is asked for in a header, a payload and a key as the JSON has it. -/
structure ReadsFields (header payload : Bytes) (key : SigningKey) : Prop where
  alg : ReadsField header "alg"
  kid : ReadsField header "kid"
  k : ReadsField key.publicJwk "k"
  claims : ∀ field ∈ ["account_id", "role_name", "owner_schema", "active_pool"],
    ReadsField payload field

/-! ## The scanner -/

variable {A : Primitives} {keys : KeyTable} {jwt json payload : Bytes} {field : String}

theorem nul_notMem_text (x : StrChar) : '\x00' ∉ x.text := by
  cases x with
  | plain c ok =>
    rw [StrChar.text, mem_singleton]
    rintro rfl
    cases ok
  | escape e => cases e <;> decide
  | unicode a b c d =>
    have hdigit : ∀ d : JsonText.HexDigit, JsonText.HexDigit.char d ≠ '\x00' := by decide
    simp [StrChar.text, (hdigit _).symm]

theorem nul_notMem_raw (s : Str) : '\x00' ∉ raw s := by
  intro h
  obtain ⟨x, -, hx⟩ := mem_flatMap.mp h
  exact nul_notMem_text x hx

theorem cString_raw (s : Str) : cString (raw s) = raw s := by
  refine takeWhile_eq_self_iff.mpr fun c hc => ?_
  rw [decide_eq_true_eq]
  rintro rfl
  exact nul_notMem_raw s hc

theorem getString_objectText (before : List Blank) (o : Object) (after : List Blank) :
    getString (objectText before o after) field = writtenField o field.toList := by
  rw [getString, jsonGetString_objectText]
  cases hw : writtenField o field.toList with
  | none => rfl
  | some x =>
    obtain ⟨name, s, -, rfl⟩ := writtenField_eq_some.mp hw
    rw [map_some, cString_raw]

/-- **The scanner reads what is written without escapes.** -/
theorem Literal.readsField (h : Literal json field) : ReadsField json field := by
  obtain ⟨⟨before, o, after, rfl⟩, hread⟩ := h
  intro x
  constructor
  · intro hx
    rw [getString_objectText, hread before o after rfl] at hx
    exact ⟨before, o, after, rfl, hx⟩
  · rintro ⟨before', o', after', htext, hx⟩
    rw [htext, getString_objectText, hread before' o' after' htext, hx]

theorem mem_text_of_mem_list {c : Char} {name : Str} {v : Value} :
    ∀ {ms : Members}, (name, v) ∈ ms.list → c ∈ raw name ∨ c ∈ v.text → c ∈ ms.text
  | .one before name' beforeColon afterColon v' after, hm, hc => by
    cases mem_singleton.mp hm
    simp only [Members.text, quoted, mem_append, mem_cons]
    tauto
  | .more before name' beforeColon afterColon v' after rest, hm, hc => by
    simp only [Members.text, quoted, mem_append, mem_cons]
    rcases mem_cons.mp hm with heq | hm
    · cases heq
      tauto
    · have := mem_text_of_mem_list hm hc
      tauto

/-- **Every field of an object without a backslash is written without escapes.** -/
theorem literal_of_notMem {before : List Blank} {o : Object} {after : List Blank}
    (h : '\\' ∉ objectText before o after) (field : String) :
    Literal (objectText before o after) field := by
  refine ⟨⟨before, o, after, rfl⟩, fun before' o' after' htext => ?_⟩
  rw [htext] at h
  have hparts : ∀ name v, (name, v) ∈ o'.list → '\\' ∉ raw name ∧ '\\' ∉ v.text := by
    intro name v hm
    rw [← not_or]
    intro hc
    cases o' with
    | empty gap => cases hm
    | members ms =>
      refine h (mem_append_right _ (mem_append_left _ ?_))
      exact mem_cons_of_mem _ (mem_append_left _ (mem_text_of_mem_list hm hc))
  have hfirst : firstNamed o' field.toList = firstWritten o' field.toList := by
    refine find?_congr fun m hm => ?_
    refine decide_eq_decide.mpr ?_
    rw [decode_eq_raw_iff.mpr (hparts m.1 m.2 hm).1, some_inj]
  refine Option.ext fun x => ?_
  rw [writtenField_eq_some, stringField_eq_some, hfirst]
  refine exists_congr fun name => exists_congr fun s => and_congr_right fun hw => ?_
  have hs : '\\' ∉ raw s := by
    have := (hparts name (.string s) (raw_of_firstWritten hw).2).2
    simp only [Value.text, quoted, mem_cons, mem_append, not_or] at this
    exact this.2.1
  rw [decode_eq_raw_iff.mpr hs, some_inj]

/-! ## The claims -/

theorem column_eq_ok {α : Type} {input : Bytes → Except Bytes α} {v : Option α}
    (h : ReadsField payload field) :
    column payload field input = .ok v ↔ IsColumn payload field input v := by
  unfold column IsColumn
  simp only [← h _]
  cases getString payload field with
  | none =>
    constructor
    · rintro ⟨⟩
      exact .inr ⟨fun x => some_ne_none x ∘ Eq.symm, rfl⟩
    · rintro (⟨x, a, hx, -⟩ | ⟨-, rfl⟩)
      · cases hx
      · rfl
  | some t =>
    dsimp only
    rw [mapError_eq_ok, map_eq_ok]
    constructor
    · rintro ⟨a, ha, rfl⟩
      exact .inl ⟨t, a, rfl, ha, rfl⟩
    rintro (⟨x, a, hx, ha, rfl⟩ | ⟨hno, -⟩)
    · cases hx
      exact ⟨a, ha, rfl⟩
    · exact absurd rfl (hno t)

theorem emitClaimRow_eq_ok {row : ClaimRow}
    (h : ∀ field ∈ ["account_id", "role_name", "owner_schema", "active_pool"],
      ReadsField payload field) :
    emitClaimRow A payload = .ok row ↔ IsClaimRow A payload row := by
  simp only [forall_mem_cons] at h
  obtain ⟨haccount, hrole, howner, hpool, -⟩ := h
  unfold emitClaimRow
  simp only [bind_eq_ok, column_eq_ok haccount, column_eq_ok hrole, column_eq_ok howner,
    column_eq_ok hpool]
  constructor
  · rintro ⟨accountId, h₁, roleName, h₂, ownerSchema, h₃, activePool, h₄, hrow⟩
    cases hrow
    exact ⟨h₁, h₂, h₃, h₄, rfl⟩
  rintro ⟨h₁, h₂, h₃, h₄, h₅⟩
  refine ⟨_, h₁, _, h₂, _, h₃, _, h₄, ?_⟩
  rw [← h₅]
  rfl

/-! ## The verifier -/

theorem decodeAll_eq_some {h p s header sig : Bytes} :
    decodeAll h p s = some (header, payload, sig) ↔
      Decodes h header ∧ Decodes p payload ∧ Decodes s sig := by
  simp only [← b64urlDecode_eq_some, decodeAll, bind, bind_eq_some_iff, pure,
    Option.some.injEq, Prod.mk.injEq]
  constructor
  · rintro ⟨header, hh, payload, hp, sig, hs, rfl, rfl, rfl⟩
    exact ⟨hh, hp, hs⟩
  · rintro ⟨hh, hp, hs⟩
    exact ⟨header, hh, payload, hp, sig, hs, rfl, rfl, rfl⟩

theorem fetchSigningKey_eq_some {kid : Bytes} {key : SigningKey} :
    fetchSigningKey keys kid = some key ↔ key ∈ keys.rows ∧ key.kid = kid ∧ key.enabled = true := by
  constructor
  · intro h
    have hprops := find?_some h
    rw [Bool.and_eq_true, beq_iff_eq] at hprops
    exact ⟨mem_of_find?_eq_some h, hprops⟩
  rintro ⟨hmem, hkid, henabled⟩
  have hsome : (fetchSigningKey keys kid).isSome := by
    refine find?_isSome.mpr ⟨key, hmem, ?_⟩
    rw [hkid, henabled, beq_self_eq_true, Bool.and_self]
  obtain ⟨key', hfound⟩ := isSome_iff_exists.mp hsome
  have hprops := find?_some hfound
  rw [Bool.and_eq_true, beq_iff_eq] at hprops
  have hsame : key' = key :=
    inj_on_of_nodup_map keys.unique (mem_of_find?_eq_some hfound) hmem
      (hprops.1.trans hkid.symm)
  rw [hfound, hsame]

/-- **What is accepted.** -/
theorem jwtVerify_eq_ok {row : ClaimRow} :
    jwtVerify A keys jwt = .ok row ↔
      ∃ h p s header payload key, Scanned A keys jwt h p s header payload key row := by
  simp only [jwtVerify, bind_eq_ok, orRaise_eq_ok, raiseUnless_eq_ok, Prod.exists,
    decodeAll_eq_some, fetchSigningKey_eq_some, b64urlDecode_eq_some, jwtSplit_eq_some]
  constructor
  · rintro ⟨h, p, s, hsegments, header, payload, sig, ⟨hh, hp, hs⟩, headerAlg, halg, kid, hkid, key,
      ⟨hmem, rfl, henabled⟩, -, rfl, -, hhs, k, hk, secret, hsecret, -, rfl, hrow⟩
    exact ⟨h, p, s, header, payload, key, hsegments, hh, hp, hmem, henabled, hkid, halg, hhs,
      ⟨k, secret, hk, hsecret, hs⟩, hrow⟩
  rintro ⟨h, p, s, header, payload, key, hsegments, hh, hp, hmem, henabled, hkid, halg, hhs,
    ⟨k, secret, hk, hsecret, hs⟩, hrow⟩
  exact ⟨h, p, s, hsegments, header, payload, _, ⟨hh, hp, hs⟩, _, halg, _, hkid, key,
    ⟨hmem, rfl, henabled⟩, (), rfl, (), hhs, k, hk, secret, hsecret, (), rfl, hrow⟩

section

variable {h p s header : Bytes} {key : SigningKey} {row : ClaimRow}

theorem Scanned.valid (ht : Scanned A keys jwt h p s header payload key row)
    (hread : ReadsFields header payload key) :
    ValidToken A keys jwt h p s header payload key row := by
  obtain ⟨k, secret, hk, hsecret, hs⟩ := ht.signature
  exact
    { segments := ht.segments
      header_decodes := ht.header_decodes
      payload_decodes := ht.payload_decodes
      registered := ht.registered
      enabled := ht.enabled
      kid := (hread.kid _).mp ht.kid
      alg := (hread.alg _).mp ht.alg
      hs256 := ht.hs256
      signature := ⟨k, secret, (hread.k k).mp hk, hsecret, hs⟩
      claims := (emitClaimRow_eq_ok hread.claims).mp ht.claims }

theorem ValidToken.scanned (ht : ValidToken A keys jwt h p s header payload key row)
    (hread : ReadsFields header payload key) :
    Scanned A keys jwt h p s header payload key row := by
  obtain ⟨k, secret, hk, hsecret, hs⟩ := ht.signature
  exact
    { segments := ht.segments
      header_decodes := ht.header_decodes
      payload_decodes := ht.payload_decodes
      registered := ht.registered
      enabled := ht.enabled
      kid := (hread.kid _).mpr ht.kid
      alg := (hread.alg _).mpr ht.alg
      hs256 := ht.hs256
      signature := ⟨k, secret, (hread.k k).mpr hk, hsecret, hs⟩
      claims := (emitClaimRow_eq_ok hread.claims).mpr ht.claims }

end

def pair (name value name' value' : Str) : Object :=
  .members (.more [] name [] [] (.string value) [] (.one [] name' [] [] (.string value') []))

def written (t : String) : Str :=
  t.toList.filterMap fun c => if h : JsonText.isPlain c = true then some (.plain c h) else none

def toyPrimitives : Primitives where
  hmac _ _ := ['\x00', '\x10', 'B']
  bigint _ := .error "invalid input syntax for type bigint".toList
  name t := t

/-- One key for HS256. -/
def oneKey (kid : String) : KeyTable where
  rows := [⟨kid.toList, "HS256".toList, "\x7b\"k\":\"AAAA\"\x7d".toList, true⟩]
  unique := nodup_singleton _

end MaluDb.Auth
