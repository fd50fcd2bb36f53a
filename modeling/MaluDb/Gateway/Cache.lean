import MaluDb.Gateway.Links
import MaluDb.Lib.Fields

/-!
# The response cache

`_compute_cache_key`, `_lookup_cache` and `_apply_cache_hit`.

* The fields of a key have no bar in them, so without collisions of SHA-256 they can be told from it
  (`computeCacheKey_inj`).
* The parameters are the text of a `jsonb`, on which the cast to `bytea` is injective. On prompts it
  is not: `A` and `\101` have one hash.
-/

namespace MaluDb.Gateway

open MaluDb.Lib List Prompt
open MaluDb.Prompt (Text Server Engine Variables BadBytea byteaIn JsonEscapes utf8 utf8_injective
  byteaIn_of_notMem byteaIn_inj_of_json)

/-! ## Keys -/

structure Collisionless (S : Server) : Prop where
  injective : Function.Injective S.sha256
  digits : ∀ bytes, ∀ c ∈ S.sha256 bytes, c ∈ "0123456789abcdef".toList

/-- A text that can be a field of a key, and is read as it stands. -/
def Plain (t : Text) : Prop := '|' ∉ t ∧ '\\' ∉ t

section

variable {S : Server}

theorem plain_toString (n : ℕ) : Plain (toString n).toList :=
  ⟨fun h => absurd (isDigit_of_mem_toString h) (by decide),
    fun h => absurd (isDigit_of_mem_toString h) (by decide)⟩

theorem Collisionless.plain (hS : Collisionless S) (bytes : List UInt8) :
    Plain (S.sha256 bytes) :=
  ⟨fun h => absurd (hS.digits bytes _ h) (by decide),
    fun h => absurd (hS.digits bytes _ h) (by decide)⟩

/-- The field of the account. -/
def accountField (account : Option ℕ) : Text :=
  (account.map fun id => (toString id).toList).getD "anon".toList

theorem plain_accountField (account : Option ℕ) : Plain (accountField account) := by
  cases account with
  | none => exact ⟨by decide, by decide⟩
  | some id => exact plain_toString id

theorem toString_ne_anon (n : ℕ) : (toString n).toList ≠ "anon".toList := by
  intro h
  have ha : 'a' ∈ (toString n).toList := by
    rw [h]
    decide
  exact absurd (isDigit_of_mem_toString ha) (by decide)

theorem accountField_injective : Function.Injective accountField := by
  intro a b h
  cases a with
  | none =>
    cases b with
    | none => rfl
    | some n => exact absurd h.symm (toString_ne_anon n)
  | some m =>
    cases b with
    | none => exact absurd h (toString_ne_anon m)
    | some n => rw [toString_toList_injective h]

/-- The parameters of a call. -/
def Resolved.params (r : Resolved) : Text := r.invocation.generationParams.getD "\x7b\x7d".toList

/-- The fields of a key. -/
def keyFields (r : Resolved) (paramsHash : Text) : List Text :=
  [accountField r.account, (toString r.prompt.templateId).toList, (toString r.aliasId).toList,
    r.prompt.promptHash, paramsHash]

theorem hashOf_eq_ok {t hash : Text} :
    hashOf S t = .ok hash ↔ ∃ bytes, byteaIn t = .ok bytes ∧ S.sha256 bytes = hash :=
  map_eq_ok

theorem computeCacheKey_eq_ok {r : Resolved} {key : Text} :
    computeCacheKey S r = .ok key ↔ ∃ paramsHash, hashOf S r.params = .ok paramsHash ∧
      hashOf S (['|'].intercalate (keyFields r paramsHash)) = .ok key :=
  bind_eq_ok

theorem plain_of_hashOf (hS : Collisionless S) {t hash : Text} (h : hashOf S t = .ok hash) :
    Plain hash := by
  obtain ⟨bytes, -, rfl⟩ := hashOf_eq_ok.mp h
  exact hS.plain bytes

theorem byteaIn_eq_of_hashOf (hS : Collisionless S) {t t' hash : Text}
    (h : hashOf S t = .ok hash) (h' : hashOf S t' = .ok hash) : byteaIn t = byteaIn t' := by
  obtain ⟨bytes, hbytes, rfl⟩ := hashOf_eq_ok.mp h
  obtain ⟨bytes', hbytes', heq⟩ := hashOf_eq_ok.mp h'
  rw [hbytes, hbytes', hS.injective heq]

theorem plain_keyFields {r : Resolved} {paramsHash : Text} (hprompt : Plain r.prompt.promptHash)
    (hparams : Plain paramsHash) : ∀ t ∈ keyFields r paramsHash, Plain t := by
  unfold keyFields
  simp only [forall_mem_cons]
  exact ⟨plain_accountField _, plain_toString _, plain_toString _, hprompt, hparams,
    by simp⟩

theorem notMem_intercalate {l : List Text} (h : ∀ t ∈ l, Plain t) :
    '\\' ∉ ['|'].intercalate l := by
  intro hmem
  rcases mem_intercalate hmem with hbar | ⟨t, ht, hc⟩
  · exact absurd hbar (by decide)
  · exact (h t ht).2 hc

theorem computeCacheKey_inj (hS : Collisionless S) {r r' : Resolved} {key : Text}
    (hprompt : Plain r.prompt.promptHash) (hprompt' : Plain r'.prompt.promptHash)
    (hjson : JsonEscapes r.params) (hjson' : JsonEscapes r'.params)
    (h : computeCacheKey S r = .ok key) (h' : computeCacheKey S r' = .ok key) :
    r.account = r'.account ∧ r.prompt.templateId = r'.prompt.templateId ∧
      r.aliasId = r'.aliasId ∧ r.prompt.promptHash = r'.prompt.promptHash ∧
      r.params = r'.params := by
  obtain ⟨hash, hhash, hkey⟩ := computeCacheKey_eq_ok.mp h
  obtain ⟨hash', hhash', hkey'⟩ := computeCacheKey_eq_ok.mp h'
  have hplain := plain_keyFields hprompt (plain_of_hashOf hS hhash)
  have hplain' := plain_keyFields hprompt' (plain_of_hashOf hS hhash')
  have hbytes := byteaIn_eq_of_hashOf hS hkey hkey'
  rw [byteaIn_of_notMem (notMem_intercalate hplain),
    byteaIn_of_notMem (notMem_intercalate hplain')] at hbytes
  have hfields : keyFields r hash = keyFields r' hash' :=
    intercalate_inj (fun t ht => (hplain t ht).1) (fun t ht => (hplain' t ht).1) rfl
      (utf8_injective (Except.ok.inj hbytes))
  simp only [keyFields, List.cons.injEq, and_true] at hfields
  obtain ⟨haccount, htemplate, halias, hpromptHash, rfl⟩ := hfields
  obtain ⟨bytes, hparams, -⟩ := hashOf_eq_ok.mp hhash
  have hsame := byteaIn_eq_of_hashOf hS hhash hhash'
  exact ⟨accountField_injective haccount, toString_toList_injective htemplate,
    toString_toList_injective halias, hpromptHash,
    byteaIn_inj_of_json hjson hjson' hparams (hsame ▸ hparams)⟩

end

/-! ## What holds of every database -/

structure Inputs where
  accountId : Option ℕ
  promptRenderId : Option ℕ
  aliasId : ℕ
  renderedPrompt : Text
  generationParams : Text
  cacheKey : Option Text

def Request.inputs (mr : Request) : Inputs :=
  ⟨mr.accountId, mr.promptRenderId, mr.aliasId, mr.renderedPrompt, mr.generationParams, mr.cacheKey⟩

def Asked (S : Server) (db : Db) (mr : Request) : Prop :=
  ∃ r cacheKey, mr.inputs = (newRequest r cacheKey).inputs ∧ OfRender db r ∧
    JsonEscapes r.params ∧ ∀ key ∈ cacheKey, computeCacheKey S r = .ok key

def Linked (mr : Request) : Prop := mr.promptRenderId ≠ none ∨ mr.cacheKey ≠ none

/-- Two requests of one account, template, alias and parameters, with prompts that are the same in
the sense of `same`. -/
structure SameInputs (same : Text → Text → Prop) (db : Db) (mr mr' : Request) : Prop where
  account : mr.accountId = mr'.accountId
  template : ∃ t, db.templateOf? mr = some t ∧ db.templateOf? mr' = some t
  modelAlias : mr.aliasId = mr'.aliasId
  prompt : same mr.renderedPrompt mr'.renderedPrompt
  params : mr.generationParams = mr'.generationParams

/-- A response copies the output of an earlier one that succeeded and is not a hit, and their
requests have the same inputs. -/
def Copies (same : Text → Text → Prop) (db : Db) (x : ResponseRow) : Prop :=
  ∃ mr ∈ db.requests.rows, ∃ original ∈ db.requests.rows, ∃ y ∈ db.responses.rows,
    mr.requestId = x.requestId ∧ original.requestId = y.requestId ∧
    y.responseId < x.responseId ∧ y.status = .succeeded ∧ y.cacheHit = false ∧
    x.output = y.output ∧ SameInputs same db mr.toRequest original.toRequest

def SameBytes (t t' : Text) : Prop := byteaIn t = byteaIn t'

structure Sound (S : Server) (db : Db) : Prop where
  renders : ∀ p ∈ db.renders.rows, hashOf S p.renderedPrompt = .ok p.promptHash
  requests : ∀ mr ∈ db.requests.rows, Linked mr.toRequest → Asked S db mr.toRequest
  hits : ∀ x ∈ db.responses.rows, x.cacheHit = true → Copies SameBytes db x

def Still (mr mr' : RequestRow) : Prop :=
  mr'.requestId = mr.requestId ∧ mr'.inputs = mr.inputs

/-- Renders and responses stay, and requests except for their status. -/
structure Grows (db db' : Db) : Prop where
  renders : ∀ p ∈ db.renders.rows, p ∈ db'.renders.rows
  requests : ∀ mr ∈ db.requests.rows, ∃ mr' ∈ db'.requests.rows, Still mr mr'
  responses : ∀ x ∈ db.responses.rows, x ∈ db'.responses.rows

section

variable {S : Server} {db db' : Db}

theorem Still.refl (mr : RequestRow) : Still mr mr := ⟨rfl, rfl⟩

theorem Still.linked {mr mr' : RequestRow} (h : Still mr mr') (hlinked : Linked mr'.toRequest) :
    Linked mr.toRequest := by
  have hrender : mr'.promptRenderId = mr.promptRenderId := congrArg Inputs.promptRenderId h.2
  have hkey : mr'.cacheKey = mr.cacheKey := congrArg Inputs.cacheKey h.2
  unfold Linked at hlinked
  rw [hrender, hkey] at hlinked
  exact hlinked

section

variable (hg : Grows db db')
include hg

theorem Grows.templateOf? {mr : Request} {t : ℕ} (h : db.templateOf? mr = some t) :
    db'.templateOf? mr = some t := by
  unfold Db.templateOf? at h ⊢
  obtain ⟨p, hp, rfl⟩ := Option.map_eq_some_iff.mp h
  obtain ⟨id, hid, hget⟩ := Option.bind_eq_some_iff.mp hp
  obtain ⟨hmem, hkey⟩ := Serial.get?_eq_some.mp hget
  rw [hid, Option.bind_some, Serial.get?_eq_some.mpr ⟨hg.renders p hmem, hkey⟩]
  rfl

theorem Grows.ofRender {r : Resolved} (h : OfRender db r) : OfRender db' r := by
  obtain ⟨p, hp, hrest⟩ := h
  exact ⟨p, hg.renders p hp, hrest⟩

theorem Grows.asked {mr mr' : RequestRow} (hstill : Still mr mr') (h : Asked S db mr.toRequest) :
    Asked S db' mr'.toRequest := by
  obtain ⟨r, cacheKey, hinputs, hrender, hrest⟩ := h
  exact ⟨r, cacheKey, hstill.2.trans hinputs, hg.ofRender hrender, hrest⟩

theorem Grows.sameInputs {same : Text → Text → Prop} {mr mr' original original' : Request}
    (h : SameInputs same db mr original) (hmr : mr'.inputs = mr.inputs)
    (horiginal : original'.inputs = original.inputs) : SameInputs same db' mr' original' := by
  have htemplate : ∀ {mr mr' : Request} {t : ℕ}, mr'.inputs = mr.inputs →
      db.templateOf? mr = some t → db'.templateOf? mr' = some t := by
    intro mr mr' t heq ht
    have hid : mr'.promptRenderId = mr.promptRenderId := congrArg Inputs.promptRenderId heq
    have ht' := hg.templateOf? ht
    unfold Db.templateOf? at ht' ⊢
    rw [hid]
    exact ht'
  obtain ⟨t, ht, ht'⟩ := h.template
  simp only [Request.inputs, Inputs.mk.injEq] at hmr horiginal
  obtain ⟨haccount, hrender, halias, hprompt, hparams, hkey⟩ := hmr
  obtain ⟨haccount', hrender', halias', hprompt', hparams', hkey'⟩ := horiginal
  constructor
  · rw [haccount, haccount', h.account]
  · refine ⟨t, htemplate ?_ ht, htemplate ?_ ht'⟩ <;> simp [Request.inputs, *]
  · rw [halias, halias', h.modelAlias]
  · rw [hprompt, hprompt']
    exact h.prompt
  · rw [hparams, hparams', h.params]

theorem Grows.copies {same : Text → Text → Prop} {x : ResponseRow} (h : Copies same db x) :
    Copies same db' x := by
  obtain ⟨mr, hmr, original, horiginal, y, hy, hid, hid', hrest⟩ := h
  obtain ⟨hearlier, hstatus, hhit, houtput, hsame⟩ := hrest
  obtain ⟨mr', hmr', hkey, hstill⟩ := hg.requests mr hmr
  obtain ⟨original', horiginal', hkey', hstill'⟩ := hg.requests original horiginal
  exact ⟨mr', hmr', original', horiginal', y, hg.responses y hy, hkey.trans hid, hkey'.trans hid',
    hearlier, hstatus, hhit, houtput, hg.sameInputs hsame hstill hstill'⟩

end

theorem Sound.grow (h : Sound S db) (hg : Grows db db')
    (hrenders : ∀ p ∈ db'.renders.rows, p ∈ db.renders.rows ∨
      hashOf S p.renderedPrompt = .ok p.promptHash)
    (hrequests : ∀ mr' ∈ db'.requests.rows, (∃ mr ∈ db.requests.rows, Still mr mr') ∨
      (Linked mr'.toRequest → Asked S db' mr'.toRequest))
    (hhits : ∀ x ∈ db'.responses.rows, x ∈ db.responses.rows ∨
      (x.cacheHit = true → Copies SameBytes db' x)) : Sound S db' where
  renders p hp := (hrenders p hp).elim (h.renders p) id
  requests mr' hmr' hlinked := by
    rcases hrequests mr' hmr' with ⟨mr, hmr, hstill⟩ | hnew
    · exact hg.asked hstill (h.requests mr hmr (hstill.linked hlinked))
    · exact hnew hlinked
  hits x hx hhit := by
    rcases hhits x hx with hold | hnew
    · exact hg.copies (h.hits x hold hhit)
    · exact hnew hhit

section

variable {requestId : ℕ} {mk : ℕ → ResponseRow} {hid : ∀ k, (mk k).responseId = k}
  {hrequest : ∀ k, (mk k).requestId = requestId}
  (hw : db.insertResponse requestId mk hid hrequest = some db')
include hw

theorem grows_insertResponse : Grows db db' := by
  obtain ⟨-, hrenders, -, hrequests, hresponses⟩ := insertResponse_eq_some hw
  exact ⟨fun p hp => hrenders ▸ hp, fun mr hmr => ⟨mr, hrequests ▸ hmr, .refl mr⟩,
    fun x hx => hresponses ▸ Serial.mem_insert.mpr (.inl hx)⟩

theorem Sound.insertResponse (h : Sound S db)
    (hcopies : (mk db.responses.next).cacheHit = true →
      Copies SameBytes db' (mk db.responses.next)) : Sound S db' := by
  obtain ⟨-, hrenders, -, hrequests, hresponses⟩ := insertResponse_eq_some hw
  refine h.grow (grows_insertResponse hw) ?_ ?_ fun x hx => ?_
  · exact fun p hp => .inl (hrenders ▸ hp)
  · exact fun mr hmr => .inl ⟨mr, hrequests ▸ hmr, .refl mr⟩
  rw [hresponses] at hx
  rcases Serial.mem_insert.mp hx with hx | rfl
  · exact .inl hx
  · exact .inr hcopies

end

end

/-! ## Operations keep it -/

section

variable {S : Server} {db db' : Db}

theorem sound_empty (S : Server) (c : Catalog) : Sound S (Db.empty c) where
  renders := forall_mem_nil _
  requests := forall_mem_nil _
  hits := forall_mem_nil _

theorem Sound.of_eq (h : Sound S db) (hrenders : db'.renders = db.renders)
    (hrequests : db'.requests = db.requests) (hresponses : db'.responses = db.responses) :
    Sound S db' := by
  refine h.grow ⟨?_, ?_, ?_⟩ ?_ ?_ ?_
  · exact fun p hp => hrenders ▸ hp
  · exact fun mr hmr => ⟨mr, hrequests ▸ hmr, .refl mr⟩
  · exact fun x hx => hresponses ▸ hx
  · exact fun p hp => .inl (hrenders ▸ hp)
  · exact fun mr hmr => .inl ⟨mr, hrequests ▸ hmr, .refl mr⟩
  · exact fun x hx => .inl (hresponses ▸ hx)

theorem sound_insertRender (h : Sound S db) (templateId : ℕ) (session account : Option ℕ)
    {text hash : Text} (hhash : hashOf S text = .ok hash) :
    Sound S (db.insertRender templateId session account text hash) := by
  refine h.grow ⟨?_, ?_, ?_⟩ ?_ ?_ ?_
  · exact fun p hp => mem_insertRender.mpr (.inl hp)
  · exact fun mr hmr => ⟨mr, hmr, .refl mr⟩
  · exact fun x hx => hx
  · intro p hp
    refine (mem_insertRender.mp hp).imp_right fun heq => ?_
    rw [heq]
    exact hhash
  · exact fun mr hmr => .inl ⟨mr, hmr, .refl mr⟩
  · exact fun x hx => .inl hx

theorem sound_record (h : Sound S db) {w : Recorded} (hw : db.record w = some db') :
    Sound S db' := by
  unfold Db.record at hw
  split at hw
  · exact h.insertResponse hw fun hhit => by cases hhit
  · cases hw

section

variable {c : Invocation} {mr : Request} {r : Resolved}

theorem asked_newRequest (h : Referring db) {cacheKey : Option Text}
    (hr : Prepared S db c r cacheKey) (hjson : ∀ t ∈ c.generationParams, JsonEscapes t) :
    Asked S db (newRequest r cacheKey) := by
  refine ⟨r, cacheKey, rfl, ofRender_of_prepared h hr, ?_, hr.key⟩
  unfold Resolved.params
  rw [hr.invocation]
  cases hparams : c.generationParams with
  | none => exact ⟨by decide, by decide, trivial⟩
  | some t => exact hjson t hparams

theorem sound_insertRequest (h : Sound S db) (hmr : Linked mr → Asked S db mr) :
    Sound S (db.insertRequest mr) := by
  have hg : Grows db (db.insertRequest mr) :=
    ⟨fun p hp => hp, fun mr hmr => ⟨mr, mem_insertRequest.mpr (.inl hmr), .refl mr⟩, fun x hx => hx⟩
  refine h.grow hg ?_ ?_ ?_
  · exact fun p hp => .inl hp
  · intro mr' hmr'
    rcases mem_insertRequest.mp hmr' with hold | rfl
    · exact .inl ⟨mr', hold, .refl mr'⟩
    · exact .inr hmr
  · exact fun x hx => .inl hx

theorem sound_succeedRequest (h : Sound S db) (requestId : ℕ) :
    Sound S (db.succeedRequest requestId) := by
  have hstill : ∀ mr : RequestRow,
      Still mr (if mr.requestId = requestId then { mr with succeeded := true } else mr) := by
    intro mr
    split
    · exact ⟨rfl, rfl⟩
    · exact .refl mr
  refine h.grow ⟨fun p hp => hp, fun mr hmr => ?_, fun x hx => hx⟩ ?_ ?_ ?_
  · exact ⟨_, mem_updateWhere.mpr ⟨mr, hmr, rfl⟩, by simpa using hstill mr⟩
  · exact fun p hp => .inl hp
  · intro mr' hmr'
    obtain ⟨mr, hmr, rfl⟩ := mem_updateWhere.mp hmr'
    exact .inl ⟨mr, hmr, by simpa using hstill mr⟩
  · exact fun x hx => .inl hx

theorem templateOf?_of_asked {cacheKey : Option Text}
    (hinputs : mr.inputs = (newRequest r cacheKey).inputs) (h : OfRender db r) :
    db.templateOf? mr = some r.prompt.templateId := by
  obtain ⟨p, hp, hid, htemplate, -⟩ := h
  rw [← htemplate]
  exact templateOf?_eq_some hp ((congrArg Inputs.promptRenderId hinputs).trans hid)

theorem exists_render (h : Asked S db mr) :
    ∃ p ∈ db.renders.rows, db.templateOf? mr = some p.templateId ∧
      p.renderedPrompt = mr.renderedPrompt := by
  obtain ⟨r, cacheKey, hinputs, hrender, -⟩ := h
  have ht := templateOf?_of_asked hinputs hrender
  obtain ⟨p, hp, -, htemplate, htext, -⟩ := hrender
  have hprompt : mr.renderedPrompt = r.prompt.rendered := congrArg Inputs.renderedPrompt hinputs
  exact ⟨p, hp, by rw [ht, htemplate], by rw [htext, hprompt]⟩

theorem linked_of_template {t : ℕ} (h : db.templateOf? mr = some t) : Linked mr := by
  refine .inl fun hnone => ?_
  unfold Db.templateOf? at h
  rw [hnone] at h
  cases h

theorem sameInputs_of_key (hS : Collisionless S) (h : Sound S db) {mr mr' : Request} {key : Text}
    (hmr : Asked S db mr) (hmr' : Asked S db mr') (hkey : mr.cacheKey = some key)
    (hkey' : mr'.cacheKey = some key) : SameInputs SameBytes db mr mr' := by
  obtain ⟨r, cacheKey, hinputs, hrender, hjson, hcompute⟩ := hmr
  obtain ⟨r', cacheKey', hinputs', hrender', hjson', hcompute'⟩ := hmr'
  have hhash : ∀ {r : Resolved}, OfRender db r →
      hashOf S r.prompt.rendered = .ok r.prompt.promptHash := by
    rintro r ⟨p, hp, -, -, htext, hhash⟩
    rw [← htext, ← hhash]
    exact h.renders p hp
  have hplain := plain_of_hashOf hS (hhash hrender)
  have hplain' := plain_of_hashOf hS (hhash hrender')
  have hcompute := hcompute key ((congrArg Inputs.cacheKey hinputs).symm.trans hkey)
  have hcompute' := hcompute' key ((congrArg Inputs.cacheKey hinputs').symm.trans hkey')
  obtain ⟨haccount, htemplate, halias, hprompt, hparams⟩ :=
    computeCacheKey_inj hS hplain hplain' hjson hjson' hcompute hcompute'
  have hsame := byteaIn_eq_of_hashOf hS (hhash hrender) (hprompt ▸ hhash hrender')
  have ht := templateOf?_of_asked hinputs hrender
  have ht' := templateOf?_of_asked hinputs' hrender'
  simp only [Request.inputs, newRequest, Inputs.mk.injEq] at hinputs hinputs'
  refine ⟨?_, ⟨_, ht, htemplate ▸ ht'⟩, ?_, ?_, ?_⟩
  · rw [hinputs.1, hinputs'.1, haccount]
  · rw [hinputs.2.2.1, hinputs'.2.2.1, halias]
  · rw [hinputs.2.2.2.1, hinputs'.2.2.2.1]
    exact hsame
  · rw [hinputs.2.2.2.2.1, hinputs'.2.2.2.2.1]
    exact hparams

theorem sound_submit (hS : Collisionless S) (href : Referring db) (h : Sound S db)
    (hjson : ∀ t ∈ c.generationParams, JsonEscapes t) (hmade : Made S db c db') : Sound S db' := by
  cases hmade with
  | nothing => exact h
  | request hr => exact sound_insertRequest h fun _ => asked_newRequest href hr hjson
  | @hit r cacheKey original x db₂ hr hcache hx hdb₂ =>
    have hasked := asked_newRequest href hr hjson
    have hsound := sound_insertRequest h fun _ => hasked
    refine sound_succeedRequest (hsound.insertResponse hdb₂ fun _ => ?_) _
    obtain ⟨mr, hmr, rfl, hkey, y, hy, hhit, hstatus⟩ := lookupCache_eq_some hcache
    obtain rfl : y = x := Option.some.inj (hy.symm.trans hx)
    obtain ⟨hmem, hid⟩ := responseOf?_eq_some.mp hy
    have hin : mr ∈ (db.insertRequest (newRequest r (some cacheKey))).requests.rows :=
      mem_insertRequest.mpr (.inl hmr)
    have hnew : (⟨newRequest r (some cacheKey), db.requests.next⟩ : RequestRow)
        ∈ (db.insertRequest (newRequest r (some cacheKey))).requests.rows :=
      mem_insertRequest.mpr (.inr rfl)
    refine (grows_insertResponse hdb₂).copies ⟨_, hnew, mr, hin, y, hmem, rfl, hid.symm,
      db.responses.below y hmem, hstatus, hhit, rfl,
      sameInputs_of_key hS hsound hasked (hsound.requests mr hin (.inr ?_)) rfl hkey⟩
    rw [hkey]
    nofun

end

theorem sound_step (hS : Collisionless S) (E : Engine) (op : Op) (href : Referring db)
    (h : Sound S db) : Sound S (step S E db op) := by
  have hleaves := step_leaves S E db op
  generalize step S E db op = db' at hleaves
  cases hleaves with
  | same => exact h
  | administered ha => exact h.of_eq ha.renders ha.requests ha.responses
  | render ht hhash => exact sound_insertRender h _ _ _ hhash
  | bind ht happroved hhash => exact (sound_insertRender h _ _ _ hhash).of_eq rfl rfl rfl
  | @submit c hjson _ hmade => exact sound_submit hS href h hjson hmade
  | plain hrender hkey =>
    exact sound_insertRequest h fun hlinked => absurd hlinked (by simp [Linked, hrender, hkey])
  | record hw => exact sound_record h hw

theorem sound_run (hS : Collisionless S) (E : Engine) (c : Catalog) (ops : List Op) :
    Sound S (run (step S E) (Db.empty c) ops) :=
  (run_inv (I := fun db => Referring db ∧ Sound S db)
    (fun _ op h => ⟨referring_step S E op h.1, sound_step hS E op h.1 h.2⟩) ops
    ⟨referring_empty c, sound_empty S c⟩).2

end

/-! ## Hits -/

/-- Two prompts of a template that are read as the same bytes are the same. -/
def Distinguished (db : Db) : Prop :=
  ∀ p ∈ db.renders.rows, ∀ p' ∈ db.renders.rows, p.templateId = p'.templateId →
    SameBytes p.renderedPrompt p'.renderedPrompt → p.renderedPrompt = p'.renderedPrompt

/-- **A hit copies the output of an earlier response that succeeded and is not a hit**, and the
request of that response had the same account, template, alias, prompt and parameters, if the
prompts of a template can be told from their bytes. -/
theorem cacheHit_copies (S : Server) (hS : Collisionless S) (E : Engine) (c : Catalog)
    (ops : List Op) (hprompts : Distinguished (run (step S E) (Db.empty c) ops)) :
    ∀ x ∈ (run (step S E) (Db.empty c) ops).responses.rows, x.cacheHit = true →
      Copies Eq (run (step S E) (Db.empty c) ops) x := by
  intro x hx hhit
  have hsound := sound_run hS E c ops
  generalize run (step S E) (Db.empty c) ops = db at *
  obtain ⟨mr, hmr, original, horiginal, y, hy, hid, hid', hrest⟩ := hsound.hits x hx hhit
  obtain ⟨hearlier, hstatus, hhit, houtput, hsame⟩ := hrest
  refine ⟨mr, hmr, original, horiginal, y, hy, hid, hid', hearlier, hstatus, hhit, houtput,
    hsame.account, hsame.template, hsame.modelAlias, ?_, hsame.params⟩
  -- both prompts are those of renders of the one template
  obtain ⟨t, ht, ht'⟩ := hsame.template
  obtain ⟨p, hp, htemplate, htext⟩ := exists_render (hsound.requests mr hmr (linked_of_template ht))
  obtain ⟨p', hp', htemplate', htext'⟩ :=
    exists_render (hsound.requests original horiginal (linked_of_template ht'))
  have htemplates : p.templateId = p'.templateId := by
    rw [ht] at htemplate
    rw [ht'] at htemplate'
    exact Option.some.inj (htemplate.symm.trans htemplate')
  rw [← htext, ← htext']
  refine hprompts p hp p' hp' htemplates ?_
  rw [htext, htext']
  exact hsame.prompt

section

def hexServer : Server :=
  { plainServer with
    sha256 := fun bytes => bytes.flatMap fun b =>
      [lowerHex (b.toNat / 16), lowerHex (b.toNat % 16)] }

theorem lowerHex_injective : ∀ m < 16, ∀ n < 16, lowerHex m = lowerHex n → m = n := by
  decide

theorem lowerHex_mem : ∀ m < 16, lowerHex m ∈ "0123456789abcdef".toList := by
  decide

theorem collisionless_hexServer : Collisionless hexServer where
  injective := by
    intro s
    induction s with
    | nil =>
      intro t h
      cases t with
      | nil => rfl
      | cons d t => cases h
    | cons b s ih =>
      intro t h
      cases t with
      | nil => cases h
      | cons d t =>
        have hhigh := lowerHex_injective (b.toNat / 16) (by have := b.toNat_lt; omega)
          (d.toNat / 16) (by have := d.toNat_lt; omega) (List.cons.inj h).1
        have hlow := lowerHex_injective (b.toNat % 16) (by omega) (d.toNat % 16) (by omega)
          (List.cons.inj (List.cons.inj h).2).1
        have hbyte : b = d := UInt8.toNat_inj.mp (by omega)
        rw [hbyte, ih (List.cons.inj (List.cons.inj h).2).2]
  digits bytes c hc := by
    obtain ⟨b, -, hb⟩ := mem_flatMap.mp hc
    rcases mem_cons.mp hb with rfl | hb
    · exact lowerHex_mem _ (by have := b.toNat_lt; omega)
    · rw [mem_singleton.mp hb]
      exact lowerHex_mem _ (by omega)

def plainEngine : Engine where
  bigint t := .error t
  numeric t := .error t
  boolean t := .error t
  isMatch t _ := .error t

/-- A catalog with a session. -/
def sessionCatalog : Catalog := { smallCatalog [] List.nodup_nil with sessions := [⟨1, 1⟩] }

def oneVariableTemplate : TemplateArgs :=
  ⟨"t".toList, "\x7b\x7bx\x7d\x7d".toList, none, none, none, none, none⟩

/-- `render_prompt` with a value for the variable. -/
def renderWith (value : String) : Op :=
  .renderPrompt 1 "t".toList none
    (some ⟨[("x".toList, some value.toList)], nodup_singleton _⟩)

/-- `submit_render`, from the cache if it can be. -/
def preferCache (renderId now : ℕ) : Op :=
  .submit ⟨.submitRender renderId, "model", none, none, 30000, "prefer", none, now⟩ nofun

def answer (requestId : ℕ) (text : String) (now : ℕ) : Op :=
  .record ⟨requestId, .succeeded, ⟨some text.toList, none, none, none, none, none, []⟩, some 1,
    some 1, none, none, none, now⟩

/-- The database after operations on `sessionCatalog`. -/
def after (ops : List Op) : Db := run (step hexServer plainEngine) (Db.empty sessionCatalog) ops

def askTwice : List Op :=
  [.registerPromptTemplate oneVariableTemplate, renderWith "A", preferCache 1 1, answer 1 "one" 2,
    preferCache 1 3]

theorem cacheHit_copies_again :
    ∃ x ∈ (after askTwice).responses.rows, x.cacheHit = true ∧ Copies Eq (after askTwice) x := by
  have hprompts : (after askTwice).renders.rows.map RenderRow.renderedPrompt = ["A".toList] := by
    decide +kernel
  have hhits : true ∈ (after askTwice).responses.rows.map ResponseRow.cacheHit := by
    decide +kernel
  obtain ⟨x, hx, hhit⟩ := mem_map.mp hhits
  refine ⟨x, hx, hhit, cacheHit_copies hexServer collisionless_hexServer plainEngine sessionCatalog
    askTwice (fun p hp p' hp' _ _ => ?_) x hx hhit⟩
  have hA : ∀ t ∈ ["A".toList], t = "A".toList := by simp
  rw [← hprompts] at hA
  exact (hA _ (mem_map_of_mem hp)).trans (hA _ (mem_map_of_mem hp')).symm

def askAcross : List Op :=
  [.registerPromptTemplate oneVariableTemplate, renderWith "A", renderWith "\\101",
    preferCache 1 1, answer 1 "one" 2, preferCache 2 3]

/-- **A hit copies the output of another prompt**: `\101` is read as the byte of `A`. -/
theorem cacheHit_crosses :
    Collisionless hexServer ∧ ∃ x ∈ (after askAcross).responses.rows, x.cacheHit = true ∧
        ¬ Copies Eq (after askAcross) x := by
  refine ⟨collisionless_hexServer, ?_⟩
  have hrequests : (after askAcross).requests.rows.map (fun mr => (mr.requestId, mr.renderedPrompt))
      = [(1, "A".toList), (2, "\\101".toList)] := by decide +kernel
  have hresponses : (after askAcross).responses.rows.map (fun x => (x.requestId, x.cacheHit))
      = [(1, false), (2, true)] := by decide +kernel
  generalize after askAcross = db at *
  have hlast : (2, true) ∈ db.responses.rows.map fun x => (x.requestId, x.cacheHit) := by
    rw [hresponses]
    decide
  obtain ⟨x, hx, heq⟩ := mem_map.mp hlast
  obtain ⟨hid, hhit⟩ := Prod.mk.inj heq
  refine ⟨x, hx, hhit, ?_⟩
  rintro ⟨mr, hmr, original, horiginal, y, hy, hmrId, hyId, -, -, hyHit, -, hsame⟩
  have hprompts : ∀ t ∈ [(1, "A".toList), (2, "\\101".toList)],
      (t.1 = 1 → t.2 = "A".toList) ∧ (t.1 = 2 → t.2 = "\\101".toList) := by decide
  have hanswers : ∀ t ∈ [(1, false), (2, true)], t.2 = false → t.1 = 1 := by decide
  rw [← hrequests] at hprompts
  rw [← hresponses] at hanswers
  have hy₁ : y.requestId = 1 := hanswers _ (mem_map_of_mem hy) hyHit
  have hleft := (hprompts _ (mem_map_of_mem hmr)).2 (hmrId.trans hid)
  have hright := (hprompts _ (mem_map_of_mem horiginal)).1 (hyId.trans hy₁)
  have hprompt : mr.renderedPrompt = original.renderedPrompt := hsame.prompt
  exact absurd (hleft.symm.trans (hprompt.trans hright)) (by decide)

end

end MaluDb.Gateway
