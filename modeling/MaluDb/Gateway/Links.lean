import MaluDb.Gateway.History

/-!
# What rows of the gateway refer to

Nothing that is referred to is ever gone, and a call that is about to make a request has the prompt
of a render.
-/

namespace MaluDb.Gateway

open MaluDb.Lib
open MaluDb.Prompt (Text Server Engine)

/-- The template of a render is there, and a bound prompt is that of its render. -/
structure Referring (db : Db) : Prop where
  renders : ∀ p ∈ db.renders.rows, ∃ t ∈ db.templates.rows, t.templateId = p.templateId
  bounds : ∀ b ∈ db.bounds.rows, ∃ p ∈ db.renders.rows, b.renderId = some p.renderId ∧
    p.templateId = b.templateId ∧ p.renderedPrompt = b.renderedFull ∧ p.promptHash = b.promptHash

/-- The prompt of a call is that of a render, to which its request refers. -/
def OfRender (db : Db) (r : Resolved) : Prop :=
  ∃ p ∈ db.renders.rows, (newRequest r none).promptRenderId = some p.renderId ∧
    p.templateId = r.prompt.templateId ∧ p.renderedPrompt = r.prompt.rendered ∧
    p.promptHash = r.prompt.promptHash

section

variable {S : Server} {db db' : Db}

theorem referring_empty (c : Catalog) : Referring (Db.empty c) where
  renders := List.forall_mem_nil _
  bounds := List.forall_mem_nil _

theorem Referring.of_eq (h : Referring db) (htemplates : db'.templates = db.templates)
    (hrenders : db'.renders = db.renders) (hbounds : db'.bounds = db.bounds) : Referring db' where
  renders := by
    rw [hrenders, htemplates]
    exact h.renders
  bounds := by
    rw [hrenders, hbounds]
    exact h.bounds

section

variable (h : Referring db) {t : TemplateRow} (ht : t ∈ db.templates.rows)
  (session account : Option ℕ) (text hash : Text)
include h ht

theorem referring_insertRender :
    Referring (db.insertRender t.templateId session account text hash) where
  renders p hp := by
    rcases mem_insertRender.mp hp with hold | rfl
    · exact h.renders p hold
    · exact ⟨t, ht, rfl⟩
  bounds b hb := by
    obtain ⟨p, hp, hrest⟩ := h.bounds b hb
    exact ⟨p, mem_insertRender.mpr (.inl hp), hrest⟩

theorem referring_insertBound :
    Referring (db.insertBound t.templateId session account text hash) where
  renders := (referring_insertRender h ht session account text hash).renders
  bounds b hb := by
    rcases mem_insertBound.mp hb with hold | rfl
    · exact (referring_insertRender h ht session account text hash).bounds b hold
    · exact ⟨_, mem_insertRender.mpr (.inr rfl), rfl, rfl, rfl, rfl⟩

end

theorem Made.tables {c : Invocation} (h : Made S db c db') :
    db'.templates = db.templates ∧ db'.renders = db.renders ∧ db'.bounds = db.bounds := by
  cases h with
  | nothing => exact ⟨rfl, rfl, rfl⟩
  | request hr => exact ⟨rfl, rfl, rfl⟩
  | hit hr hcache hx hdb' =>
    obtain ⟨htemplates, hrenders, hbounds, -⟩ := insertResponse_eq_some hdb'
    exact ⟨htemplates, hrenders, hbounds⟩

theorem record_tables {w : Recorded} (h : db.record w = some db') :
    db'.templates = db.templates ∧ db'.renders = db.renders ∧ db'.bounds = db.bounds ∧
      db'.requests = db.requests := by
  unfold Db.record at h
  split at h
  · obtain ⟨htemplates, hrenders, hbounds, hrequests, -⟩ := insertResponse_eq_some h
    exact ⟨htemplates, hrenders, hbounds, hrequests⟩
  · cases h

theorem referring_step (S : Server) (E : Engine) (op : Op) (h : Referring db) :
    Referring (step S E db op) := by
  have hleaves := step_leaves S E db op
  generalize step S E db op = db' at hleaves
  cases hleaves with
  | same => exact h
  | administered ha =>
    refine ⟨fun p hp => ?_, fun b hb => ?_⟩
    · obtain ⟨t, ht, hid⟩ := h.renders p (ha.renders ▸ hp)
      obtain ⟨t', ht', hid'⟩ := ha.templates t ht
      exact ⟨t', ht', hid'.trans hid⟩
    · rw [ha.renders]
      exact h.bounds b (ha.bounds ▸ hb)
  | render ht hhash => exact referring_insertRender h ht _ _ _ _
  | bind ht happroved hhash => exact referring_insertBound h ht _ _ _ _
  | submit hmade =>
    obtain ⟨htemplates, hrenders, hbounds⟩ := hmade.tables
    exact h.of_eq htemplates hrenders hbounds
  | plain hrender hkey => exact h.of_eq rfl rfl rfl
  | record hw =>
    obtain ⟨htemplates, hrenders, hbounds, -⟩ := record_tables hw
    exact h.of_eq htemplates hrenders hbounds

theorem ofRender_of_prepared (h : Referring db) {c : Invocation} {r : Resolved}
    {cacheKey : Option Text} (hr : Prepared S db c r cacheKey) : OfRender db r := by
  have hprompt := hr.prompt
  rw [← hr.invocation] at hprompt
  unfold OfRender newRequest
  cases hroutine : r.invocation.routine with
  | submitRender renderId =>
    rw [hroutine] at hprompt
    obtain ⟨p, hp, heq⟩ := Option.map_eq_some_iff.mp hprompt
    obtain ⟨hmem, rfl⟩ := Serial.get?_eq_some.mp (Option.filter_eq_some_iff.mp hp).1
    rw [← heq]
    exact ⟨p, hmem, rfl, rfl, rfl, rfl⟩
  | call bound sessionId =>
    rw [hroutine] at hprompt
    cases bound with
    | none => cases hprompt
    | some boundPromptId =>
      obtain ⟨b, hb, heq⟩ := Option.map_eq_some_iff.mp hprompt
      have hget := (Option.filter_eq_some_iff.mp hb).1
      obtain ⟨p, hp, hid, hrest⟩ := h.bounds b (Serial.get?_eq_some.mp hget).1
      rw [← heq]
      exact ⟨p, hp, hid, hrest⟩

theorem templateOf?_eq_some {mr : Request} {p : RenderRow} (hp : p ∈ db.renders.rows)
    (h : mr.promptRenderId = some p.renderId) : db.templateOf? mr = some p.templateId := by
  have hget : db.renders.get? p.renderId = some p := Serial.get?_eq_some.mpr ⟨hp, rfl⟩
  unfold Db.templateOf?
  rw [h, Option.bind_some, hget]
  rfl

end

end MaluDb.Gateway
