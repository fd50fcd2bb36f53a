import MaluDb.Embedding.Dirty

/-!
# Stored vectors and current cards

A vector that was not computed from the current card should have its object in the queue. Three
kinds of steps break this, which `Timely` excludes:

* a late completion overwrites the vector of the current card;
* a completion for one space, or a claim that finds the hash of the card in one space, retires the
  row of an object that has an older vector in another space;
* a subject or verb is renamed, and no trigger queues the statements that mention it.
-/

namespace MaluDb.Embedding

open MaluDb.Lib List Records

variable {env : Env} {s s' : Store}

def Store.IsDirty (s : Store) (obj : Obj) : Prop := ∃ d ∈ s.dirty, d.obj = obj

instance (s : Store) (obj : Obj) : Decidable (s.IsDirty obj) :=
  inferInstanceAs (Decidable (∃ d ∈ s.dirty, d.obj = obj))

/-- Every stored vector is of the current card of its object, or the object is queued. -/
def Fresh (env : Env) (s : Store) : Prop :=
  ∀ r ∈ s.embeddings, card env s.data r.obj = some r.source ∨ s.IsDirty r.obj

/-! ## The condition on steps -/

def Edit.relabelled (data : Data) : Edit → Option Endpoint
  | .insert (.subject _) => some (.subject data.subjects.next)
  | .insert (.verb _) => some (.verb data.verbs.next)
  | .update id (.subject f) =>
    if (data.subjects.fields? id).all fun old => old.canonicalName = f.canonicalName then none
    else some (.subject id)
  | .update id (.verb f) =>
    if (data.verbs.fields? id).all fun old => old.canonicalName = f.canonicalName then none
    else some (.verb id)
  | .delete (.subject id) => if data.has (.subject id) then some (.subject id) else none
  | .delete (.verb id) => if data.has (.verb id) then some (.verb id) else none
  | _ => none

/-- If an embedding of the object has the hash of its card, all are from that card. -/
def Settled (env : Env) (s : Store) (obj : Obj) : Prop :=
  ∀ text ∈ card env s.data obj, s.hasHash obj (env.sha256 text) = true →
    ∀ r ∈ s.embeddings, r.obj = obj → r.source = text

/-- The object was queued again since the ticket, or the ticket has the current card and the object
no vector of another card in another space. -/
def Current (env : Env) (s : Store) (t : Ticket) (space : Option String) : Prop :=
  (∃ d ∈ s.dirty, d.obj = t.obj ∧ d.generation ≠ t.generation) ∨
    card env s.data t.obj = some t.cardText ∧
      ∀ r ∈ s.embeddings, r.obj = t.obj → some r.space ≠ space → r.source = t.cardText

/-- No step of the three kinds. -/
def Timely (env : Env) (s : System) : Op → Prop
  | .edit _ e => ∀ x ∈ e.relabelled s.store.data, ∀ st ∈ s.store.data.statements.rows,
    st.fields.mentions x = true → ∀ r ∈ s.store.embeddings, r.obj = .statement st.id →
      s.store.IsDirty r.obj
  | .claim kinds limit locked =>
    ∀ d ∈ claimRows s.store kinds limit locked, Settled env s.store d.obj
  | .complete ticket args => ∀ t ∈ s.tickets[ticket]?, s.store.data.has t.obj = true →
    Current env s.store t args.space

instance (env : Env) (s : Store) (obj : Obj) : Decidable (Settled env s obj) :=
  inferInstanceAs (Decidable (∀ text ∈ card env s.data obj,
    s.hasHash obj (env.sha256 text) = true → ∀ r ∈ s.embeddings, r.obj = obj → r.source = text))

instance (env : Env) (s : Store) (t : Ticket) (space : Option String) :
    Decidable (Current env s t space) :=
  inferInstanceAs (Decidable ((∃ d ∈ s.dirty, d.obj = t.obj ∧ d.generation ≠ t.generation) ∨
    card env s.data t.obj = some t.cardText ∧
      ∀ r ∈ s.embeddings, r.obj = t.obj → some r.space ≠ space → r.source = t.cardText))

instance decidableTimely (env : Env) (s : System) : (op : Op) → Decidable (Timely env s op)
  | .edit _ e => inferInstanceAs (Decidable (∀ x ∈ e.relabelled s.store.data,
    ∀ st ∈ s.store.data.statements.rows, st.fields.mentions x = true →
      ∀ r ∈ s.store.embeddings, r.obj = .statement st.id → s.store.IsDirty r.obj))
  | .claim kinds limit locked => inferInstanceAs (Decidable
    (∀ d ∈ claimRows s.store kinds limit locked, Settled env s.store d.obj))
  | .complete ticket args => inferInstanceAs (Decidable (∀ t ∈ s.tickets[ticket]?,
    s.store.data.has t.obj = true → Current env s.store t args.space))

/-! ## Marks and purges -/

variable {now : ℕ} {obj x : Obj} {e : Edit}

theorem isDirty_mark {reason : String} :
    (embeddingDirtyMark now obj reason s).IsDirty x ↔ x = obj ∨ s.IsDirty x := by
  constructor
  · rintro ⟨d, hd, rfl⟩
    rcases mem_upsert hd with ⟨hd, -⟩ | ⟨d₀, -, hd₀, rfl⟩ | rfl
    · exact .inr ⟨d, hd, rfl⟩
    · exact .inl (by simpa using hd₀)
    · exact .inl rfl
  have hobj : (embeddingDirtyMark now obj reason s).IsDirty obj := by
    rcases exists_mem_upsert (fun d : DirtyRow => d.obj == obj) _ _ s.dirty with
      ⟨d₀, -, hd₀, hd⟩ | hnew
    · exact ⟨_, hd, by simpa using hd₀⟩
    · exact ⟨_, hnew, rfl⟩
  rintro (rfl | ⟨d, hd, rfl⟩)
  · exact hobj
  · by_cases hsame : d.obj = obj
    · exact hsame ▸ hobj
    · exact ⟨d, mem_upsert_of_mem hd (by simpa using hsame), rfl⟩

theorem isDirty_markTarget {target : Option Obj} :
    (markTarget now target s).IsDirty x ↔ target = some x ∨ s.IsDirty x := by
  cases target with
  | none => simp [markTarget]
  | some obj => simp [markTarget, isDirty_mark, eq_comm]

theorem isDirty_attributeTg {old new : Option Attribute} :
    (embeddingDirtyAttributeTg now old new s).IsDirty x ↔
      (∃ a ∈ old, a.target = some x) ∨ (∃ a ∈ new, a.target = some x) ∨ s.IsDirty x := by
  cases old with
  | none => cases new with
    | none => simp [embeddingDirtyAttributeTg]
    | some new => simp [embeddingDirtyAttributeTg, isDirty_markTarget]
  | some old => cases new with
    | none => simp [embeddingDirtyAttributeTg, isDirty_markTarget]
    | some new =>
      by_cases hsame : old.target = new.target
      · simp [embeddingDirtyAttributeTg, hsame, isDirty_markTarget]
      · simp [embeddingDirtyAttributeTg, hsame, isDirty_markTarget]

theorem attributeTg_eq (now : ℕ) (old new : Option Attribute) (s : Store) :
    ∃ dirty, embeddingDirtyAttributeTg now old new s = { s with dirty := dirty } := by
  have hmark : ∀ (target : Option Obj) (s : Store),
      ∃ dirty, markTarget now target s = { s with dirty := dirty } := fun target s => by
    cases target with
    | none => exact ⟨s.dirty, rfl⟩
    | some obj => exact ⟨_, rfl⟩
  cases old with
  | none => cases new with
    | none => exact ⟨s.dirty, rfl⟩
    | some new => exact hmark new.target s
  | some old => cases new with
    | none => exact hmark old.target s
    | some new =>
      obtain ⟨dirty, hnew⟩ := hmark new.target s
      obtain ⟨dirty', hold⟩ := hmark old.target { s with dirty := dirty }
      simp only [embeddingDirtyAttributeTg, hnew, hold]
      split
      · exact ⟨dirty, rfl⟩
      · exact ⟨dirty', rfl⟩

/-! ## Edits -/

section

variable {data : Data} {obj : Obj}

variable {f : Fields} {id : ℕ} {x : Endpoint}

theorem sameRow_insert (h : obj ≠ f.obj (data.nextId f)) : SameRow data (data.insert f) obj := by
  cases f <;> cases obj <;>
    first
    | rfl
    | exact fields?_put_of_ne _ fun hid => h (by rw [hid]; rfl)

theorem sameRow_update (h : obj ≠ f.obj id) : SameRow data (data.update id f) obj := by
  cases f <;> cases obj <;>
    first
    | rfl
    | exact fields?_set_of_ne _ fun hid => h (by rw [hid]; rfl)

theorem sameRow_delete {gone : Obj} (h : obj ≠ gone) : SameRow data (data.delete gone) obj := by
  cases gone <;> cases obj <;>
    first
    | rfl
    | exact fields?_remove_of_ne fun hid => h (by rw [hid])

theorem has_insert (h : data.has obj = true) : (data.insert f).has obj = true := by
  cases f <;> cases obj <;> simp_all [Data.has, Data.insert, fields?_put]

theorem has_update (h : data.has obj = true) : (data.update id f).has obj = true := by
  by_cases hobj : obj = f.obj id
  · subst hobj
    cases f <;> simp_all [Data.has, Data.update, Fields.obj, fields?_set_self]
  · rw [(sameRow_update hobj).has, h]

def Endpoint.obj? : Endpoint → Option Obj
  | .subject id => some (.subject id)
  | .verb id => some (.verb id)
  | .other _ _ => none

theorem label_of_sameRow {data' : Data} (h : ∀ obj, x.obj? = some obj → SameRow data data' obj) :
    data'.label env x = data.label env x := by
  cases x with
  | subject id => exact congrArg (Option.map Subject.canonicalName) (h _ rfl)
  | verb id => exact congrArg (Option.map Verb.canonicalName) (h _ rfl)
  | other kind id => rfl

theorem label_insert (h : (Edit.insert f).relabelled data ≠ some x) :
    (data.insert f).label env x = data.label env x := by
  refine label_of_sameRow fun obj hobj => sameRow_insert fun hnew => h ?_
  subst hnew
  cases f <;> cases x <;> simp_all [Endpoint.obj?, Fields.obj, Data.nextId, Edit.relabelled]

theorem label_update (h : (Edit.update id f).relabelled data ≠ some x) :
    (data.update id f).label env x = data.label env x := by
  by_cases hx : x.obj? = some (f.obj id)
  · -- the object itself: if it is not relabelled, it has the name that it had
    cases f <;> cases x <;> cases hx
    case subject.subject.refl f =>
      refine map_fields?_set (fun old hold => ?_) id
      by_contra hname
      exact h (by simp [Edit.relabelled, Option.mem_def.mp hold, hname])
    case verb.verb.refl f =>
      refine map_fields?_set (fun old hold => ?_) id
      by_contra hname
      exact h (by simp [Edit.relabelled, Option.mem_def.mp hold, hname])
  · exact label_of_sameRow fun obj hobj => sameRow_update fun hsame => hx (hsame ▸ hobj)

theorem label_delete (hhas : data.has obj = true) (h : (Edit.delete obj).relabelled data ≠ some x) :
    (data.delete obj).label env x = data.label env x := by
  refine label_of_sameRow fun obj' hobj => sameRow_delete fun hgone => h ?_
  subst hgone
  cases x <;> cases hobj <;> simp [Edit.relabelled, hhas]

end

/-- What an edit and its trigger leave: of each vector that is still there, the object is queued or
its row and its attributes are as they were. -/
structure Edited (env : Env) (s : Store) (e : Edit) (s' : Store) : Prop where
  embeddings : ∀ r ∈ s'.embeddings, r ∈ s.embeddings
  has : ∀ r ∈ s'.embeddings, s.data.has r.obj = true → s'.data.has r.obj = true
  dirty : ∀ r ∈ s'.embeddings, s.IsDirty r.obj → s'.IsDirty r.obj
  same : ∀ r ∈ s'.embeddings, s'.IsDirty r.obj ∨
    SameRow s.data s'.data r.obj ∧ s'.data.attributesOf r.obj = s.data.attributesOf r.obj
  label : ∀ x, e.relabelled s.data ≠ some x → s'.data.label env x = s.data.label env x

theorem Edited.refl (e : Edit) : Edited env s e s where
  embeddings _ hr := hr
  has _ _ h := h
  dirty _ _ h := h
  same r _ := .inr ⟨by cases r.obj <;> rfl, rfl⟩
  label _ _ := rfl

theorem Edited.marked {reason : String} {data : Data}
    (hhas : ∀ x, s.data.has x = true → data.has x = true)
    (hrow : ∀ x, x ≠ obj → SameRow s.data data x) (hattr : data.attributes = s.data.attributes)
    (hlabel : ∀ x, e.relabelled s.data ≠ some x → data.label env x = s.data.label env x) :
    Edited env s e (embeddingDirtyMark now obj reason { s with data := data }) where
  embeddings _ hr := hr
  has r _ h := hhas r.obj h
  dirty _ _ h := isDirty_mark.mpr (.inr h)
  same r _ := by
    by_cases hobj : r.obj = obj
    · exact .inl (isDirty_mark.mpr (.inl hobj))
    refine .inr ⟨hrow r.obj hobj, ?_⟩
    show data.attributesOf r.obj = _
    unfold Data.attributesOf
    rw [hattr]
  label := hlabel

theorem edited_delete (hhas : s.data.has obj = true) :
    Edited env s (.delete obj) (embeddingDirtyPurge obj { s with data := s.data.delete obj }) where
  embeddings _ hr := (mem_deleteWhere.mp hr).1
  has r hr h := by
    have hne : r.obj ≠ obj := by simpa using (mem_deleteWhere.mp hr).2
    exact (sameRow_delete hne).has.trans h
  dirty r hr := by
    rintro ⟨d, hd, hobj⟩
    have hne : r.obj ≠ obj := by simpa using (mem_deleteWhere.mp hr).2
    exact ⟨d, mem_deleteWhere.mpr ⟨hd, by simpa [hobj] using hne⟩, hobj⟩
  same r hr := by
    have hne : r.obj ≠ obj := by simpa using (mem_deleteWhere.mp hr).2
    exact .inr ⟨sameRow_delete hne, by cases obj <;> rfl⟩
  label _ h := label_delete hhas h

theorem Edited.attributes {e : Edit} {now : ℕ} {old new : Option Attribute}
    {attributes : Records Attribute}
    (hattr : ∀ x, (∀ a ∈ old, a.target ≠ some x) → (∀ a ∈ new, a.target ≠ some x) →
      attributes.rows.filter (·.fields.target == some x) =
        s.data.attributes.rows.filter (·.fields.target == some x)) :
    Edited env s e (embeddingDirtyAttributeTg now old new
      { s with data := { s.data with attributes := attributes } }) := by
  have hqueued : ∀ x, (embeddingDirtyAttributeTg now old new
      { s with data := { s.data with attributes := attributes } }).IsDirty x ↔
        (∃ a ∈ old, a.target = some x) ∨ (∃ a ∈ new, a.target = some x) ∨ s.IsDirty x :=
    fun _ => isDirty_attributeTg
  obtain ⟨dirty, hdirty⟩ := attributeTg_eq now old new
    { s with data := { s.data with attributes := attributes } }
  rw [hdirty] at hqueued ⊢
  refine ⟨fun _ hr => hr, fun r _ h => ?_, fun r _ h => ?_, fun r _ => ?_, fun x _ => ?_⟩
  · cases hobj : r.obj <;> simpa [hobj, Data.has] using h
  · exact (hqueued r.obj).mpr (.inr (.inr h))
  · by_cases hold : ∃ a ∈ old, a.target = some r.obj
    · exact .inl ((hqueued r.obj).mpr (.inl hold))
    by_cases hnew : ∃ a ∈ new, a.target = some r.obj
    · exact .inl ((hqueued r.obj).mpr (.inr (.inl hnew)))
    refine .inr ⟨by cases r.obj <;> rfl, congrArg (List.map Row.fields) (hattr r.obj ?_ ?_)⟩
    · exact fun a ha heq => hold ⟨a, ha, heq⟩
    · exact fun a ha heq => hnew ⟨a, ha, heq⟩
  · cases x <;> rfl

/-- **What an edit leaves.** -/
theorem edit_spec (h : edit now s e = .ok s') : Edited env s e s' := by
  cases e with
  | insert f =>
    simp only [edit] at h
    split at h
    · cases h
      cases f <;> exact Edited.marked (fun x => has_insert) (fun x hx => sameRow_insert hx) rfl
        fun x hx => label_insert hx
    · cases h
  | update id f =>
    simp only [edit] at h
    split at h
    · split at h
      · cases h
        cases f <;> exact Edited.marked (fun x => has_update) (fun x hx => sameRow_update hx) rfl
          fun x hx => label_update hx
      · cases h
    · cases h
      exact Edited.refl _
  | delete obj =>
    simp only [edit] at h
    split at h
    · rename_i hhas
      split at h
      · cases h
      · cases h
        cases obj <;> exact edited_delete hhas
    · cases h
      exact Edited.refl _
  | insertAttribute a =>
    cases h
    refine Edited.attributes fun x _ hnew => ?_
    have hne : a.target ≠ some x := hnew a rfl
    simp [put, Serial.insert, filter_append, hne]
  | updateAttribute id a =>
    simp only [edit] at h
    split at h
    · cases h
      exact Edited.refl _
    rename_i old hget
    cases h
    refine Edited.attributes fun x hold hnew => filter_updateWhere_of_false fun r hr hid => ?_
    have hrow := Serial.eq_of_key hr (mem_of_fields? hget) (by simpa using hid)
    have hne : old.target ≠ some x := hold old rfl
    have hne' : a.target ≠ some x := hnew a rfl
    simp [hrow, hne, hne']
  | deleteAttribute id =>
    simp only [edit] at h
    split at h
    · cases h
      exact Edited.refl _
    rename_i old hget
    cases h
    refine Edited.attributes fun x hold _ => filter_deleteWhere_of_false fun r hr hid => ?_
    have hrow := Serial.eq_of_key hr (mem_of_fields? hget) (by simpa using hid)
    have hne : old.target ≠ some x := hold old rfl
    simp [hrow, hne]

/-! ## The invariant -/

/-- Vectors are fresh or queued, and they are of objects that exist. -/
structure Inv (env : Env) (s : Store) : Prop where
  fresh : Fresh env s
  there : ∀ r ∈ s.embeddings, s.data.has r.obj = true

theorem inv_empty : Inv env System.empty.store :=
  ⟨forall_mem_nil _, forall_mem_nil _⟩

theorem inv_edit (h : Inv env s) (hedit : Edited env s e s')
    (htimely : ∀ x ∈ e.relabelled s.data, ∀ st ∈ s.data.statements.rows,
      st.fields.mentions x = true → ∀ r ∈ s.embeddings, r.obj = .statement st.id →
        s.IsDirty r.obj) : Inv env s' := by
  refine ⟨fun r hr => ?_, fun r hr => hedit.has r hr (h.there r (hedit.embeddings r hr))⟩
  have hold := hedit.embeddings r hr
  rcases hedit.same r hr with hdirty | ⟨hrow, hattr⟩
  · exact .inr hdirty
  by_cases hdirty : s.IsDirty r.obj
  · exact .inr (hedit.dirty r hr hdirty)
  -- the object is not queued, so a statement's card asks for no label that was changed
  have hcard : card env s'.data r.obj = card env s.data r.obj := by
    refine card_congr hrow hattr fun id st hobj hst x hx => hedit.label x fun hlabel => ?_
    exact hdirty (htimely x hlabel ⟨id, st⟩ (mem_of_fields? hst) hx r hold hobj)
  rw [hcard]
  exact .inl ((h.fresh r hold).resolve_right hdirty)

theorem isDirty_complete {generation : ℕ} (h : s.IsDirty x) (hne : x ≠ obj) :
    (embeddingDirtyComplete obj generation s).IsDirty x := by
  obtain ⟨d, hd, rfl⟩ := h
  exact ⟨d, mem_deleteWhere.mpr ⟨hd, by simp [hne]⟩, rfl⟩

/-! ## Claims -/

theorem claimRow_fst (env : Env) (s : Store) (d : DirtyRow) :
    (claimRow env s d).1 = s ∨ (claimRow env s d).1 = embeddingDirtyComplete d.obj d.generation s ∧
        ∀ text ∈ card env s.data d.obj, s.hasHash d.obj (env.sha256 text) = true := by
  unfold claimRow
  cases hcard : card env s.data d.obj with
  | none => exact .inr ⟨rfl, by simp⟩
  | some text =>
    by_cases hhash : s.hasHash d.obj (env.sha256 text) = true
    · exact .inr ⟨by simp [hhash], by simpa using hhash⟩
    · exact .inl (by simp [hhash])

theorem inv_claimRow (h : Inv env s) {d : DirtyRow} (hsettled : Settled env s d.obj) :
    Inv env (claimRow env s d).1 := by
  rcases claimRow_fst env s d with hsame | ⟨hretired, hhash⟩
  · rw [hsame]
    exact h
  rw [hretired]
  refine ⟨fun r hr => ?_, h.there⟩
  by_cases hobj : r.obj = d.obj
  · obtain ⟨text, htext⟩ : ∃ text, card env s.data r.obj = some text :=
      Option.isSome_iff_exists.mp ((card_isSome env s.data r.obj).trans (h.there r hr))
    have hsource := hsettled text (hobj ▸ htext) (hhash text (hobj ▸ htext)) r hr hobj
    exact .inl (htext.trans (congrArg some hsource.symm))
  · exact (h.fresh r hr).imp_right fun hdirty => isDirty_complete hdirty hobj

theorem settled_claimRow {d : DirtyRow} (h : Settled env s obj) :
    Settled env (claimRow env s d).1 obj := by
  rcases claimRow_fst env s d with hsame | ⟨hretired, -⟩
  · rw [hsame]
    exact h
  · rw [hretired]
    exact h

theorem inv_claimLoop :
    ∀ (rows : List DirtyRow) {s : Store}, Inv env s → (∀ d ∈ rows, Settled env s d.obj) →
      Inv env (claimLoop env rows s).1
  | [], _, h, _ => h
  | _ :: rows, _, h, hsettled => inv_claimLoop rows (inv_claimRow h (hsettled _ mem_cons_self))
      fun d hd => settled_claimRow (hsettled d (mem_cons_of_mem _ hd))

/-! ## Completions -/

theorem registerObjectEmbedding_eq_ok {source : String} {args : CompleteArgs}
    (h : registerObjectEmbedding env s obj source args = .ok s') :
    s.data.has obj = true ∧ ∃ row : EmbeddingRow, row.obj = obj ∧ args.space = some row.space ∧
      row.source = source ∧ s' = storeEmbedding row s := by
  unfold registerObjectEmbedding at h
  split at h
  · rename_i bytes dim space _ _ hspace
    split_ifs at h with hblank hlength hthere hdim
    cases h
    exact ⟨by simpa using hthere, ⟨obj, space, source, dim, args.model, args.contentHash⟩, rfl,
      hspace, rfl, rfl⟩
  · cases h

theorem mem_storeEmbedding {row r : EmbeddingRow} (h : r ∈ (storeEmbedding row s).embeddings) :
    r = row ∨ r ∈ s.embeddings ∧ (r.obj = row.obj → r.space ≠ row.space) := by
  rcases mem_upsert h with ⟨hold, hother⟩ | ⟨_, -, -, hnew⟩ | hnew
  · exact .inr ⟨hold, fun heq => by simpa [heq] using hother⟩
  · exact .inl hnew
  · exact .inl hnew

theorem inv_complete (h : Inv env s) {t : Ticket} {args : CompleteArgs}
    (hok : embeddingComplete env s t.obj t.generation t.cardText args = .ok s')
    (htimely : s.data.has t.obj = true → Current env s t args.space) : Inv env s' := by
  obtain ⟨s₁, hregister, rfl⟩ := map_eq_ok.mp hok
  obtain ⟨hhas, row, hobj, hspace, hsource, rfl⟩ := registerObjectEmbedding_eq_ok hregister
  refine ⟨fun r hr => ?_, fun r hr => ?_⟩
  · by_cases heq : r.obj = t.obj
    · rcases htimely hhas with ⟨d, hd, hdobj, hgen⟩ | ⟨hcard, hothers⟩
      · exact .inr ⟨d, mem_deleteWhere.mpr ⟨hd, by simp [hgen]⟩, hdobj.trans heq.symm⟩
      refine .inl ((congrArg (card env s.data) heq).trans (hcard.trans (congrArg some ?_)))
      rcases mem_storeEmbedding hr with rfl | ⟨hold, hother⟩
      · exact hsource.symm
      · have hne : some r.space ≠ args.space := by
          simpa [hspace] using hother (heq.trans hobj.symm)
        exact (hothers r hold heq hne).symm
    · rcases mem_storeEmbedding hr with rfl | ⟨hold, -⟩
      · exact absurd hobj heq
      · exact (h.fresh r hold).imp_right fun hdirty => isDirty_complete hdirty heq
  · rcases mem_storeEmbedding hr with rfl | ⟨hold, -⟩
    · exact hobj ▸ hhas
    · exact h.there r hold

/-! ## Runs -/

/-- **A timely step keeps the invariant.** -/
theorem inv_step (env : Env) (s : System) (op : Op) (h : Inv env s.store)
    (htimely : Timely env s op) : Inv env (s.step env op).store := by
  cases op with
  | edit now e =>
    simp only [System.step]
    cases hedit : edit now s.store e with
    | error err => exact h
    | ok s' => exact inv_edit h (edit_spec hedit) htimely
  | claim kinds limit locked => exact inv_claimLoop _ h htimely
  | complete ticket args =>
    simp only [System.step]
    cases hticket : s.tickets[ticket]? with
    | none => exact h
    | some t =>
      dsimp only
      cases hok : embeddingComplete env s.store t.obj t.generation t.cardText args with
      | error err => exact h
      | ok s' => exact inv_complete h hok (htimely t hticket)

/-- **In every run of timely steps, every vector is fresh or its object is queued.** -/
theorem embedding_fresh (env : Env) (ops : List Op)
    (htimely : Along (System.step env) (Timely env) System.empty ops) :
    Fresh env (run (System.step env) System.empty ops).store :=
  (run_induct (fun s op => inv_step env s op) System.empty ops inv_empty htimely).fresh

def plainEnv : Env := ⟨fun _ _ => none, fun _ => none, fun a b => a ≤ b, id, "tenant"⟩

/-- A person. -/
def person (name : String) : Fields := .subject ⟨name, "person", [], none⟩

/-- A vector of one dimension. -/
def vectorOf (text : String) : CompleteArgs :=
  { bytes := some 4, dim := some 1, contentHash := some text }

def timelyRun : List Op :=
  [.edit 1 (.insert (person "Ann")), .claim [] 64 [], .complete 0 (vectorOf "Ann\ntype: person"),
    .edit 2 (.update 1 (person "Bea")), .claim [] 64 [],
    .complete 1 (vectorOf "Bea\ntype: person")]

theorem embedding_fresh_timelyRun :
    Along (System.step plainEnv) (Timely plainEnv) System.empty timelyRun ∧
      Fresh plainEnv (run (System.step plainEnv) System.empty timelyRun).store ∧
      (run (System.step plainEnv) System.empty timelyRun).store.embeddings.map EmbeddingRow.source =
        ["Bea\ntype: person"] :=
  ⟨by decide +kernel, embedding_fresh plainEnv timelyRun (by decide +kernel), by decide +kernel⟩

def lateRun : List Op :=
  [.edit 1 (.insert (person "Ann")), .claim [] 64 [], .edit 2 (.update 1 (person "Bea")),
    .claim [] 64 [], .complete 1 (vectorOf "Bea\ntype: person"),
    .complete 0 (vectorOf "Ann\ntype: person")]

/-- **A late completion leaves a stale vector and an empty queue.** -/
theorem embedding_stale :
    let s := (run (System.step plainEnv) System.empty lateRun).store
    s.dirty = [] ∧ card plainEnv s.data (.subject 1) = some "Bea\ntype: person" ∧
      s.embeddings.map (fun r => (r.obj, r.source)) = [(.subject 1, "Ann\ntype: person")] ∧
      ¬ Fresh plainEnv s := by
  refine ⟨by decide +kernel, by decide +kernel, by decide +kernel, ?_⟩
  unfold Fresh
  decide +kernel

end MaluDb.Embedding
