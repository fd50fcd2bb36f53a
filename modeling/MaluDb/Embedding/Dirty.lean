import MaluDb.Embedding.Card
import MaluDb.Lib.Except
import MaluDb.Lib.Run

/-!
# The queue of stale cards

The table `malu$embedding_dirty`, the triggers that fill it, and the functions that claim and
complete its rows.

* An edit and its trigger are one step. Uniqueness constraints are left out: there are more runs.
* A claim hands out tickets. Its row locks end with its transaction, so a row can be claimed again
  while a ticket for it is out. Rows locked when a claim starts are skipped.
* An embedding row has the text that its vector was computed from in the place of the vector.
* `System` has all tickets ever handed out, which workers complete at any time and repeatedly.
-/

namespace MaluDb.Embedding

open MaluDb.Lib

/-! ## Tables -/

structure DirtyRow where
  obj : Obj
  generation : ℕ
  reason : String
  dirtySince : ℕ
  deriving DecidableEq

/-- A row of `malu$object_embedding` for an entity card. -/
structure EmbeddingRow where
  obj : Obj
  space : String
  source : String
  dim : Int
  model : Option String
  contentHash : Option String
  deriving DecidableEq

structure Store where
  data : Data
  dirty : List DirtyRow
  embeddings : List EmbeddingRow

/-- `_embedding_dirty_mark`. -/
def embeddingDirtyMark (now : ℕ) (obj : Obj) (reason : String) (s : Store) : Store :=
  let dirty := upsert (·.obj == obj)
    (fun d => { d with generation := d.generation + 1, dirtySince := now, reason := reason })
    ⟨obj, 1, reason, now⟩ s.dirty
  { s with dirty := dirty }

/-- `_embedding_dirty_purge`. -/
def embeddingDirtyPurge (obj : Obj) (s : Store) : Store :=
  { s with
    dirty := deleteWhere (·.obj == obj) s.dirty
    embeddings := deleteWhere (·.obj == obj) s.embeddings }

/-! ## Edits and their triggers -/

/-- `TG_OP`. -/
inductive TgOp where
  | insert
  | update
  | delete

section

variable (data : Data) (now : ℕ)

def embeddingDirtyTg (obj : Obj) (op : TgOp) (s : Store) : Store :=
  match op with
  | .delete => embeddingDirtyPurge obj s
  | .insert => embeddingDirtyMark now obj "created" s
  | .update => embeddingDirtyMark now obj "changed" s

def embeddingDirtySubjectTg (now id : ℕ) : TgOp → Store → Store :=
  embeddingDirtyTg now (.subject id)

/-- `_embedding_dirty_verb_tg`. -/
def embeddingDirtyVerbTg (now id : ℕ) : TgOp → Store → Store := embeddingDirtyTg now (.verb id)

def embeddingDirtyStatementTg (now id : ℕ) : TgOp → Store → Store :=
  embeddingDirtyTg now (.statement id)

def markTarget (target : Option Obj) (s : Store) : Store :=
  target.elim s fun obj => embeddingDirtyMark now obj "attribute" s

/-- `_embedding_dirty_attribute_tg`: a row that is given another target makes both stale. -/
def embeddingDirtyAttributeTg (old new : Option Attribute) (s : Store) : Store :=
  match old, new with
  | none, none => s
  | none, some new => markTarget now new.target s
  | some old, none => markTarget now old.target s
  | some old, some new =>
    let s := markTarget now new.target s
    if old.target = new.target then s else markTarget now old.target s

inductive Fields where
  | subject (f : Subject)
  | verb (f : Verb)
  | statement (f : Statement)

/-- An edit of the tables. -/
inductive Edit where
  | insert (f : Fields)
  | update (id : ℕ) (f : Fields)
  | delete (obj : Obj)
  | insertAttribute (a : Attribute)
  | updateAttribute (id : ℕ) (a : Attribute)
  | deleteAttribute (id : ℕ)

/-- The object with the columns `f` and the key `id`. -/
def Fields.obj (f : Fields) (id : ℕ) : Obj :=
  match f with
  | .subject _ => .subject id
  | .verb _ => .verb id
  | .statement _ => .statement id

/-- The next key for the columns `f`. -/
def Data.nextId : Fields → ℕ
  | .subject _ => data.subjects.next
  | .verb _ => data.verbs.next
  | .statement _ => data.statements.next

/-- The trigger for a row of `obj`'s table. -/
def Obj.trigger : Obj → TgOp → Store → Store
  | .subject id => embeddingDirtySubjectTg now id
  | .verb id => embeddingDirtyVerbTg now id
  | .statement id => embeddingDirtyStatementTg now id

def Data.insert : Fields → Data
  | .subject f => { data with subjects := data.subjects.put f }
  | .verb f => { data with verbs := data.verbs.put f }
  | .statement f => { data with statements := data.statements.put f }

def Data.update (id : ℕ) : Fields → Data
  | .subject f => { data with subjects := data.subjects.set id f }
  | .verb f => { data with verbs := data.verbs.set id f }
  | .statement f => { data with statements := data.statements.set id f }

def Data.delete : Obj → Data
  | .subject id => { data with subjects := data.subjects.remove id }
  | .verb id => { data with verbs := data.verbs.remove id }
  | .statement id => { data with statements := data.statements.remove id }

def Data.verbThere : Fields → Bool
  | .statement f => data.has (.verb f.verbId)
  | _ => true

/-- The foreign key of statements, from the side of a verb: `ON DELETE RESTRICT`. -/
def Data.inUse : Obj → Bool
  | .verb id => data.statements.rows.any (·.fields.verbId == id)
  | _ => false

end

/-! ## Errors -/

inductive EmbeddingError where
  | foreignKeyViolation
  | argumentsRequired
  | lengthMismatch (bytes : ℕ) (dim : Int)
  | targetNotFound (obj : Obj) (schema : String)
  | dimNotPositive

/-- One edit, with its trigger. -/
def edit (now : ℕ) (s : Store) : Edit → Except EmbeddingError Store
  | .insert f =>
    if s.data.verbThere f then
      .ok ((f.obj (s.data.nextId f)).trigger now .insert { s with data := s.data.insert f })
    else .error .foreignKeyViolation
  | .update id f =>
    -- an UPDATE of no row fires no trigger
    if s.data.has (f.obj id) then
      if s.data.verbThere f then
        .ok ((f.obj id).trigger now .update { s with data := s.data.update id f })
      else .error .foreignKeyViolation
    else .ok s
  | .delete obj =>
    if s.data.has obj then
      if s.data.inUse obj then .error .foreignKeyViolation
      else .ok (obj.trigger now .delete { s with data := s.data.delete obj })
    else .ok s
  | .insertAttribute a =>
    let attributes := s.data.attributes.put a
    .ok (embeddingDirtyAttributeTg now none (some a)
      { s with data := { s.data with attributes := attributes } })
  | .updateAttribute id a =>
    match s.data.attributes.fields? id with
    | none => .ok s
    | some old =>
      let attributes := s.data.attributes.set id a
      .ok (embeddingDirtyAttributeTg now (some old) (some a)
        { s with data := { s.data with attributes := attributes } })
  | .deleteAttribute id =>
    match s.data.attributes.fields? id with
    | none => .ok s
    | some old =>
      let attributes := s.data.attributes.remove id
      .ok (embeddingDirtyAttributeTg now (some old) none
        { s with data := { s.data with attributes := attributes } })

/-! ## Workers -/

structure Ticket where
  obj : Obj
  generation : ℕ
  cardText : String
  contentHash : String
  deriving DecidableEq

/-- The order of a claim: `dirty_since, object_kind, object_id`. -/
def DirtyRow.before (a b : DirtyRow) : Bool :=
  a.dirtySince < b.dirtySince || a.dirtySince == b.dirtySince && (a.obj.kind < b.obj.kind ||
    a.obj.kind == b.obj.kind && a.obj.id ≤ b.obj.id)

/-- The rows of a claim. -/
def claimRows (s : Store) (kinds : List String) (limit : Int) (locked : List Obj) :
    List DirtyRow :=
  let rows := s.dirty.filter fun d =>
    (kinds.isEmpty || kinds.contains d.obj.kind) && !locked.contains d.obj
  (rows.insertionSort fun a b => a.before b = true).take (max limit 1).toNat

/-- `DELETE … WHERE … AND d.generation = p_generation`: `embedding_dirty_complete`. -/
def embeddingDirtyComplete (obj : Obj) (generation : ℕ) (s : Store) : Store :=
  { s with dirty := deleteWhere (fun d => d.obj == obj && d.generation == generation) s.dirty }

def Store.hasHash (s : Store) (obj : Obj) (hash : String) : Bool :=
  s.embeddings.any fun r => r.obj == obj && r.contentHash == some hash

/-- The `INSERT … ON CONFLICT DO UPDATE` of `register_object_embedding`. -/
def storeEmbedding (row : EmbeddingRow) (s : Store) : Store :=
  let embeddings := upsert (fun r => r.obj == row.obj && r.space == row.space) (fun _ => row) row
    s.embeddings
  { s with embeddings := embeddings }

section

variable (env : Env)

/-- One turn of the loop of `embedding_dirty_claim`. -/
def claimRow (s : Store) (d : DirtyRow) : Store × Option Ticket :=
  match card env s.data d.obj with
  | none => (embeddingDirtyComplete d.obj d.generation s, none)
  | some text =>
    if s.hasHash d.obj (env.sha256 text) then
      (embeddingDirtyComplete d.obj d.generation s, none)
    else (s, some ⟨d.obj, d.generation, text, env.sha256 text⟩)

/-- The loop of `embedding_dirty_claim`. -/
def claimLoop : List DirtyRow → Store → Store × List Ticket
  | [], s => (s, [])
  | d :: rows, s =>
    let (s, ticket) := claimRow env s d
    let (s, tickets) := claimLoop rows s
    (s, ticket.toList ++ tickets)

/-- `embedding_dirty_claim`. -/
def embeddingDirtyClaim (s : Store) (kinds : List String) (limit : Int) (locked : List Obj) :
    Store × List Ticket :=
  claimLoop env (claimRows s kinds limit locked) s

/-- The arguments of `embedding_complete` besides the object and the generation. Of the vector, the
number of its bytes and the text that it was computed from. -/
structure CompleteArgs where
  bytes : Option ℕ
  dim : Option Int
  space : Option String := some "entity-v1"
  model : Option String := none
  contentHash : Option String := none

/-- `register_object_embedding` for an entity card. -/
def registerObjectEmbedding (s : Store) (obj : Obj) (source : String) (args : CompleteArgs) :
    Except EmbeddingError Store :=
  match args.bytes, args.dim, args.space with
  | some bytes, some dim, some space =>
    if btrim space = "" then .error .argumentsRequired
    else if (bytes : Int) ≠ dim * 4 then .error (.lengthMismatch bytes dim)
    else if !s.data.has obj then .error (.targetNotFound obj env.schema)
    else if dim ≤ 0 then .error .dimNotPositive
    else
      .ok (storeEmbedding ⟨obj, space, source, dim, args.model, args.contentHash⟩ s)
  | _, _, _ => .error .argumentsRequired

/-- `embedding_complete`. -/
def embeddingComplete (s : Store) (obj : Obj) (generation : ℕ) (source : String)
    (args : CompleteArgs) : Except EmbeddingError Store :=
  (registerObjectEmbedding env s obj source args).map (embeddingDirtyComplete obj generation)

end

/-! ## Runs -/

structure System where
  store : Store
  tickets : List Ticket

inductive Op where
  | edit (now : ℕ) (e : Edit)
  | claim (kinds : List String) (limit : Int) (locked : List Obj)
  | complete (ticket : ℕ) (args : CompleteArgs)

/-- No rows. -/
def System.empty : System :=
  ⟨⟨⟨Serial.empty, Serial.empty, Serial.empty, Serial.empty⟩, [], []⟩, []⟩

def System.step (env : Env) (s : System) : Op → System
  | .edit now e => { s with store := commitOr s.store (edit now s.store e) }
  | .claim kinds limit locked =>
    let (store, tickets) := embeddingDirtyClaim env s.store kinds limit locked
    ⟨store, s.tickets ++ tickets⟩
  | .complete ticket args =>
    match s.tickets[ticket]? with
    | none => s
    | some t =>
      let result := embeddingComplete env s.store t.obj t.generation t.cardText args
      { s with store := commitOr s.store result }

end MaluDb.Embedding
