import MaluDb.Lib.BoundedHeap
import MaluDb.Lib.Except
import MaluDb.Vector.Ops

/-!
# The parallel top-k aggregate

`src/maludb_topk.c`, the aggregate `topk_vector_search` and its parallel plans.

* `sfunc` drops rows with a NULL argument, creates the state on the first other row (which is where
  `k <= 0` and an unknown metric raise) and offers the row.
* A message is a list of cells (`Cell`): an integer or a double of the protocol, a component of a
  vector, a byte of a text. The length fields say how many cells belong to the query and to a text.
  A kept text is never empty, which is what lets a length of zero stand for NULL.
* `state_new` raises if the array of the heap is larger than the server allocates at once
  (`maxAllocSize`), that is from a limit of 26843546 on.
* `finalize` prints the numbers into JSON, which raises for NaN and the infinities (`Arith.json`).
* `Plan` is how the rows reach the final state: a backend scans a list of rows in some order, a
  worker's state is shipped to the leader, two states are combined. A NULL state is shipped as NULL.
-/

namespace MaluDb.Vector

open MaluDb.Lib MaluDb.Lib.Heap List

/-! ## Entries and the bounded heap -/

/-- `HeapEntry`; `T` is the type of a text that is kept. -/
structure HeapEntry (T D : Type) where
  chunkId : Int
  sourceText : Option T
  distance : D
  similarity : D
  deriving DecidableEq, Repr

/-- A text `state_offer` keeps: one of positive length. -/
abbrev KeptText := {s : String // s ≠ ""}

/-- `if (txt && txt_len > 0)`: an empty text is stored as NULL. -/
def keptText : Option String → Option KeptText
  | some s => if h : s = "" then none else some ⟨s, h⟩
  | none => none

section

variable {T D : Type} [LT D] [DecidableLT D]

/-- The heap part of `state_offer`, and of the scan loop of `maludb_exact_vector_search_c`. -/
def stateOffer (cap : Nat) (heap : List (HeapEntry T D)) (e : HeapEntry T D) :
    List (HeapEntry T D) :=
  push (keyAbove HeapEntry.distance) cap heap e

/-- `cmp_distance_asc`. -/
def cmpDistanceAsc (a b : HeapEntry T D) : Int :=
  if a.distance < b.distance then -1
  else if b.distance < a.distance then 1
  else if a.chunkId < b.chunkId then -1
  else if b.chunkId < a.chunkId then 1
  else 0

/-- `qsort(heap, n, sizeof(HeapEntry), cmp_distance_asc)`. -/
def qsortHeap (heap : List (HeapEntry T D)) : List (HeapEntry T D) :=
  heap.insertionSort fun a b => cmpDistanceAsc a b ≤ 0

end

/-! ## The aggregate's functions -/

/-- `TopKState`; `n` is the length of `heap` and `qdim` that of `qvec`. -/
structure TopKState (F D : Type) where
  capacity : Int
  metric : Metric
  qvec : Vec F
  heap : List (HeapEntry KeptText D)
  deriving DecidableEq, Repr

/-- The arguments of the aggregate that vary by row; `none` is NULL. -/
structure TopKRow (F : Type) where
  embedding : Option (Vec F)
  chunkId : Option Int
  sourceText : Option String
  deriving DecidableEq, Repr

structure TopKArgs (F : Type) where
  query : Option (Vec F)
  k : Option Int
  metric : Option String

section

variable {F D : Type} [LT D] [DecidableLT D] (ar : Arith F D)

/-- Offer `e` to a state. -/
def TopKState.offer (s : TopKState F D) (e : HeapEntry KeptText D) : TopKState F D :=
  { s with heap := stateOffer s.capacity.toNat s.heap e }

/-- `state_new`: an entry of the heap has 40 bytes. -/
def stateNew (k : Int) (metric : Metric) : Except VectorError (TopKState F D) :=
  (palloc (40 * max k 1)).map fun _ => ⟨k, metric, [], []⟩

/-- The state that `maludb_topk_vector_sfunc` makes for the first row. -/
def firstState (q : Vec F) (k : Int) (m : String) : Except VectorError (TopKState F D) :=
  if k ≤ 0 then .error .topkLimitNotPositive
  else
    match parseMetric m with
    | .error e => .error e
    | .ok metric => (stateNew k metric).map fun s : TopKState F D => { s with qvec := q }

/-- `compute_distance` and `state_offer` of one row. -/
def TopKState.accept (s : TopKState F D) (emb : Vec F) (chunkId : Int) (txt : Option String) :
    Except VectorError (TopKState F D) :=
  (computeDistance ar s.metric s.qvec emb).map fun dist =>
    s.offer ⟨chunkId, keptText txt, dist, similarityOf ar s.metric dist⟩

/-- `maludb_topk_vector_sfunc`. -/
def sfunc (a : TopKArgs F) (state : Option (TopKState F D)) (row : TopKRow F) :
    Except VectorError (Option (TopKState F D)) :=
  match row.embedding, row.chunkId, a.query, a.k, a.metric with
  | some emb, some chunkId, some q, some k, some m =>
    match state with
    | some s => (s.accept ar emb chunkId row.sourceText).map some
    | none =>
      match firstState q k m with
      | .error e => .error e
      | .ok s => (s.accept ar emb chunkId row.sourceText).map some
  | _, _, _, _, _ => .ok state

/-- `maludb_topk_vector_combine`: offer every entry of the second heap to the first. -/
def combine : Option (TopKState F D) → Option (TopKState F D) → Option (TopKState F D)
  | none, b => b
  | some a, none => some a
  | some a, some b => some (b.heap.foldl TopKState.offer a)

/-- A piece of a `pq_send*` message. -/
inductive Cell (F D : Type) where
  | int32 (n : Int)
  | int64 (n : Int)
  | float8 (d : D)
  | float (x : F)
  | byte (b : UInt8)

def Cell.float? : Cell F D → Option F
  | .float x => some x
  | _ => none

def Cell.byte? : Cell F D → Option UInt8
  | .byte b => some b
  | _ => none

/-- The bytes of `source_text`. -/
def textBytes : Option KeptText → List UInt8
  | none => []
  | some t => t.1.toByteArray.data.toList

/-- What `maludb_topk_vector_serialize` sends of an entry. -/
def sendEntry (e : HeapEntry KeptText D) : List (Cell F D) :=
  [.int64 e.chunkId, .float8 e.distance, .float8 e.similarity,
    .int32 (textBytes e.sourceText).length] ++ (textBytes e.sourceText).map .byte

/-- `maludb_topk_vector_serialize`. -/
def serialize (s : TopKState F D) : List (Cell F D) :=
  [.int32 s.capacity, .int32 s.heap.length, .int32 s.metric.code, .int32 s.qvec.length] ++
    s.qvec.map .float ++ s.heap.flatMap sendEntry

/-- `pq_copymsgbytes`: the next `n` cells, each read by `get`, and the rest of the message. -/
def copyMsg {α : Type} (get : Cell F D → Option α) :
    Nat → List (Cell F D) → Except VectorError (List α × List (Cell F D))
  | 0, msg => .ok ([], msg)
  | _ + 1, [] => .error .insufficientData
  | n + 1, c :: msg =>
    match get c with
    | none => .error .invalidMessage
    | some a => (copyMsg get n msg).map fun r => (a :: r.1, r.2)

/-- Read `n` heap entries; the rest of the message must be empty (`pq_getmsgend`). -/
def readEntries : Nat → List (Cell F D) → Except VectorError (List (HeapEntry KeptText D))
  | 0, [] => .ok []
  | 0, _ => .error .invalidMessage
  | n + 1, .int64 cid :: .float8 d :: .float8 sim :: .int32 slen :: msg =>
    match copyMsg Cell.byte? slen.toNat msg with
    | .error e => .error e
    | .ok (bytes, msg) =>
      (readEntries n msg).map
        (⟨cid, keptText (String.fromUTF8? ⟨bytes.toArray⟩), d, sim⟩ :: ·)
  | _ + 1, _ => .error .insufficientData

/-- `maludb_topk_vector_deserialize`. -/
def deserialize : List (Cell F D) → Except VectorError (TopKState F D)
  | .int32 k :: .int32 n :: .int32 metric :: .int32 qdim :: msg =>
    match (stateNew k (Metric.ofCode metric) : Except VectorError (TopKState F D)) with
    | .error e => .error e
    | .ok s =>
      match copyMsg Cell.float? qdim.toNat msg with
      | .error e => .error e
      | .ok (q, msg) => (readEntries n.toNat msg).map fun heap => { s with qvec := q, heap }
  | _ => .error .insufficientData

/-- A row of the result. -/
structure ResultRow (D : Type) where
  chunkId : Int
  sourceText : Option String
  distance : D
  similarity : D
  rankNo : Nat
  deriving DecidableEq, Repr

/-- The numbers of an entry as `jsonb_in` reads them. -/
def jsonEntry (e : HeapEntry KeptText D) : Except VectorError (HeapEntry KeptText D) :=
  match ar.json e.distance, ar.json e.similarity with
  | some distance, some similarity => .ok { e with distance, similarity }
  | _, _ => .error .invalidJson

/-- `maludb_topk_vector_finalize`: NULL for a NULL state. -/
def finalize : Option (TopKState F D) → Except VectorError (Option (List (ResultRow D)))
  | none => .ok none
  | some s => ((qsortHeap s.heap).mapM (jsonEntry ar)).map fun es => some (es.mapIdx fun i e =>
      ⟨e.chunkId, e.sourceText.map Subtype.val, e.distance, e.similarity, i + 1⟩)

/-! ## Parallel plans -/

inductive Plan (R : Type) where
  | scan (rows : List R)
  | ship (p : Plan R)
  | combine (l r : Plan R)
  deriving Repr

/-- The rows of a plan. -/
def Plan.rows {R : Type} : Plan R → List R
  | .scan rows => rows
  | .ship p => p.rows
  | .combine l r => l.rows ++ r.rows

/-- The state a plan computes. -/
def partialState (a : TopKArgs F) : Plan (TopKRow F) → Except VectorError (Option (TopKState F D))
  | .scan rows => rows.foldlM (sfunc ar a) none
  | .ship p =>
    match partialState a p with
    | .error e => .error e
    | .ok none => .ok none
    | .ok (some s) => (deserialize (serialize s)).map some
  | .combine l r =>
    match partialState a l, partialState a r with
    | .ok sl, .ok sr => .ok (Vector.combine sl sr)
    | .error e, _ => .error e
    | .ok _, .error e => .error e

/-- The aggregate `topk_vector_search` under a plan. -/
def topkVectorSearch (a : TopKArgs F) (p : Plan (TopKRow F)) :
    Except VectorError (Option (List (ResultRow D))) :=
  match partialState ar a p with
  | .error e => .error e
  | .ok st => finalize ar st

end

/-! ## Shipping a state -/

section

variable {F D : Type}

theorem stateNew_eq_ok {k : Int} {metric : Metric} {s : TopKState F D} :
    stateNew k metric = .ok s ↔ 40 * max k 1 ≤ maxAllocSize ∧ s = ⟨k, metric, [], []⟩ := by
  unfold stateNew
  rw [map_eq_ok]
  constructor
  · rintro ⟨_, halloc, rfl⟩
    exact ⟨palloc_eq_ok.mp halloc, rfl⟩
  · rintro ⟨halloc, rfl⟩
    exact ⟨(), palloc_eq_ok.mpr halloc, rfl⟩

theorem firstState_eq_ok {q : Vec F} {k : Int} {m : String} {s : TopKState F D} :
    firstState q k m = .ok s ↔ 0 < k ∧ 40 * k ≤ maxAllocSize ∧
      ∃ metric, parseMetric m = .ok metric ∧ s = ⟨k, metric, q, []⟩ := by
  unfold firstState
  split
  · rename_i hk
    exact ⟨nofun, fun h => absurd h.1 (by omega)⟩
  rename_i hk
  have hmax : max k 1 = k := max_eq_left (by omega)
  split
  · rename_i hm
    refine ⟨nofun, ?_⟩
    rintro ⟨-, -, metric, hmetric, -⟩
    rw [hm] at hmetric
    cases hmetric
  rename_i metric hm
  rw [map_eq_ok]
  constructor
  · rintro ⟨s₀, hnew, rfl⟩
    obtain ⟨halloc, rfl⟩ := stateNew_eq_ok.mp hnew
    rw [hmax] at halloc
    exact ⟨by omega, halloc, metric, hm, rfl⟩
  · rintro ⟨-, halloc, metric', hmetric, rfl⟩
    cases hm.symm.trans hmetric
    exact ⟨⟨k, metric, [], []⟩, stateNew_eq_ok.mpr ⟨hmax.symm ▸ halloc, rfl⟩, rfl⟩

@[simp] theorem keptText_val (t : KeptText) : keptText (some t.1) = some t :=
  dif_neg t.2

/-- **As many cells as the length field says are read back.** -/
theorem copyMsg_append {α : Type} {get : Cell F D → Option α} (put : α → Cell F D)
    (h : ∀ a, get (put a) = some a) (msg : List (Cell F D)) :
    ∀ l : List α, copyMsg get l.length (l.map put ++ msg) = .ok (l, msg)
  | [] => rfl
  | a :: l => by
    rw [length_cons, map_cons, cons_append, copyMsg, h]
    dsimp only
    rw [copyMsg_append put h msg l]
    rfl

theorem fromUTF8?_toByteArray (t : String) :
    String.fromUTF8? ⟨t.toByteArray.data.toList.toArray⟩ = some t := by
  rw [Array.toArray_toList]
  exact dif_pos t.isValidUTF8

/-- The text that is read from the bytes that were sent. -/
theorem keptText_textBytes (t : Option KeptText) :
    keptText (String.fromUTF8? ⟨(textBytes t).toArray⟩) = t := by
  cases t with
  | none => rfl
  | some t =>
    rw [textBytes, fromUTF8?_toByteArray, keptText_val]

theorem readEntries_flatMap :
    ∀ es : List (HeapEntry KeptText D),
      readEntries es.length (es.flatMap (sendEntry (F := F))) = .ok es
  | [] => rfl
  | ⟨cid, text, d, sim⟩ :: es => by
    rw [length_cons, flatMap_cons, sendEntry]
    simp only [cons_append, nil_append, readEntries, Int.toNat_natCast]
    rw [copyMsg_append .byte fun _ => rfl]
    dsimp only
    rw [readEntries_flatMap es, keptText_textBytes]
    rfl

/-- **Shipping a state does not change it.** -/
theorem deserialize_serialize {s : TopKState F D} (h : 40 * max s.capacity 1 ≤ maxAllocSize) :
    deserialize (serialize s) = .ok s := by
  obtain ⟨capacity, metric, qvec, heap⟩ := s
  rw [serialize]
  simp only [cons_append, nil_append, deserialize, Metric.ofCode_code, Int.toNat_natCast]
  rw [stateNew_eq_ok.mpr ⟨h, rfl⟩]
  dsimp only
  rw [copyMsg_append .float fun _ => rfl]
  dsimp only
  rw [readEntries_flatMap]
  rfl

end

/-! ## The states of an aggregate -/

section

variable {F D : Type}

theorem jsonEntry_eq_ok {ar : Arith F D} {e e' : HeapEntry KeptText D} :
    jsonEntry ar e = .ok e' ↔ ar.json e.distance = some e'.distance ∧
      ar.json e.similarity = some e'.similarity ∧ e'.chunkId = e.chunkId ∧
        e'.sourceText = e.sourceText := by
  obtain ⟨cid, text, d, sim⟩ := e
  obtain ⟨cid', text', d', sim'⟩ := e'
  unfold jsonEntry
  dsimp only
  cases ar.json d with
  | none => simp
  | some x =>
    cases ar.json sim with
    | none => simp
    | some y =>
      simp only [Except.ok.injEq, HeapEntry.mk.injEq, Option.some.injEq]
      exact ⟨fun ⟨hc, ht, hd, hs⟩ => ⟨hd, hs, hc.symm, ht.symm⟩,
        fun ⟨hd, hs, hc, ht⟩ => ⟨hc.symm, ht.symm, hd, hs⟩⟩

end


section

variable {F D : Type} [LT D] [DecidableLT D] {ar : Arith F D} {s : TopKState F D}

/-- The states that offers of rows and combines lead to. -/
inductive Reached (ar : Arith F D) : TopKState F D → Prop
  | row {a : TopKArgs F} {state : Option (TopKState F D)} {row : TopKRow F} {s : TopKState F D}
    (hstate : ∀ s₀, state = some s₀ → Reached ar s₀) (h : sfunc ar a state row = .ok (some s)) :
    Reached ar s
  | combine {s t u : TopKState F D} (hs : Reached ar s) (ht : Reached ar t)
    (h : combine (some s) (some t) = some u) : Reached ar u

/-- The entries fit in the array that `state_new` allocates, and it does allocate it. -/
structure TopKState.Fits (s : TopKState F D) : Prop where
  pos : 0 < s.capacity
  alloc : 40 * s.capacity ≤ maxAllocSize
  room : s.heap.length ≤ s.capacity

theorem TopKState.Fits.offer (h : s.Fits) (e : HeapEntry KeptText D) : (s.offer e).Fits := by
  have hlen := length_push (keyAbove HeapEntry.distance) s.capacity.toNat s.heap e
  have hheap := h.room
  refine ⟨h.pos, h.alloc, ?_⟩
  show ((push _ _ s.heap e).length : Int) ≤ s.capacity
  split at hlen <;> omega

omit [LT D] [DecidableLT D] in
theorem TopKState.Fits.ship (h : s.Fits) : deserialize (serialize s) = .ok s := by
  refine deserialize_serialize ?_
  rw [max_eq_left (by have := h.pos; omega)]
  exact h.alloc

omit [LT D] [DecidableLT D] in
theorem firstState_fits {q : Vec F} {k : Int} {m : String} (h : firstState q k m = .ok s) :
    s.Fits := by
  obtain ⟨hpos, halloc, metric, -, rfl⟩ := firstState_eq_ok.mp h
  exact ⟨hpos, halloc, hpos.le⟩

theorem sfunc_fits {a : TopKArgs F} {state : Option (TopKState F D)} {row : TopKRow F}
    (hstate : ∀ s₀, state = some s₀ → s₀.Fits) (h : sfunc ar a state row = .ok (some s)) :
    s.Fits := by
  have haccept : ∀ {s₀ : TopKState F D} {emb cid}, s₀.Fits →
      (s₀.accept ar emb cid row.sourceText).map some = .ok (some s) → s.Fits := by
    intro s₀ emb cid hfits h
    obtain ⟨_, hmap, ⟨⟩⟩ := map_eq_ok.mp h
    obtain ⟨dist, -, rfl⟩ := map_eq_ok.mp hmap
    exact hfits.offer _
  unfold sfunc at h
  split at h
  · split at h
    · exact haccept (hstate _ rfl) h
    split at h
    · cases h
    rename_i s₀ hfirst
    exact haccept (firstState_fits hfirst) h
  · cases h
    exact hstate s rfl

theorem combine_fits {a b : Option (TopKState F D)} (ha : ∀ s₀, a = some s₀ → s₀.Fits)
    (hb : ∀ s₀, b = some s₀ → s₀.Fits) (h : combine a b = some s) : s.Fits := by
  match a, b, h with
  | none, some b, rfl => exact hb _ rfl
  | some a, none, rfl => exact ha _ rfl
  | some a, some b, rfl => exact foldlRecOn _ _ (ha a rfl) fun s hs e _ => hs.offer e

theorem Reached.fits (h : Reached ar s) : s.Fits := by
  induction h with
  | row _ h ih => exact sfunc_fits ih h
  | combine _ _ h hs ht =>
    refine combine_fits ?_ ?_ h
    · rintro _ ⟨⟩
      exact hs
    · rintro _ ⟨⟩
      exact ht

/-- **The message of a state gives the state back**, and its entries fit in the array allocated for
them. -/
theorem reached_roundTrip (h : Reached ar s) : deserialize (serialize s) = .ok s ∧ s.Fits :=
  ⟨h.fits.ship, h.fits⟩

/-- A query without dimensions. -/
def noDims : TopKArgs Int := ⟨some [], some 2, some "l2"⟩

/-- The state after a row with a text. -/
def oneText : TopKState Int Int := ⟨2, .l2, [], [⟨7, keptText (some "ab"), 0, 0⟩]⟩

/-- The state after one more row, which has no text. -/
def twoTexts : TopKState Int Int := ⟨2, .l2, [], [⟨7, keptText (some "ab"), 0, 0⟩, ⟨8, none, 0, 0⟩]⟩

theorem reached_roundTrip_noDims :
    Reached intArith twoTexts ∧ deserialize (serialize twoTexts) = .ok twoTexts ∧
      twoTexts.Fits := by
  have hone : Reached intArith oneText :=
    .row (fun s₀ (h : none = some s₀) => nomatch h)
      (rfl : sfunc intArith noDims none ⟨some [], some 7, some "ab"⟩ = .ok (some oneText))
  have htwo : Reached intArith twoTexts := by
    refine .row (fun s₀ h => ?_)
      (rfl : sfunc intArith noDims (some oneText) ⟨some [], some 8, none⟩ = .ok (some twoTexts))
    cases h
    exact hone
  exact ⟨htwo, reached_roundTrip htwo⟩

end

/-! ## Where the entries come from

These hold for any `<` on the distances, NaN included. -/

section

variable {F D : Type}

def heapOf : Option (TopKState F D) → List (HeapEntry KeptText D)
  | none => []
  | some s => s.heap

variable [LT D] [DecidableLT D] {ar : Arith F D} {a : TopKArgs F}

theorem foldl_offer (es : List (HeapEntry KeptText D)) (s : TopKState F D) :
    es.foldl TopKState.offer s =
      { s with heap := pushAll (keyAbove HeapEntry.distance) s.capacity.toNat s.heap es } := by
  induction es generalizing s with
  | nil => rfl
  | cons e es ih =>
    rw [foldl_cons, ih]
    rfl

theorem accept_mem {s s' : TopKState F D} {emb : Vec F} {cid : Int} {txt : Option String}
    (h : s.accept ar emb cid txt = .ok s') {e : HeapEntry KeptText D} (he : e ∈ s'.heap) :
    e ∈ s.heap ∨ e.chunkId = cid := by
  obtain ⟨dist, -, rfl⟩ := map_eq_ok.mp h
  rcases mem_of_mem_push he with rfl | he
  · exact .inr rfl
  · exact .inl he

theorem sfunc_mem {st st' : Option (TopKState F D)} {row : TopKRow F}
    (h : sfunc ar a st row = .ok st') {e : HeapEntry KeptText D} (he : e ∈ heapOf st') :
    e ∈ heapOf st ∨ row.chunkId = some e.chunkId := by
  unfold sfunc at h
  split at h
  · rename_i emb cid q k m _ hcid _ _ _
    rw [hcid]
    split at h
    · obtain ⟨s', hacc, rfl⟩ := map_eq_ok.mp h
      exact (accept_mem hacc he).imp_right fun e => by rw [e]
    split at h
    · cases h
    rename_i s hfirst
    obtain ⟨s', hacc, rfl⟩ := map_eq_ok.mp h
    obtain ⟨-, -, metric, -, rfl⟩ := firstState_eq_ok.mp hfirst
    exact (accept_mem hacc he).imp_right fun e => by rw [e]
  · cases h
    exact .inl he

theorem scan_mem {rows : List (TopKRow F)} {st : Option (TopKState F D)}
    (h : rows.foldlM (sfunc ar a) none = .ok st) {e : HeapEntry KeptText D}
    (he : e ∈ heapOf st) : ∃ row ∈ rows, row.chunkId = some e.chunkId := by
  refine foldlM_induct (I := fun st => ∀ e ∈ heapOf st, ∃ row ∈ rows, row.chunkId = some e.chunkId)
    (fun row hrow b b' hb hs e he => ?_) (forall_mem_nil _) h e he
  rcases sfunc_mem hs he with he | hid
  · exact hb e he
  · exact ⟨row, hrow, hid⟩

/-- The state of a plan fits in its array. -/
theorem partialState_fits :
    ∀ {p : Plan (TopKRow F)} {s : TopKState F D}, partialState ar a p = .ok (some s) → s.Fits
  | .scan rows, s, h => by
    refine foldlM_induct (I := fun st : Option (TopKState F D) => ∀ s, st = some s → s.Fits)
      ?_ (fun _ h => by cases h) h s rfl
    intro row _ st st' hst hstep s hs
    rw [hs] at hstep
    exact sfunc_fits hst hstep
  | .ship p, s, h => by
    rw [partialState] at h
    split at h
    · cases h
    · cases h
    rename_i s₀ hs₀
    have hfits := partialState_fits hs₀
    rw [hfits.ship] at h
    cases h
    exact hfits
  | .combine l r, s, h => by
    rw [partialState] at h
    split at h
    · rename_i sl sr hl hr
      refine combine_fits ?_ ?_ (Except.ok.inj h)
      · rintro s₀ rfl
        exact partialState_fits hl
      · rintro s₀ rfl
        exact partialState_fits hr
    · cases h
    · cases h

/-- Sending a state to another process does not change it. -/
theorem partialState_ship (p : Plan (TopKRow F)) :
    partialState ar a (.ship p) = partialState ar a p := by
  rw [partialState]
  cases h : partialState ar a p with
  | error e => rfl
  | ok st =>
    cases st with
    | none => rfl
    | some s =>
      dsimp only
      rw [(partialState_fits h).ship]
      rfl

/-- **Every entry of a plan's state is the chunk of one of its rows.** -/
theorem partialState_mem {e : HeapEntry KeptText D} :
    ∀ {p : Plan (TopKRow F)} {st : Option (TopKState F D)}, partialState ar a p = .ok st →
      e ∈ heapOf st → ∃ row ∈ p.rows, row.chunkId = some e.chunkId
  | .scan rows, st, h, he => scan_mem h he
  | .ship p, st, h, he => by
    rw [partialState_ship] at h
    exact partialState_mem (p := p) h he
  | .combine l r, st, h, he => by
    unfold partialState at h
    split at h
    · rename_i sl sr hl hr
      cases h
      have hmem : e ∈ heapOf sl ∨ e ∈ heapOf sr := by
        match sl, sr, he with
        | none, sr, he => exact .inr he
        | some a, none, he => exact .inl he
        | some a, some b, he =>
          change e ∈ (b.heap.foldl TopKState.offer a).heap at he
          rw [foldl_offer] at he
          exact (mem_of_mem_pushAll he).symm
      rcases hmem with he | he
      · obtain ⟨row, hrow, hid⟩ := partialState_mem hl he
        exact ⟨row, mem_append_left _ hrow, hid⟩
      · obtain ⟨row, hrow, hid⟩ := partialState_mem hr he
        exact ⟨row, mem_append_right _ hrow, hid⟩
    · cases h
    · cases h

end

/-! ## What a plan computes

From here on the arguments are those of a query that is not NULL: a query vector `q`, a limit `k`
that the aggregate takes (`Allowed`) and the name of a metric. -/

section

variable {F D : Type}

/-- The non-NULL arguments. -/
def argsOf (q : Vec F) (k : Int) (metric : Metric) : TopKArgs F :=
  ⟨some q, some k, some metric.name⟩

/-- The heap entry of a row; `none` for a row the aggregate drops. -/
def entryOf (ar : Arith F D) (q : Vec F) (metric : Metric) (row : TopKRow F) :
    Option (HeapEntry KeptText D) :=
  match row.embedding, row.chunkId with
  | some emb, some chunkId =>
    some ⟨chunkId, keptText row.sourceText, annDistance ar metric q emb,
      similarityOf ar metric (annDistance ar metric q emb)⟩
  | _, _ => none

/-- A limit for which `state_new` makes a state. -/
def Allowed (k : Int) : Prop := 0 < k ∧ 40 * k ≤ maxAllocSize

instance (k : Int) : Decidable (Allowed k) :=
  inferInstanceAs (Decidable (0 < k ∧ 40 * k ≤ maxAllocSize))

/-- The embedding of a row that the aggregate does not drop has the dimension of `q`. -/
def HasDim (q : Vec F) (row : TopKRow F) : Prop :=
  ∀ emb cid, row.embedding = some emb → row.chunkId = some cid → q.length = emb.length

/-- The state, if there is one, was created with these arguments. -/
def CreatedBy (q : Vec F) (k : Int) (metric : Metric) (st : Option (TopKState F D)) : Prop :=
  ∀ s, st = some s → s.capacity = k ∧ s.metric = metric ∧ s.qvec = q

theorem createdBy_none (q : Vec F) (k : Int) (metric : Metric) :
    CreatedBy (D := D) q k metric none :=
  fun _ h => absurd h (by simp)

section

variable [LT D] [DecidableLT D] {q : Vec F} {k : Int} {metric : Metric}

theorem sfunc_spec (ar : Arith F D) (hk : Allowed k) {st : Option (TopKState F D)} {row : TopKRow F}
    (hst : CreatedBy q k metric st) (hrow : HasDim q row) :
    ∃ st', sfunc ar (argsOf q k metric) st row = .ok st' ∧ CreatedBy q k metric st' ∧
      heapOf st' = pushAll (keyAbove HeapEntry.distance) k.toNat (heapOf st)
        (entryOf ar q metric row).toList := by
  obtain ⟨emb?, cid?, txt⟩ := row
  cases emb? with
  | none => exact ⟨st, rfl, hst, rfl⟩
  | some emb =>
    cases cid? with
    | none => exact ⟨st, rfl, hst, rfl⟩
    | some cid =>
      have hdim : q.length = emb.length := hrow emb cid rfl rfl
      -- on a state with these arguments the row is scored and offered
      have haccept : ∀ s : TopKState F D, s.capacity = k → s.metric = metric → s.qvec = q →
          s.accept ar emb cid txt = .ok (s.offer ⟨cid, keptText txt, annDistance ar metric q emb,
            similarityOf ar metric (annDistance ar metric q emb)⟩) := by
        intro s _ hm hq
        simp only [TopKState.accept, computeDistance, hm, hq, if_pos hdim]
        rfl
      cases st with
      | some s =>
        obtain ⟨hcap, hm, hq⟩ := hst s rfl
        refine ⟨some (s.offer _), by
          simp only [sfunc, argsOf, haccept s hcap hm hq]; rfl, ?_, ?_⟩
        · rintro _ ⟨⟩
          exact ⟨hcap, hm, hq⟩
        · show stateOffer s.capacity.toNat s.heap _ = _
          rw [hcap]
          rfl
      | none =>
        have hnew : firstState (D := D) q k metric.name = .ok ⟨k, metric, q, []⟩ :=
          firstState_eq_ok.mpr ⟨hk.1, hk.2, metric, parseMetric_name metric, rfl⟩
        refine ⟨some (TopKState.offer ⟨k, metric, q, []⟩ _), by
          simp only [sfunc, argsOf, hnew, haccept ⟨k, metric, q, []⟩ rfl rfl rfl]; rfl, ?_, rfl⟩
        rintro _ ⟨⟩
        exact ⟨rfl, rfl, rfl⟩

/-- A row without an entry leaves the state alone. -/
theorem sfunc_skip {ar : Arith F D} (st : Option (TopKState F D)) {row : TopKRow F}
    (h : entryOf ar q metric row = none) : sfunc ar (argsOf q k metric) st row = .ok st := by
  obtain ⟨emb?, cid?, txt⟩ := row
  cases emb? with
  | none => rfl
  | some emb =>
    cases cid? with
    | none => rfl
    | some cid => cases h

/-- A row that is taken has a distance, and the first one an allowed limit. -/
theorem sfunc_ok {ar : Arith F D} {st st' : Option (TopKState F D)} {row : TopKRow F}
    (hst : CreatedBy q k metric st) (h : sfunc ar (argsOf q k metric) st row = .ok st') :
    CreatedBy q k metric st' ∧ HasDim q row ∧
      ((entryOf ar q metric row).isSome → st = none → Allowed k) := by
  obtain ⟨emb?, cid?, txt⟩ := row
  cases emb? with
  | none =>
    cases h
    exact ⟨hst, nofun, nofun⟩
  | some emb =>
    cases cid? with
    | none =>
      cases h
      exact ⟨hst, nofun, nofun⟩
    | some cid =>
      have haccept : ∀ {s : TopKState F D}, s.capacity = k → s.metric = metric → s.qvec = q →
          (s.accept ar emb cid txt).map some = .ok st' →
          CreatedBy q k metric st' ∧ HasDim q ⟨some emb, some cid, txt⟩ := by
        intro s hcap hm hq h
        obtain ⟨s', hs', rfl⟩ := map_eq_ok.mp h
        obtain ⟨dist, hdist, rfl⟩ := map_eq_ok.mp hs'
        refine ⟨?_, ?_⟩
        · rintro _ ⟨⟩
          exact ⟨hcap, hm, hq⟩
        · rintro _ _ ⟨⟩ ⟨⟩
          unfold computeDistance at hdist
          split at hdist
          · rename_i hlen
            exact hq ▸ hlen
          · cases hdist
      cases st with
      | some s =>
        obtain ⟨hcap, hm, hq⟩ := hst s rfl
        obtain ⟨hcreated, hdim⟩ := haccept hcap hm hq h
        exact ⟨hcreated, hdim, nofun⟩
      | none =>
        simp only [sfunc, argsOf] at h
        split at h
        · cases h
        rename_i s hfirst
        obtain ⟨hpos, halloc, metric', hmetric, rfl⟩ := firstState_eq_ok.mp hfirst
        cases (parseMetric_name metric).symm.trans hmetric
        obtain ⟨hcreated, hdim⟩ := haccept rfl rfl rfl h
        exact ⟨hcreated, hdim, fun _ _ => ⟨hpos, halloc⟩⟩

/-- The same of a scan. -/
theorem scan_ok {ar : Arith F D} :
    ∀ {rows : List (TopKRow F)} {st st' : Option (TopKState F D)}, CreatedBy q k metric st →
      rows.foldlM (sfunc ar (argsOf q k metric)) st = .ok st' →
      (∀ row ∈ rows, HasDim q row) ∧
        (rows.filterMap (entryOf ar q metric) ≠ [] → st = none → Allowed k)
  | [], _, _, _, _ => ⟨forall_mem_nil _, fun h => absurd rfl h⟩
  | row :: rows, st, st', hst, h => by
    rw [foldlM_cons, bind_eq_ok] at h
    obtain ⟨st₁, h₁, h⟩ := h
    obtain ⟨hst₁, hdim, hfirst⟩ := sfunc_ok hst h₁
    obtain ⟨hdims, hrest⟩ := scan_ok hst₁ h
    refine ⟨forall_mem_cons.mpr ⟨hdim, hdims⟩, fun hne hnone => ?_⟩
    cases hentry : entryOf ar q metric row with
    | some e => exact hfirst (by rw [hentry]; rfl) hnone
    | none =>
      rw [filterMap_cons, hentry] at hne
      refine hrest hne ?_
      rw [sfunc_skip st hentry] at h₁
      exact (Except.ok.inj h₁).symm.trans hnone

/-- A plan whose rows are all dropped has no state. -/
theorem partialState_noEntry (ar : Arith F D) (k : Int) :
    ∀ p : Plan (TopKRow F), p.rows.filterMap (entryOf ar q metric) = [] →
      partialState ar (argsOf q k metric) p = .ok none
  | .scan rows, h => by
    show rows.foldlM (sfunc ar (argsOf q k metric)) none = .ok none
    rw [Plan.rows, filterMap_eq_nil_iff] at h
    induction rows with
    | nil => rfl
    | cons row rows ih =>
      rw [foldlM_cons, sfunc_skip none (h row mem_cons_self)]
      exact ih fun row' h' => h row' (mem_cons_of_mem row h')
  | .ship p, h => by
    rw [partialState_ship]
    exact partialState_noEntry ar k p h
  | .combine l r, h => by
    rw [Plan.rows, filterMap_append, append_eq_nil_iff] at h
    unfold partialState
    rw [partialState_noEntry ar k l h.1, partialState_noEntry ar k r h.2]
    rfl

theorem scan_spec (ar : Arith F D) (metric : Metric) (hk : Allowed k) :
    ∀ (rows : List (TopKRow F)) {st : Option (TopKState F D)}, CreatedBy q k metric st →
      (∀ row ∈ rows, HasDim q row) →
      ∃ st', rows.foldlM (sfunc ar (argsOf q k metric)) st = .ok st' ∧ CreatedBy q k metric st' ∧
        heapOf st' = pushAll (keyAbove HeapEntry.distance) k.toNat (heapOf st)
          (rows.filterMap (entryOf ar q metric))
  | [], st, hst, _ => ⟨st, rfl, hst, rfl⟩
  | row :: rows, st, hst, hdim => by
    obtain ⟨st₁, e₁, hst₁, hh₁⟩ := sfunc_spec ar hk hst (hdim row mem_cons_self)
    obtain ⟨st₂, e₂, hst₂, hh₂⟩ := scan_spec ar metric hk rows hst₁ fun r hr =>
      hdim r (mem_cons_of_mem row hr)
    refine ⟨st₂, ?_, hst₂, ?_⟩
    · rw [foldlM_cons, e₁]
      exact e₂
    rw [hh₂, hh₁]
    unfold pushAll
    rw [← foldl_append, filterMap_cons]
    cases entryOf ar q metric row <;> rfl

end

variable [LinearOrder D] {q : Vec F} {k : Int} {metric : Metric}

/-- A heap of everything offered: what every state of a plan is. -/
structure Holds (q : Vec F) (k : Int) (metric : Metric) (all : Multiset (HeapEntry KeptText D))
    (st : Option (TopKState F D)) : Prop where
  created : CreatedBy q k metric st
  keeps : Keeps HeapEntry.distance k.toNat all (heapOf st)

theorem Holds.combine (hk : 0 < k) {as bs : Multiset (HeapEntry KeptText D)}
    {a b : Option (TopKState F D)} (ha : Holds q k metric as a) (hb : Holds q k metric bs b) :
    Holds q k metric (as + bs) (combine a b) := by
  have hnil : ∀ {all : Multiset (HeapEntry KeptText D)},
      Keeps HeapEntry.distance k.toNat all [] → all = 0 := fun hK =>
    (hK.best.eq_all (by rw [Multiset.coe_card, length_nil]; omega)).symm
  match a, b, ha, hb with
  | none, b, ha, hb =>
    rw [hnil ha.keeps, zero_add]
    exact hb
  | some a, none, ha, hb =>
    rw [hnil hb.keeps, add_zero]
    exact ha
  | some a, some b, ha, hb =>
    obtain ⟨hcap, hm, hq⟩ := ha.created a rfl
    have hall := ha.keeps.pushAll b.heap
    show Holds q k metric (as + bs) (some (b.heap.foldl TopKState.offer a))
    rw [foldl_offer, hcap]
    refine ⟨?_, ⟨hb.keeps.best.trans hall.best, hall.order⟩⟩
    rintro _ ⟨⟩
    exact ⟨rfl, hm, hq⟩

/-- **Whatever the plan, the final state holds `k` best of its rows.** -/
theorem partialState_keeps (ar : Arith F D) (metric : Metric) (hk : Allowed k) :
    ∀ p : Plan (TopKRow F), (∀ row ∈ p.rows, HasDim q row) →
      ∃ st, partialState ar (argsOf q k metric) p = .ok st ∧
        Holds q k metric (p.rows.filterMap (entryOf ar q metric) : Multiset _) st
  | .scan rows, hdim => by
    obtain ⟨st, e, hst, hh⟩ := scan_spec ar metric hk rows (createdBy_none q k metric) hdim
    refine ⟨st, e, hst, ?_⟩
    have := (keeps_nil HeapEntry.distance k.toNat).pushAll
      (rows.filterMap (entryOf ar q metric))
    rw [zero_add] at this
    rw [hh]
    exact this
  | .ship p, hdim => by
    rw [partialState_ship]
    exact partialState_keeps ar metric hk p hdim
  | .combine l r, hdim => by
    obtain ⟨sl, el, hl⟩ := partialState_keeps ar metric hk l fun row h =>
      hdim row (mem_append_left _ h)
    obtain ⟨sr, er, hr⟩ := partialState_keeps ar metric hk r fun row h =>
      hdim row (mem_append_right _ h)
    refine ⟨Vector.combine sl sr, ?_, ?_⟩
    · unfold partialState
      rw [el, er]
    · rw [Plan.rows, filterMap_append, ← Multiset.coe_add]
      exact hl.combine hk.1 hr

end

end MaluDb.Vector
