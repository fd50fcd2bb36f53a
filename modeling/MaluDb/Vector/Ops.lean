import Mathlib.Data.Nat.Sqrt

/-!
# Vectors, metrics and distances

The vector primitives of `src/maludb_vector.c` and the distance code that `src/maludb_search.c`,
`src/maludb_topk.c` and `src/maludb_ann.c` each carry a copy of.

* A stored vector is the list of its float4 components; the length checks of `decode_vec` pass.
* The float operations are a parameter, `Arith F D`: `F` is float4, `D` is float8. Nothing is
  assumed about them or the comparisons; the ranking results ask for a linear order on `D`.
* `intArith` is exact integer arithmetic. On components `0`, `1` and `-1` it computes what the
  IEEE operations compute.
-/

namespace MaluDb.Vector

/-- The errors of the vector functions; `message` has their texts. -/
inductive VectorError where
  | dimMismatch (da db : Nat)
  | dimensionMismatch (da db : Nat)
  | unknownMetric (m : String)
  | limitNotPositive
  | topkLimitNotPositive
  | invalidMessage
  | insufficientData
  | invalidJson
  | allocSize (bytes : Int)
  | buildMNotPositive
  | buildEfNotPositive
  | buildDimMismatch (chunkId : Int)
  | searchKNotPositive
  | searchQueryDim (qdim dim : Nat)
  | unknownCompartment (id : Int)
  | queryDim (qdim dim : Nat)
  | embeddingDim (chunk compartment : Nat)
  | unknownChunk (id : Int)
  | noAnnIndex (id : Int)
  | noAnnIndexRow (id : Int)
  | integerOutOfRange
  | notNullViolation (column : String)
  | checkViolation (constraint : String)
  deriving DecidableEq, Repr

/-- The text of an error. -/
def VectorError.message : VectorError → String
  | .dimMismatch da db => s!"vector dim mismatch: {da} vs {db}"
  | .dimensionMismatch da db => s!"vector dimension mismatch: {da} vs {db}"
  | .unknownMetric m => s!"unknown distance metric: {m}"
  | .limitNotPositive => "limit must be positive"
  | .topkLimitNotPositive => "topk_vector_search: limit must be positive"
  | .invalidMessage => "invalid message format"
  | .insufficientData => "insufficient data left in message"
  | .invalidJson => "invalid input syntax for type json"
  | .allocSize bytes => s!"invalid memory alloc request size {bytes}"
  | .buildMNotPositive => "ann_build: m must be > 0"
  | .buildEfNotPositive => "ann_build: ef_construct must be > 0"
  | .buildDimMismatch cid => s!"ann_build: dim mismatch at chunk {cid}"
  | .searchKNotPositive => "ann_search: k must be > 0"
  | .searchQueryDim qdim dim => s!"ann_search: query dim {qdim} != graph dim {dim}"
  | .unknownCompartment id => s!"unknown compartment_id: {id}"
  | .queryDim qdim dim => s!"query dim {qdim} does not match compartment dim {dim}"
  | .embeddingDim chunk compartment =>
    s!"embedding_dim mismatch: chunk={chunk} compartment={compartment}"
  | .unknownChunk id => s!"unknown chunk_id: {id}"
  | .noAnnIndex id => s!"no ANN index for compartment {id}; call ann_build() first"
  | .noAnnIndexRow id =>
    s!"compartment {id} has search_mode=local_ann but no malu$ann_index row; call ann_build()"
  | .integerOutOfRange => "integer out of range"
  | .notNullViolation column => s!"null value in column {column} violates not-null constraint"
  | .checkViolation constraint => s!"new row violates check constraint {constraint}"

/-! ## Arithmetic -/

/-- The float operations the C code uses: `F` is `float`, `D` is `double`. -/
structure Arith (F D : Type) where
  toDouble : F → D
  toFloat : D → F
  zero : D
  one : D
  add : D → D → D
  sub : D → D → D
  mul : D → D → D
  div : D → D → D
  neg : D → D
  sqrt : D → D
  /-- A double printed with `%.17g`, read by `jsonb_in` and cast back. JSON has no NaN and no
  infinities, and the sign of a zero is lost. -/
  json : D → Option D

/-- Exact integers. -/
def intArith : Arith Int Int where
  toDouble x := x
  toFloat x := x
  zero := 0
  one := 1
  add := (· + ·)
  sub := (· - ·)
  mul := (· * ·)
  div := (· / ·)
  neg x := -x
  sqrt x := Nat.sqrt x.toNat
  json := some

/-- A vector: its float4 components. -/
abbrev Vec (F : Type) := List F

/-- `MaxAllocSize` of the server. -/
def maxAllocSize : Int := 1073741823

/-- `palloc` and `palloc0`: a request for more than `MaxAllocSize` bytes raises. -/
def palloc (bytes : Int) : Except VectorError Unit :=
  if maxAllocSize < bytes then .error (.allocSize bytes) else .ok ()

theorem palloc_eq_ok {bytes : Int} : palloc bytes = .ok () ↔ bytes ≤ maxAllocSize := by
  unfold palloc
  split
  · rename_i h
    exact ⟨nofun, fun hle => absurd h (Int.not_lt.mpr hle)⟩
  · rename_i h
    exact ⟨fun _ => Int.not_lt.mp h, fun _ => rfl⟩

section

variable {F D : Type} (ar : Arith F D)

section

variable (a b : Vec F) (v : Vec F)

/-- `sum += (double) a[i] * (double) b[i]`. -/
def dot : D :=
  (a.zip b).foldl (fun sum p => ar.add sum (ar.mul (ar.toDouble p.1) (ar.toDouble p.2))) ar.zero

/-- `d = (double) a[i] - (double) b[i]; sum += d * d`. -/
def squares : D :=
  (a.zip b).foldl (fun sum p =>
    ar.add sum (ar.mul (ar.sub (ar.toDouble p.1) (ar.toDouble p.2))
      (ar.sub (ar.toDouble p.1) (ar.toDouble p.2)))) ar.zero

def vectorNorm : D := ar.sqrt (dot ar v v)

/-- `vector_normalize`: a vector of norm zero is returned unchanged. -/
def vectorNormalize [BEq D] : Vec F :=
  if vectorNorm ar v == ar.zero then v
  else v.map fun x => ar.toFloat (ar.mul (ar.toDouble x) (ar.div ar.one (vectorNorm ar v)))

def vectorDotProduct : Except VectorError D :=
  if a.length = b.length then .ok (dot ar a b)
  else .error (.dimensionMismatch a.length b.length)

def vectorL2Squared : Except VectorError D :=
  if a.length = b.length then .ok (squares ar a b)
  else .error (.dimensionMismatch a.length b.length)

@[simp] theorem vectorNormalize_length [BEq D] : (vectorNormalize ar v).length = v.length := by
  unfold vectorNormalize
  split
  · rfl
  · exact List.length_map _

end

end

/-! ## Metrics -/

/-- `MALUDB_METRIC_*`. -/
inductive Metric where
  | cosine
  | l2
  | innerProduct
  deriving DecidableEq, Repr

def Metric.name : Metric → String
  | .cosine => "cosine"
  | .l2 => "l2"
  | .innerProduct => "inner_product"

def Metric.code : Metric → Int
  | .cosine => 1
  | .l2 => 2
  | .innerProduct => 3

/-- How the distance code reads a metric number: what is neither L2 nor cosine is inner
product. -/
def Metric.ofCode (n : Int) : Metric :=
  if n = 2 then .l2 else if n = 1 then .cosine else .innerProduct

@[simp] theorem Metric.ofCode_code (m : Metric) : Metric.ofCode m.code = m := by
  cases m <;> rfl

/-- `parse_metric`. -/
def parseMetric (m : String) : Except VectorError Metric :=
  if m = "cosine" then .ok .cosine
  else if m = "l2" then .ok .l2
  else if m = "inner_product" then .ok .innerProduct
  else .error (.unknownMetric m)

@[simp] theorem parseMetric_name (m : Metric) : parseMetric m.name = .ok m := by
  cases m <;> rfl

section

variable {F D : Type} (ar : Arith F D)

/-- `ann_distance`, and the body of `compute_distance` after its dimension check. -/
def annDistance (metric : Metric) (a b : Vec F) : D :=
  match metric with
  | .l2 => squares ar a b
  | .cosine => ar.sub ar.one (dot ar a b)
  | .innerProduct => ar.neg (dot ar a b)

/-- `compute_distance`. -/
def computeDistance (metric : Metric) (a b : Vec F) : Except VectorError D :=
  if a.length = b.length then .ok (annDistance ar metric a b)
  else .error (.dimMismatch a.length b.length)

def similarityOf (metric : Metric) (dist : D) : D :=
  match metric with
  | .cosine => ar.sub ar.one dist
  | .l2 => ar.neg dist
  | .innerProduct => ar.neg dist

end

end MaluDb.Vector
