import MaluDb.Lib.Machine
import MaluDb.Vector.Build

/-!
# The blob of a graph

A graph is stored as one `bytea`: a header of 32 bytes, the chunk ids, the edges and the vectors.
`maludb_ann_build_c` writes it (`src/maludb_ann.c`, 511-535) and `ann_decode_blob` reads it before
every search (543-572).

The length check is in `size_t`, on the signed fields of the header: it can wrap around, and a
negative field passes as a large one. The edges are not checked.

Results:

* `blob_sound_iff`: which accepted blobs are sound; a graph that fits is read back, and a graph that
  is built fits.
* `blob_unsound`: three accepted blobs that are not sound.
-/

namespace MaluDb.Vector

open MaluDb.Lib.Machine List

/-! ## Model -/

/-- `int32`. -/
def int32 : Cell 4 Int := leInt 4

/-- `int64`. -/
def int64 : Cell 8 Int := leInt 8

/-- `ANN_MAGIC`. -/
def annMagic : List UInt8 := [65, 78, 78, 49]

/-- The errors of `ann_decode_blob`. -/
inductive BlobError where
  | tooShort (len : Nat)
  | badMagic
  | truncated
  deriving DecidableEq, Repr

/-- The `AnnGraph` of `ann_decode_blob`; the sections are given by where they start. -/
structure BlobGraph where
  metric : Int
  dim : Int
  m : Int
  efConstruct : Int
  nNodes : Int
  entryNode : Int
  chunkIds : Nat
  edges : Nat
  embeddings : Nat
  deriving DecidableEq, Repr

/-- `ids_bytes`. -/
def idsBytes (nNodes : Int) : Nat := sizeMul (toSize nNodes) 8

/-- `edges_bytes` and `emb_bytes`, for `k` cells of four bytes in a row. -/
def rowsBytes (nNodes k : Int) : Nat := sizeMul (sizeMul (toSize nNodes) (toSize k)) 4

/-- The graph of a header. -/
def blobGraph (hdr : List Int) : BlobGraph where
  metric := hdr.getD 0 0
  dim := hdr.getD 1 0
  m := hdr.getD 2 0
  efConstruct := hdr.getD 3 0
  nNodes := hdr.getD 4 0
  entryNode := hdr.getD 5 0
  chunkIds := 32
  edges := 32 + idsBytes (hdr.getD 4 0)
  embeddings := 32 + idsBytes (hdr.getD 4 0) + rowsBytes (hdr.getD 4 0) (hdr.getD 2 0)

/-- `ANN_HEADER_BYTES + ids_bytes + edges_bytes + emb_bytes`. -/
def BlobGraph.bytes (b : BlobGraph) : Nat :=
  sizeAdd (sizeAdd (sizeAdd 32 (idsBytes b.nNodes)) (rowsBytes b.nNodes b.m))
    (rowsBytes b.nNodes b.dim)

/-- `ann_decode_blob`. A `bytea` is shorter than 2^30 bytes, so its length is an `int32`. -/
def annDecodeBlob (blob : List UInt8) : Except BlobError BlobGraph :=
  if blob.length < 32 then .error (.tooShort blob.length)
  else if blob.take 4 ≠ annMagic then .error .badMagic
  else
    let b := blobGraph (readCells int32 7 (blob.drop 4))
    if blob.length < b.bytes then .error .truncated else .ok b

section

variable {F : Type} (float4 : Cell 4 F)

def readGraph (blob : List UInt8) (b : BlobGraph) : AnnGraph F where
  metric := Metric.ofCode b.metric
  dim := b.dim.toNat
  m := b.m.toNat
  efConstruct := b.efConstruct
  entryNode := b.entryNode
  chunkIds := readCells int64 b.nNodes.toNat (blob.drop b.chunkIds)
  edges := pieces b.m.toNat b.nNodes.toNat
    (readCells int32 (b.nNodes.toNat * b.m.toNat) (blob.drop b.edges))
  embeddings := pieces b.dim.toNat b.nNodes.toNat
    (readCells float4 (b.nNodes.toNat * b.dim.toNat) (blob.drop b.embeddings))

/-- The fields of the header. -/
def headerFields (g : AnnGraph F) : List Int :=
  [g.metric.code, g.dim, g.m, g.efConstruct, g.chunkIds.length, g.entryNode, 0]

/-- The blob that `maludb_ann_build_c` returns. -/
def annSerialize (g : AnnGraph F) : List UInt8 :=
  annMagic ++ (writeCells int32 (headerFields g) ++ (writeCells int64 g.chunkIds ++
    (writeCells int32 g.edges.flatten ++ writeCells float4 g.embeddings.flatten)))

end

/-! ## What is accepted -/

def BlobGraph.stop (b : BlobGraph) : Nat :=
  32 + 8 * b.nNodes.toNat + 4 * (b.nNodes.toNat * b.m.toNat) + 4 * (b.nNodes.toNat * b.dim.toNat)

/-- A header whose fields are not negative and whose sizes do not wrap around. -/
structure BlobGraph.Plausible (b : BlobGraph) : Prop where
  nNodes : 0 ≤ b.nNodes
  m : 0 ≤ b.m
  dim : 0 ≤ b.dim
  size : b.stop < 2 ^ 64

structure BlobGraph.Inside (b : BlobGraph) (len : Nat) : Prop where
  chunkIds : b.chunkIds = 32
  edges : b.edges = b.chunkIds + 8 * b.nNodes.toNat
  embeddings : b.embeddings = b.edges + 4 * (b.nNodes.toNat * b.m.toNat)
  inside : b.embeddings + 4 * (b.nNodes.toNat * b.dim.toNat) ≤ len

/-- Each stored edge is unused or leads to a node. -/
def BlobGraph.Leads (b : BlobGraph) (blob : List UInt8) : Prop :=
  ∀ e ∈ readCells int32 (b.nNodes.toNat * b.m.toNat) (blob.drop b.edges),
    e = -1 ∨ 0 ≤ e ∧ e < b.nNodes

/-- **What a reader of the blob relies on**: counts that are not negative, sections inside the blob
and edges between nodes. -/
structure BlobGraph.Sound (b : BlobGraph) (blob : List UInt8) : Prop where
  nNodes : 0 ≤ b.nNodes
  m : 0 ≤ b.m
  dim : 0 ≤ b.dim
  inside : b.Inside blob.length
  leads : b.Leads blob

section

variable {blob : List UInt8} {b : BlobGraph}

theorem annDecodeBlob_eq_ok (h : annDecodeBlob blob = .ok b) :
    b = blobGraph (readCells int32 7 (blob.drop 4)) ∧ b.bytes ≤ blob.length := by
  unfold annDecodeBlob at h
  split at h
  · cases h
  split at h
  · cases h
  dsimp only at h
  split at h
  · cases h
  rename_i hlen
  have hb := Except.ok.inj h
  rw [hb] at hlen
  exact ⟨hb.symm, not_lt.mp hlen⟩

theorem idsBytes_natCast (n : Nat) : idsBytes n = 8 * n % 2 ^ 64 := by
  unfold idsBytes sizeMul
  rw [toSize_natCast, Nat.mod_mul_mod, Nat.mul_comm]

theorem rowsBytes_natCast (n k : Nat) : rowsBytes n k = 4 * (n * k) % 2 ^ 64 := by
  unfold rowsBytes sizeMul
  rw [toSize_natCast, toSize_natCast, ← Nat.mul_mod, Nat.mod_mul_mod, Nat.mul_comm]

/-- **An accepted header that is plausible describes sections inside the blob.** -/
theorem annDecodeBlob_inside (h : annDecodeBlob blob = .ok b) (hp : b.Plausible) :
    b.Inside blob.length := by
  obtain ⟨hb, hlen⟩ := annDecodeBlob_eq_ok h
  have hids : b.chunkIds = 32 := by rw [hb, blobGraph]
  have hedges : b.edges = 32 + idsBytes b.nNodes := by rw [hb, blobGraph]
  have hembs : b.embeddings = 32 + idsBytes b.nNodes + rowsBytes b.nNodes b.m := by
    rw [hb, blobGraph]
  have hsize := hp.size
  unfold BlobGraph.stop at hsize
  unfold BlobGraph.bytes at hlen
  rw [← Int.toNat_of_nonneg hp.nNodes, idsBytes_natCast] at hedges hembs hlen
  rw [← Int.toNat_of_nonneg hp.m, rowsBytes_natCast] at hembs hlen
  rw [← Int.toNat_of_nonneg hp.dim, rowsBytes_natCast] at hlen
  unfold sizeAdd at hlen
  constructor <;> omega

/-- **An accepted blob is sound exactly if its counts are not negative, the true size does not wrap
around and the edges lead to nodes.** -/
theorem sound_iff (h : annDecodeBlob blob = .ok b) (hlen : blob.length ≤ 1073741819) :
    b.Sound blob ↔ b.Plausible ∧ b.Leads blob := by
  constructor
  · rintro ⟨hn, hm, hdim, ⟨hids, hedges, hembs, hinside⟩, hleads⟩
    refine ⟨⟨hn, hm, hdim, ?_⟩, hleads⟩
    unfold BlobGraph.stop
    omega
  · rintro ⟨hp, hleads⟩
    exact ⟨hp.nNodes, hp.m, hp.dim, annDecodeBlob_inside h hp, hleads⟩

end

/-! ## Reading back -/

section

variable {F : Type} {float4 : Cell 4 F} {g : AnnGraph F}

/-- The bytes of a graph. -/
def AnnGraph.bytes (g : AnnGraph F) : Nat :=
  32 + 8 * g.chunkIds.length + 4 * (g.chunkIds.length * g.m) + 4 * (g.chunkIds.length * g.dim)

/-- **A graph that can be stored**: its numbers fit into their cells, it has a row of edges and a
vector for each node, and its blob is not longer than a `bytea` can be. -/
structure Fits (float4 : Cell 4 F) (g : AnnGraph F) : Prop where
  header : ∀ i ∈ headerFields g, int32.Fits i
  ids : ∀ i ∈ g.chunkIds, int64.Fits i
  rows : g.edges.length = g.chunkIds.length
  slots : ∀ es ∈ g.edges, es.length = g.m
  edges : ∀ e ∈ g.edges.flatten, int32.Fits e
  vectors : g.embeddings.length = g.chunkIds.length
  dims : ∀ v ∈ g.embeddings, v.length = g.dim
  floats : ∀ x ∈ g.embeddings.flatten, float4.Fits x
  size : g.bytes ≤ 1073741819

section

variable (h : Fits float4 g)
include h

theorem Fits.length_edges : g.edges.flatten.length = g.chunkIds.length * g.m := by
  rw [length_flatten_rows h.slots, h.rows]

theorem Fits.length_embeddings : g.embeddings.flatten.length = g.chunkIds.length * g.dim := by
  rw [length_flatten_rows h.dims, h.vectors]

theorem Fits.length_annSerialize : (annSerialize float4 g).length = g.bytes := by
  unfold annSerialize AnnGraph.bytes
  simp only [length_append, length_writeCells, h.length_edges, h.length_embeddings]
  simp only [annMagic, headerFields, length_cons, length_nil]
  omega

theorem readHeader_annSerialize :
    readCells int32 7 ((annSerialize float4 g).drop 4) = headerFields g := by
  unfold annSerialize
  rw [drop_left' (show annMagic.length = 4 from rfl)]
  exact readCells_writeCells h.header _

theorem drop_annSerialize :
    (annSerialize float4 g).drop 32 = writeCells int64 g.chunkIds ++
      (writeCells int32 g.edges.flatten ++ writeCells float4 g.embeddings.flatten) ∧
    (annSerialize float4 g).drop (32 + 8 * g.chunkIds.length) =
      writeCells int32 g.edges.flatten ++ writeCells float4 g.embeddings.flatten ∧
    (annSerialize float4 g).drop
      (32 + 8 * g.chunkIds.length + 4 * (g.chunkIds.length * g.m)) =
        writeCells float4 g.embeddings.flatten := by
  have hids : (annSerialize float4 g).drop 32 = writeCells int64 g.chunkIds ++
      (writeCells int32 g.edges.flatten ++ writeCells float4 g.embeddings.flatten) := by
    unfold annSerialize
    rw [← append_assoc]
    refine drop_left' ?_
    rw [length_append, length_writeCells]
    rfl
  have hedges : (annSerialize float4 g).drop (32 + 8 * g.chunkIds.length) =
      writeCells int32 g.edges.flatten ++ writeCells float4 g.embeddings.flatten := by
    rw [← drop_drop, hids]
    exact drop_left' (by rw [length_writeCells, Nat.mul_comm])
  refine ⟨hids, hedges, ?_⟩
  rw [← drop_drop, hedges]
  exact drop_left' (by rw [length_writeCells, h.length_edges, Nat.mul_comm])

theorem Fits.plausible : (blobGraph (headerFields g)).Plausible := by
  have hsize := h.size
  have hstop : (blobGraph (headerFields g)).stop = g.bytes := rfl
  refine ⟨Int.natCast_nonneg _, Int.natCast_nonneg _, Int.natCast_nonneg _, ?_⟩
  rw [hstop]
  omega

theorem Fits.accepted :
    annDecodeBlob (annSerialize float4 g) = .ok (blobGraph (headerFields g)) := by
  have hsize := h.size
  have hbytes : (blobGraph (headerFields g)).bytes = g.bytes := by
    have hids := idsBytes_natCast g.chunkIds.length
    have hedges := rowsBytes_natCast g.chunkIds.length g.m
    have hembs := rowsBytes_natCast g.chunkIds.length g.dim
    unfold AnnGraph.bytes at *
    show sizeAdd (sizeAdd (sizeAdd 32 (idsBytes g.chunkIds.length))
      (rowsBytes g.chunkIds.length g.m)) (rowsBytes g.chunkIds.length g.dim) = _
    unfold sizeAdd
    omega
  have hshort : ¬ (annSerialize float4 g).length < 32 := by
    rw [h.length_annSerialize, AnnGraph.bytes]
    omega
  have hmagic : (annSerialize float4 g).take 4 = annMagic := take_left' rfl
  unfold annDecodeBlob
  rw [if_neg hshort, if_neg (not_not.mpr hmagic), readHeader_annSerialize h]
  dsimp only
  rw [hbytes, h.length_annSerialize, if_neg (lt_irrefl _)]

/-- **The blob of a graph that fits is read back.** -/
theorem readGraph_annSerialize :
    readGraph float4 (annSerialize float4 g) (blobGraph (headerFields g)) = g := by
  have hinside := annDecodeBlob_inside h.accepted h.plausible
  obtain ⟨hids, hedges, hembs⟩ := drop_annSerialize h
  have hedgesAt : (blobGraph (headerFields g)).edges = 32 + 8 * g.chunkIds.length :=
    hinside.edges
  have hembsAt : (blobGraph (headerFields g)).embeddings =
      32 + 8 * g.chunkIds.length + 4 * (g.chunkIds.length * g.m) := by
    rw [← hedgesAt]
    exact hinside.embeddings
  have hread : readGraph float4 (annSerialize float4 g) (blobGraph (headerFields g)) = { g with
        metric := Metric.ofCode g.metric.code
        chunkIds := readCells int64 g.chunkIds.length ((annSerialize float4 g).drop 32)
        edges := pieces g.m g.chunkIds.length (readCells int32 (g.chunkIds.length * g.m)
          ((annSerialize float4 g).drop (blobGraph (headerFields g)).edges))
        embeddings := pieces g.dim g.chunkIds.length (readCells float4 (g.chunkIds.length * g.dim)
          ((annSerialize float4 g).drop (blobGraph (headerFields g)).embeddings)) } := rfl
  have hids' : readCells int64 g.chunkIds.length ((annSerialize float4 g).drop 32) =
      g.chunkIds := by
    rw [hids]
    exact readCells_writeCells h.ids _
  have hedges' : pieces g.m g.chunkIds.length (readCells int32 (g.chunkIds.length * g.m)
      ((annSerialize float4 g).drop (blobGraph (headerFields g)).edges)) = g.edges := by
    rw [hedgesAt, hedges, ← h.rows]
    exact pieces_readCells h.slots h.edges _
  have hembs' : pieces g.dim g.chunkIds.length (readCells float4 (g.chunkIds.length * g.dim)
      ((annSerialize float4 g).drop (blobGraph (headerFields g)).embeddings)) = g.embeddings := by
    rw [hembsAt, hembs, ← h.vectors, ← append_nil (writeCells _ _)]
    exact pieces_readCells h.dims h.floats _
  rw [hread, hids', hedges', hembs', Metric.ofCode_code]

end

end

/-! ## What is built -/

section

variable {F D : Type} [LT D] [DecidableLT D] [BEq D] {ar : Arith F D} {float4 : Cell 4 F}
variable {rows : List (Int × Vec F)} {m efConstruct : Int} {metricArg : String} {g : AnnGraph F}

structure Storable (float4 : Cell 4 F) (rows : List (Int × Vec F)) (m efConstruct : Int) :
    Prop where
  ids : ∀ r ∈ rows, int64.Fits r.1
  floats : ∀ r ∈ rows, ∀ x ∈ r.2, float4.Fits x
  m : m < 2 ^ 31
  efConstruct : efConstruct < 2 ^ 31

theorem int32_fits {i : Int} (hlow : -2147483648 ≤ i) (hhigh : i < 2147483648) : int32.Fits i := by
  show -(256 ^ 4 : Int) ≤ 2 * i ∧ 2 * i < 256 ^ 4
  omega

theorem annBuildC_dim_le (h : annBuildC ar rows m efConstruct metricArg = .ok g) :
    g.dim ≤ g.bytes := by
  obtain ⟨-, -, metric, -, ⟨-, rfl⟩ | ⟨hne, dim, -, rfl⟩⟩ := annBuildC_eq_ok h
  · exact Nat.zero_le _
  have hpos : 0 < rows.length := length_pos_iff.mpr hne
  show dim ≤ 32 + 8 * (rows.map Prod.fst).length + 4 * ((rows.map Prod.fst).length * _) +
    4 * ((rows.map Prod.fst).length * dim)
  rw [length_map]
  have hrow := Nat.le_mul_of_pos_left dim hpos
  omega

section

variable (h : annBuildC ar rows m efConstruct metricArg = .ok g)
  (hargs : Storable float4 rows m efConstruct) (hsize : g.bytes ≤ 1073741819)
include h hargs hsize

theorem fits_header : ∀ i ∈ headerFields g, int32.Fits i := by
  have hdim := annBuildC_dim_le h
  have hm := hargs.m
  have hef := hargs.efConstruct
  have hn : g.chunkIds.length ≤ g.bytes := by
    unfold AnnGraph.bytes
    omega
  have hfields : g.m = m.toNat ∧ g.efConstruct = efConstruct ∧ 0 < efConstruct ∧
      (g.entryNode = 0 ∨ g.entryNode = -1) := by
    obtain ⟨-, hpos, metric, -, ⟨-, rfl⟩ | ⟨-, dim, -, rfl⟩⟩ := annBuildC_eq_ok h
    · exact ⟨rfl, rfl, hpos, Or.inr rfl⟩
    · exact ⟨rfl, rfl, hpos, Or.inl rfl⟩
  obtain ⟨hgm, hgef, hpos, hentry⟩ := hfields
  have hcode : 1 ≤ g.metric.code ∧ g.metric.code ≤ 3 := by
    cases g.metric <;> decide
  intro i hi
  simp only [headerFields, mem_cons, not_mem_nil, or_false] at hi
  refine int32_fits ?_ ?_ <;> omega

theorem fits_build : Fits float4 g := by
  obtain ⟨hrows, hvectors, hdims, hslots, hedges⟩ := annBuildC_wellFormed h
  have hids := annBuildC_chunkIds h
  have hcount : g.chunkIds.length = rows.length := by rw [hids, length_map]
  constructor
  case header => exact fits_header h hargs hsize
  case ids =>
    rw [hids]
    exact forall_mem_map.mpr hargs.ids
  case rows => rw [hrows, hcount]
  case slots => exact hslots
  case edges =>
    intro e he
    obtain ⟨es, hes, hmem⟩ := mem_flatten.mp he
    have hn : rows.length ≤ g.bytes := by
      unfold AnnGraph.bytes
      omega
    have hedge := hedges es hes e hmem
    exact int32_fits (by omega) (by omega)
  case vectors => rw [hvectors, length_map, hcount]
  case dims => exact hdims
  case floats =>
    intro x hx
    obtain ⟨v, hv, hmem⟩ := mem_flatten.mp hx
    rw [hvectors] at hv
    obtain ⟨r, hr, rfl⟩ := mem_map.mp hv
    exact hargs.floats r hr x hmem
  case size => exact hsize

end

/-- **An accepted blob is sound exactly if its header is plausible and its edges lead to nodes**; a
graph that fits is read back from its blob; a graph that is built fits, and its edges are unused or
lead to its nodes. -/
theorem blob_sound_iff (float4 : Cell 4 F) (ar : Arith F D) :
    (∀ blob b, blob.length ≤ 1073741819 → annDecodeBlob blob = .ok b →
      (b.Sound blob ↔ b.Plausible ∧ b.Leads blob)) ∧
    (∀ g, Fits float4 g → ∃ b, annDecodeBlob (annSerialize float4 g) = .ok b ∧ b.Plausible ∧
      readGraph float4 (annSerialize float4 g) b = g) ∧
    ∀ rows m efConstruct metricArg g, annBuildC ar rows m efConstruct metricArg = .ok g →
      Storable float4 rows m efConstruct → g.bytes ≤ 1073741819 → Fits float4 g ∧
        ∀ es ∈ g.edges, ∀ e ∈ es, e = -1 ∨ 0 ≤ e ∧ e < g.chunkIds.length := by
  refine ⟨fun blob b hlen h => sound_iff h hlen, fun g hg => ?_, ?_⟩
  · exact ⟨_, hg.accepted, hg.plausible, readGraph_annSerialize hg⟩
  intro rows m efConstruct metricArg g hbuild hargs hsize
  refine ⟨fits_build hbuild hargs hsize, ?_⟩
  rw [annBuildC_chunkIds hbuild, length_map]
  exact (annBuildC_wellFormed hbuild).2.2.2.2

end

/-- The graph of the points `0` and `1` on a line. -/
def linked : AnnGraph Int := ⟨.l2, 1, 2, 64, 0, [1, 2], [[1, -1], [0, -1]], [[0], [1]]⟩

theorem blob_sound_iff_linked :
    ∃ b, annDecodeBlob (annSerialize int32 linked) = .ok b ∧
      b.Sound (annSerialize int32 linked) ∧
      readGraph int32 (annSerialize int32 linked) b = linked := by
  obtain ⟨hsound, hround, hbuilt⟩ := blob_sound_iff int32 intArith
  have hbuild : annBuildC intArith [(1, [0]), (2, [1])] 2 64 "l2" = .ok linked := by decide
  have hargs : Storable int32 [(1, [0]), (2, [1])] 2 64 := by
    refine ⟨?_, ?_, by decide, by decide⟩
    · simp [int64, leInt]
    · simp [int32, leInt]
  have hfits := (hbuilt _ _ _ _ linked hbuild hargs (by decide)).1
  obtain ⟨b, hb, hp, hread⟩ := hround linked hfits
  refine ⟨b, hb, (hsound _ b ?_ hb).mpr ⟨hp, ?_⟩, hread⟩
  · rw [hfits.length_annSerialize]
    decide
  · rw [(annDecodeBlob_eq_ok hb).1]
    unfold BlobGraph.Leads
    decide +kernel

def headed (dim m nNodes : Int) (sections : List UInt8) : List UInt8 :=
  annMagic ++ (writeCells int32 [2, dim, m, 64, nNodes, 0, 0] ++ sections)

/-- A node count of `-1` wraps around to sections of 16 bytes less than nothing. The sections of
2^30 nodes with 2^31 - 1 slots and dimensions add up to 2^64 bytes. The edge `7` of the only node is
not looked at. -/
theorem blob_unsound :
    (∃ b, annDecodeBlob (headed 1 1 (-1) []) = .ok b ∧ b.nNodes = -1) ∧
    (∃ b, annDecodeBlob (headed 2147483647 2147483647 1073741824 []) = .ok b ∧
      (headed 2147483647 2147483647 1073741824 []).length = 32 ∧ b.stop = 32 + 2 ^ 64) ∧
    ∃ b, annDecodeBlob (headed 0 1 1 [9, 0, 0, 0, 0, 0, 0, 0, 7, 0, 0, 0]) = .ok b ∧
      readGraph int32 (headed 0 1 1 [9, 0, 0, 0, 0, 0, 0, 0, 7, 0, 0, 0]) b =
        ⟨.l2, 0, 1, 64, 0, [9], [[7]], [[]]⟩ := by
  refine ⟨⟨blobGraph [2, 1, 1, 64, -1, 0, 0], ?_, rfl⟩,
    ⟨blobGraph [2, 2147483647, 2147483647, 64, 1073741824, 0, 0], ?_, ?_, ?_⟩,
    ⟨blobGraph [2, 0, 1, 64, 1, 0, 0], ?_, ?_⟩⟩
  all_goals decide +kernel

end MaluDb.Vector
