import MaluDb.Realtimed.Ws

/-!
# Waiting for frames

The loop of `_serve_ws` in `maludb_realtimed/server.py` (245-290). It waits with `select` on the
socket, and reads a frame through `rfile`, the `BufferedReader` on it.

* `queued` says how many bytes have arrived on the socket, and are not read yet, at each `recv`: it
  is how the network splits and joins what the client sends. A `recv` returns all that is queued,
  as far as it was asked for, and waits for a first byte.
* A `Socket` has the bytes still to be read from it, frame by frame. `apart` records whether so far
  no `recv` has returned bytes of two frames.
* `readBuffered` is `BufferedReader.read`. What it needs beyond its buffer it reads from the socket,
  whole multiples of the buffer's size at once, and the rest through the buffer, which it fills as
  far as the socket gives bytes.
* A `Step` leads from one wait to the next: a frame is read if the socket has bytes. What is read
  ahead does not count for `select`.

Results:

* `waits_without_frame`: while no `recv` has returned bytes of two frames, the loop never waits with
  a whole frame in the buffer.
* `waits_with_frame`: two frames that have arrived together.
-/

namespace MaluDb.Realtimed

open List

/-- The socket of the client. -/
structure Socket where
  frames : List Bytes
  /-- The number of `recv` calls so far. -/
  reads : ℕ
  apart : Bool

/-- `rfile`. -/
structure BufferedReader where
  buf : Bytes
  socket : Socket

/-- `io.DEFAULT_BUFFER_SIZE`. -/
def bufferSize : ℕ := 8192

/-- The frames without their first `k` bytes. -/
def dropBytes : ℕ → List Bytes → List Bytes
  | _, [] => []
  | k, f :: fs => if k < f.length then f.drop k :: fs else dropBytes (k - f.length) fs

section

variable (queued : ℕ → ℕ)

/-- `recv` of at most `m` bytes. -/
def rawRead (m : ℕ) (s : Socket) : Bytes × Socket :=
  let k := min (max 1 (queued s.reads)) m
  (s.frames.flatten.take k, ⟨dropBytes k s.frames, s.reads + 1,
    s.apart && decide (k ≤ (s.frames.headD []).length)⟩)

/-- The reads from the socket for `remaining` bytes, with an empty buffer that has `room`. There are
at most as many as there are bytes to read. -/
def fill : ℕ → ℕ → ℕ → Socket → Bytes × BufferedReader
  | 0, _, _, s => ([], ⟨[], s⟩)
  | fuel + 1, remaining, room, s =>
    if remaining = 0 then ([], ⟨[], s⟩)
    else
      let (chunk, s) := rawRead queued (if bufferSize ≤ remaining then
        bufferSize * (remaining / bufferSize) else room) s
      if chunk = [] then ([], ⟨[], s⟩)
      else if remaining ≤ chunk.length then (chunk.take remaining, ⟨chunk.drop remaining, s⟩)
      else
        let (more, r) := fill fuel (remaining - chunk.length)
          (if bufferSize ≤ remaining then room else room - chunk.length) s
        (chunk ++ more, r)

/-- `BufferedReader.read`. -/
def readBuffered (n : ℕ) (r : BufferedReader) : Bytes × BufferedReader :=
  if n ≤ r.buf.length then (r.buf.take n, ⟨r.buf.drop n, r.socket⟩)
  else
    let (more, r') := fill queued (n - r.buf.length) (n - r.buf.length) bufferSize r.socket
    (r.buf ++ more, r')

/-- From one wait to the next: for a notification or at the time-out, or with a frame. A close, an
error and the deadline leave the loop. -/
inductive Step : BufferedReader → BufferedReader → Prop
  | other (r : BufferedReader) : Step r r
  | frame {r r' : BufferedReader} {opcode : UInt8} {payload : Bytes}
    (hready : r.socket.frames.flatten ≠ [])
    (hrecv : recvFrame (readBuffered queued) r = (.ok (opcode, payload), r'))
    (hopen : opcode ≠ opcodeClose) : Step r r'

end

/-- A whole frame is in the buffer. -/
def HoldsFrame (buf : Bytes) : Prop :=
  ∃ b1 b2 length tail, rfcHeader buf = some (b1, b2, length, tail) ∧ 4 + length ≤ tail.length

/-- A frame that a client sends. -/
structure ClientMessage where
  opcode : Opcode
  mask : Fin 4 → UInt8
  payload : PyBytes

def ClientMessage.bytes (m : ClientMessage) : Bytes := clientFrame m.opcode m.mask m.payload

/-- The loop begins: nothing was read ahead with the handshake. -/
def started (frames : List ClientMessage) : BufferedReader :=
  ⟨[], frames.map ClientMessage.bytes, 0, true⟩

/-! ## Reading within a frame -/

theorem flatten_dropBytes : ∀ (k : ℕ) (fs : List Bytes),
    (dropBytes k fs).flatten = fs.flatten.drop k
  | k, [] => by simp [dropBytes]
  | k, f :: fs => by
    rw [dropBytes, flatten_cons, drop_append]
    split
    · rename_i hlt
      rw [flatten_cons, Nat.sub_eq_zero_of_le hlt.le, drop_zero]
    · rename_i hle
      rw [flatten_dropBytes, drop_eq_nil_of_le (Nat.le_of_not_lt hle), nil_append]

/-- The frames still to come, the first of them but for `l` read already. -/
def leftOf (l : Bytes) (later : List Bytes) : List Bytes := if l = [] then later else l :: later

variable {queued : ℕ → ℕ} {later : List Bytes} {r r' : BufferedReader} {s : Socket} {a l x : Bytes}

theorem dropBytes_leftOf (hlater : ∀ f ∈ later, f ≠ []) {k : ℕ} (hk : k ≤ x.length) :
    dropBytes k (leftOf x later) = leftOf (x.drop k) later := by
  have hzero : dropBytes 0 later = later := by
    cases later with
    | nil => rfl
    | cons f fs =>
      rw [dropBytes, if_pos (length_pos_iff.mpr (hlater f mem_cons_self)), drop_zero]
  unfold leftOf
  by_cases hx : x = []
  · obtain rfl : k = 0 := by simpa [hx] using hk
    simp [hx, hzero]
  rw [if_neg hx, dropBytes]
  by_cases hlt : k < x.length
  · rw [if_pos hlt, if_neg (by simpa using hlt)]
  · obtain rfl : k = x.length := by omega
    rw [if_neg hlt, Nat.sub_self, hzero, drop_length, if_pos rfl]

/-- What `recv` returns and leaves: bytes in the order of the stream, and while no `recv` has
returned bytes of two frames, bytes of the frame that is being read. -/
theorem rawRead_spec (hlater : ∀ f ∈ later, f ≠ []) {m : ℕ} (hm : 0 < m)
    (hne : s.frames.flatten ≠ []) (hx : s.apart = true → s.frames = leftOf x later ∧ x ≠ []) :
    (rawRead queued m s).1 ≠ [] ∧
    (rawRead queued m s).1 ++ (rawRead queued m s).2.frames.flatten = s.frames.flatten ∧
    ((rawRead queued m s).2.apart = true → ∃ x', (rawRead queued m s).1 ++ x' = x ∧
      (rawRead queued m s).2.frames = leftOf x' later) := by
  unfold rawRead
  dsimp only
  generalize hk : min (max 1 (queued s.reads)) m = k
  have hpos : 0 < k := by omega
  refine ⟨?_, ?_, fun hapart => ?_⟩
  · simpa [hpos.ne'] using hne
  · rw [flatten_dropBytes, take_append_drop]
  rw [Bool.and_eq_true, decide_eq_true_eq] at hapart
  obtain ⟨hframes, hxne⟩ := hx hapart.1
  have hle : k ≤ x.length := by simpa [hframes, leftOf, hxne] using hapart.2
  refine ⟨x.drop k, ?_, by rw [hframes, dropBytes_leftOf hlater hle]⟩
  rw [hframes, leftOf, if_neg hxne, flatten_cons, take_append_of_le_length hle, take_append_drop]

/-- The bytes left of a frame are in the buffer and on the socket, before those of later frames; and
while no `recv` has returned bytes of two frames, the buffer has nothing of a later frame. -/
def Within (later : List Bytes) (r : BufferedReader) (l : Bytes) : Prop :=
  r.buf ++ r.socket.frames.flatten = l ++ later.flatten ∧
    (r.socket.apart = true → ∃ x, r.buf ++ x = l ∧ r.socket.frames = leftOf x later)

theorem fill_within (hlater : ∀ f ∈ later, f ≠ []) : ∀ (fuel room : ℕ) {a : Bytes} {s : Socket},
    a.length ≤ fuel → (room = bufferSize ∨ a.length < room) → Within later ⟨[], s⟩ (a ++ l) →
    ∃ r, fill queued fuel a.length room s = (a, r) ∧ Within later r l
  | 0, room, a, s, hfuel, _, hs => by
    obtain rfl := length_eq_zero_iff.mp (Nat.le_zero.mp hfuel)
    exact ⟨_, rfl, hs⟩
  | fuel + 1, room, [], s, _, _, hs => ⟨_, rfl, hs⟩
  | fuel + 1, room, b :: a, s, hfuel, hroom, hs => by
    obtain ⟨hflat, hapart⟩ := hs
    have hne : s.frames.flatten ≠ [] := by
      intro hnil
      rw [hnil] at hflat
      cases hflat
    have hwant : 0 < if bufferSize ≤ (b :: a).length then
        bufferSize * ((b :: a).length / bufferSize) else room := by
      split_ifs with hdirect
      · exact Nat.mul_pos (by decide) (Nat.div_pos hdirect (by decide))
      · omega
    have hx : s.apart = true → s.frames = leftOf (b :: a ++ l) later ∧ b :: a ++ l ≠ [] := by
      intro h
      obtain ⟨x, rfl, hframes⟩ := hapart h
      exact ⟨hframes, by simp⟩
    obtain ⟨hchunk, hboth, hframe⟩ := @rawRead_spec queued later s _ hlater _ hwant hne hx
    rw [fill, if_neg (by simp)]
    generalize rawRead queued _ s = read at hchunk hboth hframe ⊢
    obtain ⟨chunk, s'⟩ := read
    dsimp only at hchunk hboth hframe ⊢
    rw [if_neg hchunk]
    have hall : chunk ++ s'.frames.flatten = b :: a ++ (l ++ later.flatten) := by
      rw [hboth, ← append_assoc]
      exact hflat
    by_cases hlen : (b :: a).length ≤ chunk.length
    · -- the chunk goes beyond what is asked for: the rest stays in the buffer
      obtain ⟨c, rfl⟩ := prefix_of_prefix_length_le (prefix_append (b :: a) _)
        (hall ▸ prefix_append chunk _) hlen
      rw [if_pos hlen, take_left, drop_left]
      refine ⟨_, rfl, ?_, fun h => ?_⟩
      · rw [append_assoc] at hall
        exact append_cancel_left hall
      · obtain ⟨x', hx', hframes'⟩ := hframe h
        rw [append_assoc] at hx'
        exact ⟨x', append_cancel_left hx', hframes'⟩
    obtain ⟨a', ha⟩ := prefix_of_prefix_length_le (prefix_append chunk _)
      (hall ▸ prefix_append (b :: a) _) (by omega)
    have hpos : 0 < chunk.length := length_pos_iff.mpr hchunk
    have hrest : (b :: a).length - chunk.length = a'.length := by simp [← ha]
    have hwithin : Within later ⟨[], s'⟩ (a' ++ l) := by
      rw [← ha] at hall hframe
      refine ⟨?_, fun h => ?_⟩
      · rw [append_assoc] at hall
        rw [append_assoc]
        exact append_cancel_left hall
      · obtain ⟨x', hx', hframes'⟩ := hframe h
        rw [append_assoc] at hx'
        exact ⟨x', append_cancel_left hx', hframes'⟩
    rw [if_neg hlen, hrest]
    obtain ⟨r, hfill, hr⟩ := fill_within hlater fuel
      (if bufferSize ≤ (b :: a).length then room else room - chunk.length) (by omega)
      (by split_ifs <;> omega) hwithin
    exact ⟨r, by rw [hfill, ha], hr⟩

theorem delivers_readBuffered (hlater : ∀ f ∈ later, f ≠ []) :
    Delivers (readBuffered queued) (Within later) := by
  rintro r a l ⟨hflat, hapart⟩
  unfold readBuffered
  by_cases hlen : a.length ≤ r.buf.length
  · rw [append_assoc] at hflat
    obtain ⟨b, hb⟩ := prefix_of_prefix_length_le (prefix_append a _)
      (hflat ▸ prefix_append r.buf _) hlen
    rw [← hb, append_assoc] at hflat
    rw [if_pos hlen, ← hb, take_left, drop_left]
    refine ⟨_, rfl, append_cancel_left hflat, fun h => ?_⟩
    obtain ⟨x, hx, hframes⟩ := hapart h
    rw [← hb, append_assoc] at hx
    exact ⟨x, append_cancel_left hx, hframes⟩
  rw [append_assoc] at hflat
  obtain ⟨b, rfl⟩ := prefix_of_prefix_length_le (prefix_append r.buf _)
    (hflat ▸ prefix_append a _) (by omega)
  have hwithin : Within later ⟨[], r.socket⟩ (b ++ l) := by
    refine ⟨?_, fun h => ?_⟩
    · rw [append_assoc] at hflat
      rw [append_assoc]
      exact append_cancel_left hflat
    · obtain ⟨x, hx, hframes⟩ := hapart h
      rw [append_assoc] at hx
      exact ⟨x, append_cancel_left hx, hframes⟩
  obtain ⟨r', hfill, hr'⟩ := fill_within hlater b.length bufferSize le_rfl (.inl rfl) hwithin
  rw [if_neg hlen, length_append, Nat.add_sub_cancel_left, hfill]
  exact ⟨r', rfl, hr'⟩

/-! ## The loop -/

/-- The buffer and the socket have whole frames, and while no `recv` returned bytes of two frames
they are all on the socket. -/
def Waiting (r : BufferedReader) : Prop :=
  ∃ frames : List ClientMessage,
    r.buf ++ r.socket.frames.flatten = (frames.map ClientMessage.bytes).flatten ∧
      (r.socket.apart = true → r.buf = [] ∧ r.socket.frames = frames.map ClientMessage.bytes)

theorem ClientMessage.bytes_ne_nil (m : ClientMessage) : m.bytes ≠ [] := by
  simp [ClientMessage.bytes, clientFrame, clientHeader]

theorem waiting_step (h : Waiting r) (hstep : Step queued r r') : Waiting r' := by
  cases hstep with
  | other => exact h
  | frame hready hrecv _ =>
    obtain ⟨frames, hflat, hapart⟩ := h
    cases frames with
    | nil =>
      rw [map_nil, flatten_nil, append_eq_nil_iff] at hflat
      exact absurd hflat.2 hready
    | cons m frames =>
      have hlater : ∀ f ∈ frames.map ClientMessage.bytes, f ≠ [] :=
        forall_mem_map.mpr fun m _ => m.bytes_ne_nil
      have hwithin : Within (frames.map ClientMessage.bytes) r (m.bytes ++ []) := by
        rw [append_nil]
        refine ⟨hflat, fun h => ⟨m.bytes, ?_, ?_⟩⟩
        · rw [(hapart h).1, nil_append]
        · rw [(hapart h).2, leftOf, if_neg m.bytes_ne_nil, map_cons]
      obtain ⟨r₁, hrecv₁, hflat₁, hapart₁⟩ :=
        (delivers_readBuffered hlater).recvFrame m.opcode m.mask m.payload hwithin
      obtain rfl : r₁ = r' := congrArg Prod.snd (hrecv₁.symm.trans hrecv)
      refine ⟨frames, hflat₁, fun h => ?_⟩
      obtain ⟨x, hx, hframes⟩ := hapart₁ h
      obtain ⟨hbuf, rfl⟩ := append_eq_nil_iff.mp hx
      exact ⟨hbuf, hframes⟩

/-- **While no `recv` has returned bytes of two frames, the loop never waits with a whole frame in
the buffer**, however the network splits and coalesces what the client sends. -/
theorem waits_without_frame (queued : ℕ → ℕ) (frames : List ClientMessage) (r : BufferedReader)
    (hr : Relation.ReflTransGen (Step queued) (started frames) r)
    (hapart : r.socket.apart = true) : ¬ HoldsFrame r.buf := by
  have hwaiting : Waiting r := by
    clear hapart
    induction hr with
    | refl => exact ⟨frames, rfl, fun _ => ⟨rfl, rfl⟩⟩
    | tail _ hstep ih => exact waiting_step ih hstep
  obtain ⟨frames', -, hbuf⟩ := hwaiting
  rw [(hbuf hapart).1]
  rintro ⟨_, _, _, _, hheader, -⟩
  cases hheader

/-- A ping without payload. -/
def ping : ClientMessage := ⟨9, fun _ => 0, ⟨[], by decide⟩⟩

/-- Two pings, the second of which arrives after the first was read: the loop waits for it on the
socket. The first comes in two parts. -/
theorem waits_without_frame_pings :
    ∃ r, Relation.ReflTransGen (Step fun i => if i = 0 then 2 else 4) (started [ping, ping]) r ∧
      r.socket.frames = [ping.bytes] ∧ ¬ HoldsFrame r.buf := by
  have hrecv : recvFrame (readBuffered fun i => if i = 0 then 2 else 4) (started [ping, ping]) =
      (.ok (9, []), ⟨[], [ping.bytes], 2, true⟩) := by
    rfl
  have hstep : Step (fun i => if i = 0 then 2 else 4) (started [ping, ping])
      ⟨[], [ping.bytes], 2, true⟩ := by
    refine .frame ?_ hrecv (by decide)
    simp [started, ping.bytes_ne_nil]
  exact ⟨_, .single hstep, rfl, waits_without_frame _ _ _ (.single hstep) rfl⟩

/-- Two pings that have arrived together: the first read takes both, and the loop waits on the
socket, which has nothing, while the second one is in the buffer. -/
theorem waits_with_frame :
    ∃ r, Relation.ReflTransGen (Step fun _ => 12) (started [ping, ping]) r ∧
      r.socket.frames = [] ∧ HoldsFrame r.buf := by
  have hrecv : recvFrame (readBuffered fun _ => 12) (started [ping, ping]) =
      (.ok (9, []), ⟨ping.bytes, [], 1, false⟩) := by
    rfl
  refine ⟨⟨ping.bytes, [], 1, false⟩, .single (.frame ?_ hrecv (by decide)), rfl, ?_⟩
  · simp [started, ping.bytes_ne_nil]
  · exact ⟨0x89, 0x80, 0, [0, 0, 0, 0], rfl, by decide⟩

end MaluDb.Realtimed
