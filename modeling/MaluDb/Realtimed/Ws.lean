import MaluDb.Lib.Machine
import Mathlib.Data.List.GetD

/-!
# WebSocket frames

`_send_frame`, `_read_exact` and `recv_frame` of `maludb_realtimed/ws.py`.

* A `PyBytes` is a `bytes` object, which has fewer than 2^63 bytes.
* A reader is a function `read` on its states: `read n` gives at most `n` bytes, and none only at
  the end of the stream. `recvFrame` is over any reader; `readStream` is the reader whose state is
  the bytes still to come.
* `Raised` are the exceptions that leave `recv_frame`. A `read` of 2^63 bytes or more is an
  `OverflowError`. That memory runs out is left out.
* `rfcHeader` and `rfcDecode` are the base framing of RFC 6455, section 5.2.
-/

namespace MaluDb.Realtimed

open MaluDb.Lib.Machine List UInt8

abbrev Bytes := List UInt8

/-- A `bytes` object. -/
structure PyBytes where
  data : Bytes
  fits : data.length < 2 ^ 63

/-- The opcodes are four bits. -/
abbrev Opcode := Fin 16

def opcodeClose : UInt8 := 8

/-! ## Sending -/

/-- `_send_frame`: the bytes written. -/
def sendFrame (opcode : Opcode) (payload : PyBytes) : Bytes :=
  let n := payload.data.length
  let header : Bytes :=
    if n < 126 then [ofNat n]
    else if n ≤ 0xFFFF then 126 :: beBytes 2 n
    else 127 :: beBytes 8 n
  (0x80 ||| (ofNat opcode &&& 0x0F)) :: header ++ payload.data

/-! ## Receiving -/

/-- The exceptions. -/
inductive Raised where
  | wsError (message : String)
  | indexError
  | structError
  | overflowError
  deriving DecidableEq

section

variable {σ : Type} (read : ℕ → σ → Bytes × σ)

/-- The loop of `_read_exact`. It has at most as many turns as there are bytes to read. -/
def readLoop : ℕ → ℕ → σ → Bytes × σ
  | 0, _, s => ([], s)
  | fuel + 1, remaining, s =>
    if remaining = 0 then ([], s)
    else
      let (buf, s) := read remaining s
      if buf = [] then ([], s)
      else
        let (chunks, s) := readLoop fuel (remaining - buf.length) s
        (buf ++ chunks, s)

/-- `_read_exact`. -/
def readExact (n : ℕ) (s : σ) : Bytes × σ := readLoop read n n s

/-- `struct.unpack` of an unsigned number of `w` bytes. -/
def unpack (w : ℕ) (bytes : Bytes) : Except Raised ℕ :=
  if bytes.length = w then .ok (beNat bytes) else .error .structError

def recvLength (b2 : UInt8) (s : σ) : Except Raised ℕ × σ :=
  if b2 &&& 0x7F = 126 then
    let (ext, s) := readExact read 2 s
    (unpack 2 ext, s)
  else if b2 &&& 0x7F = 127 then
    let (ext, s) := readExact read 8 s
    (unpack 8 ext, s)
  else (.ok (b2 &&& 0x7F).toNat, s)

/-- `bytes(raw[i] ^ mask[i % 4] for i in range(length))`; an index out of range raises. -/
def unmask (raw mask : Bytes) (length : ℕ) : Option Bytes :=
  if ∀ i < length, i < raw.length ∧ i % 4 < mask.length then
    some ((range length).map fun i => raw.getD i 0 ^^^ mask.getD (i % 4) 0)
  else none

/-- `recv_frame` behind the header: mask, payload and the test of FIN. -/
def recvPayload (b1 : UInt8) (length : ℕ) (s : σ) : Except Raised (UInt8 × Bytes) × σ :=
  let (mask, s) := readExact read 4 s
  if 2 ^ 63 ≤ length then (.error .overflowError, s)
  else
    let (raw, s) := if length = 0 then ([], s) else readExact read length s
    match unmask raw mask length with
    | none => (.error .indexError, s)
    | some payload =>
      if b1 &&& 0x80 = 0 then (.error (.wsError "fragmented frames not supported"), s)
      else (.ok (b1 &&& 0x0F, payload), s)

/-- `recv_frame`. -/
def recvFrame (s : σ) : Except Raised (UInt8 × Bytes) × σ :=
  match readExact read 2 s with
  | (b1 :: b2 :: _, s) =>
    match recvLength read b2 s with
    | (.error e, s) => (.error e, s)
    | (.ok length, s) =>
      if b2 &&& 0x80 = 0 then (.error (.wsError "client sent unmasked frame"), s)
      else recvPayload read b1 length s
  | (_ :: [], s) => (.error .indexError, s)
  | ([], s) => (.ok (opcodeClose, []), s)

end

def readStream (n : ℕ) (s : Bytes) : Bytes × Bytes := (s.take n, s.drop n)

/-! ## The framing of RFC 6455 -/

def rfcHeader : Bytes → Option (UInt8 × UInt8 × ℕ × Bytes)
  | b1 :: b2 :: s =>
    if b2 &&& 0x7F = 126 then
      if 2 ≤ s.length then some (b1, b2, beNat (s.take 2), s.drop 2) else none
    else if b2 &&& 0x7F = 127 then
      if 8 ≤ s.length then some (b1, b2, beNat (s.take 8), s.drop 8) else none
    else some (b1, b2, (b2 &&& 0x7F).toNat, s)
  | _ => none

def minimalForm (length : ℕ) : UInt8 :=
  if length < 126 then ofNat length else if length ≤ 0xFFFF then 126 else 127

def extension (length : ℕ) : Bytes :=
  if length < 126 then [] else if length ≤ 0xFFFF then beBytes 2 length else beBytes 8 length

def maskWith (mask : Fin 4 → UInt8) (data : Bytes) : Bytes :=
  data.mapIdx fun i b => b ^^^ mask ⟨i % 4, Nat.mod_lt i (by decide)⟩

/-- An unfragmented frame without extensions, not masked: its opcode, its payload and the bytes
behind it. -/
def rfcDecode (s : Bytes) : Option (UInt8 × Bytes × Bytes) :=
  match rfcHeader s with
  | none => none
  | some (b1, b2, length, s) =>
    if b1 &&& 0xF0 = 0x80 ∧ b2 = minimalForm length ∧ length < 2 ^ 63 ∧ length ≤ s.length then
      some (b1 &&& 0x0F, s.take length, s.drop length)
    else none

def clientHeader (opcode : Opcode) (length : ℕ) : Bytes :=
  (0x80 ||| ofNat opcode) :: (0x80 ||| minimalForm length) ::
    extension length

/-- A frame of a client. -/
def clientFrame (opcode : Opcode) (mask : Fin 4 → UInt8) (payload : PyBytes) : Bytes :=
  clientHeader opcode payload.data.length ++ ofFn mask ++ maskWith mask payload.data

/-! ## Round trips -/

section

variable {σ : Type} {read : ℕ → σ → Bytes × σ} {R : σ → Bytes → Prop} {s : σ} {a l : Bytes}

/-- The reader delivers the bytes that `R` gives for its state, and keeps to `R`. -/
def Delivers (read : ℕ → σ → Bytes × σ) (R : σ → Bytes → Prop) : Prop :=
  ∀ s a l, R s (a ++ l) → ∃ s', read a.length s = (a, s') ∧ R s' l

theorem delivers_readStream (rest : Bytes) :
    Delivers readStream fun s l => s = l ++ rest := by
  rintro _ a l rfl
  exact ⟨l ++ rest, by simp [readStream], rfl⟩

theorem Delivers.readExact (h : Delivers read R) (hR : R s (a ++ l)) :
    ∃ s', readExact read a.length s = (a, s') ∧ R s' l := by
  cases a with
  | nil => exact ⟨s, rfl, hR⟩
  | cons b a =>
    obtain ⟨s', hread, hR'⟩ := h s (b :: a) l hR
    refine ⟨s', ?_, hR'⟩
    have hdone : readLoop read a.length 0 s' = ([], s') := by
      cases a <;> rfl
    rw [length_cons] at hread
    simp [Realtimed.readExact, readLoop, hread, hdone]

theorem minimalForm_low (n : ℕ) :
    (0x80 ||| minimalForm n) &&& 0x7F = minimalForm n ∧ minimalForm n &&& 0x7F = minimalForm n ∧
      (0x80 ||| minimalForm n) &&& 0x80 ≠ 0 := by
  have hall : ∀ i : Fin 128, (0x80 ||| ofNat i) &&& 0x7F = ofNat i ∧
      ofNat i &&& 0x7F = ofNat i ∧ (0x80 ||| ofNat i) &&& 0x80 ≠ 0 := by
    decide +kernel
  unfold minimalForm
  split_ifs with hn
  · exact hall ⟨n, by omega⟩
  · exact hall 126
  · exact hall 127

theorem minimalForm_of_lt {n : ℕ} (h : n < 126) :
    minimalForm n = ofNat n ∧ ofNat n ≠ 126 ∧ ofNat n ≠ 127 ∧
      (ofNat n).toNat = n := by
  have hall : ∀ i : Fin 126, ofNat i ≠ 126 ∧ ofNat i ≠ 127 ∧
      (ofNat i).toNat = i := by
    decide +kernel
  exact ⟨if_pos h, hall ⟨n, h⟩⟩

theorem Delivers.recvLength (h : Delivers read R) {n : ℕ} (hn : n < 2 ^ 63)
    (hR : R s (extension n ++ l)) :
    ∃ s', recvLength read (0x80 ||| minimalForm n) s = (.ok n, s') ∧ R s' l := by
  unfold Realtimed.recvLength
  rw [(minimalForm_low n).1]
  unfold extension at hR
  by_cases hshort : n < 126
  · obtain ⟨hform, h126, h127, hval⟩ := minimalForm_of_lt hshort
    rw [if_pos hshort] at hR
    exact ⟨s, by simp [hform, h126, h127, hval], hR⟩
  rw [if_neg hshort] at hR
  by_cases hmid : n ≤ 0xFFFF
  · rw [if_pos hmid] at hR
    obtain ⟨s', hread, hR'⟩ := h.readExact hR
    rw [length_beBytes] at hread
    refine ⟨s', ?_, hR'⟩
    simp [minimalForm, hshort, hmid, hread, unpack, beNat_beBytes (show n < 256 ^ 2 by omega)]
  rw [if_neg hmid] at hR
  obtain ⟨s', hread, hR'⟩ := h.readExact hR
  rw [length_beBytes] at hread
  refine ⟨s', ?_, hR'⟩
  simp [minimalForm, hshort, hmid, hread, unpack, beNat_beBytes (show n < 256 ^ 8 by omega)]

@[simp] theorem length_maskWith (mask : Fin 4 → UInt8) (data : Bytes) :
    (maskWith mask data).length = data.length := by
  simp [maskWith]

theorem unmask_maskWith (mask : Fin 4 → UInt8) (data : Bytes) :
    unmask (maskWith mask data) (List.ofFn mask) data.length = some data := by
  have hfour : ∀ i, i % 4 < 4 := fun i => Nat.mod_lt i (by decide)
  unfold unmask
  rw [if_pos fun i hi => ⟨by simpa using hi, by simpa using hfour i⟩]
  refine congrArg some (ext_getElem (by simp) fun i hi hi' => ?_)
  rw [List.getElem_map, List.getElem_range, getD_eq_getElem _ _ (by simpa using hi'),
    getD_eq_getElem _ _ (by simpa using hfour i), List.getElem_ofFn]
  have hmasked : (maskWith mask data).get ⟨i, by simpa using hi'⟩ =
      data.get ⟨i, hi'⟩ ^^^ mask ⟨i % 4, hfour i⟩ := by
    simp [maskWith]
  rw [List.get_eq_getElem, List.get_eq_getElem] at hmasked
  rw [hmasked, UInt8.xor_assoc, UInt8.xor_self, UInt8.xor_zero]

theorem opcode_bits (opcode : Opcode) :
    (0x80 ||| ofNat opcode) &&& 0x0F = ofNat opcode ∧
      (0x80 ||| ofNat opcode) &&& 0x80 ≠ 0 ∧
      (0x80 ||| ofNat opcode) &&& 0xF0 = 0x80 ∧
      ofNat opcode &&& 0x0F = ofNat opcode := by
  decide +revert

/-- **A client's frame is received** through every reader that delivers it, and nothing more is
read. -/
theorem Delivers.recvFrame (h : Delivers read R) (opcode : Opcode) (mask : Fin 4 → UInt8)
    (payload : PyBytes) (hR : R s (clientFrame opcode mask payload ++ l)) :
    ∃ s', recvFrame read s = (.ok (ofNat opcode, payload.data), s') ∧ R s' l := by
  obtain ⟨data, hfits⟩ := payload
  have hsplit : clientFrame opcode mask ⟨data, hfits⟩ ++ l =
      [0x80 ||| ofNat opcode, 0x80 ||| minimalForm data.length] ++
        (extension data.length ++ (ofFn mask ++ (maskWith mask data ++ l))) := by
    simp [clientFrame, clientHeader, extension]
  rw [hsplit] at hR
  obtain ⟨s₁, h₁, hR⟩ := h.readExact hR
  obtain ⟨s₂, h₂, hR⟩ := h.recvLength hfits hR
  obtain ⟨s₃, h₃, hR⟩ := h.readExact hR
  obtain ⟨s₄, h₄, hR⟩ := h.readExact hR
  rw [length_ofFn] at h₃
  rw [length_maskWith] at h₄
  have hraw : (if data.length = 0 then ([], s₃) else Realtimed.readExact read data.length s₃) =
      (maskWith mask data, s₄) := by
    split_ifs with h0
    · obtain rfl := length_eq_zero_iff.mp h0
      exact h₄
    · exact h₄
  obtain ⟨hlow, hfin, -, -⟩ := opcode_bits opcode
  refine ⟨s₄, ?_, hR⟩
  simp only [Realtimed.recvFrame, show (2 : ℕ) = [0x80 ||| ofNat opcode,
    0x80 ||| minimalForm data.length].length from rfl, h₁, h₂, (minimalForm_low _).2.2, if_false]
  simp only [recvPayload, h₃, Nat.not_le.mpr hfits, if_false, hraw, unmask_maskWith, hfin, hlow]

theorem sendFrame_eq (opcode : Opcode) (payload : PyBytes) :
    sendFrame opcode payload = (0x80 ||| ofNat opcode) :: minimalForm payload.data.length ::
      (extension payload.data.length ++ payload.data) := by
  simp only [sendFrame, minimalForm, extension, (opcode_bits opcode).2.2.2]
  split_ifs <;> rfl

theorem rfcHeader_minimal {n : ℕ} (hn : n < 2 ^ 63) (b1 : UInt8) (l : Bytes) :
    rfcHeader (b1 :: minimalForm n :: (extension n ++ l)) = some (b1, minimalForm n, n, l) := by
  simp only [rfcHeader, (minimalForm_low n).2.1]
  by_cases hshort : n < 126
  · obtain ⟨hform, h126, h127, hval⟩ := minimalForm_of_lt hshort
    simp [hform, h126, h127, hval, extension, hshort]
  · by_cases hmid : n ≤ 0xFFFF
    · simp [minimalForm, extension, hshort, hmid, beNat_beBytes (show n < 256 ^ 2 by omega)]
    · simp [minimalForm, extension, hshort, hmid, beNat_beBytes (show n < 256 ^ 8 by omega)]

/-- **Round trips.** A frame that is sent is decoded to its opcode and payload, and a frame of a
client is received as its opcode and payload, whatever the mask; the bytes behind it are left. -/
theorem frames_roundTrip (opcode : Opcode) (payload : PyBytes) (mask : Fin 4 → UInt8)
    (rest : Bytes) :
    rfcDecode (sendFrame opcode payload ++ rest) = some (ofNat opcode, payload.data, rest) ∧
      recvFrame readStream (clientFrame opcode mask payload ++ rest) =
        (.ok (ofNat opcode, payload.data), rest) := by
  constructor
  · obtain ⟨hlow, -, hhigh, -⟩ := opcode_bits opcode
    rw [sendFrame_eq, cons_append, cons_append, append_assoc, rfcDecode,
      rfcHeader_minimal payload.fits]
    dsimp only
    rw [if_pos ⟨hhigh, rfl, payload.fits, by simp⟩]
    simp [hlow]
  · obtain ⟨s', hrecv, rfl⟩ := (delivers_readStream rest).recvFrame (l := [])
      (s := clientFrame opcode mask payload ++ rest) opcode mask payload (by simp)
    simpa using hrecv

end

/-! ## Streams that end anywhere -/

/-- A frame of which every byte has been received: its opcode, its payload and what follows. -/
def Received (s : Bytes) (opcode : UInt8) (payload rest : Bytes) : Prop :=
  ∃ b1 b2 length tail, rfcHeader s = some (b1, b2, length, tail) ∧ 4 + length ≤ tail.length ∧
    opcode = b1 &&& 0x0F ∧ unmask ((tail.drop 4).take length) (tail.take 4) length = some payload ∧
    rest = tail.drop (4 + length)

/-- `recv_frame` returns a frame that was received, a close at the end of the stream, or raises
`WSError`. -/
def Proper (s : Bytes) : Prop :=
  match recvFrame readStream s with
  | (.ok (opcode, payload), rest) =>
    s = [] ∧ opcode = opcodeClose ∧ payload = [] ∨ Received s opcode payload rest
  | (.error (.wsError _), _) => True
  | (.error _, _) => False

/-- The stream does not end inside a frame, or inside one that is refused anyway: without a mask, or
empty and fragmented. -/
def NotCut (s : Bytes) : Prop :=
  match rfcHeader s with
  | none => s = []
  | some (b1, b2, length, tail) => b2 &&& 0x80 = 0 ∨
    length < 2 ^ 63 ∧ (4 + length ≤ tail.length ∨ length = 0 ∧ b1 &&& 0x80 = 0)

theorem readExact_readStream (n : ℕ) (s : Bytes) :
    readExact readStream n s = (s.take n, s.drop n) := by
  have hzero : ∀ fuel l, readLoop readStream fuel 0 l = ([], l) := by
    intro fuel l
    cases fuel <;> rfl
  have hnil : ∀ fuel k, readLoop readStream fuel k [] = ([], []) := by
    intro fuel k
    cases fuel <;> simp [readLoop, readStream]
  cases n with
  | zero => rfl
  | succ n =>
    by_cases hn : n + 1 ≤ s.length
    · have hmin : n + 1 - min (n + 1) s.length = 0 := by omega
      have hne : s ≠ [] := by
        rintro rfl
        simp at hn
      simp [readExact, readLoop, readStream, hmin, hzero, hne]
    · have hdrop : s.drop (n + 1) = [] := drop_eq_nil_of_le (by omega)
      by_cases hs : s = []
      · simp [readExact, readLoop, readStream, hs]
      · simp [readExact, readLoop, readStream, hdrop, hnil, hs]

theorem unmask_of_le {raw mask : Bytes} {length : ℕ} (hmask : 4 ≤ mask.length)
    (hraw : length ≤ raw.length) : ∃ payload, unmask raw mask length = some payload :=
  ⟨_, if_pos fun i hi => ⟨by omega, by omega⟩⟩

theorem unmask_of_lt {raw mask : Bytes} {length : ℕ} (h : raw.length < length) :
    unmask raw mask length = none :=
  if_neg fun hall => absurd (hall raw.length h).1 (lt_irrefl _)

theorem recvFrame_readStream (s : Bytes) : recvFrame readStream s =
    match rfcHeader s with
    | some (b1, b2, length, tail) =>
      if b2 &&& 0x80 = 0 then (.error (.wsError "client sent unmasked frame"), tail)
      else recvPayload readStream b1 length tail
    | none => (if s = [] then .ok (opcodeClose, []) else
        .error (if s.length = 1 then .indexError else .structError), []) := by
  match s with
  | [] => rfl
  | [_] => simp [recvFrame, readExact_readStream, rfcHeader]
  | b1 :: b2 :: s =>
    simp only [recvFrame, readExact_readStream, recvLength, rfcHeader, unpack, length_take]
    by_cases h126 : b2 &&& 0x7F = 126
    · by_cases hlen : 2 ≤ s.length
      · simp [h126, hlen]
      · simp [h126, hlen, show min 2 s.length ≠ 2 by omega,
          drop_eq_nil_of_le (show s.length ≤ 2 by omega)]
    by_cases h127 : b2 &&& 0x7F = 127
    · by_cases hlen : 8 ≤ s.length
      · simp [h127, hlen]
      · simp [h127, hlen, show min 8 s.length ≠ 8 by omega,
          drop_eq_nil_of_le (show s.length ≤ 8 by omega)]
    · simp [h126, h127]

/-- **What `recv_frame` does is proper exactly if the stream is not cut inside a frame.** -/
theorem recvFrame_proper_iff (s : Bytes) : Proper s ↔ NotCut s := by
  unfold Proper NotCut
  rw [recvFrame_readStream]
  cases hheader : rfcHeader s with
  | none =>
    by_cases hs : s = []
    · simp [hs]
    · by_cases hone : s.length = 1
      · simp [hs, hone]
      · simp [hs, hone]
  | some header =>
    obtain ⟨b1, b2, length, tail⟩ := header
    dsimp only
    by_cases hmask : b2 &&& 0x80 = 0
    · simp [hmask]
    have hs : s ≠ [] := by
      rintro rfl
      cases hheader
    by_cases hbig : 2 ^ 63 ≤ length
    · simp only [hmask, if_false, false_or, recvPayload, readExact_readStream, hbig, if_true,
        Nat.not_lt.mpr hbig, false_and]
    have hlt := Nat.not_le.mp hbig
    have hraw : (if length = 0 then ([], tail.drop 4) else
        ((tail.drop 4).take length, (tail.drop 4).drop length)) =
          ((tail.drop 4).take length, tail.drop (4 + length)) := by
      split_ifs with h0 <;> simp [h0, drop_drop]
    simp only [hmask, if_false, false_or, recvPayload, readExact_readStream, hbig, hlt,
      true_and, hraw]
    by_cases hall : 4 + length ≤ tail.length
    · obtain ⟨payload, hpayload⟩ : ∃ payload,
          unmask ((tail.drop 4).take length) (tail.take 4) length = some payload :=
        unmask_of_le (by simp; omega) (by simp; omega)
      rw [hpayload]
      by_cases hfin : b1 &&& 0x80 = 0
      · simp [hfin, hall]
      · simp only [hfin, if_false, hall, true_or, iff_true]
        exact .inr ⟨b1, b2, length, tail, hheader, hall, rfl, hpayload, rfl⟩
    by_cases h0 : length = 0
    · by_cases hfin : b1 &&& 0x80 = 0
      · simp [h0, hfin, unmask]
      simp only [h0, unmask, hs, hfin, if_false, false_and, false_or, and_false, or_false]
      refine iff_of_false ?_ (by omega)
      rintro ⟨_, _, _, _, hheader', hall', -⟩
      rw [hheader] at hheader'
      cases hheader'
      exact hall hall'
    · rw [unmask_of_lt (by simp; omega)]
      simp [hall, h0]

/-- Cut in the header, in the extended length and in the payload, other exceptions leave
`recv_frame`; cut in the mask of an empty frame, the frame is returned. -/
theorem recvFrame_cut :
    (recvFrame readStream [0x81]).1 = .error .indexError ∧
      (recvFrame readStream [0x81, 0xFE, 0]).1 = .error .structError ∧
      (recvFrame readStream [0x81, 0x81, 1, 2, 3, 4]).1 = .error .indexError ∧
      (recvFrame readStream [0x81, 0x80]).1 = .ok (1, []) ∧ ¬ Proper [0x81, 0x80] := by
  refine ⟨by decide, by decide, by decide, by decide, ?_⟩
  rintro (⟨hs, -⟩ | ⟨_, _, _, _, hheader, hall, -⟩)
  · cases hs
  · cases hheader
    exact absurd hall (by decide)

end MaluDb.Realtimed
