import MaluDb.Lib.Loop
import MaluDb.Lib.Machine
import MaluDb.Secret.File

/-!
# Reading an https secret

`read_https_secret` of `src/maludb_secret.c` and `curl_sink_write`, the function that libcurl calls
with each part of the response.

* A `Delivery` is one call: `nmemb` members of `size` bytes each, smaller than 2^63 bytes.
* The buffer is a block of cells; `none` is a byte that has not been written since the block was
  allocated. Sizes are `size_t`.
* The loop that grows the buffer runs with fuel: `none` means that it did not end in time.
-/

namespace MaluDb.Secret

open Lib Lib.Machine List Nat

/-! ## Model -/

/-- A part of the response. -/
structure Delivery where
  size : ℕ
  nmemb : ℕ
  bytes : List UInt8
  length_bytes : bytes.length = size * nmemb
  fits : bytes.length < 2 ^ 63

/-- `curl_sink_t`. -/
structure Sink where
  buf : List (Option UInt8)
  len : ℕ
  cap : ℕ
  capMax : ℕ

def palloc (n : ℕ) : List (Option UInt8) := replicate n none

/-- `repalloc`. -/
def repalloc (buf : List (Option UInt8)) (n : ℕ) : List (Option UInt8) :=
  buf.take n ++ palloc (n - buf.length)

/-- `memcpy(buf + k, src, …)`. -/
def memcpy (buf : List (Option UInt8)) (k : ℕ) (src : List UInt8) : List (Option UInt8) :=
  buf.take k ++ src.map some ++ buf.drop (k + src.length)

/-- `new_cap`. -/
def Sink.newCap (s : Sink) : ℕ :=
  let newCap := if s.cap ≠ 0 then sizeMul s.cap 2 else 4096
  if s.capMax < newCap then s.capMax else newCap

/-- The body of the loop. -/
def Sink.grow (s : Sink) : Sink :=
  { s with buf := repalloc s.buf (sizeAdd s.newCap 1), cap := s.newCap }

/-- A turn of `while (s->len + want >= s->cap)`. -/
def growTurn (want : ℕ) (s : Sink) (_ : Unit) : Next Sink Sink :=
  if s.cap ≤ sizeAdd s.len want then .again s.grow else .stop s

/-- The loop, for at most `fuel` tests of its condition. -/
def growLoop (fuel want : ℕ) (s : Sink) : Option Sink :=
  loop (growTurn want) (replicate fuel ()) s

/-- `curl_sink_write`, with the number it returns. -/
def curlSinkWrite (fuel : ℕ) (s : Sink) (d : Delivery) : Option (Sink × ℕ) :=
  let want := sizeMul d.size d.nmemb
  if s.capMax < sizeAdd s.len want then some (s, 0)
  else (growLoop fuel want s).map fun s =>
    ({ s with buf := memcpy s.buf s.len d.bytes, len := sizeAdd s.len want }, want)

/-- The calls of a transfer: libcurl gives up when one returns another number than it was given. -/
def deliver (fuel : ℕ) : Sink → List Delivery → Option (Sink × Bool)
  | s, [] => some (s, true)
  | s, d :: ds =>
    match curlSinkWrite fuel s d with
    | none => none
    | some (s', n) => if n = d.size * d.nmemb then deliver fuel s' ds else some (s', false)

def newSink : Sink := ⟨palloc 4096, 0, 4096, 1048576⟩

/-- What libcurl does for a URL: the parts that it delivers, the error that it ends with if the sink
takes all of them, and the status. -/
structure Transfer where
  inited : Bool
  deliveries : List Delivery
  failure : Option (List Char)
  status : Int

inductive HttpsError where
  | scheme
  | initFailed
  | getFailed (strerror : List Char)
  | status (status : Int)

/-- The text of a rejection. -/
def HttpsError.text : HttpsError → List Char
  | .scheme => "secret URL must start with https:// (plain http is rejected)".toList
  | .initFailed => "curl_easy_init failed".toList
  | .getFailed e => "https GET failed: ".toList ++ e
  | .status n => "https GET returned HTTP ".toList ++ (toString n).toList

/-- `curl_easy_strerror(CURLE_WRITE_ERROR)`. -/
def writeError : List Char := "Failed writing received data to disk/application".toList

/-- What follows `curl_easy_perform`. -/
def answer (t : Transfer) : Sink × Bool → Except HttpsError (List UInt8)
  | (_, false) => .error (.getFailed writeError)
  | (sink, true) =>
    match t.failure with
    | some e => .error (.getFailed e)
    | none =>
      if t.status < 200 ∨ 300 ≤ t.status then .error (.status t.status)
      else .ok (trimEnd ((sink.buf.take sink.len).map fun cell => cell.getD 0))

/-- The body of `read_https_secret`. -/
def readHttps (fuel : ℕ) (url : List Char) (t : Transfer) :
    Option (Except HttpsError (List UInt8)) :=
  if "https://".toList.isPrefixOf url = false then some (.error .scheme)
  else if t.inited = false then some (.error .initFailed)
  else (deliver fuel newSink t.deliveries).map (answer t)

/-- `read_https_secret`, with the text left in `err`. -/
def readHttpsSecret (fuel : ℕ) (url : List Char) (errlen : ℕ) (t : Transfer) :
    Option (Except (List Char) (List UInt8)) :=
  (readHttps fuel url t).map fun r => r.mapError fun e => snprintf errlen e.text

/-! ## The buffer -/

variable {buf : List (Option UInt8)} {n k : ℕ} {ds : List Delivery}

theorem take_repalloc (hk : k ≤ buf.length) (hn : k ≤ n) :
    (repalloc buf n).take k = buf.take k := by
  unfold repalloc
  rw [take_append_of_le_length (by rw [length_take]; omega), take_take, min_eq_left hn]

theorem length_repalloc (buf : List (Option UInt8)) (n : ℕ) : (repalloc buf n).length = n := by
  unfold repalloc palloc
  rw [length_append, length_take, length_replicate]
  omega

theorem length_memcpy {src : List UInt8} (h : k + src.length ≤ buf.length) :
    (memcpy buf k src).length = buf.length := by
  unfold memcpy
  simp only [length_append, length_take, length_map, length_drop]
  omega

theorem take_memcpy {src : List UInt8} (h : k ≤ buf.length) :
    (memcpy buf k src).take (k + src.length) = buf.take k ++ src.map some := by
  unfold memcpy
  refine take_left' ?_
  simp only [length_append, length_take, length_map]
  omega

/-- **The sink holds `received`**, in a block that has room for its capacity. -/
structure Holds (s : Sink) (received : List UInt8) : Prop where
  stored : s.buf.take s.len = received.map some
  len : s.len = received.length
  inside : s.len < s.cap
  block : s.cap ≤ s.buf.length
  cap : 4096 ≤ s.cap
  capMax : s.capMax = 1048576
  below : s.cap ≤ s.capMax

theorem holds_newSink : Holds newSink [] where
  stored := take_zero
  len := rfl
  inside := show 0 < 4096 by decide
  block := (length_replicate).ge
  cap := le_rfl
  capMax := rfl
  below := show 4096 ≤ 1048576 by decide

variable {s : Sink} {received : List UInt8} {want fuel : ℕ} {d : Delivery}

section

variable (h : Holds s received)
include h

theorem Holds.newCap : s.newCap = min (2 * s.cap) 1048576 := by
  have hcap := h.cap
  have hbelow := h.below
  have hmax := h.capMax
  unfold Sink.newCap sizeMul
  rw [if_pos (show s.cap ≠ 0 by omega), hmax]
  dsimp only
  split <;> omega

theorem Holds.grow : Holds s.grow received := by
  have hnew := h.newCap
  have hcap := h.cap
  have hbelow := h.below
  have hmax := h.capMax
  have hinside := h.inside
  have hroom : s.cap ≤ s.newCap ∧ s.newCap ≤ 1048576 := by omega
  have hsize : sizeAdd s.newCap 1 = s.newCap + 1 := by
    unfold sizeAdd
    omega
  refine ⟨?_, h.len, hinside.trans_le hroom.1, ?_, hcap.trans hroom.1, hmax, ?_⟩
  · refine (take_repalloc (hinside.le.trans h.block) ?_).trans h.stored
    omega
  · show s.newCap ≤ (repalloc s.buf (sizeAdd s.newCap 1)).length
    rw [length_repalloc, hsize]
    exact le_succ _
  · exact hmax ▸ hroom.2

theorem Holds.length_lt : received.length < 1048576 := by
  have hbelow := h.below
  rw [h.capMax] at hbelow
  exact h.len ▸ h.inside.trans_le hbelow

/-! ## The loop -/

theorem Holds.sizeAdd (hwant : want < 2 ^ 63) : sizeAdd s.len want = received.length + want := by
  have hinside := h.inside
  have hbelow := h.below
  have hmax := h.capMax
  unfold Machine.sizeAdd
  rw [h.len] at *
  omega

theorem growTurn_of_full (hwant : want < 2 ^ 63) (hfull : s.cap ≤ received.length + want) :
    growTurn want s () = .again s.grow := by
  rw [← h.sizeAdd hwant] at hfull
  exact if_pos hfull

theorem growTurn_of_room (hwant : want < 2 ^ 63) (hroom : received.length + want < s.cap) :
    growTurn want s () = .stop s := by
  rw [← h.sizeAdd hwant] at hroom
  exact if_neg (not_le.mpr hroom)

theorem growLoop_eq_some {s' : Sink} (hwant : want < 2 ^ 63)
    (hloop : growLoop fuel want s = some s') :
    Holds s' received ∧ received.length + want < s'.cap := by
  refine loop_induct (P := fun _ _ => True) (I := fun s => Holds s received)
    (Q := fun s' => Holds s' received ∧ received.length + want < s'.cap) ?_ ?_ h
    (during_of_forall fun _ _ _ => trivial) hloop
  · intro s _ s₁ hs _ hturn
    rcases le_or_gt s.cap (received.length + want) with hfull | hroom
    · cases (growTurn_of_full hs hwant hfull).symm.trans hturn
      exact hs.grow
    · cases (growTurn_of_room hs hwant hroom).symm.trans hturn
  intro s _ s₁ hs _ hturn
  rcases le_or_gt s.cap (received.length + want) with hfull | hroom
  · cases (growTurn_of_full hs hwant hfull).symm.trans hturn
  · cases (growTurn_of_room hs hwant hroom).symm.trans hturn
    exact ⟨hs, hroom⟩

/-- **Below the limit the loop ends**: `k` doublings lead to it. -/
theorem growLoop_ends (hlt : received.length + want < 1048576) (hk : 1048576 ≤ s.cap * 2 ^ k)
    (hfuel : k < fuel) : ∃ s', growLoop fuel want s = some s' := by
  have hwant : want < 2 ^ 63 := by omega
  unfold growLoop
  induction fuel generalizing s k with
  | zero => exact absurd hfuel (not_lt_zero k)
  | succ fuel ih =>
    rw [replicate_succ]
    rcases le_or_gt s.cap (received.length + want) with hfull | hroom
    · rw [loop_of_again (growTurn_of_full h hwant hfull)]
      cases k with
      | zero => omega
      | succ k =>
        refine ih h.grow (k := k) ?_ (lt_of_succ_lt_succ hfuel)
        show 1048576 ≤ s.newCap * 2 ^ k
        rw [h.newCap]
        rcases le_total (2 * s.cap) 1048576 with hle | hle
        · rw [min_eq_left hle, mul_comm 2, mul_assoc, ← pow_succ']
          exact hk
        · rw [Nat.min_eq_right hle]
          exact Nat.le_mul_of_pos_right _ (Nat.two_pow_pos k)
    · exact ⟨s, loop_of_stop (growTurn_of_room h hwant hroom)⟩

end

/-! ## The calls -/

def bytesOf (ds : List Delivery) : List UInt8 := ds.flatMap Delivery.bytes

theorem Delivery.want_eq (d : Delivery) : sizeMul d.size d.nmemb = d.bytes.length := by
  have hfits := d.fits
  unfold sizeMul
  rw [← d.length_bytes]
  omega

section

variable (h : Holds s received)
include h

theorem curlSinkWrite_eq (fuel : ℕ) (d : Delivery) :
    curlSinkWrite fuel s d = if 1048576 < received.length + d.bytes.length then some (s, 0)
      else (growLoop fuel d.bytes.length s).map fun s =>
        ({ s with buf := memcpy s.buf s.len d.bytes, len := sizeAdd s.len d.bytes.length },
          d.bytes.length) := by
  unfold curlSinkWrite
  rw [d.want_eq]
  dsimp only
  rw [h.sizeAdd d.fits, h.capMax]

theorem curlSinkWrite_refuses (hover : 1048576 < received.length + d.bytes.length) (fuel : ℕ) :
    curlSinkWrite fuel s d = some (s, 0) := by
  rw [curlSinkWrite_eq h, if_pos hover]

theorem Holds.memcpy (hroom : received.length + d.bytes.length < s.cap) :
    Holds { s with buf := memcpy s.buf s.len d.bytes, len := received.length + d.bytes.length }
      (received ++ d.bytes) := by
  have hblock := h.block
  have hlen := h.len
  refine ⟨?_, ?_, hroom, ?_, h.cap, h.capMax, h.below⟩
  · show (Secret.memcpy s.buf s.len d.bytes).take (received.length + d.bytes.length) = _
    rw [← hlen, take_memcpy (by omega), h.stored, map_append]
  · exact length_append.symm
  · show s.cap ≤ (Secret.memcpy s.buf s.len d.bytes).length
    rw [length_memcpy (by omega)]
    exact hblock

theorem curlSinkWrite_eq_some {r : Sink × ℕ} (hle : received.length + d.bytes.length ≤ 1048576)
    (hw : curlSinkWrite fuel s d = some r) :
    ∃ s', r = (s', d.size * d.nmemb) ∧ Holds s' (received ++ d.bytes) := by
  rw [curlSinkWrite_eq h, if_neg (not_lt.mpr hle)] at hw
  obtain ⟨s₁, hloop, rfl⟩ := Option.map_eq_some_iff.mp hw
  obtain ⟨hs₁, hroom⟩ := growLoop_eq_some h d.fits hloop
  rw [hs₁.sizeAdd d.fits, ← d.length_bytes]
  exact ⟨_, rfl, hs₁.memcpy hroom⟩

theorem curlSinkWrite_stores (hlt : received.length + d.bytes.length < 1048576) (hfuel : 8 < fuel) :
    ∃ s', curlSinkWrite fuel s d = some (s', d.size * d.nmemb) ∧
      Holds s' (received ++ d.bytes) := by
  have hcap := h.cap
  obtain ⟨s₁, hloop⟩ := growLoop_ends (k := 8) h hlt (by omega) hfuel
  have hw := curlSinkWrite_eq h fuel d
  rw [if_neg (not_lt.mpr hlt.le), hloop, Option.map_some] at hw
  obtain ⟨s', hr, hs'⟩ := curlSinkWrite_eq_some h hlt.le hw
  exact ⟨s', hw.trans (congrArg some hr), hs'⟩

/-- **At exactly the limit a call does not return**: the capacity is never above it. -/
theorem curlSinkWrite_stuck (heq : received.length + d.bytes.length = 1048576) (fuel : ℕ) :
    curlSinkWrite fuel s d = none := by
  refine Option.eq_none_iff_forall_ne_some.mpr fun r hw => ?_
  obtain ⟨s', -, hs'⟩ := curlSinkWrite_eq_some h heq.le hw
  have hlt := hs'.length_lt
  rw [length_append] at hlt
  omega

/-! ## A transfer -/

theorem deliver_of_refused (ds : List Delivery) (hover : 1048576 < received.length + d.bytes.length)
    (fuel : ℕ) : deliver fuel s (d :: ds) = some (s, false) := by
  have hlt := h.length_lt
  have hne : 0 ≠ d.size * d.nmemb := by
    rw [← d.length_bytes]
    omega
  rw [deliver, curlSinkWrite_refuses h hover]
  exact if_neg hne

end

theorem deliver_of_stored {s' : Sink} (h : curlSinkWrite fuel s d = some (s', d.size * d.nmemb)) :
    deliver fuel s (d :: ds) = deliver fuel s' ds := by
  rw [deliver, h]
  exact if_pos rfl

theorem append_bytesOf_cons (received : List UInt8) (d : Delivery) (ds : List Delivery) :
    received ++ bytesOf (d :: ds) = (received ++ d.bytes) ++ bytesOf ds := by
  unfold bytesOf
  rw [flatMap_cons, append_assoc]

theorem length_bytesOf_take_le (ds : List Delivery) (n : ℕ) :
    (bytesOf (ds.take n)).length ≤ (bytesOf ds).length := by
  conv_rhs => rw [← take_append_drop n ds]
  unfold bytesOf
  rw [flatMap_append, length_append]
  exact le_add_right _ _

/-- **What a transfer leaves in the sink**: the bytes of the first `n` parts, all of them or those
before the one that goes over the limit. -/
theorem deliver_spec (h : Holds s received) (hfuel : 8 < fuel)
    (hoff : ∀ n, (received ++ bytesOf (ds.take n)).length ≠ 1048576) :
    ∃ s' n, n ≤ ds.length ∧ deliver fuel s ds = some (s', decide (n = ds.length)) ∧
      Holds s' (received ++ bytesOf (ds.take n)) ∧
      (n < ds.length → 1048576 < (received ++ bytesOf (ds.take (n + 1))).length) := by
  induction ds generalizing s received with
  | nil =>
    refine ⟨s, 0, le_rfl, rfl, ?_, fun hlt => absurd hlt (lt_irrefl 0)⟩
    rwa [take_nil, show bytesOf [] = [] from rfl, append_nil]
  | cons d ds ih =>
    have hone : (received ++ bytesOf ((d :: ds).take 1)).length =
        received.length + d.bytes.length := by
      rw [take_succ_cons, take_zero, append_bytesOf_cons]
      simp [bytesOf]
    rcases lt_trichotomy (received.length + d.bytes.length) 1048576 with hlt | heq | hover
    · obtain ⟨s₁, hwrite, hs₁⟩ := curlSinkWrite_stores h hlt hfuel
      obtain ⟨s', n, hn, hrest, hs', hmore⟩ := ih hs₁ fun n => by
        rw [← append_bytesOf_cons]
        exact hoff (n + 1)
      refine ⟨s', n + 1, succ_le_succ hn, ?_, ?_, fun hlt => ?_⟩
      · rw [deliver_of_stored hwrite, hrest]
        simp
      · rwa [take_succ_cons, append_bytesOf_cons]
      · rw [take_succ_cons, append_bytesOf_cons]
        exact hmore (lt_of_succ_lt_succ hlt)
    · exact absurd (hone.trans heq) (hoff 1)
    · refine ⟨s, 0, zero_le _, deliver_of_refused h ds hover fuel, ?_, fun _ => ?_⟩
      · rwa [take_zero, show bytesOf [] = [] from rfl, append_nil]
      · rwa [hone]

/-- **A transfer in which the bytes add up to exactly 1 MiB does not end.** -/
theorem deliver_stuck (h : Holds s received)
    (heq : (received ++ bytesOf (ds.take n)).length = 1048576) (fuel : ℕ) :
    deliver fuel s ds = none := by
  have hlt := h.length_lt
  induction ds generalizing s received n with
  | nil =>
    rw [take_nil, show bytesOf [] = [] from rfl, append_nil] at heq
    omega
  | cons d ds ih =>
    cases n with
    | zero =>
      rw [take_zero, show bytesOf [] = [] from rfl, append_nil] at heq
      omega
    | succ n =>
      rw [take_succ_cons, append_bytesOf_cons] at heq
      have hle : received.length + d.bytes.length ≤ 1048576 := by
        rw [← heq, length_append, length_append]
        exact le_add_right _ _
      cases hw : curlSinkWrite fuel s d with
      | none => rw [deliver, hw]
      | some r =>
        obtain ⟨s', rfl, hs'⟩ := curlSinkWrite_eq_some h hle hw
        rw [deliver_of_stored hw]
        exact ih hs' heq hs'.length_lt

/-- **A transfer ends exactly if its bytes never add up to exactly 1 MiB.** The sink has then stored
the bytes of all parts, or those of the parts before the one that goes over 1 MiB and fails. -/
theorem curlSink_exact (ds : List Delivery) (fuel : ℕ) (hfuel : 8 < fuel) :
    (∃ s n, n ≤ ds.length ∧ deliver fuel newSink ds = some (s, decide (n = ds.length)) ∧
      s.buf.take s.len = (bytesOf (ds.take n)).map some ∧
      (bytesOf (ds.take n)).length < 1048576 ∧
      (n < ds.length → 1048576 < (bytesOf (ds.take (n + 1))).length)) ↔
    ∀ n, (bytesOf (ds.take n)).length ≠ 1048576 := by
  constructor
  · rintro ⟨s, k, -, hdeliver, -⟩ n heq
    have hstuck := deliver_stuck holds_newSink
      (show ([] ++ bytesOf (ds.take n)).length = _ from heq) fuel
    exact Option.some_ne_none _ (hdeliver.symm.trans hstuck)
  · intro hoff
    obtain ⟨s, n, hn, hdeliver, hs, hmore⟩ := deliver_spec holds_newSink hfuel hoff
    exact ⟨s, n, hn, hdeliver, hs.stored, hs.length_lt, hmore⟩

/-- Two bytes. -/
def twoBytes : Delivery := ⟨1, 2, [97, 98], rfl, by decide⟩

/-- A part of `n` bytes. -/
def block (n : ℕ) (hn : n < 2 ^ 63) : Delivery :=
  ⟨1, n, replicate n 97, by rw [length_replicate, one_mul], by rwa [length_replicate]⟩

theorem length_bytes_block (hn : n < 2 ^ 63) : (block n hn).bytes.length = n :=
  length_replicate

/-- Two parts that do not fit in the first buffer of 4096 bytes. -/
def twoParts : List Delivery := [block 5000 (by decide), twoBytes]

theorem length_twoParts_take (n : ℕ) : (bytesOf (twoParts.take n)).length ≤ 5002 := by
  refine (length_bytesOf_take_le _ _).trans (le_of_eq ?_)
  simp [bytesOf, twoParts, length_bytes_block, twoBytes]

theorem curlSink_exact_grows :
    ∃ s, deliver 9 newSink twoParts = some (s, true) ∧
      s.buf.take s.len = (bytesOf twoParts).map some := by
  have hoff : ∀ n, (bytesOf (twoParts.take n)).length ≠ 1048576 := fun n => by
    have := length_twoParts_take n
    omega
  obtain ⟨s, n, hn, hdeliver, hstored, -, hmore⟩ :=
    (curlSink_exact twoParts 9 (by decide)).mpr hoff
  obtain rfl : n = twoParts.length := by
    by_contra hne
    have hlong := hmore (lt_of_le_of_ne hn hne)
    have := length_twoParts_take (n + 1)
    omega
  rw [decide_eq_true rfl] at hdeliver
  rw [take_length] at hstored
  exact ⟨s, hdeliver, hstored⟩

/-- A response of 1 MiB in one part, or in two, is never stored and never refused. -/
theorem curlSink_hangs :
    (∃ d : Delivery, d.bytes.length = 1048576 ∧ ∀ fuel, curlSinkWrite fuel newSink d = none) ∧
      ∃ d : Delivery, d.bytes.length = 524288 ∧ ∀ fuel, deliver fuel newSink [d, d] = none := by
  constructor
  · refine ⟨block 1048576 (by decide), length_bytes_block _, curlSinkWrite_stuck holds_newSink ?_⟩
    rw [length_bytes_block, length_nil, zero_add]
  refine ⟨block 524288 (by decide), length_bytes_block _, deliver_stuck (n := 2) holds_newSink ?_⟩
  rw [take_succ_cons, take_succ_cons, take_zero, append_bytesOf_cons,
    append_bytesOf_cons, show bytesOf [] = [] from rfl, append_nil, nil_append,
    length_append, length_bytes_block]

/-! ## The secret -/

section

variable {url : List Char} {t : Transfer}

theorem readHttps_of_scheme (hscheme : "https://".toList <+: url) (hinited : t.inited = true)
    (fuel : ℕ) : readHttps fuel url t = (deliver fuel newSink t.deliveries).map (answer t) := by
  unfold readHttps
  rw [List.isPrefixOf_iff_prefix.mpr hscheme, hinited]
  rfl

/-- **A response below 1 MiB is returned without the white space at its end**, if libcurl and the
server report success. -/
theorem readHttps_stored (hscheme : "https://".toList <+: url) (hinited : t.inited = true)
    (hlt : (bytesOf t.deliveries).length < 1048576) (hfailure : t.failure = none)
    (hstatus : 200 ≤ t.status ∧ t.status < 300) (hfuel : 8 < fuel) :
    readHttps fuel url t = some (.ok (trimEnd (bytesOf t.deliveries))) := by
  have hoff : ∀ n, ([] ++ bytesOf (t.deliveries.take n)).length ≠ 1048576 := fun n =>
    ((length_bytesOf_take_le _ n).trans_lt hlt).ne
  obtain ⟨s, n, hn, hdeliver, hs, hmore⟩ := deliver_spec holds_newSink hfuel hoff
  obtain rfl : n = t.deliveries.length := by
    by_contra hne
    have hlong := hmore (lt_of_le_of_ne hn hne)
    exact absurd (hlong.trans_le (length_bytesOf_take_le _ _)) (by omega)
  rw [take_length, nil_append] at hs
  have hread : (s.buf.take s.len).map (fun cell => cell.getD 0) = bytesOf t.deliveries := by
    rw [hs.stored, List.map_map]
    exact map_id _
  rw [readHttps_of_scheme hscheme hinited, hdeliver, decide_eq_true rfl, Option.map_some]
  unfold answer
  dsimp only
  rw [hfailure]
  dsimp only
  rw [if_neg (by omega), hread]

theorem readHttps_stored_two :
    readHttps 9 "https://a".toList ⟨true, twoParts, none, 200⟩ =
      some (.ok (trimEnd (bytesOf twoParts))) := by
  refine readHttps_stored ⟨_, rfl⟩ rfl ?_ rfl (by decide) (by decide)
  have hlen := length_twoParts_take twoParts.length
  rw [take_length] at hlen
  show (bytesOf twoParts).length < 1048576
  omega

/-- **A response above 1 MiB is rejected**, if no part ends at exactly 1 MiB. -/
theorem readHttps_refused (hscheme : "https://".toList <+: url) (hinited : t.inited = true)
    (hover : 1048576 < (bytesOf t.deliveries).length)
    (hoff : ∀ n, (bytesOf (t.deliveries.take n)).length ≠ 1048576) (hfuel : 8 < fuel) :
    readHttps fuel url t = some (.error (.getFailed writeError)) := by
  obtain ⟨s, n, hn, hdeliver, hs, -⟩ := deliver_spec holds_newSink hfuel hoff
  have hne : n ≠ t.deliveries.length := by
    rintro rfl
    have hshort := hs.length_lt
    rw [take_length, nil_append] at hshort
    omega
  rw [readHttps_of_scheme hscheme hinited, hdeliver, decide_eq_false hne]
  rfl

theorem readHttps_refused_block :
    readHttps 9 "https://a".toList ⟨true, [block 1048577 (by decide)], none, 200⟩ =
      some (.error (.getFailed writeError)) := by
  refine readHttps_refused ⟨_, rfl⟩ rfl ?_ (fun n => ?_) (by decide)
  · simp [bytesOf, length_bytes_block]
  · cases n <;> simp [bytesOf, length_bytes_block]

end

end MaluDb.Secret
