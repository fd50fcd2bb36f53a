import MaluDb.Auth.Json
import Mathlib.Data.List.Induction
import Mathlib.Tactic.Linarith
import Mathlib.Tactic.Ring

/-!
# The base64url decoder of the token verifier

`b64url_decode` of `src/maludb_auth.c` (87-140), on characters below 256. It skips padding and line
breaks wherever they are and drops bits left over at the end. `octets` says what it computes: the
bits of all digits in a row, in groups of eight.

Results:

* `b64urlDecode_fits`: what is written fits the buffer.
* `b64urlDecode_eq`: the bytes are the octets of the digits.
* `b64urlDecode_distinguishes`: the encoding of a string decodes to it; which texts decode to the
  same string.
-/

namespace MaluDb.Auth

open List Nat

abbrev Bytes := List Char

/-! ## Model -/

/-- The table `tab`. -/
def b64Value (c : Char) : Option ℕ :=
  let n := c.toNat
  if 65 ≤ n ∧ n ≤ 90 then some (n - 65)
  else if 97 ≤ n ∧ n ≤ 122 then some (n - 97 + 26)
  else if 48 ≤ n ∧ n ≤ 57 then some (n - 48 + 52)
  else if c = '-' then some 62
  else if c = '_' then some 63
  else none

/-- `=` and line breaks. -/
def isSkipped (c : Char) : Bool := c = '=' || c = '\n' || c = '\r'

/-- The loop; `buf` has 32 bits, of which the last `bits` are not yet taken out. -/
def b64Loop (buf bits : ℕ) : Bytes → Option Bytes
  | [] => some []
  | c :: src =>
    if isSkipped c then b64Loop buf bits src
    else
      match b64Value c with
      | none => none
      | some v =>
        let buf := (buf <<< 6 ||| v) % 4294967296
        if 8 ≤ bits + 6 then
          let bits := bits + 6 - 8
          (b64Loop buf bits src).map (Char.ofNat ((buf >>> bits) &&& 0xff) :: ·)
        else b64Loop buf (bits + 6) src

/-- `b64url_decode`. -/
def b64urlDecode (src : Bytes) : Option Bytes := b64Loop 0 0 src

/-- The bytes allocated for the output. -/
def outcap (src : Bytes) : ℕ := src.length * 3 / 4 + 4

/-! ## What it computes -/

/-- The bits of a digit. -/
def sixBits (v : ℕ) : List Bool :=
  [v.testBit 5, v.testBit 4, v.testBit 3, v.testBit 2, v.testBit 1, v.testBit 0]

def number (bits : List Bool) : ℕ := bits.foldl (fun n b => n * 2 + b.toNat) 0

def octets : List Bool → Bytes
  | b₇ :: b₆ :: b₅ :: b₄ :: b₃ :: b₂ :: b₁ :: b₀ :: rest =>
    Char.ofNat (number [b₇, b₆, b₅, b₄, b₃, b₂, b₁, b₀]) :: octets rest
  | _ => []

/-- The digits of a text. -/
def digits : Bytes → Option (List ℕ)
  | [] => some []
  | c :: src =>
    if isSkipped c then digits src else (b64Value c).bind fun v => (digits src).map (v :: ·)

/-! ## The loop -/

theorem b64Value_lt {c : Char} {v : ℕ} (h : b64Value c = some v) : v < 64 := by
  unfold b64Value at h
  dsimp only at h
  split_ifs at h <;> cases h <;> omega

theorem foldl_number (n : ℕ) (bits : List Bool) :
    bits.foldl (fun n b => n * 2 + b.toNat) n = n * 2 ^ bits.length + number bits := by
  induction bits using reverseRecOn with
  | nil => simp [number]
  | append_singleton bits b ih =>
    simp only [number, foldl_append, foldl_cons, foldl_nil, length_append, length_singleton] at ih ⊢
    rw [ih, pow_succ]
    ring

theorem number_append (bits bits' : List Bool) :
    number (bits ++ bits') = number bits * 2 ^ bits'.length + number bits' := by
  rw [number, foldl_append, foldl_number]
  rfl

theorem number_lt (bits : List Bool) : number bits < 2 ^ bits.length := by
  induction bits using reverseRecOn with
  | nil => simp [number]
  | append_singleton bits b ih =>
    rw [number_append, length_append, pow_add]
    have hb : number [b] < 2 := by cases b <;> decide
    simp only [length_singleton, pow_one]
    omega

theorem number_sixBits : ∀ {v : ℕ}, v < 64 → number (sixBits v) = v := by
  decide

theorem octets_append {bits : List Bool} (h : bits.length = 8) (rest : List Bool) :
    octets (bits ++ rest) = Char.ofNat (number bits) :: octets rest := by
  match bits, h with
  | [_, _, _, _, _, _, _, _], _ => rfl

theorem octets_of_lt {bits : List Bool} (h : bits.length < 8) : octets bits = [] := by
  match bits, h with
  | [], _ | [_], _ | [_, _], _ | [_, _, _], _ | [_, _, _, _], _ | [_, _, _, _, _], _
  | [_, _, _, _, _, _], _ | [_, _, _, _, _, _, _], _ => rfl

theorem buffer_mod {buf v : ℕ} {bits : List Bool} (hv : v < 64) (hbits : bits.length < 8)
    (hbuf : buf % 2 ^ bits.length = number bits) :
    (buf <<< 6 ||| v) % 4294967296 % 2 ^ (bits ++ sixBits v).length
      = number (bits ++ sixBits v) := by
  have hlen : (bits ++ sixBits v).length = bits.length + 6 := by
    rw [length_append]
    rfl
  have hdvd : 2 ^ (bits.length + 6) ∣ 4294967296 :=
    (pow_dvd_pow 2 (by omega : bits.length + 6 ≤ 32)).trans (by norm_num)
  rw [hlen, mod_mod_of_dvd _ hdvd, ← shiftLeft_add_eq_or_of_lt (by simpa using hv),
    shiftLeft_eq, number_append, number_sixBits hv, ← hbuf]
  change (buf * 64 + v) % 2 ^ (bits.length + 6) = buf % 2 ^ bits.length * 64 + v
  have hpos := Nat.two_pow_pos bits.length
  have hlt := Nat.mod_lt buf hpos
  rw [pow_add, show (2 : ℕ) ^ 6 = 64 by norm_num, add_mod, mul_mod_mul_right,
    mod_eq_of_lt (by omega : v < 2 ^ bits.length * 64), mod_eq_of_lt (by omega)]

theorem buffer_take {buf k : ℕ} {bits rest : List Bool} (hbits : bits.length = 8)
    (hrest : rest.length = k)
    (hbuf : buf % 2 ^ (bits ++ rest).length = number (bits ++ rest)) :
    (buf >>> k) &&& 0xff = number bits ∧ buf % 2 ^ k = number rest := by
  rw [length_append, hbits, hrest, pow_add, number_append, hrest] at hbuf
  have hlt := number_lt rest
  rw [hrest] at hlt
  constructor
  · rw [shiftRight_eq_div_pow, show (0xff : ℕ) = 2 ^ 8 - 1 by norm_num,
      Nat.and_two_pow_sub_one_eq_mod, ← Nat.mod_mul_left_div_self, hbuf, Nat.add_comm,
      Nat.add_mul_div_right _ _ (Nat.two_pow_pos k), Nat.div_eq_of_lt hlt, Nat.zero_add]
  · rw [← Nat.mod_mul_left_mod buf (2 ^ 8) (2 ^ k), hbuf, Nat.add_comm, Nat.add_mul_mod_self_right,
      mod_eq_of_lt hlt]

theorem b64Loop_eq : ∀ (src : Bytes) {buf : ℕ} {bits : List Bool}, bits.length < 8 →
    buf % 2 ^ bits.length = number bits → b64Loop buf bits.length src
        = (digits src).map fun vs => octets (bits ++ vs.flatMap sixBits)
  | [], buf, bits, hlen, _ => by
    change some [] = some (octets (bits ++ []))
    rw [append_nil, octets_of_lt hlen]
  | c :: src, buf, bits, hlen, hbuf => by
    rw [b64Loop]
    by_cases hskip : isSkipped c = true
    · rw [if_pos hskip, b64Loop_eq src hlen hbuf, digits, if_pos hskip]
    rw [if_neg hskip, digits, if_neg hskip]
    cases hv : b64Value c with
    | none => rfl
    | some v =>
      have hmod := buffer_mod (b64Value_lt hv) hlen hbuf
      have hsix : (bits ++ sixBits v).length = bits.length + 6 := by
        rw [length_append]
        rfl
      simp only [Option.bind_some, Option.map_map]
      by_cases hfull : 8 ≤ bits.length + 6
      · rw [if_pos hfull]
        obtain ⟨byte, rest, hsplit, hbyte⟩ : ∃ byte rest, bits ++ sixBits v = byte ++ rest ∧
            byte.length = 8 :=
          ⟨_, _, (take_append_drop 8 _).symm, by rw [length_take]; omega⟩
        have hrest : rest.length = bits.length + 6 - 8 := by
          rw [hsplit, length_append] at hsix
          omega
        rw [hsplit] at hmod
        obtain ⟨htaken, hleft⟩ := buffer_take hbyte hrest hmod
        rw [← hrest] at htaken hleft ⊢
        rw [htaken, b64Loop_eq src (by omega) hleft, Option.map_map]
        congr 1
        funext vs
        rw [Function.comp_apply, Function.comp_apply, flatMap_cons, ← append_assoc,
          hsplit, append_assoc, octets_append hbyte]
      · rw [if_neg hfull, ← hsix, b64Loop_eq src (by omega) hmod]
        congr 1
        funext vs
        rw [Function.comp_apply, flatMap_cons, append_assoc]

theorem length_b64Loop : ∀ (src : Bytes) {buf bits : ℕ} {out : Bytes},
    b64Loop buf bits src = some out → 8 * out.length ≤ 6 * src.length + bits
  | [], buf, bits, out, h => by
    cases h
    exact zero_le _
  | c :: src, buf, bits, out, h => by
    rw [b64Loop] at h
    rw [length_cons]
    split at h
    · have := length_b64Loop src h
      omega
    split at h
    · cases h
    dsimp only at h
    split at h
    · obtain ⟨out', hrest, rfl⟩ := Option.map_eq_some_iff.mp h
      have := length_b64Loop src hrest
      rw [length_cons]
      omega
    · have := length_b64Loop src h
      omega

/-- **No byte is written beyond the output buffer**, also of a text that is refused at a later
character. -/
theorem b64urlDecode_fits {src read out : Bytes} (hread : read <+: src)
    (h : b64urlDecode read = some out) : out.length ≤ outcap src := by
  have hloop := length_b64Loop read h
  have hle := hread.length_le
  unfold outcap
  omega

theorem b64urlDecode_fits_hi : "Hi".toList.length ≤ outcap "SGk*".toList :=
  b64urlDecode_fits (show "SGk".toList <+: _ from ⟨['*'], rfl⟩) (by decide)

/-- **The decoder computes the octets of the digits**, and fails if there is another character. -/
theorem b64urlDecode_eq (src : Bytes) :
    b64urlDecode src = (digits src).map fun vs => octets (vs.flatMap sixBits) := by
  have hempty : 0 % 2 ^ ([] : List Bool).length = number [] := rfl
  exact b64Loop_eq src (by decide) hempty

def Decodes (src out : Bytes) : Prop :=
  ∃ vs, digits src = some vs ∧ out = octets (vs.flatMap sixBits)

theorem b64urlDecode_eq_some {src out : Bytes} : b64urlDecode src = some out ↔ Decodes src out := by
  rw [b64urlDecode_eq, Option.map_eq_some_iff]
  exact exists_congr fun vs => and_congr_right fun _ => eq_comm

example : b64urlDecode "SGk".toList = some "Hi".toList := by decide

/-! ## Canonical texts -/

def eightBits (c : Char) : List Bool := [c.toNat.testBit 7, c.toNat.testBit 6] ++ sixBits c.toNat

def b64Char (v : ℕ) : Char :=
  "ABCDEFGHIJKLMNOPQRSTUVWXYZabcdefghijklmnopqrstuvwxyz0123456789-_".toList.getD v '='

def encodeBits : ℕ → List Bool → Bytes
  | 0, _ => []
  | n + 1, bits => b64Char (number (bits.take 6)) :: encodeBits n (bits.drop 6)

/-- Base64url without padding; zeros fill the last digit up. -/
def b64urlEncode (s : Bytes) : Bytes :=
  let n := (s.length * 8 + 5) / 6
  encodeBits n (s.flatMap eightBits ++ replicate (n * 6 - s.length * 8) false)

/-- The bits of the whole bytes among those of the digits. -/
def wholeBits (bits : List Bool) : List Bool := bits.take (bits.length / 8 * 8)

/-- What is not skipped of a text. -/
def kept (src : Bytes) : Bytes := src.filter fun c => !isSkipped c

/-- Fewer than six bits are left over after the last whole byte, all zero. -/
def Spare (vs : List ℕ) : Prop :=
  ∃ n < 6, vs.flatMap sixBits = wholeBits (vs.flatMap sixBits) ++ replicate n false

theorem digits_b64Char {v : ℕ} (hv : v < 64) (src : Bytes) :
    digits (b64Char v :: src) = (digits src).map (v :: ·) := by
  have hchar : ∀ v < 64, isSkipped (b64Char v) = false ∧ b64Value (b64Char v) = some v := by
    decide +kernel
  obtain ⟨hskip, hvalue⟩ := hchar v hv
  rw [digits, hskip, hvalue]
  rfl

theorem b64Char_of_value {c : Char} {v : ℕ} (h : b64Value c = some v) : b64Char v = c := by
  have hchar : ∀ n < 123, ∀ v ∈ b64Value (Char.ofNat n), b64Char v = Char.ofNat n := by
    decide +kernel
  have hlt : c.toNat < 123 := by
    unfold b64Value at h
    dsimp only at h
    split_ifs at h with _ _ _ hc hc <;> first | omega | simp [hc]
  simpa using hchar c.toNat hlt v (by simpa using h)

theorem sixBits_number {bits : List Bool} (h : bits.length = 6) : sixBits (number bits) = bits := by
  match bits, h with
  | [b₅, b₄, b₃, b₂, b₁, b₀], _ =>
    revert b₅ b₄ b₃ b₂ b₁ b₀
    decide

theorem digits_encodeBits : ∀ {n : ℕ} {bits : List Bool}, bits.length = n * 6 →
    (encodeBits n bits).length = n ∧
      ∃ vs, digits (encodeBits n bits) = some vs ∧ vs.flatMap sixBits = bits
  | 0, bits, h => ⟨rfl, [], rfl, (length_eq_zero_iff.mp (by omega)).symm⟩
  | n + 1, bits, h => by
    have hsix : (bits.take 6).length = 6 := by rw [length_take]; omega
    have hlt := number_lt (bits.take 6)
    rw [hsix] at hlt
    obtain ⟨hlen, vs, hvs, hbits⟩ : _ ∧ ∃ vs, digits (encodeBits n (bits.drop 6)) = some vs ∧ _ :=
      digits_encodeBits (by rw [length_drop]; omega)
    rw [encodeBits, digits_b64Char hlt, hvs, length_cons, hlen]
    refine ⟨rfl, _, rfl, ?_⟩
    rw [flatMap_cons, sixBits_number hsix, hbits, take_append_drop]

theorem digits_kept (src : Bytes) : digits (kept src) = digits src := by
  induction src with
  | nil => rfl
  | cons c src ih =>
    unfold kept at ih ⊢
    cases hc : isSkipped c with
    | true => rw [filter_cons_of_neg (by simp [hc]), ih, digits, if_pos hc]
    | false => rw [filter_cons_of_pos (by simp [hc]), digits, digits, ih]

theorem encodeBits_digits {src : Bytes} {vs : List ℕ} (h : digits src = some vs) :
    encodeBits vs.length (vs.flatMap sixBits) = kept src := by
  induction src generalizing vs with
  | nil =>
    cases h
    rfl
  | cons c src ih =>
    unfold kept at ih ⊢
    cases hc : isSkipped c with
    | true =>
      rw [digits, if_pos hc] at h
      rw [filter_cons_of_neg (by simp [hc]), ih h]
    | false =>
      rw [digits, hc] at h
      obtain ⟨v, hv, h⟩ := Option.bind_eq_some_iff.mp h
      obtain ⟨vs, hvs, rfl⟩ := Option.map_eq_some_iff.mp h
      rw [filter_cons_of_pos (by simp [hc])]
      change b64Char (number (sixBits v)) :: encodeBits vs.length (vs.flatMap sixBits) = c :: _
      rw [number_sixBits (b64Value_lt hv), b64Char_of_value hv, ih hvs]

theorem length_flatMap_sixBits (vs : List ℕ) : (vs.flatMap sixBits).length = vs.length * 6 := by
  simp [length_flatMap, sixBits]

theorem octets_eightBits {s : Bytes} (hs : ∀ c ∈ s, c.toNat < 256) {rest : List Bool}
    (hrest : rest.length < 8) : octets (s.flatMap eightBits ++ rest) = s := by
  induction s with
  | nil => exact octets_of_lt hrest
  | cons c s ih =>
    obtain ⟨hc, hs⟩ := forall_mem_cons.mp hs
    have hbyte : ∀ n < 256, number ([n.testBit 7, n.testBit 6] ++ sixBits n) = n := by
      decide +kernel
    rw [flatMap_cons, append_assoc, octets_append rfl, ih hs, eightBits, hbyte _ hc,
      Char.ofNat_toNat]

theorem b64urlDecode_encode {s : Bytes} (hs : ∀ c ∈ s, c.toNat < 256) :
    b64urlDecode (b64urlEncode s) = some s ∧ s.length ≤ outcap (b64urlEncode s) := by
  unfold b64urlEncode outcap
  dsimp only
  generalize hn : (s.length * 8 + 5) / 6 = n
  have hsix : (s.flatMap eightBits ++ replicate (n * 6 - s.length * 8) false).length = n * 6 := by
    simp [length_flatMap, eightBits, sixBits]
    omega
  obtain ⟨hlen, vs, hvs, hbits⟩ := digits_encodeBits hsix
  rw [b64urlDecode_eq, hvs, Option.map_some, hbits, hlen,
    octets_eightBits hs (by rw [length_replicate]; omega)]
  exact ⟨rfl, by omega⟩

theorem wholeBits_append {bits : List Bool} (h : bits.length = 8) (rest : List Bool) :
    wholeBits (bits ++ rest) = bits ++ wholeBits rest := by
  unfold wholeBits
  have hlen : (bits ++ rest).length / 8 * 8 = bits.length + rest.length / 8 * 8 := by
    rw [length_append]
    omega
  rw [hlen, take_length_add_append]

theorem eightBits_number {bits : List Bool} (h : bits.length = 8) :
    eightBits (Char.ofNat (number bits)) = bits := by
  match bits, h with
  | [b₇, b₆, b₅, b₄, b₃, b₂, b₁, b₀], _ =>
    revert b₇ b₆ b₅ b₄ b₃ b₂ b₁ b₀
    decide +kernel

theorem wholeBits_of_lt {bits : List Bool} (h : bits.length < 8) : wholeBits bits = [] := by
  unfold wholeBits
  rw [Nat.div_eq_of_lt h]
  rfl

theorem octets_wholeBits (bits : List Bool) :
    (octets bits).flatMap eightBits = wholeBits bits ∧ octets (wholeBits bits) = octets bits := by
  induction hlen : bits.length using Nat.strong_induction_on generalizing bits with
  | _ n ih =>
    by_cases hlt : bits.length < 8
    · rw [octets_of_lt hlt, wholeBits_of_lt hlt]
      exact ⟨rfl, rfl⟩
    obtain ⟨byte, rest, rfl, hbyte⟩ : ∃ byte rest, bits = byte ++ rest ∧ byte.length = 8 :=
      ⟨_, _, (take_append_drop 8 _).symm, by rw [length_take]; omega⟩
    rw [length_append] at hlen
    obtain ⟨hbits, hoctets⟩ := ih rest.length (by omega) rest rfl
    rw [wholeBits_append hbyte, octets_append hbyte, octets_append hbyte, flatMap_cons,
      eightBits_number hbyte, hbits, hoctets]
    exact ⟨rfl, rfl⟩

theorem octets_inj {bits bits' : List Bool} :
    octets bits = octets bits' ↔ wholeBits bits = wholeBits bits' := by
  constructor
  · intro h
    rw [← (octets_wholeBits bits).1, h, (octets_wholeBits bits').1]
  · intro h
    rw [← (octets_wholeBits bits).2, h, (octets_wholeBits bits').2]

/-- **The encoding of a byte string decodes to it**, and of accepted texts exactly those decode to
the same string whose digits agree in the whole bytes; if nothing but zeros is left over, these are
the texts that agree but for padding and line breaks. -/
theorem b64urlDecode_distinguishes (s t t' : Bytes) (vs vs' : List ℕ) (ht : digits t = some vs)
    (ht' : digits t' = some vs') :
    ((∀ c ∈ s, c.toNat < 256) →
      b64urlDecode (b64urlEncode s) = some s ∧ s.length ≤ outcap (b64urlEncode s)) ∧
    (b64urlDecode t = b64urlDecode t' ↔
      wholeBits (vs.flatMap sixBits) = wholeBits (vs'.flatMap sixBits)) ∧
    (Spare vs → Spare vs' → (b64urlDecode t = b64urlDecode t' ↔ kept t = kept t')) := by
  have hwhole : b64urlDecode t = b64urlDecode t' ↔
      wholeBits (vs.flatMap sixBits) = wholeBits (vs'.flatMap sixBits) := by
    rw [b64urlDecode_eq, b64urlDecode_eq, ht, ht', Option.map_some, Option.map_some,
      Option.some_inj, octets_inj]
  refine ⟨b64urlDecode_encode, hwhole, fun ⟨n, hn, hbits⟩ ⟨n', hn', hbits'⟩ => ⟨fun h => ?_,
    fun h => ?_⟩⟩
  · rw [hwhole] at h
    rw [← h] at hbits'
    -- both texts have whole digits, so as many zeros are left over
    have hlen := congrArg length hbits
    have hlen' := congrArg length hbits'
    simp only [length_append, length_replicate, length_flatMap_sixBits] at hlen hlen'
    have hlong : (wholeBits (vs.flatMap sixBits)).length = (vs.flatMap sixBits).length / 8 * 8 := by
      unfold wholeBits
      rw [length_take]
      omega
    have hdigits : vs.length = vs'.length := by omega
    obtain rfl : n = n' := by omega
    rw [← encodeBits_digits ht, ← encodeBits_digits ht', hdigits, hbits.trans hbits'.symm]
  · rw [b64urlDecode_eq, b64urlDecode_eq, ← digits_kept t, ← digits_kept t', h]

theorem b64urlDecode_distinguishes_hi :
    b64urlDecode (b64urlEncode ['H', 'i']) = some ['H', 'i'] ∧
      b64urlDecode ['S', 'G', '\n', 'k', '='] = b64urlDecode ['S', 'G', 'k'] ∧
      b64urlDecode ['S', 'G', 'k', '='] ≠ b64urlDecode ['S', 'G', 'o'] := by
  have hspare : Spare [18, 6, 36] := ⟨2, by decide, by decide⟩
  have hspare' : Spare [18, 6, 40] := ⟨2, by decide, by decide⟩
  obtain ⟨hround, -, hsame⟩ := b64urlDecode_distinguishes ['H', 'i'] ['S', 'G', '\n', 'k', '=']
    ['S', 'G', 'k'] [18, 6, 36] [18, 6, 36] (by decide) (by decide)
  obtain ⟨-, -, hother⟩ := b64urlDecode_distinguishes [] ['S', 'G', 'k', '='] ['S', 'G', 'o']
    [18, 6, 36] [18, 6, 40] (by decide) (by decide)
  have hbytes : ∀ c ∈ ['H', 'i'], c.toNat < 256 := by
    rw [List.forall_mem_cons, List.forall_mem_singleton]
    decide
  refine ⟨(hround hbytes).1, (hsame hspare hspare).mpr (by decide), fun h => ?_⟩
  exact absurd ((hother hspare hspare').mp h) (by decide)

theorem b64urlDecode_collides : b64urlDecode ['Q', 'Q'] = some ['A'] ∧
    b64urlDecode ['Q', 'R'] = some ['A'] ∧ b64urlDecode ['Q', 'Q', '='] = some ['A'] := by
  decide

end MaluDb.Auth
