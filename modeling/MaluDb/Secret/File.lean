import Mathlib.Data.List.DropRight
import MaluDb.Secret.Path

/-!
# Reading a file secret

`read_file_secret` of `src/maludb_secret.c`.

* `Kernel` is what the system calls return. A `read` delivers at most the bytes that are asked for
  and at most those that are left, at least one of them before the end of the file, and fewer than
  both as its entry says. When the entries are used up, the calls deliver all they can.
* The buffer is as large as `lstat` says the file is, but 65536 bytes if that is 0 or at least
  1 MiB. The test for a file of more than 1 MiB looks at the buffer and never succeeds.
-/

namespace MaluDb.Secret

open List

/-! ## Model -/

/-- What `lstat` reports. -/
structure Stat where
  mode : ℕ
  uid : ℕ
  size : Int

/-- `S_ISREG(st.st_mode)`. -/
def Stat.isReg (st : Stat) : Bool := st.mode &&& 0o170000 == 0o100000

/-- A call of `read`: at most `n` bytes, or an error with its text. -/
inductive ReadCall where
  | short (n : ℕ)
  | fails (strerror : List Char)

structure Kernel where
  lstat : Except (List Char) Stat
  content : Except (List Char) (List UInt8)
  reads : List ReadCall

inductive FileError where
  | lstatFailed (strerror : List Char)
  | notRegular
  | wrongOwner (uid euid : ℕ)
  | permissions (mode : ℕ)
  | openFailed (strerror : List Char)
  | tooLarge
  | readFailed (strerror : List Char)

/-- `%u`. -/
def decimal (n : ℕ) : List Char := Nat.toDigits 10 n

/-- The text of a rejection. -/
def FileError.text (path : List Char) : FileError → List Char
  | .lstatFailed e => "lstat(".toList ++ path ++ ") failed: ".toList ++ e
  | .notRegular => "secret file ".toList ++ path ++ " is not a regular file".toList
  | .wrongOwner uid euid =>
    "secret file ".toList ++ path ++ " owner uid=".toList ++ decimal uid ++
      " does not match postgres uid=".toList ++ decimal euid
  | .permissions mode =>
    "secret file ".toList ++ path ++ " has permissions 0".toList ++ Nat.toDigits 8 mode ++
      "; must be 0400 or 0600".toList
  | .openFailed e => "open(".toList ++ path ++ ") failed: ".toList ++ e
  | .tooLarge => "secret file ".toList ++ path ++ " exceeds 1 MiB".toList
  | .readFailed e => "read(".toList ++ path ++ ") failed: ".toList ++ e

/-- The size of the buffer. -/
def bufferCap (size : Int) : ℕ := if 0 < size ∧ size < 1048576 then size.toNat else 65536

/-- The loop around `read`: `rest` is what is left of the file, `buf` what the buffer holds. -/
def readLoop (cap : ℕ) : List ReadCall → List UInt8 → List UInt8 →
    Except (List Char) (List UInt8)
  | [], rest, buf => .ok (buf ++ rest.take (cap - buf.length))
  | .fails e :: _, _, _ => .error e
  | .short n :: calls, rest, buf =>
    let asked := min (max n 1) (cap - buf.length)
    match rest.take asked with
    | [] => .ok buf
    | bytes =>
      if cap ≤ (buf ++ bytes).length then .ok (buf ++ bytes)
      else readLoop cap calls (rest.drop asked) (buf ++ bytes)

def isTrimmed (b : UInt8) : Bool := b == 10 || b == 13 || b == 32

def trimEnd (bytes : List UInt8) : List UInt8 := bytes.rdropWhile isTrimmed

/-- The body of `read_file_secret`. -/
def readFile (euid : ℕ) (k : Kernel) : Except FileError (List UInt8) :=
  match k.lstat with
  | .error e => .error (.lstatFailed e)
  | .ok st =>
    if st.isReg = false then .error .notRegular
    else if st.uid ≠ euid then .error (.wrongOwner st.uid euid)
    else if st.mode &&& 0o77 ≠ 0 then .error (.permissions (st.mode &&& 0o777))
    else match k.content with
      | .error e => .error (.openFailed e)
      | .ok content =>
        if 1048576 < bufferCap st.size then .error .tooLarge
        else match readLoop (bufferCap st.size) k.reads content [] with
          | .error e => .error (.readFailed e)
          | .ok buf => .ok (trimEnd buf)

/-- `read_file_secret`, with the text left in `err`. -/
def readFileSecret (euid : ℕ) (path : List Char) (errlen : ℕ) (k : Kernel) :
    Except (List Char) (List UInt8) :=
  (readFile euid k).mapError fun e => snprintf errlen (e.text path)

/-! ## The loop -/

theorem bufferCap_pos (size : Int) : 0 < bufferCap size := by
  unfold bufferCap
  split <;> omega

theorem bufferCap_le (size : Int) : bufferCap size ≤ 1048576 := by
  unfold bufferCap
  split <;> omega

variable {cap : ℕ} {calls : List ReadCall} {rest buf out : List UInt8}

theorem append_take_drop (rest : List UInt8) (n : ℕ) (hlen : n ≤ cap - buf.length) :
    (buf ++ rest.take n) ++ (rest.drop n).take (cap - (buf ++ rest.take n).length) =
      buf ++ rest.take (cap - buf.length) := by
  rw [append_assoc, append_cancel_left_eq, length_append, length_take]
  rcases Nat.le_total n rest.length with hn | hn
  · rw [Nat.min_eq_left hn, show cap - buf.length = n + (cap - (buf.length + n)) by omega, take_add]
  · rw [drop_eq_nil_of_le hn, take_nil, append_nil, take_of_length_le hn,
      take_of_length_le (by omega)]

/-- **A loop without an error reads what fits into the buffer**, however short the reads are. -/
theorem readLoop_eq_ok (hbuf : buf.length < cap) (h : readLoop cap calls rest buf = .ok out) :
    out = buf ++ rest.take (cap - buf.length) := by
  induction calls generalizing rest buf with
  | nil => exact (Except.ok.inj h).symm
  | cons call calls ih =>
    cases call with
    | fails e => cases h
    | short n =>
      have hstep := append_take_drop rest (min (max n 1) (cap - buf.length))
        (Nat.min_le_right _ (cap - buf.length))
      simp only [readLoop] at h
      split at h
      · rename_i hnil
        -- a read of at least one byte delivers none at the end of the file only
        have hrest : rest = [] := by
          rcases take_eq_nil_iff.mp hnil with h0 | hrest
          · omega
          · exact hrest
        cases h
        simp [hrest]
      · split at h
        · rename_i hfull
          cases h
          rw [← hstep, Nat.sub_eq_zero_of_le hfull, take_zero, append_nil]
        · rename_i hroom
          rw [← hstep]
          exact ih (Nat.lt_of_not_le hroom) h

theorem readLoop_ok (h : ∀ e, .fails e ∉ calls) :
    ∃ out, readLoop cap calls rest buf = .ok out := by
  induction calls generalizing rest buf with
  | nil => exact ⟨_, rfl⟩
  | cons call calls ih =>
    cases call with
    | fails e => exact absurd mem_cons_self (h e)
    | short n =>
      simp only [readLoop]
      split
      · exact ⟨_, rfl⟩
      · split
        · exact ⟨_, rfl⟩
        · exact ih fun e he => h e (mem_cons_of_mem _ he)

/-! ## Trimming -/

theorem trimEnd_append_of_forall {bytes tail : List UInt8} (h : ∀ b ∈ tail, isTrimmed b = true) :
    trimEnd (bytes ++ tail) = trimEnd bytes := by
  unfold trimEnd rdropWhile
  rw [reverse_append, dropWhile_append_of_pos fun b hb => h b (mem_reverse.mp hb)]

theorem exists_trimEnd_append (bytes : List UInt8) :
    ∃ tail, bytes = trimEnd bytes ++ tail ∧ ∀ b ∈ tail, isTrimmed b = true := by
  refine ⟨(bytes.reverse.takeWhile isTrimmed).reverse, ?_, fun b hb => ?_⟩
  · unfold trimEnd rdropWhile
    rw [← reverse_append, takeWhile_append_dropWhile, reverse_reverse]
  · exact mem_takeWhile_imp (mem_reverse.mp hb)

theorem trimEnd_take {bytes : List UInt8} (h : (trimEnd bytes).length ≤ cap) :
    trimEnd (bytes.take cap) = trimEnd bytes := by
  obtain ⟨tail, hbytes, htail⟩ := exists_trimEnd_append bytes
  have htake : bytes.take cap = trimEnd bytes ++ tail.take (cap - (trimEnd bytes).length) := by
    conv_lhs => rw [hbytes]
    rw [take_append, take_of_length_le h]
  rw [htake, trimEnd_append_of_forall fun b hb => htail b (mem_of_mem_take hb)]
  conv_rhs => rw [hbytes]
  exact (trimEnd_append_of_forall htail).symm

/-! ## What is returned -/

variable {euid : ℕ} {path : List Char} {errlen : ℕ} {k : Kernel}

structure Passes (euid : ℕ) (k : Kernel) (st : Stat) (content : List UInt8) : Prop where
  lstat : k.lstat = .ok st
  regular : st.isReg = true
  owner : st.uid = euid
  mode : st.mode &&& 0o77 = 0
  opened : k.content = .ok content

theorem readFile_eq_ok (h : readFile euid k = .ok out) :
    ∃ st content buf, Passes euid k st content ∧
      readLoop (bufferCap st.size) k.reads content [] = .ok buf ∧ out = trimEnd buf := by
  unfold readFile at h
  split at h
  · cases h
  rename_i st hstat
  split at h
  · cases h
  rename_i hreg
  split at h
  · cases h
  rename_i howner
  split at h
  · cases h
  rename_i hmode
  split at h
  · cases h
  rename_i content hopen
  split at h
  · cases h
  split at h
  · cases h
  rename_i buf hloop
  refine ⟨st, content, buf, ⟨hstat, ?_, ?_, ?_, hopen⟩, hloop, (Except.ok.inj h).symm⟩
  · simpa using hreg
  · simpa using howner
  · simpa using hmode

theorem readFile_of_passes {st : Stat} {content : List UInt8} (hp : Passes euid k st content) :
    readFile euid k = match readLoop (bufferCap st.size) k.reads content [] with
      | .error e => .error (.readFailed e)
      | .ok buf => .ok (trimEnd buf) := by
  unfold readFile
  rw [hp.lstat, hp.opened]
  simp only [hp.regular, hp.owner, hp.mode, Bool.true_eq_false, if_false, ne_eq, not_true_eq_false,
    if_neg (Nat.not_lt.mpr (bufferCap_le st.size))]

/-- **What is returned is the trimmed front of the file**, as much of it as fits. -/
theorem readFileSecret_eq_ok (h : readFileSecret euid path errlen k = .ok out) :
    ∃ st content, Passes euid k st content ∧ out = trimEnd (content.take (bufferCap st.size)) := by
  unfold readFileSecret at h
  cases hf : readFile euid k with
  | error e =>
    rw [hf] at h
    cases h
  | ok out' =>
    rw [hf] at h
    cases h
    obtain ⟨st, content, buf, hp, hloop, rfl⟩ := readFile_eq_ok hf
    have hbuf := readLoop_eq_ok (bufferCap_pos st.size) hloop
    exact ⟨st, content, hp, by rw [hbuf]; rfl⟩

theorem readFileSecret_of_passes {st : Stat} {content : List UInt8} (hp : Passes euid k st content)
    (hreads : ∀ e, .fails e ∉ k.reads) :
    readFileSecret euid path errlen k = .ok (trimEnd (content.take (bufferCap st.size))) := by
  obtain ⟨buf, hbuf⟩ : ∃ buf, readLoop (bufferCap st.size) k.reads content [] = .ok buf :=
    readLoop_ok hreads
  have hread := readLoop_eq_ok (bufferCap_pos st.size) hbuf
  unfold readFileSecret
  rw [readFile_of_passes hp, hbuf, hread]
  rfl

/-- **A secret that fits into the buffer is returned whole or not at all**, and it is returned if
the file passes the checks and no `read` fails. -/
theorem readFileSecret_complete (euid : ℕ) (path : List Char) (errlen : ℕ) (k : Kernel)
    (st : Stat) (content : List UInt8) (hstat : k.lstat = .ok st) (hopen : k.content = .ok content)
    (hfit : (trimEnd content).length ≤ bufferCap st.size) :
    readFileSecret euid path errlen k = .ok (trimEnd content) ∨
      (∃ err, readFileSecret euid path errlen k = .error err) ∧
        (¬ Passes euid k st content ∨ ∃ e, .fails e ∈ k.reads) := by
  cases hres : readFileSecret euid path errlen k with
  | ok out =>
    obtain ⟨st', content', hp, rfl⟩ := readFileSecret_eq_ok hres
    obtain rfl : st' = st := Except.ok.inj (hp.lstat.symm.trans hstat)
    obtain rfl : content' = content := Except.ok.inj (hp.opened.symm.trans hopen)
    exact Or.inl (by rw [trimEnd_take hfit])
  | error err =>
    refine Or.inr ⟨⟨err, rfl⟩, ?_⟩
    by_contra hnone
    rw [not_or, not_not, not_exists] at hnone
    rw [readFileSecret_of_passes hnone.1 hnone.2] at hres
    cases hres

def ownFile (content : List UInt8) (reads : List ReadCall) : Kernel where
  lstat := .ok ⟨0o100600, 26, content.length⟩
  content := .ok content
  reads := reads

theorem ownFile_passes (content : List UInt8) (reads : List ReadCall) :
    Passes 26 (ownFile content reads) ⟨0o100600, 26, content.length⟩ content :=
  ⟨rfl, show (0o100600 &&& 0o170000 == 0o100000) = true by decide, rfl,
    show 0o100600 &&& 0o77 = 0 by decide, rfl⟩

theorem readFileSecret_complete_password :
    let k := ownFile [112, 119, 32, 10] [.short 1, .short 2]
    (readFileSecret 26 "/s".toList 256 k = .ok (trimEnd [112, 119, 32, 10]) ∨
      (∃ err, readFileSecret 26 "/s".toList 256 k = .error err) ∧
        (¬ Passes 26 k ⟨0o100600, 26, 4⟩ [112, 119, 32, 10] ∨ ∃ e, .fails e ∈ k.reads)) ∧
      trimEnd [112, 119, 32, 10] = [112, 119] :=
  ⟨readFileSecret_complete 26 _ 256 _ ⟨0o100600, 26, 4⟩ [112, 119, 32, 10] rfl rfl (by decide),
    by decide⟩

/-- **A file of 1 MiB is cut off, and a blank at the end of a secret is trimmed.** The first file
passes every check, every `read` delivers what is asked for, and its front is returned. -/
theorem readFileSecret_truncates :
    readFileSecret 26 "/s".toList 256 (ownFile (replicate (1048576) 97) []) =
        .ok (replicate 65536 97) ∧
      readFileSecret 26 "/s".toList 256 (ownFile [112, 119, 32, 10] []) = .ok [112, 119] := by
  constructor
  · rw [readFileSecret_of_passes (ownFile_passes _ _) fun e he => not_mem_nil he]
    have hcap : bufferCap ((replicate (1048576) (97 : UInt8)).length : Int) = 65536 := by
      rw [length_replicate]
      decide
    have htrim : trimEnd (replicate 65536 97) = replicate 65536 97 := by
      unfold trimEnd
      rw [rdropWhile_eq_self_iff]
      intro hne
      rw [getLast_replicate]
      decide
    rw [hcap, take_replicate, Nat.min_eq_left (by decide), htrim]
  · rw [readFileSecret_of_passes (ownFile_passes _ _) fun e he => not_mem_nil he]
    decide

end MaluDb.Secret
