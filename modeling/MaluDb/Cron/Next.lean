import Mathlib.Data.Int.LeastGreatest
import Mathlib.Order.Bounds.Basic
import MaluDb.Cron.Field
import MaluDb.Lib.Except
import MaluDb.Lib.Search

/-!
# The next time of a cron expression

`cron_next_after` tests at most `366 * 4` minutes, and jumps over a day when it comes to the
midnight of a day that does not match.

* A timestamp is a number of microseconds since 2000-01-01 00:00 UTC. The session's TimeZone is at a
  fixed offset of whole minutes.
* After a jump the next day is walked minute by minute whether it matches or not.
-/

namespace MaluDb.Cron

open MaluDb.Lib List

/-! ## The calendar -/

structure Date where
  year : Int
  month : Int
  day : Int
  deriving DecidableEq, Repr

def julianDay (d : Int) : Int := d + 2451545

def dateOf (d : Int) : Date :=
  let julian := (julianDay d).toNat + 32044
  let quad := julian / 146097
  let extra := (julian - quad * 146097) * 4 + 3
  let julian := julian + 60 + quad * 3 + extra / 146097
  let quad := julian / 1461
  let julian := julian - quad * 1461
  let y := julian * 4 / 1461
  let julian := (if y ≠ 0 then (julian + 305) % 365 else (julian + 306) % 366) + 123
  let year : Int := ↑(y + quad * 4) - 4800
  let quad := julian * 2141 / 65536
  ⟨year, ↑((quad + 10) % 12 + 1), ↑(julian - 7834 * quad / 256)⟩

/-- `extract(dow from …)`; Sunday is 0. -/
def dayOfWeek (d : Int) : Int := (julianDay d + 1) % 7

example : dateOf 0 = ⟨2000, 1, 1⟩ := by decide
example : dateOf 59 = ⟨2000, 2, 29⟩ := by decide
example : dateOf 9497 = ⟨2026, 1, 1⟩ ∧ dayOfWeek 9497 = 4 := by decide

/-! ## Local minutes -/

/-- The day of a minute. -/
def dayOf (n : Int) : Int := n / 1440

/-- `extract(hour from …)`. -/
def hourOf (n : Int) : Int := n % 1440 / 60

/-- `extract(minute from …)`. -/
def minuteOf (n : Int) : Int := n % 60

def dayMatches (f : CronFields) (d : Int) : Bool :=
  f.months.values.contains (dateOf d).month && f.doms.values.contains (dateOf d).day &&
    f.dows.values.contains (dayOfWeek d)

def minuteMatches (f : CronFields) (n : Int) : Bool :=
  dayMatches f (dayOf n) && f.hours.values.contains (hourOf n) &&
    f.minutes.values.contains (minuteOf n)

/-! ## The search -/

/-- `date_trunc('day', n + interval '1 day' - interval '1 second') + interval '1 day'`. The second
before a minute is in the minute before it. -/
def skipDay (n : Int) : Int := dayOf (n + 1440 - 1) * 1440 + 1440

def advance (f : CronFields) (n : Int) : Int :=
  if hourOf (n + 1) = 0 ∧ minuteOf (n + 1) = 0 ∧ dayMatches f (dayOf (n + 1)) = false then
    skipDay (n + 1)
  else n + 1

/-- The turns of the loop. -/
def attempts : Nat := 366 * 4

def minuteLength : Int := 60000000

def localMinute (offset t : Int) : Int := t / minuteLength + offset

def timestampOf (offset n : Int) : Int := (n - offset) * minuteLength

/-- `date_trunc('minute', p_after) + interval '1 minute'`. -/
def firstMinute (offset after : Int) : Int := localMinute offset after + 1

/-- `cron_next_after`, in a session whose time is `offset` minutes ahead of UTC. -/
def cronNextAfter (offset : Int) (expr : List Char) (after : Int) : Except CronError Int :=
  (parseExpression expr).bind fun f =>
    match search (minuteMatches f) (advance f) attempts (firstMinute offset after) with
    | some n => .ok (timestampOf offset n)
    | none => .error (.noMatch expr)

/-! ## One turn -/

/-- The least matching minute from `n` on. -/
structure FirstMatch (f : CronFields) (n m : Int) : Prop where
  le : n ≤ m
  matches_ : minuteMatches f m = true
  least : ∀ k, n ≤ k → minuteMatches f k = true → m ≤ k

/-- The turns of the loop from `n` until it comes to `m`, if no minute before `m` matches: the rest
of the day of `n`, every second day in between, and the minutes of the day of `m`. -/
def distance (n m : Int) : Nat :=
  if dayOf m = dayOf n then (m - n).toNat
  else (1440 - n % 1440 + 1440 * ((dayOf m - dayOf n - 1) / 2) + m % 1440).toNat

variable {f : CronFields} {n m offset after : Int}

theorem dayMatches_of_minuteMatches (h : minuteMatches f n = true) :
    dayMatches f (dayOf n) = true := by
  unfold minuteMatches at h
  rw [Bool.and_eq_true, Bool.and_eq_true] at h
  exact h.1.1

theorem exists_minuteMatches {d : Int} (hd : dayMatches f d = true) :
    ∃ n, dayOf n = d ∧ minuteMatches f n = true := by
  obtain ⟨h, hh⟩ := exists_mem_of_ne_nil _ f.hours.nonempty
  obtain ⟨i, hi⟩ := exists_mem_of_ne_nil _ f.minutes.nonempty
  have hbounds := f.hours.bounds h hh
  have ibounds := f.minutes.bounds i hi
  have hday : dayOf (d * 1440 + h * 60 + i) = d := by
    unfold dayOf
    omega
  have hhour : hourOf (d * 1440 + h * 60 + i) = h := by
    unfold hourOf
    omega
  have hminute : minuteOf (d * 1440 + h * 60 + i) = i := by
    unfold minuteOf
    omega
  refine ⟨d * 1440 + h * 60 + i, hday, ?_⟩
  unfold minuteMatches
  rw [hday, hhour, hminute, hd, contains_iff_mem.mpr hh, contains_iff_mem.mpr hi]
  rfl

theorem skipDay_eq (h : n % 1440 = 0) : skipDay n = n + 1440 := by
  unfold skipDay dayOf
  omega

theorem midnight_iff : hourOf n = 0 ∧ minuteOf n = 0 ↔ n % 1440 = 0 := by
  unfold hourOf minuteOf
  omega

theorem advance_cases (f : CronFields) (n : Int) :
    (advance f n = n + 1 ∧ (n + 1) % 1440 ≠ 0) ∨
      (advance f n = n + 1 ∧ (n + 1) % 1440 = 0 ∧ dayMatches f (dayOf (n + 1)) = true) ∨
      (advance f n = n + 1 + 1440 ∧ (n + 1) % 1440 = 0 ∧ dayMatches f (dayOf (n + 1)) = false) := by
  unfold advance
  by_cases hmid : (n + 1) % 1440 = 0
  · obtain ⟨hhour, hminute⟩ := midnight_iff.mpr hmid
    cases hday : dayMatches f (dayOf (n + 1)) with
    | true => exact .inr (.inl ⟨if_neg (by simp), hmid, rfl⟩)
    | false => exact .inr (.inr ⟨by rw [if_pos ⟨hhour, hminute, rfl⟩, skipDay_eq hmid], hmid, rfl⟩)
  · exact .inl ⟨if_neg fun h => hmid (midnight_iff.mp ⟨h.1, h.2.1⟩), hmid⟩

/-- **A turn passes no matching minute**, and brings the search one turn closer to the first. -/
theorem advance_spec (h : FirstMatch f n m) (hn : minuteMatches f n = false) :
    FirstMatch f (advance f n) m ∧ distance n m = distance (advance f n) m + 1 := by
  have hne : n ≠ m := by
    rintro rfl
    rw [h.matches_] at hn
    cases hn
  have hlt : n < m := lt_of_le_of_ne h.le hne
  have hfrom (k : Int) (hk : n ≤ k) (hkm : k ≤ m) : FirstMatch f k m :=
    ⟨hkm, h.matches_, fun j hj => h.least j (hk.trans hj)⟩
  rcases advance_cases f n with ⟨hadv, hmid⟩ | ⟨hadv, hmid, hday⟩ | ⟨hadv, hmid, hday⟩
  · rw [hadv]
    refine ⟨hfrom (n + 1) (by omega) (by omega), ?_⟩
    unfold distance dayOf
    split <;> split <;> omega
  · -- the day that begins has a matching minute, so `m` is on it
    obtain ⟨k, hk, hmatch⟩ := exists_minuteMatches hday
    have hkn : n ≤ k := by
      unfold dayOf at hk
      omega
    have hmk := h.least k hkn hmatch
    rw [hadv]
    refine ⟨hfrom (n + 1) (by omega) (by omega), ?_⟩
    unfold distance
    unfold dayOf at hk ⊢
    split <;> split <;> omega
  · -- no minute of the day that begins matches, so `m` is not on it
    have hmday : dayOf m ≠ dayOf (n + 1) := by
      intro heq
      rw [← heq, dayMatches_of_minuteMatches h.matches_] at hday
      cases hday
    have hle : n + 1 + 1440 ≤ m := by
      unfold dayOf at hmday
      omega
    rw [hadv]
    refine ⟨hfrom (n + 1 + 1440) (by omega) hle, ?_⟩
    unfold distance dayOf
    split <;> split <;> omega

/-! ## The whole search -/

theorem distance_self (n : Int) : distance n n = 0 := by
  unfold distance
  simp

/-- **What the search finds.** -/
theorem search_eq (h : FirstMatch f n m) (k : Nat) :
    search (minuteMatches f) (advance f) k n = if distance n m < k then some m else none := by
  refine search_eq_ite (I := fun n => FirstMatch f n m) (fun n => distance n m)
    (fun a ha hp => ?_) (fun a ha hp => advance_spec ha hp) k n h
  obtain rfl : a = m := le_antisymm ha.le (ha.least a le_rfl hp)
  exact ⟨rfl, distance_self a⟩

theorem cronNextAfter_eq {expr : List Char} (hparse : parseExpression expr = .ok f)
    (h : FirstMatch f (firstMinute offset after) m) :
    cronNextAfter offset expr after =
      if distance (firstMinute offset after) m < attempts then .ok (timestampOf offset m)
      else .error (.noMatch expr) := by
  unfold cronNextAfter
  simp only [hparse, Except.bind, search_eq h]
  by_cases hd : distance (firstMinute offset after) m < attempts
  · simp only [if_pos hd]
  · simp only [if_neg hd]

/-- The least matching minute is one that the loop comes to: on the day of the start; on one of the
next two days, if the rest of the first day and the part of the last one are not too long; or in the
first minutes of one of the two days after these. -/
def InReach (n m : Int) : Prop :=
  dayOf m = dayOf n ∨ (dayOf m ≤ dayOf n + 2 ∧ 1440 - n % 1440 + m % 1440 < 1464) ∨
    (dayOf m ≤ dayOf n + 4 ∧ 1440 - n % 1440 + m % 1440 < 24)

theorem distance_lt_attempts_iff (h : n ≤ m) : distance n m < attempts ↔ InReach n m := by
  unfold distance InReach attempts dayOf
  split <;> omega

/-- A minute strictly later than `after` that matches, as a timestamp. -/
def LaterMatch (offset : Int) (f : CronFields) (after t : Int) : Prop :=
  after < t ∧ ∃ n, t = timestampOf offset n ∧ minuteMatches f n = true

theorem lt_timestampOf_iff : after < timestampOf offset n ↔ firstMinute offset after ≤ n := by
  unfold timestampOf firstMinute localMinute minuteLength
  omega

theorem localMinute_timestampOf (offset n : Int) :
    localMinute offset (timestampOf offset n) = n := by
  unfold timestampOf localMinute minuteLength
  omega

theorem FirstMatch.isLeast (h : FirstMatch f (firstMinute offset after) m) :
    IsLeast {t | LaterMatch offset f after t} (timestampOf offset m) := by
  refine ⟨⟨lt_timestampOf_iff.mpr h.le, m, rfl, h.matches_⟩, ?_⟩
  rintro _ ⟨hlt, n, rfl, hn⟩
  have := h.least n (lt_timestampOf_iff.mp hlt) hn
  unfold timestampOf minuteLength
  omega

theorem exists_firstMatch {k : Int} (hk : n ≤ k) (hmatch : minuteMatches f k = true) :
    ∃ m, FirstMatch f n m := by
  obtain ⟨m, ⟨hm, hmm⟩, hleast⟩ :=
    Int.exists_least_of_bdd (P := fun k => n ≤ k ∧ minuteMatches f k = true)
      ⟨n, fun _ h => h.1⟩ ⟨k, hk, hmatch⟩
  exact ⟨m, hm, hmm, fun j hj hjm => hleast j ⟨hj, hjm⟩⟩

/-- **`cron_next_after` returns the least matching minute** exactly if it is in reach of the
loop. -/
theorem cronNextAfter_eq_least_iff (offset : Int) (expr : List Char) (f : CronFields)
    (hparse : parseExpression expr = .ok f) (after t : Int) (ht : LaterMatch offset f after t) :
    ∃ m, IsLeast {t | LaterMatch offset f after t} m ∧ (cronNextAfter offset expr after = .ok m ↔
        InReach (firstMinute offset after) (localMinute offset m)) := by
  obtain ⟨hlt, k, rfl, hk⟩ := ht
  obtain ⟨m, hm⟩ := exists_firstMatch (lt_timestampOf_iff.mp hlt) hk
  refine ⟨timestampOf offset m, hm.isLeast, ?_⟩
  rw [cronNextAfter_eq hparse hm, localMinute_timestampOf, ← distance_lt_attempts_iff hm.le]
  split
  · rename_i hd
    exact iff_of_true rfl hd
  · rename_i hd
    exact iff_of_false (fun h => by cases h) hd

/-- The time 2026-05-13 12:34 UTC. -/
def noonInMay : Int := (9629 * 1440 + 754) * minuteLength

def fieldsOf (expr : List Char) (h : (parseExpression expr).isOk = true) : CronFields :=
  match parseExpression expr, h with
  | .ok f, _ => f

theorem cronNextAfter_eq_least_iff_quarterHour :
    ∃ m, IsLeast {t | LaterMatch 0 (fieldsOf "*/15 * * * *".toList (by decide)) noonInMay t} m ∧
      (cronNextAfter 0 "*/15 * * * *".toList noonInMay = .ok m ↔
        InReach (firstMinute 0 noonInMay) (localMinute 0 m)) :=
  cronNextAfter_eq_least_iff 0 _ _ rfl noonInMay (timestampOf 0 (9629 * 1440 + 765))
    ⟨by decide, _, rfl, by decide⟩

example : cronNextAfter 0 "*/15 * * * *".toList noonInMay =
    .ok (timestampOf 0 (9629 * 1440 + 765)) := by decide

/-- The fields of `@yearly`. -/
def yearly : CronFields := fieldsOf "@yearly".toList (by decide)

/-- The time 2026-01-02 12:00 UTC. -/
def secondOfJanuary : Int := (9498 * 1440 + 720) * minuteLength

def newYear : Int := 9862 * 1440

theorem yearly_between : ∀ i < 364, dayMatches yearly (9498 + (i : Nat)) = false := by
  decide +kernel

theorem firstMatch_yearly : FirstMatch yearly (firstMinute 0 secondOfJanuary) newYear := by
  refine ⟨by decide, by decide, fun k hk hmatch => ?_⟩
  by_contra hlt
  have hday := dayMatches_of_minuteMatches hmatch
  have hk' : 9498 * 1440 ≤ k := le_trans (by decide) hk
  have hnone := yearly_between (dayOf k - 9498).toNat (by unfold dayOf newYear at *; omega)
  rw [show (9498 : Int) + ((dayOf k - 9498).toNat : Nat) = dayOf k by unfold dayOf; omega, hday]
    at hnone
  cases hnone

/-- The day after New Year's Day `@yearly` is not found, although it is less than a year away. -/
theorem yearly_not_found :
    LaterMatch 0 yearly secondOfJanuary (timestampOf 0 newYear) ∧
      timestampOf 0 newYear < secondOfJanuary + 365 * 1440 * minuteLength ∧
      cronNextAfter 0 "@yearly".toList secondOfJanuary = .error (.noMatch "@yearly".toList) := by
  refine ⟨firstMatch_yearly.isLeast.1, by decide, ?_⟩
  rw [cronNextAfter_eq rfl firstMatch_yearly, if_neg (by decide)]

end MaluDb.Cron
