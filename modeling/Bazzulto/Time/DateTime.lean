/-
  Time/DateTime.lean --- calendar time in user space.

  Embeds `DateTime::from_unix` with `add`, `subtract` and `-` on durations, and the two
  functions `format_iso8601`, of `DateTime` and of `SystemTime`
  (userspace/libraries/bsl/Bazzulto.System/src/time.rs).  Both compute the date in the
  same way, but write its digits each in their own.
-/
import Bazzulto.Foundation.Checked
import Bazzulto.Permission.Pattern
import Mathlib.Data.List.GetD

set_option autoImplicit false

namespace Bazzulto.Time

open Foundation List

/-- `DateTime`.  The cached `unix_seconds` is what calculations start from. -/
structure DateTime where
  year : Int
  month : Nat
  day : Nat
  hour : Nat
  minute : Nat
  second : Nat
  nanosecond : UInt32
  weekday : Nat
  unixSeconds : UInt64
  deriving DecidableEq, Repr

/-- Year, month and day of a number of days since 1970-01-01. -/
def civil (days : Nat) : Nat × Nat × Nat :=
  let z := days + 719468
  let era := z / 146097
  let dayOfEra := z - era * 146097
  let yearOfEra := (dayOfEra - dayOfEra / 1460 + dayOfEra / 36524 - dayOfEra / 146096) / 365
  let yearRaw := yearOfEra + era * 400
  let dayOfYear := dayOfEra - (365 * yearOfEra + yearOfEra / 4 - yearOfEra / 100)
  let monthPrime := (5 * dayOfYear + 2) / 153
  let day := dayOfYear - (153 * monthPrime + 2) / 5 + 1
  let month := if monthPrime < 10 then monthPrime + 3 else monthPrime - 9
  (if month ≤ 2 then yearRaw + 1 else yearRaw, month, day)

/-- `DateTime::from_unix`.  The year is cut to an `i32`. -/
def DateTime.fromUnix (unixSeconds : UInt64) (nanosecond : UInt32) : DateTime :=
  let days := unixSeconds.toNat / 86400
  let remaining := unixSeconds.toNat % 86400
  let date := civil days
  { year := Int.bmod date.1 (2 ^ 32)
    month := date.2.1
    day := date.2.2
    hour := remaining / 3600
    minute := remaining % 3600 / 60
    second := remaining % 60
    nanosecond
    weekday := (days + 4) % 7
    unixSeconds }

/-! ## Two texts of one time -/

/-- `dt_push_u8_2`. -/
def pushU82 (value : Nat) : Text :=
  (if value < 10 then ['0'] else []) ++ Nat.toDigits 10 value

/-- `dt_push_i32_4`. -/
def pushI324 (value : Int) : Text :=
  let digits := Nat.toDigits 10 value.natAbs
  (if value < 0 then ['-'] else []) ++ replicate (4 - digits.length) '0' ++ digits

def DateTime.formatIso8601 (time : DateTime) : Text :=
  pushI324 time.year ++ '-' :: pushU82 time.month ++ '-' :: pushU82 time.day ++
    ' ' :: pushU82 time.hour ++ ':' :: pushU82 time.minute ++ ':' :: pushU82 time.second

/-- `write_u64_padded`: what is written to the first `width` bytes of the buffer.  The
array of digits, the last digit first, has room for ten. -/
def writeU64Padded (value width : Nat) : Checked Text :=
  let digits := (Nat.toDigits 10 value).reverse
  if digits.length ≤ 10 then
    .ok ((range width).reverse.map fun i =>
      if i < digits.length then digits.getD (digits.length - 1 - i) '0' else '0')
  else .error .index

def SystemTime.formatIso8601 (secs : UInt64) : Checked Text := do
  let remaining := secs.toNat % 86400
  let date := civil (secs.toNat / 86400)
  let year ← writeU64Padded date.1 4
  let month ← writeU64Padded date.2.1 2
  let day ← writeU64Padded date.2.2 2
  let hour ← writeU64Padded (remaining / 3600) 2
  let minute ← writeU64Padded (remaining % 3600 / 60) 2
  let second ← writeU64Padded (remaining % 60) 2
  return year ++ '-' :: month ++ '-' :: day ++ ' ' :: hour ++ ':' :: minute ++ ':' :: second

/-- Zeros before the digits. -/
def padded (width : Nat) (digits : Text) : Text := replicate (width - digits.length) '0' ++ digits

theorem length_padded {width : Nat} {digits : Text} (h : digits.length ≤ width) :
    (padded width digits).length = width := by
  simp [padded]
  omega

theorem length_digits_le {value width : Nat} (hpos : 0 < width) (h : value < 10 ^ width) :
    (Nat.toDigits 10 value).length ≤ width :=
  (Nat.length_toDigits_le_iff (by decide) hpos).mpr h

theorem pushU82_eq (value : Nat) : pushU82 value = padded 2 (Nat.toDigits 10 value) := by
  unfold pushU82 padded
  split
  next hlow => rw [Nat.toDigits_of_lt_base hlow]; rfl
  next hhigh =>
    have hlen : ¬ (Nat.toDigits 10 value).length ≤ 1 :=
      mt (Nat.length_toDigits_le_iff (by decide) (by decide)).mp hhigh
    rw [Nat.sub_eq_zero_of_le (by omega)]
    rfl

/-- The digits are written in the wrong order. -/
theorem writeU64Padded_eq {value width : Nat} (hlen : (Nat.toDigits 10 value).length ≤ width)
    (hwidth : width ≤ 10) :
    writeU64Padded value width = .ok (padded width (Nat.toDigits 10 value).reverse) := by
  unfold writeU64Padded
  rw [← length_reverse] at hlen
  generalize (Nat.toDigits 10 value).reverse = digits at hlen
  rw [if_pos (hlen.trans hwidth)]
  refine congrArg Except.ok (ext_getElem (by rw [length_padded hlen]; simp) fun j hj _ => ?_)
  rw [length_map, length_reverse, length_range] at hj
  simp only [padded, getElem_map, getElem_reverse, getElem_range, length_range, getElem_append,
    length_replicate, getElem_replicate]
  by_cases hzero : j < width - digits.length
  · rw [if_neg (by omega), dif_pos hzero]
  · rw [if_pos (by omega), dif_neg hzero, getD_eq_getElem _ _ (by omega)]
    congr 1
    omega

theorem civil_bounds (days : Nat) : (civil days).2.1 < 100 ∧ (civil days).2.2 < 100 := by
  unfold civil
  dsimp only
  have hera := Nat.mod_lt (days + 719468) (show 146097 > 0 by decide)
  rw [← Nat.mod_eq_sub_div_mul]
  generalize (days + 719468) % 146097 = dayOfEra at *
  split <;> omega

theorem append_cons_inj {first first' rest rest' : Text} {char : Char}
    (hlen : first.length = first'.length) :
    first ++ char :: rest = first' ++ char :: rest' ↔ first = first' ∧ rest = rest' := by
  rw [append_eq_append_iff_of_size_eq_left hlen, cons_inj_right]

theorem padded_reverse_iff {width value : Nat} {rest rest' : Text} {char : Char} :
    padded width (Nat.toDigits 10 value).reverse ++ char :: rest =
        padded width (Nat.toDigits 10 value) ++ char :: rest' ↔
      (Nat.toDigits 10 value).reverse = Nat.toDigits 10 value ∧ rest = rest' := by
  rw [append_cons_inj (by simp [padded])]
  simp [padded]

theorem writeU64Padded_two {value : Nat} (h : value < 100) :
    writeU64Padded value 2 = .ok (padded 2 (Nat.toDigits 10 value).reverse) :=
  writeU64Padded_eq (length_digits_le (by decide) h) (by decide)

/-- The numbers of a time that both texts write. -/
def fields (secs : Nat) : List Nat :=
  let date := civil (secs / 86400)
  [date.1, date.2.1, date.2.2, secs % 86400 / 3600, secs % 86400 % 3600 / 60, secs % 86400 % 60]

/-- The two texts agree if and only if every number in them reads the same backwards. -/
theorem formats_agree_iff (secs : UInt64) (nanosecond : UInt32)
    (hyear : (civil (secs.toNat / 86400)).1 ≤ 9999) :
    SystemTime.formatIso8601 secs = .ok (DateTime.fromUnix secs nanosecond).formatIso8601 ↔
      ∀ field ∈ fields secs.toNat, (Nat.toDigits 10 field).reverse = Nat.toDigits 10 field := by
  have hbounds := civil_bounds (secs.toNat / 86400)
  unfold SystemTime.formatIso8601 DateTime.formatIso8601 DateTime.fromUnix fields
  dsimp only
  generalize civil (secs.toNat / 86400) = date at *
  obtain ⟨year, month, day⟩ := date
  dsimp only at *
  have hpushed : pushI324 (Int.bmod year (2 ^ 32)) = padded 4 (Nat.toDigits 10 year) := by
    rw [Int.bmod_eq_of_le (by omega) (by omega)]
    simp [pushI324, padded]
  have hyear' : year < 10 ^ 4 := by omega
  have hhour : secs.toNat % 86400 / 3600 < 100 := by omega
  have hminute : secs.toNat % 86400 % 3600 / 60 < 100 := by omega
  have hsecond : secs.toNat % 86400 % 60 < 100 := by omega
  rw [writeU64Padded_eq (length_digits_le (by decide) hyear') (by decide),
    writeU64Padded_two hbounds.1, writeU64Padded_two hbounds.2, writeU64Padded_two hhour,
    writeU64Padded_two hminute, writeU64Padded_two hsecond, hpushed]
  dsimp only [bind, Except.bind, pure, Except.pure]
  simp only [pushU82_eq, append_assoc, cons_append, Except.ok.injEq, padded_reverse_iff]
  simp [padded]

/-- 1991-01-01 11:22:33 -/
theorem formats_agree_1991 :
    SystemTime.formatIso8601 662728953 =
      .ok (DateTime.fromUnix 662728953 0).formatIso8601 :=
  (formats_agree_iff 662728953 0 (by decide)).mpr (by decide)

/-- 1970-01-13: the day is written as 31. -/
theorem day_thirteen_written_backwards :
    SystemTime.formatIso8601 1036800 = .ok "0791-01-31 00:00:00".toList ∧
      (DateTime.fromUnix 1036800 0).formatIso8601 = "1970-01-13 00:00:00".toList := by
  decide

/-! ## Arithmetic -/

namespace DateTime

section

variable (a b : DateTime) (duration : UInt64)

/-- Nanoseconds since the epoch. -/
def toNanos : Nat := a.unixSeconds.toNat * 10 ^ 9 + a.nanosecond.toNat

/-- `DateTime::add`: the nanoseconds are added as `u32`, the seconds saturate.  A sum that
wraps, or panics with checks, is a fault. -/
def add : Checked DateTime :=
  let newNanos := a.nanosecond.toNat + duration.toNat % 10 ^ 9
  if newNanos < 2 ^ 32 then
    let seconds := min (a.unixSeconds.toNat + duration.toNat / 10 ^ 9) (2 ^ 64 - 1)
    let seconds := min (seconds + newNanos / 10 ^ 9) (2 ^ 64 - 1)
    .ok (fromUnix (.ofNat seconds) (.ofNat (newNanos % 10 ^ 9)))
  else .error .overflow

/-- `-` with a duration: only the seconds saturate. -/
def subDuration : DateTime :=
  let nanos := duration.toNat % 10 ^ 9
  let unix := a.unixSeconds.toNat - duration.toNat / 10 ^ 9
  if nanos ≤ a.nanosecond.toNat then
    fromUnix (.ofNat unix) (.ofNat (a.nanosecond.toNat - nanos))
  else fromUnix (.ofNat (unix - 1)) (.ofNat (10 ^ 9 + a.nanosecond.toNat - nanos))

/-- `DateTime::subtract`: the nanoseconds of the result. -/
def subtract : Checked Nat :=
  if a.unixSeconds < b.unixSeconds then .ok 0
  else
    let secs := a.unixSeconds.toNat - b.unixSeconds.toNat
    if b.nanosecond ≤ a.nanosecond then do
      Checked.add (← Checked.mul secs (10 ^ 9)) (a.nanosecond.toNat - b.nanosecond.toNat)
    else do
      let sum ← Checked.add (← Checked.mul (← Checked.sub secs 1) (10 ^ 9)) (10 ^ 9)
      Checked.sub (← Checked.add sum a.nanosecond.toNat) b.nanosecond.toNat

/-- `a + d` is no fault, and is exact if its seconds are a `u64`. -/
def AddsExactly : Prop :=
  ∃ sum, a.add duration = .ok sum ∧ ((a.toNanos + duration.toNat) / 10 ^ 9 < 2 ^ 64 →
    sum.toNanos = a.toNanos + duration.toNat)

/-- `a - d` is exact, and zero if `d` is more than `a`. -/
def SubtractsDuration : Prop :=
  (a.subDuration duration).toNanos = a.toNanos - duration.toNat

/-- `a.subtract(b)` is no fault, and is exact if it is a `u64`, and zero if `b` is more
than `a`. -/
def SubtractsExactly : Prop :=
  ∃ elapsed, a.subtract b = .ok elapsed ∧
    (a.toNanos - b.toNanos < 2 ^ 64 → elapsed = a.toNanos - b.toNanos)

/-- The two counts of nanoseconds are a `u32` together. -/
def AddsInRange : Prop := a.nanosecond.toNat + duration.toNat % 10 ^ 9 < 2 ^ 32

/-- The seconds of the duration leave one to borrow from, or nothing is borrowed and
nothing lost. -/
def BorrowsInRange : Prop :=
  duration.toNat / 10 ^ 9 < a.unixSeconds.toNat ∨
    duration.toNat / 10 ^ 9 = a.unixSeconds.toNat ∧ duration.toNat % 10 ^ 9 ≤ a.nanosecond.toNat ∨
    duration.toNat % 10 ^ 9 = a.nanosecond.toNat

/-- The difference is a `u64`; where a second is borrowed, `b` is not more than `a` and the
sum before the last subtraction is a `u64`. -/
def ElapsesInRange : Prop :=
  if a.unixSeconds < b.unixSeconds then a.toNanos ≤ b.toNanos
  else if b.nanosecond ≤ a.nanosecond then a.toNanos - b.toNanos < 2 ^ 64
  else b.toNanos ≤ a.toNanos ∧
    (a.unixSeconds.toNat - b.unixSeconds.toNat) * 10 ^ 9 + a.nanosecond.toNat < 2 ^ 64

end

variable {a b : DateTime} {duration : UInt64}

theorem toNanos_fromUnix {unix nanos : Nat} (hunix : unix < 2 ^ 64) (hnanos : nanos < 2 ^ 32) :
    (fromUnix (.ofNat unix) (.ofNat nanos)).toNanos = unix * 10 ^ 9 + nanos := by
  change (UInt64.ofNat unix).toNat * 10 ^ 9 + (UInt32.ofNat nanos).toNat = _
  rw [UInt64.toNat_ofNat', UInt32.toNat_ofNat', Nat.mod_eq_of_lt hunix, Nat.mod_eq_of_lt hnanos]

theorem addsExactly_iff : a.AddsExactly duration ↔ a.AddsInRange duration := by
  unfold AddsExactly add
  dsimp only
  split
  next hnanos =>
    refine iff_of_true ⟨_, rfl, fun hfits => ?_⟩ hnanos
    rw [toNanos_fromUnix (by omega) (by omega)]
    unfold toNanos at *
    omega
  next hover => exact iff_of_false (fun ⟨_, hsum, _⟩ => nomatch hsum) hover

theorem subtractsDuration_iff : a.SubtractsDuration duration ↔ a.BorrowsInRange duration := by
  have hunix := a.unixSeconds.toNat_lt
  have hnanos := a.nanosecond.toNat_lt
  unfold SubtractsDuration BorrowsInRange subDuration
  dsimp only
  split
  all_goals
    rw [toNanos_fromUnix (by omega) (by omega)]
    unfold toNanos
    omega

theorem subtractsExactly_iff : a.SubtractsExactly b ↔ a.ElapsesInRange b := by
  have hnanos := a.nanosecond.toNat_lt
  unfold SubtractsExactly ElapsesInRange subtract toNanos
  simp only [UInt64.lt_iff_toNat_lt, UInt32.le_iff_toNat_le]
  split
  next hearlier =>
    simp only [Except.ok.injEq, exists_eq_left']
    omega
  next hlater =>
    unfold Checked.sub Checked.mul Checked.add
    -- The calculation goes on as long as the checks succeed.
    simp only [Checked.ite_bind]
    repeat' split
    all_goals first
      | exact iff_of_true ⟨_, rfl, fun _ => by omega⟩ (by omega)
      | exact iff_of_false (fun ⟨_, helapsed, _⟩ => nomatch helapsed) (by omega)

/-- Where the three operations are exact. -/
theorem exact_iff (a b : DateTime) (duration : UInt64) :
    a.AddsExactly duration ∧ a.SubtractsDuration duration ∧ a.SubtractsExactly b ↔
      a.AddsInRange duration ∧ a.BorrowsInRange duration ∧ a.ElapsesInRange b := by
  rw [addsExactly_iff, subtractsDuration_iff, subtractsExactly_iff]

/-- A nanosecond before the epoch is after it, and there is no time from one nanosecond of a
second to an earlier one. -/
theorem epoch_minus_nanosecond :
    ((fromUnix 0 0).subDuration 1).toNanos = 999999999 ∧
      (fromUnix 5 0).subtract (fromUnix 5 1) = .error .overflow := by
  decide

end DateTime

end Bazzulto.Time
