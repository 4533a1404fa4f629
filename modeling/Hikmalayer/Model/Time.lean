/-
# Timestamps

The `DateTime<Utc>` of the date library: a day, a second of that day and a
sub-second part.  A leap second is written as a sub-second part of one second or
more, and the library's subtraction counts it when the difference passes it.
-/
import Mathlib.Tactic

/-- A point in time: days since 1970-01-01, second of the day, nanoseconds
(a second or more of nanoseconds means a leap second). -/
structure DateTime where
  day : ℤ
  sec : Fin 86400
  nano : Fin 2000000000
  deriving DecidableEq, Repr

namespace DateTime

/-- The time order: by day, then second, then sub-second part. -/
def before (a b : DateTime) : Prop :=
  a.day < b.day ∨ a.day = b.day ∧
    (a.sec < b.sec ∨ a.sec = b.sec ∧ a.nano < b.nano)

instance (a b : DateTime) : Decidable (before a b) := by
  unfold before; infer_instance

/-- The time as one number that respects the order. -/
def key (t : DateTime) : ℤ := (t.day * 86400 + t.sec.val) * 2000000000 + t.nano.val

theorem before_iff {a b : DateTime} : a.before b ↔ a.key < b.key := by
  obtain ⟨d, s, n⟩ := a
  obtain ⟨d', s', n'⟩ := b
  simp only [before, key, Fin.lt_def, Fin.ext_iff]
  have hn := n.isLt
  have hn' := n'.isLt
  have hs := s.isLt
  have hs' := s'.isLt
  omega

/-- Whether the time lies inside a leap second. -/
def inLeapSecond (a : DateTime) : Bool := 1000000000 ≤ a.nano.val

/-- The leap second a difference passes, counted by seconds of the day. -/
def leapAdjust (a b : DateTime) : ℤ :=
  if b.sec < a.sec then (if b.inLeapSecond then 1 else 0)
  else if a.sec < b.sec then (if a.inLeapSecond then -1 else 0)
  else 0

/-- `(a - b).num_seconds()`: the difference in whole seconds, towards zero. -/
def numSecondsSince (a b : DateTime) : ℤ :=
  (((a.day - b.day) * 86400 + ((a.sec.val : ℤ) - b.sec.val) + leapAdjust a b) * 1000000000
    + ((a.nano.val : ℤ) - b.nano.val)).tdiv 1000000000

/-- `t + Duration::seconds(n)` for a non-negative number of seconds. -/
def addSeconds (t : DateTime) (n : ℕ) : DateTime where
  day := t.day + ((t.sec.val + n) / 86400 : ℕ)
  sec := ⟨(t.sec.val + n) % 86400, Nat.mod_lt _ (by decide)⟩
  nano :=
    if 0 < n ∧ t.inLeapSecond then ⟨t.nano.val - 1000000000, by omega⟩ else t.nano

theorem key_addSeconds {t : DateTime} (h : t.inLeapSecond = false) (n : ℕ) :
    (t.addSeconds n).key = t.key + n * 2000000000 := by
  have hnano : (t.addSeconds n).nano = t.nano := by
    rw [addSeconds]
    exact if_neg fun hleap => Bool.false_ne_true (h.symm.trans hleap.2)
  rw [key, key, hnano]
  show ((t.day + ((t.sec.val + n) / 86400 : ℕ)) * 86400 + ((t.sec.val + n) % 86400 : ℕ)) *
    2000000000 + _ = _
  have hdiv := Nat.div_add_mod (t.sec.val + n) 86400
  push_cast at hdiv ⊢
  omega

/-- A reading of the system clock, which counts no leap seconds. -/
structure Reading where
  time : DateTime
  regular : time.inLeapSecond = false

/-! ## Printing -/

/-- Year, month and day of month of a day number. -/
def civil (day : ℤ) : ℤ × ℕ × ℕ :=
  let z := day + 719468
  let era := z / 146097
  let doe := (z % 146097).toNat
  let yoe := (doe - doe / 1460 + doe / 36524 - doe / 146096) / 365
  let doy := doe - (365 * yoe + yoe / 4 - yoe / 100)
  let mp := (5 * doy + 2) / 153
  let d := doy - (153 * mp + 2) / 5 + 1
  let m := if mp < 10 then mp + 3 else mp - 9
  (yoe + era * 400 + (if m ≤ 2 then 1 else 0), m, d)

/-- A number with at least `width` digits, filled with zeroes. -/
def padded (width n : ℕ) : String :=
  "".pushn '0' (width - (toString n).length) ++ toString n

/-- Four digits for the years 0 to 9999, else a sign and at least four digits. -/
def yearText (year : ℤ) : String :=
  if 0 ≤ year ∧ year ≤ 9999 then padded 4 year.toNat
  else (if year < 0 then "-" else "+") ++ padded 4 year.natAbs

/-- The sub-second part: nothing, or three, six or nine digits. -/
def fractionText (nano : ℕ) : String :=
  if nano = 0 then ""
  else if nano % 1000000 = 0 then "." ++ padded 3 (nano / 1000000)
  else if nano % 1000 = 0 then "." ++ padded 6 (nano / 1000)
  else "." ++ padded 9 nano

/-- Date and time without the offset. -/
def naiveText (t : DateTime) : String :=
  let (year, month, dayOfMonth) := civil t.day
  let sec := t.sec.val % 60 + (if t.inLeapSecond then 1 else 0)
  let nano := if t.inLeapSecond then t.nano.val - 1000000000 else t.nano.val
  yearText year ++ "-" ++ padded 2 month ++ "-" ++ padded 2 dayOfMonth ++ "T" ++
    padded 2 (t.sec.val / 3600) ++ ":" ++ padded 2 (t.sec.val / 60 % 60) ++ ":" ++
    padded 2 sec ++ fractionText nano

/-- The `Debug` text of a timestamp. -/
def debugText (t : DateTime) : String := naiveText t ++ "Z"

/-- The text of `to_rfc3339`. -/
def toRfc3339 (t : DateTime) : String := naiveText t ++ "+00:00"

/-- `DateTime::from_timestamp` for whole seconds since 1970-01-01. -/
def ofTimestamp (seconds : ℤ) : DateTime where
  day := seconds / 86400
  sec := ⟨(seconds % 86400).toNat, by omega⟩
  nano := 0

example : (ofTimestamp 1767225600).debugText = "2026-01-01T00:00:00Z" := by decide

end DateTime
