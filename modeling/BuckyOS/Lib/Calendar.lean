import Mathlib.Tactic

/-! The proleptic Gregorian calendar over seconds since 1970-01-01T00:00:00Z: dates from day
numbers and back, days of the week, and the time of day to the minute. -/
namespace BuckyOS.Calendar
structure DateTime where
  year : ℤ
  month : ℕ
  day : ℕ
  weekday : ℕ
  hour : ℕ
  minute : ℕ
deriving DecidableEq

variable (ts : ℤ) (year : ℤ)

/-- The number of a day, years beginning with March so that a leap day comes last. -/
def daysFromCivil (month day : ℕ) : ℤ :=
  let y := if month ≤ 2 then year - 1 else year
  let era := y / 400
  let yearOfEra := y % 400
  let dayOfYear : ℤ := (153 * (if 2 < month then month - 3 else month + 9) + 2) / 5 + day - 1
  era * 146097 + yearOfEra * 365 + yearOfEra / 4 - yearOfEra / 100 + dayOfYear - 719468

def civilFromDays (days : ℤ) : ℤ × ℕ × ℕ :=
  let z := days + 719468
  let era := z / 146097
  let dayOfEra := (z % 146097).toNat
  let yearOfEra := (dayOfEra - dayOfEra / 1460 + dayOfEra / 36524 - dayOfEra / 146096) / 365
  let dayOfYear := dayOfEra - (365 * yearOfEra + yearOfEra / 4 - yearOfEra / 100)
  let shifted := (5 * dayOfYear + 2) / 153
  let day := dayOfYear - (153 * shifted + 2) / 5 + 1
  let month := if shifted < 10 then shifted + 3 else shifted - 9
  (yearOfEra + era * 400 + (if month ≤ 2 then 1 else 0),month,day)

def weekdayOf (days : ℤ) : ℕ := ((days + 4) % 7).toNat

def daysInMonth (month : ℕ) : ℕ :=
  if month = 2 then
    if year % 4 = 0 ∧ (year % 100 ≠ 0 ∨ year % 400 = 0) then 29 else 28
  else if month = 4 ∨ month = 6 ∨ month = 9 ∨ month = 11 then 30
  else 31

def timestampOf (month day hour : ℕ) : ℤ :=
  daysFromCivil year month day * 86400 + hour * 3600

def ofTimestamp : DateTime :=
  let date := civilFromDays (ts / 86400)
  ⟨date.1,date.2.1,date.2.2,weekdayOf (ts / 86400),(ts % 86400 / 3600).toNat,
    (ts % 3600 / 60).toNat⟩

example : ofTimestamp 0 = ⟨1970,1,1,4,0,0⟩ := by decide

example : ofTimestamp 1709164740 = ⟨2024,2,28,3,23,59⟩ ∧
    ofTimestamp 1709164800 = ⟨2024,2,29,4,0,0⟩ := by decide

/-- The first and the last second of the years from -262143 to 262142. -/
def earliest : ℤ := timestampOf (-262143) 1 1 0

def latest : ℤ := timestampOf 262143 1 1 0 - 1

theorem earliest_eq : earliest = -8334601228800 := by decide

theorem latest_eq : latest = 8210266876799 := by decide

theorem day_bounds : 1 ≤ (ofTimestamp ts).day ∧ (ofTimestamp ts).day ≤ 31 := by
  have hday : ∀ dayOfYear : ℕ, 1 ≤ dayOfYear - (153 * ((5 * dayOfYear + 2) / 153) + 2) / 5 + 1 ∧
        dayOfYear - (153 * ((5 * dayOfYear + 2) / 153) + 2) / 5 + 1 ≤ 31 := by
    intro dayOfYear
    omega
  exact hday _

theorem weekday_lt : (ofTimestamp ts).weekday < 7 := by
  show ((ts / 86400 + 4) % 7).toNat < 7
  omega

theorem ofTimestamp_minute : ofTimestamp (ts - ts % 60) = ofTimestamp ts := by
  have hday : (ts - ts % 60) / 86400 = ts / 86400 := by omega
  have hhour : (ts - ts % 60) % 86400 / 3600 = ts % 86400 / 3600 := by omega
  have hminute : (ts - ts % 60) % 3600 / 60 = ts % 3600 / 60 := by omega
  simp only [ofTimestamp,hday,hhour,hminute]

theorem timestampOf_mod (month day hour : ℕ) : timestampOf year month day hour % 60 = 0 := by
  rw [timestampOf]
  omega

end BuckyOS.Calendar
