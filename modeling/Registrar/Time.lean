/-!
# Points in time

A time in UTC on the proleptic Gregorian calendar, to the nanosecond. A minute may have a
sixty-first second, so that leap seconds can be told.
-/

namespace Registrar

namespace Calendar

def isLeap (year : Int) : Bool :=
  year % 4 == 0 && (year % 100 != 0 || year % 400 == 0)

def daysInMonth (year : Int) (month : Nat) : Nat :=
  if month == 2 then if isLeap year then 29 else 28
  else if month == 4 || month == 6 || month == 9 || month == 11 then 30 else 31

/-- Years are kept within these bounds. -/
def isYear (year : Int) : Bool :=
  decide (-262143 ≤ year) && decide (year ≤ 262142)

def isDate (year : Int) (month day : Nat) : Bool :=
  isYear year && (1 ≤ month && month ≤ 12) && (1 ≤ day && day ≤ daysInMonth year month)

end Calendar

structure Date where
  year : Int
  month : Nat
  day : Nat
  valid : Calendar.isDate year month day = true
  deriving DecidableEq

namespace Date

def of? (year : Int) (month day : Nat) : Option Date :=
  if h : Calendar.isDate year month day then some ⟨year, month, day, h⟩ else none

def next? (d : Date) : Option Date :=
  (of? d.year d.month (d.day + 1)).or ((of? d.year (d.month + 1) 1).or (of? (d.year + 1) 1 1))

def previous? (d : Date) : Option Date :=
  let month := if d.month = 1 then 12 else d.month - 1
  let year := if d.month = 1 then d.year - 1 else d.year
  if d.day = 1 then of? year month (Calendar.daysInMonth year month)
  else of? d.year d.month (d.day - 1)

end Date

structure Time where
  date : Date
  hour : Fin 24
  minute : Fin 60
  second : Fin 61
  nanosecond : Fin 1000000000
  deriving DecidableEq

namespace Time

/-- The same instant read on a clock that is so many minutes behind, by less than a day. -/
def behind? (t : Time) (minutes : Int) : Option Time :=
  if minutes = 0 then some t
  else do
    let ofDay : Int := 60 * t.hour.val + t.minute.val - minutes
    let date ← if ofDay < 0 then t.date.previous?
      else if 1440 ≤ ofDay then t.date.next?
      else some t.date
    let rest := (ofDay % 1440).toNat
    return { t with date, hour := Fin.ofNat 24 (rest / 60), minute := Fin.ofNat 60 (rest % 60) }

def padded (width n : Nat) : String :=
  let digits := n.repr
  String.ofList (List.replicate (width - digits.length) '0') ++ digits

/-- Four digits for a year of the common era, a sign before any other. -/
def renderYear (year : Int) : String :=
  if 0 ≤ year ∧ year ≤ 9999 then padded 4 year.toNat
  else if 0 ≤ year then "+" ++ padded 4 year.toNat
  else "-" ++ padded 4 (-year).toNat

/-- The fraction of a second in none, three, six or nine digits, as few as hold it. -/
def renderFraction (n : Nat) : String :=
  if n = 0 then ""
  else if n % 1000000 = 0 then "." ++ padded 3 (n / 1000000)
  else if n % 1000 = 0 then "." ++ padded 6 (n / 1000)
  else "." ++ padded 9 n

/-- The text of a time, such as `2026-01-02T03:04:05Z`. -/
def render (t : Time) : String :=
  renderYear t.date.year ++ "-" ++ padded 2 t.date.month ++ "-" ++ padded 2 t.date.day ++ "T"
    ++ padded 2 t.hour ++ ":" ++ padded 2 t.minute ++ ":" ++ padded 2 t.second
    ++ renderFraction t.nanosecond ++ "Z"

/-- The time so many seconds after the start of 1970, if its year can be kept. -/
def ofUnix? (seconds : Int) (nanosecond : Nat) : Option Time := do
  let days := seconds.fdiv 86400
  let ofDay := (seconds.fmod 86400).toNat
  let shifted := days + 719468
  let era := shifted.fdiv 146097
  let dayOfEra := (shifted.fmod 146097).toNat
  let yearOfEra :=
    (dayOfEra - dayOfEra / 1460 + dayOfEra / 36524 - dayOfEra / 146096) / 365
  let dayOfYear := dayOfEra - (365 * yearOfEra + yearOfEra / 4 - yearOfEra / 100)
  let fromMarch := (5 * dayOfYear + 2) / 153
  let day := dayOfYear - (153 * fromMarch + 2) / 5 + 1
  let month := if fromMarch < 10 then fromMarch + 3 else fromMarch - 9
  let year := yearOfEra + 400 * era + (if month ≤ 2 then 1 else 0)
  let date ← Date.of? year month day
  return {
    date
    hour := Fin.ofNat 24 (ofDay / 3600)
    minute := Fin.ofNat 60 (ofDay / 60 % 60)
    second := Fin.ofNat 61 (ofDay % 60)
    nanosecond := Fin.ofNat 1000000000 nanosecond }

end Time

end Registrar
