import Minilang.Bytes

/-! Points in time and how they are written. The calendar is the proleptic Gregorian one. -/

namespace Minilang

structure Time where
  /-- Since the start of 1970 in universal time. -/
  nanoseconds : Int := 0
  /-- Seconds east of universal time. -/
  zone : Int := 0
  deriving DecidableEq, Repr

namespace Time

/-- Seconds of the local clock since the start of 1970. -/
def localSeconds (time : Time) : Int := time.nanoseconds.fdiv 1000000000 + time.zone

/-- Nanoseconds since the last full second. -/
def fraction (time : Time) : Nat := (time.nanoseconds.fmod 1000000000).toNat

def secondOfDay (time : Time) : Nat := (time.localSeconds.fmod 86400).toNat

/-- `hh:mm:ss`. -/
def clock (time : Time) : Bytes :=
  let second := time.secondOfDay
  Bytes.decPadded 2 (second / 3600) ++ ":" ++ Bytes.decPadded 2 (second / 60 % 60) ++ ":" ++
    Bytes.decPadded 2 (second % 60)

/-- Year, month and day of a day number counted from the start of 1970. Years are taken from March
on, so that the leap day comes last; four hundred of them have 146097 days. -/
def civil (day : Int) : Int × Nat × Nat :=
  let shifted := day + 719468
  let era := shifted.fdiv 146097
  let dayOfEra := (shifted.fmod 146097).toNat
  let yearOfEra := (dayOfEra - dayOfEra / 1460 + dayOfEra / 36524 - dayOfEra / 146096) / 365
  let dayOfYear := dayOfEra - (365 * yearOfEra + yearOfEra / 4 - yearOfEra / 100)
  let month := (5 * dayOfYear + 2) / 153
  let day := dayOfYear - (153 * month + 2) / 5 + 1
  let month := if month < 10 then month + 3 else month - 9
  (era * 400 + yearOfEra + (if month ≤ 2 then 1 else 0), month, day)

/-- `yyyy-mm-dd`. -/
def date (time : Time) : Bytes :=
  let (year, month, day) := civil (time.localSeconds.fdiv 86400)
  Bytes.decPadded 4 year.toNat ++ "-" ++ Bytes.decPadded 2 month ++ "-" ++ Bytes.decPadded 2 day

/-- `Z`, or the distance from universal time in hours and minutes. -/
def zoneText (time : Time) : Bytes :=
  if time.zone = 0 then "Z"
  else
    let minutes := time.zone.tdiv 60
    (if minutes < 0 then "-" else "+" : Bytes) ++ Bytes.decPadded 2 (minutes.natAbs / 60) ++ ":" ++
      Bytes.decPadded 2 (minutes.natAbs % 60)

/-- The clock with milliseconds. -/
def short (time : Time) : Bytes :=
  time.clock ++ "." ++ Bytes.decPadded 3 (time.fraction / 1000000)

/-- Date, clock with microseconds, and zone. -/
def long (time : Time) : Bytes :=
  time.date ++ "T" ++ time.clock ++ "." ++ Bytes.decPadded 6 (time.fraction / 1000) ++
    time.zoneText

end Time

end Minilang
