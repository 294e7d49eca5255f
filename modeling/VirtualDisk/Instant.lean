namespace VirtualDisk

/-- A point in time. A fraction of a full second or more stands for a leap
second: the time is that much later than the second which it follows. -/
structure Instant where
  seconds : Int
  nanoseconds : Nat
deriving DecidableEq

structure Date where
  year : Int
  month : Nat
  day : Nat
deriving DecidableEq

namespace Date

def isLeapYear (year : Int) : Bool :=
  year % 4 = 0 && (year % 100 ≠ 0 || year % 400 = 0)

def monthLength (year : Int) (month : Nat) : Nat :=
  match month with
  | 2 => if isLeapYear year then 29 else 28
  | 4 | 6 | 9 | 11 => 30
  | _ => 31

def isValid (d : Date) : Bool :=
  1 ≤ d.month && d.month ≤ 12 && 1 ≤ d.day && d.day ≤ monthLength d.year d.month

/-- Days from the start of 1970 to a day. Years are counted from March, so
that the day a leap year adds is the last of its year, and in groups of four
hundred, which all have the same number of days. -/
def toDays (d : Date) : Int :=
  let year := if d.month ≤ 2 then d.year - 1 else d.year
  let group := year / 400
  let yearOfGroup := year % 400
  let monthFromMarch : Int := ((d.month + 9) % 12 : Nat)
  let dayOfYear := (153 * monthFromMarch + 2) / 5 + (d.day - 1)
  let dayOfGroup := yearOfGroup * 365 + yearOfGroup / 4 - yearOfGroup / 100 + dayOfYear
  group * 146097 + dayOfGroup - 719468

def ofDays (days : Int) : Date :=
  let shifted := days + 719468
  let group := shifted / 146097
  let dayOfGroup := shifted % 146097
  let yearOfGroup :=
    (dayOfGroup - dayOfGroup / 1460 + dayOfGroup / 36524 - dayOfGroup / 146096) / 365
  let dayOfYear := dayOfGroup - (365 * yearOfGroup + yearOfGroup / 4 - yearOfGroup / 100)
  let monthFromMarch := (5 * dayOfYear + 2) / 153
  let day := dayOfYear - (153 * monthFromMarch + 2) / 5 + 1
  let month := if monthFromMarch < 10 then monthFromMarch + 3 else monthFromMarch - 9
  let year := yearOfGroup + group * 400 + (if month ≤ 2 then 1 else 0)
  ⟨year, month.toNat, day.toNat⟩

end Date

namespace Instant

def imageEpoch : Int := 946684800

def ofTimestamp (timestamp : UInt32) : Instant := ⟨imageEpoch + timestamp.toNat, 0⟩

def date (t : Instant) : Date := Date.ofDays (t.seconds / 86400)

def secondOfDay (t : Instant) : Nat := (t.seconds % 86400).toNat

def padded (width n : Nat) : List Char :=
  let digits := Nat.toDigits 10 n
  List.replicate (width - digits.length) '0' ++ digits

/-- A year: four digits, and a sign with all years that need more or fewer. -/
def yearChars (year : Int) : List Char :=
  if 0 ≤ year ∧ year ≤ 9999 then padded 4 year.toNat
  else (if year < 0 then '-' else '+') :: padded 4 year.natAbs

def fractionChars (nanoseconds : Nat) : List Char :=
  if nanoseconds = 0 then []
  else if nanoseconds % 1000000 = 0 then '.' :: padded 3 (nanoseconds / 1000000)
  else if nanoseconds % 1000 = 0 then '.' :: padded 6 (nanoseconds / 1000)
  else '.' :: padded 9 nanoseconds

/-- An instant as `year-month-dayThour:minute:second`, with a fraction if it
has one. A leap second is second sixty. -/
def toChars (t : Instant) : List Char :=
  let d := t.date
  let s := t.secondOfDay
  let isLeap := 1000000000 ≤ t.nanoseconds
  let second := s % 60 + (if isLeap then 1 else 0)
  let fraction := if isLeap then t.nanoseconds - 1000000000 else t.nanoseconds
  yearChars d.year ++ '-' :: padded 2 d.month ++ '-' :: padded 2 d.day
    ++ 'T' :: padded 2 (s / 3600) ++ ':' :: padded 2 (s / 60 % 60) ++ ':' :: padded 2 second
    ++ fractionChars fraction

def textZulu (t : Instant) : String := String.ofList (t.toChars ++ ['Z'])

def textOffset (t : Instant) : String := String.ofList (t.toChars ++ "+00:00".toList)

end Instant

end VirtualDisk
