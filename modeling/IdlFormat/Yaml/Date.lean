import IdlFormat.Text.Digit

/-!
# Dates

A scalar that is spelled like a date, maybe with a time and a time zone, is taken for one. Then the
date has to exist.
-/

namespace IdlFormat

namespace Yaml

namespace Date

/-- What is wrong with a date. -/
inductive Fault where
  /-- The offset of the time zone, in minutes, is a day or more. -/
  | offset (minutes : Int)
  /-- The year does not count. -/
  | year (number : Nat)
  /-- There is no such month. -/
  | month
  /-- The month has no such day. -/
  | day
  /-- There is no such hour. -/
  | hour
  /-- There is no such minute. -/
  | minute
  /-- There is no such second. -/
  | second
deriving DecidableEq, Repr

/-- The minutes of a day. -/
def minutesPerDay : Nat := 1440

/-- A span of time as whole days and the seconds beyond them. -/
def spanText (minutes : Int) : Text :=
  let days := minutes.fdiv minutesPerDay
  let seconds := minutes.fmod minutesPerDay * 60
  let parts :=
    (if days = 0 then [] else ["days=".toList ++ Text.ofInt days]) ++
      if seconds = 0 then [] else ["seconds=".toList ++ Text.ofInt seconds]
  "datetime.timedelta(".toList ++ Text.join [',', ' '] parts ++ [')']

/-- The report on a date. -/
def Fault.message : Fault → Text
  | .offset minutes =>
      "offset must be a timedelta strictly between -timedelta(hours=24) and ".toList ++
        "timedelta(hours=24), not ".toList ++ spanText minutes ++ ['.']
  | .year number => "year ".toList ++ Text.ofNat number ++ " is out of range".toList
  | .month => "month must be in 1..12".toList
  | .day => "day is out of range for month".toList
  | .hour => "hour must be in 0..23".toList
  | .minute => "minute must be in 0..59".toList
  | .second => "second must be in 0..59".toList

/-- Whether a year has a leap day. -/
def isLeap (year : Nat) : Bool :=
  year % 4 = 0 && (year % 100 != 0 || year % 400 = 0)

/-- The number of days of a month. -/
def daysOf (year month : Nat) : Nat :=
  if month = 2 then if isLeap year then 29 else 28
  else if month ∈ [4, 6, 9, 11] then 30
  else 31

/-- Takes a number off a text that has as many digits as allowed. -/
def number? (least most : Nat) (text : Text) : Option (Nat × Text) :=
  let digits := text.takeWhile Char.isDigit
  if least ≤ digits.length && digits.length ≤ most then
    some (Text.decimalValue digits, text.drop digits.length)
  else none

/-- Takes a character off a text. -/
def after? (c : Char) : Text → Option Text
  | [] => none
  | d :: rest => if d = c then some rest else none

/-- The blanks between the parts of a date. -/
def isGap (c : Char) : Bool :=
  c = ' ' || c = '\t'

/-- A time of the day with its time zone. -/
structure Time where
  /-- The hour. -/
  hour : Nat
  /-- The minute. -/
  minute : Nat
  /-- The second. -/
  second : Nat
  /-- The offset of the time zone in minutes. -/
  offset : Int
deriving DecidableEq, Repr

/-- The offset of the time zone that ends a date: none or `Z`, or a sign and hours, maybe with
minutes. -/
def offset? (text : Text) : Option Int :=
  match text.dropWhile isGap with
  | [] => if text.isEmpty then some 0 else none
  | ['Z'] => some 0
  | sign :: rest => do
      guard (sign = '-' || sign = '+')
      let (hours, rest) ← number? 1 2 rest
      let (minutes, rest) ← if rest.isEmpty then some (0, []) else after? ':' rest >>= number? 2 2
      guard rest.isEmpty
      let total : Int := hours * 60 + minutes
      return if sign = '-' then -total else total

/-- Reads a time. -/
def time? (text : Text) : Option Time := do
  let (hour, rest) ← number? 1 2 text
  let (minute, rest) ← after? ':' rest >>= number? 2 2
  let (second, rest) ← after? ':' rest >>= number? 2 2
  let zone := match rest with
    | '.' :: fraction => fraction.dropWhile Char.isDigit
    | _ => rest
  return ⟨hour, minute, second, ← offset? zone⟩

end Date

/-- A date as it is spelled, maybe with a time. -/
structure Date where
  /-- The year. -/
  year : Nat
  /-- The month. -/
  month : Nat
  /-- The day. -/
  day : Nat
  /-- The time. -/
  time : Option Date.Time
  /-- Whether month and day have two digits each. -/
  padded : Bool
deriving DecidableEq, Repr

namespace Date

/-- Reads a date. -/
def ofText? (text : Text) : Option Date := do
  let (year, rest) ← number? 4 4 text
  let (month, rest) ← after? '-' rest >>= number? 1 2
  let (day, rest) ← after? '-' rest >>= number? 1 2
  let padded := text.length - rest.length = 10
  match rest with
  | [] => return ⟨year, month, day, none, padded⟩
  | mark :: rest =>
      let start ←
        if mark = 'T' || mark = 't' then some rest
        else if isGap mark then some (rest.dropWhile isGap)
        else none
      return ⟨year, month, day, some (← time? start), padded⟩

/-- Whether a plain scalar is taken for a date: one without a time must have all its digits. -/
def isPlain (text : Text) : Bool :=
  (ofText? text).any fun date => date.padded || date.time.isSome

/-- What is wrong with a time. -/
def Time.fault? (time : Time) : Option Fault :=
  if 23 < time.hour then some .hour
  else if 59 < time.minute then some .minute
  else if 59 < time.second then some .second
  else none

/-- What is wrong with a date. -/
def fault? (date : Date) : Option Fault :=
  let offset := (date.time.map Time.offset).getD 0
  if minutesPerDay ≤ offset.natAbs then some (.offset offset)
  else if date.year = 0 then some (.year date.year)
  else if date.month = 0 || 12 < date.month then some .month
  else if date.day = 0 || daysOf date.year date.month < date.day then some .day
  else date.time.bind Time.fault?

end Date

end Yaml

end IdlFormat
