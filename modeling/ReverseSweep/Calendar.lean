import ReverseSweep.Fault

/-! Moments of the proleptic Gregorian calendar to the microsecond, their texts, and the time
between two of them. -/

namespace ReverseSweep

structure Moment where
  year : Nat
  month : Nat
  day : Nat
  hour : Nat := 0
  minute : Nat := 0
  second : Nat := 0
  microsecond : Nat := 0
deriving DecidableEq, Repr

namespace Moment

def isLeap (year : Nat) : Bool := year % 4 == 0 && (year % 100 != 0 || year % 400 == 0)

def daysBeforeYear (year : Nat) : Nat :=
  let y := year - 1
  y * 365 + y / 4 - y / 100 + y / 400

def monthLengths (year : Nat) : List Nat :=
  [31, if isLeap year then 29 else 28, 31, 30, 31, 30, 31, 31, 30, 31, 30, 31]

def monthLength (year month : Nat) : Nat := (monthLengths year).getD (month - 1) 0

def checkField (name : String) (least greatest : Nat) (value : Int) : Except Fault Unit :=
  if value < least ∨ greatest < value then .error (.fieldOutOfRange name least greatest)
  else .ok ()

def required (fields : List Int) (name : String) (i : Nat) : Except Fault Int :=
  match fields[i]? with
  | some value => .ok value
  | none => .error (.missingArgument name (i + 1))

/-- The moment with these fields, from the year on. The date is needed; what is left out of the time
is zero. -/
def ofFields (fields : List Int) : Except Fault Moment := do
  let year ← required fields "year" 0
  let month ← required fields "month" 1
  let day ← required fields "day" 2
  let field (i : Nat) : Int := fields.getD i 0
  if year < 1 ∨ 9999 < year then .error (.yearOutOfRange year)
  checkField "month" 1 12 month
  if day < 1 ∨ monthLength year.toNat month.toNat < day then .error .dayOutOfRange
  checkField "hour" 0 23 (field 3)
  checkField "minute" 0 59 (field 4)
  checkField "second" 0 59 (field 5)
  checkField "microsecond" 0 999999 (field 6)
  .ok ⟨year.toNat, month.toNat, day.toNat, (field 3).toNat, (field 4).toNat,
    (field 5).toNat, (field 6).toNat⟩

def days (m : Moment) : Nat :=
  daysBeforeYear m.year + ((monthLengths m.year).take (m.month - 1)).foldl (· + ·) 0 + m.day

def microseconds (m : Moment) : Nat :=
  ((m.days * 24 + m.hour) * 60 + m.minute) * 60000000 + m.second * 1000000 + m.microsecond

/-- Seconds from `start` to `finish`, as the nearest double. -/
def secondsBetween (start finish : Moment) : Float :=
  nearestQuotient ((finish.microseconds : Int) - start.microseconds) 1000000

/-- The text that names a folder. The year has as many digits as it needs. -/
def stamp (m : Moment) : String :=
  let two := Decimal.paddedNatural 2
  Decimal.natural m.year ++ "-" ++ two m.month ++ "-" ++ two m.day ++ "_" ++ two m.hour ++ "-" ++
    two m.minute ++ "-" ++ two m.second

/-- The ISO 8601 text, with microseconds only where there are any. -/
def iso (m : Moment) : String :=
  let two := Decimal.paddedNatural 2
  Decimal.paddedNatural 4 m.year ++ "-" ++ two m.month ++ "-" ++ two m.day ++ "T" ++ two m.hour ++
    ":" ++ two m.minute ++ ":" ++ two m.second ++
    (if m.microsecond = 0 then "" else "." ++ Decimal.paddedNatural 6 m.microsecond)

end Moment
end ReverseSweep
