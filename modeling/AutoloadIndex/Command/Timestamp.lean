set_option autoImplicit false

/-!
Times as they are written in front of the lines of the scan log, in universal time.
-/

namespace AutoloadIndex.Command

/-- A time as seconds and milliseconds since the start of 1970. -/
structure Timestamp where
  seconds : Nat := 0
  milliseconds : Nat := 0
deriving DecidableEq, Repr

namespace Timestamp

def padded (width number : Nat) : String :=
  let digits := Nat.toDigits 10 number
  .ofList (List.replicate (width - digits.length) '0' ++ digits)

/-- Year, month and day of a day, counted from the first of 1970. The reckoning starts years with
March, so that a leap day is the last day of a year, and goes by spans of 400 years. -/
def date (day : Nat) : Nat × Nat × Nat :=
  let day := day + 719468
  let dayOfSpan := day % 146097
  let yearOfSpan := (dayOfSpan - dayOfSpan / 1460 + dayOfSpan / 36524 - dayOfSpan / 146096) / 365
  let dayOfYear := dayOfSpan - (365 * yearOfSpan + yearOfSpan / 4 - yearOfSpan / 100)
  let month := (5 * dayOfYear + 2) / 153
  let year := day / 146097 * 400 + yearOfSpan
  let dayOfMonth := dayOfYear - (153 * month + 2) / 5 + 1
  if month < 10 then (year, month + 3, dayOfMonth) else (year + 1, month - 9, dayOfMonth)

def text (time : Timestamp) : String :=
  let (year, month, day) := date (time.seconds / 86400)
  let second := time.seconds % 86400
  "-".intercalate [padded 4 year, padded 2 month, padded 2 day] ++ " " ++
    ":".intercalate
      [padded 2 (second / 3600), padded 2 (second / 60 % 60), padded 2 (second % 60)] ++
    "." ++ padded 3 time.milliseconds

def line (time : Timestamp) (message : String) : String := "[" ++ time.text ++ "] " ++ message

example : (date 11016, date 11017) = ((2000, 2, 29), (2000, 3, 1)) := by decide

end Timestamp

end AutoloadIndex.Command
