/-!
Days of the Gregorian calendar in the years 1 to 9999. A `Date` carries the proof that it exists, so
reading one is where an impossible day is refused.
-/

namespace GraphQL

namespace Calendar

def isLeap (year : Nat) : Bool :=
  year % 4 = 0 && (year % 100 ≠ 0 || year % 400 = 0)

def daysInMonth (year month : Nat) : Nat :=
  match month with
  | 2 => if isLeap year then 29 else 28
  | 4 | 6 | 9 | 11 => 30
  | _ => 31

theorem daysInMonth_le (year month : Nat) : daysInMonth year month ≤ 31 := by
  unfold daysInMonth
  split <;> (try split) <;> omega

theorem le_daysInMonth (year month : Nat) : 28 ≤ daysInMonth year month := by
  unfold daysInMonth
  split <;> (try split) <;> omega

end Calendar

open Calendar

structure Date where
  year : Nat
  month : Nat
  day : Nat
  year_pos : 1 ≤ year := by decide
  year_le : year ≤ 9999 := by decide
  month_pos : 1 ≤ month := by decide
  month_le : month ≤ 12 := by decide
  day_pos : 1 ≤ day := by decide
  day_le : day ≤ daysInMonth year month := by decide
deriving DecidableEq, Repr

/-- Why numbers are no date or no time of day. -/
inductive CalendarFault where
  | year (value : Nat)
  | month
  | day
  | hour
  | minute
  | second
  /-- The day after the last one. -/
  | beyondEnd
deriving DecidableEq, Repr

namespace Date

def ofParts (year month day : Nat) : Except CalendarFault Date :=
  if years : 1 ≤ year ∧ year ≤ 9999 then
    if months : 1 ≤ month ∧ month ≤ 12 then
      if days : 1 ≤ day ∧ day ≤ daysInMonth year month then
        .ok ⟨year, month, day, years.1, years.2, months.1, months.2, days.1, days.2⟩
      else .error .day
    else .error .month
  else .error (.year year)

theorem ofParts_self (date : Date) : ofParts date.year date.month date.day = .ok date := by
  simp [ofParts, date.year_pos, date.year_le, date.month_pos, date.month_le, date.day_pos,
    date.day_le]

/-- The following day, unless the date is the last of the calendar. -/
def next? (date : Date) : Except CalendarFault Date :=
  match ofParts date.year date.month (date.day + 1) with
  | .ok following => .ok following
  | .error _ =>
    match ofParts date.year (date.month + 1) 1 with
    | .ok following => .ok following
    | .error _ =>
      match ofParts (date.year + 1) 1 1 with
      | .ok following => .ok following
      | .error _ => .error .beyondEnd

/-- A number filled with zeros to a width. -/
def padded (width n : Nat) : List Char :=
  let digits := Nat.toDigits 10 n
  List.replicate (width - digits.length) '0' ++ digits

def chars (date : Date) : List Char :=
  padded 4 date.year ++ '-' :: padded 2 date.month ++ '-' :: padded 2 date.day

def text (date : Date) : String := String.ofList date.chars

/-- Days since the first day of the year 1, which is day 0. -/
def ordinal (date : Date) : Nat :=
  let before := date.year - 1
  let months := (List.range (date.month - 1)).map fun m => daysInMonth date.year (m + 1)
  365 * before + before / 4 - before / 100 + before / 400 + months.foldr (· + ·) 0 + (date.day - 1)

end Date

end GraphQL
