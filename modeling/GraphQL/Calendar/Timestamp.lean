import GraphQL.Calendar.Date

/-!
Timestamps: a day with a time of day to the microsecond, and optionally an offset from universal
time. `Timestamp.read` reads the common forms of ISO 8601, in the basic and the extended format.
-/

namespace GraphQL

structure TimeOfDay where
  hour : Nat
  minute : Nat
  second : Nat
  microsecond : Nat
  hour_le : hour ≤ 23 := by decide
  minute_le : minute ≤ 59 := by decide
  second_le : second ≤ 59 := by decide
  microsecond_le : microsecond ≤ 999999 := by decide
deriving DecidableEq, Repr

namespace TimeOfDay

def midnight : TimeOfDay := ⟨0, 0, 0, 0, by decide, by decide, by decide, by decide⟩

/-- Digits beyond the sixth of a fraction never reach this point, so microseconds always fit. -/
def ofParts (hour minute second microsecond : Nat) : Except CalendarFault TimeOfDay :=
  if hours : hour ≤ 23 then
    if minutes : minute ≤ 59 then
      if seconds : second ≤ 59 then
        .ok ⟨hour, minute, second, min microsecond 999999, hours, minutes, seconds,
          Nat.min_le_right _ _⟩
      else .error .second
    else .error .minute
  else .error .hour

def microseconds (time : TimeOfDay) : Nat :=
  ((time.hour * 60 + time.minute) * 60 + time.second) * 1000000 + time.microsecond

def chars (time : TimeOfDay) : List Char :=
  Date.padded 2 time.hour ++ ':' :: Date.padded 2 time.minute ++ ':' :: Date.padded 2 time.second
    ++ if time.microsecond = 0 then [] else '.' :: Date.padded 6 time.microsecond

end TimeOfDay

structure Timestamp where
  date : Date
  time : TimeOfDay
  /-- Minutes east of universal time; a naive timestamp has none. -/
  offset : Option Int
deriving DecidableEq, Repr

/-- Why a text is no timestamp. -/
inductive TimestampFault where
  | tooShort (field : String) (missing : Nat)
  | badCharacter (field : String) (found : Char) (index : Nat)
  /-- A year before the common era. -/
  | negativeYear
  | mixedFormats (basicDate : Bool)
  | ordinalDay (value year : Nat)
  | weekDay (week day year : Nat)
  | offsetMinute
  | offsetTooLarge (minutes : Int)
  | trailing (rest : String)
  /-- Something stands behind a null character. -/
  | embeddedNull
  | calendar (fault : CalendarFault)
deriving DecidableEq, Repr

/-- The span of an offset in days and seconds. -/
def offsetSpan (minutes : Int) : String :=
  let days := Int.fdiv minutes 1440
  let seconds := Int.fmod minutes 1440 * 60
  let parts := (if days = 0 then [] else ["days=" ++ toString days])
    ++ if seconds = 0 then [] else ["seconds=" ++ toString seconds]
  "datetime.timedelta(" ++ (if parts.isEmpty then "0" else ", ".intercalate parts) ++ ")"

def CalendarFault.message : CalendarFault → String
  | .year value => "year " ++ toString value ++ " is out of range"
  | .month => "month must be in 1..12"
  | .day => "day is out of range for month"
  | .hour => "hour must be in 0..23"
  | .minute => "minute must be in 0..59"
  | .second => "second must be in 0..59"
  | .beyondEnd => "date value out of range"

namespace TimestampFault

private def found (field : String) (c : Char) (index : Nat) : String :=
  "Invalid character while parsing " ++ field ++ " ('" ++ String.singleton c ++ "', Index: "
    ++ toString index ++ ")"

private def formats (day time : String) : String :=
  "Cannot combine \"" ++ day ++ "\" date format with \"" ++ time ++ "\" time format (Should be "
    ++ "either \x60YYYY-MM-DDThh:mm:ss\x60 or \x60YYYYMMDDThhmmss\x60)."

def message : TimestampFault → String
  | tooShort field missing =>
    "Unexpected end of string while parsing " ++ field ++ ". Expected " ++ toString missing
      ++ " more character" ++ if missing = 1 then "" else "s"
  | badCharacter field c index => found field c index
  | negativeYear =>
    found "year" '-' 0 ++ ". While valid ISO 8601 years, BCE years are not supported by "
      ++ "Python's \x60datetime\x60 objects."
  | mixedFormats true => formats "basic" "extended"
  | mixedFormats false => formats "extended" "basic"
  | ordinalDay value year =>
    "Invalid ordinal day: " ++ toString value
      ++ (if value = 0 then " is too small" else " is too large")
      ++ " for year " ++ toString year
  | weekDay _ _ _ => "Invalid ISO Calendar date"
  | offsetMinute => "tzminute must be in 0..59"
  | offsetTooLarge minutes =>
    "offset must be a timedelta strictly between -timedelta(hours=24) and timedelta(hours=24), not "
      ++ offsetSpan minutes ++ "."
  | trailing rest => "unconverted data remains: '" ++ rest ++ "'"
  | embeddedNull => "unconverted data remains: embedded null byte"
  | calendar fault => fault.message

end TimestampFault

namespace Timestamp

def atMidnight (date : Date) : Timestamp := ⟨date, .midnight, none⟩

def isNaive (stamp : Timestamp) : Bool := stamp.offset.isNone

def offsetChars (minutes : Int) : List Char :=
  (if minutes < 0 then '-' else '+') :: Date.padded 2 (minutes.natAbs / 60)
    ++ ':' :: Date.padded 2 (minutes.natAbs % 60)

/-- The written form, with the given character between day and time. -/
def chars (separator : Char) (stamp : Timestamp) : List Char :=
  stamp.date.chars ++ separator :: stamp.time.chars ++
    match stamp.offset with
    | some minutes => offsetChars minutes
    | none => []

/-- The ISO 8601 form. -/
def isoText (stamp : Timestamp) : String := String.ofList (stamp.chars 'T')

/-- The form of messages, with a space between day and time. -/
def text (stamp : Timestamp) : String := String.ofList (stamp.chars ' ')

/-- Microseconds since the first day of the year 1 in universal time. -/
def instant (stamp : Timestamp) : Int :=
  stamp.date.ordinal * 86400000000 + stamp.time.microseconds
    - stamp.offset.getD 0 * 60000000

/-- The same moment: two naive timestamps with the same fields, or two others at one instant. -/
def equals (left right : Timestamp) : Bool :=
  left.isNaive == right.isNaive && left.instant == right.instant

/-- What is left to read, how many bytes were read before it, and whether a null character cut the
text short. -/
structure Input where
  rest : List Char
  index : Nat
  isCut : Bool

namespace Input

/-- Nothing behind the first null character of a text is read. -/
def ofString (text : String) : Input :=
  ⟨text.toList.takeWhile (· != '\x00'), 0, text.toList.contains '\x00'⟩

def skip (input : Input) : Input :=
  match input.rest with
  | c :: rest => ⟨rest, input.index + c.utf8Size, input.isCut⟩
  | [] => input

def peek? (input : Input) : Option Char := input.rest.head?

def sees (input : Input) (test : Char → Bool) : Bool := input.peek?.any test

def atEnd (input : Input) : Bool := input.rest.isEmpty

end Input

def unexpected (input : Input) (field : String) (missing : Nat) : TimestampFault :=
  match input.peek? with
  | none => .tooShort field missing
  | some c =>
    if c = '-' ∧ input.index = 0 ∧ field = "year" then .negativeYear
    else .badCharacter field c input.index

def digit? (c : Char) : Option Nat :=
  if '0' ≤ c ∧ c ≤ '9' then some (c.toNat - 48) else none

/-- Reads a field of exactly `width` digits. -/
def readDigits (field : String) : (width : Nat) → Nat → Input → Except TimestampFault (Nat × Input)
  | 0, value, input => .ok (value, input)
  | width + 1, value, input =>
    match input.peek?.bind digit? with
    | some digit => readDigits field width (10 * value + digit) input.skip
    | none => .error (unexpected input field (width + 1))

def number (field : String) (width : Nat) (input : Input) : Except TimestampFault (Nat × Input) :=
  readDigits field width 0 input

def isDateTimeSeparator (c : Char) : Bool := c = 'T' || c = 't' || c = ' '

def isZoneSeparator (c : Char) : Bool := c = 'Z' || c = 'z' || c = '+' || c = '-'

/-- Reads one character of a class. -/
def separator (test : Char → Bool) (field : String) (input : Input) :
    Except TimestampFault Input :=
  if input.sees test then .ok input.skip else .error (unexpected input field 1)

/-- Up to six digits of a fraction as microseconds; further digits are dropped. -/
def fraction (input : Input) : Except TimestampFault (Nat × Input) :=
  let digits := input.rest.takeWhile (digit? · |>.isSome)
  if digits.isEmpty then .error (unexpected input "subsecond" 1)
  else
    let kept := (digits.take 6).filterMap digit?
    let value := kept.foldl (fun total digit => 10 * total + digit) 0
    .ok (value * Nat.pow 10 (6 - kept.length),
      ⟨input.rest.drop digits.length, input.index + digits.length, input.isCut⟩)

/-- Walks the months of a year from the given one on until `left` days fall within one. -/
def monthHolding (year : Nat) : (months : Nat) → Nat → Nat → Option (Nat × Nat)
  | 0, _, _ => none
  | months + 1, month, left =>
    if left ≤ Calendar.daysInMonth year month then some (month, left)
    else monthHolding year months (month + 1) (left - Calendar.daysInMonth year month)

/-- The day that is number `count` of its year. -/
def ordinalDate (year count : Nat) : Except TimestampFault (Nat × Nat × Nat) :=
  match if count = 0 then none else monthHolding year 12 1 count with
  | some (month, day) => .ok (year, month, day)
  | none => .error (.ordinalDay count year)

/-- Monday is day 0 of the week; the calendar begins on one. -/
def weekdayOf (year month day : Nat) : Nat :=
  match Date.ofParts year month day with
  | .ok date => date.ordinal % 7
  | .error _ => 0

def daysInYear (year : Nat) : Nat := if Calendar.isLeap year then 366 else 365

/-- A year has a week number 53 when it starts on a Thursday, or on a Wednesday if it is leap. -/
def weeksInYear (year : Nat) : Nat :=
  let first := weekdayOf year 1 1
  if first = 3 ∨ (first = 2 ∧ Calendar.isLeap year) then 53 else 52

/-- The day of a week. The first week of a year is the one with its fourth day in it. -/
def weekDate (year week day : Nat) : Except TimestampFault (Nat × Nat × Nat) :=
  if year = 0 ∨ week = 0 ∨ weeksInYear year < week ∨ day = 0 ∨ 7 < day then
    .error (.weekDay week day year)
  else
    let shifted := 7 * week + day
    let start := weekdayOf year 1 4 + 4
    if shifted ≤ start then
      ordinalDate (year - 1) (daysInYear (year - 1) + shifted - start)
    else if daysInYear year < shifted - start then
      ordinalDate (year + 1) (shifted - start - daysInYear year)
    else ordinalDate year (shifted - start)

/-- The parts of a day, what follows them, and whether they were set off by hyphens. -/
structure DayParts where
  year : Nat
  month : Nat
  day : Nat
  extended : Bool
  input : Input

def endsDay (input : Input) : Bool := input.atEnd || input.sees isDateTimeSeparator

/-- A day by its week; without a day of the week, its first day. -/
def dayOfWeek (year : Nat) (extended : Bool) (input : Input) : Except TimestampFault DayParts := do
  let (week, input) ← number "iso_week" 2 input
  if endsDay input then
    let (year, month, day) ← weekDate year week 1
    return ⟨year, month, day, extended, input⟩
  let input ← if extended then separator (· == '-') "date separator ('-')" input else pure input
  let (day, input) ← number "iso_day" 1 input
  let (year, month, day) ← weekDate year week day
  return ⟨year, month, day, extended, input⟩

def extendedDay (year : Nat) (input : Input) : Except TimestampFault DayParts := do
  if input.sees (· == 'W') then return ← dayOfWeek year true input.skip
  let (month, input) ← number "month" 2 input
  if endsDay input then return ⟨year, month, 1, true, input⟩
  if input.sees (· == '-') then
    let (day, input) ← number "day" 2 input.skip
    return ⟨year, month, day, true, input⟩
  let (last, input) ← number "ordinal day" 1 input
  let (year, month, day) ← ordinalDate year (10 * month + last)
  return ⟨year, month, day, true, input⟩

def basicDay (year : Nat) (input : Input) : Except TimestampFault DayParts := do
  if input.sees (· == 'W') then return ← dayOfWeek year false input.skip
  let (month, input) ← number "month" 2 input
  let (tens, input) ← number "ordinal day" 1 input
  if endsDay input then
    let (year, month, day) ← ordinalDate year (10 * month + tens)
    return ⟨year, month, day, false, input⟩
  let (ones, input) ← number "day" 1 input
  return ⟨year, month, 10 * tens + ones, false, input⟩

def day (input : Input) : Except TimestampFault DayParts := do
  let (year, input) ← number "year" 4 input
  if input.sees (· == '-') then extendedDay year input.skip else basicDay year input

structure ClockParts where
  hour : Nat
  minute : Nat
  second : Nat
  microsecond : Nat
  input : Input

def endsClock (input : Input) : Bool := input.atEnd || input.sees isZoneSeparator

def secondAndFraction (input : Input) : Except TimestampFault (Nat × Nat × Input) := do
  let (second, input) ← number "second" 2 input
  if input.sees (fun c => c == '.' || c == ',') then
    let (microsecond, input) ← fraction input.skip
    return (second, microsecond, input)
  return (second, 0, input)

/-- The time of day in the format that the day was written in. -/
def clock (extended : Bool) (input : Input) : Except TimestampFault ClockParts := do
  let (hour, input) ← number "hour" 2 input
  if endsClock input then return ⟨hour, 0, 0, 0, input⟩
  if input.sees (· == ':') then
    let (minute, input) ← number "minute" 2 input.skip
    let (second, microsecond, input) ←
      if endsClock input then pure (0, 0, input)
      else do secondAndFraction (← separator (· == ':') "time separator (':')" input)
    if !extended then throw (.mixedFormats true)
    return ⟨hour, minute, second, microsecond, input⟩
  else
    let (minute, input) ← number "minute" 2 input
    let (second, microsecond, input) ←
      if endsClock input then pure (0, 0, input) else secondAndFraction input
    if extended then throw (.mixedFormats false)
    return ⟨hour, minute, second, microsecond, input⟩

/-- The offset in minutes, if one is written. -/
def zone (input : Input) : Except TimestampFault (Option Int × Input) := do
  match input.peek? with
  | some c =>
    if c = 'Z' ∨ c = 'z' then return (some 0, input.skip)
    if c = '+' ∨ c = '-' then
      let (hours, input) ← number "tz hour" 2 input.skip
      let (minutes, input) ←
        if input.atEnd then pure (0, input)
        else number "tz minute" 2 (if input.sees (· == ':') then input.skip else input)
      if 59 < minutes then throw .offsetMinute
      let total : Int := 60 * hours + minutes
      let signed := if c = '-' then -total else total
      if 1440 ≤ total then throw (.offsetTooLarge signed)
      return (some signed, input)
    return (none, input)
  | none => return (none, input)

def finish (input : Input) : Except TimestampFault Unit :=
  if !input.atEnd then .error (.trailing (String.ofList input.rest))
  else if input.isCut then .error .embeddedNull
  else .ok ()

def liftCalendar (result : Except CalendarFault α) : Except TimestampFault α :=
  result.mapError .calendar

/-- Puts the parts together; twenty-four o'clock is midnight of the next day. -/
def assemble (parts : DayParts) (hour minute second microsecond : Nat) (offset : Option Int) :
    Except TimestampFault Timestamp := do
  let rollsOver := hour = 24 ∧ minute = 0 ∧ second = 0 ∧ microsecond = 0
  let date ← liftCalendar (Date.ofParts parts.year parts.month parts.day)
  let time ← liftCalendar
    (TimeOfDay.ofParts (if rollsOver then 0 else hour) minute second microsecond)
  let date ← if rollsOver then liftCalendar date.next? else pure date
  return ⟨date, time, offset⟩

def read (text : String) : Except TimestampFault Timestamp := do
  let parts ← day (.ofString text)
  if parts.input.atEnd then
    finish parts.input
    assemble parts 0 0 0 0 none
  else
    let input ←
      separator isDateTimeSeparator "date and time separator (i.e., 'T', 't', or ' ')" parts.input
    let time ← clock parts.extended input
    let (offset, input) ← zone time.input
    finish input
    assemble parts time.hour time.minute time.second time.microsecond offset

end Timestamp

end GraphQL
