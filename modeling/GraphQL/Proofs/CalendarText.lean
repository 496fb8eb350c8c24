import GraphQL.Calendar.Timestamp
import GraphQL.Proofs.DecimalText
import Mathlib.Data.List.TakeWhile

/-!
A day is read back from its text as the midnight it begins with, and a naive timestamp from its ISO
8601 form as it is. Every field is a number in a fixed width, so a field is read off the front of any
text that begins with it.
-/

namespace GraphQL

namespace Date

open Text

theorem areDigits_padded (width n : Nat) : AreDigits (padded width n) :=
  (areDigits_zeros _).append (areDigits_toDigits n)

theorem padded_ne_nil (width n : Nat) : padded width n ≠ [] := by
  simp [padded, Nat.toDigits_ne_nil]

theorem length_padded {width n : Nat} (positive : 0 < width) (fits : n < 10 ^ width) :
    (padded width n).length = width := by
  have size := (Nat.length_toDigits_le_iff (by decide) positive).2 fits
  simp only [padded, List.length_append, List.length_replicate]
  omega

end Date

namespace Timestamp

open Text

theorem digit?_digitChar {d : Nat} (small : d < 10) : digit? (Nat.digitChar d) = some d :=
  asciiDigit?_digitChar small

theorem ofDigits_padded (width n : Nat) :
    ofDigits ((Date.padded width n).filterMap digit?) = n := by
  have zero : digit? '0' = some 0 := rfl
  rw [Date.padded, List.filterMap_append, List.filterMap_replicate_of_some zero,
    ofDigits_zeros_append, ofDigits_toDigits fun _ => digit?_digitChar]

theorem readDigits_front (field : String) {front : List Char} (digits : AreDigits front)
    (value : Nat) (rest : List Char) (index : Nat) (cut : Bool) :
    readDigits field front.length value ⟨front ++ rest, index, cut⟩
      = .ok ((front.filterMap digit?).foldl (fun total digit => 10 * total + digit) value,
          ⟨rest, index + front.length, cut⟩) := by
  induction front generalizing value index with
  | nil => rfl
  | cons c later ih =>
      obtain ⟨d, small, rfl⟩ := digits c (by simp)
      have one : (Nat.digitChar d).utf8Size = 1 := by interval_cases d <;> rfl
      have tail := ih (fun c member => digits c (List.mem_cons_of_mem _ member))
        (10 * value + d) (index + 1)
      rw [List.length_cons, readDigits, List.filterMap_cons]
      simp only [Input.peek?, List.cons_append, List.head?_cons, Option.bind_some,
        digit?_digitChar small, Input.skip, one, tail, List.foldl_cons]
      rw [Nat.add_assoc, Nat.add_comm 1]

theorem number_padded (field : String) {width n : Nat} (positive : 0 < width)
    (fits : n < 10 ^ width) (rest : List Char) (index : Nat) (cut : Bool) :
    number field width ⟨Date.padded width n ++ rest, index, cut⟩
      = .ok (n, ⟨rest, index + width, cut⟩) := by
  have length := Date.length_padded positive fits
  have read := readDigits_front field (Date.areDigits_padded width n) 0 rest index cut
  have value := ofDigits_padded width n
  rw [ofDigits] at value
  rwa [length, value] at read

theorem sees_cons (test : Char → Bool) (c : Char) (rest : List Char) (index : Nat) (cut : Bool) :
    (⟨c :: rest, index, cut⟩ : Input).sees test = test c := rfl

theorem sees_padded {test : Char → Bool} (other : ∀ d < 10, test (Nat.digitChar d) = false)
    (width n : Nat) (rest : List Char) (index : Nat) (cut : Bool) :
    (⟨Date.padded width n ++ rest, index, cut⟩ : Input).sees test = false := by
  obtain ⟨c, later, shown⟩ := List.exists_cons_of_ne_nil (Date.padded_ne_nil width n)
  obtain ⟨d, small, rfl⟩ := Date.areDigits_padded width n c (by simp [shown])
  rw [shown, List.cons_append, sees_cons, other d small]

theorem day_chars (date : Date) (rest : List Char) (index : Nat) (cut : Bool) :
    day ⟨date.chars ++ rest, index, cut⟩
      = .ok ⟨date.year, date.month, date.day, true, ⟨rest, index + 10, cut⟩⟩ := by
  have yearFits : date.year < 10 ^ 4 := by have := date.year_le; omega
  have monthFits : date.month < 10 ^ 2 := by have := date.month_le; omega
  have dayFits : date.day < 10 ^ 2 := by
    have := date.day_le
    have := Calendar.daysInMonth_le date.year date.month
    omega
  have split : date.chars ++ rest = Date.padded 4 date.year ++ '-' :: (Date.padded 2 date.month
      ++ '-' :: (Date.padded 2 date.day ++ rest)) := by
    simp [Date.chars]
  rw [split, day, number_padded "year" (by decide) yearFits]
  change extendedDay date.year ⟨Date.padded 2 date.month ++ _, index + 4 + 1, cut⟩ = _
  rw [extendedDay, sees_padded (by decide), number_padded "month" (by decide) monthFits]
  change number "day" 2 ⟨Date.padded 2 date.day ++ rest, index + 4 + 1 + 2 + 1, cut⟩ >>= _ = _
  rw [number_padded "day" (by decide) dayFits]
  rfl

theorem fraction_padded {microsecond : Nat} (fits : microsecond < 10 ^ 6) (index : Nat)
    (cut : Bool) :
    fraction ⟨Date.padded 6 microsecond, index, cut⟩
      = .ok (microsecond, ⟨[], index + 6, cut⟩) := by
  have length := Date.length_padded (by decide) fits
  have digits := Date.areDigits_padded 6 microsecond
  have size := digits.length_filterMap fun _ => digit?_digitChar
  have all : (Date.padded 6 microsecond).takeWhile (digit? · |>.isSome)
      = Date.padded 6 microsecond := by
    refine List.takeWhile_eq_self_iff.2 fun c member => ?_
    obtain ⟨d, small, rfl⟩ := digits c member
    rw [digit?_digitChar small]
    rfl
  have nonempty : (Date.padded 6 microsecond).isEmpty = false :=
    List.isEmpty_eq_false_iff.2 (Date.padded_ne_nil 6 microsecond)
  have value := ofDigits_padded 6 microsecond
  have six := List.take_of_length_le (le_of_eq length)
  have behind := List.drop_of_length_le (le_of_eq length)
  rw [ofDigits] at value
  simp only [fraction, all, nonempty, Bool.false_eq_true, if_false, six, value, size, length,
    behind, Nat.sub_self]
  simp

theorem clock_chars (time : TimeOfDay) (index : Nat) (cut : Bool) :
    ∃ last, clock true ⟨time.chars, index, cut⟩
      = .ok ⟨time.hour, time.minute, time.second, time.microsecond, ⟨[], last, cut⟩⟩ := by
  have hourFits : time.hour < 10 ^ 2 := by have := time.hour_le; omega
  have minuteFits : time.minute < 10 ^ 2 := by have := time.minute_le; omega
  have secondFits : time.second < 10 ^ 2 := by have := time.second_le; omega
  have microsecondFits : time.microsecond < 10 ^ 6 := by have := time.microsecond_le; omega
  have split : time.chars = Date.padded 2 time.hour ++ ':' :: (Date.padded 2 time.minute
      ++ ':' :: (Date.padded 2 time.second
        ++ if time.microsecond = 0 then [] else '.' :: Date.padded 6 time.microsecond)) := by
    simp [TimeOfDay.chars]
  rw [split, clock, number_padded "hour" (by decide) hourFits]
  change ∃ last, number "minute" 2 ⟨Date.padded 2 time.minute ++ _, index + 2 + 1, cut⟩ >>= _ = _
  rw [number_padded "minute" (by decide) minuteFits]
  change ∃ last, (secondAndFraction ⟨Date.padded 2 time.second ++ _, index + 2 + 1 + 2 + 1, cut⟩
    >>= _) = _
  rw [secondAndFraction, number_padded "second" (by decide) secondFits]
  by_cases whole : time.microsecond = 0
  · rw [if_pos whole, whole]
    exact ⟨_, rfl⟩
  · rw [if_neg whole]
    change ∃ last, ((fraction ⟨Date.padded 6 time.microsecond, _, cut⟩ >>= _) >>= _) = _
    rw [fraction_padded microsecondFits]
    exact ⟨_, rfl⟩

/-- A text without a null character is read to its end. -/
theorem ofString_ofList {cs : List Char} (whole : '\x00' ∉ cs) :
    Input.ofString (String.ofList cs) = ⟨cs, 0, false⟩ := by
  have kept : cs.takeWhile (· != '\x00') = cs :=
    List.takeWhile_eq_self_iff.2 fun c member => bne_iff_ne.2 (by rintro rfl; exact whole member)
  have uncut : cs.contains '\x00' = false := by simpa using whole
  rw [Input.ofString, String.toList_ofList, kept, uncut]

theorem null_not_mem_padded (width n : Nat) : '\x00' ∉ Date.padded width n := by
  intro member
  obtain ⟨d, small, same⟩ := Date.areDigits_padded width n _ member
  revert same
  interval_cases d <;> decide

theorem null_not_mem_date (date : Date) : '\x00' ∉ date.chars := by
  simp [Date.chars, null_not_mem_padded]

theorem null_not_mem_time (time : TimeOfDay) : '\x00' ∉ time.chars := by
  unfold TimeOfDay.chars
  split <;> simp [null_not_mem_padded]

theorem assemble_parts (date : Date) (time : TimeOfDay) (extended : Bool) (input : Input)
    (offset : Option Int) :
    assemble ⟨date.year, date.month, date.day, extended, input⟩ time.hour time.minute time.second
      time.microsecond offset = .ok ⟨date, time, offset⟩ := by
  have early : time.hour ≠ 24 := by have := time.hour_le; omega
  have timed : TimeOfDay.ofParts time.hour time.minute time.second time.microsecond = .ok time := by
    simp [TimeOfDay.ofParts, time.hour_le, time.minute_le, time.second_le, time.microsecond_le]
  simp only [assemble, early, false_and, if_false, Date.ofParts_self, timed]
  rfl

theorem read_date (date : Date) : read date.text = .ok (atMidnight date) := by
  have parts := day_chars date [] 0 false
  rw [List.append_nil] at parts
  rw [read, Date.text, ofString_ofList (null_not_mem_date date), parts]
  exact assemble_parts date .midnight true _ none

/-- A naive timestamp is read back from its ISO 8601 form. -/
theorem read_isoText {stamp : Timestamp} (naive : stamp.isNaive = true) :
    read stamp.isoText = .ok stamp := by
  obtain ⟨date, time, offset⟩ := stamp
  obtain rfl : offset = none := Option.isNone_iff_eq_none.1 naive
  have shown : (⟨date, time, none⟩ : Timestamp).isoText
      = String.ofList (date.chars ++ 'T' :: time.chars) := by
    simp [isoText, chars]
  have whole : '\x00' ∉ date.chars ++ 'T' :: time.chars := by
    simp [null_not_mem_date, null_not_mem_time]
  obtain ⟨last, clocked⟩ := clock_chars time 11 false
  rw [shown, read, ofString_ofList whole, day_chars]
  change clock true ⟨time.chars, 11, false⟩ >>= _ = _
  rw [clocked]
  exact assemble_parts date time true _ none

end Timestamp

end GraphQL
