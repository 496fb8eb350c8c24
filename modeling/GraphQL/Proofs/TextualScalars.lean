import GraphQL.Leaf.Standard
import GraphQL.Proofs.CalendarText

/-!
The scalars that responses hold as text: days, timestamps and decimals. What one of them writes, it
reads back, as a runtime input and as a literal.
-/

namespace GraphQL

namespace Standard

/-- The scalar reads a text as the value, plainly or in a string literal of either kind. -/
def ReadsText (scalar : Standard) (text : String) (value : Value) : Prop :=
  scalar.parseValue (.str text) = .ok value
    ∧ ∀ start isBlock, scalar.parseLiteral (.string start text isBlock) = .ok value

theorem reads_date (day : Date) : date.ReadsText day.text (.date day) := by
  have read : date.parseValue (.str day.text) = .ok (.date day) := by
    simp only [parseValue, Leaf.Date.parseValue, Leaf.readTimestamp, Timestamp.read_date]
    rfl
  exact ⟨read, fun _ _ => read⟩

theorem reads_isoText {stamp : Timestamp} (naive : stamp.isNaive = true) :
    dateTime.ReadsText stamp.isoText (.timestamp stamp) := by
  have read : dateTime.parseValue (.str stamp.isoText) = .ok (.timestamp stamp) := by
    simp only [parseValue, Leaf.DateTime.parseValue, Leaf.readTimestamp,
      Timestamp.read_isoText naive]
    change (if stamp.isNaive = true then _ else _) = _
    rw [if_pos naive]
    rfl
  exact ⟨read, fun _ _ => read⟩

/-- The text of a day is a timestamp too: the midnight that the day itself is read as. -/
theorem reads_date_as_timestamp (day : Date) :
    dateTime.ReadsText day.text (.timestamp (.atMidnight day)) := by
  have read : dateTime.parseValue (.str day.text) = .ok (.timestamp (.atMidnight day)) := by
    simp only [parseValue, Leaf.DateTime.parseValue, Leaf.readTimestamp, Timestamp.read_date]
    rfl
  exact ⟨read, fun _ _ => read⟩

theorem reads_decimal {number : Decimal} (representable : number.IsRepresentable) :
    decimal.ReadsText number.text (.ofDecimal number) := by
  have read : decimal.parseValue (.str number.text) = .ok (.ofDecimal number) := by
    simp only [parseValue, Leaf.Decimal.parseValue, Decimal.read?_text representable]
  exact ⟨read, fun _ _ => read⟩

/-- Days, naive timestamps and decimals are read back from what is written for them, decimals with
their sign, digits and exponent, and a timestamp is read alike from a day and from its text. -/
theorem written_text_reads_back :
    (∀ day, ∃ text, date.serialize (.date day) = .ok (.str text)
      ∧ date.ReadsText text (.date day)
      ∧ ∃ stamp, dateTime.parseValue (.date day) = .ok stamp ∧ dateTime.ReadsText text stamp)
    ∧ (∀ stamp : Timestamp, stamp.isNaive = true →
        ∃ text, dateTime.serialize (.timestamp stamp) = .ok (.str text)
          ∧ dateTime.ReadsText text (.timestamp stamp))
    ∧ ∀ (number : Decimal) identity, number.IsRepresentable →
        ∃ text, decimal.serialize (.decimal number identity) = .ok (.str text)
          ∧ decimal.ReadsText text (.ofDecimal number) := by
  refine ⟨fun day => ?_, fun stamp naive => ?_, fun number identity representable => ?_⟩
  · exact ⟨day.text, rfl, reads_date day, _, rfl, reads_date_as_timestamp day⟩
  · exact ⟨stamp.isoText, if_pos naive, reads_isoText naive⟩
  · exact ⟨number.text, rfl, reads_decimal representable⟩

/-- The last microsecond of the first year, and a number in scientific notation. -/
theorem scientific_text_reads_back :
    let stamp : Timestamp := 
      { date := { year := 1, month := 12, day := 31 }
        time := { hour := 23, minute := 59, second := 59, microsecond := 999999 }
        offset := none }
    let number : Decimal := .finite true 120 (-10)
    stamp.isoText = "0001-12-31T23:59:59.999999" ∧ number.text = "-1.20E-8"
      ∧ stamp.isNaive = true ∧ number.IsRepresentable
      ∧ (∃ text, dateTime.serialize (.timestamp stamp) = .ok (.str text)
          ∧ dateTime.ReadsText text (.timestamp stamp))
      ∧ ∃ text, decimal.serialize (.ofDecimal number) = .ok (.str text)
          ∧ decimal.ReadsText text (.ofDecimal number) := by
  intro stamp number
  have naive : stamp.isNaive = true := rfl
  have representable : number.IsRepresentable := by
    change Decimal.inBounds 120 (-10) = true
    decide
  exact ⟨by decide, by decide, naive, representable,
    written_text_reads_back.2.1 stamp naive, written_text_reads_back.2.2 number 0 representable⟩

end Standard

end GraphQL
